import Setu.Move.Outcome
import Setu.Validator.MoveEffects

/-!
# Objects passed by value

Library `Validator`. An object that Move code takes by value should not stay in the state as it
was. The engine learns what became of it from the natives that the code called: moving the object
into another one calls none.
-/

namespace Setu.Validator

open Setu.Base Setu.Types Setu.Runtime Setu.Move Setu.Enclave MoveRequest

variable {D S : Type} (H : Blake3 D) (decoders : Decoders) (engine : SetuMoveEngine S)

/-- The function that a call names takes the object by value, or a command of the block moves it
out of its slot. -/
def MoveRequest.PassedByValue (view : ObjectId → Option Bytes) (request : MoveRequest)
    (gasBudget : UInt64) (id : ObjectId) : Prop :=
  ∃ task store, request.stage H decoders engine view = .ok (task, store) ∧
    let inputs := task.resolvedInputs
    match request.payload with
    | .call payload => ∃ (called : MoveCallRequest) (signature : Signature) (p : Nat)
        (obj : InputObject) (tag : TypeTag),
      moveCallRequest engine store payload inputs.inputObjects = .ok called ∧
      engine.vm.loadFunction (engine.vm.newSession (engine.getModule store.getRaw))
        called.moduleId called.function called.typeArgs = .ok signature ∧
      called.inputObjects[p]? = some obj ∧ obj.id = id ∧
      signature.parameters[p]? = some (.value tag)
    | .ptb payload => ∃ sender inputObjects ctx st st' i,
      inputs.inputObjects.mapM (movePtbInput engine store payload sender) = .ok inputObjects ∧
      ctx = moveContext (deriveTxHash H task.event.id) sender gasBudget task.event.timestamp true ∧
      engine.beginPtb store.getRaw payload.ptb inputObjects inputs.dynamicFields ctx = .ok st ∧
      engine.runCommands H store.getRaw ctx payload.ptb.inputs payload.ptb.commands.zipIdx st =
        .ok st' ∧
      .input i ∈ st'.pctx.consumed ∧ inputObjectId payload.ptb.inputs i = some id

variable {H decoders engine} {view : ObjectId → Option Bytes} {request : MoveRequest}
  {gasBudget : UInt64} {output : MoveExecutionOutput} {id : ObjectId}

theorem MoveRequest.PassedByValue.mem_objectIds
    (h : request.PassedByValue H decoders engine view gasBudget id) : id ∈ request.objectIds := by
  obtain ⟨task, store, hs, h⟩ := h
  obtain ⟨hpr, -⟩ := stage_eq_ok hs
  obtain ⟨-, ho, -⟩ := inputs_of_prepare hpr
  cases hp : request.payload with
  | call payload =>
    simp only [hp] at h
    obtain ⟨called, _, p, obj, _, hc, -, hob, rfl, -⟩ := h
    rw [← ho, ← map_id_of_moveCallRequest hc]
    exact List.mem_map_of_mem (List.mem_of_getElem? hob)
  | ptb payload =>
    simp only [hp] at h
    obtain ⟨_, _, _, _, _, i, -, -, -, -, -, hid⟩ := h
    obtain ⟨arg, ha, rfl⟩ := eq_object_of_inputObjectId hid
    simp only [objectIds, hp, objectInputs, List.mem_map, List.mem_filterMap]
    exact ⟨(arg.id, i), ⟨(.object arg, i), List.mem_zipIdx_iff_getElem?.mpr ha, rfl⟩, rfl⟩

/-- After the changes the object is gone, or stored as an operation of the history gave it to an
owner. -/
def Account.Released {tags : TagSyntax} {txHash : Bytes} {changes : List MoveStateChange}
    (account : Account H tags txHash changes) (view : ObjectId → Option Bytes) (id : ObjectId) :
    Prop :=
  applyChanges view changes id = none ∨
    ∃ env, applyChanges view changes id = some env.toBytes ∧ ∃ op ∈ account.ops, op.Emits id env

/-- The changes of an executed request have an account, and whatever account they have: an object
passed by value is released exactly if the Move code deleted it or gave it to an owner. -/
theorem released_iff (h : request.execute H decoders engine view gasBudget = .ok output) :
    (∃ account : Account H engine.tags (deriveTxHash H request.event.id) output.stateChanges,
      account.inputObjects.map InputObject.id = request.objectIds) ∧
    ∀ account : Account H engine.tags (deriveTxHash H request.event.id) output.stateChanges,
      account.inputObjects.map InputObject.id = request.objectIds →
      ∀ id, request.PassedByValue H decoders engine view gasBudget id → id ∉ account.created →
        (account.Released view id ↔
          id ∈ account.destroyed ∨ ∃ op ∈ account.ops, op.moves = some id) := by
  refine ⟨MoveRequest.exists_account h, fun account hi id hp hc ↦ ?_⟩
  have hid := hp.mem_objectIds
  obtain ⟨task, store, hs, -⟩ := MoveRequest.execute_eq_ok.mp h
  obtain ⟨data, hd, -⟩ := MoveRequest.loaded_of_prepare (MoveRequest.stage_eq_ok hs).1 hid
  have hf : account.record.fieldEffects id = 0 := by
    refine account.fieldEffects_of_mem ?_
    rw [hi]
    exact hid
  have hr : (applyChanges view (account.record.stateChanges H engine.tags 0) id = none ∨
      ∃ env, applyChanges view (account.record.stateChanges H engine.tags 0) id =
          some env.toBytes ∧ ∃ op ∈ account.ops, op.Emits id env) ↔ _ :=
    SetuObjectRuntime.gone_or_emitted_iff account.replayed hf hc (by simp [hd])
  rwa [← account.changes_eq] at hr

/-- A parameter of the function that is a value takes the object at its place by value. -/
theorem passedByValue_of_loadFunction {payload : MoveCallPayload}
    (hpa : request.payload = .call payload)
    (h : request.execute H decoders engine view gasBudget = .ok output) {p : Nat}
    (hid : request.objectIds[p]? = some id)
    (hv : ∀ data module function typeArgs, ∃ signature tag,
      engine.vm.loadFunction data module function typeArgs = .ok signature ∧
        signature.parameters[p]? = some (.value tag)) :
    request.PassedByValue H decoders engine view gasBudget id := by
  obtain ⟨task, store, hs, hr⟩ := execute_eq_ok.mp h
  have hp := (stage_eq_ok hs).1
  obtain ⟨-, ho, -⟩ := inputs_of_prepare hp
  rw [← ho] at hid
  refine ⟨task, store, hs, ?_⟩
  simp only [run, hpa] at hr ⊢
  split at hr
  · next he =>
    simp only [prepare, hpa] at hp
    rw [(callPrepared_of_prepareMoveCallTask hp).2.inputObjects_of_isEmpty he] at hid
    cases hid
  · simp only [executeMoveCallEvent, bind_eq_ok] at hr
    obtain ⟨called, hc, -⟩ := hr
    rw [← map_id_of_moveCallRequest hc, List.getElem?_map, Option.map_eq_some_iff] at hid
    obtain ⟨obj, hob, hid⟩ := hid
    obtain ⟨signature, tag, hl, hpr⟩ := hv
      (engine.vm.newSession (engine.getModule store.getRaw)) called.moduleId called.function
      called.typeArgs
    exact ⟨called, signature, p, obj, tag, hc, hl, hob, hid, hpr⟩

theorem released_combine :
    ∃ output, (combineCall 1 2).execute Blake3.ideal objectDecoders combineEngine twoCoins 0 =
        .ok output ∧
      (combineCall 1 2).PassedByValue Blake3.ideal objectDecoders combineEngine twoCoins 0
        (idOf 1) ∧
      (∃ account : Account Blake3.ideal combineEngine.tags
          (deriveTxHash Blake3.ideal (combineCall 1 2).event.id) output.stateChanges,
        account.inputObjects.map InputObject.id = (combineCall 1 2).objectIds) ∧
      ∀ account : Account Blake3.ideal combineEngine.tags
          (deriveTxHash Blake3.ideal (combineCall 1 2).event.id) output.stateChanges,
        account.inputObjects.map InputObject.id = (combineCall 1 2).objectIds →
        idOf 1 ∉ account.created →
          (account.Released twoCoins (idOf 1) ↔
            idOf 1 ∈ account.destroyed ∨ ∃ op ∈ account.ops, op.moves = some (idOf 1)) := by
  obtain ⟨output, h⟩ := exists_output_combine
  have hp : (combineCall 1 2).PassedByValue Blake3.ideal objectDecoders combineEngine twoCoins
      0 (idOf 1) :=
    passedByValue_of_loadFunction rfl h (p := 0) rfl fun _ _ _ _ ↦ ⟨_, _, rfl, rfl⟩
  obtain ⟨ha, hr⟩ := released_iff h
  exact ⟨output, h, hp, ha, fun account hi ↦ hr account hi _ hp⟩

/-- A VM that runs `wrap(c: Coin<T>, ctx)`: the sender gets a new object that holds the coin. -/
def wrapEngine : SetuMoveEngine Unit :=
  { combineEngine with
    vm := { combineEngine.vm with
      loadFunction := fun _ _ _ _ ↦ .ok ⟨[.value (.struct (coinTag .u8))], []⟩
      execute := fun _ rt gas call ↦
        let box := (rt.nextId Blake3.ideal).asBytes ++ call.args.headD []
        (gas, .ok (⟨[], []⟩, [.newUid, .transfer rt.sender
          (.mk frameworkAddr (ident "bank") (ident "Box") .nil) box], ())) } }

/-- The call of `wrap` on the first coin. -/
def wrapCall : MoveRequest :=
  { combineCall 1 1 with
    payload := .call
      { sender := Address.zero.toText
        package := "0x1"
        module := "bank"
        function := "wrap"
        typeArgs := []
        args := []
        inputObjectIds := [idOf 1]
        sharedObjectIds := []
        mutableIndices := none
        consumedIndices := some [0]
        needsTxContext := false
        dynamicFieldAccesses := [] } }

/-- The coin is in the box, and it also stays in the state as it was. -/
theorem wrap_leaves_coin_live :
    ∃ output, wrapCall.execute Blake3.ideal objectDecoders wrapEngine twoCoins 0 = .ok output ∧
      wrapCall.PassedByValue Blake3.ideal objectDecoders wrapEngine twoCoins 0 (idOf 1) ∧
      (output.stateChanges.filterMap MoveStateChange.data).map (List.drop 32) =
        [(hundred 1).data] ∧
      applyChanges twoCoins output.stateChanges (idOf 1) = some (hundred 1).toBytes := by
  obtain ⟨output, h, heq⟩ := exists_ok_of_map_toOption
    (x := wrapCall.execute Blake3.ideal objectDecoders wrapEngine twoCoins 0)
    (f := fun output ↦
      ((output.stateChanges.filterMap MoveStateChange.data).map (List.drop 32),
        applyChanges twoCoins output.stateChanges (idOf 1)))
    (d := ([(hundred 1).data], some (hundred 1).toBytes)) (by decide +kernel)
  obtain ⟨hb, hc⟩ := Prod.mk.inj heq
  exact ⟨output, h, passedByValue_of_loadFunction rfl h (p := 0) rfl fun _ _ _ _ ↦
    ⟨_, _, rfl, rfl⟩, hb, hc⟩

end Setu.Validator
