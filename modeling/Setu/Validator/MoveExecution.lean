import Mathlib.Data.UInt
import Setu.Enclave.TaskStore
import Setu.Enclave.Visibility
import Setu.Move.Effects
import Setu.Validator.Preparation
import Setu.Validator.Serializability

/-!
# Execution of Move requests

Library `Validator`. A request goes through the preparation of its task, the local store of the
enclave and the Move arm of the event. Which objects it binds to the arguments of a call or to the
inputs of a block follows from the identifiers that the client lists: the preparation compares the
two lists of a call with each other and neither with itself, and the block is checked for
repeated inputs but its calls are not checked for repeated arguments.
-/

namespace Setu.Validator

open Setu.Base Setu.Types Setu.Move Setu.Enclave MoveRequest

/-- Where a request fails. -/
inductive MoveFailure where
  | prepare (error : TaskPrepareError)
  | store (error : StfError)
  | event (reason : String)
  deriving DecidableEq

variable {D S : Type} (H : Blake3 D) (decoders : Decoders) (engine : SetuMoveEngine S)

namespace MoveRequest

/-- The task of a request and the store it is executed on, `mock/mod.rs:1768-1772`. -/
def stage (view : ObjectId → Option Bytes) (request : MoveRequest) :
    Except MoveFailure (SolverTask × LocalStore) := do
  let task ← ((request.prepare H decoders).run view).mapError .prepare
  let store ← (buildObjectStore H engine.texts task.readSet task.moduleReadSet).mapError .store
  pure (task, store)

/-- The Move arms of the enclave for a task, `mock/mod.rs:1245-1575`. A call that has read nothing
goes to the path without a store, which has no arm for it, `mock/mod.rs:1753-1788`. -/
def run (request : MoveRequest) (task : SolverTask) (store : LocalStore) (gasBudget : UInt64) :
    Except String MoveExecutionOutput :=
  let inputs := task.resolvedInputs
  match request.payload with
  | .call payload =>
    if task.readSet.isEmpty && task.moduleReadSet.isEmpty then
      .ok ⟨true, [], [], [], [], 0, none⟩
    else executeMoveCallEvent H engine store payload inputs.inputObjects inputs.dynamicFields
      task.event.id task.event.timestamp gasBudget
  | .ptb payload => executeMovePtbEvent H engine store payload inputs.inputObjects
      inputs.dynamicFields task.event.id task.event.timestamp gasBudget

/-- A request from its preparation to the output of the engine. -/
def execute (view : ObjectId → Option Bytes) (request : MoveRequest) (gasBudget : UInt64) :
    Except MoveFailure MoveExecutionOutput := do
  let (task, store) ← request.stage H decoders engine view
  (request.run H engine task store gasBudget).mapError .event

end MoveRequest

variable {H decoders engine} {view : ObjectId → Option Bytes} {request : MoveRequest}
  {gasBudget : UInt64} {output : MoveExecutionOutput}

theorem MoveRequest.execute_eq_ok :
    request.execute H decoders engine view gasBudget = .ok output ↔
      ∃ task store, request.stage H decoders engine view = .ok (task, store) ∧
        request.run H engine task store gasBudget = .ok output := by
  simp only [execute, bind_eq_ok, Prod.exists, mapError_eq_ok]

/-- The object that an input of a block stands for. -/
def inputObjectId (inputs : List CallArg) (i : Nat) : Option ObjectId :=
  match inputs[i]? with
  | some (.object arg) => some arg.id
  | _ => none

/-- The object that an argument of a command stands for. -/
def argumentObjectId (inputs : List CallArg) : Argument → Option ObjectId
  | .input i => inputObjectId inputs i
  | _ => none

variable (H decoders engine)

/-- The objects bound at two positions are different ones: of the arguments of a call, of the
inputs of a block and of the arguments of each call in the block. -/
def OneObjectOneArgument (view : ObjectId → Option Bytes) (request : MoveRequest) : Prop :=
  match request.payload with
  | .call payload =>
    ∀ task store called, request.stage H decoders engine view = .ok (task, store) →
      moveCallRequest engine store payload task.resolvedInputs.inputObjects = .ok called →
      ∀ (p q : Nat) (obj obj' : InputObject), called.inputObjects[p]? = some obj →
        called.inputObjects[q]? = some obj' → obj.id = obj'.id → p = q
  | .ptb payload =>
    (∀ (i j : Nat) (id : ObjectId), inputObjectId payload.ptb.inputs i = some id →
      inputObjectId payload.ptb.inputs j = some id → i = j) ∧
    ∀ mc, .moveCall mc ∈ payload.ptb.commands →
      ∀ (p q : Nat) (arg arg' : Argument) (id : ObjectId), mc.arguments[p]? = some arg →
        mc.arguments[q]? = some arg' → argumentObjectId payload.ptb.inputs arg = some id →
        argumentObjectId payload.ptb.inputs arg' = some id → p = q

/-- A client names each object once: neither list of a call repeats an identifier, and no call in
a block has the same object input as two of its arguments. -/
def NamesOnce : MovePayload → Prop
  | .call payload => payload.inputObjectIds.Nodup ∧ payload.sharedObjectIds.Nodup
  | .ptb payload => ∀ mc, .moveCall mc ∈ payload.ptb.commands →
      ∀ (p q i : Nat), mc.arguments[p]? = some (.input i) → mc.arguments[q]? = some (.input i) →
        (inputObjectId payload.ptb.inputs i).isSome → p = q

variable {H decoders engine} {store : LocalStore}

theorem MoveRequest.stage_eq_ok {task : SolverTask}
    (h : request.stage H decoders engine view = .ok (task, store)) :
    (request.prepare H decoders).run view = .ok task ∧
      buildObjectStore H engine.texts task.readSet task.moduleReadSet = .ok store := by
  simp only [stage, bind_eq_ok, mapError_eq_ok, pure_eq_ok, Prod.mk.injEq] at h
  obtain ⟨_, ht, _, hs, rfl, rfl⟩ := h
  exact ⟨ht, hs⟩

theorem map_id_of_moveCallRequest {payload : MoveCallPayload} {resolved : List ResolvedObject}
    {called : MoveCallRequest} (h : moveCallRequest engine store payload resolved = .ok called) :
    called.inputObjects.map InputObject.id = resolved.map ResolvedObject.objectId := by
  simp only [moveCallRequest, bind_eq_ok, pure_eq_ok] at h
  obtain ⟨sender, -, inputObjects, hin, _, -, _, -, _, -, _, -, rfl⟩ := h
  have hid : inputObjects.map InputObject.id =
      resolved.zipIdx.map (ResolvedObject.objectId ∘ Prod.fst) := by
    refine map_eq_map_of_mapM_ok hin fun object input hi ↦ ?_
    simp only [moveCallInput, inputObject, InputObject.fromEnvelope, bind_eq_ok,
      mapError_eq_ok, pure_eq_ok] at hi
    obtain ⟨_, -, _, -, _, -, rfl⟩ := hi
    rfl
  rw [hid, ← List.map_map, List.zipIdx_map_fst]

private theorem nodup_map_iff {α β : Type} {f : α → β} {l : List α} :
    (l.map f).Nodup ↔
      ∀ (p q : Nat) (a a' : α), l[p]? = some a → l[q]? = some a' → f a = f a' → p = q := by
  rw [List.nodup_iff_getElem?_ne_getElem?]
  constructor
  · intro h p q a a' hp hq heq
    have hm : (l.map f)[p]? = (l.map f)[q]? := by simp [hp, hq, heq]
    have hpl : p < (l.map f).length := by simpa using (List.getElem?_eq_some_iff.mp hp).1
    have hql : q < (l.map f).length := by simpa using (List.getElem?_eq_some_iff.mp hq).1
    rcases Nat.lt_trichotomy p q with hlt | rfl | hgt
    · exact absurd hm (h p q hlt hql)
    · rfl
    · exact absurd hm.symm (h q p hgt hpl)
  · intro h p q hlt hq heq
    rw [List.length_map] at hq
    rw [List.getElem?_map, List.getElem?_map, List.getElem?_eq_getElem hq,
      List.getElem?_eq_getElem (hlt.trans hq), Option.map_some, Option.map_some,
      Option.some.injEq] at heq
    exact hlt.ne (h p q _ _ (List.getElem?_eq_getElem _) (List.getElem?_eq_getElem hq) heq)

theorem eq_object_of_inputObjectId {inputs : List CallArg} {i : Nat} {id : ObjectId}
    (h : inputObjectId inputs i = some id) :
    ∃ arg, inputs[i]? = some (.object arg) ∧ arg.id = id := by
  unfold inputObjectId at h
  split at h
  · next arg ha => exact ⟨arg, ha, Option.some.inj h⟩
  · cases h

private theorem oneObjectOneArgument_call {payload : MoveCallPayload}
    (hp : request.payload = .call payload) {task : SolverTask}
    (hs : request.stage H decoders engine view = .ok (task, store))
    (hr : request.run H engine task store gasBudget = .ok output) :
    OneObjectOneArgument H decoders engine view request ↔
      (payload.inputObjectIds ++ payload.sharedObjectIds).Nodup := by
  obtain ⟨hpr, -⟩ := stage_eq_ok hs
  simp only [prepare, hp] at hpr
  obtain ⟨-, hpp⟩ := callPrepared_of_prepareMoveCallTask hpr
  simp only [run, hp] at hr
  simp only [OneObjectOneArgument, hp, ← nodup_map_iff, ← hpp.objects]
  constructor
  · intro h
    split at hr
    · next he =>
      -- nothing was read, so there are no inputs
      simp [hpp.inputObjects_of_isEmpty he]
    · simp only [executeMoveCallEvent, bind_eq_ok] at hr
      obtain ⟨called, hc, -⟩ := hr
      rw [← map_id_of_moveCallRequest hc]
      exact h task store called hs hc
  · intro h task' store' called hs' hc
    rw [hs] at hs'
    cases hs'
    rwa [map_id_of_moveCallRequest hc]

private theorem oneObjectOneArgument_ptb {payload : MovePtbPayload}
    (hpa : request.payload = .ptb payload) {task : SolverTask}
    (hr : request.run H engine task store gasBudget = .ok output) :
    OneObjectOneArgument H decoders engine view request ↔ NamesOnce (.ptb payload) := by
  simp only [run, hpa] at hr
  obtain ⟨_, _, _, -, -, -, -, hb⟩ := executeMovePtbEvent_eq_ok.mp hr
  obtain ⟨_, _, hbe, -, -⟩ := SetuMoveEngine.executePtbBody_eq_ok.mp hb
  obtain ⟨_, hw, -⟩ := SetuMoveEngine.beginPtb_eq_ok hbe
  have hin : ∀ (i j : Nat) (id : ObjectId), inputObjectId payload.ptb.inputs i = some id →
      inputObjectId payload.ptb.inputs j = some id → i = j := by
    intro i j id hi hj
    obtain ⟨arg, ha, rfl⟩ := eq_object_of_inputObjectId hi
    obtain ⟨arg', ha', hid⟩ := eq_object_of_inputObjectId hj
    exact ProgrammableTransaction.eq_of_validateWire hw ha ha' hid.symm
  simp only [OneObjectOneArgument, hpa, NamesOnce]
  constructor
  · rintro ⟨-, h⟩ mc hmc p q i hp hq ho
    obtain ⟨id, hid⟩ := Option.isSome_iff_exists.mp ho
    exact h mc hmc p q _ _ id hp hq hid hid
  · refine fun h ↦ ⟨hin, fun mc hmc p q arg arg' id hp hq hid hid' ↦ ?_⟩
    cases arg with
    | gasCoin | result | nestedResult => cases hid
    | input i =>
      cases arg' with
      | gasCoin | result | nestedResult => cases hid'
      | input j =>
        obtain rfl : i = j := hin i j id hid hid'
        exact h mc hmc p q i hp hq (Option.isSome_of_mem hid)

/-- A request that was prepared and executed binds no object twice exactly if the client names
each object once. -/
theorem oneObjectOneArgument_iff
    (h : request.execute H decoders engine view gasBudget = .ok output) :
    OneObjectOneArgument H decoders engine view request ↔ NamesOnce request.payload := by
  obtain ⟨task, store, hs, hr⟩ := MoveRequest.execute_eq_ok.mp h
  cases hp : request.payload with
  | call payload =>
    obtain ⟨hpr, -⟩ := MoveRequest.stage_eq_ok hs
    simp only [MoveRequest.prepare, hp] at hpr
    obtain ⟨-, hpp⟩ := callPrepared_of_prepareMoveCallTask hpr
    rw [oneObjectOneArgument_call hp hs hr, NamesOnce, List.nodup_append']
    have ha : payload.inputObjectIds.Disjoint payload.sharedObjectIds :=
      fun id hi hsh ↦ hpp.apart id hsh hi
    simp [ha]
  | ptb payload => exact oneObjectOneArgument_ptb hp hr

/-- Decoders of a state that holds objects only. -/
def objectDecoders : Decoders where
  detectAndParse := detectAndParse
  dfFieldValue _ := .error ""
  linkage _ := .error ""
  compiledModule _ := .error ""
  hexError _ := ""

/-- An identifier of equal bytes. -/
def idOf (byte : UInt8) : ObjectId := ⟨Vector.replicate 32 byte⟩

/-- A coin of a hundred that belongs to the zero address. -/
def hundred (byte : UInt8) : ObjectEnvelope :=
  .fromMoveResult Blake3.ideal (idOf byte) .zero 1 (.addressOwner .zero) "0x1::coin::Coin<u8>"
    ((idOf byte).asBytes ++ u64Le 100)

/-- The balance of a serialized coin. -/
def balanceOf (coin : Bytes) : UInt64 := (readU64.parse (coin.drop 32)).getD 0

/-- A VM that runs `combine(a: Coin<T>, b: Coin<T>, ctx)`: both coins are destroyed and the sender
gets a new one with the sum of their balances. -/
def combineEngine : SetuMoveEngine Unit :=
  let engine := permissiveEngine
    (fun _ _ ↦ ⟨[.value (.struct (coinTag .u8)), .value (.struct (coinTag .u8))], []⟩)
    ⟨.public, true⟩
  { engine with
    tags := { engine.tags with parseStruct := fun _ ↦ .ok (coinTag .u8) }
    vm := { engine.vm with
      execute := fun _ rt gas call ↦
        let sum := (call.args.map balanceOf).sum
        let coin := (rt.nextId Blake3.ideal).asBytes ++ u64Le sum
        (gas, .ok (⟨[], []⟩, (call.args.filterMap extractUidFromBcs).map .deleteUid ++
          [.newUid, .transfer rt.sender (coinTag .u8) coin], ())) } }

/-- The call of `combine` on two objects. -/
def combineCall (first second : UInt8) : MoveRequest where
  event :=
    { id := "combine"
      eventType := .contractCall
      parentIds := []
      subnetId := none
      transfer := none
      payload := .moveCall []
      vlcSnapshot := ⟨∅, 0, 0⟩
      creator := ""
      status := .pending
      executionResult := none
      timestamp := 0 }
  payload := .call
    { sender := Address.zero.toText
      package := "0x1"
      module := "bank"
      function := "combine"
      typeArgs := []
      args := []
      inputObjectIds := [idOf first, idOf second]
      sharedObjectIds := []
      mutableIndices := none
      consumedIndices := some [0, 1]
      needsTxContext := false
      dynamicFieldAccesses := [] }
  subnetId := .root

/-- A state with two coins of a hundred. -/
def twoCoins (id : ObjectId) : Option Bytes :=
  if id = idOf 1 then some (hundred 1).toBytes
  else if id = idOf 2 then some (hundred 2).toBytes
  else none

theorem exists_output_combine :
    ∃ output, (combineCall 1 2).execute Blake3.ideal objectDecoders combineEngine twoCoins 0 =
      .ok output :=
  ⟨_, eq_ok_get (by decide +kernel)⟩

theorem oneObjectOneArgument_two_coins :
    ∃ output, (combineCall 1 2).execute Blake3.ideal objectDecoders combineEngine twoCoins 0 =
        .ok output ∧
      (OneObjectOneArgument Blake3.ideal objectDecoders combineEngine twoCoins (combineCall 1 2) ↔
        NamesOnce (combineCall 1 2).payload) := by
  obtain ⟨output, h⟩ := exists_output_combine
  exact ⟨output, h, oneObjectOneArgument_iff h⟩

/-- The same coin in both places: it is destroyed once and its balance is paid out twice. -/
theorem combine_binds_coin_twice :
    ∃ output, (combineCall 1 1).execute Blake3.ideal objectDecoders combineEngine twoCoins 0 =
        .ok output ∧
      output.stateChanges.map MoveStateChange.changeType = [.create, .delete] ∧
      (output.stateChanges.filterMap MoveStateChange.data).map balanceOf = [200] ∧
      ¬ OneObjectOneArgument Blake3.ideal objectDecoders combineEngine twoCoins
        (combineCall 1 1) := by
  obtain ⟨output, h, heq⟩ := exists_ok_of_map_toOption (x := (combineCall 1 1).execute Blake3.ideal
    objectDecoders combineEngine twoCoins 0) (f := fun output ↦
      (output.stateChanges.map MoveStateChange.changeType,
        (output.stateChanges.filterMap MoveStateChange.data).map balanceOf))
    (d := ([.create, .delete], [200])) (by decide +kernel)
  obtain ⟨ht, hb⟩ := Prod.mk.inj heq
  refine ⟨output, h, ht, hb, ?_⟩
  obtain ⟨task, store, hs, hr⟩ := MoveRequest.execute_eq_ok.mp h
  rw [oneObjectOneArgument_call rfl hs hr]
  simp

end Setu.Validator
