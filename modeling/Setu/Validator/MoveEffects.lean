import Setu.Move.CoinFunctions
import Setu.Move.FinalEffects
import Setu.Validator.MoveExecution

/-!
# Effects of Move requests on objects

Library `Validator`. The changes of an executed request are those of a record of native calls and
mutations. What the changes make of an object follows from what the record's history did to it.
-/

namespace Setu.Validator

open Setu.Base Setu.Types Setu.Runtime Setu.Move Setu.Enclave MoveRequest

variable {D S : Type} {H : Blake3 D} {decoders : Decoders} {engine : SetuMoveEngine S}
  {view : ObjectId → Option Bytes} {request : MoveRequest} {gasBudget : UInt64}
  {output : MoveExecutionOutput}

/-- A history that accounts for the changes of a transaction: it leads from the objects loaded, and
from fields apart from them, to a record with these changes. -/
structure Account (H : Blake3 D) (tags : TagSyntax) (txHash : Bytes)
    (changes : List MoveStateChange) where
  inputObjects : List InputObject
  dynamicFields : List ResolvedDynamicField
  sender : Address
  timestamp : UInt64
  ops : List RecordOp
  record : SetuObjectRuntime
  replayed : (SetuObjectRuntime.new inputObjects dynamicFields txHash sender timestamp).replay H
    ops = .ok record
  apart : ∀ object ∈ inputObjects, ∀ field ∈ dynamicFields, field.dfObjectId ≠ object.id
  changes_eq : changes = record.stateChanges H tags 0

namespace Account

variable {tags : TagSyntax} {txHash : Bytes} {changes : List MoveStateChange}

variable (account : Account H tags txHash changes)

/-- The identifiers created in the history. -/
def created : List ObjectId :=
  createdIn H txHash 0 account.ops

/-- The identifiers destroyed in the history. -/
def destroyed : List ObjectId :=
  destroyedIn account.ops

/-- The objects loaded, by identifier. -/
def loaded : HashMap ObjectId InputObject :=
  HashMap.insertAll ∅ (account.inputObjects.map fun obj ↦ (obj.id, obj))

theorem inputObjects_record : account.record.inputObjects = account.loaded :=
  SetuObjectRuntime.inputObjects_replay account.replayed

/-- An object that was loaded is no field with effects. -/
theorem fieldEffects_of_mem {id : ObjectId} (hid : id ∈ account.inputObjects.map InputObject.id) :
    account.record.fieldEffects id = 0 := by
  refine Nat.eq_zero_of_not_pos fun hp ↦ ?_
  obtain ⟨field, hf, rfl⟩ := SetuObjectRuntime.exists_preload_of_fieldEffects account.replayed hp
  obtain ⟨object, ho, heq⟩ := List.mem_map.mp hid
  exact account.apart object ho field hf heq.symm

/-- A field that has an effect was not loaded as an object. -/
theorem lookup_of_fieldEffects {id : ObjectId} (hid : 0 < account.record.fieldEffects id) :
    account.record.inputObjects.lookup id = none := by
  rw [inputObjects_record, loaded, HashMap.lookup_insertAll_of_not_mem]
  · rfl
  · intro hm
    rw [List.map_map] at hm
    exact hid.ne' (account.fieldEffects_of_mem hm)

end Account

/-- The objects that a request loads. -/
def MoveRequest.objectIds (request : MoveRequest) : List ObjectId :=
  match request.payload with
  | .call payload => payload.inputObjectIds ++ payload.sharedObjectIds
  | .ptb payload => (objectInputs payload.ptb.inputs).map Prod.fst

variable {id : ObjectId}

private theorem ownership_of_checkOwnedInput {call : MoveCallPayload} {senderAddr : Address}
    {idx : Nat} {env : ObjectEnvelope}
    (h : checkOwnedInput H call senderAddr idx id (.envelope env) = .ok ⟨⟩) (parent : ObjectId) :
    env.ownership ≠ .objectOwner parent := by
  intro ho
  simp [checkOwnedInput, ho] at h

private theorem ownership_of_checkPtbInput {sender : String} {senderAddr : Address} {idx : Nat}
    {version : UInt64} {digest : Bytes} {env : ObjectEnvelope}
    (h : checkPtbInput H sender senderAddr idx id version digest env = .ok ⟨⟩) (parent : ObjectId)
    : env.ownership ≠ .objectOwner parent := by
  intro ho
  simp only [checkPtbInput, ho] at h
  cases h

private theorem exists_input_of_mem_objectInputs {inputs : List CallArg}
    (h : id ∈ (objectInputs inputs).map Prod.fst) :
    ∃ (idx : Nat) (arg : ObjectArg), inputs[idx]? = some (.object arg) ∧ arg.id = id := by
  simp only [objectInputs, List.mem_map, List.mem_filterMap, Prod.exists,
    List.mem_zipIdx_iff_getElem?] at h
  obtain ⟨_, _, ⟨arg, idx, hi, heq⟩, rfl⟩ := h
  cases arg with
  | pure => cases heq
  | object arg =>
    cases heq
    exact ⟨_, arg, hi, rfl⟩

variable {task : SolverTask}

/-- An object that a request loads is in the state, and not as a dynamic field. -/
theorem MoveRequest.loaded_of_prepare (h : (request.prepare H decoders).run view = .ok task)
    (hid : id ∈ request.objectIds) :
    ∃ data, view id = some data ∧ ∀ env, decoders.detectAndParse data = .envelope env →
      ∀ parent, env.ownership ≠ .objectOwner parent := by
  unfold objectIds at hid
  unfold prepare at h
  cases hpa : request.payload with
  | call payload =>
    simp only [hpa] at h hid
    obtain ⟨-, hp⟩ := callPrepared_of_prepareMoveCallTask h
    obtain hid | hid := List.mem_append.mp hid
    · obtain ⟨idx, hi⟩ := List.mem_iff_getElem?.mp hid
      obtain ⟨data, hd, hc⟩ := hp.owned idx id hi
      refine ⟨data, hd, fun env he ↦ ?_⟩
      rw [he] at hc
      exact ownership_of_checkOwnedInput hc
    · obtain ⟨data, env, initial, hd, he, ho⟩ := hp.shared id hid
      refine ⟨data, hd, fun env' he' parent ↦ ?_⟩
      rw [he] at he'
      cases he'
      simp [ho]
  | ptb payload =>
    simp only [hpa] at h hid
    obtain ⟨-, hp⟩ := ptbPrepared_of_prepareMovePtbTask h
    obtain ⟨idx, arg, hi, rfl⟩ := exists_input_of_mem_objectInputs hid
    obtain ⟨version, digest, data, env, hd, he, hc⟩ := hp.checked idx arg hi
    refine ⟨data, hd, fun env' he' ↦ ?_⟩
    rw [he] at he'
    cases he'
    exact ownership_of_checkPtbInput hc

/-- What the task of a request is for: its event, its objects, and dynamic fields that were
resolved on the view. -/
theorem MoveRequest.inputs_of_prepare (h : (request.prepare H decoders).run view = .ok task) :
    task.event = request.event ∧
      task.resolvedInputs.inputObjects.map ResolvedObject.objectId = request.objectIds ∧
      ∀ field ∈ task.resolvedInputs.dynamicFields, view field.dfObjectId = none ∨
        ∃ data env, view field.dfObjectId = some data ∧
          decoders.detectAndParse data = .envelope env ∧
          env.ownership = .objectOwner field.parentObjectId := by
  unfold objectIds
  unfold prepare at h
  cases hpa : request.payload with
  | call payload =>
    simp only [hpa] at h ⊢
    obtain ⟨he, hp⟩ := callPrepared_of_prepareMoveCallTask h
    obtain ⟨accesses, resolved, hr, hfi⟩ := hp.fields
    refine ⟨he, hp.objects, fun field hf ↦ ?_⟩
    obtain ⟨_, hm, rfl⟩ := List.mem_map.mp (hfi ▸ hf)
    exact (resolved_of_resolveDynamicFieldsInto hr hm).2.2.2.imp And.left
      fun ⟨data, env, hd, he, ho, _⟩ ↦ ⟨data, env, hd, he, ho⟩
  | ptb payload =>
    simp only [hpa] at h ⊢
    obtain ⟨he, hp⟩ := ptbPrepared_of_prepareMovePtbTask h
    obtain ⟨resolved, hr, hfi⟩ := hp.fields
    refine ⟨he, hp.objects, fun field hf ↦ ?_⟩
    obtain ⟨_, hm, rfl⟩ := List.mem_map.mp (hfi ▸ hf)
    exact (resolved_of_resolveDynamicFieldsInto hr hm).2.2.2.imp And.left
      fun ⟨data, env, hd, he, ho, _⟩ ↦ ⟨data, env, hd, he, ho⟩

/-- The dynamic fields of a task are apart from its objects: a field is not in the state or belongs
to another object. -/
theorem MoveRequest.apart_of_prepare (h : (request.prepare H decoders).run view = .ok task)
    (hid : id ∈ request.objectIds) {field : ResolvedDynamicField}
    (hf : field ∈ task.resolvedInputs.dynamicFields)
    : field.dfObjectId ≠ id := by
  rintro rfl
  obtain ⟨data, hd, hn⟩ := loaded_of_prepare h hid
  obtain hno | ⟨data', env, hd', he, ho⟩ := (inputs_of_prepare h).2.2 field hf
  · rw [hno] at hd
    cases hd
  · rw [hd] at hd'
    cases hd'
    exact hn env he _ ho

private theorem map_id_of_movePtbInputs {store : LocalStore} {payload : MovePtbPayload}
    {sender : Address} {resolved : List ResolvedObject} {inputObjects : List InputObject}
    (h : resolved.mapM (movePtbInput engine store payload sender) = .ok inputObjects) :
    inputObjects.map InputObject.id = resolved.map ResolvedObject.objectId := by
  refine map_eq_map_of_mapM_ok h fun object input hi ↦ ?_
  simp only [movePtbInput, inputObject, InputObject.fromEnvelope, bind_eq_ok,
    mapError_eq_ok, pure_eq_ok] at hi
  obtain ⟨_, -, _, -, _, -, rfl⟩ := hi
  rfl

private theorem exists_history_run {store : LocalStore}
    (hp : (request.prepare H decoders).run view = .ok task)
    (hr : request.run H engine task store gasBudget = .ok output) :
    ∃ inputObjects sender timestamp ops rt,
      inputObjects.map InputObject.id = request.objectIds ∧
      (SetuObjectRuntime.new inputObjects task.resolvedInputs.dynamicFields
        (deriveTxHash H request.event.id) sender timestamp).replay H ops = .ok rt ∧
      output.stateChanges = rt.stateChanges H engine.tags 0 := by
  obtain ⟨he, ho, -⟩ := inputs_of_prepare hp
  rw [← ho, ← he]
  cases hpa : request.payload with
  | call payload =>
    simp only [run, hpa] at hr
    split at hr
    · next hem =>
      -- nothing was read: there are no inputs and no changes
      simp only [prepare, hpa] at hp
      have hi := (callPrepared_of_prepareMoveCallTask hp).2.inputObjects_of_isEmpty hem
      cases hr
      exact ⟨[], .zero, 0, [], _, by rw [hi]; rfl, rfl, rfl⟩
    · simp only [executeMoveCallEvent, bind_eq_ok, runMoveCallRequest,
        successful_eq_ok] at hr
      obtain ⟨called, hca, hex, hs⟩ := hr
      obtain ⟨ops, rt, hre, hc⟩ := SetuMoveEngine.exists_history_execute hex hs
      exact ⟨called.inputObjects, _, _, ops, rt, map_id_of_moveCallRequest hca, hre, hc⟩
  | ptb payload =>
    simp only [run, hpa] at hr
    obtain ⟨sender, inputObjects, _, -, hi, rfl, -, hb⟩ := executeMovePtbEvent_eq_ok.mp hr
    obtain ⟨ops, rt, hre, hc⟩ := SetuMoveEngine.exists_history_executePtbBody hb
    exact ⟨inputObjects, _, _, ops, rt, map_id_of_movePtbInputs hi, hre, hc⟩

/-- The changes of an executed request have an account, from the objects that the request loads. -/
theorem MoveRequest.exists_account
    (h : request.execute H decoders engine view gasBudget = .ok output) :
    ∃ account : Account H engine.tags (deriveTxHash H request.event.id) output.stateChanges,
      account.inputObjects.map InputObject.id = request.objectIds := by
  obtain ⟨task, store, hs, hr⟩ := execute_eq_ok.mp h
  obtain ⟨hp, -⟩ := stage_eq_ok hs
  obtain ⟨inputObjects, sender, timestamp, ops, rt, hi, hre, hc⟩ := exists_history_run hp hr
  refine ⟨⟨inputObjects, _, sender, timestamp, ops, rt, hre, ?_, hc⟩, hi⟩
  intro object ho field hf
  refine apart_of_prepare hp ?_ hf
  rw [← hi]
  exact List.mem_map_of_mem ho

/-- The changes of an executed request have an account, and whatever account they have: there is
one fitting change for each object at most, exactly if no object has effects in the record that
say different things of it. -/
theorem oneFinalEffect_iff
    (h : request.execute H decoders engine view gasBudget = .ok output) :
    (∃ account : Account H engine.tags (deriveTxHash H request.event.id) output.stateChanges,
      account.inputObjects.map InputObject.id = request.objectIds) ∧
    ∀ account : Account H engine.tags (deriveTxHash H request.event.id) output.stateChanges,
      OneFinalEffect account.created account.destroyed account.loaded output.stateChanges ↔
        account.record.Unambiguous account.created account.destroyed := by
  refine ⟨MoveRequest.exists_account h, fun account ↦ ?_⟩
  have hr : OneFinalEffect account.created account.destroyed account.record.inputObjects
        (account.record.stateChanges H engine.tags 0) ↔
      account.record.Unambiguous account.created account.destroyed :=
    SetuObjectRuntime.oneFinalEffect_iff_unambiguous account.replayed fun id hid ↦
      account.lookup_of_fieldEffects hid
  rwa [← account.changes_eq, account.inputObjects_record] at hr

theorem oneFinalEffect_combine :
    ∃ output, (combineCall 1 2).execute Blake3.ideal objectDecoders combineEngine twoCoins 0 =
        .ok output ∧
      (∃ account : Account Blake3.ideal combineEngine.tags
          (deriveTxHash Blake3.ideal (combineCall 1 2).event.id) output.stateChanges,
        account.inputObjects.map InputObject.id = (combineCall 1 2).objectIds) ∧
      ∀ account : Account Blake3.ideal combineEngine.tags
          (deriveTxHash Blake3.ideal (combineCall 1 2).event.id) output.stateChanges,
        OneFinalEffect account.created account.destroyed account.loaded output.stateChanges ↔
          account.record.Unambiguous account.created account.destroyed := by
  obtain ⟨output, h⟩ := exists_output_combine
  exact ⟨output, h, oneFinalEffect_iff h⟩

/-- A coin of a hundred as an input of a block. -/
def coinInput (byte : UInt8) : CallArg :=
  .object (.immOrOwnedObject (idOf byte) 1
    (Blake3.ideal.asBytes (Blake3.ideal.hash (hundred byte).toBytes)))

/-- A block of the zero address. -/
def blockRequest (inputs : List CallArg) (commands : List Command) : MoveRequest :=
  { combineCall 1 2 with payload := .ptb ⟨Address.zero.toText, ⟨inputs, commands, []⟩⟩ }

/-- Forty are split off the first coin and the rest of it is merged into the second. -/
def splitThenMerge : MoveRequest :=
  blockRequest [coinInput 1, coinInput 2, .pure (u64Le 40)]
    [.splitCoins (.input 0) [.input 2], .mergeCoins (.input 1) [.input 0]]

/-- The first coin is updated and then deleted. -/
theorem splitThenMerge_changes_coin_twice :
    ∃ output, splitThenMerge.execute Blake3.ideal objectDecoders (coinEngine Blake3.ideal)
        twoCoins 2000 = .ok output ∧
      output.stateChanges.map (fun change ↦ (change.objectId, change.changeType)) =
        [(idOf 1, .update), (idOf 2, .update), (idOf 1, .delete)] ∧
      ∀ created destroyed loaded,
        ¬ OneFinalEffect created destroyed loaded output.stateChanges := by
  obtain ⟨output, h, hc⟩ := exists_ok_of_map_toOption
    (x := splitThenMerge.execute Blake3.ideal objectDecoders (coinEngine Blake3.ideal) twoCoins
      2000)
    (f := fun output ↦ output.stateChanges.map fun change ↦ (change.objectId, change.changeType))
    (d := [(idOf 1, .update), (idOf 2, .update), (idOf 1, .delete)]) (by decide +kernel)
  refine ⟨output, h, hc, fun created destroyed loaded hon ↦ ?_⟩
  have hi : output.stateChanges.map MoveStateChange.objectId = [idOf 1, idOf 2, idOf 1] := by
    simpa [Function.comp_def] using congrArg (List.map Prod.fst) hc
  have ho := hon.once
  rw [hi] at ho
  simp at ho

end Setu.Validator
