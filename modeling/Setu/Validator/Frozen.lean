import Setu.Move.Custody
import Setu.Validator.MoveEffects

/-!
# Frozen objects

Library `Validator`. The preparation keeps a frozen object from the indices that the client of a
call declares as mutable or consumed; what the function really takes is not compared with them, and
for blocks nothing is checked at all. A frozen object stays as it is as long as no code is handed
it.
-/

namespace Setu.Validator

open Setu.Base Setu.Types Setu.Runtime Setu.Move Setu.Enclave MoveRequest

variable {D S : Type} {H : Blake3 D} {decoders : Decoders} {engine : SetuMoveEngine S}
  {view view' : ObjectId → Option Bytes} {request : MoveRequest} {gasBudget : UInt64}
  {output : MoveExecutionOutput} {contents : Contents} {id : ObjectId}

/-- What is executed with an object withheld is executed in the same way with it. -/
theorem MoveRequest.execute_withhold
    (h : request.execute H decoders (engine.withhold contents id) view gasBudget = .ok output) :
    request.execute H decoders engine view gasBudget = .ok output := by
  rw [execute_eq_ok] at h ⊢
  obtain ⟨task, store, hst, hr⟩ := h
  refine ⟨task, store, hst, ?_⟩
  cases hp : request.payload with
  | call payload =>
    simp only [run, hp] at hr ⊢
    split at hr
    · next he => rwa [if_pos he]
    · next he =>
      rw [if_neg he]
      simp only [executeMoveCallEvent, bind_eq_ok, runMoveCallRequest,
        successful_eq_ok] at hr ⊢
      obtain ⟨called, hc, hex, hs⟩ := hr
      exact ⟨called, hc, SetuMoveEngine.execute_withhold hex hs, hs⟩
  | ptb payload =>
    simp only [run, hp] at hr ⊢
    rw [executeMovePtbEvent_eq_ok] at hr ⊢
    obtain ⟨sender, inputObjects, ctx, hse, hi, hct, hra, hb⟩ := hr
    exact ⟨sender, inputObjects, ctx, hse, hi, hct, hra, SetuMoveEngine.executePtbBody_withhold hb⟩

/-- An object in the store of a block is the one in the state. -/
theorem MoveRequest.envelope_of_stage {payload : MovePtbPayload}
    (hpa : request.payload = .ptb payload) {task : SolverTask} {store : LocalStore}
    (hs : request.stage H decoders engine view = .ok (task, store)) {env : ObjectEnvelope}
    (he : store.getEnvelope id = .ok (some env)) :
    ∃ data, view id = some data ∧ decoders.detectAndParse data = .envelope env := by
  obtain ⟨hp, hst⟩ := stage_eq_ok hs
  simp only [prepare, hpa] at hp
  obtain ⟨-, hpr⟩ := ptbPrepared_of_prepareMovePtbTask hp
  obtain ⟨⟨key, value⟩, hen, hf⟩ := exists_entry_of_buildObjectStore hst he
  obtain ⟨_, rfl, hv⟩ := hpr.entries _ hen
  obtain ⟨rfl, ho⟩ := storeEntry_objectKey hf
  obtain rfl | ⟨data, env', hd, he', rfl⟩ := hv
  · cases ho
  · rw [objectEntry_toBytes] at ho
    cases ho
    exact ⟨data, hd, he'⟩

/-- The object is in the state with an immutable envelope. -/
def FrozenIn (decoders : Decoders) (view : ObjectId → Option Bytes) (id : ObjectId) : Prop :=
  ∃ data env, view id = some data ∧ decoders.detectAndParse data = .envelope env ∧
    env.ownership = .immutable

/-- The commands of a request. -/
def MoveRequest.commands (request : MoveRequest) : List Command :=
  match request.payload with
  | .call _ => []
  | .ptb payload => payload.ptb.commands

/-- A request leaves an object in peace: it succeeds also if the object is withheld from its code,
no coin command of it runs no code, and it does not make the object's identifier anew. The object's
value, if the request loads it, starts with its identifier. -/
structure LeavesInPeace (H : Blake3 D) (decoders : Decoders) (engine : SetuMoveEngine S)
    (contents : Contents) (view : ObjectId → Option Bytes) (request : MoveRequest)
    (gasBudget : UInt64) (id : ObjectId) : Prop where
  withheld : ∃ output,
    request.execute H decoders (engine.withhold contents id) view gasBudget = .ok output
  busy : ∀ cmd ∈ request.commands, isIdle cmd = false
  fresh : ∀ n, freshIdAt H (deriveTxHash H request.event.id) n ≠ id
  own : id ∈ request.objectIds → ∀ data env, view id = some data →
    decoders.detectAndParse data = .envelope env → extractUidFromBcs env.data = some id

private theorem FrozenIn.field_ne (h : FrozenIn decoders view id) {task : SolverTask}
    (hp : (request.prepare H decoders).run view = .ok task) :
    ∀ field ∈ task.resolvedInputs.dynamicFields, field.dfObjectId ≠ id := by
  rintro field hf rfl
  obtain ⟨data, env, hd, he, ho⟩ := h
  obtain hn | ⟨data', env', hd', he', ho'⟩ := (inputs_of_prepare hp).2.2 field hf
  · rw [hn] at hd
    cases hd
  · rw [hd] at hd'
    cases hd'
    rw [he] at he'
    cases he'
    rw [ho] at ho'
    cases ho'

private theorem FrozenIn.lookup_ne (h : FrozenIn decoders view id) {payload : MoveCallPayload}
    {task : SolverTask} (hp : CallPrepared H decoders view payload task)
    {called : MoveCallRequest}
    (hc : called.inputObjects.map InputObject.id =
      task.resolvedInputs.inputObjects.map ResolvedObject.objectId) (p : Nat) :
    (moveCallArgs payload called).2.lookup p ≠ some id := by
  obtain ⟨data, env, hd, he, ho⟩ := h
  rw [moveCallArgs, lookup_mutableArgMap]
  split
  · next hm =>
    intro hid
    rw [← List.getElem?_map, hc, hp.objects, List.getElem?_append] at hid
    split at hid
    · obtain ⟨data', hd', hch⟩ := hp.owned p id hid
      rw [hd] at hd'
      cases hd'
      simp [he, checkOwnedInput, ho, bind_eq_ok, require_eq_ok, hm] at hch
    · obtain ⟨data', env', _, hd', he', hs⟩ := hp.shared id (List.mem_of_getElem? hid)
      rw [hd] at hd'
      cases hd'
      rw [he] at he'
      cases he'
      rw [ho] at hs
      cases hs
  · simp

/-- A request that leaves a frozen object in peace has no change of it. -/
theorem LeavesInPeace.not_mem (hvm : Confines H contents engine.vm)
    (hpe : LeavesInPeace H decoders engine contents view request gasBudget id)
    (hfr : FrozenIn decoders view id)
    (h : request.execute H decoders engine view gasBudget = .ok output) :
    id ∉ output.stateChanges.map MoveStateChange.objectId := by
  obtain ⟨output', hw⟩ := hpe.withheld
  rw [execute_withhold hw] at h
  cases h
  obtain ⟨task, store, hs, hr⟩ := execute_eq_ok.mp hw
  obtain ⟨hp, -⟩ := stage_eq_ok hs
  have he := (inputs_of_prepare hp).1
  have hfi := hfr.field_ne hp
  have hf := hpe.fresh
  rw [← he] at hf
  have hc : Confines H contents (engine.withhold contents id).vm := hvm.withhold
  have hk : Withholds contents id (engine.withhold contents id).vm :=
    withholds_withhold contents id engine.vm
  cases hpa : request.payload with
  | call payload =>
    simp only [prepare, hpa] at hp
    obtain ⟨-, hpr⟩ := callPrepared_of_prepareMoveCallTask hp
    simp only [run, hpa] at hr
    split at hr
    · cases hr
      simp
    · simp only [executeMoveCallEvent, bind_eq_ok, runMoveCallRequest,
        successful_eq_ok] at hr
      obtain ⟨called, hca, hex, hsu⟩ := hr
      exact SetuMoveEngine.not_mem_execute hc hk hex hsu hf
        (hfr.lookup_ne hpr (map_id_of_moveCallRequest hca)) hfi
  | ptb payload =>
    simp only [run, hpa] at hr
    obtain ⟨sender, inputObjects, _, -, hin, rfl, -, hb⟩ := executeMovePtbEvent_eq_ok.mp hr
    refine SetuMoveEngine.not_mem_executePtbBody hc hk hb ?_ hf ?_ hfi
    · simpa [commands, hpa] using hpe.busy
    · rintro object ho rfl
      obtain ⟨resolved, hre, hi⟩ := exists_of_mem_mapM_ok hin ho
      simp only [movePtbInput, LocalStore.existingEnvelope, inputObject, InputObject.fromEnvelope,
        bind_eq_ok, mapError_eq_ok, okOr_eq_ok, pure_eq_ok] at hi
      obtain ⟨env, ⟨_, hst, rfl⟩, _, -, _, -, rfl⟩ := hi
      obtain ⟨data, hd, hen⟩ := envelope_of_stage hpa hs hst
      refine hpe.own ?_ data env hd hen
      rw [← (inputs_of_prepare hp).2.1]
      exact List.mem_map_of_mem hre

/-- A step of the state as far as an object goes: a Move request that leaves the object in peace
is applied, or something else happens that leaves the object's entry as it is. -/
inductive PeacefulStep (H : Blake3 D) (decoders : Decoders) (engine : SetuMoveEngine S)
    (contents : Contents) (id : ObjectId) (view view' : ObjectId → Option Bytes) : Prop where
  | move (request : MoveRequest) (gasBudget : UInt64) (output : MoveExecutionOutput)
      (executed : request.execute H decoders engine view gasBudget = .ok output)
      (peaceful : LeavesInPeace H decoders engine contents view request gasBudget id)
      (applied : view' id = applyChanges view output.stateChanges id)
  | other (kept : view' id = view id)

/-- A step keeps the entry of a frozen object. -/
theorem PeacefulStep.entry_eq (hvm : Confines H contents engine.vm)
    (hs : PeacefulStep H decoders engine contents id view view')
    (hf : FrozenIn decoders view id) : view' id = view id := by
  cases hs with
  | move request gasBudget output executed peaceful applied =>
    rw [applied, applyChanges_of_not_mem]
    exact peaceful.not_mem hvm hf executed
  | other kept => exact kept

private theorem FrozenIn.congr (h : FrozenIn decoders view id) (heq : view' id = view id) :
    FrozenIn decoders view' id := by
  obtain ⟨data, env, hd, hr⟩ := h
  exact ⟨data, env, heq.trans hd, hr⟩

/-- In a run of steps that leave a frozen object in peace its entry never changes, and no request
that does so changes it afterwards. -/
theorem frozen_of_peacefulRun (hvm : Confines H contents engine.vm)
    (hfrozen : FrozenIn decoders view id)
    (hrun : Relation.ReflTransGen (PeacefulStep H decoders engine contents id) view view') :
    view' id = view id ∧ ∀ request gasBudget output,
      request.execute H decoders engine view' gasBudget = .ok output →
      LeavesInPeace H decoders engine contents view' request gasBudget id →
      id ∉ output.stateChanges.map MoveStateChange.objectId := by
  have he : view' id = view id := by
    induction hrun with
    | refl => rfl
    | tail _ hs ih => exact (hs.entry_eq hvm (hfrozen.congr ih)).trans ih
  exact ⟨he, fun request gasBudget output h hp ↦
    hp.not_mem hvm (hfrozen.congr he) h⟩

/-- The coin functions work on the coins they are handed. -/
theorem confines_coinVm (H : Blake3 D) (contents : Contents) : Confines H contents (coinVm H) where
  natives := by
    intro data rt gas call signature returned calls data' native id hl he hna ht
    left
    simp only [coinVm, bind_eq_ok, okOr_eq_ok, pure_eq_ok, Prod.exists,
      Prod.mk.injEq] at he
    obtain ⟨_, _, hf, rfl, rfl, -⟩ := he
    cases hl
    rcases coinFunction_eq_some hf with ⟨coin, taken, rest, n, ctx, -, -, -, -, rfl⟩ |
      ⟨coin, other, joined, hn, ha, -, -, rfl⟩ | ⟨coin, recipient, hn, ha, -, rfl⟩
    · rw [List.mem_singleton.mp hna] at ht
      cases ht
    · rw [List.mem_singleton.mp hna] at ht
      cases ht
      simp [Contents.handed, hn, ha, coinSignature]
    · rw [List.mem_singleton.mp hna] at ht
      have hu : extractUidFromBcs coin = some id := ht
      simp [Contents.handed, hn, ha, coinSignature, hu]
  outputs := by
    intro data rt gas call signature returned calls data' p bytes hl he ho
    simp only [coinVm, bind_eq_ok, okOr_eq_ok, pure_eq_ok, Prod.exists,
      Prod.mk.injEq] at he
    obtain ⟨_, _, hf, rfl, rfl, -⟩ := he
    cases hl
    rcases coinFunction_eq_some hf with
      ⟨coin, taken, rest, n, ctx, hn, ha, hs, rfl, -⟩ |
      ⟨coin, other, joined, hn, ha, hj, rfl, -⟩ | ⟨coin, recipient, -, -, rfl, -⟩
    · have hid : rest.id = coin.id := (Framework.Coin.id_of_split hs).2
      simp only [List.mem_cons, Prod.mk.injEq, List.not_mem_nil, or_false] at ho
      rcases ho with ⟨rfl, rfl⟩ | ⟨rfl, rfl⟩
      · refine ⟨_, coinBytes coin, by rw [hn]; rfl, by rw [ha]; rfl, fun _ _ ↦ ?_⟩
        rw [extractUidFromBcs_coinBytes, extractUidFromBcs_coinBytes, hid]
      · exact ⟨_, bytes, by rw [hn]; rfl, by rw [ha]; rfl, fun _ _ ↦ rfl⟩
    · have hid : joined.id = coin.id := Framework.Coin.id_of_join hj
      obtain ⟨rfl, rfl⟩ := Prod.mk.inj (List.mem_singleton.mp ho)
      refine ⟨_, coinBytes coin, by rw [hn]; rfl, by rw [ha]; rfl, fun _ _ ↦ ?_⟩
      rw [extractUidFromBcs_coinBytes, extractUidFromBcs_coinBytes, hid]
    · cases ho
  split := by
    rintro _ inner _ ⟨⟩
    rfl
  join := by
    rintro _ inner _ ⟨⟩
    rfl

/-- A coin of a hundred that is frozen. -/
def frozenHundred (byte : UInt8) : ObjectEnvelope :=
  .fromMoveResult Blake3.ideal (idOf byte) .zero 1 .immutable "0x1::coin::Coin<u8>"
    ((idOf byte).asBytes ++ u64Le 100)

/-- The two coins and a frozen one. -/
def withFrozen (id : ObjectId) : Option Bytes :=
  if id = idOf 3 then some (frozenHundred 3).toBytes else twoCoins id

/-- The frozen coin as an input of a block. -/
def frozenInput : CallArg :=
  .object (.immOrOwnedObject (idOf 3) 1
    (Blake3.ideal.asBytes (Blake3.ideal.hash (frozenHundred 3).toBytes)))

/-- Forty are split off the first coin and go to the zero address; the frozen coin is named and not
used. -/
def spendBesideFrozen : MoveRequest :=
  blockRequest [coinInput 1, .pure (u64Le 40), .pure Address.zero.asBytes, frozenInput]
    [.splitCoins (.input 0) [.input 1], .transferObjects [.result 0] (.input 2)]

/-- The same with the frozen coin. -/
def spendFrozen : MoveRequest :=
  blockRequest [frozenInput, .pure (u64Le 40), .pure Address.zero.asBytes]
    [.splitCoins (.input 0) [.input 1], .transferObjects [.result 0] (.input 2)]

private theorem withFrozen_three : withFrozen (idOf 3) = some (frozenHundred 3).toBytes :=
  if_pos rfl

private theorem parse_toBytes (env : ObjectEnvelope) :
    objectDecoders.detectAndParse env.toBytes = .envelope env := detectAndParse_toBytes env

theorem frozenIn_withFrozen : FrozenIn objectDecoders withFrozen (idOf 3) :=
  ⟨_, frozenHundred 3, withFrozen_three, parse_toBytes _, rfl⟩

/-- The contents of coins: no other objects. -/
def noContents : Contents := ⟨fun _ _ _ ↦ false, fun _ _ _ ↦ false⟩

private theorem freshIdAt_ne_three (txHash : Bytes) (n : UInt64) :
    freshIdAt Blake3.ideal txHash n ≠ idOf 3 := by
  intro h
  have hf := congrArg (fun id : ObjectId ↦ id.bytes[0]) h
  simp only [freshIdAt, hashedId, idOf, Vector.getElem_ofFn, Vector.getElem_replicate] at hf
  have hm := Blake3.ideal_getD_zero (strBytes "SETU_FRESH_ID:" ++ txHash ++ u64Le n)
  rw [hf] at hm
  exact absurd hm (by decide)

theorem leavesInPeace_spendBesideFrozen :
    LeavesInPeace Blake3.ideal objectDecoders (coinEngine Blake3.ideal) noContents withFrozen
      spendBesideFrozen 2000 (idOf 3) where
  withheld := ⟨_, eq_ok_get (by decide +kernel)⟩
  busy := by decide
  fresh := freshIdAt_ne_three _
  own := by
    rintro - data env hd he
    rw [withFrozen_three, Option.some.injEq] at hd
    subst hd
    rw [parse_toBytes, StorageFormat.envelope.injEq] at he
    subst he
    exact extractUidFromBcs_append (idOf 3) (u64Le 100)

theorem frozen_of_spendBesideFrozen :
    ∃ output, spendBesideFrozen.execute Blake3.ideal objectDecoders (coinEngine Blake3.ideal)
        withFrozen 2000 = .ok output ∧
      applyChanges withFrozen output.stateChanges (idOf 3) = withFrozen (idOf 3) ∧
      ∀ request gasBudget output', request.execute Blake3.ideal objectDecoders
          (coinEngine Blake3.ideal) (applyChanges withFrozen output.stateChanges) gasBudget =
            .ok output' →
        LeavesInPeace Blake3.ideal objectDecoders (coinEngine Blake3.ideal) noContents
          (applyChanges withFrozen output.stateChanges) request gasBudget (idOf 3) →
        idOf 3 ∉ output'.stateChanges.map MoveStateChange.objectId := by
  obtain ⟨output, hw⟩ := leavesInPeace_spendBesideFrozen.withheld
  have he := MoveRequest.execute_withhold hw
  exact ⟨output, he, frozen_of_peacefulRun (confines_coinVm _ _) frozenIn_withFrozen
    (.single (.move _ _ output he leavesInPeace_spendBesideFrozen rfl))⟩

/-- Anyone may split a frozen coin: the block that does so is executed and updates it. -/
theorem spendFrozen_updates :
    FrozenIn objectDecoders withFrozen (idOf 3) ∧
    ∃ output, spendFrozen.execute Blake3.ideal objectDecoders (coinEngine Blake3.ideal) withFrozen
        2000 = .ok output ∧
      (output.stateChanges.filter (·.objectId = idOf 3)).map MoveStateChange.changeType =
        [.update] := by
  refine ⟨frozenIn_withFrozen, ?_⟩
  exact exists_ok_of_map_toOption (x := spendFrozen.execute Blake3.ideal objectDecoders
      (coinEngine Blake3.ideal) withFrozen 2000)
    (f := fun output ↦ (output.stateChanges.filter (·.objectId = idOf 3)).map
      MoveStateChange.changeType)
    (d := [.update]) (by decide +kernel)

end Setu.Validator
