import Setu.Move.Outcome
import Setu.Move.Withhold

/-!
# Executions that spare an object

Library `Move`. An object that no code is handed in a session stays as it is: the natives do not
work on it, and what the engine writes back by itself are other objects. The one exception is a coin
command that runs no code, which writes its coin back all the same.
-/

namespace Setu.Move

open Setu.Base Setu.Types Setu.Runtime

variable {D S : Type}

namespace SetuObjectRuntime

/-- No effect is recorded for the object. -/
structure Spared (id : ObjectId) (rt : SetuObjectRuntime) : Prop where
  moved : rt.moved id = false
  deleted : rt.deletedIds.contains id = false
  mutated : rt.mutated.contains id = false

variable {H : Blake3 D} {id : ObjectId} {rt rt' : SetuObjectRuntime}

theorem spared_new (inputObjects : List InputObject) (dfPreload : List ResolvedDynamicField)
    (txHash : Bytes) (sender : Address) (epochTimestampMs : UInt64) :
    (new inputObjects dfPreload txHash sender epochTimestampMs).Spared id := ⟨rfl, rfl, rfl⟩

theorem Spared.mutateObject (h : rt.Spared id) {other : ObjectId} (ho : other ≠ id)
    (typeTag : StructTag) (bcsBytes : Bytes) :
    (rt.mutateObject other typeTag bcsBytes).Spared id := by
  refine ⟨h.moved, h.deleted, ?_⟩
  simp [SetuObjectRuntime.mutateObject, h.mutated, Ne.symm ho]

/-- A native that does not work on the object spares it. -/
theorem Spared.native (h : rt.Spared id) {call : NativeCall} (hc : rt.native H call = .ok rt')
    (ht : call.target ≠ some id) : rt'.Spared id := by
  cases hf : call.isField with
  | true =>
    have hfr := fieldsOnly_native hc hf
    refine ⟨?_, ?_, ?_⟩ <;> rw [hfr]
    · exact h.moved
    · exact h.deleted
    · exact h.mutated
  | false =>
    cases call with
    | dfAdd | dfRemove | dfBorrow | dfBorrowMut => cases hf
    | newUid | emit =>
      cases hc
      exact ⟨h.moved, h.deleted, h.mutated⟩
    | deleteUid other =>
      cases hc
      have ho : id ≠ other := fun heq ↦ ht (congrArg some heq.symm)
      unfold deleteUid
      split
      · exact ⟨h.moved, h.deleted, h.mutated⟩
      · exact ⟨h.moved, by simp [h.deleted, ho], h.mutated⟩
    | transfer | share | freeze =>
      simp only [SetuObjectRuntime.native, bind_eq_ok, pure_eq_ok, okOr_eq_ok] at hc
      obtain ⟨other, ho, rfl⟩ := hc
      have ho : id ≠ other := by
        rintro rfl
        exact ht ho
      have hm := h.moved
      simp only [SetuObjectRuntime.moved, Bool.or_eq_false_iff] at hm
      refine ⟨?_, h.deleted, h.mutated⟩
      simp [SetuObjectRuntime.moved, shareObject, ho, hm]

theorem Spared.natives (h : rt.Spared id) {calls : List NativeCall}
    (hc : rt.natives H calls = .ok rt') (ht : ∀ call ∈ calls, call.target ≠ some id) :
    rt'.Spared id :=
  foldlM_ok_induction (Spared id) hc h fun call hca _ _ hs hsp ↦
    hsp.native hs (ht call hca)

/-- An object that is spared and no dynamic field has no change. -/
theorem Spared.not_mem (h : rt.Spared id) (hf : rt.fieldEffects id = 0) {tags : TagSyntax}
    {base : UInt64} : id ∉ (rt.stateChanges H tags base).map MoveStateChange.objectId := by
  have hm : rt.mutated.get? id = none := by
    simpa [IndexMap.contains] using h.mutated
  rw [mem_objectIds_stateChanges_iff]
  simp [h.moved, h.deleted, hf, rewritten, hm]

end SetuObjectRuntime

namespace Session

variable {H : Blake3 D} {vm : MoveVm S} {contents : Contents} {id : ObjectId}
  {session session' : Session S} {call : FunctionCall} {returned : SerializedReturn}

theorem spared_execute (hvm : Confines H contents vm) (hk : Withholds contents id vm)
    (hf : ∀ n, freshIdAt H session.runtime.txHash n ≠ id)
    (h : (session.execute H vm call).2 = .ok (returned, session'))
    (hs : session.runtime.Spared id) : session'.runtime.Spared id := by
  simp only [execute, bind_eq_ok, mapError_eq_ok, pure_eq_ok, Prod.exists,
    Prod.mk.injEq] at h
  obtain ⟨_, calls, data, he, runtime, hn, rfl, rfl⟩ := h
  obtain ⟨signature, hl, hh, hfi⟩ := hk he
  refine hs.natives hn fun native hna ht ↦ ?_
  rcases hvm.natives hl he hna ht with hg | hg | ⟨n, hg⟩
  · rw [hh] at hg
    cases hg
  · rw [hfi] at hg
    cases hg
  · exact hf n hg.symm

variable {failed : String → String}

theorem spared_run (hvm : Confines H contents vm) (hk : Withholds contents id vm)
    (hf : ∀ n, freshIdAt H session.runtime.txHash n ≠ id)
    (h : session.run H vm call failed = .ok (returned, session'))
    (hs : session.runtime.Spared id) : session'.runtime.Spared id :=
  spared_execute hvm hk hf (mapError_eq_ok.mp h) hs

/-- The arguments behind the mutable references that a call reports are not the object. -/
theorem uid_ne_of_run (hvm : Confines H contents vm) (hk : Withholds contents id vm)
    (h : session.run H vm call failed = .ok (returned, session')) {p : Nat} {bytes : Bytes}
    (ho : (p, bytes) ∈ returned.mutableReferenceOutputs) :
    ∃ arg, call.args[p]? = some arg ∧ extractUidFromBcs arg ≠ some id := by
  obtain ⟨calls, he, -, -⟩ := run_eq_ok.mp h
  obtain ⟨signature, hl, hh, -⟩ := hk he
  obtain ⟨tag, arg, hp, ha, -⟩ := hvm.outputs hl he ho
  exact ⟨arg, ha, contents.uid_ne_of_handed hh hp ha⟩

/-- The coin that `split` or `join` works on is not the object, and it keeps its identifier. -/
theorem uid_coin_of_run {function : Identifier} {inner : TypeTag} {coin : Bytes} {rest : List Bytes}
    (hf : function = ident "split" ∨ function = ident "join") (hvm : Confines H contents vm)
    (hk : Withholds contents id vm)
    (h : session.run H vm (SetuMoveEngine.coinCall function inner (coin :: rest)) failed =
      .ok (returned, session')) :
    extractUidFromBcs coin ≠ some id ∧ ∀ bytes, (0, bytes) ∈ returned.mutableReferenceOutputs →
      extractUidFromBcs bytes = extractUidFromBcs coin := by
  obtain ⟨calls, he, -, -⟩ := run_eq_ok.mp h
  obtain ⟨signature, hl, hh, -⟩ := hk he
  have hp : signature.parameters[0]? = some (.mutableReference (.struct (coinTag inner))) := by
    rcases hf with rfl | rfl
    · exact hvm.split hl
    · exact hvm.join hl
  refine ⟨contents.uid_ne_of_handed hh hp rfl, fun bytes ho ↦ ?_⟩
  obtain ⟨tag, arg, hp', ha, hke⟩ := hvm.outputs hl he ho
  rw [hp] at hp'
  cases hp'
  cases ha
  exact hke inner rfl

end Session

/-- The slot of the object, if it is an input of the block, holds bytes that start with the object's
identifier. -/
def PtbContext.StartsOwn (id : ObjectId) (ptbInputs : List CallArg) (pctx : PtbContext) : Prop :=
  ∀ (i : Nat) (objArg : ObjectArg) (slot : Slot), ptbInputs[i]? = some (.object objArg) →
    objArg.id = id → pctx.slot? (.input i) = some slot → extractUidFromBcs slot.bytes = some id

namespace PtbContext.StartsOwn

variable {id : ObjectId} {ptbInputs : List CallArg} {pctx : PtbContext}

theorem recordResult (h : pctx.StartsOwn id ptbInputs) (cmdIdx : Nat) (slots : List Slot) :
    (pctx.recordResult cmdIdx slots).StartsOwn id ptbInputs := h

theorem consumes (h : pctx.StartsOwn id ptbInputs) {pctx' : PtbContext}
    (hc : pctx.Consumes pctx') : pctx'.StartsOwn id ptbInputs := by
  obtain ⟨keys, rfl⟩ := hc
  exact h

/-- The slot of another object may be written at will. -/
theorem setBytes (h : pctx.StartsOwn id ptbInputs) {key : ArgumentSlot} {slot : Slot}
    (hs : pctx.slot? key = some slot) (ho : extractUidFromBcs slot.bytes ≠ some id)
    (newBytes : Bytes) : (pctx.setBytes newBytes key).StartsOwn id ptbInputs := by
  intro i objArg slot' hi hid hs'
  rw [slot?_setBytes] at hs'
  split at hs'
  · next hk =>
    subst hk
    exact absurd (h i objArg slot hi hid hs) ho
  · exact h i objArg slot' hi hid hs'

/-- So may the slots of results. -/
theorem setBytes_result (h : pctx.StartsOwn id ptbInputs) (cmd idx : Nat) (newBytes : Bytes) :
    (pctx.setBytes newBytes (.cmdResult cmd idx)).StartsOwn id ptbInputs := by
  intro i objArg slot hi hid hs
  rw [slot?_setBytes, if_neg (by simp)] at hs
  exact h i objArg slot hi hid hs

end PtbContext.StartsOwn

/-- A coin command that runs no code: a split without amounts or a merge without sources. -/
def isIdle : Command → Bool
  | .splitCoins _ amounts => amounts.isEmpty
  | .mergeCoins _ sources => sources.isEmpty
  | _ => false

/-- In the state of a block nothing is recorded or kept for the end for the object. -/
structure PtbState.Spares (H : Blake3 D) (id : ObjectId) (ptbInputs : List CallArg)
    (st : PtbState S) : Prop where
  fresh : ∀ n, freshIdAt H st.session.runtime.txHash n ≠ id
  spared : st.session.runtime.Spared id
  own : st.pctx.StartsOwn id ptbInputs
  pending : ∀ mutation ∈ st.pendingInputMutations, mutation.1 ≠ id

namespace SetuMoveEngine

variable {H : Blake3 D} {engine : SetuMoveEngine S} {contents : Contents} {id : ObjectId}

/-- The object is spared and no fresh identifier. -/
private def Untouched (H : Blake3 D) (id : ObjectId) (rt : SetuObjectRuntime) : Prop :=
  (∀ n, freshIdAt H rt.txHash n ≠ id) ∧ rt.Spared id

private theorem keptByCalls_untouched (hvm : Confines H contents engine.vm)
    (hk : Withholds contents id engine.vm) : KeptByCalls H engine.vm (Untouched H id) := by
  intro session session' call failed returned hr ⟨hf, hs⟩
  refine ⟨?_, Session.spared_run hvm hk hf hr hs⟩
  rw [(Session.preserved_run hr).txHash]
  exact hf

variable {ptbInputs : List CallArg}

private theorem pending_writeBack {mc : MoveCall} {outputs : List (Nat × Bytes)}
    {acc acc' : PtbContext × List (ObjectId × StructTag × Bytes)}
    (h : outputs.foldlM (writeBackArgument mc ptbInputs) acc = .ok acc')
    (ho : acc.1.StartsOwn id ptbInputs) (hp : ∀ mutation ∈ acc.2, mutation.1 ≠ id)
    (hou : ∀ output ∈ outputs, ∀ i objArg, mc.arguments[output.1]? = some (.input i) →
      ptbInputs[i]? = some (.object objArg) → objArg.id ≠ id) :
    acc'.1.StartsOwn id ptbInputs ∧ ∀ mutation ∈ acc'.2, mutation.1 ≠ id := by
  refine foldlM_ok_induction (fun acc ↦ acc.1.StartsOwn id ptbInputs ∧
    ∀ mutation ∈ acc.2, mutation.1 ≠ id) h ⟨ho, hp⟩ ?_
  rintro output hot ⟨pctx, pending⟩ ⟨pctx', pending'⟩ hs ⟨ho, hp⟩
  rcases writeBackArgument_eq_ok hs with
    ⟨i, objArg, slot, tag, ha, hi, -, -, rfl, rfl⟩ | ⟨_, cmd, idx, _, -, -, -, rfl, rfl⟩
  · refine ⟨ho, fun mutation hm ↦ ?_⟩
    rcases List.mem_append.mp hm with hm | hm
    · exact hp mutation hm
    · obtain rfl := List.mem_singleton.mp hm
      exact hou output hot i objArg ha hi
  · exact ⟨ho.setBytes_result cmd idx _, hp⟩

variable {st st' : PtbState S}

private theorem spares_moveCall (hvm : Confines H contents engine.vm)
    (hk : Withholds contents id engine.vm) {idx : Nat} {mc : MoveCall}
    (h : engine.lowerMoveCall H ptbInputs idx mc st = .ok st') (hst : st.Spares H id ptbInputs)
    : st'.Spares H id ptbInputs := by
  obtain ⟨hf, hs⟩ := (keptByCalls_untouched hvm hk).moveCall h ⟨hst.fresh, hst.spared⟩
  obtain ⟨run, pctx, hr, hfo, -, hp⟩ := lowerMoveCall_eq_ok h
  obtain ⟨hb, hl, hc⟩ := runMoveCall_eq_ok hr
  obtain ⟨hco, har⟩ := bindArguments_eq_ok hb hl
  obtain ⟨ho, hpe⟩ := pending_writeBack hfo (hst.own.consumes hco) hst.pending (by
    rintro ⟨p, bytes⟩ hou i objArg ha hi hid
    -- the argument behind the reference is the slot of the object, which starts with it
    obtain ⟨bytes', hby, hne⟩ := Session.uid_ne_of_run hvm hk hc hou
    obtain ⟨_, ha', key, slot, hke, hsl, rfl⟩ := getElem?_of_forall₂ har hby
    rw [ha] at ha'
    cases ha'
    cases hke
    exact hne (hst.own i objArg slot hi hid hsl))
  refine ⟨hf, hs, ?_, hpe⟩
  rw [hp]
  exact ho.recordResult idx _

private theorem uid_foldlM {α γ : Type} {f : α → γ → Except RuntimeError α}
    (uid : α → Option ObjectId)
    (ht : ∀ c a a', f a c = .ok a' → uid a ≠ some id ∧ uid a' = uid a) {l : List γ} (hl : l ≠ [])
    {a a' : α} (h : l.foldlM f a = .ok a') : uid a ≠ some id ∧ uid a' = uid a := by
  cases l with
  | nil => exact absurd rfl hl
  | cons c l =>
    rw [List.foldlM_cons, bind_eq_ok] at h
    obtain ⟨next, hf, hr⟩ := h
    obtain ⟨hne, hn⟩ := ht c a next hf
    refine ⟨hne, foldlM_ok_induction (fun b ↦ uid b = uid a) hr hn ?_⟩
    intro c _ before after hs hb
    exact (ht c before after hs).2.trans hb

private theorem uid_splitAmount (hvm : Confines H contents engine.vm)
    (hk : Withholds contents id engine.vm) {inner : TypeTag} {amount : Bytes × Nat}
    {run run' : CoinRun S} (h : engine.splitAmount H inner run amount = .ok run') :
    extractUidFromBcs run.coinBytes ≠ some id ∧
      extractUidFromBcs run'.coinBytes = extractUidFromBcs run.coinBytes := by
  obtain ⟨returned, _, hr, ho, -, -⟩ := splitAmount_eq_ok h
  obtain ⟨hne, hke⟩ := Session.uid_coin_of_run (.inl rfl) hvm hk hr
  refine ⟨hne, foldlM_ok_induction (fun acc ↦ extractUidFromBcs acc.1 =
    extractUidFromBcs run.coinBytes) ho rfl ?_⟩
  rintro ⟨p, bytes⟩ hm acc acc' hs ha
  unfold applySplitOutput at hs
  split at hs
  · next hp =>
    cases hs
    obtain rfl : p = 0 := hp
    exact hke bytes hm
  · cases hs
    exact ha
  · cases hs

private theorem uid_joinSource (hvm : Confines H contents engine.vm)
    (hk : Withholds contents id engine.vm) {inner : TypeTag} {source : Bytes × Nat}
    {run run' : Session S × Bytes} (h : engine.joinSource H inner run source = .ok run') :
    extractUidFromBcs run.2 ≠ some id ∧ extractUidFromBcs run'.2 = extractUidFromBcs run.2 := by
  obtain ⟨returned, hr, ho⟩ := joinSource_eq_ok h
  obtain ⟨hne, hke⟩ := Session.uid_coin_of_run (.inr rfl) hvm hk hr
  refine ⟨hne, foldlM_ok_induction (fun bytes ↦ extractUidFromBcs bytes =
    extractUidFromBcs run.2) ho rfl ?_⟩
  rintro ⟨p, bytes⟩ hm acc acc' hs ha
  unfold applyJoinOutput at hs
  split at hs
  · next hp =>
    cases hs
    obtain rfl : p = 0 := hp
    exact hke bytes hm
  · cases hs

private theorem spares_splitCoins (hvm : Confines H contents engine.vm)
    (hke : Withholds contents id engine.vm) {idx : Nat} {coinArg : Argument}
    {amounts : List Argument} (ha : amounts ≠ [])
    (h : engine.lowerSplitCoins H idx coinArg amounts st = .ok st')
    (hst : st.Spares H id ptbInputs) : st'.Spares H id ptbInputs := by
  obtain ⟨inner, run, oid, key, hr, ho, hk, rfl⟩ := lowerSplitCoins_eq_ok h
  obtain ⟨hf, hs⟩ := (keptByCalls_untouched hvm hke).splitCoins hr ⟨hst.fresh, hst.spared⟩
  obtain ⟨_, slot, amountBytes, hk', hl, -, hal, hlo⟩ := runSplitCoins_eq_ok hr
  rw [hk] at hk'
  cases hk'
  have hn : amountBytes.zipIdx ≠ [] := by
    simp only [ne_eq, List.zipIdx_eq_nil_iff]
    rintro rfl
    cases hal
    exact ha rfl
  obtain ⟨hne, hkp⟩ := uid_foldlM (fun run ↦ extractUidFromBcs run.coinBytes)
    (fun _ _ _ ht ↦ uid_splitAmount hvm hke ht) hn hlo
  have hot : oid ≠ id := by
    rintro rfl
    exact hne (hkp.symm.trans ho)
  exact ⟨hf, hs.mutateObject hot _ _, (hst.own.setBytes hl.1 hne _).recordResult _ _, hst.pending⟩

private theorem spares_mergeCoins (hvm : Confines H contents engine.vm)
    (hke : Withholds contents id engine.vm) {idx : Nat} {target : Argument}
    {sources : List Argument} (hs : sources ≠ [])
    (h : engine.lowerMergeCoins H idx target sources st = .ok st')
    (hst : st.Spares H id ptbInputs) : st'.Spares H id ptbInputs := by
  obtain ⟨run, oid, key, slot, hr, ho, hk, hl, rfl⟩ := lowerMergeCoins_eq_ok h
  obtain ⟨hf, hsp⟩ := (keptByCalls_untouched hvm hke).mergeCoins hr ⟨hst.fresh, hst.spared⟩
  obtain ⟨_, slot', sourceBytes, hk', hl', -, hc, hlo⟩ := runMergeCoins_eq_ok hr
  rw [hk] at hk'
  cases hk'
  obtain ⟨⟨keys, hky⟩, ha⟩ := consumeSources_eq_ok hc
  have hn : sourceBytes.zipIdx ≠ [] := by
    simp only [ne_eq, List.zipIdx_eq_nil_iff]
    rintro rfl
    cases ha
    exact hs rfl
  obtain ⟨hne, hkp⟩ := uid_foldlM (fun run ↦ extractUidFromBcs run.2)
    (fun _ _ _ ht ↦ uid_joinSource hvm hke ht) hn hlo
  have hot : oid ≠ id := by
    rintro rfl
    exact hne (hkp.symm.trans ho)
  refine ⟨hf, hsp.mutateObject hot _ _, ?_, hst.pending⟩
  rw [show run.pctx = _ from hky]
  exact ((hst.own.consumes ⟨keys, rfl⟩).setBytes hl'.1 hne _).recordResult _ _

/-- A command that runs code without the object spares it. -/
theorem spares_command (hvm : Confines H contents engine.vm)
    (hk : Withholds contents id engine.vm) {store : RawStore} {ctx : MoveExecutionContext}
    {idx : Nat} {cmd : Command} (hcm : isIdle cmd = false)
    (h : engine.lowerCommand H store ctx ptbInputs idx cmd st = .ok st')
    (hst : st.Spares H id ptbInputs) : st'.Spares H id ptbInputs := by
  have hc := keptByCalls_untouched hvm hk
  have hu : Untouched H id st.session.runtime := ⟨hst.fresh, hst.spared⟩
  cases cmd with
  | moveCall mc => exact spares_moveCall hvm hk h hst
  | splitCoins coin amounts =>
    exact spares_splitCoins hvm hk (List.isEmpty_eq_false_iff.mp hcm) h hst
  | mergeCoins target sources =>
    exact spares_mergeCoins hvm hk (List.isEmpty_eq_false_iff.mp hcm) h hst
  | transferObjects objects recipient =>
    obtain ⟨_, session, pctx, hfo, rfl⟩ := lowerTransferObjects_eq_ok h
    obtain ⟨hf, hs⟩ := hc.transferObjects hfo hu
    have ho := hst.own.consumes (consumes_transferObjects hfo)
    exact ⟨hf, hs, ho.recordResult _ _, hst.pending⟩
  | makeMoveVec typeTag args =>
    obtain ⟨_, _, pctx, -, hfo, rfl⟩ := lowerMakeMoveVec_eq_ok h
    have ho := hst.own.consumes (consumes_appendElements hfo)
    exact ⟨hst.fresh, hst.spared, ho.recordResult _ _, hst.pending⟩
  | publish modules deps =>
    obtain ⟨hp, hpe⟩ := lowerPublish_eq_ok h
    obtain ⟨hf, hs⟩ := hc.publish h hu
    refine ⟨hf, hs, ?_, ?_⟩
    · rw [hp]
      exact hst.own.recordResult _ _
    · rw [hpe]
      exact hst.pending
  | upgrade modules deps currentPackage upgradeTicket =>
    obtain ⟨key, _, _, -, -, hp, hpe⟩ := lowerUpgrade_eq_ok h
    obtain ⟨hf, hs⟩ := hc.upgrade h hu
    refine ⟨hf, hs, ?_, ?_⟩
    · rw [hp]
      exact (hst.own.consumes ⟨_, rfl⟩).recordResult _ _
    · rw [hpe]
      exact hst.pending

/-- So does a block of such commands. -/
theorem spares_runCommands (hvm : Confines H contents engine.vm)
    (hk : Withholds contents id engine.vm) {store : RawStore} {ctx : MoveExecutionContext}
    {commands : List (Command × Nat)} (hc : ∀ cmd ∈ commands, isIdle cmd.1 = false)
    (h : engine.runCommands H store ctx ptbInputs commands st = .ok st')
    (hst : st.Spares H id ptbInputs) : st'.Spares H id ptbInputs := by
  refine foldlM_ok_induction (fun st ↦ st.Spares H id ptbInputs) h hst ?_
  intro cmd hcm before after hs hb
  simp only [runCommand, bind_eq_ok] at hs
  obtain ⟨charged, hch, hl⟩ := hs
  obtain ⟨session, rfl, -, hr⟩ := PtbState.charge_eq_ok hch
  refine spares_command hvm hk (hc cmd hcm) hl ⟨?_, ?_, hb.own, hb.pending⟩
  · rw [hr]
    exact hb.fresh
  · rw [hr]
    exact hb.spared

private theorem spared_flushPending {pending : List (ObjectId × StructTag × Bytes)}
    (hp : ∀ mutation ∈ pending, mutation.1 ≠ id) {rt : SetuObjectRuntime}
    (h : rt.Spared id) : (flushPending pending rt).Spared id := by
  induction pending generalizing rt with
  | nil => exact h
  | cons mutation rest ih =>
    obtain ⟨hf, hr⟩ := List.forall_mem_cons.mp hp
    rw [flushPending, List.foldl_cons, ← flushPending]
    exact ih hr (h.mutateObject hf _ _)

variable {store : RawStore} {inputObjects : List InputObject}
  {dfPreload : List ResolvedDynamicField} {ctx : MoveExecutionContext}
  {output : MoveExecutionOutput}

private theorem spares_beginPtb {ptb : ProgrammableTransaction}
    (h : engine.beginPtb store ptb inputObjects dfPreload ctx = .ok st)
    (hfr : ∀ n, freshIdAt H ctx.txHash n ≠ id)
    (ho : ∀ object ∈ inputObjects, object.id = id → extractUidFromBcs object.moveData = some id)
    : st.Spares H id ptb.inputs := by
  obtain ⟨slots, -, hs, hp, hr, hpe⟩ := beginPtb_eq_ok h
  refine ⟨?_, ?_, ?_, ?_⟩
  · rw [hr]
    exact hfr
  · rw [hr]
    exact SetuObjectRuntime.spared_new _ _ _ _ _
  · rw [hp]
    intro i objArg slot hin hid hsl
    obtain ⟨⟨arg, _⟩, ha, hi⟩ := getElem?_of_mapM_ok hs hsl
    rw [List.getElem?_zipIdx, hin] at ha
    cases ha
    simp only [initialSlot, bind_eq_ok, okOr_eq_ok, pure_eq_ok] at hi
    obtain ⟨object, hf, rfl⟩ := hi
    have hob : object.id = objArg.id := by simpa using List.find?_some hf
    exact ho object (List.mem_of_find?_eq_some hf) (hob.trans hid)
  · rw [hpe]
    simp

private theorem fieldEffects_of_logs {sender : Address} {timestamp : UInt64}
    {txHash : Bytes} {rt : SetuObjectRuntime}
    (h : SetuObjectRuntime.Logs H (.new inputObjects dfPreload txHash sender timestamp) rt)
    (hf : ∀ field ∈ dfPreload, field.dfObjectId ≠ id) : rt.fieldEffects id = 0 := by
  obtain ⟨ops, ho⟩ := h
  refine Nat.eq_zero_of_not_pos fun hp ↦ ?_
  obtain ⟨field, hfi, heq⟩ := SetuObjectRuntime.exists_preload_of_fieldEffects ho hp
  exact hf field hfi heq

/-- A block that runs no code with the object has no change of it. -/
theorem not_mem_executePtbBody (hvm : Confines H contents engine.vm)
    (hk : Withholds contents id engine.vm) {ptb : ProgrammableTransaction}
    (h : engine.executePtbBody H store ptb inputObjects dfPreload ctx = .ok output)
    (hi : ∀ cmd ∈ ptb.commands, isIdle cmd = false)
    (hfr : ∀ n, freshIdAt H ctx.txHash n ≠ id)
    (ho : ∀ object ∈ inputObjects, object.id = id → extractUidFromBcs object.moveData = some id)
    (hfi : ∀ field ∈ dfPreload, field.dfObjectId ≠ id) :
    id ∉ output.stateChanges.map MoveStateChange.objectId := by
  obtain ⟨st, st', hb, hr, hf⟩ := executePtbBody_eq_ok.mp h
  have hbe := spares_beginPtb hb hfr ho
  have ha := spares_runCommands hvm hk
    (fun cmd hc ↦ hi cmd.1 (List.fst_mem_of_mem_zipIdx hc)) hr hbe
  have hl := (logs_runCommands hr).trans (logs_flushPending st'.pendingInputMutations _)
  obtain ⟨_, -, -, -, hru, -⟩ := beginPtb_eq_ok hb
  rw [hru] at hl
  simp only [finishPtb, bind_eq_ok, pure_eq_ok] at hf
  obtain ⟨_, -, _, -, _, -, _, -, rfl⟩ := hf
  exact (spared_flushPending ha.pending ha.spared).not_mem (fieldEffects_of_logs hl hfi)

private theorem spared_writeBack {mutableArgMap : List (Nat × ObjectId)}
    (hm : ∀ p, mutableArgMap.lookup p ≠ some id) {outputs : List (Nat × Bytes)}
    {rt : SetuObjectRuntime} (h : rt.Spared id) :
    (writeBack mutableArgMap outputs rt).Spared id := by
  induction outputs generalizing rt with
  | nil => exact h
  | cons output rest ih =>
    rw [writeBack, List.foldl_cons, ← writeBack]
    refine ih ?_
    unfold writeBackOutput
    split
    · exact h
    · next other ho =>
      split
      · refine h.mutateObject ?_ _ _
        rintro rfl
        exact hm _ ho
      · exact h

/-- So has a call that is not handed the object and does not write it back. -/
theorem not_mem_execute (hvm : Confines H contents engine.vm)
    (hk : Withholds contents id engine.vm) {moduleId : ModuleId} {function : Identifier}
    {typeArgs : List TypeTag} {args : List Bytes} {mutableArgMap : List (Nat × ObjectId)}
    (h : engine.execute H store inputObjects dfPreload moduleId function typeArgs args ctx
      mutableArgMap = .ok output) (hs : output.success = true)
    (hfr : ∀ n, freshIdAt H ctx.txHash n ≠ id)
    (hm : ∀ p, mutableArgMap.lookup p ≠ some id)
    (hfi : ∀ field ∈ dfPreload, field.dfObjectId ≠ id) :
    id ∉ output.stateChanges.map MoveStateChange.objectId := by
  obtain ⟨_, returned, session, rfl, -, hc, hf⟩ := execute_success_iff.mp ⟨h, hs⟩
  have hsp : session.runtime.Spared id := by
    refine Session.spared_execute hvm hk ?_ hc ?_
    · exact hfr
    · exact SetuObjectRuntime.spared_new _ _ _ _ _
  have hl : SetuObjectRuntime.Logs H
      (.new inputObjects dfPreload ctx.txHash ctx.sender ctx.epochTimestampMs)
      (writeBack mutableArgMap returned.mutableReferenceOutputs session.runtime) :=
    (Session.logs_execute hc).trans (logs_writeBack _ _ _)
  have hn := fieldEffects_of_logs hl hfi
  simp only [finishCall, bind_eq_ok, pure_eq_ok] at hf
  obtain ⟨_, -, _, -, rfl⟩ := hf
  exact (spared_writeBack hm hsp).not_mem hn

end SetuMoveEngine

end Setu.Move
