import Setu.Move.Ptb

/-!
# What the commands of a block do

Library `Move`. Each lowering taken apart once: what it uses, what it leaves in the slots and what
it records in the object runtime. The results about whole blocks are derived from these.
-/

namespace Setu.Move

open Setu.Base Setu.Types Setu.Runtime ArgumentSlot PtbContext

namespace SetuMoveEngine

variable {D S : Type} {H : Blake3 D} {engine : SetuMoveEngine S}

variable {session session' : Session S}

private theorem chargeKeys_eq_ok {perKey keys : UInt64}
    (h : chargeKeys session perKey keys = .ok session') : session'.runtime = session.runtime := by
  unfold chargeKeys at h
  dsimp only at h
  split at h
  · exact (Session.charge_eq_ok h).2
  · cases h
    rfl

variable {st st' : PtbState S} {ctx : MoveExecutionContext} {store : RawStore}

/-- The state before the first command: the slots of the inputs and nothing recorded. -/
theorem beginPtb_eq_ok {ptb : ProgrammableTransaction} {inputObjects : List InputObject}
    {dfPreload : List ResolvedDynamicField}
    (h : engine.beginPtb store ptb inputObjects dfPreload ctx = .ok st) :
    ∃ slots, ptb.validateWire = .ok ⟨⟩ ∧
      ptb.inputs.zipIdx.mapM (initialSlot inputObjects) = .ok slots ∧
      st.pctx = .new slots ptb.commands.length ∧
      st.session.runtime = .new inputObjects dfPreload ctx.txHash ctx.sender
        ctx.epochTimestampMs ∧
      st.pendingInputMutations = [] := by
  simp only [beginPtb, bind_eq_ok, mapError_eq_ok, pure_eq_ok] at h
  obtain ⟨_, hw, session, hc, session', hk, slots, hs, rfl⟩ := h
  refine ⟨slots, hw, hs, rfl, ?_, rfl⟩
  exact (chargeKeys_eq_ok hk).trans (Session.charge_eq_ok hc).2

variable {pctx : PtbContext} {mc : MoveCall}

/-- The write-back of a mutable reference keeps an object input for the end or writes the slot of
a result. -/
theorem writeBackArgument_eq_ok {ptbInputs : List CallArg} {pctx' : PtbContext}
    {pending pending' : List (ObjectId × StructTag × Bytes)} {output : Nat × Bytes}
    (h : writeBackArgument mc ptbInputs (pctx, pending) output = .ok (pctx', pending')) :
    (∃ i objArg slot tag, mc.arguments[output.1]? = some (.input i) ∧
      ptbInputs[i]? = some (.object objArg) ∧ pctx.Live (.input i) slot ∧
      slot.typeTag = some (.struct tag) ∧ pctx' = pctx ∧
      pending' = pending ++ [(objArg.id, tag, output.2)]) ∨
    (∃ arg cmd idx slot, mc.arguments[output.1]? = some arg ∧
      fromArgument arg = some (.cmdResult cmd idx) ∧
      pctx.Live (.cmdResult cmd idx) slot ∧ pctx' = pctx.setBytes output.2 (.cmdResult cmd idx) ∧
      pending' = pending) := by
  simp only [writeBackArgument, bind_eq_ok, okOr_eq_ok] at h
  obtain ⟨arg, ha, h⟩ := h
  cases arg with
  | gasCoin => cases h
  | input i =>
    dsimp only at h
    split at h
    · cases h
    · next objArg hi =>
      simp only [bind_eq_ok, resolve_eq_ok] at h
      obtain ⟨slot, ⟨key, hk, hl⟩, h⟩ := h
      cases hk
      split at h
      · next tag ht =>
        cases h
        exact .inl ⟨i, objArg, slot, tag, ha, hi, hl, ht, rfl, rfl⟩
      · cases h
    · cases h
  | result c | nestedResult c j =>
    simp only [bind_eq_ok, pure_eq_ok, mutateSlot_eq_ok] at h
    obtain ⟨_, ⟨key, slot, hk, hl, rfl⟩, heq⟩ := h
    cases hk
    cases heq
    exact .inr ⟨_, _, _, slot, ha, rfl, hl, rfl, rfl⟩

/-- An argument is the bytes of a live slot, which is consumed unless it is borrowed. -/
theorem bindArgument_eq_ok {bound bound' : List Bytes × PtbContext}
    {item : (Argument × VmType) × Nat} (h : bindArgument bound item = .ok bound') :
    ∃ key slot, fromArgument item.1.1 = some key ∧ bound.2.Live key slot ∧
      bound' = (bound.1 ++ [slot.bytes], { bound.2 with
        consumed := if item.1.2.isReference then bound.2.consumed
          else key :: bound.2.consumed }) := by
  obtain ⟨⟨arg, param⟩, i⟩ := item
  obtain ⟨args, pctx⟩ := bound
  simp only [bindArgument, bind_eq_ok] at h
  obtain ⟨_, -, h⟩ := h
  split at h
  · next hr =>
    simp only [bind_eq_ok, pure_eq_ok, resolve_eq_ok] at h
    obtain ⟨slot, ⟨key, hk, hl⟩, rfl⟩ := h
    exact ⟨key, slot, hk, hl, by simp [hr]⟩
  · next hr =>
    simp only [bind_eq_ok, pure_eq_ok, Prod.exists, consume_eq_ok] at h
    obtain ⟨slot, _, ⟨key, hk, hl, rfl⟩, rfl⟩ := h
    exact ⟨key, slot, hk, hl, by simp [hr]⟩

variable {acc : List Bytes × PtbContext}

private theorem reads_foldlM {ι : Type} {Q : ι → Slot → Prop} {arg : ι → Argument}
    {f : List Bytes × PtbContext → ι → Except RuntimeError (List Bytes × PtbContext)}
    (ht : ∀ item acc acc', f acc item = .ok acc' → ∃ key slot keys, fromArgument
      (arg item) = some key ∧ acc.2.slot? key = some slot ∧ Q item slot ∧ acc' = (acc.1 ++
      [slot.bytes], { acc.2 with consumed := keys })) {items : List ι}
    {acc' : List Bytes × PtbContext} (h : items.foldlM f acc = .ok acc') :
    acc.2.Consumes acc'.2 ∧ ∃ new, acc'.1 = acc.1 ++ new ∧
      List.Forall₂ (fun item bytes ↦ ∃ key slot,
        fromArgument (arg item) = some key ∧ acc.2.slot? key = some slot ∧
          Q item slot ∧ slot.bytes = bytes) items new := by
  induction items generalizing acc with
  | nil =>
    cases h
    exact ⟨.refl _, [], by simp, .nil⟩
  | cons item items ih =>
    rw [List.foldlM_cons, bind_eq_ok] at h
    obtain ⟨next, hs, hr⟩ := h
    obtain ⟨key, slot, _, hk, hsl, hQ, rfl⟩ := ht item acc next hs
    obtain ⟨⟨keys, hke⟩, new, hn, ha⟩ := ih hr
    refine ⟨⟨keys, hke⟩, slot.bytes :: new, by simp [hn], .cons ?_ ha⟩
    exact ⟨key, slot, hk, hsl, hQ, rfl⟩

/-- The arguments of a call are the bytes of the slots that it names; the slots stay as they
are. -/
theorem bindArguments_eq_ok {arguments : List Argument} {parameters : List VmType}
    {bound : List Bytes × PtbContext} (h : bindArguments pctx arguments parameters = .ok bound)
    (hl : parameters.length = arguments.length) :
    pctx.Consumes bound.2 ∧
      List.Forall₂ (fun arg bytes ↦ ∃ key slot, fromArgument arg = some key ∧
        pctx.slot? key = some slot ∧ slot.bytes = bytes) arguments bound.1 := by
  obtain ⟨hke, new, hn, ha⟩ := reads_foldlM (Q := fun _ _ ↦ True) (fun item acc acc' ht ↦ by
      obtain ⟨key, slot, hk, hli, rfl⟩ := bindArgument_eq_ok ht
      exact ⟨key, slot, _, hk, hli.1, trivial, rfl⟩) h
  refine ⟨hke, ?_⟩
  rw [List.nil_append] at hn
  have hf : (arguments.zip parameters).zipIdx.map (fun item ↦ item.1.1) = arguments := by
    have hm := List.map_map (l := (arguments.zip parameters).zipIdx) (f := Prod.fst) (g := Prod.fst)
    rw [List.zipIdx_map_fst, List.map_fst_zip hl.ge] at hm
    exact hm.symm
  rw [hn]
  nth_rewrite 1 [← hf]
  refine List.forall₂_map_left_iff.mpr (ha.imp ?_)
  rintro item bytes ⟨key, slot, hk, hs, -, hb⟩
  exact ⟨key, slot, hk, hs, hb⟩

/-- A call in the VM binds its arguments and runs the function. -/
theorem runMoveCall_eq_ok {run : MoveCallRun S}
    (h : engine.runMoveCall H session pctx mc = .ok run) :
    bindArguments pctx mc.arguments run.signature.parameters = .ok (run.call.args, run.pctx) ∧
      run.signature.parameters.length = mc.arguments.length ∧
      session.run H engine.vm run.call
        (fun e ↦ s!"MoveCall {mc.module}::{mc.function} execution failed: {e}") =
        .ok (run.returned, run.session) := by
  simp only [runMoveCall, bind_eq_ok, pure_eq_ok] at h
  obtain ⟨⟨moduleId, function⟩, -, ⟨tyArgs, signature⟩, hs, ⟨args, pctx'⟩, hb,
    abilities, -, ⟨returned, session'⟩, hr, _, -, rfl⟩ := h
  refine ⟨hb, ?_, hr⟩
  simp only [loadSignature, bind_eq_ok, require_eq_ok, pure_eq_ok, beq_iff_eq] at hs
  obtain ⟨_, -, _, -, _, -, _, hl, heq⟩ := hs
  cases heq
  exact hl

variable {idx : Nat}

/-- A call is its run, the write-back of its mutable references and the record of its results. -/
theorem lowerMoveCall_eq_ok {ptbInputs : List CallArg}
    (h : engine.lowerMoveCall H ptbInputs idx mc st = .ok st') :
    ∃ run pctx, engine.runMoveCall H st.session st.pctx mc = .ok run ∧
      run.returned.mutableReferenceOutputs.foldlM (writeBackArgument mc ptbInputs)
        (run.pctx, st.pendingInputMutations) = .ok (pctx, st'.pendingInputMutations) ∧
      st'.session = run.session ∧
      st'.pctx = pctx.recordResult idx (moveCallSlots run.returned.returnValues run.abilities) := by
  simp only [lowerMoveCall, bind_eq_ok, pure_eq_ok] at h
  obtain ⟨run, hr, ⟨pctx, pending⟩, hf, rfl⟩ := h
  exact ⟨run, pctx, hr, hf, rfl, rfl⟩

variable {inner : TypeTag}

/-- The operand of a coin command is a live slot tracked as a coin. -/
theorem coinOperand_eq_ok {arg : Argument} {untracked notCoin : String} {bytes : Bytes} :
    engine.coinOperand pctx arg untracked notCoin = .ok (inner, bytes) ↔
      ∃ key slot, fromArgument arg = some key ∧ pctx.Live key slot ∧
        slot.typeTag = some (.struct (coinTag inner)) ∧ slot.bytes = bytes := by
  simp only [coinOperand, bind_eq_ok, resolve_eq_ok, okOr_eq_ok,
    coinInnerTypeFromTag_eq_some_iff, pure_eq_ok, Prod.mk.injEq]
  constructor
  · rintro ⟨slot, ⟨key, hk, hl⟩, _, ht, _, rfl, rfl, rfl⟩
    exact ⟨key, slot, hk, hl, ht, rfl⟩
  · rintro ⟨key, slot, hk, hl, ht, rfl⟩
    exact ⟨slot, ⟨key, hk, hl⟩, _, ht, inner, rfl, rfl, rfl⟩

variable {coinArg : Argument}

theorem writeBackCoin_eq_ok {function : String} {coinBytes : Bytes} {pctx' : PtbContext}
    (h : writeBackCoin function inner coinArg coinBytes session pctx = .ok (session', pctx')) :
    ∃ oid key slot, extractUidFromBcs coinBytes = some oid ∧
      fromArgument coinArg = some key ∧ pctx.Live key slot ∧
      session' = { session with
        runtime := session.runtime.mutateObject oid (coinTag inner) coinBytes } ∧
      pctx' = pctx.setBytes coinBytes key := by
  simp only [writeBackCoin, bind_eq_ok, okOr_eq_ok, pure_eq_ok,
    mutateSlot_eq_ok] at h
  obtain ⟨oid, ho, _, ⟨key, slot, hk, hl, rfl⟩, heq⟩ := h
  cases heq
  exact ⟨oid, key, slot, ho, hk, hl, rfl, rfl⟩

/-- A turn of the loop over amounts runs `coin::split` and adds the coin it returns. -/
theorem splitAmount_eq_ok {run run' : CoinRun S} {amount : Bytes × Nat}
    (h : engine.splitAmount H inner run amount = .ok run') :
    ∃ returned newCoin,
      run.session.run H engine.vm
        (coinCall (ident "split") inner [run.coinBytes, amount.1, run.txCtxBytes])
        (fun e ↦ s!"coin::split iteration {amount.2} failed: {e}") =
        .ok (returned, run'.session) ∧
      returned.mutableReferenceOutputs.foldlM applySplitOutput (run.coinBytes, run.txCtxBytes) =
        .ok (run'.coinBytes, run'.txCtxBytes) ∧
      returned.returnValues.head? = some newCoin ∧
      run'.slots = run.slots ++ [⟨newCoin, some (.struct (coinTag inner)), none⟩] := by
  simp only [splitAmount, bind_eq_ok, okOr_eq_ok, pure_eq_ok, Prod.exists] at h
  obtain ⟨returned, session, hr, coinBytes, txCtxBytes, ho, newCoin, hn, rfl⟩ := h
  exact ⟨returned, newCoin, hr, ho, hn, rfl⟩

/-- A split is the loop over its amounts on a coin, whose bytes it then writes back. -/
theorem runSplitCoins_eq_ok {amounts : List Argument} {run : CoinRun S}
    (h : engine.runSplitCoins H st coinArg amounts = .ok (inner, run)) :
    ∃ key slot amountBytes, fromArgument coinArg = some key ∧
      st.pctx.Live key slot ∧ slot.typeTag = some (.struct (coinTag inner)) ∧
      List.Forall₂ (fun arg bytes ↦ ∃ key slot, fromArgument arg = some key ∧
        st.pctx.Live key slot ∧ slot.bytes = bytes) amounts amountBytes ∧
      amountBytes.zipIdx.foldlM (engine.splitAmount H inner)
        ⟨st.session, slot.bytes, st.txCtxBytes, []⟩ = .ok run := by
  simp only [runSplitCoins, bind_eq_ok, pure_eq_ok, Prod.exists,
    coinOperand_eq_ok, mapM_eq_ok, Prod.mk.injEq, resolve_eq_ok] at h
  obtain ⟨_, _, ⟨key, slot, hk, hl, ht, rfl⟩, amountBytes, ha, _, -, _, hlo, rfl, rfl⟩ := h
  refine ⟨key, slot, amountBytes, hk, hl, ht, ha.imp ?_, hlo⟩
  rintro arg bytes ⟨slot, ⟨key, hk, hl⟩, rfl⟩
  exact ⟨key, slot, hk, hl, rfl⟩

theorem lowerSplitCoins_eq_ok {amounts : List Argument}
    (h : engine.lowerSplitCoins H idx coinArg amounts st = .ok st') :
    ∃ inner run oid key, engine.runSplitCoins H st coinArg amounts = .ok (inner, run) ∧
      extractUidFromBcs run.coinBytes = some oid ∧
      fromArgument coinArg = some key ∧
      st' = { st with
        session := { run.session with
          runtime := run.session.runtime.mutateObject oid (coinTag inner) run.coinBytes }
        pctx := (st.pctx.setBytes run.coinBytes key).recordResult idx run.slots
        txCtxBytes := run.txCtxBytes
        lastReturnValues := [] } := by
  simp only [lowerSplitCoins, bind_eq_ok, pure_eq_ok, Prod.exists] at h
  obtain ⟨inner, run, hr, _, _, hw, rfl⟩ := h
  obtain ⟨oid, key, slot, ho, hk, -, rfl, rfl⟩ := writeBackCoin_eq_ok hw
  exact ⟨inner, run, oid, key, hr, ho, hk, rfl⟩

variable {sources : List Argument}

/-- A merge consumes its sources and joins them to a coin one after the other. -/
theorem runMergeCoins_eq_ok {target : Argument} {run : MergeRun S}
    (h : engine.runMergeCoins H st target sources = .ok run) :
    ∃ key slot sourceBytes, fromArgument target = some key ∧
      st.pctx.Live key slot ∧ slot.typeTag = some (.struct (coinTag run.inner)) ∧
      sources.zipIdx.foldlM (engine.consumeSource run.inner) ([], st.pctx) =
        .ok (sourceBytes, run.pctx) ∧
      sourceBytes.zipIdx.foldlM (engine.joinSource H run.inner) (st.session, slot.bytes) =
        .ok (run.session, run.coinBytes) := by
  simp only [runMergeCoins, bind_eq_ok, pure_eq_ok, Prod.exists, coinOperand_eq_ok] at h
  obtain ⟨inner, _, ⟨key, slot, hk, hl, ht, rfl⟩, sourceBytes, pctx, hs, _, -,
    session, coinBytes, hj, rfl⟩ := h
  exact ⟨key, slot, sourceBytes, hk, hl, ht, hs, hj⟩

theorem lowerMergeCoins_eq_ok {target : Argument}
    (h : engine.lowerMergeCoins H idx target sources st = .ok st') :
    ∃ run oid key slot, engine.runMergeCoins H st target sources = .ok run ∧
      extractUidFromBcs run.coinBytes = some oid ∧
      fromArgument target = some key ∧ run.pctx.Live key slot ∧
      st' = { st with
        session := { run.session with
          runtime := run.session.runtime.mutateObject oid (coinTag run.inner) run.coinBytes }
        pctx := (run.pctx.setBytes run.coinBytes key).recordResult idx []
        lastReturnValues := [] } := by
  simp only [lowerMergeCoins, bind_eq_ok, pure_eq_ok, Prod.exists] at h
  obtain ⟨run, hr, _, _, hw, rfl⟩ := h
  obtain ⟨oid, key, slot, ho, hk, hl, rfl, rfl⟩ := writeBackCoin_eq_ok hw
  exact ⟨run, oid, key, slot, hr, ho, hk, hl, rfl⟩

/-- A source of a merge is a live slot tracked as the same coin, which is consumed. -/
theorem consumeSource_eq_ok {acc' : List Bytes × PtbContext} {source : Argument × Nat}
    (h : engine.consumeSource inner acc source = .ok acc') :
    ∃ key slot, fromArgument source.1 = some key ∧ acc.2.Live key slot ∧
      slot.typeTag = some (.struct (coinTag inner)) ∧
      acc' = (acc.1 ++ [slot.bytes], { acc.2 with consumed := key :: acc.2.consumed }) := by
  simp only [consumeSource, bind_eq_ok, Prod.exists, consume_eq_ok,
    okOr_eq_ok, require_eq_ok, beq_iff_eq, pure_eq_ok] at h
  obtain ⟨slot, _, ⟨key, hk, hl, rfl⟩, _, ht, _, rfl, rfl⟩ := h
  exact ⟨key, slot, hk, hl, ht, rfl⟩

/-- The sources of a merge are the bytes of the slots that it names; the slots stay as they are. -/
theorem consumeSources_eq_ok
    (h : sources.zipIdx.foldlM (engine.consumeSource inner) ([], pctx) = .ok acc) :
    pctx.Consumes acc.2 ∧
      List.Forall₂ (fun source bytes ↦ ∃ key slot, fromArgument source = some key ∧
        pctx.slot? key = some slot ∧ slot.typeTag = some (.struct (coinTag inner)) ∧
        slot.bytes = bytes) sources acc.1 := by
  obtain ⟨hk, new, hn, ha⟩ := reads_foldlM
    (Q := fun _ slot ↦ slot.typeTag = some (.struct (coinTag inner)))
    (fun item acc acc' ht ↦ by
      obtain ⟨key, slot, hke, hl, hta, rfl⟩ := consumeSource_eq_ok ht
      exact ⟨key, slot, _, hke, hl.1, hta, rfl⟩) h
  refine ⟨hk, ?_⟩
  rw [List.nil_append] at hn
  rw [hn]
  nth_rewrite 1 [← List.zipIdx_map_fst 0 sources]
  exact List.forall₂_map_left_iff.mpr ha

/-- A turn of the loop over sources runs `coin::join`. -/
theorem joinSource_eq_ok {run run' : Session S × Bytes} {source : Bytes × Nat}
    (h : engine.joinSource H inner run source = .ok run') :
    ∃ returned, run.1.run H engine.vm (coinCall (ident "join") inner [run.2, source.1])
        (fun e ↦ s!"coin::join iteration {source.2} failed: {e}") = .ok (returned, run'.1) ∧
      returned.mutableReferenceOutputs.foldlM applyJoinOutput run.2 = .ok run'.2 := by
  simp only [joinSource, bind_eq_ok, pure_eq_ok, Prod.exists] at h
  obtain ⟨returned, session, hr, coinBytes, ho, rfl⟩ := h
  exact ⟨returned, hr, ho⟩

/-- A transferred object is a live slot tracked as a coin, which is consumed. -/
theorem transferObject_eq_ok {recipient : Bytes} {acc acc' : Session S × PtbContext}
    {obj : Argument × Nat} (h : engine.transferObject H recipient acc obj = .ok acc') :
    ∃ key slot inner returned session, fromArgument obj.1 = some key ∧
      acc.2.Live key slot ∧ slot.typeTag = some (.struct (coinTag inner)) ∧
      acc.1.run H engine.vm (coinCall (ident "transfer") inner [slot.bytes, recipient])
        (fun e ↦ s!"coin::transfer iteration {obj.2} failed: {e}") = .ok (returned, session) ∧
      acc' = (session, { acc.2 with consumed := key :: acc.2.consumed }) := by
  simp only [transferObject, bind_eq_ok, Prod.exists, consume_eq_ok,
    okOr_eq_ok, coinInnerTypeFromTag_eq_some_iff, pure_eq_ok] at h
  obtain ⟨slot, _, ⟨key, hk, hl, rfl⟩, _, ht, inner, rfl, _, -, returned, session, hr, rfl⟩ := h
  exact ⟨key, slot, inner, returned, session, hk, hl, ht, hr, rfl⟩

theorem consumes_transferObjects {recipient : Bytes} {objects : List (Argument × Nat)}
    {acc acc' : Session S × PtbContext}
    (h : objects.foldlM (engine.transferObject H recipient) acc = .ok acc') :
    acc.2.Consumes acc'.2 := by
  refine foldlM_ok_induction (fun acc' ↦ acc.2.Consumes acc'.2) h (.refl _) ?_
  rintro obj - before after hs hb
  obtain ⟨key, slot, inner, returned, session, -, -, -, -, rfl⟩ := transferObject_eq_ok hs
  exact hb.update _

theorem lowerTransferObjects_eq_ok {objects : List Argument} {recipient : Argument}
    (h : engine.lowerTransferObjects H idx objects recipient st = .ok st') :
    ∃ recipientBytes session pctx,
      objects.zipIdx.foldlM (engine.transferObject H recipientBytes) (st.session, st.pctx) =
        .ok (session, pctx) ∧
      st' = { st with
        session := session
        pctx := pctx.recordResult idx []
        lastReturnValues := [] } := by
  simp only [lowerTransferObjects, bind_eq_ok, pure_eq_ok, Prod.exists] at h
  obtain ⟨slot, -, session, pctx, hf, rfl⟩ := h
  exact ⟨slot.bytes, session, pctx, hf, rfl⟩

theorem lowerMakeMoveVec_eq_ok {typeTag : Option String} {args : List Argument}
    (h : engine.lowerMakeMoveVec idx typeTag args st = .ok st') :
    ∃ element bytes pctx, engine.elementType st.pctx typeTag args = .ok element ∧
      args.foldlM appendElement (uleb128 args.length, st.pctx) = .ok (bytes, pctx) ∧
      st' = { st with
        pctx := pctx.recordResult idx [⟨bytes, element.map .vector, none⟩]
        lastReturnValues := [] } := by
  simp only [lowerMakeMoveVec, bind_eq_ok, pure_eq_ok, Prod.exists] at h
  obtain ⟨element, he, bytes, pctx, hf, rfl⟩ := h
  exact ⟨element, bytes, pctx, he, hf, rfl⟩

/-- An element of a vector is consumed. -/
theorem appendElement_eq_ok {acc acc' : Bytes × PtbContext} {arg : Argument}
    (h : appendElement acc arg = .ok acc') :
    ∃ key slot, fromArgument arg = some key ∧ acc.2.Live key slot ∧
      acc' = (acc.1 ++ slot.bytes, { acc.2 with consumed := key :: acc.2.consumed }) := by
  simp only [appendElement, bind_eq_ok, Prod.exists, consume_eq_ok,
    pure_eq_ok] at h
  obtain ⟨slot, _, ⟨key, hk, hl, rfl⟩, rfl⟩ := h
  exact ⟨key, slot, hk, hl, rfl⟩

theorem consumes_appendElements {args : List Argument} {acc acc' : Bytes × PtbContext}
    (h : args.foldlM appendElement acc = .ok acc') : acc.2.Consumes acc'.2 := by
  refine foldlM_ok_induction (fun acc' ↦ acc.2.Consumes acc'.2) h (.refl _) ?_
  rintro arg - before after hs hb
  obtain ⟨key, slot, -, -, rfl⟩ := appendElement_eq_ok hs
  exact hb.update _

theorem runtime_checkModuleCompat {prevAddr : Address} {policy : UpgradePolicy}
    {items : List ((Bytes × Identifier) × Nat)}
    (h : items.foldlM (engine.checkModuleCompat store prevAddr policy) session = .ok session') :
    session'.runtime = session.runtime := by
  refine foldlM_ok_induction (fun s ↦ s.runtime = session.runtime) h rfl ?_
  rintro ⟨⟨newModule, ident⟩, i⟩ - before after hs hsa
  simp only [checkModuleCompat, bind_eq_ok, pure_eq_ok] at hs
  obtain ⟨_, -, _, -, _, -, _, -, charged, hc, _, -, rfl⟩ := hs
  exact (Session.charge_eq_ok hc).2.trans hsa

/-- A publication has no results and leaves the slots alone. -/
theorem lowerPublish_eq_ok {modules : List Bytes}
    (h : engine.lowerPublish H ctx idx modules st = .ok st') :
    st'.pctx = st.pctx.recordResult idx [] ∧
      st'.pendingInputMutations = st.pendingInputMutations := by
  unfold lowerPublish at h
  split at h
  · cases h
    exact ⟨rfl, rfl⟩
  · simp only [bind_eq_ok, pure_eq_ok, Prod.exists] at h
    obtain ⟨_, -, session, hp, _, _, hm, rfl⟩ := h
    exact ⟨rfl, rfl⟩

/-- An upgrade consumes the ticket, whatever its slot holds, and returns a receipt. -/
theorem lowerUpgrade_eq_ok {modules : List Bytes} {currentPackage : ObjectId}
    {upgradeTicket : Argument}
    (h : engine.lowerUpgrade H store ctx idx modules currentPackage upgradeTicket st = .ok st') :
    ∃ key slot receiptBytes, fromArgument upgradeTicket = some key ∧
      st.pctx.Live key slot ∧
      st'.pctx = ({ st.pctx with consumed := key :: st.pctx.consumed }).recordResult idx
        [⟨receiptBytes, some (.struct (packageTag (ident "UpgradeReceipt"))), none⟩] ∧
      st'.pendingInputMutations = st.pendingInputMutations := by
  simp only [lowerUpgrade, bind_eq_ok, pure_eq_ok, Prod.exists] at h
  obtain ⟨_, -, ticket, _, hc, _, session, ht, _, -, _, _, -, _, -, _, -, checked,
    hco, published, hp, _, final, hr, receiptBytes, -, rfl⟩ := h
  obtain ⟨key, hk, hl, rfl⟩ := consume_eq_ok.mp hc
  exact ⟨key, ticket, receiptBytes, hk, hl, rfl, rfl⟩

end SetuMoveEngine

/-- A property of the object runtime that every call in the VM keeps. -/
def KeptByCalls {D S : Type} (H : Blake3 D) (vm : MoveVm S) (P : SetuObjectRuntime → Prop) : Prop :=
  ∀ ⦃session session' : Session S⦄ ⦃call : FunctionCall⦄ ⦃failed : String → String⦄
    ⦃returned : SerializedReturn⦄, session.run H vm call failed = .ok (returned, session') →
    P session.runtime → P session'.runtime

namespace KeptByCalls

open SetuMoveEngine

variable {D S : Type} {H : Blake3 D} {engine : SetuMoveEngine S} {P : SetuObjectRuntime → Prop}
    {st st' : PtbState S}

theorem moveCall (hP : KeptByCalls H engine.vm P) {ptbInputs : List CallArg} {idx : Nat}
    {mc : MoveCall} (h : engine.lowerMoveCall H ptbInputs idx mc st = .ok st')
    (hst : P st.session.runtime) : P st'.session.runtime := by
  obtain ⟨run, _, hr, -, hs, -⟩ := lowerMoveCall_eq_ok h
  obtain ⟨-, -, hvm⟩ := runMoveCall_eq_ok hr
  rw [hs]
  exact hP hvm hst

theorem splitCoins (hP : KeptByCalls H engine.vm P) {coinArg : Argument} {amounts : List Argument}
    {inner : TypeTag} {run : CoinRun S}
    (h : engine.runSplitCoins H st coinArg amounts = .ok (inner, run))
    (hst : P st.session.runtime) : P run.session.runtime := by
  obtain ⟨_, _, _, -, -, -, -, hl⟩ := runSplitCoins_eq_ok h
  refine foldlM_ok_induction (fun run ↦ P run.session.runtime) hl hst ?_
  intro amount _ before after hs hb
  obtain ⟨_, _, hr, -⟩ := splitAmount_eq_ok hs
  exact hP hr hb

theorem mergeCoins (hP : KeptByCalls H engine.vm P) {target : Argument} {sources : List Argument}
    {run : MergeRun S} (h : engine.runMergeCoins H st target sources = .ok run)
    (hst : P st.session.runtime) : P run.session.runtime := by
  obtain ⟨_, _, _, -, -, -, -, hl⟩ := runMergeCoins_eq_ok h
  refine foldlM_ok_induction (fun acc ↦ P acc.1.runtime) hl hst ?_
  intro source _ before after hs hb
  obtain ⟨_, hr, -⟩ := joinSource_eq_ok hs
  exact hP hr hb

theorem transferObjects (hP : KeptByCalls H engine.vm P) {recipient : Bytes}
    {objects : List (Argument × Nat)} {acc acc' : Session S × PtbContext}
    (h : objects.foldlM (engine.transferObject H recipient) acc = .ok acc')
    (ha : P acc.1.runtime) : P acc'.1.runtime := by
  refine foldlM_ok_induction (fun acc ↦ P acc.1.runtime) h ha ?_
  intro obj _ before after hs hb
  obtain ⟨_, _, _, _, _, -, -, -, hr, rfl⟩ := transferObject_eq_ok hs
  exact hP hr hb

theorem publish (hP : KeptByCalls H engine.vm P) {ctx : MoveExecutionContext} {idx : Nat}
    {modules : List Bytes} (h : engine.lowerPublish H ctx idx modules st = .ok st')
    (hst : P st.session.runtime) : P st'.session.runtime := by
  unfold lowerPublish at h
  split at h
  · cases h
    exact hst
  · simp only [bind_eq_ok, pure_eq_ok, Prod.exists, mintUpgradeCap] at h
    obtain ⟨_, -, session, hp, _, _, ⟨_, _, hm, _, -, _, -, _, _, ht, heq⟩, rfl⟩ := h
    cases heq
    rw [← Session.runtime_publish hp] at hst
    exact hP ht (hP hm hst)

theorem upgrade (hP : KeptByCalls H engine.vm P) {store : RawStore} {ctx : MoveExecutionContext}
    {idx : Nat} {modules : List Bytes} {currentPackage : ObjectId} {upgradeTicket : Argument}
    (h : engine.lowerUpgrade H store ctx idx modules currentPackage upgradeTicket st = .ok st')
    (hst : P st.session.runtime) : P st'.session.runtime := by
  simp only [lowerUpgrade, bind_eq_ok, pure_eq_ok, Prod.exists] at h
  obtain ⟨_, -, ticket, _, -, _, session, ht, _, -, _, _, -, _, -, _, -, checked, hc,
    published, hp, _, final, hr, receiptBytes, -, rfl⟩ := h
  have hch : P published.runtime := by
    rw [Session.runtime_publish hp, runtime_checkModuleCompat hc]
    exact hP ht hst
  exact hP hr hch

/-- A property that mutations keep as well is kept by every command. -/
theorem command (hP : KeptByCalls H engine.vm P)
    (hm : ∀ {rt} id typeTag bcsBytes, P rt → P (rt.mutateObject id typeTag bcsBytes))
    {store : RawStore} {ctx : MoveExecutionContext} {ptbInputs : List CallArg} {idx : Nat}
    {cmd : Command} (h : engine.lowerCommand H store ctx ptbInputs idx cmd st = .ok st')
    (hst : P st.session.runtime) : P st'.session.runtime := by
  cases cmd with
  | moveCall mc => exact hP.moveCall h hst
  | splitCoins coin amounts =>
    obtain ⟨inner, run, oid, key, hr, -, -, rfl⟩ := lowerSplitCoins_eq_ok h
    exact hm _ _ _ (hP.splitCoins hr hst)
  | mergeCoins target sources =>
    obtain ⟨run, oid, key, slot, hr, -, -, -, rfl⟩ := lowerMergeCoins_eq_ok h
    exact hm _ _ _ (hP.mergeCoins hr hst)
  | transferObjects objects recipient =>
    obtain ⟨_, session, pctx, hf, rfl⟩ := lowerTransferObjects_eq_ok h
    exact hP.transferObjects hf hst
  | makeMoveVec typeTag args =>
    obtain ⟨_, _, _, -, -, rfl⟩ := lowerMakeMoveVec_eq_ok h
    exact hst
  | publish modules deps => exact hP.publish h hst
  | upgrade modules deps currentPackage upgradeTicket => exact hP.upgrade h hst

end KeptByCalls

end Setu.Move
