import Setu.Move.PtbContext

/-!
# Linearity of the slots of a transaction block

Library `Move`. The commands of a block use its slots through four operations. Whatever the
sequence of operations and whatever name a slot is used under, a slot that has been moved out
stays moved out: it is not moved, read or written again. Two names denote one slot exactly if
they have the same canonical form. Source `crates/setu-move-vm/src/ptb_executor.rs`.
-/

namespace Setu.Move

open Setu.Base Setu.Types Setu.Runtime ArgumentSlot

/-- An operation on the slots of a block. -/
inductive SlotOp where
  | resolve (arg : Argument)
  | consume (arg : Argument)
  | mutateSlot (arg : Argument) (newBytes : Bytes)
  | recordResult (cmdIdx : Nat) (slots : List Slot)

namespace SlotOp

/-- The slot that the operation names, under any of its names. -/
def slot? : SlotOp → Option ArgumentSlot
  | resolve arg | consume arg | mutateSlot arg _ => fromArgument arg
  | recordResult _ _ => none

/-- The answer of the operation and the context it leaves; a failed one leaves it as it is. -/
def perform (pctx : PtbContext) : SlotOp → Except RuntimeError (Option Slot) × PtbContext
  | resolve arg => ((pctx.resolve arg).map some, pctx)
  | consume arg =>
    match pctx.consume arg with
    | .ok (slot, next) => (.ok (some slot), next)
    | .error e => (.error e, pctx)
  | mutateSlot arg newBytes =>
    match pctx.mutateSlot arg newBytes with
    | .ok next => (.ok none, next)
    | .error e => (.error e, pctx)
  | recordResult cmdIdx slots => (.ok none, pctx.recordResult cmdIdx slots)

/-- A result for a command that the block does not have is an index out of range. -/
def Panics (pctx : PtbContext) : SlotOp → Prop
  | recordResult cmdIdx _ => ¬ cmdIdx < pctx.results.length
  | _ => False

instance (pctx : PtbContext) : (op : SlotOp) → Decidable (op.Panics pctx)
  | recordResult _ _ => inferInstanceAs (Decidable (¬ _))
  | resolve _ | consume _ | mutateSlot _ _ => .isFalse not_false

end SlotOp

/-- An operation with its answer. -/
structure PerformedOp where
  op : SlotOp
  answer : Except RuntimeError (Option Slot)

namespace PerformedOp

/-- The operation has moved the slot out. -/
def Consumes (p : PerformedOp) (key : ArgumentSlot) : Prop :=
  (∃ arg slot, p.op = .consume arg ∧ p.answer = .ok slot) ∧ p.op.slot? = some key

/-- The operation was refused because the slot it names has been moved out. -/
def Refused (p : PerformedOp) : Prop :=
  ∃ text, p.answer = .error (.ptbArgumentAlreadyConsumed text)

end PerformedOp

namespace PtbContext

/-- The operations that are performed, with their answers. -/
def trace : PtbContext → List SlotOp → List PerformedOp
  | _, [] => []
  | pctx, op :: rest =>
    if op.Panics pctx then []
    else ⟨op, (op.perform pctx).1⟩ :: trace (op.perform pctx).2 rest

/-- The context after the operations. -/
def after : PtbContext → List SlotOp → PtbContext
  | pctx, [] => pctx
  | pctx, op :: rest => if op.Panics pctx then pctx else after (op.perform pctx).2 rest

/-- Every result goes to a row that is still empty, as `record_result` asserts in debug builds,
`ptb_executor.rs:275-279`. -/
def RecordsOnce : PtbContext → List SlotOp → Prop
  | _, [] => True
  | pctx, op :: rest =>
    (∀ cmdIdx slots, op = .recordResult cmdIdx slots → pctx.results[cmdIdx]? = some []) ∧
      RecordsOnce (op.perform pctx).2 rest

section

variable {pctx : PtbContext} {arg : Argument} {key : ArgumentSlot}

theorem resolve_of_consumed (ha : fromArgument arg = some key)
    (hk : key ∈ pctx.consumed) :
    ∃ text, pctx.resolve arg = .error (.ptbArgumentAlreadyConsumed text) := by
  simp only [resolve, ha, require, List.contains_iff_mem.mpr hk, Bool.not_true,
    Bool.false_eq_true, if_false]
  exact ⟨_, rfl⟩

theorem consume_of_consumed (ha : fromArgument arg = some key)
    (hk : key ∈ pctx.consumed) :
    ∃ text, pctx.consume arg = .error (.ptbArgumentAlreadyConsumed text) := by
  simp only [consume, ha, require, List.contains_iff_mem.mpr hk, Bool.not_true,
    Bool.false_eq_true, if_false]
  exact ⟨_, rfl⟩

theorem mutateSlot_of_consumed (ha : fromArgument arg = some key)
    (hk : key ∈ pctx.consumed) (newBytes : Bytes) :
    ∃ text, pctx.mutateSlot arg newBytes = .error (.ptbArgumentAlreadyConsumed text) := by
  simp only [mutateSlot, ha, require, List.contains_iff_mem.mpr hk, Bool.not_true,
    Bool.false_eq_true, if_false]
  exact ⟨_, rfl⟩

/-- No operation that names a consumed slot succeeds. -/
theorem refused_of_consumed {op : SlotOp} (hk : key ∈ pctx.consumed)
    (hop : op.slot? = some key) : PerformedOp.Refused ⟨op, (op.perform pctx).1⟩ := by
  cases op with
  | resolve arg =>
    obtain ⟨text, ht⟩ := resolve_of_consumed hop hk
    exact ⟨text, by simp [SlotOp.perform, ht, Except.map]⟩
  | consume arg =>
    obtain ⟨text, ht⟩ := consume_of_consumed hop hk
    exact ⟨text, by simp [SlotOp.perform, ht]⟩
  | mutateSlot arg newBytes =>
    obtain ⟨text, ht⟩ := mutateSlot_of_consumed hop hk newBytes
    exact ⟨text, by simp [SlotOp.perform, ht]⟩
  | recordResult cmdIdx slots => cases hop

/-- What an operation does to the set of consumed slots: nothing, or it adds the slot that it
moves out. -/
theorem consumed_perform (pctx : PtbContext) (op : SlotOp) :
    (op.perform pctx).2.consumed = pctx.consumed ∧
        (∀ key, ¬ PerformedOp.Consumes ⟨op, (op.perform pctx).1⟩ key) ∨
      ∃ key, (op.perform pctx).2.consumed = key :: pctx.consumed ∧ op.slot? = some key := by
  cases op with
  | resolve arg => exact .inl ⟨rfl, by simp [PerformedOp.Consumes]⟩
  | consume arg =>
    cases hc : pctx.consume arg with
    | ok answer =>
      obtain ⟨key, ha, -, hn⟩ := consume_eq_ok.mp hc
      refine .inr ⟨key, ?_, ha⟩
      simp only [SlotOp.perform, hc, hn]
    | error e =>
      refine .inl ⟨by simp [SlotOp.perform, hc], ?_⟩
      simp [PerformedOp.Consumes, SlotOp.perform, hc]
  | mutateSlot arg newBytes =>
    refine .inl ⟨?_, by simp [PerformedOp.Consumes]⟩
    cases hm : pctx.mutateSlot arg newBytes with
    | ok next =>
      obtain ⟨key, slot, -, -, hn⟩ := mutateSlot_eq_ok.mp hm
      simp only [SlotOp.perform, hm, hn, consumed_setBytes]
    | error e => simp only [SlotOp.perform, hm]
  | recordResult cmdIdx slots => exact .inl ⟨rfl, by simp [PerformedOp.Consumes]⟩

/-- A consumed slot stays consumed. -/
theorem mem_consumed_perform (op : SlotOp) (hk : key ∈ pctx.consumed) :
    key ∈ (op.perform pctx).2.consumed := by
  rcases consumed_perform pctx op with ⟨hs, -⟩ | ⟨added, ha, -⟩
  · rw [hs]
    exact hk
  · rw [ha]
    exact List.mem_cons_of_mem _ hk

/-- A slot that an operation moves out is consumed after it. -/
theorem mem_consumed_of_consumes {op : SlotOp}
    (h : PerformedOp.Consumes ⟨op, (op.perform pctx).1⟩ key) :
    key ∈ (op.perform pctx).2.consumed := by
  rcases consumed_perform pctx op with ⟨-, hn⟩ | ⟨added, ha, hs⟩
  · exact absurd h (hn key)
  · cases h.2.symm.trans hs
    rw [ha]
    exact List.mem_cons_self

/-- A consumed slot keeps its contents, unless the result of its command is recorded anew. -/
theorem slot?_perform {op : SlotOp} {slot : Slot} (hk : key ∈ pctx.consumed)
    (hs : pctx.slot? key = some slot)
    (hr : ∀ cmdIdx slots, op = .recordResult cmdIdx slots →
      pctx.results[cmdIdx]? = some []) :
    (op.perform pctx).2.slot? key = some slot := by
  cases op with
  | resolve arg => exact hs
  | consume arg =>
    cases hc : pctx.consume arg with
    | ok answer =>
      obtain ⟨other, -, -, hn⟩ := consume_eq_ok.mp hc
      simp only [SlotOp.perform, hc, hn]
      cases key <;> exact hs
    | error e => simpa only [SlotOp.perform, hc] using hs
  | mutateSlot arg newBytes =>
    cases hm : pctx.mutateSlot arg newBytes with
    | ok next =>
      obtain ⟨other, slot', -, hl, rfl⟩ := mutateSlot_eq_ok.mp hm
      have hne : key ≠ other := fun heq ↦ hl.2 (heq ▸ hk)
      simp only [SlotOp.perform, hm, slot?_setBytes, if_neg hne, hs]
    | error e => simpa only [SlotOp.perform, hm] using hs
  | recordResult cmdIdx slots =>
    have he := hr cmdIdx slots rfl
    have hlt : cmdIdx < pctx.results.length := (List.getElem?_eq_some_iff.mp he).1
    simp only [SlotOp.perform, slot?_recordResult pctx hlt]
    cases key with
    | input i => exact hs
    | cmdResult cmd idx =>
      by_cases hcm : cmd = cmdIdx
      · -- a row that is still empty has no slot to consume
        simp [slot?, hcm, he] at hs
      · simpa [hcm] using hs

end

variable {key : ArgumentSlot} (ops : List SlotOp)

/-- From a slot that is consumed on, every operation that names it is refused. -/
theorem refused_of_mem_trace :
    ∀ {pctx : PtbContext}, key ∈ pctx.consumed → ∀ p ∈ pctx.trace ops,
      p.op.slot? = some key → p.Refused := by
  induction ops with
  | nil =>
    intro pctx _ p hp
    cases hp
  | cons op rest ih =>
    intro pctx hk p hp hn
    rw [trace] at hp
    split at hp
    · cases hp
    · rcases List.mem_cons.mp hp with rfl | hp
      · exact refused_of_consumed hk hn
      · exact ih (mem_consumed_perform op hk) p hp hn

/-- Once an operation has moved a slot out, every later one that names it is refused. -/
theorem pairwise_trace :
    ∀ pctx : PtbContext, (pctx.trace ops).Pairwise fun p later ↦
      ∀ key, p.Consumes key → later.op.slot? = some key → later.Refused := by
  induction ops with
  | nil => exact fun _ ↦ .nil
  | cons op rest ih =>
    intro pctx
    rw [trace]
    split
    · exact .nil
    · refine List.pairwise_cons.mpr ⟨?_, ih _⟩
      intro later hl key hc hn
      exact refused_of_mem_trace rest (mem_consumed_of_consumes hc) later hl hn

/-- Consumed slots keep their contents while each result is recorded once. -/
theorem slot?_after {slot : Slot} :
    ∀ {pctx : PtbContext}, key ∈ pctx.consumed → pctx.slot? key = some slot →
      pctx.RecordsOnce ops → (pctx.after ops).slot? key = some slot := by
  induction ops with
  | nil => exact fun _ hs _ ↦ hs
  | cons op rest ih =>
    intro pctx hk hs hr
    rw [after]
    split
    · exact hs
    · exact ih (mem_consumed_perform op hk) (slot?_perform hk hs hr.1) hr.2

/-- Names with one canonical form are interchangeable. -/
theorem eq_of_fromArgument_eq {a b : Argument} (ha : fromArgument a = some key)
    (hb : fromArgument b = some key) (pctx : PtbContext) :
    pctx.resolve a = pctx.resolve b ∧ pctx.consume a = pctx.consume b ∧
      ∀ newBytes, pctx.mutateSlot a newBytes = pctx.mutateSlot b newBytes := by
  have hr : pctx.resolve a = pctx.resolve b := by
    simp only [resolve, ha, hb]
  refine ⟨hr, ?_, ?_⟩
  · simp only [consume, ha, hb, hr]
  · intro newBytes
    simp only [mutateSlot, ha, hb]

/-- A slot that is not there is out of bounds. -/
theorem resolve_of_missing {pctx : PtbContext} {arg : Argument}
    (ha : fromArgument arg = some key) (hk : key ∉ pctx.consumed)
    (hs : pctx.slot? key = none) :
    ∃ text, pctx.resolve arg = .error (.ptbArgumentOutOfBounds text) := by
  have hc : pctx.consumed.contains key = false := by simpa using hk
  have hm : ∃ text, pctx.missing key = .ptbArgumentOutOfBounds text := by
    cases key with
    | input i => exact ⟨_, rfl⟩
    | cmdResult cmd idx =>
      rw [missing]
      split <;> exact ⟨_, rfl⟩
  obtain ⟨text, ht⟩ := hm
  refine ⟨text, ?_⟩
  simp only [resolve, ha, require, hc, Bool.not_false, if_true, okOr, hs, Option.elim_none, ht]
  rfl

/-- Names with different canonical forms are told apart by a context in which one of the slots
has been moved out. -/
theorem exists_resolve_ne {a b : Argument} {ka kb : ArgumentSlot}
    (ha : fromArgument a = some ka) (hb : fromArgument b = some kb)
    (hne : ka ≠ kb) : ∃ pctx : PtbContext, pctx.resolve a ≠ pctx.resolve b := by
  let pctx : PtbContext := ⟨[], [], [ka]⟩
  have hm : pctx.slot? kb = none := by cases kb <;> rfl
  have hf : kb ∉ pctx.consumed := by simpa [pctx] using hne.symm
  obtain ⟨textA, ht⟩ : ∃ text, pctx.resolve a = _ := resolve_of_consumed ha List.mem_cons_self
  obtain ⟨textB, htB⟩ := resolve_of_missing hb hf hm
  refine ⟨pctx, ?_⟩
  rw [ht, htB]
  simp

/-- Moving a slot out or writing it does not touch what another name denotes. -/
theorem live_of_ne {a : Argument} {ka kb : ArgumentSlot} {pctx pctx' : PtbContext}
    (ha : fromArgument a = some ka) (hne : ka ≠ kb)
    (h : (∃ slot, pctx.consume a = .ok (slot, pctx')) ∨
      ∃ newBytes, pctx.mutateSlot a newBytes = .ok pctx') (slot : Slot) :
    pctx'.Live kb slot ↔ pctx.Live kb slot := by
  rcases h with ⟨taken, h⟩ | ⟨newBytes, h⟩
  · obtain ⟨key, hk, -, rfl⟩ := consume_eq_ok.mp h
    cases ha.symm.trans hk
    have hs : PtbContext.slot? { pctx with consumed := ka :: pctx.consumed } kb =
        pctx.slot? kb := by
      cases kb <;> rfl
    rw [Live, Live, hs, List.mem_cons, not_or]
    exact ⟨fun hl ↦ ⟨hl.1, hl.2.2⟩, fun hl ↦ ⟨hl.1, hne.symm, hl.2⟩⟩
  · obtain ⟨key, old, hk, -, rfl⟩ := mutateSlot_eq_ok.mp h
    cases ha.symm.trans hk
    rw [Live, Live, slot?_setBytes, if_neg hne.symm, consumed_setBytes]

/-- The slots of a block are linear. In every sequence of operations, from every context, an
operation that names a slot moved out before is refused under every name of the slot, so that
no slot is moved out twice; and while each result is recorded once, its contents stay as they
are. Two names always give the same answers exactly if they have one canonical form, and what
is done under one of two other names is not seen under the other. -/
theorem slots_linear (pctx : PtbContext) (ops : List SlotOp) :
    (pctx.trace ops).Pairwise (fun p later ↦
        ∀ key, p.Consumes key → later.op.slot? = some key → later.Refused) ∧
      (∀ key, ¬ ∃ p later, [p, later].Sublist (pctx.trace ops) ∧
        p.Consumes key ∧ later.Consumes key) ∧
      (∀ key slot, key ∈ pctx.consumed → pctx.slot? key = some slot → pctx.RecordsOnce ops →
        (pctx.after ops).slot? key = some slot) ∧
      ∀ a b ka kb, ArgumentSlot.fromArgument a = some ka → ArgumentSlot.fromArgument b = some kb →
        ((∀ other : PtbContext, other.resolve a = other.resolve b ∧
            other.consume a = other.consume b ∧
            ∀ newBytes, other.mutateSlot a newBytes = other.mutateSlot b newBytes) ↔ ka = kb) ∧
          (ka ≠ kb → ∀ (other next : PtbContext),
            ((∃ slot, other.consume a = .ok (slot, next)) ∨
              ∃ newBytes, other.mutateSlot a newBytes = .ok next) →
            ∀ slot, next.resolve b = .ok slot ↔ other.resolve b = .ok slot) := by
  have hp := pairwise_trace ops pctx
  refine ⟨hp, ?_, fun key slot ↦ slot?_after ops, ?_⟩
  · rintro key ⟨p, later, hs, hc, hag⟩
    have hpa := List.pairwise_pair.mp (hp.sublist hs)
    obtain ⟨text, hr⟩ := hpa key hc hag.2
    obtain ⟨⟨arg, slot, -, han⟩, -⟩ := hag
    cases han.symm.trans hr
  · intro a b ka kb ha hb
    refine ⟨⟨?_, ?_⟩, ?_⟩
    · intro hsa
      by_contra hne
      obtain ⟨other, ho⟩ := exists_resolve_ne ha hb hne
      exact ho (hsa other).1
    · rintro rfl
      exact eq_of_fromArgument_eq ha hb
    · intro hne other next hd slot
      rw [resolve_eq_ok, resolve_eq_ok]
      simp only [hb, Option.some.injEq, exists_eq_left', live_of_ne ha hne hd]

/-- A context with one input and one recorded result. -/
private def twoSlots : PtbContext := ⟨[[⟨[7], none, none⟩]], [⟨[1], none, none⟩], []⟩

/-- The result of a command, moved out under one name, is refused under the other. -/
theorem slots_linear_twoSlots :
    (twoSlots.trace [.consume (.result 0), .mutateSlot (.nestedResult 0 0) [9]]).Pairwise
        (fun p later ↦ ∀ key, p.Consumes key → later.op.slot? = some key → later.Refused) ∧
      (twoSlots.consume (.result 0)).toOption.isSome ∧
      ArgumentSlot.fromArgument (.result 0) = ArgumentSlot.fromArgument (.nestedResult 0 0) :=
  ⟨(slots_linear twoSlots _).1, by decide, rfl⟩

end PtbContext

end Setu.Move
