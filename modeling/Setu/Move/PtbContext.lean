import Setu.Move.ObjectRuntime

/-!
# Slots of a transaction block

Library `Move`. The values that the commands of a block hand on: the inputs and the results of
earlier commands, each as serialized bytes with what is known of its type, and the set of slots
that have been moved out. Source `crates/setu-move-vm/src/ptb_executor.rs`.
-/

namespace Setu.Move

open Setu.Base Setu.Types Setu.Runtime

/-- A slot that can be consumed, `ptb_executor.rs:78-81`. -/
inductive ArgumentSlot where
  | input (index : Nat)
  | cmdResult (cmd idx : Nat)
  deriving DecidableEq

namespace ArgumentSlot

/-- `ptb_executor.rs:86-93`: the result of a command is its first value. -/
def fromArgument : Argument → Option ArgumentSlot
  | .gasCoin => none
  | .input i => some (.input i)
  | .result c => some (.cmdResult c 0)
  | .nestedResult c j => some (.cmdResult c j)

/-- The `Debug` form. -/
def toText : ArgumentSlot → String
  | input i => s!"Input({i})"
  | cmdResult cmd idx => "CmdResult \x7b cmd: " ++ s!"{cmd}, idx: {idx}" ++ " \x7d"

end ArgumentSlot

/-- A serialized value, `ptb_executor.rs:121-134`; its layout is never read. -/
structure Slot where
  bytes : Bytes
  typeTag : Option TypeTag
  abilities : Option AbilitySet
  deriving DecidableEq

/-- State carried across the commands of a block, `ptb_executor.rs:163-174`. -/
structure PtbContext where
  results : List (List Slot)
  inputs : List Slot
  consumed : List ArgumentSlot

namespace PtbContext

/-- `ptb_executor.rs:180-186`. -/
def new (inputs : List Slot) (nCommands : Nat) : PtbContext :=
  ⟨List.replicate nCommands [], inputs, []⟩

variable (pctx : PtbContext)

/-- The slot at a position, whether or not it has been consumed. -/
def slot? : ArgumentSlot → Option Slot
  | .input i => pctx.inputs[i]?
  | .cmdResult cmd idx => (pctx.results[cmd]?).bind (·[idx]?)

/-- Why a position has no slot, `ptb_executor.rs:209-243`. -/
def missing : ArgumentSlot → RuntimeError
  | .input i => .ptbArgumentOutOfBounds s!"Input({i}) of {pctx.inputs.length}"
  | .cmdResult cmd idx =>
    match pctx.results[cmd]? with
    | none => .ptbArgumentOutOfBounds
        s!"Result references cmd {cmd} but only {pctx.results.length} commands recorded"
    | some row => .ptbArgumentOutOfBounds
        s!"NestedResult({cmd},{idx}) but cmd {cmd} produced {row.length} values"

/-- `ptb_executor.rs:197-223`. -/
def resolve (pctx : PtbContext) (arg : Argument) : Except RuntimeError Slot :=
  match ArgumentSlot.fromArgument arg with
  | none => .error (.ptbArgumentOutOfBounds "GasCoin not supported in B6b")
  | some key => do
    require (!pctx.consumed.contains key)
      (.ptbArgumentAlreadyConsumed s!"resolve on consumed slot: {key.toText}")
    okOr (pctx.slot? key) (pctx.missing key)

/-- `ptb_executor.rs:254-270`. -/
def consume (arg : Argument) : Except RuntimeError (Slot × PtbContext) :=
  match ArgumentSlot.fromArgument arg with
  | none => .error (.ptbArgumentOutOfBounds "GasCoin not supported in B6b")
  | some key => do
    require (!pctx.consumed.contains key) (.ptbArgumentAlreadyConsumed key.toText)
    let payload ← pctx.resolve arg
    pure (payload, { pctx with consumed := key :: pctx.consumed })

/-- `ptb_executor.rs:274-281`. -/
def recordResult (cmdIdx : Nat) (slots : List Slot) : PtbContext :=
  { pctx with results := pctx.results.set cmdIdx slots }

/-- Replace the bytes of the slot at a position. -/
def setBytes (newBytes : Bytes) : ArgumentSlot → PtbContext
  | .input i =>
    { pctx with inputs := pctx.inputs.modify i fun slot ↦ { slot with bytes := newBytes } }
  | .cmdResult cmd idx =>
    { pctx with
      results := pctx.results.modify cmd fun row ↦
        row.modify idx fun slot ↦ { slot with bytes := newBytes } }

/-- Why a position cannot be written, `ptb_executor.rs:322-341`. -/
def missingForMutate : ArgumentSlot → RuntimeError
  | .input i => .ptbArgumentOutOfBounds
      s!"Input({i}) for mutate_slot (inputs.len()={pctx.inputs.length})"
  | .cmdResult cmd idx =>
    match pctx.results[cmd]? with
    | none => .ptbArgumentOutOfBounds s!"Result({cmd}) cmd row missing for mutate_slot"
    | some _ => .ptbArgumentOutOfBounds s!"NestedResult({cmd},{idx}) missing for mutate_slot"

/-- `ptb_executor.rs:295-343`. -/
def mutateSlot (arg : Argument) (newBytes : Bytes) : Except RuntimeError PtbContext :=
  match ArgumentSlot.fromArgument arg with
  | none => .error (.invalidTransaction "mutate_slot on GasCoin not supported in B6b")
  | some key => do
    require (!pctx.consumed.contains key)
      (.ptbArgumentAlreadyConsumed s!"mutate_slot on consumed slot: {key.toText}")
    let _ ← okOr (pctx.slot? key) (pctx.missingForMutate key)
    pure (pctx.setBytes newBytes key)

/-- A slot that can be used: it is there and has not been moved out. -/
def Live (key : ArgumentSlot) (slot : Slot) : Prop :=
  pctx.slot? key = some slot ∧ key ∉ pctx.consumed

theorem resolve_eq_ok {pctx : PtbContext} {arg : Argument} {slot : Slot} :
    pctx.resolve arg = .ok slot ↔
      ∃ key, ArgumentSlot.fromArgument arg = some key ∧ pctx.Live key slot := by
  unfold resolve
  split
  · next h => simp [h]
  · next key h =>
    simp only [h, bind_eq_ok, require_eq_ok, okOr_eq_ok, Option.some.injEq,
      exists_eq_left', Live, Bool.not_eq_true', List.contains_eq_mem, decide_eq_false_iff_not]
    constructor
    · rintro ⟨_, hl, hs⟩
      exact ⟨hs, hl⟩
    · rintro ⟨hs, hl⟩
      exact ⟨⟨⟩, hl, hs⟩

theorem consume_eq_ok {pctx pctx' : PtbContext} {arg : Argument} {slot : Slot} :
    pctx.consume arg = .ok (slot, pctx') ↔
      ∃ key, ArgumentSlot.fromArgument arg = some key ∧ pctx.Live key slot ∧
        pctx' = { pctx with consumed := key :: pctx.consumed } := by
  unfold consume
  split
  · next h => simp [h]
  · next key h =>
    simp only [h, bind_eq_ok, require_eq_ok, resolve_eq_ok, pure_eq_ok,
      Option.some.injEq, exists_eq_left', Prod.mk.injEq, Bool.not_eq_true', List.contains_eq_mem,
      decide_eq_false_iff_not]
    constructor
    · rintro ⟨_, -, slot', hl, rfl, rfl⟩
      exact ⟨hl, rfl⟩
    · rintro ⟨hl, rfl⟩
      exact ⟨⟨⟩, hl.2, slot, hl, rfl, rfl⟩

theorem mutateSlot_eq_ok {pctx pctx' : PtbContext} {arg : Argument} {newBytes : Bytes} :
    pctx.mutateSlot arg newBytes = .ok pctx' ↔
      ∃ key slot, ArgumentSlot.fromArgument arg = some key ∧ pctx.Live key slot ∧
        pctx' = pctx.setBytes newBytes key := by
  unfold mutateSlot
  split
  · next h => simp [h]
  · next key h =>
    simp only [h, bind_eq_ok, require_eq_ok, okOr_eq_ok, pure_eq_ok,
      Option.some.injEq, exists_and_left, exists_eq_left', Bool.not_eq_true',
      List.contains_eq_mem, decide_eq_false_iff_not]
    constructor
    · rintro ⟨hl, _, slot, hs, rfl⟩
      exact ⟨slot, ⟨hs, hl⟩, rfl⟩
    · rintro ⟨slot, ⟨hs, hl⟩, rfl⟩
      exact ⟨hl, ⟨⟩, slot, hs, rfl⟩

@[simp]
theorem consumed_setBytes (newBytes : Bytes) (key : ArgumentSlot) :
    (pctx.setBytes newBytes key).consumed = pctx.consumed := by
  cases key <;> rfl

/-- Writing a slot changes its bytes and no other slot. -/
theorem slot?_setBytes (newBytes : Bytes) (key other : ArgumentSlot) :
    (pctx.setBytes newBytes key).slot? other =
      if other = key then (pctx.slot? key).map fun slot ↦ { slot with bytes := newBytes }
      else pctx.slot? other := by
  cases key with
  | input i =>
    cases other with
    | input j =>
      by_cases h : j = i
      · simp [setBytes, slot?, h]
      · simp [setBytes, slot?, h, Ne.symm h]
    | cmdResult cmd idx => simp [setBytes, slot?]
  | cmdResult cmd idx =>
    cases other with
    | input j => simp [setBytes, slot?]
    | cmdResult cmd' idx' =>
      by_cases hc : cmd' = cmd
      · subst hc
        by_cases hi : idx' = idx
        · subst hi
          cases hr : pctx.results[cmd']? <;> simp [setBytes, slot?, hr]
        · cases hr : pctx.results[cmd']? <;>
            simp [setBytes, slot?, hr, hi, Ne.symm hi]
      · cases hr : pctx.results[cmd']? <;>
          simp [setBytes, slot?, hr, hc, Ne.symm hc]

/-- The contexts differ in what is consumed only. -/
def Consumes (pctx pctx' : PtbContext) : Prop := ∃ keys, pctx' = { pctx with consumed := keys }

theorem Consumes.refl : pctx.Consumes pctx := ⟨_, rfl⟩

theorem Consumes.update {a b : PtbContext} (h : a.Consumes b) (keys : List ArgumentSlot) :
    a.Consumes { b with consumed := keys } := by
  obtain ⟨_, rfl⟩ := h
  exact ⟨keys, rfl⟩

/-- Recording a result touches the row of its command only. -/
theorem slot?_recordResult {cmdIdx : Nat} (h : cmdIdx < pctx.results.length) (slots : List Slot)
    (key : ArgumentSlot) :
    (pctx.recordResult cmdIdx slots).slot? key =
      match key with
      | .input _ => pctx.slot? key
      | .cmdResult cmd idx => if cmd = cmdIdx then slots[idx]? else pctx.slot? key := by
  cases key with
  | input i => rfl
  | cmdResult cmd idx =>
    by_cases hc : cmd = cmdIdx
    · simp [recordResult, slot?, hc, h]
    · simp [recordResult, slot?, hc, Ne.symm hc]

end PtbContext

end Setu.Move
