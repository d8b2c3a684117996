import Setu.Base.Independent
import Setu.State.Serial

/-!
# Events that write different objects

Library `State`. On the object state the body of the event loop is a transaction: the checked
writes of the event, applied as a whole or not at all. Events without a common object therefore
have the same effect in every order, also when they are spread over several calls. Source
`storage/src/state/manager.rs`, `apply_committed_events`.
-/

namespace Setu.State

open Setu.Base Setu.Types Setu.Merkle

variable {D : Type} {H : Blake3 D}

variable (H) in
/-- The writes an event asks for; none if it was not executed or failed. -/
def writesOf (event : Event) : List (Write (SubnetId × HashValue) Bytes) :=
  (eventWrites H event).getD []

/-- An event is admitted exactly if it asks for writes and they pass. -/
theorem admits_iff_passes {s : Objects} {event : Event} :
    Admits H s event ↔ (eventWrites H event).isSome ∧ Write.Passes s (writesOf H event) := by
  unfold Admits writesOf Write.Passes
  cases eventWrites H event <;> simp

namespace GlobalStateManager

variable [DecidableEq D]

/-- The body of the event loop is the transaction of the event's writes. -/
theorem objects_applyEvent (depth : UInt64) (state : GlobalStateManager D × StateApplySummary D)
    (event : Event) :
    (applyEvent H depth state event).1.objects H =
      Write.transact (state.1.objects H) (writesOf H event) := by
  by_cases ha : Admits H (state.1.objects H) event
  · rw [(applyEvent_of_admits depth ha).1]
    have hp := (admits_iff_passes.mp ha).2
    obtain ⟨ws, hws, hf, -⟩ := ha
    rw [Write.transact_of_passes hp]
    simp only [serialApply, writesOf, hws, Option.getD_some, if_pos hf]
  · rw [objects_congr (applyEvent_of_not_admits depth ha).1]
    cases hws : eventWrites H event with
    | none => simp [writesOf, hws, Write.transact]
    | some ws =>
      rw [Write.transact_of_not_passes]
      intro hp
      exact ha (admits_iff_passes.mpr ⟨by simp [hws], hp⟩)

/-- The call of one event is a transaction, and reports the event exactly if it does not pass. -/
theorem applyCommittedEvents_singleton (g : GlobalStateManager D) (depth : UInt64) {event : Event}
    {ws : List (Write (SubnetId × HashValue) Bytes)} (hw : eventWrites H event = some ws) :
    (g.applyCommittedEvents H [event] depth).1.objects H = Write.transact (g.objects H) ws ∧
      ((g.applyCommittedEvents H [event] depth).2.Reports event.id ↔
        ¬ Write.Passes (g.objects H) ws) := by
  let started := { g with lastFinalizedDepth := max g.lastFinalizedDepth depth }
  have hs : g.applyCommittedEvents H [event] depth = applyEvent H depth (started, .new) event := by
    simp [applyCommittedEvents, sortOn, started]
  have hws : writesOf H event = ws := by simp [writesOf, hw]
  have hst : started.objects H = g.objects H := rfl
  constructor
  · rw [hs, objects_applyEvent, hws, hst]
  · rw [hs, reports_applyEvent, admits_iff_passes, hws, hst]
    simp [hw, executionResult_ne_none hw, StateApplySummary.Reports, StateApplySummary.new]

/-- The event loop is a sequence of transactions. -/
theorem objects_foldl_applyEvent (depth : UInt64) (events : List Event)
    (state : GlobalStateManager D × StateApplySummary D) :
    (events.foldl (applyEvent H depth) state).1.objects H =
      (events.map (writesOf H)).foldl Write.transact (state.1.objects H) := by
  induction events generalizing state with
  | nil => rfl
  | cons event rest ih => rw [List.foldl_cons, ih, objects_applyEvent]; rfl

variable (H) in
/-- Calls of `apply_committed_events`, each with its events and its depth. -/
def applyCalls (g : GlobalStateManager D) (calls : List (List Event × UInt64)) :
    GlobalStateManager D :=
  calls.foldl (fun g call ↦ (g.applyCommittedEvents H call.1 call.2).1) g

variable (calls : List (List Event × UInt64))

/-- The events of the calls in the order in which they are applied. -/
def applied : List Event :=
  calls.flatMap fun call ↦ sortOn eventOrder call.1

theorem applied_perm : (applied calls).Perm (calls.flatMap Prod.fst) := by
  induction calls with
  | nil => exact .refl []
  | cons call rest ih => exact (sortOn_perm eventOrder call.1).append ih

/-- Calls one after another are one sequence of transactions. -/
theorem objects_applyCalls (g : GlobalStateManager D) :
    (g.applyCalls H calls).objects H =
      ((applied calls).map (writesOf H)).foldl Write.transact (g.objects H) := by
  induction calls generalizing g with
  | nil => rfl
  | cons call rest ih =>
    have hc : (g.applyCommittedEvents H call.1 call.2).1.objects H =
        ((sortOn eventOrder call.1).map (writesOf H)).foldl Write.transact (g.objects H) :=
      objects_foldl_applyEvent call.2 _ _
    change (applyCalls H (g.applyCommittedEvents H call.1 call.2).1 rest).objects H = _
    rw [ih, hc, ← List.foldl_append, ← List.map_append]
    rfl

/-- Events that write different objects leave one object state, however they are ordered and
split into calls. -/
theorem objects_applyCalls_eq {calls calls' : List (List Event × UInt64)}
    (hp : (calls.flatMap Prod.fst).Perm (calls'.flatMap Prod.fst))
    (hi : (calls.flatMap Prod.fst).Pairwise fun a b ↦
      Write.Independent (writesOf H a) (writesOf H b)) (g : GlobalStateManager D) :
    (g.applyCalls H calls).objects H = (g.applyCalls H calls').objects H := by
  have ha : (applied calls).Perm (applied calls') :=
    (applied_perm calls).trans (hp.trans (applied_perm calls').symm)
  have hpa : (applied calls).Pairwise fun a b ↦
      Write.Independent (writesOf H a) (writesOf H b) :=
    hi.perm (applied_perm calls).symm fun h ↦ Write.Independent.symm h
  rw [objects_applyCalls, objects_applyCalls]
  exact Write.foldl_transact_perm (ha.map _) (List.pairwise_map.mpr hpa) _

end GlobalStateManager

end Setu.State
