import Setu.State.Serial

/-!
# Runs of committed events

Library `State`. A run is a sequence of calls that apply committed events. Its turns list the
events in the order in which they are applied, each with the object state it finds and what the
loop reports of it. At every turn the event is either applied as a whole or changes nothing.
The events are those of tasks, so that a run can be read together with the executions it came
from.
-/

namespace Setu.State

open Setu.Base Setu.Types Setu.Merkle

variable {α D : Type} (H : Blake3 D) (ev : α → Event)

/-- One call of `apply_committed_events` with the tasks of its events. -/
structure Call (α : Type) where
  tasks : List α
  depth : UInt64

/-- An event at its turn: the object state it finds and what the loop adds to the summary. -/
structure Turn (α D : Type) where
  task : α
  before : Objects
  summary : StateApplySummary D

namespace Turn

/-- The event was executed and is not reported. -/
def Applied (t : Turn α D) : Prop :=
  (ev t.task).executionResult ≠ none ∧ ¬ t.summary.Reports (ev t.task).id

instance (t : Turn α D) : Decidable (t.Applied ev) := inferInstanceAs (Decidable (_ ∧ _))

/-- The event is reported conflicted. -/
def Conflicted (t : Turn α D) : Prop :=
  (ev t.task).id ∈ t.summary.conflictedEvents.map (·.eventId)

instance (t : Turn α D) : Decidable (t.Conflicted ev) := inferInstanceAs (Decidable (_ ∈ _))

/-- The writes the event asks for. -/
def writes (t : Turn α D) : List (Write (SubnetId × HashValue) Bytes) :=
  (eventWrites H (ev t.task)).getD []

end Turn

namespace GlobalStateManager

variable [DecidableEq D]

/-- The turns of the event loop. -/
def loopTurns (depth : UInt64) : GlobalStateManager D → List α → List (Turn α D)
  | _, [] => []
  | g, task :: rest =>
    let applied := applyEvent H depth (g, .new) (ev task)
    ⟨task, g.objects H, applied.2⟩ :: loopTurns depth applied.1 rest

variable (g : GlobalStateManager D)

/-- The turns of one call. -/
def callTurns (call : Call α) : List (Turn α D) :=
  loopTurns H ev call.depth { g with lastFinalizedDepth := max g.lastFinalizedDepth call.depth }
    (sortOn (fun task ↦ eventOrder (ev task)) call.tasks)

/-- The state manager after one call. -/
def runCall (call : Call α) : GlobalStateManager D :=
  (g.applyCommittedEvents H (call.tasks.map ev) call.depth).1

/-- The turns of a run. -/
def runTurns : GlobalStateManager D → List (Call α) → List (Turn α D)
  | _, [] => []
  | g, call :: rest => g.callTurns H ev call ++ runTurns (g.runCall H ev call) rest

/-- The state manager after a run. -/
def run (calls : List (Call α)) : GlobalStateManager D :=
  calls.foldl (fun g call ↦ g.runCall H ev call) g

end GlobalStateManager

namespace GlobalStateManager

variable {H} {ev} [DecidableEq D]

/-- The state after an event does not depend on the summary, to which the event adds its own
conflict. -/
theorem applyEvent_eq_new (depth : UInt64) (state : GlobalStateManager D × StateApplySummary D)
    (event : Event) :
    (applyEvent H depth state event).1 = (applyEvent H depth (state.1, .new) event).1 ∧
      (applyEvent H depth state event).2.conflictedEvents = state.2.conflictedEvents ++
        (applyEvent H depth (state.1, .new) event).2.conflictedEvents := by
  cases hr : event.executionResult with
  | none => simp [applyEvent, hr, StateApplySummary.new]
  | some result =>
    cases hs : result.success with
    | false => simp [applyEvent, hr, hs, StateApplySummary.new]
    | true =>
      cases hc : (state.1.findConflict H event.getSubnetId ∅ result.stateChanges).2 with
      | some key => simp [applyEvent, hr, hs, hc, StateApplySummary.new]
      | none =>
        simp [applyEvent, hr, hs, hc, StateApplySummary.new, StateApplySummary.recordEvent]

end GlobalStateManager

namespace Turn

variable {H} {ev} (t : Turn α D)

variable (H ev) in
/-- The object state after the turn. -/
def after : Objects :=
  if t.Applied ev then Write.applyAll t.before (t.writes H ev) else t.before

variable (H ev) in
/-- The writes that the turn carries out. -/
def appliedWrites : List (Write (SubnetId × HashValue) Bytes) :=
  if t.Applied ev then t.writes H ev else []

theorem after_eq_applyAll : t.after H ev = Write.applyAll t.before (t.appliedWrites H ev) := by
  unfold after appliedWrites
  split <;> rfl

private theorem not_reports_new (id : EventId) :
    ¬ (StateApplySummary.new : StateApplySummary D).Reports id := by
  simp [StateApplySummary.Reports, StateApplySummary.new]

variable [DecidableEq D]

variable (H ev) in
/-- The turn is one of the event loop on some state. -/
def OfLoop : Prop :=
  ∃ (g : GlobalStateManager D) (depth : UInt64), t.before = g.objects H ∧
    t.summary = (GlobalStateManager.applyEvent H depth (g, .new) (ev t.task)).2

/-- The applied events are those that the state manager's rule admits. -/
theorem OfLoop.applied_iff {t : Turn α D} (h : t.OfLoop H ev) :
    t.Applied ev ↔ Admits H t.before (ev t.task) := by
  obtain ⟨g, depth, hb, hs⟩ := h
  rw [Applied, hs, hb, GlobalStateManager.reports_applyEvent depth]
  constructor
  · rintro ⟨hre, hr⟩
    by_contra ha
    exact hr (.inr ⟨rfl, hre, ha⟩)
  · intro ha
    obtain ⟨ws, hws, -⟩ := id ha
    exact ⟨executionResult_ne_none hws, fun hr ↦ hr.elim (not_reports_new _) fun h ↦ h.2.2 ha⟩

/-- The writes of an applied event fit the state it finds. -/
theorem OfLoop.allFit {t : Turn α D} (h : t.OfLoop H ev) (ha : t.Applied ev) :
    Write.AllFit t.before (t.writes H ev) := by
  obtain ⟨ws, hws, hf, -⟩ := h.applied_iff.mp ha
  rwa [writes, hws]

/-- A successfully executed event that is not applied is reported conflicted. -/
theorem OfLoop.conflicted {t : Turn α D} (h : t.OfLoop H ev) (ha : ¬ t.Applied ev)
    {result : ExecutionResult} (hr : (ev t.task).executionResult = some result)
    (hs : result.success = true) : t.Conflicted ev := by
  rw [h.applied_iff] at ha
  obtain ⟨g, depth, hb, hsu⟩ := h
  rw [hb] at ha
  have hre : (GlobalStateManager.applyEvent H depth (g, .new) (ev t.task)).2.Reports
      (ev t.task).id :=
    (GlobalStateManager.reports_applyEvent depth).mpr (.inr ⟨rfl, by simp [hr], ha⟩)
  rw [Conflicted, hsu]
  refine hre.resolve_left fun hf ↦ ?_
  -- only an unsuccessful execution is reported failed
  unfold GlobalStateManager.applyEvent at hf
  simp only [hr, hs, Bool.not_true, Bool.false_eq_true, if_false] at hf
  split at hf <;> cases hf

end Turn

variable {H} {ev}

variable (H ev) in
/-- Each turn finds the object state that the turn before it leaves. -/
def Chained : Objects → List (Turn α D) → Objects → Prop
  | s, [], s' => s' = s
  | s, t :: rest, s' => t.before = s ∧ Chained (t.after H ev) rest s'

variable {ts : List (Turn α D)}

theorem chained_append {s s' : Objects} {ts' : List (Turn α D)} :
    Chained H ev s (ts ++ ts') s' ↔ ∃ m, Chained H ev s ts m ∧ Chained H ev m ts' s' := by
  induction ts generalizing s with
  | nil => simp [Chained]
  | cons t ts ih =>
    simp only [List.cons_append, Chained, ih, and_assoc, exists_and_left]

/-- The object state after chained turns is that before them with the applied writes. -/
theorem Chained.eq_applyAll {s s' : Objects} (h : Chained H ev s ts s') :
    s' = Write.applyAll s (ts.flatMap (Turn.appliedWrites H ev)) := by
  induction ts generalizing s with
  | nil => exact h
  | cons t ts ih =>
    obtain ⟨rfl, hr⟩ := h
    rw [List.flatMap_cons, Write.applyAll_append, ← Turn.after_eq_applyAll, ih hr]

variable (H ev) in
/-- The object state after the first turns. -/
def stateAt (s : Objects) (ts : List (Turn α D)) (n : Nat) : Objects :=
  Write.applyAll s ((ts.take n).flatMap (Turn.appliedWrites H ev))

/-- A later state is an earlier one with the writes applied since. -/
theorem stateAt_of_le (s : Objects) (ts : List (Turn α D)) {i j : Nat} (hij : i ≤ j) :
    stateAt H ev s ts j =
      Write.applyAll (stateAt H ev s ts i)
        (((ts.take j).drop i).flatMap (Turn.appliedWrites H ev)) := by
  unfold stateAt
  conv_lhs => rw [← List.take_append_drop i (ts.take j), List.flatMap_append,
    Write.applyAll_append, List.take_take, Nat.min_eq_left hij]

/-- A turn finds the object state after the turns before it. -/
theorem Chained.before_eq {s s' : Objects} (h : Chained H ev s ts s') {j : Nat} {t : Turn α D}
    (hj : ts[j]? = some t) : t.before = stateAt H ev s ts j := by
  have hl : ts.drop j = t :: ts.drop (j + 1) := List.drop_eq_getElem?_toList_append ▸ by
    simp [hj]
  rw [← List.take_append_drop j ts, chained_append, hl] at h
  obtain ⟨m, ht, hb, -⟩ := h
  rw [hb]
  exact ht.eq_applyAll

/-- If every applied turn acts as a function of its task does, the state after chained turns
comes from applying the function to the applied tasks in order. -/
theorem Chained.eq_foldl {s s' : Objects} (h : Chained H ev s ts s') {f : Objects → α → Objects}
    (hf : ∀ t ∈ ts, t.Applied ev → f t.before t.task = t.after H ev) :
    s' = ((ts.filter fun t ↦ t.Applied ev).map (·.task)).foldl f s := by
  induction ts generalizing s with
  | nil => exact h
  | cons t ts ih =>
    obtain ⟨rfl, hr⟩ := h
    obtain ⟨ht, hts⟩ := List.forall_mem_cons.mp hf
    rw [ih hr hts]
    by_cases ha : t.Applied ev
    · rw [List.filter_cons_of_pos (by simpa using ha), List.map_cons, List.foldl_cons, ht ha]
    · rw [List.filter_cons_of_neg (by simpa using ha), Turn.after, if_neg ha]

namespace GlobalStateManager

variable [DecidableEq D]

variable (H ev) in
private theorem chained_loopTurns (depth : UInt64) (tasks : List α) :
    ∀ state : GlobalStateManager D × StateApplySummary D,
      Chained H ev (state.1.objects H) (loopTurns H ev depth state.1 tasks)
          (((tasks.map ev).foldl (applyEvent H depth) state).1.objects H) ∧
        ∀ t ∈ loopTurns H ev depth state.1 tasks, t.OfLoop H ev := by
  induction tasks with
  | nil => exact fun _ ↦ ⟨rfl, List.forall_mem_nil _⟩
  | cons task rest ih =>
    intro state
    obtain ⟨hr, hl⟩ := ih (applyEvent H depth state (ev task))
    rw [(applyEvent_eq_new depth state (ev task)).1] at hr hl
    have hh : Turn.OfLoop H ev ⟨task, state.1.objects H,
        (applyEvent H depth (state.1, .new) (ev task)).2⟩ := ⟨state.1, depth, rfl, rfl⟩
    refine ⟨⟨rfl, ?_⟩, List.forall_mem_cons.mpr ⟨hh, hl⟩⟩
    have haf : Turn.after H ev ⟨task, state.1.objects H,
        (applyEvent H depth (state.1, .new) (ev task)).2⟩ =
          (applyEvent H depth (state.1, .new) (ev task)).1.objects H := by
      let fresh : GlobalStateManager D × StateApplySummary D := (state.1, .new)
      unfold Turn.after
      split
      · next hap =>
        have ha : Admits H (fresh.1.objects H) (ev task) := hh.applied_iff.mp hap
        rw [(applyEvent_of_admits depth ha).1]
        obtain ⟨ws, hws, hf, -⟩ := ha
        simp [fresh, Turn.writes, serialApply, hws, hf]
      · next hap =>
        have ha : ¬ Admits H (fresh.1.objects H) (ev task) := fun h ↦ hap (hh.applied_iff.mpr h)
        rw [objects_congr (applyEvent_of_not_admits depth ha).1]
    rw [haf]
    exact hr

variable (H ev) in
/-- The turns of a run are chained from the first state to the last. -/
theorem chained_runTurns (g : GlobalStateManager D) (calls : List (Call α)) :
    Chained H ev (g.objects H) (g.runTurns H ev calls) ((g.run H ev calls).objects H) ∧
      ∀ t ∈ g.runTurns H ev calls, t.OfLoop H ev := by
  induction calls generalizing g with
  | nil => exact ⟨rfl, List.forall_mem_nil _⟩
  | cons call rest ih =>
    have hc := chained_loopTurns H ev call.depth
      (sortOn (fun task ↦ eventOrder (ev task)) call.tasks)
      ({ g with lastFinalizedDepth := max g.lastFinalizedDepth call.depth }, .new)
    rw [map_sortOn eventOrder ev] at hc
    obtain ⟨hr, hl⟩ := ih (g.runCall H ev call)
    exact ⟨chained_append.mpr ⟨_, hc.1, hr⟩, List.forall_mem_append.mpr ⟨hc.2, hl⟩⟩

omit [DecidableEq D] in
variable (H) in
/-- A new state manager has no objects. -/
theorem objects_new : (new H).objects H = fun _ ↦ none := by
  funext ⟨subnetId, objectId⟩
  have hs : (new H).subnet H subnetId = SubnetStateSMT.new H subnetId := by
    unfold subnet new
    by_cases hg : subnetId = .governance
    · subst hg
      rw [AList.lookup_insert, Option.getD_some]
    · rw [AList.lookup_insert_ne hg]
      by_cases hr : subnetId = .root
      · subst hr
        rw [AList.lookup_insert, Option.getD_some]
      · rw [AList.lookup_insert_ne hr, AList.lookup_empty, Option.getD_none]
  rw [objects, hs]
  rfl

variable (H ev) in
/-- The turns are those of the tasks, call by call, in the order of application. -/
theorem map_task_runTurns (g : GlobalStateManager D) (calls : List (Call α)) :
    (g.runTurns H ev calls).map (·.task) =
      calls.flatMap fun call ↦ sortOn (fun task ↦ eventOrder (ev task)) call.tasks := by
  have hl : ∀ (depth : UInt64) (tasks : List α) (g : GlobalStateManager D),
      (loopTurns H ev depth g tasks).map (·.task) = tasks := by
    intro depth tasks
    induction tasks with
    | nil => exact fun _ ↦ rfl
    | cons task rest ih => exact fun g ↦ congrArg (task :: ·) (ih _)
  induction calls generalizing g with
  | nil => rfl
  | cons call rest ih => rw [runTurns, List.map_append, ih, List.flatMap_cons, callTurns, hl]

/-- The task of the turn at a position. -/
theorem getElem?_task {g : GlobalStateManager D} {calls : List (Call α)} {j : Nat} {t : Turn α D}
    (h : (g.runTurns H ev calls)[j]? = some t) :
    (calls.flatMap fun call ↦ sortOn (fun task ↦ eventOrder (ev task)) call.tasks)[j]? =
      some t.task := by
  rw [← map_task_runTurns H ev g, List.getElem?_map, h, Option.map_some]

/-- Every turn is of a task of some call. -/
theorem task_mem_of_mem_runTurns {g : GlobalStateManager D} {calls : List (Call α)}
    {t : Turn α D} (h : t ∈ g.runTurns H ev calls) : ∃ call ∈ calls, t.task ∈ call.tasks := by
  obtain ⟨j, hj⟩ := List.mem_iff_getElem?.mp h
  obtain ⟨call, hc, hm⟩ := List.mem_flatMap.mp (List.mem_of_getElem? (getElem?_task hj))
  exact ⟨call, hc, (sortOn_perm _ _).mem_iff.mp hm⟩

end GlobalStateManager

end Setu.State
