import Setu.Base.Transaction
import Setu.Merkle.IncrementalCorrect
import Setu.State.Manager

/-!
# Committed events as a serial store

Library `State`. The object values of all subnets are one key-value store. The state manager
checks an event against pending writes over its trees and then applies it in a second pass;
both passes together are one serial rule on the store, except that the check refuses to create
an object that was there before the event, even if the event itself has deleted it.
-/

namespace Setu.State

open Setu.Base Setu.Types Setu.Merkle Write

variable {D : Type} (H : Blake3 D)

/-- The values of all objects, by subnet and object. -/
abbrev Objects := SubnetId × HashValue → Option Bytes

/-- The write of a state change of an event of the given subnet. -/
def changeWrite (subnetId : SubnetId) (change : StateChange) :
    Write (SubnetId × HashValue) Bytes where
  key := (changeTarget change subnetId, parseStateChangeKey H change.key)
  expected := change.oldValue
  value := change.newValue

/-- The writes of an execution result. -/
def resultWrites (event : Event) (result : ExecutionResult) :
    List (Write (SubnetId × HashValue) Bytes) :=
  result.stateChanges.map (changeWrite H event.getSubnetId)

namespace GlobalStateManager

/-- The object state of a manager. -/
def objects (g : GlobalStateManager D) : Objects := fun k ↦ (g.subnet H k.1).get k.2

variable {H} {g : GlobalStateManager D}

theorem subnet_congr {g' : GlobalStateManager D} (h : g.subnetStates = g'.subnetStates) :
    g.subnet H = g'.subnet H := by
  unfold subnet
  rw [h]

theorem objects_congr {g' : GlobalStateManager D} (h : g.subnet H = g'.subnet H) :
    g.objects H = g'.objects H := by
  unfold objects
  rw [h]

/-- Only the modified subnet changes. -/
theorem subnet_modifySubnet (g : GlobalStateManager D) (subnetId : SubnetId)
    (f : SubnetStateSMT D → SubnetStateSMT D) :
    (g.modifySubnet H subnetId f).subnet H =
      Function.update (g.subnet H) subnetId (f (g.subnet H subnetId)) := by
  funext other
  unfold modifySubnet subnet
  by_cases h : other = subnetId
  · subst h
    rw [AList.lookup_insert, Function.update_self]
    rfl
  · rw [AList.lookup_insert_ne h, Function.update_of_ne h]

/-- Looking a subnet up does not change any. -/
@[simp]
theorem subnet_touchSubnet (g : GlobalStateManager D) (subnetId : SubnetId) :
    (g.touchSubnet H subnetId).subnet H = g.subnet H := by
  rw [touchSubnet, subnet_modifySubnet]
  exact Function.update_eq_self _ _

@[simp]
theorem objects_touchSubnet (g : GlobalStateManager D) (subnetId : SubnetId) :
    (g.touchSubnet H subnetId).objects H = g.objects H :=
  objects_congr (subnet_touchSubnet g subnetId)

private theorem objects_modifySubnet (g : GlobalStateManager D) (subnetId : SubnetId)
    (objectId : HashValue) (value : Option Bytes) {f : SubnetStateSMT D → SubnetStateSMT D}
    (hf : (f (g.subnet H subnetId)).get =
      Function.update (g.subnet H subnetId).get objectId value) :
    (g.modifySubnet H subnetId f).objects H =
      Function.update (g.objects H) (subnetId, objectId) value := by
  funext ⟨other, id⟩
  change ((g.modifySubnet H subnetId f).subnet H other).get id = _
  rw [subnet_modifySubnet]
  by_cases ho : other = subnetId
  · subst ho
    rw [Function.update_self, hf]
    by_cases hid : id = objectId
    · subst hid
      rw [Function.update_self, Function.update_self]
    · rw [Function.update_of_ne hid, Function.update_of_ne (by simp [hid])]
      rfl
  · rw [Function.update_of_ne ho, Function.update_of_ne (by simp [ho])]
    rfl

/-- The conflict check changes no subnet. -/
theorem subnet_findConflict (subnetId : SubnetId) (changes : List StateChange) :
    ∀ (g : GlobalStateManager D) (pending : PendingWrites),
      (g.findConflict H subnetId pending changes).1.subnet H = g.subnet H := by
  induction changes with
  | nil => exact fun _ _ ↦ rfl
  | cons change rest ih =>
    intro g pending
    unfold findConflict
    dsimp only
    repeat' split
    all_goals simp only [ih, subnet_touchSubnet]

theorem objects_findConflict (g : GlobalStateManager D) (subnetId : SubnetId)
    (pending : PendingWrites) (changes : List StateChange) :
    (g.findConflict H subnetId pending changes).1.objects H = g.objects H :=
  objects_congr (subnet_findConflict subnetId changes g pending)

/-- One step of the conflict check, by the write of its change. -/
theorem findConflict_cons (g : GlobalStateManager D) (subnetId : SubnetId)
    (pending : PendingWrites) (change : StateChange) (rest : List StateChange)
    {w : Write (SubnetId × HashValue) Bytes} (hw : w = changeWrite H subnetId change) :
    g.findConflict H subnetId pending (change :: rest) =
      match w.expected with
      | some expectedOld =>
        match pending.lookup w.key with
        | some value =>
          if value = some expectedOld then
            g.findConflict H subnetId (pending.insert w.key w.value) rest
          else (g, some change.key)
        | none =>
          if g.objects H w.key = some expectedOld then
            (g.touchSubnet H w.key.1).findConflict H subnetId (pending.insert w.key w.value) rest
          else (g.touchSubnet H w.key.1, some change.key)
      | none =>
        if w.value.isSome then
          if ((pending.lookup w.key).map Option.isSome).getD false ||
              (g.objects H w.key).isSome then
            (g.touchSubnet H w.key.1, some change.key)
          else
            (g.touchSubnet H w.key.1).findConflict H subnetId (pending.insert w.key w.value) rest
        else g.findConflict H subnetId (pending.insert w.key w.value) rest := by
  subst hw
  rfl

/-- The conflict check passes when every write fits the object state seen through the pending
writes and none creates an object of the unchanged state. -/
theorem findConflict_eq_none_iff (subnetId : SubnetId) (changes : List StateChange) :
    ∀ (g : GlobalStateManager D) (pending : PendingWrites),
      (g.findConflict H subnetId pending changes).2 = none ↔
        Write.AllFit (overlay pending (g.objects H))
            (changes.map (changeWrite H subnetId)) ∧
          ¬ Write.Recreates (g.objects H) (changes.map (changeWrite H subnetId)) := by
  induction changes with
  | nil => simp [findConflict, Write.Recreates]
  | cons change rest ih =>
    intro g pending
    rw [List.map_cons, allFit_cons, recreates_cons, ← overlay_insert, not_or]
    obtain ⟨w, hw⟩ : ∃ w, w = changeWrite H subnetId change := ⟨_, rfl⟩
    rw [findConflict_cons g subnetId pending change rest hw, ← hw]
    have ih' := fun g' : GlobalStateManager D ↦ ih g' (pending.insert w.key w.value)
    have ht := ih' (g.touchSubnet H w.key.1)
    rw [objects_touchSubnet] at ht
    cases he : w.expected with
    | some expectedOld =>
      rw [fits_of_expected he]
      have hc := not_creates_of_expected he
      cases hp : pending.lookup w.key with
      | some value =>
        by_cases heq : value = some expectedOld
        · simpa [overlay, hp, heq, hc] using ih' g
        · simp [overlay, hp, heq]
      | none =>
        by_cases heq : g.objects H w.key = some expectedOld
        · simpa [overlay, hp, heq, hc] using ht
        · simp [overlay, hp, heq]
    | none =>
      cases hv : w.value with
      | some value =>
        have hc : w.Creates := ⟨he, by simp [hv]⟩
        have ha := overlay_eq_none_and_iff pending (g.objects H) w.key
        rw [← Bool.or_eq_false_iff] at ha
        rw [fits_of_creates hc, and_and_and_comm, not_and_not_right,
          imp_iff_right hc, ha, ← hv, ← ht]
        cases ((pending.lookup w.key).map Option.isSome).getD false ||
          (g.objects H w.key).isSome <;> simp [hv]
      | none =>
        have hr := fits_of_remove (s := overlay pending (g.objects H)) he hv
        rw [hv] at ih'
        simpa [hr] using ih' g

variable [DecidableEq D]

theorem objects_modifySubnet_upsert (g : GlobalStateManager D) (subnetId : SubnetId)
    (objectId : HashValue) (value : Bytes) :
    (g.modifySubnet H subnetId fun smt ↦ smt.upsert H objectId value).objects H =
      Function.update (g.objects H) (subnetId, objectId) (some value) :=
  g.objects_modifySubnet _ _ (some value)
    (IncrementalSparseMerkleTree.lookup_apply (H := H) _ (.insert _ value))

/-- Applying a state change is its write to the object state. -/
theorem objects_applyStateChange (g : GlobalStateManager D) (subnetId : SubnetId)
    (change : StateChange) :
    (g.applyStateChange H (changeTarget change subnetId) change).objects H =
      (changeWrite H subnetId change).apply (g.objects H) := by
  unfold applyStateChange apply changeWrite
  cases change.newValue with
  | some value => exact g.objects_modifySubnet_upsert _ _ value
  | none =>
    exact g.objects_modifySubnet _ _ none
      (IncrementalSparseMerkleTree.lookup_apply (H := H) _ (.remove _))

/-- Applying an execution result is all its writes to the object state. -/
theorem objects_applyExecutionResult (g : GlobalStateManager D) (event : Event)
    (result : ExecutionResult) :
    (g.applyExecutionResult H event.getSubnetId result).1.objects H =
      applyAll (g.objects H) (resultWrites H event result) := by
  unfold applyExecutionResult resultWrites
  rw [objects_touchSubnet]
  induction result.stateChanges generalizing g with
  | nil => rfl
  | cons change rest ih =>
    rw [List.foldl_cons, List.map_cons, applyAll_cons, ih, objects_applyStateChange]

end GlobalStateManager

/-- The writes a successfully executed event asks for. -/
def eventWrites (event : Event) : Option (List (Write (SubnetId × HashValue) Bytes)) :=
  match event.executionResult with
  | none => none
  | some result => if result.success then some (resultWrites H event result) else none

variable (s : Objects)

/-- The rule accepts a successful event whose writes, one after another, fit. -/
def serialAccepts (event : Event) : Bool :=
  match eventWrites H event with
  | none => false
  | some ws => decide (Write.AllFit s ws)

/-- An accepted event is applied as a whole, another one not at all. -/
def serialApply (event : Event) : Objects :=
  match eventWrites H event with
  | none => s
  | some ws => if Write.AllFit s ws then applyAll s ws else s

/-- The object state after the listed events. -/
def serialObjects (events : List Event) : Objects := events.foldl (serialApply H) s

/-- The identifiers of the events the rule does not accept. -/
def serialRejected : Objects → List Event → List EventId
  | _, [] => []
  | s, event :: rest =>
    if serialAccepts H s event then serialRejected (serialApply H s event) rest
    else event.id :: serialRejected (serialApply H s event) rest

/-- No accepted event creates an object that was there before the event. Such an event has
deleted the object itself. -/
def NeverRecreates : Objects → List Event → Prop
  | _, [] => True
  | s, event :: rest =>
    (∀ ws ∈ eventWrites H event, Write.AllFit s ws → ¬ Write.Recreates s ws) ∧
      NeverRecreates (serialApply H s event) rest

instance decidableNeverRecreates :
    (s : Objects) → (events : List Event) → Decidable (NeverRecreates H s events)
  | _, [] => .isTrue trivial
  | s, event :: rest =>
    have := decidableNeverRecreates (serialApply H s event) rest
    inferInstanceAs (Decidable (_ ∧ _))

variable {H}

theorem mem_ids_of_mem_serialRejected {s : Objects} {events : List Event} {id : EventId}
    (h : id ∈ serialRejected H s events) : id ∈ events.map (·.id) := by
  induction events generalizing s with
  | nil => exact h
  | cons event rest ih =>
    rw [serialRejected] at h
    split at h
    · exact List.mem_cons_of_mem _ (ih h)
    · rcases List.mem_cons.mp h with rfl | h
      · exact List.mem_cons_self
      · exact List.mem_cons_of_mem _ (ih h)

/-- The event is reported failed or conflicted. -/
def StateApplySummary.Reports (summary : StateApplySummary D) (id : EventId) : Prop :=
  id ∈ summary.failedEvents ∨ id ∈ summary.conflictedEvents.map (·.eventId)

instance (summary : StateApplySummary D) (id : EventId) : Decidable (summary.Reports id) :=
  inferInstanceAs (Decidable (_ ∨ _))

variable (H) in
/-- The rule the state manager follows: the event was executed successfully, its writes fit and
none creates an object that was there before the event. -/
def Admits (event : Event) : Prop :=
  ∃ ws, eventWrites H event = some ws ∧ Write.AllFit s ws ∧ ¬ Write.Recreates s ws

instance (s : Objects) (event : Event) : Decidable (Admits H s event) :=
  inferInstanceAs (Decidable (∃ ws ∈ eventWrites H event, _))

variable {event : Event}

theorem serialAccepts_iff {s : Objects} :
    serialAccepts H s event = true ↔ ∃ ws, eventWrites H event = some ws ∧ Write.AllFit s ws := by
  unfold serialAccepts
  cases eventWrites H event <;> simp

variable {ws : List (Write (SubnetId × HashValue) Bytes)}

/-- Only successfully executed events ask for writes. -/
theorem exists_result_of_eventWrites (h : eventWrites H event = some ws) :
    ∃ result, event.executionResult = some result ∧ result.success = true ∧
      ws = resultWrites H event result := by
  unfold eventWrites at h
  cases hr : event.executionResult with
  | none => simp [hr] at h
  | some result =>
    simp only [hr, Option.ite_none_right_eq_some, Option.some.injEq] at h
    exact ⟨result, rfl, h.1, h.2.symm⟩

theorem executionResult_ne_none (h : eventWrites H event = some ws)
    : event.executionResult ≠ none := by
  obtain ⟨result, hr, -⟩ := exists_result_of_eventWrites h
  simp [hr]

theorem serialAccepts_of_admits {s : Objects} (h : Admits H s event) :
    serialAccepts H s event = true := by
  obtain ⟨ws, hws, hf, -⟩ := h
  exact serialAccepts_iff.mpr ⟨ws, hws, hf⟩

/-- An event whose writes go to different objects is admitted if each of them fits. -/
theorem admits_iff_of_nodup {s : Objects} (hws : eventWrites H event = some ws)
    (hn : (ws.map key).Nodup) : Admits H s event ↔ ∀ w ∈ ws, w.Fits s := by
  constructor
  · rintro ⟨ws', hws', hf, -⟩
    cases hws.symm.trans hws'
    exact (allFit_iff_of_nodup hn).mp hf
  · intro h
    exact ⟨ws, hws, (allFit_iff_of_nodup hn).mpr h, not_recreates_of_fits h⟩

/-- An event that the serial rule does not accept changes nothing. -/
theorem serialApply_of_not_accepts {s : Objects} (h : ¬ serialAccepts H s event = true)
    : serialApply H s event = s := by
  unfold serialAccepts at h
  unfold serialApply
  split
  · rfl
  · next ws hws =>
    rw [hws] at h
    exact if_neg (by simpa using h)

namespace GlobalStateManager

variable [DecidableEq D] (depth : UInt64) {state : GlobalStateManager D × StateApplySummary D}
    {event : Event}

/-- An admitted event passes the check, is applied and is not reported. -/
theorem applyEvent_of_admits_eq (h : Admits H (state.1.objects H) event) :
    ∃ result, event.executionResult = some result ∧
      eventWrites H event = some (resultWrites H event result) ∧
      (applyEvent H depth state event).1.subnetStates =
        ((state.1.findConflict H event.getSubnetId ∅ result.stateChanges).1.applyExecutionResult H
          event.getSubnetId result).1.subnetStates ∧
      ∀ id, (applyEvent H depth state event).2.Reports id ↔ state.2.Reports id := by
  obtain ⟨ws, hws, hp⟩ := h
  obtain ⟨result, hr, hs, rfl⟩ := exists_result_of_eventWrites hws
  have hc : (state.1.findConflict H event.getSubnetId ∅ result.stateChanges).2 = none :=
    (findConflict_eq_none_iff _ _ _ _).mpr hp
  refine ⟨result, hr, hws, ?_⟩
  simp only [applyEvent, hr, hs, Bool.not_true, Bool.false_eq_true, if_false, hc]
  exact ⟨trivial, fun id ↦ Iff.rfl⟩

/-- An admitted event has the effect of the serial rule. -/
theorem applyEvent_of_admits (h : Admits H (state.1.objects H) event) :
    (applyEvent H depth state event).1.objects H = serialApply H (state.1.objects H) event ∧
      ∀ id, (applyEvent H depth state event).2.Reports id ↔ state.2.Reports id := by
  obtain ⟨result, -, hws, hs, hr⟩ := applyEvent_of_admits_eq depth h
  refine ⟨?_, hr⟩
  obtain ⟨ws, hws', hf, -⟩ := h
  cases hws.symm.trans hws'
  have ha := objects_applyExecutionResult (H := H)
    (state.1.findConflict H event.getSubnetId ∅ result.stateChanges).1 event result
  rw [objects_findConflict] at ha
  rw [objects_congr (subnet_congr hs), ha]
  simp [serialApply, hws, hf]

/-- Another event is at most checked; it is reported if it was executed. -/
theorem applyEvent_of_not_admits_eq (h : ¬ Admits H (state.1.objects H) event) :
    (applyEvent H depth state event).1 =
        (match event.executionResult with
        | none => state.1
        | some result =>
          if result.success then
            (state.1.findConflict H event.getSubnetId ∅ result.stateChanges).1
          else state.1) ∧
      ∀ id, (applyEvent H depth state event).2.Reports id ↔
        state.2.Reports id ∨ id = event.id ∧ event.executionResult ≠ none := by
  cases hr : event.executionResult with
  | none => simp [applyEvent, hr]
  | some result =>
    cases hs : result.success with
    | false =>
      simp only [applyEvent, hr, hs, Bool.not_false, if_true]
      refine ⟨rfl, fun id ↦ ?_⟩
      simp [StateApplySummary.Reports, or_right_comm]
    | true =>
      have hws : eventWrites H event = some (resultWrites H event result) := by
        simp [eventWrites, hr, hs]
      have hc : (state.1.findConflict H event.getSubnetId ∅ result.stateChanges).2 ≠ none := by
        intro hn
        exact h ⟨_, hws, (findConflict_eq_none_iff _ _ _ _).mp hn⟩
      obtain ⟨key, hk⟩ := Option.ne_none_iff_exists'.mp hc
      simp only [applyEvent, hr, hs, Bool.not_true, Bool.false_eq_true, if_false, hk]
      refine ⟨rfl, fun id ↦ ?_⟩
      simp [StateApplySummary.Reports, or_assoc]

/-- Another event leaves every subnet as it is. -/
theorem applyEvent_of_not_admits (h : ¬ Admits H (state.1.objects H) event) :
    (applyEvent H depth state event).1.subnet H = state.1.subnet H ∧
      ∀ id, (applyEvent H depth state event).2.Reports id ↔
        state.2.Reports id ∨ id = event.id ∧ event.executionResult ≠ none := by
  refine ⟨?_, (applyEvent_of_not_admits_eq depth h).2⟩
  rw [(applyEvent_of_not_admits_eq depth h).1]
  split
  · rfl
  · split
    · exact subnet_findConflict _ _ _ _
    · rfl

/-- A report is of an earlier event or of this one. -/
theorem reports_applyEvent {id : EventId} :
    (applyEvent H depth state event).2.Reports id ↔ state.2.Reports id ∨
      id = event.id ∧ event.executionResult ≠ none ∧ ¬ Admits H (state.1.objects H) event := by
  by_cases h : Admits H (state.1.objects H) event
  · simp [(applyEvent_of_admits depth h).2, h]
  · simp [(applyEvent_of_not_admits depth h).2, h]

/-- What is reported stays reported. -/
theorem reports_foldl_of_reports {events : List Event} {id : EventId}
    (h : state.2.Reports id) : (events.foldl (applyEvent H depth) state).2.Reports id := by
  induction events generalizing state with
  | nil => exact h
  | cons event rest ih => exact ih ((reports_applyEvent depth).mpr (.inl h))

/-- Only listed events are newly reported. -/
theorem reports_of_reports_foldl {events : List Event} {id : EventId}
    (h : (events.foldl (applyEvent H depth) state).2.Reports id) :
    state.2.Reports id ∨ id ∈ events.map (·.id) := by
  induction events generalizing state with
  | nil => exact .inl h
  | cons event rest ih =>
    rcases ih h with h | h
    · rcases (reports_applyEvent depth).mp h with h | ⟨rfl, -⟩
      · exact .inl h
      · exact .inr List.mem_cons_self
    · exact .inr (List.mem_cons_of_mem _ h)

private theorem foldl_applyEvent_serial_iff (events : List Event)
    (hi : (events.map (·.id)).Nodup) :
    ∀ (state : GlobalStateManager D × StateApplySummary D),
      (∀ id ∈ events.map (·.id), ¬ state.2.Reports id) →
      ((events.foldl (applyEvent H depth) state).1.objects H =
            serialObjects H (state.1.objects H) events ∧
          (∀ id, (events.foldl (applyEvent H depth) state).2.Reports id ↔
            state.2.Reports id ∨ id ∈ serialRejected H (state.1.objects H) events) ↔
        (∀ event ∈ events, event.executionResult ≠ none) ∧
          NeverRecreates H (state.1.objects H) events) := by
  induction events with
  | nil => simp [serialObjects, serialRejected, NeverRecreates]
  | cons event rest ih =>
    intro state hn
    rw [List.map_cons, List.nodup_cons] at hi
    rw [List.map_cons, List.forall_mem_cons] at hn
    have hne : ∀ id ∈ rest.map (·.id), ¬ (applyEvent H depth state event).2.Reports id := by
      intro id hid hr
      rcases (reports_applyEvent depth).mp hr with h | ⟨rfl, -⟩
      · exact hn.2 id hid h
      · exact hi.1 hid
    have ih' := ih hi.2 (applyEvent H depth state event) hne
    rw [List.foldl_cons, List.forall_mem_cons, NeverRecreates, serialRejected]
    by_cases ha : Admits H (state.1.objects H) event
    · -- both accept: the rest starts from the same object state and the same reports
      have hs : (applyEvent H depth state event).1.objects H =
          serialApply H (state.1.objects H) event ∧ _ := applyEvent_of_admits depth ha
      obtain ⟨ws, hws, -, hfr⟩ := id ha
      have hh : ∀ ws ∈ eventWrites H event,
          Write.AllFit (state.1.objects H) ws → ¬ Write.Recreates (state.1.objects H) ws := by
        intro ws' hws' _
        cases hws.symm.trans hws'
        exact hfr
      rw [hs.1] at ih'
      simp only [hs.2] at ih'
      rw [if_pos (serialAccepts_of_admits ha), and_iff_right hh,
        and_iff_right (executionResult_ne_none hws)]
      exact ih'
    · by_cases hac : serialAccepts H (state.1.objects H) event = true
      · -- the manager reports an event that the rule accepts: both sides fail
        obtain ⟨ws, hws, hf⟩ := serialAccepts_iff.mp hac
        rw [if_pos hac]
        refine iff_of_false (fun hfo ↦ ?_) fun hc ↦
          ha ⟨ws, hws, hf, hc.2.1 ws hws hf⟩
        have hr : (applyEvent H depth state event).2.Reports event.id :=
          (reports_applyEvent depth).mpr (.inr ⟨rfl, executionResult_ne_none hws, ha⟩)
        rcases (hfo.2 event.id).mp (reports_foldl_of_reports depth hr) with h | h
        · exact hn.1 h
        · exact hi.1 (mem_ids_of_mem_serialRejected h)
      · have hs : (applyEvent H depth state event).1.subnet H = state.1.subnet H ∧ _ :=
          applyEvent_of_not_admits depth ha
        rw [if_neg hac, serialObjects, List.foldl_cons, ← serialObjects,
          serialApply_of_not_accepts hac]
        by_cases hre : event.executionResult = none
        · -- an event that was not executed is not reported: both sides fail
          refine iff_of_false (fun hfo ↦ ?_) fun hc ↦ hc.1.1 hre
          have hr := (hfo.2 event.id).mpr (.inr List.mem_cons_self)
          rcases reports_of_reports_foldl depth hr with h | h
          · rcases (hs.2 event.id).mp h with h | h
            · exact hn.1 h
            · exact h.2 hre
          · exact hi.1 h
        · -- both refuse and the manager reports it
          have hh : ∀ ws ∈ eventWrites H event, Write.AllFit (state.1.objects H) ws →
                ¬ Write.Recreates (state.1.objects H) ws :=
            fun ws hws hf ↦ absurd (serialAccepts_iff.mpr ⟨ws, hws, hf⟩) hac
          rw [objects_congr hs.1] at ih'
          simp only [hs.2, ne_eq, hre, not_false_eq_true, and_true, or_assoc] at ih'
          simp only [List.mem_cons]
          rw [and_iff_right hh, and_iff_right hre]
          exact ih'

variable (H)

/-- The outcome of a call is that of the serial rule, which goes through the events in the
order of logical time and identifier: the same object state, and exactly the events that the
rule does not accept are reported failed or conflicted. -/
def FollowsSerialRule (g : GlobalStateManager D) (events : List Event) (depth : UInt64) : Prop :=
  (g.applyCommittedEvents H events depth).1.objects H =
      serialObjects H (g.objects H) (sortOn eventOrder events) ∧
    ∀ id, (g.applyCommittedEvents H events depth).2.Reports id ↔
      id ∈ serialRejected H (g.objects H) (sortOn eventOrder events)

variable {H}

/-- Committed events with distinct identifiers are applied by the serial rule exactly if all of
them were executed and no accepted event creates an object that it has deleted. -/
theorem followsSerialRule_iff (g : GlobalStateManager D) (events : List Event)
    (hids : (events.map (·.id)).Nodup) (depth : UInt64) :
    g.FollowsSerialRule H events depth ↔
      (∀ event ∈ events, event.executionResult ≠ none) ∧
        NeverRecreates H (g.objects H) (sortOn eventOrder events) := by
  have hp := sortOn_perm eventOrder events
  have hs : ((sortOn eventOrder events).map (·.id)).Nodup := (hp.map _).nodup_iff.mpr hids
  have hn : ∀ id, ¬ (StateApplySummary.new : StateApplySummary D).Reports id := by
    simp [StateApplySummary.Reports, StateApplySummary.new]
  have hi := foldl_applyEvent_serial_iff (H := H) depth (sortOn eventOrder events) hs
    ({ g with lastFinalizedDepth := max g.lastFinalizedDepth depth }, .new) fun id _ ↦ hn id
  simp only [hn, false_or, hp.mem_iff] at hi
  exact hi

/-! A first event creates an object, a second one writes it twice or deletes and creates it. -/

private def changes (id : EventId) (time : UInt64) (stateChanges : List StateChange) : Event where
  id := id
  eventType := .transfer
  parentIds := []
  subnetId := none
  transfer := none
  payload := .none
  vlcSnapshot := ⟨∅, time, 0⟩
  creator := ""
  status := .executed
  executionResult := some ⟨true, none, stateChanges⟩
  timestamp := 0

private def creation : Event := changes "e1" 1 [⟨"a", none, some [1], none⟩]

private def rewriting : Event :=
  changes "e2" 2 [⟨"a", some [1], some [2], none⟩, ⟨"a", some [2], some [3], none⟩]

private def recreation : Event :=
  changes "e2" 2 [⟨"a", some [1], none, none⟩, ⟨"a", none, some [2], none⟩]

/-- Two writes to one object by one event follow the rule. -/
theorem followsSerialRule_rewriting :
    (new Blake3.ideal).FollowsSerialRule Blake3.ideal [rewriting, creation] 0 :=
  (followsSerialRule_iff _ _ (by decide) _).mpr ⟨by decide, by decide +kernel⟩

/-- An event that deletes and creates an object is accepted by the rule and reported conflicted
by the state manager. -/
theorem not_followsSerialRule_recreation :
    ¬ (new Blake3.ideal).FollowsSerialRule Blake3.ideal [creation, recreation] 0 := by
  have hr : ((new Blake3.ideal).applyCommittedEvents Blake3.ideal
      [creation, recreation] 0).2.Reports "e2" := by
    decide +kernel
  have ha : "e2" ∉ serialRejected Blake3.ideal ((new Blake3.ideal).objects Blake3.ideal)
      (sortOn eventOrder [creation, recreation]) := by
    decide +kernel
  exact fun h ↦ ha ((h.2 "e2").mp hr)

end GlobalStateManager

end Setu.State
