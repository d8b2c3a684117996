import Setu.State.Serial
import Setu.State.Simulation

/-!
# What skipped events leave behind

Library `State`. An event that is refused or was not executed changes no object, but the
conflict check reads through an accessor that creates missing subnets, and every subnet enters
the global root. The subnets after a call are those before it, those of the applied events, and
those that the check of a refused event looked up.
-/

namespace Setu.State

open Setu.Base Setu.Types Setu.Merkle

variable {D : Type} (H : Blake3 D)

/-- The subnets in whose trees the conflict check looks a value up, in order. -/
def lookedUp (s : Objects) :
    GlobalStateManager.PendingWrites → List (Write (SubnetId × HashValue) Bytes) → List SubnetId
  | _, [] => []
  | pending, w :: rest =>
    match w.expected with
    | some expectedOld =>
      match pending.lookup w.key with
      | some value =>
        if value = some expectedOld then lookedUp s (pending.insert w.key w.value) rest else []
      | none =>
        w.key.1 :: if s w.key = some expectedOld then
          lookedUp s (pending.insert w.key w.value) rest else []
    | none =>
      if w.value.isSome then
        w.key.1 :: if ((pending.lookup w.key).map Option.isSome).getD false || (s w.key).isSome
          then [] else lookedUp s (pending.insert w.key w.value) rest
      else lookedUp s (pending.insert w.key w.value) rest

/-- A subnet is looked up for a write to it. -/
theorem exists_write_of_mem_lookedUp {s : Objects} {id : SubnetId}
    {ws : List (Write (SubnetId × HashValue) Bytes)} :
    ∀ {pending : GlobalStateManager.PendingWrites}, id ∈ lookedUp s pending ws →
      id ∈ ws.map (·.key.1) := by
  induction ws with
  | nil => exact fun h ↦ h
  | cons w rest ih =>
    intro pending h
    rw [lookedUp] at h
    rw [List.map_cons, List.mem_cons]
    split at h
    · split at h
      · split at h
        · exact .inr (ih h)
        · cases h
      · rcases List.mem_cons.mp h with rfl | h
        · exact .inl rfl
        · split at h
          · exact .inr (ih h)
          · cases h
    · split at h
      · rcases List.mem_cons.mp h with rfl | h
        · exact .inl rfl
        · split at h
          · cases h
          · exact .inr (ih h)
      · exact .inr (ih h)

namespace GlobalStateManager

variable {H} {g : GlobalStateManager D}

/-- A modified subnet exists afterwards; no other is created or lost. -/
theorem mem_modifySubnet {subnetId id : SubnetId} {f : SubnetStateSMT D → SubnetStateSMT D} :
    id ∈ (g.modifySubnet H subnetId f).subnetStates ↔ id = subnetId ∨ id ∈ g.subnetStates :=
  AList.mem_insert _

theorem mem_touchSubnet {subnetId id : SubnetId} :
    id ∈ (g.touchSubnet H subnetId).subnetStates ↔ id = subnetId ∨ id ∈ g.subnetStates :=
  mem_modifySubnet

/-- The conflict check creates the subnets it looks up. -/
theorem mem_findConflict (subnetId : SubnetId) (changes : List StateChange) {id : SubnetId} :
    ∀ (g : GlobalStateManager D) (pending : PendingWrites),
      id ∈ (g.findConflict H subnetId pending changes).1.subnetStates ↔
        id ∈ g.subnetStates ∨
          id ∈ lookedUp (g.objects H) pending (changes.map (changeWrite H subnetId)) := by
  induction changes with
  | nil => simp [findConflict, lookedUp]
  | cons change rest ih =>
    intro g pending
    rw [List.map_cons, lookedUp]
    obtain ⟨w, hw⟩ : ∃ w, w = changeWrite H subnetId change := ⟨_, rfl⟩
    rw [findConflict_cons g subnetId pending change rest hw, ← hw]
    have ht := ih (g.touchSubnet H w.key.1) (pending.insert w.key w.value)
    rw [objects_touchSubnet, mem_touchSubnet] at ht
    cases he : w.expected with
    | some expectedOld =>
      cases hp : pending.lookup w.key with
      | some value =>
        by_cases heq : value = some expectedOld
        · simpa [heq] using ih g (pending.insert w.key w.value)
        · simp [heq]
      | none =>
        by_cases heq : g.objects H w.key = some expectedOld
        · simpa [heq, or_left_comm, or_assoc] using ht
        · simp [heq, mem_touchSubnet, or_comm]
    | none =>
      cases hv : w.value.isSome with
      | true =>
        cases ((pending.lookup w.key).map Option.isSome).getD false ||
          (g.objects H w.key).isSome with
        | true => simp [mem_touchSubnet, or_comm]
        | false => simpa [or_left_comm, or_assoc] using ht
      | false => simpa using ih g (pending.insert w.key w.value)

variable [DecidableEq D]

/-- An execution result creates the subnets it writes to and the one of its event. -/
theorem mem_applyExecutionResult (event : Event) (result : ExecutionResult) {id : SubnetId} :
    id ∈ (g.applyExecutionResult H event.getSubnetId result).1.subnetStates ↔
      id ∈ g.subnetStates ∨ id = event.getSubnetId ∨
        id ∈ (resultWrites H event result).map (·.key.1) := by
  unfold applyExecutionResult resultWrites
  rw [mem_touchSubnet, or_left_comm]
  apply or_congr_right
  induction result.stateChanges generalizing g with
  | nil => simp
  | cons change rest ih =>
    have hc : id ∈ (g.applyStateChange H (changeTarget change event.getSubnetId)
        change).subnetStates ↔
      id = changeTarget change event.getSubnetId ∨ id ∈ g.subnetStates := by
      unfold applyStateChange
      cases change.newValue <;> exact mem_modifySubnet
    rw [List.foldl_cons, ih, hc, List.map_cons, List.map_cons, List.mem_cons, or_assoc,
      or_left_comm]
    rfl

/-- What an execution result does to the subnets depends on the subnets alone. -/
theorem subnet_applyExecutionResult_congr {g' : GlobalStateManager D}
    (h : g.subnet H = g'.subnet H) (subnetId : SubnetId) (result : ExecutionResult) :
    (g.applyExecutionResult H subnetId result).1.subnet H =
      (g'.applyExecutionResult H subnetId result).1.subnet H := by
  unfold applyExecutionResult
  rw [subnet_touchSubnet, subnet_touchSubnet]
  induction result.stateChanges generalizing g g' with
  | nil => exact h
  | cons change rest ih =>
    have hs : (g.applyStateChange H (changeTarget change subnetId) change).subnet H =
        (g'.applyStateChange H (changeTarget change subnetId) change).subnet H := by
      unfold applyStateChange
      split <;> simp only [subnet_modifySubnet, h]
    exact ih hs

end GlobalStateManager

/-- The subnets an event belongs to and writes to. -/
def eventSubnets (event : Event) : List SubnetId :=
  match eventWrites H event with
  | none => []
  | some ws => event.getSubnetId :: ws.map (·.key.1)

/-- The subnets the conflict check of an event looks up. -/
def checkedSubnets (s : Objects) (event : Event) : List SubnetId :=
  match eventWrites H event with
  | none => []
  | some ws => lookedUp s ∅ ws

namespace GlobalStateManager

variable {H} [DecidableEq D] (depth : UInt64)
  {state state' : GlobalStateManager D × StateApplySummary D} {event : Event} {id : SubnetId}

/-- An admitted event creates the subnets it belongs to and writes to. -/
theorem mem_applyEvent_of_admits (h : Admits H (state.1.objects H) event) :
    id ∈ (applyEvent H depth state event).1.subnetStates ↔
      id ∈ state.1.subnetStates ∨ id ∈ eventSubnets H event := by
  obtain ⟨result, -, hws, hs, -⟩ := applyEvent_of_admits_eq depth h
  rw [hs, mem_applyExecutionResult, mem_findConflict, eventSubnets, hws, or_assoc]
  apply or_congr_right
  rw [List.mem_cons]
  exact ⟨fun hid ↦ hid.elim (fun hl ↦ .inr (exists_write_of_mem_lookedUp hl)) fun h ↦ h, .inr⟩

/-- Another event creates the subnets that its conflict check looks up. -/
theorem mem_applyEvent_of_not_admits (h : ¬ Admits H (state.1.objects H) event) :
    id ∈ (applyEvent H depth state event).1.subnetStates ↔
      id ∈ state.1.subnetStates ∨ id ∈ checkedSubnets H (state.1.objects H) event := by
  rw [(applyEvent_of_not_admits_eq depth h).1, checkedSubnets, eventWrites]
  cases event.executionResult with
  | none => simp
  | some result =>
    cases hs : result.success with
    | true => simpa [hs, resultWrites] using mem_findConflict _ _ _ _
    | false => simp [hs]

/-- Managers with the same subnets still have the same subnets after an admitted event. -/
theorem subnet_applyEvent_congr (hsa : state.1.subnet H = state'.1.subnet H)
    (h : Admits H (state.1.objects H) event) :
    (applyEvent H depth state event).1.subnet H = (applyEvent H depth state' event).1.subnet H := by
  have h' : Admits H (state'.1.objects H) event := objects_congr hsa ▸ h
  obtain ⟨result, hr, -, hs, -⟩ := applyEvent_of_admits_eq depth h
  obtain ⟨result', hr', -, hs', -⟩ := applyEvent_of_admits_eq depth h'
  cases hr.symm.trans hr'
  rw [subnet_congr hs, subnet_congr hs']
  apply subnet_applyExecutionResult_congr
  rw [subnet_findConflict, subnet_findConflict, hsa]

end GlobalStateManager

/-- Managers with the same subnets that hold the same are in the same state. -/
theorem Sim.of_subnet_eq {H : Blake3 D} {g g' : GlobalStateManager D}
    (hsu : g.subnet H = g'.subnet H)
    (hm : ∀ id, id ∈ g.subnetStates ↔ id ∈ g'.subnetStates) : Sim SameTree g g' := by
  intro id
  have hid := congrFun hsu id
  unfold GlobalStateManager.subnet at hid
  have hs : (g.subnetStates.lookup id).isSome = (g'.subnetStates.lookup id).isSome := by
    rw [Bool.eq_iff_iff, AList.lookup_isSome, AList.lookup_isSome, hm]
  cases hg : g.subnetStates.lookup id with
  | none =>
    rw [hg, Option.isSome_none, eq_comm, Option.isSome_eq_false_iff, Option.isNone_iff_eq_none]
      at hs
    exact .inl ⟨rfl, hs⟩
  | some smt =>
    rw [hg, Option.isSome_some, eq_comm, Option.isSome_iff_exists] at hs
    obtain ⟨smt', hg'⟩ := hs
    rw [hg, hg', Option.getD_some, Option.getD_some] at hid
    subst hid
    exact .inr ⟨smt, smt, rfl, hg', rfl⟩

/-- The subnets of the events that are applied, each at its turn. -/
def appliedSubnets : Objects → List Event → List SubnetId
  | _, [] => []
  | s, event :: rest =>
    if Admits H s event then eventSubnets H event ++ appliedSubnets (serialApply H s event) rest
    else appliedSubnets s rest

/-- The subnets looked up by the conflict checks of the events that are not applied, each at
its turn. -/
def refusedLookups : Objects → List Event → List SubnetId
  | _, [] => []
  | s, event :: rest =>
    if Admits H s event then refusedLookups (serialApply H s event) rest
    else checkedSubnets H s event ++ refusedLookups s rest

/-- The events that are applied, each at its turn. -/
def admittedEvents : Objects → List Event → List Event
  | _, [] => []
  | s, event :: rest =>
    if Admits H s event then event :: admittedEvents (serialApply H s event) rest
    else admittedEvents s rest

theorem admittedEvents_sublist (events : List Event) :
    ∀ s : Objects, (admittedEvents H s events).Sublist events := by
  induction events with
  | nil => exact fun _ ↦ .slnil
  | cons event rest ih =>
    intro s
    rw [admittedEvents]
    split
    · exact (ih _).cons_cons event
    · exact (ih _).cons event

namespace GlobalStateManager

variable [DecidableEq D]

/-- The listed events without those that were not executed and those that are reported failed
or conflicted at their turn. -/
def keptEvents (depth : UInt64) : GlobalStateManager D → List Event → List Event
  | _, [] => []
  | g, event :: rest =>
    let applied := applyEvent H depth (g, .new) event
    if event.executionResult.isSome && !decide (applied.2.Reports event.id) then
      event :: keptEvents depth applied.1 rest
    else keptEvents depth applied.1 rest

variable {H}

/-- The kept events are the admitted ones. -/
theorem keptEvents_eq (depth : UInt64) (events : List Event) :
    ∀ g : GlobalStateManager D, g.keptEvents H depth events =
      admittedEvents H (g.objects H) events := by
  induction events with
  | nil => exact fun _ ↦ rfl
  | cons event rest ih =>
    intro g
    have hn : ¬ (StateApplySummary.new : StateApplySummary D).Reports event.id := by
      simp [StateApplySummary.Reports, StateApplySummary.new]
    rw [keptEvents, admittedEvents]
    by_cases h : Admits H (g.objects H) event
    · have hs : (applyEvent H depth (g, .new) event).1.objects H = _ ∧ _ :=
        applyEvent_of_admits depth h
      obtain ⟨ws, hws, -⟩ := id h
      have hso := Option.isSome_iff_ne_none.mpr (executionResult_ne_none hws)
      rw [if_pos h, if_pos (by simp [hso, hs.2, hn]), ih, hs.1]
    · have hs : (applyEvent H depth (g, .new) event).1.subnet H = g.subnet H ∧ _ :=
        applyEvent_of_not_admits depth h
      have hsk : ¬ (event.executionResult.isSome &&
          !decide ((applyEvent H depth (g, .new) event).2.Reports event.id)) = true := by
        simp only [hs.2, true_and, Bool.and_eq_true, Option.isSome_iff_ne_none]
        intro hso
        simp [hso.1] at hso
      rw [if_neg h, if_neg hsk, ih, objects_congr hs.1]

variable (depth : UInt64)

private theorem foldl_applyEvent_admitted (events : List Event) :
    ∀ (state state' : GlobalStateManager D × StateApplySummary D),
      state.1.subnet H = state'.1.subnet H →
      (events.foldl (applyEvent H depth) state).1.subnet H =
          ((admittedEvents H (state.1.objects H) events).foldl
            (applyEvent H depth) state').1.subnet H ∧
        (∀ id, id ∈ (events.foldl (applyEvent H depth) state).1.subnetStates ↔
          id ∈ state.1.subnetStates ∨ id ∈ appliedSubnets H (state.1.objects H) events ∨
            id ∈ refusedLookups H (state.1.objects H) events) ∧
        ∀ id, id ∈ ((admittedEvents H (state.1.objects H) events).foldl
            (applyEvent H depth) state').1.subnetStates ↔
          id ∈ state'.1.subnetStates ∨ id ∈ appliedSubnets H (state.1.objects H) events := by
  induction events with
  | nil => simp [admittedEvents, appliedSubnets, refusedLookups]
  | cons event rest ih =>
    intro state state' hs
    rw [admittedEvents, appliedSubnets, refusedLookups, List.foldl_cons]
    by_cases h : Admits H (state.1.objects H) event
    · have h' : Admits H (state'.1.objects H) event := objects_congr hs ▸ h
      have ih' := ih _ _ (subnet_applyEvent_congr depth hs h)
      rw [(applyEvent_of_admits depth h).1] at ih'
      rw [if_pos h, if_pos h, if_pos h, List.foldl_cons]
      refine ⟨ih'.1, fun id ↦ ?_, fun id ↦ ?_⟩
      · rw [ih'.2.1, mem_applyEvent_of_admits depth h, List.mem_append, or_assoc, or_assoc]
      · rw [ih'.2.2, mem_applyEvent_of_admits depth h', List.mem_append, or_assoc]
    · have hst := (applyEvent_of_not_admits depth h).1
      have ih' := ih _ _ (hst.trans hs)
      rw [objects_congr hst] at ih'
      rw [if_neg h, if_neg h, if_neg h]
      refine ⟨ih'.1, fun id ↦ ?_, ih'.2.2⟩
      rw [ih'.2.1, mem_applyEvent_of_not_admits depth h, List.mem_append, or_assoc]
      exact or_congr_right or_left_comm

/-- The skipped events are invisible: without them the call reaches the same object state, the
same subnets and the same global root. -/
def SkippedInvisible (H : Blake3 D) (g : GlobalStateManager D) (events : List Event)
    (depth : UInt64) : Prop :=
  let all := (g.applyCommittedEvents H events depth).1
  let kept := (g.applyCommittedEvents H
    (g.keptEvents H depth (sortOn eventOrder events)) depth).1
  all.objects H = kept.objects H ∧
    (∀ id, id ∈ all.subnetStates ↔ id ∈ kept.subnetStates) ∧
    (all.computeGlobalRoot H).1 = (kept.computeGlobalRoot H).1

/-- The skipped events of a call are invisible exactly if every subnet that the conflict check
of one of them looks up is there already or belongs to an applied event. -/
theorem skippedInvisible_iff (g : GlobalStateManager D) (events : List Event) :
    g.SkippedInvisible H events depth ↔
      ∀ id ∈ refusedLookups H (g.objects H) (sortOn eventOrder events),
        id ∈ g.subnetStates ∨ id ∈ appliedSubnets H (g.objects H) (sortOn eventOrder events) := by
  have hso : sortOn eventOrder (g.keptEvents H depth (sortOn eventOrder events)) =
      admittedEvents H (g.objects H) (sortOn eventOrder events) := by
    rw [keptEvents_eq]
    exact sortOn_eq_self ((pairwise_sortOn eventOrder events).sublist
      (admittedEvents_sublist H _ _))
  have hr := foldl_applyEvent_admitted (H := H) depth (sortOn eventOrder events)
    ({ g with lastFinalizedDepth := max g.lastFinalizedDepth depth }, .new)
    ({ g with lastFinalizedDepth := max g.lastFinalizedDepth depth }, .new) rfl
  unfold SkippedInvisible applyCommittedEvents
  dsimp only at hr ⊢
  rw [hso]
  obtain ⟨hs, ha, hk⟩ := hr
  constructor
  · intro hi id hid
    exact (hk id).mp ((hi.2.1 id).mp ((ha id).mpr (.inr (.inr hid))))
  · intro hl
    have hm := fun id ↦ (ha id).trans (Iff.trans ?_ (hk id).symm)
    · exact ⟨objects_congr hs, hm, (Sim.of_subnet_eq hs hm).computeGlobalRoot (treeSim_sameTree H)⟩
    · refine ⟨?_, fun h ↦ h.elim .inl fun h ↦ .inr (.inl h)⟩
      rintro (h | h | h)
      · exact .inl h
      · exact .inr h
      · exact hl id h

/-- An event of the root subnet with a stale write to a subnet that does not exist. -/
private def staleEvent : Event where
  id := "e1"
  eventType := .governance
  parentIds := []
  subnetId := none
  transfer := none
  payload := .none
  vlcSnapshot := ⟨∅, 1, 0⟩
  creator := ""
  status := .executed
  executionResult := some ⟨true, none, [⟨"a", some [1], some [2], some ⟨Vector.replicate 32 7⟩⟩]⟩
  timestamp := 0

/-- A refused event creates the subnet of its stale write. -/
theorem not_skippedInvisible_staleEvent :
    ¬ (new Blake3.ideal).SkippedInvisible Blake3.ideal [staleEvent] 0 := by
  have hs : (⟨Vector.replicate 32 7⟩ : SubnetId) ∈
        ((new Blake3.ideal).applyCommittedEvents Blake3.ideal [staleEvent] 0).1.subnetStates ∧
      (⟨Vector.replicate 32 7⟩ : SubnetId) ∉
        ((new Blake3.ideal).applyCommittedEvents Blake3.ideal ((new Blake3.ideal).keptEvents
          Blake3.ideal 0 (sortOn eventOrder [staleEvent])) 0).1.subnetStates := by
    decide +kernel
  exact fun h ↦ hs.2 ((h.2.1 _).mp hs.1)

end GlobalStateManager

end Setu.State
