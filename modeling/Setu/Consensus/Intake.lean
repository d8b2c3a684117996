import Setu.Consensus.DagInvariant
import Setu.Consensus.Engine

/-!
# Receiving events

Library `Consensus`. The engine merges the clock of an event, adds it through the DAG manager and
tries to propose a frame. A second receipt of an event is meant to be a success without effect; the
manager wraps the refusal of the DAG, so the engine answers with an error instead. Source
`consensus/src/engine.rs`.
-/

namespace Setu.Consensus

open Setu.Base Setu.Types

/-- `VectorClock::increment`, `crates/setu-vlc/src/lib.rs:67-71`. -/
def incrementClock (clocks : HashMap String UInt64) (nodeId : String) : HashMap String UInt64 :=
  clocks.insert nodeId ((clocks.lookup nodeId).getD 0 + 1)

/-- `VectorClock::merge`, `crates/setu-vlc/src/lib.rs:84-89`. -/
def mergeClocks (clocks other : HashMap String UInt64) : HashMap String UInt64 :=
  other.toList.foldl (fun clocks entry ↦
    clocks.insert entry.1 (max ((clocks.lookup entry.1).getD 0) entry.2)) clocks

/-- `VLCSnapshot::increment`, `crates/setu-vlc/src/lib.rs:250-254`. -/
def tickClock (vlc : VLCSnapshot) (nodeId : String) (now : UInt64) : VLCSnapshot :=
  ⟨incrementClock vlc.vectorClock nodeId, vlc.logicalTime + 1, now⟩

/-- `VLCSnapshot::receive`, `crates/setu-vlc/src/lib.rs:261-273`. -/
def receiveClock (vlc other : VLCSnapshot) (nodeId : String) (now : UInt64) : VLCSnapshot :=
  ⟨incrementClock (mergeClocks vlc.vectorClock other.vectorClock) nodeId,
    max vlc.logicalTime other.logicalTime + 1, now⟩

/-- `Display` of an error of the DAG, `dag.rs:469-482`. -/
def DagError.toString : DagError → String
  | duplicateEvent id => "Duplicate event: " ++ id
  | missingParent id => "Missing parent event: " ++ id

/-- `Display` of an error of the manager, `dag_manager.rs:98-125`. -/
def DagManagerError.toString : DagManagerError → String
  | missingParent id => "Missing parent event: " ++ id
  | parentTooOld parentId depthDiff maxAllowed =>
    "Parent event too old: " ++ parentId ++ s!", depth_diff: {depthDiff} > max: {maxAllowed}"
  | parentGCed id => "Parent was GC'd between validation and insertion: " ++ id
  | duplicateEvent id => "Duplicate event: " ++ id
  | warmupQueueFull maxSize => s!"Warmup pending queue is full (max: {maxSize})"
  | dag error => "DAG error: " ++ error.toString
  | internal reason => "Internal error: " ++ reason

/-- The engine with the layers of its DAG manager that the engine itself does not read. -/
structure IntakeEngine (D : Type) where
  engine : ConsensusEngine D
  recentCache : RecentEventCache
  eventStore : EventStore
  config : DagManagerConfig
  warmingUp : Bool
  pendingQueue : List Event

/-- What a receipt answered, and the event if it is broadcast. -/
structure Received (D : Type) where
  answer : Except String EventId
  broadcast : Option Event
  effects : Effects D
  engine : IntakeEngine D

namespace IntakeEngine

variable {D : Type} [DecidableEq D] (H : Blake3 D) (S : Ed25519) (e : IntakeEngine D)

/-- The DAG manager, which shares the DAG with the engine. -/
def manager : DagManager :=
  ⟨e.engine.dag, e.recentCache, e.eventStore, e.config, e.engine.minDepth, e.warmingUp,
    e.pendingQueue⟩

/-- The engine after the manager has worked. -/
def withManager (m : DagManager) : IntakeEngine D :=
  ⟨{ e.engine with dag := m.dag, minDepth := m.minDepth }, m.recentCache, m.eventStore, m.config,
    m.warmingUp, m.pendingQueue⟩

/-- The clock merges the event's and ticks, `engine.rs:624-628` and `engine.rs:687-691`. -/
def observeClock (event : Event) (env : Ambient) : IntakeEngine D :=
  let received := receiveClock e.engine.vlc event.vlcSnapshot e.engine.localValidatorId env.now
  { e with
    engine := { e.engine with vlc := tickClock received e.engine.localValidatorId env.now } }

/-- The answer to an error of the manager, `engine.rs:634-659` and `engine.rs:697-722`. -/
def answerError : DagManagerError → Except String EventId
  | .duplicateEvent id => .ok id
  | .missingParent id => .error ("Missing parent: " ++ id)
  | .parentTooOld parentId depthDiff maxAllowed =>
    .error ("Parent " ++ parentId ++ s!" too old: depth_diff {depthDiff} > max {maxAllowed}")
  | e => .error e.toString

/-- What `add_event` and `receive_event_from_network` have in common; the first broadcasts. -/
def receive (broadcasts : Bool) (e : IntakeEngine D) (event : Event) (env : Ambient) :
    Received D :=
  let e := e.observeClock event env
  let (added, m) := e.manager.addEventWithRetry event
  let e := e.withManager m
  match added with
  | .error error => ⟨answerError error, none, {}, e⟩
  | .ok id =>
    let attempt := e.engine.tryCreateCf H S env
    ⟨.ok id, if broadcasts then some event else none, attempt.effects,
      { e with engine := attempt.engine }⟩

/-- `engine.rs:622-680`. -/
def addEvent (event : Event) (env : Ambient) : Received D :=
  e.receive H S true event env

/-- `engine.rs:685-734`. -/
def receiveEventFromNetwork (event : Event) (env : Ambient) : Received D :=
  e.receive H S false event env

/-- The receipt is a success that leaves the DAG, the floor on depths, the cached events and the
stored events as they are. -/
structure Idempotent (e : IntakeEngine D) (event : Event) (received : Received D) : Prop where
  answer : received.answer = .ok event.id
  dag : received.engine.engine.dag = e.engine.dag
  minDepth : received.engine.engine.minDepth = e.engine.minDepth
  cache : ∀ id, received.engine.recentCache.peek id = e.recentCache.peek id
  store : received.engine.eventStore = e.eventStore

end IntakeEngine

namespace DagManager

variable {m : DagManager} {event : Event}

/-- Phase 1 fails for a parent that no layer knows, and for no other reason. -/
theorem queryParents_cases (m : DagManager) (ids : List EventId) :
    (∃ p ∈ ids, (m.queryParent p).1 = none) ∧
        (∃ p, (m.queryParents ids).1 = .error (.missingParent p)) ∨
      (∀ p ∈ ids, (m.queryParent p).1 ≠ none) ∧
        ∃ results, (m.queryParents ids).1 = .ok results := by
  induction ids generalizing m with
  | nil => exact .inr ⟨List.forall_mem_nil _, [], rfl⟩
  | cons id rest ih =>
    have hq := m.refreshed_queryParent id
    rw [queryParents]
    rcases hid : m.queryParent id with ⟨found, m'⟩
    rw [hid] at hq
    cases found with
    | none => exact .inl ⟨⟨id, List.mem_cons_self, congrArg Prod.fst hid⟩, id, rfl⟩
    | some info =>
      dsimp only
      rcases hr : m'.queryParents rest with ⟨answer, m''⟩
      rcases ih m' with ⟨⟨p, hp, hn⟩, q, he⟩ | ⟨hf, results, hre⟩
      · rw [hr] at he
        cases he
        refine .inl ⟨⟨p, List.mem_cons_of_mem _ hp, ?_⟩, q, rfl⟩
        rw [← hq.queryParent_eq, hn]
      · rw [hr] at hre
        cases hre
        refine .inr ⟨?_, (id, info) :: results, rfl⟩
        intro p hp
        rcases List.mem_cons.mp hp with rfl | hp
        · rw [hid]
          exact Option.some_ne_none info
        · rw [← hq.queryParent_eq]
          exact hf p hp

theorem forM_checkDepthDiff_cases (m : DagManager) (depth : UInt64)
    (results : List (EventId × ParentInfo)) :
    results.forM (m.checkDepthDiff depth) = .ok () ∨
      ∃ error, results.forM (m.checkDepthDiff depth) = .error error ∧
        ∃ p diff limit, error = .parentTooOld p diff limit := by
  have hl : ∀ (p : EventId) (diff : UInt64), (if m.config.maxCrossCfDepth < diff then
        .error (.parentTooOld p diff m.config.maxCrossCfDepth) else .ok () :
          Except DagManagerError Unit) = .ok () ∨
      ∃ error, (if m.config.maxCrossCfDepth < diff then
        .error (.parentTooOld p diff m.config.maxCrossCfDepth) else .ok () :
          Except DagManagerError Unit) = .error error ∧
        ∃ p diff limit, error = .parentTooOld p diff limit := by
    intro p diff
    split
    · exact .inr ⟨_, rfl, _, _, _, rfl⟩
    · exact .inl rfl
  refine forM_ok_or_error ?_
  intro result _
  rw [checkDepthDiff]
  split
  · exact .inl rfl
  · exact hl _ _
  · exact hl _ _

theorem resolveParents_cases (m : DagManager) (event : Event) :
    (∃ p ∈ event.parentIds, (m.queryParent p).1 = none) ∧
        (∃ p, (m.resolveParents event).1 = .error (.missingParent p)) ∨
      (∀ p ∈ event.parentIds, (m.queryParent p).1 ≠ none) ∧
        ((∃ resolved, (m.resolveParents event).1 = .ok resolved) ∨
          ∃ p diff limit, (m.resolveParents event).1 = .error (.parentTooOld p diff limit)) := by
  rw [resolveParents]
  have hc := m.queryParents_cases event.parentIds
  generalize m.queryParents event.parentIds = queried at hc
  rcases queried with ⟨answer, m'⟩
  rcases hc with ⟨hn, p, rfl⟩ | ⟨hf, results, rfl⟩
  · exact .inl ⟨hn, p, rfl⟩
  · refine .inr ⟨hf, ?_⟩
    change (∃ resolved, (results.forM (m'.checkDepthDiff (m'.newEventDepth results)) >>= fun _ ↦
      .ok (ResolvedParents.mk results (m'.newEventDepth results))) = .ok resolved) ∨ _
    rcases m'.forM_checkDepthDiff_cases (m'.newEventDepth results) results with
      hok | ⟨error, he, p, diff, limit, rfl⟩
    · rw [hok]
      exact .inl ⟨_, rfl⟩
    · refine .inr ⟨p, diff, limit, ?_⟩
      change (results.forM (m'.checkDepthDiff (m'.newEventDepth results)) >>= fun _ ↦
        .ok (ResolvedParents.mk results (m'.newEventDepth results))) = _
      rw [he]
      rfl

theorem forM_checkResident_cases (m : DagManager) (results : List (EventId × ParentInfo)) :
    results.forM m.checkResident = .ok () ∨
      ∃ error, results.forM m.checkResident = .error error ∧ ∃ p, error = .parentGCed p := by
  refine forM_ok_or_error ?_
  intro result _
  rw [checkResident]
  split
  · split
    · exact .inl rfl
    · exact .inr ⟨_, rfl, _, rfl⟩
  · exact .inl rfl

/-- The event waits for the end of the warm-up. -/
def Queues (m : DagManager) (event : Event) : Prop :=
  m.warmingUp = true ∧ (∃ p ∈ event.parentIds, (m.queryParent p).1 = none) ∧
    m.pendingQueue.length < m.config.maxPendingQueueSize

theorem Refreshed.queues_iff {m' : DagManager} (h : m.Refreshed m') :
    m'.Queues event ↔ m.Queues event := by
  have hq := h.queryParent_eq
  obtain ⟨cache, rfl, -⟩ := h
  simp only [Queues, hq]

/-- The answer is an error, which is not that of a duplicate, and the manager is the same up to
recency. -/
def Refuses (m : DagManager) (answer : Except DagManagerError EventId × DagManager) : Prop :=
  (∃ error, answer.1 = .error error ∧ ∀ id, error ≠ .duplicateEvent id) ∧ m.Refreshed answer.2

theorem Refuses.of_refreshed {m' : DagManager}
    {answer : Except DagManagerError EventId × DagManager} (h : m.Refreshed m')
    (hr : m'.Refuses answer) : m.Refuses answer :=
  ⟨hr.1, h.trans hr.2⟩

/-- An event of the DAG is refused by the DAG, if not before. -/
theorem refuses_addResolving (hk : event.id ∈ m.dag.events) :
    m.Refuses (m.addResolving event) := by
  obtain ⟨hr, -⟩ := m.resolveParents_spec event
  have hc := m.resolveParents_cases event
  rw [addResolving]
  generalize m.resolveParents event = resolution at hc hr
  rcases resolution with ⟨answer, m'⟩
  rcases hc with ⟨-, p, rfl⟩ | ⟨-, ⟨resolved, rfl⟩ | ⟨p, diff, limit, rfl⟩⟩
  · exact ⟨⟨_, rfl, fun id ↦ DagManagerError.noConfusion⟩, hr⟩
  · have hw : ∃ error, m'.writeResolved event resolved = .error error ∧
        ∀ id, error ≠ .duplicateEvent id := by
      have hre : event.id ∈ m'.dag.events := by
        obtain ⟨cache, rfl, -⟩ := hr
        exact hk
      have ha : m'.dag.addEventWithDepth event resolved.newEventDepth =
          .error (.duplicateEvent event.id) := by
        rw [Dag.addEventWithDepth, if_pos hre]
      rw [writeResolved, ha]
      rcases m'.forM_checkResident_cases resolved.results with hok | ⟨error, he, p, rfl⟩
      · rw [hok]
        exact ⟨.dag (.duplicateEvent event.id), rfl, fun id ↦ DagManagerError.noConfusion⟩
      · rw [he]
        exact ⟨.parentGCed p, rfl, fun id ↦ DagManagerError.noConfusion⟩
    obtain ⟨error, he, hne⟩ := hw
    dsimp only
    rw [he]
    exact ⟨⟨error, rfl, hne⟩, hr⟩
  · exact ⟨⟨_, rfl, fun id ↦ DagManagerError.noConfusion⟩, hr⟩

theorem refuses_addEvent (hk : event.id ∈ m.dag.events) (hq : ¬ m.Queues event) :
    m.Refuses (m.addEvent event) := by
  rw [addEvent]
  split
  · next hw =>
    obtain ⟨hr, -⟩ := m.resolveParents_spec event
    have hc := m.resolveParents_cases event
    generalize m.resolveParents event = resolution at hc hr
    rcases resolution with ⟨answer, m'⟩
    have hre : event.id ∈ m'.dag.events := by
      obtain ⟨cache, rfl, -⟩ := hr
      exact hk
    rcases hc with ⟨hn, p, rfl⟩ | ⟨-, ⟨resolved, rfl⟩ | ⟨p, diff, limit, rfl⟩⟩
    · have hf : m'.config.maxPendingQueueSize ≤ m'.pendingQueue.length := by
        obtain ⟨cache, rfl, -⟩ := hr
        exact Nat.le_of_not_lt fun hro ↦ hq ⟨hw, hn, hro⟩
      dsimp only
      rw [if_pos hf]
      exact ⟨⟨_, rfl, fun id ↦ DagManagerError.noConfusion⟩, hr⟩
    · exact (refuses_addResolving hre).of_refreshed hr
    · exact ⟨⟨_, rfl, fun id ↦ DagManagerError.noConfusion⟩, hr⟩
  · exact refuses_addResolving hk

theorem addEvent_of_queues (h : m.Queues event) :
    ∃ m', m.Refreshed m' ∧ m.addEvent event =
      (.ok event.id, { m' with pendingQueue := m'.pendingQueue ++ [event] }) := by
  obtain ⟨hw, hn, hr⟩ := h
  obtain ⟨hre, -⟩ := m.resolveParents_spec event
  have hc := m.resolveParents_cases event
  rw [addEvent, if_pos hw]
  generalize m.resolveParents event = resolution at hc hre
  rcases resolution with ⟨answer, m'⟩
  rcases hc with ⟨-, p, rfl⟩ | ⟨hf, -⟩
  · refine ⟨m', hre, ?_⟩
    have hr' : ¬ m'.config.maxPendingQueueSize ≤ m'.pendingQueue.length := by
      obtain ⟨cache, rfl, -⟩ := hre
      exact Nat.not_le_of_lt hr
    dsimp only
    rw [if_neg hr']
  · obtain ⟨p, hp, hn⟩ := hn
    exact absurd hn (hf p hp)

/-- No number of attempts lets an event of the DAG in that does not wait. -/
theorem refuses_addEventAttempts (hk : event.id ∈ m.dag.events) (hq : ¬ m.Queues event)
    (attempts : Nat) : m.Refuses (m.addEventAttempts event attempts) := by
  induction attempts generalizing m with
  | zero => exact refuses_addEvent hk hq
  | succ attempts ih =>
    have hf := refuses_addEvent hk hq
    rw [addEventAttempts]
    split
    · next p m' heq =>
      rw [heq] at hf
      have hr := hf.2
      have hre : event.id ∈ m'.dag.events := by
        obtain ⟨cache, rfl, -⟩ := hr
        exact hk
      exact (ih hre (hr.queues_iff.not.mpr hq)).of_refreshed hr
    · exact hf

end DagManager

namespace IntakeEngine

variable {D : Type} [DecidableEq D] (H : Blake3 D) (S : Ed25519)

/-- The attempt to propose a frame after the receipt leaves the DAG and the floor on depths. -/
def Quiet (e : IntakeEngine D) (event : Event) (env : Ambient) : Prop :=
  let attempt := (e.observeClock event env).engine.tryCreateCf H S env
  attempt.engine.dag = e.engine.dag ∧ attempt.engine.minDepth = e.engine.minDepth

theorem answerError_ne_ok {error : DagManagerError} (h : ∀ id, error ≠ .duplicateEvent id)
    (id : EventId) : answerError error ≠ .ok id := by
  cases error with
  | duplicateEvent id' => exact absurd rfl (h id')
  | _ => exact fun heq ↦ by cases heq

theorem idempotent_receive_iff (broadcasts : Bool) (e : IntakeEngine D) {event : Event}
    (env : Ambient) (hk : event.id ∈ e.engine.dag.events) :
    Idempotent e event (e.receive H S broadcasts event env) ↔
      e.manager.Queues event ∧ e.Quiet H S event env := by
  have hm : (e.observeClock event env).manager = e.manager := rfl
  by_cases hq : e.manager.Queues event
  · obtain ⟨m, ⟨cache, rfl, hp⟩, had⟩ := DagManager.addEvent_of_queues hq
    have hr : e.manager.addEventWithRetry event = (.ok event.id, { e.manager with
        recentCache := cache, pendingQueue := e.pendingQueue ++ [event] }) := by
      rw [DagManager.addEventWithRetry, DagManager.addEventAttempts, had]
      rfl
    rw [receive, hm, hr]
    exact ⟨fun h ↦ ⟨hq, h.dag, h.minDepth⟩, fun h ↦ ⟨rfl, h.2.1, h.2.2, hp, rfl⟩⟩
  · refine ⟨?_, fun h ↦ absurd h.1 hq⟩
    intro h
    obtain ⟨⟨error, he, hne⟩, -⟩ := DagManager.refuses_addEventAttempts (m := e.manager) hk hq 2
    have ha := h.answer
    rw [receive, hm, DagManager.addEventWithRetry] at ha
    generalize e.manager.addEventAttempts event 2 = answered at he ha
    rcases answered with ⟨added, m⟩
    subst he
    exact absurd ha (answerError_ne_ok hne event.id)

/-- A receipt of an event of the DAG is idempotent only while the manager is warming up and makes
the event wait for a parent that it has lost. -/
theorem idempotent_iff_queues (e : IntakeEngine D) {event : Event} (env : Ambient)
    (hknown : event.id ∈ e.engine.dag.events) :
    (Idempotent e event (e.addEvent H S event env) ↔
        e.manager.Queues event ∧ e.Quiet H S event env) ∧
      (Idempotent e event (e.receiveEventFromNetwork H S event env) ↔
        e.manager.Queues event ∧ e.Quiet H S event env) :=
  ⟨e.idempotent_receive_iff H S true env hknown, e.idempotent_receive_iff H S false env hknown⟩

/-! An engine that is not elected, with one event in its DAG. -/

private def knownEvent (parentIds : List EventId) : Event :=
  ⟨"a", .transfer, parentIds, none, none, .none, ⟨∅, 1, 0⟩, "", .pending, none, 0⟩

private def knowing (parentIds : List EventId) (warmingUp : Bool) :
    IntakeEngine (Option Bytes) where
  engine := { (ConsensusEngine.new Blake3.ideal {} "v" .new 0 : ConsensusEngine (Option Bytes))
    with dag := Dag.new.store (knownEvent parentIds) 1 }
  recentCache := .new 15000 DagManagerConfig.default.capacity_pos
  eventStore := .new
  config := .default
  warmingUp := warmingUp
  pendingQueue := []

private def still : Ambient := ⟨0, 0, .ok ()⟩

/-- While warming up, the event waits for its lost parent. -/
theorem idempotent_warmingUp :
    Idempotent (knowing ["lost"] true) (knownEvent ["lost"])
      ((knowing ["lost"] true).addEvent Blake3.ideal Ed25519.ideal (knownEvent ["lost"])
        still) := by
  refine (idempotent_iff_queues Blake3.ideal Ed25519.ideal (knowing ["lost"] true) still
    (by decide +kernel)).1.mpr ⟨⟨rfl, ⟨"lost", List.mem_cons_self, by rfl⟩, by decide⟩, ?_, ?_⟩
  · rfl
  · rfl

/-- The DAG's refusal of a known event reaches the sender. -/
theorem addEvent_known :
    (knownEvent []).id ∈ (knowing [] false).engine.dag.events ∧
      ((knowing [] false).addEvent Blake3.ideal Ed25519.ideal (knownEvent []) still).answer =
        .error "DAG error: Duplicate event: a" ∧
      ((knowing [] false).receiveEventFromNetwork Blake3.ideal Ed25519.ideal (knownEvent [])
        still).answer = .error "DAG error: Duplicate event: a" := by
  decide +kernel

end IntakeEngine

end Setu.Consensus
