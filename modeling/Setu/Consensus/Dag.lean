import Setu.Types.Event

/-!
# The event DAG

Library `Consensus`. Events by identifier with their children, depths and tips, and the
identifiers not yet finalized, from which anchors are built. Source
`consensus/src/dag.rs:20-279`.
-/

namespace Setu.Consensus

open Setu.Base Setu.Types

/-- The DAG, `dag.rs:20-38`. An event is only ever stored under its own identifier. -/
structure Dag where
  events : HashMap EventId Event
  children : HashMap EventId (HashSet EventId)
  depths : HashMap EventId UInt64
  tips : HashSet EventId
  maxDepth : UInt64
  pending : HashSet EventId
  keyed : ∀ {id event}, events.lookup id = some event → event.id = id

/-- Why an event was not added, `dag.rs:468-482`. -/
inductive DagError where
  | duplicateEvent (id : EventId)
  | missingParent (id : EventId)
  deriving DecidableEq

namespace Dag

/-- `dag.rs:42-51`. -/
def new : Dag where
  events := ∅
  children := ∅
  depths := ∅
  tips := ∅
  maxDepth := 0
  pending := ∅
  keyed h := by cases h

variable (dag : Dag)

/-- `dag.rs:99-101`. -/
def getEvent (id : EventId) : Option Event := dag.events.lookup id

/-- `dag.rs:150-155`. -/
def getPendingEvents : List Event := dag.pending.keys.filterMap dag.getEvent

/-- Make an event a child of a parent, `dag.rs:79-84` and `dag.rs:255-262`. -/
def linkParent (eventId : EventId) (dag : Dag) (parentId : EventId) : Dag :=
  { dag with
    children := dag.children.insert parentId
      (((dag.children.lookup parentId).getD ∅).insert eventId ())
    tips := dag.tips.erase parentId }

/-- Store an event at a depth, `dag.rs:88-93` and `dag.rs:270-275`. -/
def store (event : Event) (depth : UInt64) : Dag where
  events := dag.events.insert event.id event
  children := dag.children
  depths := dag.depths.insert event.id depth
  tips := dag.tips.insert event.id ()
  maxDepth := max dag.maxDepth depth
  pending := dag.pending.insert event.id ()
  keyed := by
    intro id found h
    rcases HashMap.lookup_insert_cases h with ⟨rfl, rfl⟩ | ⟨-, hold⟩
    · rfl
    · exact dag.keyed hold

/-- `dag.rs:238-279`: parents may have left the DAG. -/
def addEventWithDepth (event : Event) (depth : UInt64) : Except DagError Dag :=
  if event.id ∈ dag.events then .error (.duplicateEvent event.id)
  else
    let resident := event.parentIds.filter fun parentId ↦ decide (parentId ∈ dag.events)
    .ok ((resident.foldl (linkParent event.id) dag).store event depth)

/-- The body of the loop of `finalize_events`, `dag.rs:200-205`. -/
def finalizeEvent (id : EventId) : Dag where
  events :=
    match dag.events.lookup id with
    | some event => dag.events.insert id { event with status := .finalized }
    | none => dag.events
  children := dag.children
  depths := dag.depths
  tips := dag.tips
  maxDepth := dag.maxDepth
  pending := dag.pending.erase id
  keyed := by
    intro id' found h
    split at h
    · next event hevent =>
      have hid : event.id = id := dag.keyed hevent
      rcases HashMap.lookup_insert_cases h with ⟨rfl, rfl⟩ | ⟨-, hold⟩
      · exact hid
      · exact dag.keyed hold
    · exact dag.keyed h

/-- `dag.rs:199-207`. -/
def finalizeEvents (ids : List EventId) : Dag := ids.foldl finalizeEvent dag

/-- The pending events are the resident ones that are marked. -/
theorem mem_getPendingEvents {dag : Dag} {event : Event} :
    event ∈ dag.getPendingEvents ↔
      event.id ∈ dag.pending ∧ dag.events.lookup event.id = some event := by
  rw [getPendingEvents, List.mem_filterMap]
  constructor
  · rintro ⟨id, hid, he⟩
    obtain rfl : event.id = id := dag.keyed he
    exact ⟨AList.mem_keys.mpr hid, he⟩
  · rintro ⟨hid, he⟩
    exact ⟨event.id, AList.mem_keys.mp hid, he⟩

/-- No two pending events share an identifier. -/
theorem nodup_getPendingEvents : (dag.getPendingEvents.map (·.id)).Nodup := by
  unfold getPendingEvents
  rw [List.map_filterMap]
  apply List.Nodup.filterMap _ dag.pending.nodupKeys
  intro a a' id ha ha'
  simp only [Option.mem_def, Option.map_eq_some_iff, getEvent] at ha ha'
  obtain ⟨event, he, rfl⟩ := ha
  obtain ⟨event', he', heq⟩ := ha'
  rw [← dag.keyed he, ← dag.keyed he', heq]

end Dag

end Setu.Consensus
