import Setu.Base.Loop
import Setu.Base.LruCache
import Setu.Consensus.Dag
import Setu.Types.Consensus

/-!
# The DAG manager

Library `Consensus`. Events are kept in three layers: the active DAG, a cache of finalized events
and the event store. An event is added below parents found in any layer; once its anchor is
finalized it moves to the cache and is collected from the DAG. Sources `consensus/src/dag.rs`,
`consensus/src/recent_cache.rs`, `consensus/src/dag_manager.rs` and
`storage/src/memory/event_store.rs`.
-/

namespace Setu.Consensus

open Setu.Base Setu.Types

namespace Dag

variable (dag : Dag) (id : EventId)

/-- `dag.rs:212-223`. -/
def hasActiveChildren : Bool :=
  match dag.children.lookup id with
  | none => false
  | some children =>
    children.keys.any fun childId ↦
      match dag.events.lookup childId with
      | some event => decide (event.status ≠ .finalized)
      | none => false

/-- Take an event out of the children of a parent, `dag.rs:310-316`. -/
def unlinkParent (eventId : EventId) (children : HashMap EventId (HashSet EventId))
    (parentId : EventId) : HashMap EventId (HashSet EventId) :=
  match children.lookup parentId with
  | some siblings => children.insert parentId (siblings.erase eventId)
  | none => children

/-- The DAG without an event, `dag.rs:304-319`. -/
def without (parentIds : List EventId) : Dag where
  events := dag.events.erase id
  children := (parentIds.foldl (unlinkParent id) dag.children).erase id
  depths := dag.depths.erase id
  tips := dag.tips.erase id
  maxDepth := dag.maxDepth
  pending := dag.pending.erase id
  keyed h := dag.keyed (HashMap.lookup_of_lookup_erase h)

/-- `dag.rs:297-322`, with the parents of the event it removes. -/
def removeEvent : Option (List EventId × Dag) :=
  if dag.hasActiveChildren id then none
  else (dag.events.lookup id).map fun event ↦ (event.parentIds, dag.without id event.parentIds)

/-- Whether a parent is queued once a child of it was removed, `dag.rs:346-350`. -/
def isFinalized : Bool :=
  match dag.events.lookup id with
  | some event => decide (event.status = .finalized)
  | none => false

/-- The collector's state: the DAG, the queue and the counts of removed and retained events. -/
structure Collector where
  dag : Dag
  queue : List EventId
  removed : Nat
  retained : Nat

/-- The body of the loop of `gc_finalized_events`, `dag.rs:335-363`. -/
def Collector.step (targets : List EventId) (s : Collector) : Option Collector :=
  match s.queue with
  | [] => none
  | id :: rest =>
    match s.dag.removeEvent id with
    | some (parentIds, dag) => some ⟨dag, rest ++ parentIds.filter dag.isFinalized, s.removed + 1,
        s.retained⟩
    | none =>
      let kept := decide (id ∈ targets) && decide (id ∈ s.dag.events)
      some ⟨s.dag, rest, s.removed, if kept then s.retained + 1 else s.retained⟩

/-- The rounds the collector can take: one for each event and each of its parents, and one for
each event in the queue. -/
def Collector.rounds (s : Collector) : Nat :=
  s.dag.events.sumOver (fun event ↦ event.parentIds.length + 1) + s.queue.length

/-- `dag.rs:328-366`: the collector runs until its queue is empty. -/
def gcFinalizedEvents (ids : List EventId) : Option Collector :=
  let start : Collector := ⟨dag, ids, 0, 0⟩
  loop (Collector.step ids) (start.rounds + 1) start

end Dag

/-- What the cache keeps of a finalized event, `recent_cache.rs:27-39`. -/
structure FinalizedEventMeta where
  depth : UInt64
  anchorId : AnchorId
  finalizedAt : UInt64
  parentIds : List EventId

/-- `recent_cache.rs:132-141`, without its statistics. -/
abbrev RecentEventCache := LruCache EventId FinalizedEventMeta

/-- The event store, `memory/event_store.rs:25-32`, without the indexes by creator and status. -/
structure EventStore where
  events : HashMap EventId Event
  depths : HashMap EventId UInt64

namespace EventStore

/-- `memory/event_store.rs:36-43`. -/
def new : EventStore := ⟨∅, ∅⟩

variable (s : EventStore)

/-- `memory/event_store.rs:46-67`: an event without a depth. -/
def store (event : Event) : EventStore :=
  { s with events := s.events.insert event.id event }

/-- `memory/event_store.rs:161-163`. -/
def getDepth (id : EventId) : Option UInt64 := s.depths.lookup id

/-- `memory/event_store.rs:200-202`. -/
def getParentIds (id : EventId) : Option (List EventId) :=
  (s.events.lookup id).map (·.parentIds)

/-- The body of the loop of `store_batch_with_depth`, `memory/event_store.rs:260-292`: of a known
event only the depth is written. -/
def storeWithDepth (entry : Event × UInt64) : EventStore where
  events := if entry.1.id ∈ s.events then s.events else s.events.insert entry.1.id entry.1
  depths := s.depths.insert entry.1.id entry.2

/-- `memory/event_store.rs:250-295`. -/
def storeBatchWithDepth (entries : List (Event × UInt64)) : EventStore :=
  entries.foldl storeWithDepth s

end EventStore

/-- `dag_manager.rs:25-42`, as far as the manager reads it. The capacity of
the cache is not zero. -/
structure DagManagerConfig where
  recentCacheCapacity : Nat
  maxCrossCfDepth : UInt64
  enableDiskFallback : Bool
  maxPendingQueueSize : Nat
  capacity_pos : 0 < recentCacheCapacity

/-- `dag_manager.rs:44-54`. -/
def DagManagerConfig.default : DagManagerConfig := ⟨15000, 200, true, 10000, by decide⟩

/-- Where a parent was found, `dag_manager.rs:57-67`. -/
inductive ParentInfo where
  | inDag (depth : UInt64)
  | inCache (depth : UInt64) (anchorId : AnchorId)
  | inStore (depth : UInt64)

/-- The depth a parent was found at. -/
def ParentInfo.depth : ParentInfo → UInt64
  | inDag depth => depth
  | inCache depth _ => depth
  | inStore depth => depth

/-- `dag_manager.rs:71-77`. -/
structure ResolvedParents where
  results : List (EventId × ParentInfo)
  newEventDepth : UInt64

/-- `dag_manager.rs:99-125`. -/
inductive DagManagerError where
  | missingParent (id : EventId)
  | parentTooOld (parentId : EventId) (depthDiff maxAllowed : UInt64)
  | parentGCed (id : EventId)
  | duplicateEvent (id : EventId)
  | warmupQueueFull (maxSize : Nat)
  | dag (error : DagError)
  | internal (reason : String)

/-- `dag_manager.rs:142-171`. -/
structure DagManager where
  dag : Dag
  recentCache : RecentEventCache
  eventStore : EventStore
  config : DagManagerConfig
  minDepth : UInt64
  warmingUp : Bool
  pendingQueue : List Event

namespace DagManager

/-- `dag_manager.rs:175-193`. -/
def new (config : DagManagerConfig) : DagManager where
  dag := .new
  recentCache := .new config.recentCacheCapacity config.capacity_pos
  eventStore := .new
  config := config
  minDepth := 0
  warmingUp := false
  pendingQueue := []

variable (m : DagManager)

/-- `dag_manager.rs:249-277`. A lookup in the cache is a use of the entry. -/
def queryParent (parentId : EventId) : Option ParentInfo × DagManager :=
  match m.dag.depths.lookup parentId with
  | some depth => (some (.inDag depth), m)
  | none =>
    let (found, cache) := m.recentCache.get parentId
    let m := { m with recentCache := cache }
    match found with
    | some info => (some (.inCache info.depth info.anchorId), m)
    | none =>
      if m.config.enableDiskFallback then ((m.eventStore.getDepth parentId).map .inStore, m)
      else (none, m)

/-- Phase 1 of `resolve_parents`, `dag_manager.rs:288-304`. -/
def queryParents (m : DagManager) :
    List EventId → Except DagManagerError (List (EventId × ParentInfo)) × DagManager
  | [] => (.ok [], m)
  | parentId :: rest =>
    match m.queryParent parentId with
    | (none, m) => (.error (.missingParent parentId), m)
    | (some info, m) =>
      let (results, m) := m.queryParents rest
      (results.map ((parentId, info) :: ·), m)

/-- The depth below the parents, at least the floor, `dag_manager.rs:311-349`. -/
def newEventDepth (results : List (EventId × ParentInfo)) : UInt64 :=
  let depth :=
    if results.isEmpty then
      if m.dag.events.keys.isEmpty && m.dag.maxDepth == 0 then 0 else m.dag.maxDepth + 1
    else (results.foldl (fun deepest result ↦ max deepest result.2.depth) 0) + 1
  max depth m.minDepth

/-- The limit on the age of parents outside of the DAG, `dag_manager.rs:361-378`. -/
def checkDepthDiff (depth : UInt64) (result : EventId × ParentInfo) : Except DagManagerError Unit :=
  match result.2 with
  | .inDag _ => .ok ()
  | .inCache parentDepth _ | .inStore parentDepth =>
    let depthDiff := if parentDepth ≤ depth then depth - parentDepth else 0
    if m.config.maxCrossCfDepth < depthDiff then
      .error (.parentTooOld result.1 depthDiff m.config.maxCrossCfDepth)
    else .ok ()

variable (event : Event)

/-- `dag_manager.rs:283-384`. -/
def resolveParents : Except DagManagerError ResolvedParents × DagManager :=
  let (results, m) := m.queryParents event.parentIds
  (do
    let results ← results
    let depth := m.newEventDepth results
    results.forM (m.checkDepthDiff depth)
    pure ⟨results, depth⟩, m)

/-- A parent found in the DAG must still be there, `dag_manager.rs:423-429`. -/
def checkResident (result : EventId × ParentInfo) : Except DagManagerError Unit :=
  match result.2 with
  | .inDag _ => if result.1 ∈ m.dag.events then .ok () else .error (.parentGCed result.1)
  | _ => .ok ()

/-- Phase 3 of `add_event`, `dag_manager.rs:417-437`. A refusal of the DAG is wrapped by the
conversion of its error. -/
def writeResolved (resolved : ResolvedParents) :
    Except DagManagerError DagManager := do
  resolved.results.forM m.checkResident
  let dag ← (m.dag.addEventWithDepth event resolved.newEventDepth).mapError .dag
  pure { m with dag := dag }

/-- Phases 1 to 3 of `add_event`, `dag_manager.rs:412-438`. -/
def addResolving : Except DagManagerError EventId × DagManager :=
  let (resolved, m) := m.resolveParents event
  match resolved with
  | .error e => (.error e, m)
  | .ok resolved =>
    match m.writeResolved event resolved with
    | .error e => (.error e, m)
    | .ok m => (.ok event.id, m)

/-- `dag_manager.rs:389-439`: while warming up, events with missing parents wait. -/
def addEvent : Except DagManagerError EventId × DagManager :=
  if m.warmingUp then
    let (resolved, m) := m.resolveParents event
    match resolved with
    | .ok _ => m.addResolving event
    | .error (.missingParent _) =>
      if m.config.maxPendingQueueSize ≤ m.pendingQueue.length then
        (.error (.warmupQueueFull m.config.maxPendingQueueSize), m)
      else (.ok event.id, { m with pendingQueue := m.pendingQueue ++ [event] })
    | .error e => (.error e, m)
  else m.addResolving event

/-- The attempts of `add_event_with_retry`, `dag_manager.rs:445-457`, the last one counting down
to zero. -/
def addEventAttempts (m : DagManager) (event : Event) :
    Nat → Except DagManagerError EventId × DagManager
  | 0 => m.addEvent event
  | attempts + 1 =>
    match m.addEvent event with
    | (.error (.parentGCed _), m) => m.addEventAttempts event attempts
    | answer => answer

/-- `dag_manager.rs:442-463`, with `MAX_RETRY` attempts. -/
def addEventWithRetry : Except DagManagerError EventId × DagManager :=
  m.addEventAttempts event 2

/-- `dag_manager.rs:473-482`. -/
def updateMinDepth (depth : UInt64) : DagManager :=
  { m with minDepth := max m.minDepth depth }

variable {D : Type}

/-- The body of the loop that fills the cache, `dag_manager.rs:524-547`; an event without a depth
is a panic. -/
def cacheFinalized (dag : Dag) (anchorId : AnchorId) (now : UInt64) (cache : RecentEventCache)
    (id : EventId) : Option RecentEventCache :=
  match dag.getEvent id with
  | none => some cache
  | some event =>
    (dag.depths.lookup id).map fun depth ↦ cache.put id ⟨depth, anchorId, now, event.parentIds⟩

/-- `dag_manager.rs:504-564`; `none` is a panic or a collector that does not
end. -/
def onAnchorFinalized (m : DagManager) (anchor : Anchor D) (now : UInt64) :
    Option (Dag.Collector × DagManager) := do
  let m := m.updateMinDepth (anchor.depth + 1)
  let dag := m.dag.finalizeEvents anchor.eventIds
  let cache ← anchor.eventIds.foldlM (cacheFinalized dag anchor.id now) m.recentCache
  let collected ← dag.gcFinalizedEvents anchor.eventIds
  pure (collected, { m with dag := collected.dag, recentCache := cache })

/-- The events of an anchor with their depths, as they are persisted, `persistence.rs:219-233`. -/
def eventsWithDepths (ids : List EventId) : List (Event × UInt64) :=
  ids.filterMap fun id ↦ do
    let event ← m.dag.getEvent id
    let depth ← m.dag.depths.lookup id
    pure (event, depth)

/-- One event of `warmup_from_anchors`, `dag_manager.rs:609-624`. -/
def warmupEvent (store : EventStore) (anchor : Anchor D) (cache : RecentEventCache)
    (id : EventId) : RecentEventCache :=
  match store.getDepth id, store.getParentIds id with
  | some depth, some parentIds => cache.put id ⟨depth, anchor.id, anchor.timestamp, parentIds⟩
  | _, _ => cache

/-- `dag_manager.rs:602-631`. -/
def warmupFromAnchors (m : DagManager) (anchors : List (Anchor D)) : DagManager :=
  { m with
    recentCache := anchors.foldl (fun cache anchor ↦
      anchor.eventIds.foldl (warmupEvent m.eventStore anchor) cache) m.recentCache }

end DagManager

end Setu.Consensus
