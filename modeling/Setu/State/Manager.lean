import Mathlib.Data.String.Basic
import Setu.Merkle.Aggregation
import Setu.Merkle.Incremental
import Setu.Types.Event

/-!
# The global state manager

Library `State`. One sparse Merkle tree of object values for each subnet, the conflict-checked
application of committed events, and the batched commit to the storage backend. The backend's
answer to the final batch write is an argument of `commit`. Source
`storage/src/state/manager.rs`.
-/

namespace Setu.State

open Setu.Base Setu.Types Setu.Merkle

/-- Object state of one subnet, `manager.rs:77-86`. -/
structure SubnetStateSMT (D : Type) where
  subnetId : SubnetId
  tree : IncrementalSparseMerkleTree D
  objectCount : UInt64
  lastUpdatedAnchor : UInt64

variable {D : Type} [DecidableEq D] (H : Blake3 D)

namespace SubnetStateSMT

/-- `manager.rs:90-97`. -/
def new (subnetId : SubnetId) : SubnetStateSMT D :=
  ⟨subnetId, IncrementalSparseMerkleTree.new H, 0, 0⟩

variable (smt : SubnetStateSMT D) (objectId : HashValue)

/-- `manager.rs:123-125`. -/
def get : Option Bytes :=
  smt.tree.leaves.lookup objectId

/-- `manager.rs:137-139`. -/
def root : D := smt.tree.rootHash

/-- `manager.rs:106-113`. -/
def upsert (value : Bytes) : SubnetStateSMT D :=
  { smt with
    objectCount := if (smt.get objectId).isNone then smt.objectCount + 1 else smt.objectCount
    tree := (smt.tree.insert H objectId value).1 }

/-- `manager.rs:128-134`. -/
def delete : SubnetStateSMT D :=
  let removed := smt.tree.remove H objectId
  { smt with
    tree := removed.1
    objectCount :=
      if removed.2.isSome && smt.objectCount ≠ 0 then smt.objectCount - 1 else smt.objectCount }

/-- The derived `clone`; the tree's copy forgets its change tracking. -/
def clone : SubnetStateSMT D := { smt with tree := smt.tree.clone }

end SubnetStateSMT

/-- What a `B4Store` keeps: leaves by subnet, the subnet registry, and roots and last anchors
by subnet and anchor. -/
structure B4Store (D : Type) where
  leaves : HashMap SubnetId (HashMap HashValue Bytes)
  subnets : HashSet SubnetId
  subnetRoots : HashMap (SubnetId × UInt64) D
  lastAnchors : HashMap SubnetId UInt64
  globalRoots : HashMap UInt64 D

namespace B4Store

/-- The writes of one subnet's leaf changes, `manager.rs:551-571`. -/
def putChanges (store : B4Store D) (subnetId : SubnetId)
    (changes : IncrementalSparseMerkleTree.LeafChanges) : B4Store D :=
  let leaves := ((store.leaves.lookup subnetId).getD ∅).insertAll changes.upserts
  { store with
    leaves := store.leaves.insert subnetId (changes.deletes.foldl (·.erase ·) leaves) }

/-- The batched writes of one subnet, `manager.rs:547-589`. -/
def putSubnet (anchorId : UInt64) (store : B4Store D) (entry : SubnetId × SubnetStateSMT D) :
    B4Store D :=
  let smt := entry.2
  let written :=
    if smt.tree.hasPendingChanges then store.putChanges entry.1 smt.tree.takeChanges.1 else store
  { written with
    subnets :=
      if 0 < smt.objectCount then written.subnets.insert entry.1 () else written.subnets
    subnetRoots := written.subnetRoots.insert (entry.1, anchorId) smt.root
    lastAnchors := written.lastAnchors.insert entry.1 anchorId }

end B4Store

/-- The state of all subnets, `manager.rs:257-306`. -/
structure GlobalStateManager (D : Type) where
  subnetStates : HashMap SubnetId (SubnetStateSMT D)
  store : Option (B4Store D)
  currentAnchor : UInt64
  modificationTracker : HashMap HashValue (EventId × UInt64)
  lastFinalizedDepth : UInt64

namespace GlobalStateManager

/-- `manager.rs:387-404`. -/
def new : GlobalStateManager D where
  subnetStates :=
    ((∅ : HashMap SubnetId (SubnetStateSMT D)).insert SubnetId.root
      (SubnetStateSMT.new H SubnetId.root)).insert SubnetId.governance
      (SubnetStateSMT.new H SubnetId.governance)
  store := none
  currentAnchor := 0
  modificationTracker := ∅
  lastFinalizedDepth := 0

variable (g : GlobalStateManager D)

/-- `manager.rs:332-350`: a copy for temporary calculations. -/
def clone : GlobalStateManager D where
  subnetStates := g.subnetStates.mapVal SubnetStateSMT.clone
  store := none
  currentAnchor := g.currentAnchor
  modificationTracker := ∅
  lastFinalizedDepth := g.lastFinalizedDepth

variable (subnetId : SubnetId)

/-- The subnet that `get_subnet_mut` hands out, `manager.rs:426-430`: a fresh one if there is
none. -/
def subnet : SubnetStateSMT D :=
  (g.subnetStates.lookup subnetId).getD (SubnetStateSMT.new H subnetId)

/-- `get_subnet_mut` followed by an update of the subnet; the entry exists afterwards. -/
def modifySubnet (f : SubnetStateSMT D → SubnetStateSMT D)
    : GlobalStateManager D :=
  { g with subnetStates := g.subnetStates.insert subnetId (f (g.subnet H subnetId)) }

/-- `get_subnet_mut` for reading only, which still creates a missing subnet. -/
def touchSubnet : GlobalStateManager D :=
  g.modifySubnet H subnetId id

/-- `manager.rs:469-488`. -/
def computeGlobalRoot : D × HashMap SubnetId D :=
  let entries := g.subnetStates.toList.map fun e ↦ (⟨e.1.bytes, e.2.root⟩ : SubnetStateEntry D)
  if entries.isEmpty then (H.zero, ∅)
  else ((SubnetAggregationTree.build H entries).root, g.subnetStates.mapVal SubnetStateSMT.root)

/-- `manager.rs:535-608`. Dirty leaves are drained into the batch before its write is
answered by the backend; without a backend nothing can fail. -/
def commit (anchorId : UInt64) (answer : Except MerkleError Unit) :
    Except MerkleError Unit × GlobalStateManager D :=
  let marked := g.subnetStates.mapVal fun smt ↦ { smt with lastUpdatedAnchor := anchorId }
  match g.store with
  | none => (.ok (), { g with subnetStates := marked, currentAnchor := anchorId })
  | some store =>
    let drained := marked.mapVal SubnetStateSMT.clone
    let written := marked.toList.foldl (B4Store.putSubnet anchorId) store
    let root := ({ g with subnetStates := drained }.computeGlobalRoot H).1
    match answer with
    | .error e => (.error e, { g with subnetStates := drained })
    | .ok () =>
      (.ok (),
        { g with
          subnetStates := drained
          store := some { written with globalRoots := written.globalRoots.insert anchorId root }
          currentAnchor := anchorId })

end GlobalStateManager

/-- Counts and final root for one subnet, `manager.rs:1530-1535`. -/
structure SubnetApplyStats (D : Type) where
  eventCount : Nat
  changeCount : Nat
  eventIds : List EventId
  finalRoot : D

/-- An event refused because of a stale read, `manager.rs:1524-1527`. -/
structure ConflictRecord where
  eventId : EventId
  conflictingObject : String
  deriving DecidableEq

/-- What became of each event, `manager.rs:1503-1516`. -/
structure StateApplySummary (D : Type) where
  subnetStats : HashMap SubnetId (SubnetApplyStats D)
  failedEvents : List EventId
  conflictedEvents : List ConflictRecord
  totalEvents : Nat
  totalChanges : Nat

/-- `StateApplySummary::new`. -/
def StateApplySummary.new : StateApplySummary D := ⟨∅, [], [], 0, 0⟩

/-- `manager.rs:1542-1557`. -/
def StateApplySummary.recordEvent (summary : StateApplySummary D) (subnetId : SubnetId)
    (eventId : EventId) (changesCount : Nat) (newRoot : D) : StateApplySummary D :=
  let stats := (summary.subnetStats.lookup subnetId).getD ⟨0, 0, [], H.zero⟩
  { summary with
    totalEvents := summary.totalEvents + 1
    totalChanges := summary.totalChanges + changesCount
    subnetStats := summary.subnetStats.insert subnetId
      ⟨stats.eventCount + 1, stats.changeCount + changesCount, stats.eventIds ++ [eventId],
        newRoot⟩ }

/-- Object identifier of a state key, `manager.rs:1398-1442`: the bytes after `oid:` if they
are 32, and the digest of the whole key otherwise. -/
def parseStateChangeKey (key : String) : HashValue :=
  let hashed : HashValue := ⟨Vector.ofFn fun i ↦ (H.asBytes (H.hash (strBytes key))).getD i 0⟩
  match key.toList with
  | 'o' :: 'i' :: 'd' :: ':' :: hex =>
    match hexDecode hex with
    | some bytes => if h : bytes.length = 32 then ⟨⟨bytes.toArray, size_toArray_of_length h⟩⟩ else hashed
    | none => hashed
  | _ => hashed

/-- The subnet a change writes to, its event's own unless it names one. -/
def changeTarget (change : StateChange) (subnetId : SubnetId) : SubnetId :=
  change.targetSubnet.getD subnetId

namespace GlobalStateManager

/-- `manager.rs:960-1030`. -/
def applyStateChange (g : GlobalStateManager D) (subnetId : SubnetId) (change : StateChange) :
    GlobalStateManager D :=
  let objectId := parseStateChangeKey H change.key
  match change.newValue with
  | some value => g.modifySubnet H subnetId fun smt ↦ smt.upsert H objectId value
  | none => g.modifySubnet H subnetId fun smt ↦ smt.delete H objectId

/-- `manager.rs:1103-1113`, with the root it returns. -/
def applyExecutionResult (g : GlobalStateManager D) (subnetId : SubnetId)
    (result : ExecutionResult) : GlobalStateManager D × D :=
  let applied := result.stateChanges.foldl
    (fun g change ↦ g.applyStateChange H (changeTarget change subnetId) change) g
  (applied.touchSubnet H subnetId, (applied.subnet H subnetId).root)

/-- Writes already checked within one event; `None` is a deletion. -/
abbrev PendingWrites := HashMap (SubnetId × HashValue) (Option Bytes)

/-- The conflict check of one event, `manager.rs:1202-1283`: the first change whose expected
old value is not the current one, or that creates an existing object. Looking a value up
creates its subnet. -/
def findConflict (subnetId : SubnetId) :
    GlobalStateManager D → PendingWrites → List StateChange → GlobalStateManager D × Option String
  | g, _, [] => (g, none)
  | g, pending, change :: rest =>
    let target := changeTarget change subnetId
    let objectId := parseStateChangeKey H change.key
    let pending' := pending.insert (target, objectId) change.newValue
    match change.oldValue with
    | some expectedOld =>
      match pending.lookup (target, objectId) with
      | some value =>
        if value = some expectedOld then findConflict subnetId g pending' rest
        else (g, some change.key)
      | none =>
        if (g.subnet H target).get objectId = some expectedOld then
          findConflict subnetId (g.touchSubnet H target) pending' rest
        else (g.touchSubnet H target, some change.key)
    | none =>
      if change.newValue.isSome then
        let existsInPending := ((pending.lookup (target, objectId)).map Option.isSome).getD false
        if existsInPending || ((g.subnet H target).get objectId).isSome then
          (g.touchSubnet H target, some change.key)
        else findConflict subnetId (g.touchSubnet H target) pending' rest
      else
        -- a deletion whose old value was lost is applied unchecked
        findConflict subnetId g pending' rest

/-- The body of the event loop, `manager.rs:1179-1307`. -/
def applyEvent (finalizedDepth : UInt64) (state : GlobalStateManager D × StateApplySummary D)
    (event : Event) : GlobalStateManager D × StateApplySummary D :=
  match event.executionResult with
  | none => state
  | some result =>
    if !result.success then
      (state.1, { state.2 with failedEvents := state.2.failedEvents ++ [event.id] })
    else
      let checked := state.1.findConflict H event.getSubnetId ∅ result.stateChanges
      match checked.2 with
      | some key =>
        (checked.1,
          { state.2 with conflictedEvents := state.2.conflictedEvents ++ [⟨event.id, key⟩] })
      | none =>
        let applied := checked.1.applyExecutionResult H event.getSubnetId result
        ({ applied.1 with
            modificationTracker := applied.1.modificationTracker.insertAll
              (result.stateChanges.map fun change ↦
                (parseStateChangeKey H change.key, (event.id, finalizedDepth))) },
          state.2.recordEvent H event.getSubnetId event.id result.stateChanges.length applied.2)

end GlobalStateManager

/-- Order in which committed events are applied, `manager.rs:1168-1177`. -/
def eventOrder (event : Event) : Nat ×ₗ String :=
  toLex (event.vlcSnapshot.logicalTime.toNat, event.id)

/-- Events with distinct identifiers have distinct places in the order. -/
theorem nodup_map_eventOrder {events : List Event} (hi : (events.map (·.id)).Nodup) :
    (events.map eventOrder).Nodup := by
  rw [List.nodup_map_iff_inj_on hi.of_map]
  intro a ha b hb heq
  exact List.inj_on_of_nodup_map hi ha hb (congrArg (fun key ↦ (ofLex key).2) heq)

/-- `manager.rs:1130-1345`. -/
def GlobalStateManager.applyCommittedEvents (g : GlobalStateManager D) (events : List Event)
    (finalizedDepth : UInt64) : GlobalStateManager D × StateApplySummary D :=
  let started := { g with lastFinalizedDepth := max g.lastFinalizedDepth finalizedDepth }
  (sortOn eventOrder events).foldl (applyEvent H finalizedDepth) (started, .new)

end Setu.State
