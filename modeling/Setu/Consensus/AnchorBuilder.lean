import Setu.Consensus.Dag
import Setu.Consensus.Router
import Setu.State.Manager
import Setu.Types.Consensus

/-!
# The anchor builder

Library `Consensus`. An anchor is prepared on a copy of the state, committed by its leader once
its frame is final, and verified and applied by followers. Clock readings, and the storage
backend's answers to a commit, are arguments. Source `consensus/src/anchor_builder.rs`.
-/

namespace Setu.Consensus

open Setu.Base Setu.Types Setu.Merkle Setu.State

variable {D : Type}

/-- A written object with its subnet, `anchor_builder.rs:51`. -/
abbrev ClaimedWriteKey := SubnetId × HashValue

variable (H : Blake3 D)

/-- `anchor_builder.rs:65-80`. -/
def collectEventWriteKeys (event : Event) : HashSet ClaimedWriteKey :=
  match event.executionResult with
  | none => ∅
  | some result =>
    if !result.success then ∅
    else (∅ : HashSet ClaimedWriteKey).insertAll (result.stateChanges.map fun change ↦
      ((changeTarget change event.getSubnetId, parseStateChangeKey H change.key), ()))

/-- State of the greedy scan, `anchor_builder.rs:112-114`. -/
structure FoldScan where
  claimed : HashSet ClaimedWriteKey
  kept : List Event
  deferred : List Event

/-- The body of the scan, `anchor_builder.rs:116-127`. -/
def FoldScan.step (scan : FoldScan) (event : Event) : FoldScan :=
  let writeKeys := collectEventWriteKeys H event
  if writeKeys.keys.any fun key ↦ decide (key ∈ scan.claimed) then
    { scan with deferred := scan.deferred ++ [event] }
  else
    { scan with
      claimed := scan.claimed.insertAll writeKeys.toList
      kept := scan.kept ++ [event] }

/-- `anchor_builder.rs:99-130`: kept and deferred events. -/
def applyStrictSameKeyFoldPolicy (events : List Event) : List Event × List Event :=
  let scan := (sortOn eventOrder events).foldl (FoldScan.step H) ⟨∅, [], []⟩
  (scan.kept, scan.deferred)

/-- `merkle_integration.rs:49-66`. -/
def computeEventsRoot (events : List Event) : D :=
  if events.isEmpty then H.zero
  else (BinaryMerkleTree.build H ((sortOn eventOrder events).map (strBytes ·.id))).root H

/-- Changes of one event, `anchor_builder.rs:138-142`. -/
structure StateChangeEntry where
  eventId : EventId
  subnetId : SubnetId
  changes : List StateChange

/-- The builder without its state trees, `anchor_builder.rs:146-152`. -/
structure BuilderStateSnapshot (D : Type) where
  lastAnchorId : Option AnchorId
  anchorDepth : UInt64
  lastFoldVlc : UInt64
  lastAnchorChainRoot : D
  totalAnchorCount : UInt64

/-- A prepared anchor, `anchor_builder.rs:159-183`. -/
structure PendingAnchorBuild (D : Type) where
  anchor : Anchor D
  routedEvents : RoutedEvents
  pendingStateChanges : HashMap SubnetId (List StateChangeEntry)
  preBuildSnapshot : BuilderStateSnapshot D
  eventsRoot : D
  newAnchorChainRoot : D
  newAnchorDepth : UInt64
  newLastFoldVlc : UInt64

/-- `anchor_builder.rs:187-197`. -/
def PendingAnchorBuild.allEvents (pending : PendingAnchorBuild D) : List Event :=
  pending.routedEvents.allEvents

/-- Why an anchor was not built or applied, `anchor_builder.rs:217-242`. -/
inductive AnchorBuildError (D : Type) where
  | insufficientEvents (required found : Nat)
  | deltaNotReached (required current : UInt64)
  | merkleError (reason : String)
  | noEvents
  | snapshotMismatch (expectedDepth actualDepth : UInt64)
  | missingEvents (expected found : Nat)
  | rootMismatch (expected actual : D)

/-- `Display` of an error, `anchor_builder.rs:245-289`. -/
def AnchorBuildError.toString : AnchorBuildError D → String
  | insufficientEvents required found =>
    s!"Insufficient events: required {required}, found {found}"
  | deltaNotReached required current =>
    s!"VLC delta not reached: required {required}, current {current}"
  | merkleError reason => s!"Merkle error: {reason}"
  | noEvents => "No events to process"
  | snapshotMismatch expectedDepth actualDepth =>
    s!"Snapshot mismatch: expected depth {expectedDepth}, actual {actualDepth}"
  | missingEvents expected found => s!"Missing events: expected {expected}, found {found}"
  | rootMismatch expected actual =>
    let expected := hexEncode (H.asBytes expected)
    let actual := hexEncode (H.asBytes actual)
    s!"Root mismatch: expected \"{expected}\", actual \"{actual}\""

/-- A committed build, kept for diagnostics, `anchor_builder.rs:206-213`. -/
structure AnchorBuildResult (D : Type) where
  anchor : Anchor D
  stateSummary : StateApplySummary D
  routedEvents : RoutedEvents

/-- Verdict on one event, `types/src/execution_outcome.rs:20-42`. -/
inductive ExecutionOutcome where
  | applied (cfId : String)
  | executionFailed (cfId : String) (reason : Option String)
  | staleRead (cfId conflictingObject retryHint : String)
  deriving DecidableEq

/-- Verdict on an event from the summary of its batch, `anchor_builder.rs:419-447`. -/
def outcomeOf (cfId : String) (summary : StateApplySummary D) (event : Event) : ExecutionOutcome :=
  if event.eventType = .genesis then .applied cfId
  else
    -- collecting records into a map keeps the last one of an event
    match summary.conflictedEvents.reverse.find? (·.eventId = event.id) with
    | some record =>
      .staleRead cfId record.conflictingObject
        s!"object {record.conflictingObject} was concurrently modified; re-read and retry"
    | none =>
      if summary.failedEvents.contains event.id then
        .executionFailed cfId (event.executionResult.bind (·.message))
      else .applied cfId

/-- The builder with the write side of the shared state, `anchor_builder.rs:305-338`. Instants
are milliseconds; the sink is the log of recorded verdicts. -/
structure AnchorBuilder (D : Type) where
  config : ConsensusConfig
  manager : GlobalStateManager D
  lastAnchor : Option (Anchor D)
  anchorDepth : UInt64
  lastFoldVlc : UInt64
  lastAnchorChainRoot : D
  totalAnchorCount : UInt64
  lastFoldInstant : Option Nat
  outcomesSink : Option (List (EventId × ExecutionOutcome))

namespace AnchorBuilder

variable [DecidableEq D] (H : Blake3 D)

/-- `anchor_builder.rs:342-356`. -/
def new (config : ConsensusConfig) : AnchorBuilder D where
  config := config
  manager := .new H
  lastAnchor := none
  anchorDepth := 0
  lastFoldVlc := 0
  lastAnchorChainRoot := H.zero
  totalAnchorCount := 0
  lastFoldInstant := none
  outcomesSink := none

variable (b : AnchorBuilder D)

/-- `anchor_builder.rs:381-386`. -/
def shouldFold (vlc : VLCSnapshot) : Bool :=
  b.config.vlcDeltaThreshold.toNat ≤ vlc.logicalTime.toNat - b.lastFoldVlc.toNat

/-- `anchor_builder.rs:501-509`. -/
def takeSnapshot : BuilderStateSnapshot D where
  lastAnchorId := b.lastAnchor.map (·.id)
  anchorDepth := b.anchorDepth
  lastFoldVlc := b.lastFoldVlc
  lastAnchorChainRoot := b.lastAnchorChainRoot
  totalAnchorCount := b.totalAnchorCount

/-- `anchor_builder.rs:512-517`; the anchor count is not compared. -/
def verifySnapshot (snapshot : BuilderStateSnapshot D) : Bool :=
  b.anchorDepth = snapshot.anchorDepth && b.lastFoldVlc = snapshot.lastFoldVlc &&
    b.lastAnchorChainRoot = snapshot.lastAnchorChainRoot &&
    b.lastAnchor.map (·.id) = snapshot.lastAnchorId

/-- `anchor_builder.rs:406-450`. -/
def ingestOutcomes (cfId : String) (events : List Event) (summary : StateApplySummary D)
    : AnchorBuilder D :=
  { b with
    outcomesSink := b.outcomesSink.map
      (· ++ events.map fun event ↦ (event.id, outcomeOf cfId summary event)) }

variable (events : List Event)

/-- `anchor_builder.rs:1257-1275`. -/
def collectStateChanges : HashMap SubnetId (List StateChangeEntry) :=
  events.foldl (fun changes event ↦
    match event.executionResult with
    | none => changes
    | some result =>
      if result.success && !result.stateChanges.isEmpty then
        changes.pushAt event.getSubnetId ⟨event.id, event.getSubnetId, result.stateChanges⟩
      else changes) ∅

/-- `anchor_builder.rs:1293-1318`: a dry run on a copy. -/
def computeStateRootFromEvents : D × HashMap SubnetId D :=
  ((b.manager.clone.applyCommittedEvents H events 0).1).computeGlobalRoot H

/-- The Merkle roots of a prepared anchor, `anchor_builder.rs:643-669`; the chain root is the
one before the anchor. -/
def buildMerkleRoots : AnchorMerkleRoots D :=
  let stateRoots := b.computeStateRootFromEvents H events
  ⟨computeEventsRoot H events, stateRoots.1, b.lastAnchorChainRoot, stateRoots.2⟩

/-- `anchor_builder.rs:631-707`. -/
def prepareBuildInternal (vlc : VLCSnapshot) (toDepth now : UInt64)
    : PendingAnchorBuild D :=
  let anchor := Anchor.withMerkleRoots H (events.map (·.id)) vlc (b.buildMerkleRoots H events)
    (b.lastAnchor.map (·.id)) toDepth now
  { anchor := anchor
    routedEvents := .routeEvents events
    pendingStateChanges := collectStateChanges events
    preBuildSnapshot := b.takeSnapshot
    eventsRoot := computeEventsRoot H events
    newAnchorChainRoot := chainHash H b.lastAnchorChainRoot (anchor.computeHash H)
    newAnchorDepth := toDepth + 1
    newLastFoldVlc := vlc.logicalTime }

/-- Event selection shared by both ways of preparing, `anchor_builder.rs:566-600` and
`anchor_builder.rs:1388-1421`. -/
def selectEvents (dag : Dag) (inFlight : HashSet EventId) :
    Except (AnchorBuildError D) (List Event) :=
  let candidates := dag.getPendingEvents.filter fun event ↦ !decide (event.id ∈ inFlight)
  let events := (applyStrictSameKeyFoldPolicy H candidates).1.take b.config.maxEventsPerCf
  if events.length < b.config.minEventsPerCf then
    .error (.insufficientEvents b.config.minEventsPerCf events.length)
  else if events.isEmpty then .error .noEvents
  else .ok events

/-- `anchor_builder.rs:536-603`. -/
def prepareBuild (dag : Dag) (vlc : VLCSnapshot) (inFlight : HashSet EventId) (now : UInt64) :
    Except (AnchorBuildError D) (PendingAnchorBuild D) :=
  let delta := vlc.logicalTime.toNat - b.lastFoldVlc.toNat
  if delta < b.config.vlcDeltaThreshold.toNat then
    .error (.deltaNotReached b.config.vlcDeltaThreshold (UInt64.ofNat delta))
  else do
    let events ← b.selectEvents H dag inFlight
    .ok (b.prepareBuildInternal H events vlc dag.maxDepth now)

/-- `anchor_builder.rs:1351-1355`, in milliseconds. -/
def elapsedSinceLastFold (instant : Nat) : Nat :=
  match b.lastFoldInstant with
  | some last => instant - last
  | none => (2 ^ 64 - 1) * 1000

/-- `anchor_builder.rs:1372-1424`. -/
def prepareBuildHeartbeat (dag : Dag) (vlc : VLCSnapshot) (heartbeatInterval instant : Nat)
    (inFlight : HashSet EventId) (now : UInt64) :
    Except (AnchorBuildError D) (PendingAnchorBuild D) :=
  if b.elapsedSinceLastFold instant < heartbeatInterval then
    let delta := vlc.logicalTime.toNat - b.lastFoldVlc.toNat
    .error (.deltaNotReached b.config.vlcDeltaThreshold (UInt64.ofNat delta))
  else do
    let events ← b.selectEvents H dag inFlight
    .ok (b.prepareBuildInternal H events vlc dag.maxDepth now)

/-- Apply events and commit under one lock, `anchor_builder.rs:787-845`. A refused commit leaves
the events applied in memory. -/
def applyAndCommit (finalizedDepth : UInt64) (answer : Except MerkleError Unit) :
    Except (AnchorBuildError D) (StateApplySummary D) × AnchorBuilder D :=
  let applied := b.manager.applyCommittedEvents H events finalizedDepth
  let committed := applied.1.commit H (b.anchorDepth + 1) answer
  match committed.1 with
  | .ok () => (.ok applied.2, { b with manager := committed.2 })
  | .error e => (.error (.merkleError e.toString), { b with manager := committed.2 })

/-- `anchor_builder.rs:732-875`. -/
def commitBuild (pending : PendingAnchorBuild D) (answer : Except MerkleError Unit)
    (instant : Nat) : Except (AnchorBuildError D) (StateApplySummary D) × AnchorBuilder D :=
  if !b.verifySnapshot pending.preBuildSnapshot then
    (.error (.snapshotMismatch pending.preBuildSnapshot.anchorDepth b.anchorDepth), b)
  else
    let committed := b.applyAndCommit H pending.allEvents pending.newAnchorDepth answer
    match committed.1 with
    | .error e => (.error e, committed.2)
    | .ok summary =>
      let recorded := committed.2.ingestOutcomes pending.anchor.id pending.allEvents summary
      (.ok summary,
        { recorded with
          lastAnchor := some pending.anchor
          anchorDepth := pending.newAnchorDepth
          lastFoldVlc := pending.newLastFoldVlc
          lastAnchorChainRoot := pending.newAnchorChainRoot
          totalAnchorCount := recorded.totalAnchorCount + 1
          lastFoldInstant := some instant })

/-- `anchor_builder.rs:1438-1453`. The chain root continues the
one the anchor declares. -/
def synchronizeFinalizedAnchor (anchor : Anchor D) (instant : Nat) : AnchorBuilder D :=
  { b with
    lastAnchorChainRoot :=
      match anchor.merkleRoots with
      | some roots => chainHash H roots.anchorChainRoot (anchor.computeHash H)
      | none => b.lastAnchorChainRoot
    lastAnchor := some anchor
    anchorDepth := anchor.depth + 1
    lastFoldVlc := anchor.vlcSnapshot.logicalTime
    totalAnchorCount := b.totalAnchorCount + 1
    lastFoldInstant := some instant }

/-- Verify the declared state root on a copy, then apply, `anchor_builder.rs:918-1016`. -/
def verifyAndApply (anchor : Anchor D) (answer : Except MerkleError Unit) :
    Except (AnchorBuildError D) (StateApplySummary D) × AnchorBuilder D :=
  match anchor.merkleRoots with
  | none => b.applyAndCommit H events (anchor.depth + 1) answer
  | some roots =>
    let verified := b.manager.clone.applyCommittedEvents H events (anchor.depth + 1)
    let expectedRoot := (verified.1.computeGlobalRoot H).1
    if expectedRoot ≠ roots.globalStateRoot then
      (.error (.rootMismatch expectedRoot roots.globalStateRoot), b)
    else b.applyAndCommit H events (anchor.depth + 1) answer

/-- `anchor_builder.rs:885-1039`. -/
def applyFollowerFinalizedCf (cf : ConsensusFrame D) (answer : Except MerkleError Unit)
    (instant : Nat) : Except (AnchorBuildError D) (StateApplySummary D) × AnchorBuilder D :=
  if events.length ≠ cf.anchor.eventIds.length then
    (.error (.missingEvents cf.anchor.eventIds.length events.length), b)
  else
    let applied := b.verifyAndApply H events cf.anchor answer
    match applied.1 with
    | .error e => (.error e, applied.2)
    | .ok summary =>
      let recorded := applied.2.ingestOutcomes cf.anchor.id events summary
      (.ok summary, recorded.synchronizeFinalizedAnchor H cf.anchor instant)

end AnchorBuilder

end Setu.Consensus
