import Setu.Consensus.AnchorBuilder

/-!
# The consensus manager

Library `Consensus`. Frames wait for votes, each with the build it came from or the events it
refers to. A quorum finalizes a frame if its state changes apply; rejection, a timeout or a
failed application drop it. Source `consensus/src/folder.rs:89-977`.
-/

namespace Setu.Types.ConsensusFrame

open Setu.Base

variable {D : Type}

/-- Add the votes of validators that have none yet, `folder.rs:439-443` and
`folder.rs:456-460`. -/
def addMissingVotes (cf : ConsensusFrame D) (votes : List Vote) : ConsensusFrame D :=
  votes.foldl (fun cf vote ↦ if vote.validatorId ∈ cf.votes then cf else cf.addVote vote) cf

end Setu.Types.ConsensusFrame

namespace Setu.Consensus

open Setu.Base Setu.Types Setu.Merkle Setu.State

variable {D : Type}

/-- What a call reads from outside: the wall clock, the monotonic clock, both in milliseconds,
and the storage backend's answer if the call commits. -/
structure Ambient where
  now : UInt64
  instant : Nat
  answer : Except MerkleError Unit

/-- On which path an application failed, `folder.rs:93-101`. -/
inductive ApplyFailureRole where
  | leaderCommitError | leaderFollowerFallback | follower
  deriving DecidableEq

/-- A frame that had its quorum but did not apply, `folder.rs:110-116`. -/
structure ApplyFailure where
  cfId : CFId
  anchorId : AnchorId
  anchorDepth : UInt64
  role : ApplyFailureRole
  reason : String
  deriving DecidableEq

/-- What became of a frame, `folder.rs:127-139`. A finalized frame is carried whole besides its
identifier; the source reads it back from `finalized_cfs`. -/
inductive CfLifecycleOutcome (D : Type) where
  | pending
  | finalized (cfId : CFId) (cf : ConsensusFrame D)
  | applyFailed (failure : ApplyFailure)
  | rejected (cfId : CFId)
  | timedOut (cfId : CFId)

/-- The frame a classification finalized. -/
def CfLifecycleOutcome.finalizedFrame : CfLifecycleOutcome D → Option (ConsensusFrame D)
  | .finalized _ cf => some cf
  | _ => none

/-- What the votes and the clock say about a pending frame, `folder.rs:15-19`. -/
inductive CFDecision where
  | finalize | reject | timeout
  deriving DecidableEq

/-- The manager's state, `folder.rs:171-203`. -/
structure ConsensusManager (D : Type) where
  config : ConsensusConfig
  anchorBuilder : AnchorBuilder D
  pendingCfs : HashMap CFId (ConsensusFrame D)
  pendingBuilds : HashMap CFId (PendingAnchorBuild D)
  pendingCfEvents : HashMap CFId (List Event)
  bufferedVotes : HashMap CFId (List Vote)
  finalizedCfs : List (ConsensusFrame D)
  persistedAnchorIds : HashSet AnchorId
  localValidatorId : String
  lastBuildResult : Option (AnchorBuildResult D)
  lastApplyFailure : Option ApplyFailure

namespace ConsensusManager

variable [DecidableEq D] (H : Blake3 D)

/-- `folder.rs:211-226`. -/
def new (config : ConsensusConfig) (validatorId : String) : ConsensusManager D where
  config := config
  anchorBuilder := .new H config
  pendingCfs := ∅
  pendingBuilds := ∅
  pendingCfEvents := ∅
  bufferedVotes := ∅
  finalizedCfs := []
  persistedAnchorIds := ∅
  localValidatorId := validatorId
  lastBuildResult := none
  lastApplyFailure := none

variable (m : ConsensusManager D)

/-- `folder.rs:264-266`. -/
def canStartNewPendingBuild : Bool := m.pendingBuilds.keys.isEmpty

/-- `folder.rs:382-396`. -/
def collectInFlightEventIds : HashSet EventId :=
  let ids := m.pendingBuilds.values.flatMap (·.anchor.eventIds) ++
    m.pendingCfEvents.values.flatMap fun events ↦ events.map (·.id)
  (∅ : HashSet EventId).insertAll (ids.map fun id ↦ (id, ()))

/-- `folder.rs:333-345`. -/
def finalizePendingBuild (build : PendingAnchorBuild D) (round now : UInt64)
    : ConsensusFrame D × ConsensusManager D :=
  let cf := ConsensusFrame.new H round build.anchor m.localValidatorId now
  (cf, { m with
    pendingBuilds := m.pendingBuilds.insert cf.id build
    pendingCfs := m.pendingCfs.insert cf.id cf })

/-- The part common to both ways of proposing: one open build, and a frame if one was
prepared, `folder.rs:296-329` and `folder.rs:360-374`. -/
def propose (round : UInt64) (env : Ambient)
    (prepare : HashSet EventId → Except (AnchorBuildError D) (PendingAnchorBuild D)) :
    Option (ConsensusFrame D) × ConsensusManager D :=
  if !m.canStartNewPendingBuild then (none, m)
  else
    match prepare m.collectInFlightEventIds with
    | .ok build =>
      let proposed := m.finalizePendingBuild H build round env.now
      (some proposed.1, proposed.2)
    | .error _ => (none, m)

/-- `folder.rs:285-330`. -/
def tryCreateCf (dag : Dag) (vlc : VLCSnapshot) (round : UInt64) (env : Ambient)
    : Option (ConsensusFrame D) × ConsensusManager D :=
  m.propose H round env fun inFlight ↦ m.anchorBuilder.prepareBuild H dag vlc inFlight env.now

/-- `folder.rs:349-375`. -/
def tryCreateCfHeartbeat (dag : Dag) (vlc : VLCSnapshot) (heartbeatInterval : Nat)
    (round : UInt64) (env : Ambient) : Option (ConsensusFrame D) × ConsensusManager D :=
  m.propose H round env fun inFlight ↦
    m.anchorBuilder.prepareBuildHeartbeat H dag vlc heartbeatInterval env.instant inFlight env.now

variable (cfId : CFId)

/-- `folder.rs:404-406`. -/
def isFinalizedCf : Bool :=
  m.finalizedCfs.any fun cf ↦ cf.id == cfId

/-- `folder.rs:399-402`. -/
def hasCf : Bool :=
  decide (cfId ∈ m.pendingCfs) || m.isFinalizedCf cfId

/-- `folder.rs:819-821`. -/
def lastFinalizedCf : Option (ConsensusFrame D) :=
  m.finalizedCfs.getLast?

/-- `folder.rs:830-839`: the builder's copy of the configuration
stays. -/
def updateValidatorCount (count : Nat) : ConsensusManager D :=
  { m with config := { m.config with validatorCount := count } }

variable (cf : ConsensusFrame D)

/-- `folder.rs:953-977`. -/
def verifyCfMerkleRoots : Bool :=
  match cf.anchor.merkleRoots with
  | none => true
  | some roots =>
    if cf.anchor.eventIds.isEmpty && roots.eventsRoot != H.zero then false
    else if roots.globalStateRoot == H.zero && !roots.subnetRoots.keys.isEmpty then false
    else if !roots.subnetRoots.keys.isEmpty && !decide (SubnetId.root ∈ roots.subnetRoots) then
      false
    else true

/-- The removals of `gc_finalized_cfs`, `folder.rs:737-751`: the first `excess` persisted
frames go, the others stay. Returns the kept frames and the removed anchor identifiers. -/
def gcScan (persisted : HashSet AnchorId) :
    Nat → List (ConsensusFrame D) → List (ConsensusFrame D) × List AnchorId
  | _, [] => ([], [])
  | 0, cfs => (cfs, [])
  | excess + 1, cf :: cfs =>
    if cf.anchor.id ∈ persisted then
      let rest := gcScan persisted excess cfs
      (rest.1, cf.anchor.id :: rest.2)
    else
      let rest := gcScan persisted (excess + 1) cfs
      (cf :: rest.1, rest.2)

/-- `folder.rs:726-759`. -/
def gcFinalizedCfs : ConsensusManager D :=
  let maxFinalizedCfs := 1000
  if m.finalizedCfs.length ≤ maxFinalizedCfs then m
  else
    let scan := gcScan m.persistedAnchorIds (m.finalizedCfs.length - maxFinalizedCfs)
      m.finalizedCfs
    { m with
      finalizedCfs := scan.1
      persistedAnchorIds := scan.2.foldl (fun ids id ↦ ids.erase id) m.persistedAnchorIds }

/-- `folder.rs:719-723`. -/
def markAnchorPersisted (anchorId : AnchorId) : ConsensusManager D :=
  { m with persistedAnchorIds := m.persistedAnchorIds.insert anchorId () }

/-- Forget a frame with its build and its events, `folder.rs:695-697` and
`folder.rs:703-705`. -/
def discard : ConsensusManager D :=
  { m with
    pendingCfs := m.pendingCfs.erase cfId
    pendingBuilds := m.pendingBuilds.erase cfId
    pendingCfEvents := m.pendingCfEvents.erase cfId }

/-- The decision on a pending frame, `folder.rs:553-566`. -/
def decision (now : UInt64) : Option CFDecision :=
  if cf.checkQuorum m.config.validatorCount then some .finalize
  else if cf.checkRejection m.config.validatorCount then some .reject
  else if cf.isTimeout m.config.cfTimeoutMs now then some .timeout
  else none

/-- Apply the deferred events of a frame the manager did not build,
`folder.rs:649-672`, and the fallback `folder.rs:609-624`. -/
def applyFollower (cfId : CFId) (cf : ConsensusFrame D) (events : List Event)
    (role : ApplyFailureRole) (env : Ambient) : Except ApplyFailure Unit × ConsensusManager D :=
  let applied := m.anchorBuilder.applyFollowerFinalizedCf H events cf env.answer env.instant
  match applied.1 with
  | .ok _ => (.ok (), { m with anchorBuilder := applied.2 })
  | .error e =>
    (.error ⟨cfId, cf.anchor.id, cf.anchor.depth, role, e.toString H⟩,
      { m with anchorBuilder := applied.2 })

/-- Apply a frame that has its quorum, `folder.rs:582-673`: commit the own build, follow when
another frame was committed since, or follow a frame of another proposer. -/
def applyFinalized (cfId : CFId) (cf : ConsensusFrame D) (env : Ambient)
    : Except ApplyFailure Unit × ConsensusManager D :=
  match m.pendingBuilds.lookup cfId with
  | some build =>
    let m := { m with
      pendingBuilds := m.pendingBuilds.erase cfId
      pendingCfEvents := m.pendingCfEvents.erase cfId }
    let committed := m.anchorBuilder.commitBuild H build env.answer env.instant
    let m := { m with anchorBuilder := committed.2 }
    match committed.1 with
    | .ok summary =>
      (.ok (), { m with lastBuildResult := some ⟨cf.anchor, summary, build.routedEvents⟩ })
    | .error (.snapshotMismatch ..) =>
      m.applyFollower H cfId cf build.allEvents .leaderFollowerFallback env
    | .error e =>
      (.error ⟨cfId, cf.anchor.id, cf.anchor.depth, .leaderCommitError, e.toString H⟩, m)
  | none =>
    { m with pendingCfEvents := m.pendingCfEvents.erase cfId }.applyFollower H cfId cf
      ((m.pendingCfEvents.lookup cfId).getD []) .follower env

/-- `folder.rs:546-713`. -/
def classifyFinalization (cfId : CFId) (env : Ambient) :
    CfLifecycleOutcome D × ConsensusManager D :=
  match m.pendingCfs.lookup cfId with
  | none => (.pending, m)
  | some cf =>
    match m.decision cf env.now with
    | none => (.pending, m)
    | some .reject => (.rejected cfId, m.discard cfId)
    | some .timeout => (.timedOut cfId, m.discard cfId)
    | some .finalize =>
      let cf := cf.finalize env.now
      let applied := { m with pendingCfs := m.pendingCfs.erase cfId }.applyFinalized H cfId cf env
      match applied.1 with
      | .ok () =>
        (.finalized cfId cf,
          { applied.2 with
            lastApplyFailure := none
            finalizedCfs := applied.2.finalizedCfs ++ [cf] }.gcFinalizedCfs)
      | .error failure =>
        (.applyFailed failure, { applied.2 with lastApplyFailure := some failure })

/-- The body of the loop of `cleanup_timeout_cfs`, `folder.rs:779-797`. -/
def cleanupTimeoutCf : ConsensusManager D :=
  { m.discard cfId with
    bufferedVotes := m.bufferedVotes.erase cfId
    lastApplyFailure := m.lastApplyFailure.filter fun failure ↦ failure.cfId != cfId }

/-- `folder.rs:770-799`: the number of frames removed, and the manager
without them. -/
def cleanupTimeoutCfs (env : Ambient) : Nat × ConsensusManager D :=
  let timeoutIds := (m.pendingCfs.toList.filter fun entry ↦
    entry.2.isTimeout m.config.cfTimeoutMs env.now).map Prod.fst
  (timeoutIds.length, timeoutIds.foldl cleanupTimeoutCf m)

/-- `folder.rs:431-447`. -/
def receiveCf : ConsensusManager D :=
  if cf.id ∈ m.pendingCfs then m
  else
    { m with
      pendingCfs := m.pendingCfs.insert cf.id
        (cf.addMissingVotes ((m.bufferedVotes.lookup cf.id).getD []))
      bufferedVotes := m.bufferedVotes.erase cf.id }

/-- The votes of a finalized frame join the pending one, or the frame is received as it is,
`folder.rs:455-463`. -/
def mergeFinalizedCf : ConsensusManager D :=
  match m.pendingCfs.lookup cf.id with
  | some existing =>
    { m with
      pendingCfs := m.pendingCfs.insert cf.id (existing.addMissingVotes cf.votes.values) }
  | none => m.receiveCf cf

/-- `folder.rs:449-466`. -/
def receiveFinalizedCf (env : Ambient) : CfLifecycleOutcome D × ConsensusManager D :=
  if m.isFinalizedCf cf.id then (.pending, m)
  else (m.mergeFinalizedCf cf).classifyFinalization H cf.id env

/-- A vote of the local validator, signed if there is a usable key, `folder.rs:490-501`. -/
def localVote (S : Ed25519) (m : ConsensusManager D) (cfId : CFId) (approve : Bool)
    (privateKey : Option Bytes) (now : UInt64) : Vote :=
  let vote := Vote.new m.localValidatorId cfId approve now
  match privateKey with
  | none => vote
  | some key =>
    match vote.sign S key with
    | .ok signed => signed
    | .error _ => vote

/-- `folder.rs:478-506`. -/
def voteForCf (S : Ed25519) (m : ConsensusManager D) (cfId : CFId) (approve : Bool)
    (privateKey : Option Bytes) (now : UInt64) : Option Vote × ConsensusManager D :=
  match m.pendingCfs.lookup cfId with
  | none => (none, m)
  | some cf =>
    if m.localValidatorId ∈ cf.votes then (none, m)
    else
      let vote := m.localVote S cfId approve privateKey now
      (some vote, { m with pendingCfs := m.pendingCfs.insert cfId (cf.addVote vote) })

/-- `folder.rs:516-533`. -/
def receiveVote (vote : Vote) (env : Ambient) : CfLifecycleOutcome D × ConsensusManager D :=
  match m.pendingCfs.lookup vote.cfId with
  | none => (.pending, { m with bufferedVotes := m.bufferedVotes.pushAt vote.cfId vote })
  | some cf =>
    if vote.validatorId ∈ cf.votes then (.pending, m)
    else
      { m with
        pendingCfs := m.pendingCfs.insert vote.cfId (cf.addVote vote) }.classifyFinalization H
          vote.cfId env

/-- `folder.rs:936-947`: keep the events of a received frame for its
finalization. -/
def applyCfStateChanges (dag : Dag) (cf : ConsensusFrame D) : ConsensusManager D :=
  { m with
    pendingCfEvents := m.pendingCfEvents.insert cf.id (cf.anchor.eventIds.filterMap dag.getEvent) }

end ConsensusManager

end Setu.Consensus
