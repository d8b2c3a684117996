import Setu.Consensus.Folder
import Setu.Consensus.ValidatorSet

/-!
# The consensus engine

Library `Consensus`. The handlers for proposing, for received frames, votes and finalized
frames, and for maintenance. A handler runs atomically; errors are the texts of
`SetuError::InvalidData`. What the DAG manager and the network do to the DAG and the clock is
an input. Source `consensus/src/engine.rs`.
-/

namespace Setu.Consensus

open Setu.Base Setu.Types Setu.Merkle Setu.State

variable {D : Type}

/-- A finalized frame whose anchor is to be persisted, `engine.rs:47-56`. -/
structure CompletionEntry (D : Type) where
  cf : ConsensusFrame D
  anchorId : AnchorId
  expectedRound : UInt64
  persisted : Bool

/-- What became of a received frame, `engine.rs:85-99`. -/
inductive CfReceiveOutcome (D : Type) where
  | accepted (finalized : Bool) (anchor : Option (Anchor D))
  | needsCatchUp (upToDepth : UInt64) (cf : ConsensusFrame D)
  | stale (cfRound localRound : UInt64)

/-- The engine's state, `engine.rs:103-164`; `minDepth` is the depth floor kept by the DAG
manager. -/
structure ConsensusEngine (D : Type) where
  dag : Dag
  minDepth : UInt64
  vlc : VLCSnapshot
  validatorSet : ValidatorSet
  consensusManager : ConsensusManager D
  localValidatorId : ValidatorId
  privateKey : Option Bytes
  strictVoteSignatures : Bool
  pendingPersistAnchors : List (Anchor D)
  pendingPersistCfs : List (ConsensusFrame D)
  pendingCompletions : List (CompletionEntry D)

/-- What a call did besides answering: the frame it proposed as it is broadcast, the local
validator's vote with the frame it is for, the frame it finalized. -/
structure Effects (D : Type) where
  proposed : Option (ConsensusFrame D) := none
  cast : Option (ConsensusFrame D × Vote) := none
  finalized : Option (ConsensusFrame D) := none

/-- A call's answer, its effects and the engine after it. -/
structure Handled (D α : Type) where
  answer : α
  effects : Effects D
  engine : ConsensusEngine D

/-- Change the answer only. -/
def Handled.map {α β : Type} (f : α → β) (handled : Handled D α) : Handled D β :=
  ⟨f handled.answer, handled.effects, handled.engine⟩

/-- The network's part in fetching events: for each attempt the DAG and the clock once the
fetched events were added, or an error; `none` without a broadcaster. -/
abbrev Fetch := Option (Nat → Except String (Dag × VLCSnapshot))

namespace ConsensusEngine

variable [DecidableEq D] (H : Blake3 D) (S : Ed25519)

/-- `engine.rs:168-203`. -/
def new (config : ConsensusConfig) (validatorId : ValidatorId) (validatorSet : ValidatorSet)
    (now : UInt64) : ConsensusEngine D where
  dag := .new
  minDepth := 0
  vlc := ⟨(∅ : HashMap String UInt64).insert validatorId 0, 0, now⟩
  validatorSet := validatorSet
  consensusManager := .new H config validatorId
  localValidatorId := validatorId
  privateKey := none
  strictVoteSignatures := false
  pendingPersistAnchors := []
  pendingPersistCfs := []
  pendingCompletions := []

variable (e : ConsensusEngine D)

/-- `engine.rs:341-343`. -/
def setPrivateKey (key : Bytes) : ConsensusEngine D :=
  { e with privateKey := some key }

/-- `engine.rs:386-388`. -/
def enableStrictVoteSignatures : ConsensusEngine D :=
  { e with strictVoteSignatures := true }

/-- `engine.rs:596-611`. -/
def addConsensusValidator (info : ValidatorInfo) : ConsensusEngine D :=
  let validatorSet := e.validatorSet.addValidator info
  { e with
    validatorSet := validatorSet
    consensusManager := e.consensusManager.updateValidatorCount validatorSet.count }

/-- The engine a validator starts with, `setu-validator/src/main.rs:228-397`: it registers
itself and its peers, loads its key if it has one and turns strict signatures on. -/
def startUp (config : ConsensusConfig) (self : NodeInfo) (peers : List NodeInfo)
    (key : Option Bytes) (now : UInt64) : ConsensusEngine D :=
  let alone := new H { config with validatorCount := 1 } self.id
    (ValidatorSet.new.addValidator ⟨self, false, 0⟩) now
  let e := (peers.filter fun peer ↦ peer.id ≠ self.id).foldl
    (fun e peer ↦ e.addConsensusValidator ⟨peer, false, 0⟩) alone
  (key.elim e e.setPrivateKey).enableStrictVoteSignatures

/-- `get_anchor_chain_root`, `engine.rs:1610-1613`. -/
def anchorChainRoot : D :=
  e.consensusManager.anchorBuilder.lastAnchorChainRoot

variable (cf : ConsensusFrame D)

/-- The chain root an anchor declares must be the local one, `engine.rs:1031-1052` and
`engine.rs:1158-1174`. Anchors without roots pass. -/
def checkAnchorChainRoot (context : String) : Except String Unit :=
  match cf.anchor.merkleRoots with
  | none => .ok ()
  | some roots =>
    if roots.anchorChainRoot ≠ e.anchorChainRoot then
      let expected := hexEncode (H.asBytes e.anchorChainRoot)
      let declared := hexEncode (H.asBytes roots.anchorChainRoot)
      .error (context ++ " - possible fork or time-travel attack: expected " ++ expected ++
        ", got " ++ declared)
    else .ok ()

/-- `engine.rs:1305-1358`. -/
def verifyVoteSignaturePolicy (vote : Vote) (publicKey : Bytes) (context : String)
    : Except String Unit :=
  if vote.signature.isEmpty then
    if e.strictVoteSignatures then
      .error ("Unsigned " ++ context ++ " from validator: " ++ vote.validatorId)
    else .ok ()
  else if publicKey.isEmpty then
    if e.strictVoteSignatures then
      .error ("Missing public key for signed " ++ context ++ " from validator: " ++
        vote.validatorId)
    else .ok ()
  else if !vote.verifySignature S publicKey then
    .error ("Invalid " ++ context ++ " signature from validator: " ++ vote.validatorId)
  else .ok ()

/-- The body of the loop of `verify_finalized_cf_votes`, `engine.rs:1217-1240`. -/
def verifyFinalizedCfVote (vote : Vote) : Except String Unit :=
  if vote.cfId ≠ cf.id then
    .error ("Finalized CF " ++ cf.id ++ " contains vote for different CF " ++ vote.cfId)
  else
    match e.validatorSet.findValidator vote.validatorId with
    | none =>
      .error ("Finalized CF " ++ cf.id ++ " contains vote from non-validator " ++
        vote.validatorId)
    | some validator =>
      e.verifyVoteSignaturePolicy S vote validator.node.publicKey "finalized CF vote"

/-- `engine.rs:1204-1243`. The keys of the vote map are not
looked at. -/
def verifyFinalizedCfVotes : Except String Unit :=
  if !cf.checkQuorum e.validatorSet.count then
    let approveCount := cf.approveCount
    let validatorCount := e.validatorSet.count
    .error ("Finalized CF " ++ cf.id ++
      s!" does not contain quorum votes: approve_count={approveCount}, " ++
      s!"validator_count={validatorCount}")
  else cf.votes.values.forM (e.verifyFinalizedCfVote S cf)

/-- The test of `filter_embedded_votes_for_strict_mode`, `engine.rs:1258-1301`: the key of the
entry names the validator. -/
def keepsEmbeddedVote (cfId : CFId) (validatorId : ValidatorId) (vote : Vote) : Bool :=
  if vote.cfId ≠ cfId then false
  else
    match e.validatorSet.findValidator validatorId with
    | none => false
    | some validator =>
      if vote.signature.isEmpty || validator.node.publicKey.isEmpty then false
      else vote.verifySignature S validator.node.publicKey

/-- `engine.rs:1245-1303`. -/
def filterEmbeddedVotesForStrictMode : ConsensusFrame D :=
  if !e.strictVoteSignatures || cf.votes.keys.isEmpty then cf
  else { cf with votes := cf.votes.retain (e.keepsEmbeddedVote S cf.id) }

/-- The events of a frame that the DAG lacks, `engine.rs:1361-1369`. -/
def missingEventIds : List EventId :=
  cf.anchor.eventIds.filter fun id ↦ !decide (id ∈ e.dag.events)

/-- The attempts to fetch, `engine.rs:1394-1457`. -/
def fetchEvents (cf : ConsensusFrame D) (fetch : Nat → Except String (Dag × VLCSnapshot)) :
    List Nat → String → ConsensusEngine D → Except String Unit × ConsensusEngine D
  | [], lastError, e =>
    (.error ("CF " ++ cf.id ++ " references missing events after fetch attempts: " ++ lastError), e)
  | attempt :: attempts, _, e =>
    match fetch attempt with
    | .error reason => fetchEvents cf fetch attempts ("Fetch failed: " ++ reason) e
    | .ok (dag, vlc) =>
      let e := { e with dag := dag, vlc := vlc }
      let missing := (e.missingEventIds cf).length
      if missing = 0 then (.ok (), e)
      else fetchEvents cf fetch attempts s!"Still missing {missing} events after fetch" e

/-- `engine.rs:1360-1458`. -/
def ensureCfEventsAvailable (fetch : Fetch) : Except String Unit × ConsensusEngine D :=
  let missing := (e.missingEventIds cf).length
  if missing = 0 then (.ok (), e)
  else
    match fetch with
    | none =>
      (.error ("CF " ++ cf.id ++
        s!" references {missing} events not in local DAG (no broadcaster to fetch)"), e)
    | some fetch => fetchEvents cf fetch [0, 1, 2] "unknown error" e

/-- `engine.rs:1477-1529`. -/
def handleFinalization : (Bool × Option (Anchor D)) × ConsensusEngine D :=
  match e.consensusManager.lastFinalizedCf with
  | none => ((true, none), e)
  | some cf =>
    ((true, some cf.anchor),
      { e with
        minDepth := max e.minDepth (cf.anchor.depth + 1)
        dag := e.dag.finalizeEvents cf.anchor.eventIds
        pendingPersistCfs := e.pendingPersistCfs ++ [cf]
        pendingCompletions := e.pendingCompletions ++
          [⟨cf, cf.anchor.id, e.validatorSet.currentRound, false⟩] })

/-- What follows a classification, `engine.rs:1123-1135`, `engine.rs:1193-1201` and
`engine.rs:1556-1565`. -/
def conclude (cast : Option (ConsensusFrame D × Vote))
    (settled : CfLifecycleOutcome D × ConsensusManager D) : Handled D (Bool × Option (Anchor D)) :=
  let e := { e with consensusManager := settled.2 }
  match settled.1 with
  | .finalized _ cf =>
    ⟨e.handleFinalization.1, { cast := cast, finalized := some cf }, e.handleFinalization.2⟩
  | _ => ⟨(false, none), { cast := cast }, e⟩

/-- After the own vote was enough, `engine.rs:848-877` and `engine.rs:1698-1714`. -/
def finishInline (frame : ConsensusFrame D) : ConsensusEngine D :=
  { e with
    minDepth := max e.minDepth e.consensusManager.anchorBuilder.anchorDepth
    dag := e.dag.finalizeEvents frame.anchor.eventIds
    pendingPersistAnchors := e.pendingPersistAnchors ++
      (e.consensusManager.lastFinalizedCf.map (·.anchor)).toList
    pendingPersistCfs := e.pendingPersistCfs ++ e.consensusManager.lastFinalizedCf.toList }

/-- Vote for an own frame and broadcast it with the vote, `engine.rs:831-955` and
`engine.rs:1683-1751`. -/
def announce (env : Ambient) (created : Option (ConsensusFrame D) × ConsensusManager D) :
    Handled D (Option (ConsensusFrame D)) :=
  match created.1 with
  | none => ⟨none, {}, { e with consensusManager := created.2 }⟩
  | some frame =>
    let voted := created.2.voteForCf S frame.id true e.privateKey env.now
    match voted.1 with
    | none => ⟨some frame, { proposed := some frame }, { e with consensusManager := voted.2 }⟩
    | some vote =>
      let settled := voted.2.classifyFinalization H frame.id env
      let e := { e with consensusManager := settled.2 }
      let proposed := some (frame.addVote vote)
      match settled.1 with
      | .finalized _ cf =>
        ⟨some frame, ⟨proposed, some (frame, vote), some cf⟩, e.finishInline frame⟩
      | _ => ⟨some frame, ⟨proposed, some (frame, vote), none⟩, e⟩

/-- `engine.rs:795-955`. -/
def tryCreateCf (env : Ambient) : Handled D (Option (ConsensusFrame D)) :=
  let round := e.validatorSet.currentRound
  if !e.validatorSet.isValidProposer e.localValidatorId round then ⟨none, {}, e⟩
  else if !e.consensusManager.anchorBuilder.shouldFold e.vlc then ⟨none, {}, e⟩
  else e.announce H S env (e.consensusManager.tryCreateCf H e.dag e.vlc round env)

/-- `engine.rs:1657-1752`. -/
def tryCreateCfHeartbeat (heartbeatInterval : Nat) (env : Ambient) :
    Handled D (Option (ConsensusFrame D)) :=
  let round := e.validatorSet.currentRound
  if !e.validatorSet.isValidProposer e.localValidatorId round then ⟨none, {}, e⟩
  else e.announce H S env
    (e.consensusManager.tryCreateCfHeartbeat H e.dag e.vlc heartbeatInterval round env)

/-- The checks of `receive_cf` before it fetches events, `engine.rs:981-1061`: an early
answer, or `none` to go on. -/
def receiveCfChecks : Option (Except String (CfReceiveOutcome D)) :=
  let localRound := e.validatorSet.currentRound
  if !cf.verifyId H then
    some (.error ("CF ID verification failed - possible tampering: " ++ cf.id))
  else if !e.validatorSet.isValidProposer cf.proposer cf.round then
    let round := cf.round
    some (.error ("CF proposer " ++ cf.proposer ++ s!" is not valid for round {round}"))
  else if localRound < cf.round then
    some (.ok (.needsCatchUp (if cf.anchor.depth = 0 then 0 else cf.anchor.depth - 1) cf))
  else if cf.round < localRound then some (.ok (.stale cf.round localRound))
  else
    match e.checkAnchorChainRoot H cf "Anchor chain root mismatch" with
    | .error reason => some (.error reason)
    | .ok () =>
      if e.consensusManager.hasCf cf.id then some (.ok (.accepted false none)) else none

/-- Take a checked frame in and vote for it, `engine.rs:1091-1135`. -/
def acceptCf (env : Ambient) : Handled D (Except String (CfReceiveOutcome D)) :=
  let received := (e.consensusManager.applyCfStateChanges e.dag cf).receiveCf cf
  let voted := received.voteForCf S cf.id true e.privateKey env.now
  match voted.1 with
  | none => ⟨.ok (.accepted false none), {}, { e with consensusManager := voted.2 }⟩
  | some vote =>
    (e.conclude (some (cf, vote)) (voted.2.classifyFinalization H cf.id env)).map fun answer ↦
      .ok (.accepted answer.1 answer.2)

/-- `engine.rs:973-1136`. -/
def receiveCf (fetch : Fetch) (env : Ambient) : Handled D (Except String (CfReceiveOutcome D)) :=
  match e.receiveCfChecks H cf with
  | some answer => ⟨answer, {}, e⟩
  | none =>
    let available := e.ensureCfEventsAvailable cf fetch
    let e := available.2
    match available.1 with
    | .error reason => ⟨.error reason, {}, e⟩
    | .ok () =>
      let cf := e.filterEmbeddedVotesForStrictMode S cf
      if e.strictVoteSignatures && e.privateKey.isNone then
        ⟨.error ("Strict vote signature mode requires a local private key before voting on " ++
          "CF proposals"), {}, e⟩
      else if e.consensusManager.hasCf cf.id then ⟨.ok (.accepted false none), {}, e⟩
      else if !ConsensusManager.verifyCfMerkleRoots H cf then
        ⟨.error "CF merkle roots verification failed", {}, e⟩
      else e.acceptCf H S cf env

/-- `engine.rs:1138-1202`. -/
def receiveFinalizedCf (cf : ConsensusFrame D) (fetch : Fetch) (env : Ambient)
    : Handled D (Except String (Bool × Option (Anchor D))) :=
  if !cf.verifyId H then
    ⟨.error ("Finalized CF ID verification failed - possible tampering: " ++ cf.id), {}, e⟩
  else
    match e.verifyFinalizedCfVotes S cf with
    | .error reason => ⟨.error reason, {}, e⟩
    | .ok () =>
      if e.consensusManager.isFinalizedCf cf.id then ⟨.ok (false, none), {}, e⟩
      else
        match e.checkAnchorChainRoot H cf "Finalized CF anchor chain root mismatch" with
        | .error reason => ⟨.error reason, {}, e⟩
        | .ok () =>
          let available := e.ensureCfEventsAvailable cf fetch
          let e := available.2
          match available.1 with
          | .error reason => ⟨.error reason, {}, e⟩
          | .ok () =>
            if e.consensusManager.isFinalizedCf cf.id then ⟨.ok (false, none), {}, e⟩
            else if !ConsensusManager.verifyCfMerkleRoots H cf then
              ⟨.error "Finalized CF merkle roots verification failed", {}, e⟩
            else
              let manager := e.consensusManager.applyCfStateChanges e.dag cf
              (e.conclude none (manager.receiveFinalizedCf H cf env)).map .ok

/-- `engine.rs:1535-1566`. -/
def receiveVote (vote : Vote) (env : Ambient) :
    Handled D (Except String (Bool × Option (Anchor D))) :=
  match e.validatorSet.findValidator vote.validatorId with
  | none => ⟨.error ("Vote from non-validator: " ++ vote.validatorId), {}, e⟩
  | some validator =>
    match e.verifyVoteSignaturePolicy S vote validator.node.publicKey "vote" with
    | .error reason => ⟨.error reason, {}, e⟩
    | .ok () => (e.conclude none (e.consensusManager.receiveVote H vote env)).map .ok

/-- `engine.rs:522-534`. -/
def markAnchorPersisted (anchorId : AnchorId) : ConsensusEngine D :=
  { e with
    pendingCompletions := e.pendingCompletions.map fun entry ↦
      if entry.anchorId = anchorId then { entry with persisted := true } else entry
    consensusManager := e.consensusManager.markAnchorPersisted anchorId }

/-- `engine.rs:441-507`: persisted entries leave the queue,
each advancing the round it was finalized in. -/
def completePendingFinalizations : ConsensusEngine D :=
  let completed := e.pendingCompletions.filter (·.persisted)
  { e with
    pendingCompletions := e.pendingCompletions.filter (!·.persisted)
    validatorSet := completed.foldl (fun vs entry ↦
      if vs.currentRound = entry.expectedRound then vs.advanceRound else vs) e.validatorSet }

/-- `engine.rs:1632-1651`. -/
def runPeriodicMaintenance (env : Ambient) : ConsensusEngine D :=
  { e with consensusManager := (e.consensusManager.cleanupTimeoutCfs env).2 }

end ConsensusEngine

/-- What can happen to an engine. `observe` stands for the DAG manager and the local clock:
events were added, fetched or collected. -/
inductive EngineInput (D : Type) where
  | observe (dag : Dag) (vlc : VLCSnapshot)
  | tryCreateCf
  | tryCreateCfHeartbeat (heartbeatInterval : Nat)
  | receiveCf (cf : ConsensusFrame D) (fetch : Fetch)
  | receiveFinalizedCf (cf : ConsensusFrame D) (fetch : Fetch)
  | receiveVote (vote : Vote)
  | runPeriodicMaintenance
  | markAnchorPersisted (anchorId : AnchorId)
  | completePendingFinalizations
  | advanceRound

/-- The effects and the engine after a call. -/
def Handled.outcome {α : Type} (handled : Handled D α) : Effects D × ConsensusEngine D :=
  (handled.effects, handled.engine)

/-- One step of the engine. -/
def ConsensusEngine.step [DecidableEq D] (H : Blake3 D) (S : Ed25519) (e : ConsensusEngine D)
    (input : EngineInput D × Ambient) : Effects D × ConsensusEngine D :=
  match input.1 with
  | .observe dag vlc => ({}, { e with dag := dag, vlc := vlc })
  | .tryCreateCf => (e.tryCreateCf H S input.2).outcome
  | .tryCreateCfHeartbeat interval => (e.tryCreateCfHeartbeat H S interval input.2).outcome
  | .receiveCf cf fetch => (e.receiveCf H S cf fetch input.2).outcome
  | .receiveFinalizedCf cf fetch => (e.receiveFinalizedCf H S cf fetch input.2).outcome
  | .receiveVote vote => (e.receiveVote H S vote input.2).outcome
  | .runPeriodicMaintenance => ({}, e.runPeriodicMaintenance input.2)
  | .markAnchorPersisted anchorId => ({}, e.markAnchorPersisted anchorId)
  | .completePendingFinalizations => ({}, e.completePendingFinalizations)
  | .advanceRound => ({}, { e with validatorSet := e.validatorSet.advanceRound })

end Setu.Consensus
