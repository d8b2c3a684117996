import Setu.Base.Ed25519
import Setu.Types.Event

/-!
# Anchors, votes and consensus frames

Library `Types`. An anchor commits to a list of events and to the Merkle roots after them; a
consensus frame (CF) proposes an anchor and collects votes. Clock readings are arguments
named `now`. The last section says what a frame's identifier leaves open. Source:
`types/src/consensus.rs`, `types/src/merkle.rs:185-195`, `types/src/hash_utils.rs:71-78`.
-/

namespace Setu.Types

open Setu.Base

variable {D : Type}

/-- Anchor identifiers are hexadecimal digests. -/
abbrev AnchorId := String

/-- Identifiers of consensus frames are hexadecimal digests. -/
abbrev CFId := String

/-- Merkle roots committed by an anchor, `types/src/merkle.rs:185-195`. -/
structure AnchorMerkleRoots (D : Type) where
  eventsRoot : D
  globalStateRoot : D
  anchorChainRoot : D
  subnetRoots : HashMap SubnetId D

/-- A checkpoint of the DAG, `types/src/consensus.rs:16-28`. -/
structure Anchor (D : Type) where
  id : AnchorId
  eventIds : List EventId
  vlcSnapshot : VLCSnapshot
  stateRoot : String
  merkleRoots : Option (AnchorMerkleRoots D)
  previousAnchor : Option AnchorId
  depth : UInt64
  timestamp : UInt64

/-- One link of the anchor chain, `types/src/hash_utils.rs:72-78`. -/
def chainHash (H : Blake3 D) (prevRoot newHash : D) : D :=
  H.hash (strBytes "SETU_ANCHOR_CHAIN:" ++ H.asBytes prevRoot ++ H.asBytes newHash)

namespace Anchor

variable (H : Blake3 D) (eventIds : List EventId) (vlc : VLCSnapshot)

/-- `types/src/consensus.rs:87-102`. -/
def computeId (stateRoot : String) (timestamp : UInt64) : AnchorId :=
  H.hexDigest (strBytes "SETU_ANCHOR_ID:" ++ eventIds.flatMap strBytes ++
    u64Le vlc.logicalTime ++ strBytes stateRoot ++ u64Le timestamp)

/-- `types/src/consensus.rs:32-57`. -/
def new (stateRoot : String) (previousAnchor : Option AnchorId)
    (depth now : UInt64) : Anchor D where
  id := computeId H eventIds vlc stateRoot now
  eventIds := eventIds
  vlcSnapshot := vlc
  stateRoot := stateRoot
  merkleRoots := none
  previousAnchor := previousAnchor
  depth := depth
  timestamp := now

/-- `types/src/consensus.rs:59-85`. -/
def withMerkleRoots (merkleRoots : AnchorMerkleRoots D) (previousAnchor : Option AnchorId)
    (depth now : UInt64) : Anchor D where
  id := computeId H eventIds vlc (hexEncode (H.asBytes merkleRoots.globalStateRoot)) now
  eventIds := eventIds
  vlcSnapshot := vlc
  stateRoot := hexEncode (H.asBytes merkleRoots.globalStateRoot)
  merkleRoots := some merkleRoots
  previousAnchor := previousAnchor
  depth := depth
  timestamp := now

/-- `types/src/consensus.rs:141-157`. -/
def computeHash (anchor : Anchor D) : D :=
  H.hash (strBytes "SETU_ANCHOR_HASH:" ++ strBytes anchor.id ++ u64Le anchor.depth ++
    (match anchor.previousAnchor with
      | some prev => strBytes prev
      | none => []) ++
    (match anchor.merkleRoots with
      | some roots =>
        H.asBytes roots.eventsRoot ++ H.asBytes roots.globalStateRoot ++
          H.asBytes roots.anchorChainRoot
      | none => []) ++
    u64Le anchor.vlcSnapshot.logicalTime ++ u64Le anchor.timestamp)

end Anchor

/-- A vote on a frame, `types/src/consensus.rs:170-176`. -/
structure Vote where
  validatorId : String
  cfId : CFId
  approve : Bool
  signature : Bytes
  timestamp : UInt64
  deriving DecidableEq

namespace Vote

/-- An unsigned vote, `types/src/consensus.rs:179-190`. -/
def new (validatorId : String) (cfId : CFId) (approve : Bool) (now : UInt64) : Vote :=
  ⟨validatorId, cfId, approve, [], now⟩

/-- `types/src/consensus.rs:263-273`. -/
def signingMessage (vote : Vote) : Bytes :=
  strBytes "SETU_VOTE_V1" ++ strBytes vote.cfId ++ strBytes vote.validatorId ++
    [if vote.approve then 1 else 0] ++ u64Le vote.timestamp

/-- `types/src/consensus.rs:201-220`. -/
def sign (S : Ed25519) (vote : Vote) (privateKey : Bytes) : Except String Vote :=
  if privateKey.length ≠ 32 then
    .error s!"Invalid private key length: expected 32, got {privateKey.length}"
  else
    .ok { vote with signature := S.sign privateKey vote.signingMessage }

/-- `types/src/consensus.rs:225-255`. -/
def verifySignature (S : Ed25519) (vote : Vote) (publicKey : Bytes) : Bool :=
  if vote.signature.isEmpty then false
  else if publicKey.length ≠ 32 then false
  else S.verify publicKey vote.signingMessage vote.signature

end Vote

/-- Status of a frame, `types/src/consensus.rs:161-167`. -/
inductive CFStatus where
  | proposed | voting | approved | finalized | rejected
  deriving DecidableEq

/-- A proposed anchor with its votes, `types/src/consensus.rs:276-288`. -/
structure ConsensusFrame (D : Type) where
  id : CFId
  round : UInt64
  anchor : Anchor D
  proposer : String
  status : CFStatus
  votes : HashMap String Vote
  createdAt : UInt64
  finalizedAt : Option UInt64

/-- Consensus parameters, `types/src/consensus.rs:384-390`. -/
structure ConsensusConfig where
  vlcDeltaThreshold : UInt64 := 10
  minEventsPerCf : Nat := 1
  maxEventsPerCf : Nat := 1000
  cfTimeoutMs : UInt64 := 5000
  validatorCount : Nat := 3

namespace ConsensusFrame

variable (H : Blake3 D) (round : UInt64) (anchor : Anchor D) (proposer : String)

/-- `types/src/consensus.rs:311-320`. -/
def computeId (timestamp : UInt64)
    : CFId :=
  H.hexDigest (strBytes "SETU_CF_ID_V2:" ++ u64Le round ++ strBytes anchor.id ++
    strBytes proposer ++ u64Le timestamp)

/-- `types/src/consensus.rs:291-309`. -/
def new (now : UInt64)
    : ConsensusFrame D where
  id := computeId H round anchor proposer now
  round := round
  anchor := anchor
  proposer := proposer
  status := .proposed
  votes := ∅
  createdAt := now
  finalizedAt := none

variable (cf : ConsensusFrame D)

/-- `types/src/consensus.rs:322-324`. -/
def addVote (vote : Vote) : ConsensusFrame D :=
  { cf with votes := cf.votes.insert vote.validatorId vote }

/-- `types/src/consensus.rs:326-328`. -/
def approveCount : Nat := cf.votes.values.countP (·.approve)

/-- `types/src/consensus.rs:330-332`. -/
def rejectCount : Nat := cf.votes.values.countP (!·.approve)

/-- `types/src/consensus.rs:334-337`. -/
def checkQuorum (totalValidators : Nat) : Bool :=
  totalValidators * 2 / 3 + 1 ≤ cf.approveCount

/-- `types/src/consensus.rs:343-346`. -/
def checkRejection (totalValidators : Nat) : Bool :=
  totalValidators / 3 + 1 ≤ cf.rejectCount

/-- `types/src/consensus.rs:352-358`. -/
def isTimeout (timeoutMs now : UInt64) : Bool :=
  timeoutMs.toNat < now.toNat - cf.createdAt.toNat

/-- `types/src/consensus.rs:360-368`. -/
def finalize (now : UInt64) : ConsensusFrame D :=
  { cf with status := .finalized, finalizedAt := some now }

/-- `types/src/consensus.rs:377-380`. -/
def verifyId (cf : ConsensusFrame D) : Bool :=
  cf.id == computeId H cf.round cf.anchor cf.proposer cf.createdAt

/-- A freshly proposed frame passes its own check. -/
theorem verifyId_new (now : UInt64)
    : (new H round anchor proposer now).verifyId H = true := by
  simp [verifyId, new]

/-- The frame with another anchor under the old anchor identifier: one more event, the next
depth and logical time, and the previous anchor and the Merkle roots present exactly where
they were absent. -/
def forgeAnchor (eventId : EventId) (previous : AnchorId) (roots : AnchorMerkleRoots D)
    : ConsensusFrame D :=
  { cf with
    anchor :=
      { cf.anchor with
        eventIds := eventId :: cf.anchor.eventIds
        depth := cf.anchor.depth + 1
        vlcSnapshot :=
          { cf.anchor.vlcSnapshot with logicalTime := cf.anchor.vlcSnapshot.logicalTime + 1 }
        previousAnchor := if cf.anchor.previousAnchor.isSome then none else some previous
        merkleRoots := if cf.anchor.merkleRoots.isSome then none else some roots } }

private theorem add_one_ne (n : UInt64) : n + 1 ≠ n := by
  intro h
  have ht := congrArg UInt64.toNat h
  rw [UInt64.toNat_add] at ht
  have hlt := n.toNat_lt
  simp only [UInt64.toNat_one] at ht
  omega

private theorem toggle_ne {α : Type} (x : Option α) (a : α) :
    (if x.isSome then none else some a) ≠ x := by
  cases x <;> simp

/-- An identifier never certifies an anchor: under the identifier and the votes of any
verified frame there is a verified frame whose anchor differs in the event identifiers, the
depth, the clock, the previous anchor and the Merkle roots. -/
theorem verifyId_never_binds (H : Blake3 D) (cf : ConsensusFrame D)
    (hcf : cf.verifyId H = true) :
    ∃ cf' : ConsensusFrame D, cf'.verifyId H = true ∧ cf'.id = cf.id ∧
      cf'.votes = cf.votes ∧
      cf'.anchor.eventIds ≠ cf.anchor.eventIds ∧
      cf'.anchor.depth ≠ cf.anchor.depth ∧
      cf'.anchor.vlcSnapshot ≠ cf.anchor.vlcSnapshot ∧
      cf'.anchor.previousAnchor ≠ cf.anchor.previousAnchor ∧
      cf'.anchor.merkleRoots ≠ cf.anchor.merkleRoots := by
  refine ⟨cf.forgeAnchor "" "" ⟨H.zero, H.zero, H.zero, ∅⟩, ?_, rfl, rfl, ?_, ?_, ?_, ?_, ?_⟩
  · -- only the anchor's identifier enters the digest, and it is kept
    exact hcf
  · exact List.cons_ne_self _ _
  · exact add_one_ne _
  · intro h
    exact add_one_ne _ (congrArg VLCSnapshot.logicalTime h)
  · exact toggle_ne _ _
  · exact toggle_ne _ _

/-- A one-event frame of `validator-1`. -/
def honestFrame : ConsensusFrame (Option Bytes) :=
  new Blake3.ideal 0 (Anchor.new Blake3.ideal ["e1"] ⟨∅, 10, 0⟩ "root" none 0 7) "validator-1" 7

/-- The honest frame meets the hypothesis. -/
theorem verifyId_never_binds_honestFrame :
    ∃ cf' : ConsensusFrame (Option Bytes), cf'.verifyId Blake3.ideal = true ∧
      cf'.id = honestFrame.id ∧ cf'.anchor.eventIds ≠ honestFrame.anchor.eventIds := by
  have hf := verifyId_never_binds Blake3.ideal honestFrame (verifyId_new ..)
  obtain ⟨cf', hv, hid, -, he, -⟩ := hf
  exact ⟨cf', hv, hid, he⟩

/-- The honest frame and a frame over another event list verify under one identifier. -/
theorem verifyId_forged_honestFrame :
    let forged := honestFrame.forgeAnchor "e2" "a0" ⟨none, none, none, ∅⟩
    honestFrame.verifyId Blake3.ideal = true ∧ forged.verifyId Blake3.ideal = true ∧
      forged.id = honestFrame.id ∧ forged.anchor.eventIds = ["e2", "e1"] ∧
      honestFrame.anchor.eventIds = ["e1"] ∧ forged.anchor.depth ≠ honestFrame.anchor.depth ∧
      forged.anchor.previousAnchor = some "a0" ∧ honestFrame.anchor.previousAnchor = none := by
  intro forged
  have hv := verifyId_new Blake3.ideal 0
    (Anchor.new Blake3.ideal ["e1"] ⟨∅, 10, 0⟩ "root" none 0 7) "validator-1" 7
  exact ⟨hv, hv, rfl, rfl, rfl, by decide, rfl, rfl⟩

end ConsensusFrame

end Setu.Types
