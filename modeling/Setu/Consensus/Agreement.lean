import Setu.Consensus.QuorumSoundness

/-!
# Agreement in a network of validators

Library `Consensus`. Honest validators run the engine, the others send whatever they can sign;
messages are lost, repeated and reordered at will. Two frames finalized at one depth carry the
same anchor unless some honest validator voted for two frames of that depth. The engine itself
approves every valid frame it receives, several at one depth included.
-/

namespace Setu.Consensus

open Setu.Base Setu.Types Setu.Merkle Setu.State

variable {D : Type}

/-- The engines of the honest validators. -/
abbrev Network (D : Type) := ValidatorId → ConsensusEngine D

/-- What validators did, in order. -/
abbrev History (D : Type) := List (ValidatorId × Effects D)

/-- The shared validator set, fewer than a third of which is not honest. -/
structure Membership where
  validators : ValidatorSet
  honest : Finset ValidatorId
  card_faulty_le : (validators.ids \ honest).card ≤ (validators.count - 1) / 3

namespace History

variable (history : History D) (id : ValidatorId)

/-- The validator finalized the frame. -/
def Finalized (cf : ConsensusFrame D) : Prop :=
  ∃ effects, (id, effects) ∈ history ∧ effects.finalized = some cf

/-- The validator cast the vote for the frame. -/
def Casts (frame : ConsensusFrame D) (vote : Vote) : Prop :=
  ∃ effects, (id, effects) ∈ history ∧ effects.cast = some (frame, vote)

/-- The validator voted for two frames at one depth. -/
def VotesTwice (depth : UInt64) : Prop :=
  ∃ frame vote frame' vote', history.Casts id frame vote ∧ history.Casts id frame' vote' ∧
    frame.id ≠ frame'.id ∧ frame.anchor.depth = depth ∧ frame'.anchor.depth = depth

variable {history : History D}

theorem finalized_concat {id id' : ValidatorId} {effects : Effects D}
    {cf : ConsensusFrame D} : Finalized (history ++ [(id', effects)]) id cf ↔
      history.Finalized id cf ∨ id = id' ∧ effects.finalized = some cf := by
  simp only [Finalized, List.mem_append, List.mem_singleton, Prod.mk.injEq, or_and_right, exists_or,
    and_assoc, exists_and_left, exists_eq_left]

theorem casts_concat {id id' : ValidatorId} {effects : Effects D} {frame : ConsensusFrame D}
    {vote : Vote} : Casts (history ++ [(id', effects)]) id frame vote ↔
      history.Casts id frame vote ∨ id = id' ∧ effects.cast = some (frame, vote) := by
  simp only [Casts, List.mem_append, List.mem_singleton, Prod.mk.injEq, or_and_right, exists_or,
    and_assoc, exists_and_left, exists_eq_left]

/-- As far as the vote's signature verifies under an honest validator's key, it repeats what
this validator signed when it cast a vote. -/
def Repeats (S : Ed25519) (members : Membership) (history : History D) (vote : Vote) : Prop :=
  ∀ id ∈ members.honest, ∀ key ∈ members.validators.publicKey id,
    vote.verifySignature S key = true → ∃ entry ∈ history, entry.1 = id ∧
      ∃ cast ∈ entry.2.cast, cast.2.signingMessage = vote.signingMessage

instance (S : Ed25519) (members : Membership) (history : History D) (vote : Vote) :
    Decidable (history.Repeats S members vote) :=
  inferInstanceAs (Decidable (∀ id ∈ members.honest, ∀ key ∈ members.validators.publicKey id,
    vote.verifySignature S key = true → ∃ entry ∈ history, entry.1 = id ∧
      ∃ cast ∈ entry.2.cast, cast.2.signingMessage = vote.signingMessage))

theorem Repeats.mono {S : Ed25519} {members : Membership} {vote : Vote}
    (h : history.Repeats S members vote) (more : History D) :
    (history ++ more).Repeats S members vote := by
  intro id hid key hk hv
  obtain ⟨entry, he, hc⟩ := h id hid key hk hv
  exact ⟨entry, List.mem_append_left _ he, hc⟩

end History

/-- What an anchor says, whatever the iteration order of its maps. -/
structure AnchorContents (D : Type) where
  id : AnchorId
  eventIds : List EventId
  vectorClock : List (String × UInt64)
  logicalTime : UInt64
  physicalTime : UInt64
  stateRoot : String
  merkleRoots : Option (D × D × D × List (SubnetId × D))
  previousAnchor : Option AnchorId
  depth : UInt64
  timestamp : UInt64
  deriving DecidableEq

/-- The contents of an anchor, maps in ascending order of their keys. -/
def anchorContents (anchor : Anchor D) : AnchorContents D where
  id := anchor.id
  eventIds := anchor.eventIds
  vectorClock := sortOn (·.1) anchor.vlcSnapshot.vectorClock.toList
  logicalTime := anchor.vlcSnapshot.logicalTime
  physicalTime := anchor.vlcSnapshot.physicalTime
  stateRoot := anchor.stateRoot
  merkleRoots := anchor.merkleRoots.map fun roots ↦
    (roots.eventsRoot, roots.globalStateRoot, roots.anchorChainRoot,
      sortOn (·.1.bytes.toList.map UInt8.toNat) roots.subnetRoots.toList)
  previousAnchor := anchor.previousAnchor
  depth := anchor.depth
  timestamp := anchor.timestamp

/-- A known anchor: it says what its frame's identifier, a digest, stands for. -/
def KnownAs (H : Blake3 D) (contentsOf : CFId → AnchorContents D) (id : CFId)
    (anchor : Anchor D) : Prop :=
  contentsOf id = anchorContents anchor ∧ ∃ preimage, id = H.hexDigest preimage

/-- Digests have one width, so a signed message names one frame. -/
theorem cfId_eq_of_signingMessage {H : Blake3 D} (hH : H.CollisionFree) {vote vote' : Vote}
    (hid : ∃ preimage, vote.cfId = H.hexDigest preimage)
    (hid' : ∃ preimage, vote'.cfId = H.hexDigest preimage)
    (h : vote.signingMessage = vote'.signingMessage) : vote.cfId = vote'.cfId := by
  obtain ⟨preimage, hp⟩ := hid
  obtain ⟨preimage', hp'⟩ := hid'
  unfold Vote.signingMessage at h
  simp only [List.append_assoc, List.append_cancel_left_eq] at h
  rw [hp, hp'] at h ⊢
  exact hH.hexDigest_append_inj h

theorem knownAs_of_verifyId {H : Blake3 D} {contentsOf : CFId → AnchorContents D}
    {cf : ConsensusFrame D} (hv : cf.verifyId H = true)
    (hc : contentsOf cf.id = anchorContents cf.anchor) :
    KnownAs H contentsOf cf.id cf.anchor := by
  unfold ConsensusFrame.verifyId at hv
  exact ⟨hc, _, beq_iff_eq.mp hv⟩

namespace Network

variable [DecidableEq D] {H : Blake3 D} {S : Ed25519} {members : Membership}
  {contentsOf : CFId → AnchorContents D} {net₀ net : Network D} {history : History D}

/-- One honest validator takes a step. -/
abbrev step (H : Blake3 D) (S : Ed25519) (net : Network D)
    (input : ValidatorId × EngineInput D × Ambient) : (ValidatorId × Effects D) × Network D :=
  stepAt (ConsensusEngine.step H S) net input

/-- Every honest validator starts with the shared validators, strict signatures and its key. -/
structure Starts (H : Blake3 D) (S : Ed25519) (members : Membership) (net : Network D) : Prop where
  starts : ∀ id ∈ members.honest, (net id).Starts H
  secure : ∀ id ∈ members.honest, (net id).setup.Secure S
  publicKey_eq : ∀ id ∈ members.honest,
    (net id).validatorSet.publicKey = members.validators.publicKey
  count_eq : ∀ id ∈ members.honest, (net id).validatorSet.count = members.validators.count
  localValidatorId_eq : ∀ id ∈ members.honest, (net id).localValidatorId = id

/-- Anything may happen to an honest validator at any time, except that signatures of honest
validators cannot be forged. -/
def Admits (H : Blake3 D) (S : Ed25519) (members : Membership) (history : History D)
    (net : Network D) (input : ValidatorId × EngineInput D × Ambient) : Prop :=
  input.1 ∈ members.honest ∧
    ∀ vote ∈ input.2.1.votes ++ ((net.step H S input).1.2.cast.map (·.2)).toList,
      History.Repeats S members (history ++ [(net.step H S input).1]) vote

instance (history : History D) (net : Network D)
    (input : ValidatorId × EngineInput D × Ambient) :
    Decidable (net.Admits H S members history input) :=
  inferInstanceAs (Decidable (_ ∧ ∀ vote ∈ _, History.Repeats S members _ vote))

/-- Frames that arrive or are proposed say what their identifier stands for, and finalized
frames file votes under their voters. -/
def Identifies (H : Blake3 D) (S : Ed25519) (contentsOf : CFId → AnchorContents D)
    (net : Network D) (input : ValidatorId × EngineInput D × Ambient) : Prop :=
  input.2.1.Keyed ∧
    ∀ frame ∈ input.2.1.frame.toList ++ (net.step H S input).1.2.proposed.toList,
      frame.verifyId H = true → contentsOf frame.id = anchorContents frame.anchor

instance (net : Network D) (input : ValidatorId × EngineInput D × Ambient) :
    Decidable (net.Identifies H S contentsOf input) :=
  inferInstanceAs (Decidable (_ ∧ ∀ frame ∈ (_ : List (ConsensusFrame D)),
    frame.verifyId H = true → _))

/-- What holds of the honest validators in every state of a run. -/
structure Inv (H : Blake3 D) (S : Ed25519) (members : Membership)
    (contentsOf : CFId → AnchorContents D) (net₀ : Network D) (history : History D)
    (net : Network D) : Prop where
  guarded : ∀ id ∈ members.honest, (net id).Guarded H S (KnownAs H contentsOf)
    (history.Repeats S members) (net₀ id).setup
  finalized : ∀ {id cf}, history.Finalized id cf → id ∈ members.honest ∧
    ConsensusEngine.Certified S (KnownAs H contentsOf) (history.Repeats S members)
      (net₀ id).setup cf
  cast : ∀ {id frame vote}, history.Casts id frame vote → vote.cfId = frame.id ∧
    KnownAs H contentsOf frame.id frame.anchor

private theorem acceptable_of_admits {input : ValidatorId × EngineInput D × Ambient}
    (ha : net.Admits H S members history input)
    (hi : net.Identifies H S contentsOf input) :
    (net input.1).Acceptable H S (KnownAs H contentsOf)
      (History.Repeats S members (history ++ [(net.step H S input).1])) input.2 where
  keyed := hi.1
  votes vote hvo := ha.2 vote (List.mem_append_left _ hvo)
  cast {frame vote} hc := by
    apply ha.2 vote (List.mem_append_right _ _)
    change (net.step H S input).1.2.cast = some (frame, vote) at hc
    simp [hc]
  frame {frame} hf hv := by
    apply knownAs_of_verifyId hv
    apply hi.2 frame (List.mem_append_left _ _) hv
    simp [hf]
  proposed {frame} hf hv := by
    apply knownAs_of_verifyId hv
    apply hi.2 frame (List.mem_append_right _ _) hv
    change (net.step H S input).1.2.proposed = some frame at hf
    simp [hf]

/-- A step of any honest validator keeps the invariant. -/
theorem Inv.step (h : Inv H S members contentsOf net₀ history net) (hco : S.Correct)
    (hst : net₀.Starts H S members) {input : ValidatorId × EngineInput D × Ambient}
    (ha : net.Admits H S members history input)
    (hi : net.Identifies H S contentsOf input) :
    Inv H S members contentsOf net₀ (history ++ [(net.step H S input).1])
      (net.step H S input).2 := by
  have hac := acceptable_of_admits ha hi
  have hg := fun id hid ↦ (h.guarded id hid).mono fun hs ↦
    hs.mono [(net.step H S input).1]
  obtain ⟨hg', hc⟩ := (hg input.1 ha.1).step hco (hst.secure input.1 ha.1) hac
  constructor
  · intro id hid
    change (Function.update net input.1 _ id).Guarded ..
    by_cases heq : id = input.1
    · subst heq
      rw [Function.update_self]
      exact hg'
    · rw [Function.update_of_ne heq]
      exact hg id hid
  · intro id cf hf
    rcases History.finalized_concat.mp hf with ho | ⟨rfl, hn⟩
    · obtain ⟨hid, hc⟩ := h.finalized ho
      exact ⟨hid, hc.mono fun hs ↦ hs.mono _⟩
    · exact ⟨ha.1, hc hn⟩
  · intro id frame vote hca
    rcases History.casts_concat.mp hca with ho | ⟨rfl, hn⟩
    · exact h.cast ho
    · obtain ⟨hvo, hv, hfr⟩ := ConsensusEngine.step_cast hn
      obtain ⟨signature, hsh⟩ := ConsensusEngine.localVote_eq S (net input.1).consensusManager
        frame.id true (net input.1).privateKey input.2.2.now
      refine ⟨by rw [hvo, hsh]; rfl, ?_⟩
      rcases hfr with ⟨cf, fetch, votes, hin, rfl⟩ | ⟨votes, hp⟩
      · have hk := hac.frame (congrArg EngineInput.frame hin) hv
        exact hk
      · have hk := hac.proposed hp hv
        exact hk

omit [DecidableEq D] in
private theorem Inv.exists_quorum (h : Inv H S members contentsOf net₀ history net)
    (hst : net₀.Starts H S members) {id : ValidatorId} {cf : ConsensusFrame D}
    (hcf : history.Finalized id cf) :
    KnownAs H contentsOf cf.id cf.anchor ∧ ∃ voters ⊆ members.validators.ids,
      quorum members.validators.ids.card ≤ voters.card ∧ ∀ voter ∈ voters, ∃ vote,
        SignedFor S members.validators.publicKey (history.Repeats S members) cf.id voter vote := by
  obtain ⟨hid, hk, voters, hc, hvo⟩ := h.finalized hcf
  change quorum (net₀ id).validatorSet.count ≤ voters.card at hc
  rw [hst.count_eq id hid, ← ValidatorSet.card_ids] at hc
  have hs : ∀ voter ∈ voters, ∃ vote,
      SignedFor S members.validators.publicKey (history.Repeats S members) cf.id voter vote := by
    intro voter hv
    obtain ⟨vote, -, hs⟩ := hvo voter hv
    change SignedFor S (net₀ id).validatorSet.publicKey _ _ _ _ at hs
    rw [hst.publicKey_eq id hid] at hs
    exact ⟨vote, hs⟩
  refine ⟨hk, voters, ?_, hc, hs⟩
  intro voter hv
  obtain ⟨vote, hvt⟩ := hs voter hv
  obtain ⟨key, hke, -⟩ := hvt.verified
  exact ValidatorSet.mem_ids hke

omit [DecidableEq D] in
private theorem Inv.exists_casts (h : Inv H S members contentsOf net₀ history net)
    (hH : H.CollisionFree) {voter : ValidatorId} (hv : voter ∈ members.honest)
    {cf : ConsensusFrame D} (hk : KnownAs H contentsOf cf.id cf.anchor) {vote : Vote}
    (hs : SignedFor S members.validators.publicKey (history.Repeats S members) cf.id voter
      vote) :
    ∃ frame vote, history.Casts voter frame vote ∧ frame.id = cf.id ∧
      anchorContents frame.anchor = anchorContents cf.anchor := by
  obtain ⟨hid, hse, key, hke, hve⟩ := hs
  obtain ⟨⟨_, effects⟩, he, rfl, ⟨frame, cast⟩, hca, hm⟩ := hse voter hv key hke hve
  have hc : history.Casts _ frame cast := ⟨effects, he, hca⟩
  obtain ⟨hcI, hco, hd⟩ := h.cast hc
  have heq : frame.id = cf.id := by
    rw [← hcI] at hd ⊢
    rw [← hid]
    exact cfId_eq_of_signingMessage hH hd (hid ▸ hk.2) hm
  refine ⟨frame, cast, hc, heq, ?_⟩
  rw [← hco, heq, hk.1]

/-- Two honest validators that finalize at the same depth finalize the same anchor, unless
some honest validator voted for two frames of that depth. -/
theorem anchor_eq_or_votesTwice (hH : H.CollisionFree) (hcorrect : S.Correct)
    (hstarts : net₀.Starts H S members)
    (hrun : Run (Network.step H S) (fun history net input ↦
      net.Admits H S members history input ∧ net.Identifies H S contentsOf input) net₀ history net)
    {id id' : ValidatorId} {cf cf' : ConsensusFrame D} (hcf : history.Finalized id cf)
    (hcf' : history.Finalized id' cf') (hdepth : cf.anchor.depth = cf'.anchor.depth) :
    anchorContents cf.anchor = anchorContents cf'.anchor ∨
      ∃ voter ∈ members.honest, history.VotesTwice voter cf.anchor.depth := by
  have hi : Inv H S members contentsOf net₀ history net := by
    refine Run.invariant (Inv H S members contentsOf net₀) ?_ ?_ hrun
    · refine ⟨fun id hid ↦ (hstarts.starts id hid).guarded, ?_, ?_⟩
      · rintro id cf ⟨effects, hm, -⟩
        cases hm
      · rintro id frame vote ⟨effects, hm, -⟩
        cases hm
    · rintro history net input h ⟨ha, hin⟩
      exact h.step hcorrect hstarts ha hin
  obtain ⟨hk, Q, hs, hc, hQ⟩ := hi.exists_quorum hstarts hcf
  obtain ⟨hk', Q', hs', hc', hQ'⟩ := hi.exists_quorum hstarts hcf'
  by_cases hsa : cf.id = cf'.id
  · left
    rw [← hk.1, ← hk'.1, hsa]
  · right
    obtain ⟨voter, hv, hv', hf⟩ := exists_mem_inter_of_quorum hs hs' hc
      hc' (ValidatorSet.card_ids members.validators ▸ members.card_faulty_le)
    have hh : voter ∈ members.honest := by
      by_contra hno
      exact hf (Finset.mem_sdiff.mpr ⟨hs hv, hno⟩)
    obtain ⟨vote, hsi⟩ := hQ voter hv
    obtain ⟨vote', hsi'⟩ := hQ' voter hv'
    obtain ⟨frame, cast, hca, hid, hco⟩ := hi.exists_casts hH hh hk hsi
    obtain ⟨frame', cast', hca', hid', hco'⟩ := hi.exists_casts hH hh hk' hsi'
    refine ⟨voter, hh, frame, cast, frame', cast', hca, hca', ?_, ?_, ?_⟩
    · rwa [hid, hid']
    · exact congrArg AnchorContents.depth hco
    · rw [hdepth]
      exact congrArg AnchorContents.depth hco'

/-- Keys that repeat one byte each. -/
def keyOf (id : ValidatorId) : Bytes :=
  .replicate 32 (if id = "v1" then 1 else if id = "v2" then 2 else if id = "v3" then 3 else 4)

/-- Four validators. -/
def fourValidators : ValidatorSet :=
  ["v1", "v2", "v3", "v4"].foldl (fun vs id ↦ vs.addValidator ⟨⟨id, keyOf id⟩, false, 0⟩) .new

/-- All but `v1`, the proposer of round 0, are honest. -/
def fourMembers : Membership where
  validators := fourValidators
  honest := {"v2", "v3", "v4"}
  card_faulty_le := by decide +kernel

/-- Their engines, with strict signatures and keys. -/
def fourEngines : Network (Option Bytes) := fun id ↦
  let e := ConsensusEngine.new Blake3.ideal { validatorCount := 4 } id fourValidators 0
  (e.setPrivateKey (keyOf id)).enableStrictVoteSignatures

variable (event : EventId)

/-- A frame of `v1` for one event. -/
def rivalFrame : ConsensusFrame (Option Bytes) :=
  .new Blake3.ideal 0 ⟨event, [event], ⟨∅, 1, 0⟩, "", none, none, 0, 0⟩ "v1" 0

/-- A signed vote for it. -/
def rivalVote (voter : ValidatorId) : Vote :=
  let vote := Vote.new voter (rivalFrame event).id true 0
  { vote with signature := Ed25519.ideal.sign (keyOf voter) vote.signingMessage }

/-- The frame arrives with the vote of `v1`, and the events are fetched. -/
def frameArrives (id : ValidatorId) : ValidatorId × EngineInput (Option Bytes) × Ambient :=
  let transfer (event : EventId) : Event :=
    { Event.new Blake3.ideal .transfer [] ⟨∅, 1, 0⟩ "v1" 0 with id := event }
  let dag := (Dag.new.store (transfer "e1") 0).store (transfer "e2") 0
  (id, .receiveCf ((rivalFrame event).addVote (rivalVote event "v1"))
    (some fun _ ↦ .ok (dag, ⟨∅, 1, 0⟩)), ⟨0, 0, .ok ()⟩)

/-- A vote arrives. -/
def voteArrives (voter id : ValidatorId) : ValidatorId × EngineInput (Option Bytes) × Ambient :=
  (id, .receiveVote (rivalVote event voter), ⟨0, 0, .ok ()⟩)

/-- The contents the identifiers of the two frames stand for. -/
def rivalContents (id : CFId) : AnchorContents (Option Bytes) :=
  anchorContents (rivalFrame (if id = (rivalFrame "e1").id then "e1" else "e2")).anchor

private theorem starts_fourEngines :
    fourEngines.Starts Blake3.ideal Ed25519.ideal fourMembers where
  starts _ _ := ⟨{ validatorCount := 4 }, by rfl⟩
  secure id hid := by
    have hk : ∀ id ∈ fourMembers.honest, fourValidators.publicKey id = some (keyOf id) := by
      decide +kernel
    exact ⟨rfl, keyOf id, rfl, List.length_replicate, hk id hid⟩
  publicKey_eq _ _ := rfl
  count_eq _ _ := rfl
  localValidatorId_eq _ _ := rfl

/-- What may happen to the four engines. -/
abbrev FourAdmits (history : History (Option Bytes)) (net : Network (Option Bytes))
    (input : ValidatorId × EngineInput (Option Bytes) × Ambient) : Prop :=
  net.Admits Blake3.ideal Ed25519.ideal fourMembers history input ∧
    net.Identifies Blake3.ideal Ed25519.ideal rivalContents input

/-- Runs of the four engines. -/
abbrev FourRun (history : History (Option Bytes)) (net : Network (Option Bytes)) : Prop :=
  Run (Network.step Blake3.ideal Ed25519.ideal) FourAdmits fourEngines history net

private theorem exists_fourRun
    (inputs : List (ValidatorId × EngineInput (Option Bytes) × Ambient)) (event event' : EventId)
    (h : Feeds (Network.step Blake3.ideal Ed25519.ideal) FourAdmits ([], fourEngines) inputs ∧
      ∀ pair ∈ [("v2", event), ("v3", event')],
        ∃ entry ∈ (feed (Network.step Blake3.ideal Ed25519.ideal) ([], fourEngines) inputs).1,
          entry.1 = pair.1 ∧ ∃ cf ∈ entry.2.finalized,
            cf.anchor.depth = 0 ∧ cf.anchor.eventIds = [pair.2]) :
    ∃ history net cf cf', FourRun history net ∧ history.Finalized "v2" cf ∧
      history.Finalized "v3" cf' ∧ cf.anchor.depth = cf'.anchor.depth ∧
      cf.anchor.eventIds = [event] ∧ cf'.anchor.eventIds = [event'] := by
  obtain ⟨hfe, hf⟩ := h
  rw [List.forall_mem_cons, List.forall_mem_singleton] at hf
  obtain ⟨⟨⟨id, effects⟩, he, hid, cf, hcf, hd, hev⟩,
    ⟨id', effects'⟩, he', hid', cf', hcf', hd', hev'⟩ := hf
  subst hid hid'
  exact ⟨_, _, cf, cf', Run.start.feed hfe, ⟨effects, he, hcf⟩, ⟨effects', he', hcf'⟩,
    hd.trans hd'.symm, hev, hev'⟩

theorem anchor_eq_or_votesTwice_fourRun :
    ∃ (history : History (Option Bytes)) (net : Network (Option Bytes))
      (cf cf' : ConsensusFrame (Option Bytes)), FourRun history net ∧
      history.Finalized "v2" cf ∧ history.Finalized "v3" cf' ∧
      cf.anchor.depth = cf'.anchor.depth ∧
      (anchorContents cf.anchor = anchorContents cf'.anchor ∨
        ∃ voter ∈ fourMembers.honest, history.VotesTwice voter cf.anchor.depth) := by
  -- both validators vote for the frame of `e1` and learn of each other's vote
  obtain ⟨history, net, cf, cf', hr, hcf, hcf', hd, -, -⟩ :=
    exists_fourRun [frameArrives "e1" "v2", frameArrives "e1" "v3", voteArrives "e1" "v3" "v2",
      voteArrives "e1" "v2" "v3"] "e1" "e1" (by decide +kernel)
  exact ⟨history, net, cf, cf', hr, hcf, hcf', hd,
    anchor_eq_or_votesTwice Blake3.ideal_collisionFree Ed25519.ideal_correct starts_fourEngines hr
      hcf hcf' hd⟩

/-- The proposer sends two frames for round 0. Every honest validator approves both, so with
the proposer's votes `v2` has a quorum for the first and `v3` for the second. -/
theorem eventIds_ne_fourRun :
    ∃ (history : History (Option Bytes)) (net : Network (Option Bytes))
      (cf cf' : ConsensusFrame (Option Bytes)),
      fourEngines.Starts Blake3.ideal Ed25519.ideal fourMembers ∧ FourRun history net ∧
      history.Finalized "v2" cf ∧ history.Finalized "v3" cf' ∧
      cf.anchor.depth = cf'.anchor.depth ∧ cf.anchor.eventIds ≠ cf'.anchor.eventIds := by
  obtain ⟨history, net, cf, cf', hr, hcf, hcf', hd, he, he'⟩ :=
    exists_fourRun [frameArrives "e1" "v2", frameArrives "e1" "v3", frameArrives "e2" "v2",
      frameArrives "e2" "v3", voteArrives "e1" "v3" "v2", voteArrives "e2" "v2" "v3"] "e1" "e2"
      (by decide +kernel)
  refine ⟨history, net, cf, cf', starts_fourEngines, hr, hcf, hcf', hd, ?_⟩
  rw [he, he']
  decide

end Network

end Setu.Consensus
