import Setu.Base.Quorum
import Setu.Consensus.FolderInvariant

/-!
# Finalizing a frame

Library `Consensus`. Classifying a frame only removes things, and the anchor chain root moves
exactly when a frame is finalized. A finalized frame was tracked, has its quorum of valid
votes, and extends the local chain if it declares the local chain root.
-/

namespace Setu.Consensus

open Setu.Base Setu.Types Setu.Merkle Setu.State

variable {D : Type} {H : Blake3 D}

namespace AnchorBuilder

variable [DecidableEq D]

/-- The chain root after following an anchor: it continues the root the anchor declares. -/
def followedChainRoot (H : Blake3 D) (root : D) (anchor : Anchor D) : D :=
  match anchor.merkleRoots with
  | some roots => chainHash H roots.anchorChainRoot (anchor.computeHash H)
  | none => root

theorem lastAnchorChainRoot_applyAndCommit (b : AnchorBuilder D) (events : List Event)
    (depth : UInt64) (answer : Except MerkleError Unit) :
    (b.applyAndCommit H events depth answer).2.lastAnchorChainRoot = b.lastAnchorChainRoot := by
  unfold applyAndCommit
  dsimp only
  split <;> rfl

variable {result : Except (AnchorBuildError D) (StateApplySummary D)}

/-- A commit takes the build's chain root, from the snapshot the build was prepared in, or it
fails and leaves the chain root alone. -/
theorem commitBuild_chainRoot {b b' : AnchorBuilder D} {build : PendingAnchorBuild D}
    {answer : Except MerkleError Unit} {instant : Nat}
    (h : b.commitBuild H build answer instant = (result, b')) :
    (∃ summary, result = .ok summary ∧ b.verifySnapshot build.preBuildSnapshot = true ∧
        b'.lastAnchorChainRoot = build.newAnchorChainRoot) ∨
      ∃ e, result = .error e ∧ b'.lastAnchorChainRoot = b.lastAnchorChainRoot := by
  unfold commitBuild at h
  split at h
  · cases h
    exact .inr ⟨_, rfl, rfl⟩
  · next hs =>
    rw [Bool.not_eq_true, Bool.not_eq_false'] at hs
    have hk := lastAnchorChainRoot_applyAndCommit (H := H) b build.allEvents
      build.newAnchorDepth answer
    generalize b.applyAndCommit H build.allEvents build.newAnchorDepth answer = applied at h hk
    obtain ⟨applied, b₁⟩ := applied
    cases applied with
    | ok summary =>
      cases h
      exact .inl ⟨summary, rfl, hs, rfl⟩
    | error e =>
      cases h
      exact .inr ⟨e, rfl, hk⟩

private theorem lastAnchorChainRoot_verifyAndApply (b : AnchorBuilder D) (events : List Event)
    (anchor : Anchor D) (answer : Except MerkleError Unit) :
    (b.verifyAndApply H events anchor answer).2.lastAnchorChainRoot = b.lastAnchorChainRoot := by
  unfold verifyAndApply
  split
  · exact lastAnchorChainRoot_applyAndCommit b _ _ _
  · dsimp only
    split
    · rfl
    · exact lastAnchorChainRoot_applyAndCommit b _ _ _

/-- Following a frame continues the declared chain root, or it fails and leaves the chain root
alone. -/
theorem applyFollowerFinalizedCf_chainRoot {b b' : AnchorBuilder D} {events : List Event}
    {cf : ConsensusFrame D} {answer : Except MerkleError Unit} {instant : Nat}
    (h : b.applyFollowerFinalizedCf H events cf answer instant = (result, b')) :
    (∃ summary, result = .ok summary ∧
        b'.lastAnchorChainRoot = followedChainRoot H b.lastAnchorChainRoot cf.anchor) ∨
      ∃ e, result = .error e ∧ b'.lastAnchorChainRoot = b.lastAnchorChainRoot := by
  unfold applyFollowerFinalizedCf at h
  split at h
  · cases h
    exact .inr ⟨_, rfl, rfl⟩
  · have hk := lastAnchorChainRoot_verifyAndApply (H := H) b events cf.anchor answer
    generalize b.verifyAndApply H events cf.anchor answer = verified at h hk
    obtain ⟨verified, b₁⟩ := verified
    cases verified with
    | error e =>
      cases h
      exact .inr ⟨e, rfl, hk⟩
    | ok summary =>
      cases h
      refine .inl ⟨summary, rfl, ?_⟩
      unfold synchronizeFinalizedAnchor followedChainRoot
      cases cf.anchor.merkleRoots with
      | none => exact hk
      | some roots => rfl

end AnchorBuilder

namespace ConsensusManager

variable [DecidableEq D] {Known : CFId → Anchor D → Prop}
  {Valid : CFId → String → Vote → Prop} {m m' : ConsensusManager D} {id : CFId}
  {cf : ConsensusFrame D} {env : Ambient}

/-- The chain root after a frame was finalized: that of the own build, if nothing was committed
since it was prepared, or the one the frame leads to. -/
def Advances (H : Blake3 D) (m m' : ConsensusManager D) (id : CFId) (anchor : Anchor D) : Prop :=
  (∃ build, m.pendingBuilds.lookup id = some build ∧
      m.anchorBuilder.verifySnapshot build.preBuildSnapshot = true ∧
      m'.anchorBuilder.lastAnchorChainRoot = build.newAnchorChainRoot) ∨
    m'.anchorBuilder.lastAnchorChainRoot =
      AnchorBuilder.followedChainRoot H m.anchorBuilder.lastAnchorChainRoot anchor

private theorem applyFollower_cases (m : ConsensusManager D) (id : CFId) (cf : ConsensusFrame D)
    (events : List Event) (role : ApplyFailureRole) (env : Ambient) :
    ∃ result b, m.applyFollower H id cf events role env = (result, { m with anchorBuilder := b }) ∧
      ((∃ failure, result = .error failure ∧
          b.lastAnchorChainRoot = m.anchorBuilder.lastAnchorChainRoot) ∨
        result = .ok () ∧ b.lastAnchorChainRoot =
          AnchorBuilder.followedChainRoot H m.anchorBuilder.lastAnchorChainRoot cf.anchor) := by
  unfold applyFollower
  cases ha : m.anchorBuilder.applyFollowerFinalizedCf H events cf env.answer env.instant with
  | mk result b =>
    rcases AnchorBuilder.applyFollowerFinalizedCf_chainRoot ha with
      ⟨summary, rfl, hr⟩ | ⟨e, rfl, hr⟩
    · exact ⟨_, _, rfl, .inr ⟨rfl, hr⟩⟩
    · exact ⟨_, _, rfl, .inl ⟨_, rfl, hr⟩⟩

/-- Applying a finalized frame removes its build and its events; when it succeeds the chain
root advances, otherwise it stays. -/
theorem applyFinalized_cases (m : ConsensusManager D) (id : CFId) (cf : ConsensusFrame D)
    (env : Ambient) :
    ∃ result b built, m.applyFinalized H id cf env = (result, { m with
        anchorBuilder := b
        pendingBuilds := m.pendingBuilds.erase id
        pendingCfEvents := m.pendingCfEvents.erase id
        lastBuildResult := built }) ∧
      ((∃ failure, result = .error failure ∧
          b.lastAnchorChainRoot = m.anchorBuilder.lastAnchorChainRoot) ∨
        result = .ok () ∧ m.Advances H { m with anchorBuilder := b } id cf.anchor) := by
  unfold applyFinalized
  cases hb : m.pendingBuilds.lookup id with
  | none =>
    obtain ⟨result, b, ha, hr⟩ := applyFollower_cases (H := H)
      { m with pendingCfEvents := m.pendingCfEvents.erase id } id cf
      ((m.pendingCfEvents.lookup id).getD []) .follower env
    refine ⟨result, b, m.lastBuildResult, ?_, hr.imp_right (And.imp_right .inr)⟩
    rw [ha, HashMap.erase_eq_self hb]
  | some build =>
    dsimp only
    cases hc : m.anchorBuilder.commitBuild H build env.answer env.instant with
    | mk result b =>
      rcases AnchorBuilder.commitBuild_chainRoot hc with
        ⟨summary, rfl, hs, hr⟩ | ⟨e, rfl, hr⟩
      · exact ⟨_, _, _, rfl, .inr ⟨rfl, .inl ⟨build, hb, hs, hr⟩⟩⟩
      · -- a failed commit leaves the chain root, which the fallback then starts from
        cases e with
        | snapshotMismatch expectedDepth actualDepth =>
          obtain ⟨result, b', ha, hr'⟩ := applyFollower_cases (H := H) { m with
              pendingBuilds := m.pendingBuilds.erase id
              pendingCfEvents := m.pendingCfEvents.erase id
              anchorBuilder := b } id cf build.allEvents .leaderFollowerFallback env
          refine ⟨result, b', m.lastBuildResult, ha, ?_⟩
          rw [hr] at hr'
          exact hr'.imp_right (And.imp_right .inr)
        | insufficientEvents | deltaNotReached | merkleError | noEvents | missingEvents
        | rootMismatch => exact ⟨_, _, m.lastBuildResult, rfl, .inl ⟨_, rfl, hr⟩⟩

omit [DecidableEq D] in
private theorem gcFinalizedCfs_eq (m : ConsensusManager D) :
    ∃ cfs ids, m.gcFinalizedCfs =
      { m with finalizedCfs := cfs, persistedAnchorIds := ids } := by
  unfold gcFinalizedCfs
  dsimp only
  split
  · exact ⟨m.finalizedCfs, m.persistedAnchorIds, rfl⟩
  · exact ⟨_, _, rfl⟩

/-- A pending frame with its quorum was finalized, and the chain root advanced. -/
structure Finalizes (H : Blake3 D) (m m' : ConsensusManager D) (id : CFId)
    (cf : ConsensusFrame D) : Prop where
  pending : ∃ frame now, m.pendingCfs.lookup id = some frame ∧ cf = frame.finalize now
  checkQuorum : cf.checkQuorum m.config.validatorCount = true
  advances : m.Advances H m' id cf.anchor

/-- `m'` is `m` after a frame was looked at: things were only removed, and the chain root moved
exactly if a frame was finalized. -/
structure Settled (H : Blake3 D) (m : ConsensusManager D) (finalized : Option (ConsensusFrame D))
    (m' : ConsensusManager D) : Prop where
  shrinks : Shrinks m m'
  finalizes : ∀ {cf}, finalized = some cf → ∃ id, m.Finalizes H m' id cf
  chainRoot_eq : finalized = none →
    m'.anchorBuilder.lastAnchorChainRoot = m.anchorBuilder.lastAnchorChainRoot

theorem Settled.of_shrinks (hs : Shrinks m m')
    (hb : m'.anchorBuilder = m.anchorBuilder) :
    Settled H m none m' :=
  ⟨hs, nofun, fun _ ↦ congrArg _ hb⟩

/-- A classification settles the manager. -/
theorem settled_classifyFinalization (m : ConsensusManager D) (id : CFId) (env : Ambient) :
    Settled H m (m.classifyFinalization H id env).1.finalizedFrame
      (m.classifyFinalization H id env).2 := by
  unfold classifyFinalization
  cases hcf : m.pendingCfs.lookup id with
  | none => exact .of_shrinks (.refl m) rfl
  | some frame =>
    dsimp only
    cases hd : m.decision frame env.now with
    | none => exact .of_shrinks (.refl m) rfl
    | some decision =>
      cases decision with
      | reject | timeout => exact .of_shrinks (shrinks_discard m id) rfl
      | finalize =>
        have hq : frame.checkQuorum m.config.validatorCount = true := by
          unfold decision at hd
          by_contra hno
          rw [if_neg hno] at hd
          split at hd
          · cases hd
          · split at hd <;> cases hd
        obtain ⟨result, b, built, ha, hr⟩ := applyFinalized_cases (H := H)
          { m with pendingCfs := m.pendingCfs.erase id } id (frame.finalize env.now) env
        dsimp only
        rw [ha]
        rcases hr with ⟨failure, rfl, hr⟩ | ⟨rfl, hr⟩
        · exact ⟨shrinks_of_erase rfl rfl (fun h ↦ h) rfl rfl, nofun, fun _ ↦ hr⟩
        · dsimp only
          obtain ⟨cfs, ids, hgc⟩ := gcFinalizedCfs_eq { m with
              pendingCfs := m.pendingCfs.erase id
              anchorBuilder := b
              pendingBuilds := m.pendingBuilds.erase id
              pendingCfEvents := m.pendingCfEvents.erase id
              lastBuildResult := built
              lastApplyFailure := none
              finalizedCfs := m.finalizedCfs ++ [frame.finalize env.now] }
          rw [hgc]
          refine ⟨shrinks_of_erase rfl rfl (fun h ↦ h) rfl rfl, ?_, nofun⟩
          intro cf hf
          cases hf
          exact ⟨id, ⟨frame, env.now, hcf, rfl⟩, hq, hr⟩

/-- A finalized frame was tracked. -/
theorem Finalizes.tracked (h : m.Finalizes H m' id cf) (hi : m.Inv H Known Valid) :
    cf.Tracked Known Valid id := by
  obtain ⟨frame, now, hf, rfl⟩ := h.pending
  have ht := hi.frames hf
  exact ⟨ht.id_eq, ht.known, ht.votes⟩

/-- A finalized frame has valid approving votes under a quorum of names. -/
theorem Finalizes.exists_quorum (h : m.Finalizes H m' id cf) (hi : m.Inv H Known Valid) :
    ∃ voters : Finset String, quorum m.config.validatorCount ≤ voters.card ∧
      ∀ voter ∈ voters, ∃ vote, vote.approve = true ∧ Valid id voter vote := by
  obtain ⟨voters, hc, hv⟩ := cf.votes.exists_finset_card_eq_countP (·.approve)
  refine ⟨voters, ?_, ?_⟩
  · rw [hc]
    exact of_decide_eq_true h.checkQuorum
  · intro voter hvo
    obtain ⟨vote, hvt, ha⟩ := hv voter hvo
    exact ⟨vote, ha, (h.tracked hi).votes hvt⟩

/-- Finalizing a frame that declares the local chain root appends its anchor to the chain. -/
theorem Finalizes.chainRoot_eq (h : m.Finalizes H m' id cf) (hi : m.Inv H Known Valid)
    {roots : AnchorMerkleRoots D} (hro : cf.anchor.merkleRoots = some roots)
    (hd : roots.anchorChainRoot = m.anchorBuilder.lastAnchorChainRoot) :
    m'.anchorBuilder.lastAnchorChainRoot =
      chainHash H m.anchorBuilder.lastAnchorChainRoot (cf.anchor.computeHash H) := by
  rcases h.advances with ⟨build, hb, hs, hr⟩ | hr
  · -- the own build was prepared on this chain root, over this anchor
    obtain ⟨hp, frame, hf, ha⟩ := hi.builds hb
    obtain ⟨frame', now, hf', rfl⟩ := h.pending
    cases hf.symm.trans hf'
    unfold AnchorBuilder.verifySnapshot at hs
    simp only [Bool.and_eq_true, decide_eq_true_eq] at hs
    rw [hr, hp.newAnchorChainRoot_eq, ← hs.1.2, ← ha]
    rfl
  · rw [hr]
    unfold AnchorBuilder.followedChainRoot
    rw [hro]
    dsimp only
    rw [hd]

/-- A valid vote is buffered, dropped as a duplicate, or counted and settled. -/
theorem Inv.receiveVote (h : m.Inv H Known Valid) {vote : Vote}
    (hv : Valid vote.cfId vote.validatorId vote) (env : Ambient) :
    ∃ m₁, m.Intake m₁ ∧ m₁.Inv H Known Valid ∧
      m₁.Settled H (m.receiveVote H vote env).1.finalizedFrame (m.receiveVote H vote env).2 := by
  unfold ConsensusManager.receiveVote
  split
  · exact ⟨{ m with bufferedVotes := m.bufferedVotes.pushAt vote.cfId vote },
      ⟨rfl, rfl, rfl⟩, h.bufferVote hv, .of_shrinks (.refl _) rfl⟩
  · next cf hcf =>
    split
    · exact ⟨m, ⟨rfl, rfl, rfl⟩, h, .of_shrinks (.refl _) rfl⟩
    · refine ⟨{ m with pendingCfs := m.pendingCfs.insert vote.cfId (cf.addVote vote) },
        ⟨rfl, rfl, rfl⟩, h.insertFrame ((h.frames hcf).addVote hv) ?_,
        settled_classifyFinalization _ _ _⟩
      intro old ho
      cases hcf.symm.trans ho
      rfl

/-- A tracked finalized frame is merged and settled. -/
theorem Inv.receiveFinalizedCf (h : m.Inv H Known Valid) (hcf : cf.Tracked Known Valid cf.id)
    (hv : ∀ vote ∈ cf.votes.values, Valid cf.id vote.validatorId vote) (env : Ambient) :
    ∃ m₁, m.Intake m₁ ∧ m₁.Inv H Known Valid ∧
      m₁.Settled H (m.receiveFinalizedCf H cf env).1.finalizedFrame
        (m.receiveFinalizedCf H cf env).2 := by
  unfold ConsensusManager.receiveFinalizedCf
  split
  · exact ⟨m, ⟨rfl, rfl, rfl⟩, h, .of_shrinks (.refl _) rfl⟩
  · exact ⟨_, intake_mergeFinalizedCf m cf, h.mergeFinalizedCf hcf hv,
      settled_classifyFinalization _ _ _⟩

end ConsensusManager

end Setu.Consensus
