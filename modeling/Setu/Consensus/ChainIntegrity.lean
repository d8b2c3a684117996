import Setu.Base.Machine
import Setu.Consensus.EngineStep

/-!
# The anchor chain root over whole runs

Library `Consensus`. The stored chain root is meant to be the fold of `chain_hash` over the
hashes of all finalized anchors. A step keeps this if the frame it finalizes declares the
local chain root; own builds always do. A follower continues whatever root the frame
declares, and that was compared with the local one only when the frame arrived.
-/

namespace Setu.Consensus

open Setu.Base Setu.Types Setu.Merkle Setu.State

variable {D : Type}

/-- The chain of a list of anchors, from the genesis value. -/
def anchorChain (H : Blake3 D) (anchors : List (Anchor D)) : D :=
  anchors.foldl (fun root anchor ↦ chainHash H root (anchor.computeHash H)) H.zero

/-- The anchors finalized in a run, in order. -/
def finalizedAnchors (effects : List (Effects D)) : List (Anchor D) :=
  effects.filterMap fun effect ↦ effect.finalized.map (·.anchor)

/-- A new manager, perhaps with its validator count updated. -/
def ConsensusManager.Fresh [DecidableEq D] (H : Blake3 D) (m : ConsensusManager D) : Prop :=
  ∃ config count, m = (new H config m.localValidatorId).updateValidatorCount count

namespace ConsensusEngine

variable [DecidableEq D] {H : Blake3 D} {S : Ed25519} {e₀ e : ConsensusEngine D}

/-- If the step finalizes a frame, then one that declares the chain root held before. -/
def DeclaresLocalRoot (H : Blake3 D) (S : Ed25519) (e : ConsensusEngine D)
    (input : EngineInput D × Ambient) : Prop :=
  ∀ cf ∈ (e.step H S input).1.finalized,
    ∃ roots ∈ cf.anchor.merkleRoots, roots.anchorChainRoot = e.anchorChainRoot

instance (e : ConsensusEngine D) (input : EngineInput D × Ambient) :
    Decidable (e.DeclaresLocalRoot H S input) :=
  inferInstanceAs (Decidable (∀ cf ∈ (e.step H S input).1.finalized,
    ∃ roots ∈ cf.anchor.merkleRoots, roots.anchorChainRoot = e.anchorChainRoot))

/-- The invariant without a demand on anchors or votes. -/
abbrev BuildsInv (H : Blake3 D) (e : ConsensusEngine D) : Prop :=
  e.consensusManager.Inv H (fun _ _ ↦ True) (fun _ _ _ ↦ True)

private theorem admits_trivial (e : ConsensusEngine D) (input : EngineInput D × Ambient) :
    e.Admits H S (fun _ _ ↦ True) (fun _ _ _ ↦ True) input where
  delivers := by
    obtain ⟨input, env⟩ := input
    cases input <;> simp [Delivers]
  proposed _ _ := trivial
  cast _ := trivial

theorem inv_of_fresh {Known : CFId → Anchor D → Prop} {Valid : CFId → String → Vote → Prop}
    (h : e.consensusManager.Fresh H) : e.consensusManager.Inv H Known Valid := by
  obtain ⟨config, count, heq⟩ := h
  rw [heq]
  exact ConsensusManager.inv_new ..

/-- One step extends the chain by the anchor it finalizes, if any. -/
theorem anchorChainRoot_step (hi : BuildsInv H e) {input : EngineInput D × Ambient}
    (hde : e.DeclaresLocalRoot H S input) :
    (e.step H S input).2.anchorChainRoot =
      (finalizedAnchors [(e.step H S input).1]).foldl
        (fun root anchor ↦ chainHash H root (anchor.computeHash H)) e.anchorChainRoot := by
  obtain ⟨m, hin, hi', hs⟩ := step_handles hi (admits_trivial (S := S) e input)
  unfold finalizedAnchors
  unfold anchorChainRoot
  rw [← hin.anchorBuilder_eq]
  cases hf : (e.step H S input).1.finalized with
  | none =>
    simp only [List.filterMap_cons, hf, Option.map_none, List.filterMap_nil, List.foldl_nil]
    exact hs.chainRoot_eq hf
  | some cf =>
    obtain ⟨id, hfi⟩ := hs.finalizes hf
    obtain ⟨roots, hr, hd⟩ := hde cf hf
    unfold anchorChainRoot at hd
    rw [← hin.anchorBuilder_eq] at hd
    simp only [List.filterMap_cons, hf, Option.map_some, List.filterMap_nil,
      List.foldl_cons, List.foldl_nil]
    exact hfi.chainRoot_eq hi' hr hd

/-- In every run of a validator in which each frame it finalizes declares the chain root it
holds at that moment, its chain root is the chain of the anchors finalized so far. -/
theorem anchorChainRoot_eq_anchorChain (hfresh : e₀.consensusManager.Fresh H)
    {effects : List (Effects D)}
    (hrun : Run (step H S) (fun _ e input ↦ e.DeclaresLocalRoot H S input) e₀ effects e) :
    e.anchorChainRoot = anchorChain H (finalizedAnchors effects) := by
  have hin : BuildsInv H e ∧ e.anchorChainRoot = anchorChain H (finalizedAnchors effects) := by
    refine Run.invariant (fun effects e ↦ BuildsInv H e ∧
      e.anchorChainRoot = anchorChain H (finalizedAnchors effects)) ?_ ?_ hrun
    · refine ⟨inv_of_fresh hfresh, ?_⟩
      obtain ⟨config, count, heq⟩ := hfresh
      unfold anchorChainRoot
      rw [heq]
      rfl
    · rintro effects e input ⟨hi, hr⟩ hd
      obtain ⟨m, -, hi', hs⟩ := step_handles hi (admits_trivial (S := S) e input)
      refine ⟨hi'.of_shrinks hs.shrinks, ?_⟩
      rw [anchorChainRoot_step hi hd, hr]
      unfold finalizedAnchors anchorChain
      rw [List.filterMap_append, List.foldl_append]
  exact hin.2

/-- Validator `v2` of `v1` and `v2`, in permissive mode. -/
def follower : ConsensusEngine (Option Bytes) :=
  let validators := ValidatorSet.new.addValidator ⟨⟨"v1", []⟩, false, 0⟩
  .new Blake3.ideal { validatorCount := 2 } "v2" (validators.addValidator ⟨⟨"v2", []⟩, false, 0⟩) 0

variable (id : AnchorId)

/-- An anchor without events that declares the genesis chain root. -/
def genesisAnchor : Anchor (Option Bytes) where
  id := id
  eventIds := []
  vlcSnapshot := ⟨∅, 0, 0⟩
  stateRoot := ""
  merkleRoots :=
    let globalRoot := ((GlobalStateManager.new Blake3.ideal).computeGlobalRoot Blake3.ideal).1
    some ⟨Blake3.ideal.zero, globalRoot, Blake3.ideal.zero, ∅⟩
  previousAnchor := none
  depth := 0
  timestamp := 0

/-- Round 0's proposer `v1` proposes such an anchor. -/
def genesisFrame : ConsensusFrame (Option Bytes) :=
  .new Blake3.ideal 0 (genesisAnchor id) "v1" 0

/-- The frame of `id` arrives. -/
def frameArrives : EngineInput (Option Bytes) × Ambient :=
  (.receiveCf (genesisFrame id) none, ⟨0, 0, .ok ()⟩)

/-- The proposer's vote for the frame of `id` arrives, the second of two votes. -/
def voteArrives : EngineInput (Option Bytes) × Ambient :=
  (.receiveVote (.new "v1" (genesisFrame id).id true 0), ⟨0, 0, .ok ()⟩)

theorem anchorChainRoot_eq_anchorChain_genesisFrame :
    (feed (step Blake3.ideal Ed25519.ideal) ([], follower)
      [frameArrives "a", voteArrives "a"]).2.anchorChainRoot =
        anchorChain Blake3.ideal [genesisAnchor "a"] := by
  have hf : Feeds (step Blake3.ideal Ed25519.ideal)
      (fun _ e input ↦ e.DeclaresLocalRoot Blake3.ideal Ed25519.ideal input) ([], follower)
      [frameArrives "a", voteArrives "a"] := by
    decide +kernel
  rw [anchorChainRoot_eq_anchorChain ⟨{ validatorCount := 2 }, 2, rfl⟩ (Run.start.feed hf)]
  decide +kernel

/-- Both frames pass the check of the declared root on arrival. When the second is finalized,
the root it declares is no longer the local one, and the first anchor drops out of the chain. -/
theorem anchorChainRoot_ne_anchorChain_genesisFrames :
    ∃ effects e, follower.consensusManager.Fresh Blake3.ideal ∧
      Run (step Blake3.ideal Ed25519.ideal) (fun _ _ _ ↦ True) follower effects e ∧
      (finalizedAnchors effects).map (·.id) = ["a", "b"] ∧
      e.anchorChainRoot ≠ anchorChain Blake3.ideal (finalizedAnchors effects) := by
  have hf : Feeds (step Blake3.ideal Ed25519.ideal) (fun _ _ _ ↦ True) ([], follower)
      [frameArrives "a", frameArrives "b", voteArrives "a", voteArrives "b"] :=
    ⟨trivial, trivial, trivial, trivial, trivial⟩
  refine ⟨_, _, ⟨{ validatorCount := 2 }, 2, rfl⟩, Run.start.feed hf, ?_⟩
  decide +kernel

end ConsensusEngine

end Setu.Consensus
