import Setu.Consensus.Folder

/-!
# What the manager's operations keep

Library `Consensus`. One invariant over frames, builds and buffered votes, for any notion of a
known anchor and of a valid vote, is kept by every operation: by removals, by taking frames and
votes in, and by proposing.
-/

namespace Setu.Types.ConsensusFrame

open Setu.Base

variable {D : Type} {Known : CFId → Anchor D → Prop} {Valid : CFId → String → Vote → Prop}
  {id : CFId} {cf : ConsensusFrame D}

/-- A frame stored under its identifier, with a known anchor and valid votes only. -/
structure Tracked (Known : CFId → Anchor D → Prop) (Valid : CFId → String → Vote → Prop)
    (id : CFId) (cf : ConsensusFrame D) : Prop where
  id_eq : cf.id = id
  known : Known id cf.anchor
  votes : ∀ {voter vote}, cf.votes.lookup voter = some vote → Valid id voter vote

/-- A valid vote may be added. -/
theorem Tracked.addVote (h : Tracked Known Valid id cf) {vote : Vote}
    (hv : Valid id vote.validatorId vote) : Tracked Known Valid id (cf.addVote vote) where
  id_eq := h.id_eq
  known := h.known
  votes := by
    intro voter found hf
    rcases HashMap.lookup_insert_cases hf with ⟨rfl, rfl⟩ | ⟨-, ho⟩
    · exact hv
    · exact h.votes ho

/-- Adding votes leaves the anchor alone. -/
@[simp]
theorem anchor_addMissingVotes (cf : ConsensusFrame D) (votes : List Vote) :
    (cf.addMissingVotes votes).anchor = cf.anchor := by
  unfold addMissingVotes
  induction votes generalizing cf with
  | nil => rfl
  | cons vote rest ih =>
    rw [List.foldl_cons, ih]
    split <;> rfl

/-- Valid votes may be added together. -/
theorem Tracked.addMissingVotes (h : Tracked Known Valid id cf) {votes : List Vote}
    (hv : ∀ vote ∈ votes, Valid id vote.validatorId vote) :
    Tracked Known Valid id (cf.addMissingVotes votes) := by
  unfold ConsensusFrame.addMissingVotes
  induction votes generalizing cf with
  | nil => exact h
  | cons vote rest ih =>
    rw [List.forall_mem_cons] at hv
    rw [List.foldl_cons]
    apply ih _ hv.2
    split
    · exact h
    · exact h.addVote hv.1

end Setu.Types.ConsensusFrame

namespace Setu.Consensus

open Setu.Base Setu.Types Setu.Merkle Setu.State

variable {D : Type} {H : Blake3 D}

/-- A build as `prepare_build` makes it: its anchor declares the chain root of the snapshot, and
the new chain root continues it. -/
structure PendingAnchorBuild.Prepared (H : Blake3 D) (build : PendingAnchorBuild D) : Prop where
  declared : ∃ roots, build.anchor.merkleRoots = some roots ∧
    roots.anchorChainRoot = build.preBuildSnapshot.lastAnchorChainRoot
  newAnchorChainRoot_eq : build.newAnchorChainRoot =
    chainHash H build.preBuildSnapshot.lastAnchorChainRoot (build.anchor.computeHash H)

namespace ConsensusManager

variable {Known : CFId → Anchor D → Prop} {Valid : CFId → String → Vote → Prop}
  {m m' m'' : ConsensusManager D} {id : CFId} {cf : ConsensusFrame D}

/-- Pending frames are tracked, buffered votes are valid for the frame they wait for, and an
open build belongs to a pending frame over its anchor. -/
structure Inv (H : Blake3 D) (Known : CFId → Anchor D → Prop)
    (Valid : CFId → String → Vote → Prop) (m : ConsensusManager D) : Prop where
  frames : ∀ {id cf}, m.pendingCfs.lookup id = some cf → cf.Tracked Known Valid id
  buffered : ∀ {id votes vote}, m.bufferedVotes.lookup id = some votes → vote ∈ votes →
    Valid id vote.validatorId vote
  builds : ∀ {id build}, m.pendingBuilds.lookup id = some build → build.Prepared H ∧
    ∃ cf, m.pendingCfs.lookup id = some cf ∧ cf.anchor = build.anchor

/-- The invariant for more anchors and votes. -/
theorem Inv.mono {Known' : CFId → Anchor D → Prop} {Valid' : CFId → String → Vote → Prop}
    (h : m.Inv H Known Valid) (hk : ∀ {id anchor}, Known id anchor → Known' id anchor)
    (hva : ∀ {id voter vote}, Valid id voter vote → Valid' id voter vote) :
    m.Inv H Known' Valid' where
  frames := by
    intro id cf hcf
    have ht := h.frames hcf
    exact ⟨ht.id_eq, hk ht.known, fun hv ↦ hva (ht.votes hv)⟩
  buffered := fun hvo hv ↦ hva (h.buffered hvo hv)
  builds := h.builds

/-- A new manager tracks nothing, whatever number of validators it is told. -/
theorem inv_new (config : ConsensusConfig) (validatorId : String) (count : Nat) :
    ((new H config validatorId).updateValidatorCount count).Inv H Known Valid where
  frames h := by cases h
  buffered h := by cases h
  builds h := by cases h

/-- `m'` is `m` after frames were closed: a frame stays as it is or goes with its build, and
builds and buffered votes only go. -/
structure Shrinks (m m' : ConsensusManager D) : Prop where
  frames : ∀ id, m'.pendingCfs.lookup id = m.pendingCfs.lookup id ∨
    m'.pendingCfs.lookup id = none ∧ m'.pendingBuilds.lookup id = none
  builds : ∀ {id build}, m'.pendingBuilds.lookup id = some build →
    m.pendingBuilds.lookup id = some build
  buffered : ∀ {id votes}, m'.bufferedVotes.lookup id = some votes →
    m.bufferedVotes.lookup id = some votes
  config_eq : m'.config = m.config
  localValidatorId_eq : m'.localValidatorId = m.localValidatorId

theorem Shrinks.refl (m : ConsensusManager D) : Shrinks m m :=
  ⟨fun _ ↦ .inl rfl, fun h ↦ h, fun h ↦ h, rfl, rfl⟩

theorem Shrinks.trans (h : Shrinks m m') (h' : Shrinks m' m'') : Shrinks m m'' where
  frames := by
    intro id
    rcases h'.frames id with hk | hg
    · rcases h.frames id with hk' | hg'
      · exact .inl (hk.trans hk')
      · refine .inr ⟨hk.trans hg'.1, ?_⟩
        apply Option.eq_none_iff_forall_ne_some.mpr
        intro build hb
        rw [h'.builds hb] at hg'
        cases hg'.2
    · exact .inr hg
  builds hb := h.builds (h'.builds hb)
  buffered hv := h.buffered (h'.buffered hv)
  config_eq := h'.config_eq.trans h.config_eq
  localValidatorId_eq := h'.localValidatorId_eq.trans h.localValidatorId_eq

/-- Removals keep the invariant. -/
theorem Inv.of_shrinks (h : m.Inv H Known Valid) (hm : Shrinks m m') :
    m'.Inv H Known Valid where
  frames := by
    intro id cf hcf
    rcases hm.frames id with hk | hg
    · exact h.frames (hk ▸ hcf)
    · rw [hg.1] at hcf
      cases hcf
  buffered hv := h.buffered (hm.buffered hv)
  builds := by
    intro id build hb
    rcases hm.frames id with hk | hg
    · rw [hk]
      exact h.builds (hm.builds hb)
    · rw [hg.2] at hb
      cases hb

/-- What removing one frame with its build leaves. -/
theorem shrinks_of_erase (hc : m'.pendingCfs = m.pendingCfs.erase id)
    (hb : m'.pendingBuilds = m.pendingBuilds.erase id)
    (hbf : ∀ {id votes}, m'.bufferedVotes.lookup id = some votes →
      m.bufferedVotes.lookup id = some votes)
    (hco : m'.config = m.config) (hl : m'.localValidatorId = m.localValidatorId) :
    Shrinks m m' where
  frames := by
    intro id'
    rw [hc, hb]
    by_cases heq : id' = id
    · subst heq
      exact .inr ⟨AList.lookup_erase _ _, AList.lookup_erase _ _⟩
    · exact .inl (AList.lookup_erase_ne heq)
  builds := by
    intro id' build hbu
    rw [hb] at hbu
    exact HashMap.lookup_of_lookup_erase hbu
  buffered := hbf
  config_eq := hco
  localValidatorId_eq := hl

theorem shrinks_discard (m : ConsensusManager D) (id : CFId) : Shrinks m (m.discard id) :=
  shrinks_of_erase rfl rfl (fun h ↦ h) rfl rfl

theorem shrinks_cleanupTimeoutCf (m : ConsensusManager D) (id : CFId) :
    Shrinks m (m.cleanupTimeoutCf id) := by
  have hc : (m.cleanupTimeoutCf id).pendingCfs = m.pendingCfs.erase id := rfl
  exact shrinks_of_erase hc rfl HashMap.lookup_of_lookup_erase rfl rfl

/-- Dropping timed-out frames only removes, and leaves the builder alone. -/
theorem shrinks_cleanupTimeoutCfs (m : ConsensusManager D) (env : Ambient) :
    Shrinks m (m.cleanupTimeoutCfs env).2 ∧
      (m.cleanupTimeoutCfs env).2.anchorBuilder = m.anchorBuilder := by
  unfold cleanupTimeoutCfs
  dsimp only
  generalize List.map Prod.fst _ = ids
  induction ids generalizing m with
  | nil => exact ⟨.refl m, rfl⟩
  | cons id rest ih =>
    obtain ⟨hs, hb⟩ := ih (m.cleanupTimeoutCf id)
    exact ⟨(shrinks_cleanupTimeoutCf m id).trans hs, hb⟩

/-- `m'` is `m` with frames, builds, events or votes taken in. -/
structure Intake (m m' : ConsensusManager D) : Prop where
  anchorBuilder_eq : m'.anchorBuilder = m.anchorBuilder
  config_eq : m'.config = m.config
  localValidatorId_eq : m'.localValidatorId = m.localValidatorId

theorem Intake.trans (h : Intake m m') (h' : Intake m' m'') :
    Intake m m'' :=
  ⟨h'.anchorBuilder_eq.trans h.anchorBuilder_eq, h'.config_eq.trans h.config_eq,
    h'.localValidatorId_eq.trans h.localValidatorId_eq⟩

/-- A tracked frame may be stored, if it keeps the anchor of one stored before. -/
theorem Inv.insertFrame (h : m.Inv H Known Valid) (hcf : cf.Tracked Known Valid id)
    (ha : ∀ {old}, m.pendingCfs.lookup id = some old → cf.anchor = old.anchor) :
    { m with pendingCfs := m.pendingCfs.insert id cf }.Inv H Known Valid where
  frames := by
    intro id' found hf
    rcases HashMap.lookup_insert_cases hf with ⟨rfl, rfl⟩ | ⟨-, ho⟩
    · exact hcf
    · exact h.frames ho
  buffered := h.buffered
  builds := by
    intro id' build hb
    obtain ⟨hp, found, hf, hfA⟩ := h.builds hb
    refine ⟨hp, ?_⟩
    dsimp only
    by_cases heq : id' = id
    · subst heq
      exact ⟨cf, AList.lookup_insert _, (ha hf).trans hfA⟩
    · exact ⟨found, (AList.lookup_insert_ne heq).trans hf, hfA⟩

theorem intake_applyCfStateChanges (m : ConsensusManager D) (dag : Dag) (cf : ConsensusFrame D) :
    Intake m (m.applyCfStateChanges dag cf) :=
  ⟨rfl, rfl, rfl⟩

theorem Inv.applyCfStateChanges (h : m.Inv H Known Valid) (dag : Dag) (cf : ConsensusFrame D) :
    (m.applyCfStateChanges dag cf).Inv H Known Valid :=
  ⟨h.frames, h.buffered, h.builds⟩

theorem intake_receiveCf (m : ConsensusManager D) (cf : ConsensusFrame D) :
    Intake m (m.receiveCf cf) := by
  unfold receiveCf
  split <;> exact ⟨rfl, rfl, rfl⟩

/-- A tracked frame may be received; the votes waiting for it join it. -/
theorem Inv.receiveCf (h : m.Inv H Known Valid) (hcf : cf.Tracked Known Valid cf.id) :
    (m.receiveCf cf).Inv H Known Valid := by
  unfold ConsensusManager.receiveCf
  split
  · exact h
  · next hf =>
    have hj : (cf.addMissingVotes ((m.bufferedVotes.lookup cf.id).getD [])).Tracked Known
        Valid cf.id := by
      apply hcf.addMissingVotes
      intro vote hv
      obtain ⟨votes, hvo, hm⟩ := HashMap.exists_lookup_of_mem_getD hv
      exact h.buffered hvo hm
    have hs := h.insertFrame hj fun ho ↦ absurd
      (AList.lookup_isSome.mp (Option.isSome_of_mem ho)) hf
    refine ⟨hs.frames, ?_, hs.builds⟩
    intro id' votes vote hvo hv
    exact h.buffered (HashMap.lookup_of_lookup_erase hvo) hv

theorem intake_mergeFinalizedCf (m : ConsensusManager D) (cf : ConsensusFrame D) :
    Intake m (m.mergeFinalizedCf cf) := by
  unfold mergeFinalizedCf
  split
  · exact ⟨rfl, rfl, rfl⟩
  · exact intake_receiveCf m cf

/-- A tracked frame whose votes are valid for their own voters may be merged. -/
theorem Inv.mergeFinalizedCf (h : m.Inv H Known Valid) (hcf : cf.Tracked Known Valid cf.id)
    (hv : ∀ vote ∈ cf.votes.values, Valid cf.id vote.validatorId vote) :
    (m.mergeFinalizedCf cf).Inv H Known Valid := by
  unfold ConsensusManager.mergeFinalizedCf
  split
  · next existing he =>
    apply h.insertFrame ((h.frames he).addMissingVotes hv)
    intro old ho
    cases he.symm.trans ho
    exact existing.anchor_addMissingVotes _
  · exact h.receiveCf hcf

/-- What a local vote does: nothing, or it is cast for a pending frame. -/
theorem voteForCf_cases (S : Ed25519) (m : ConsensusManager D) (id : CFId) (approve : Bool)
    (key : Option Bytes) (now : UInt64) :
    m.voteForCf S id approve key now = (none, m) ∨
      ∃ cf, m.pendingCfs.lookup id = some cf ∧
        let vote := m.localVote S id approve key now
        m.voteForCf S id approve key now =
          (some vote, { m with pendingCfs := m.pendingCfs.insert id (cf.addVote vote) }) := by
  unfold voteForCf
  split
  · exact .inl rfl
  · next cf hcf =>
    split
    · exact .inl rfl
    · exact .inr ⟨cf, hcf, rfl⟩

theorem intake_voteForCf (S : Ed25519) (m : ConsensusManager D) (id : CFId) (approve : Bool)
    (key : Option Bytes) (now : UInt64) : Intake m (m.voteForCf S id approve key now).2 := by
  rcases voteForCf_cases S m id approve key now with hs | ⟨cf, -, hv⟩
  · rw [hs]
    exact ⟨rfl, rfl, rfl⟩
  · rw [hv]
    exact ⟨rfl, rfl, rfl⟩

/-- Casting a valid vote keeps the invariant. -/
theorem Inv.voteForCf {S : Ed25519} {approve : Bool} {key : Option Bytes} {now : UInt64}
    (h : m.Inv H Known Valid)
    (hv : ∀ {vote}, (m.voteForCf S id approve key now).1 = some vote →
      Valid id vote.validatorId vote) :
    (m.voteForCf S id approve key now).2.Inv H Known Valid := by
  rcases voteForCf_cases S m id approve key now with hs | ⟨cf, hcf, hvo⟩
  · rw [hs]
    exact h
  · rw [hvo] at hv ⊢
    apply h.insertFrame ((h.frames hcf).addVote (hv rfl))
    intro old ho
    cases hcf.symm.trans ho
    rfl

/-- A valid vote may be buffered. -/
theorem Inv.bufferVote (h : m.Inv H Known Valid) {vote : Vote}
    (hv : Valid vote.cfId vote.validatorId vote) :
    { m with bufferedVotes := m.bufferedVotes.pushAt vote.cfId vote }.Inv H Known Valid where
  frames := h.frames
  buffered := by
    intro id votes vote' hvo hv'
    rcases HashMap.lookup_insert_cases hvo with ⟨rfl, rfl⟩ | ⟨-, ho⟩
    · rcases List.mem_append.mp hv' with hb | hn
      · obtain ⟨votes, hvo, hm⟩ := HashMap.exists_lookup_of_mem_getD hb
        exact h.buffered hvo hm
      · rw [List.mem_singleton.mp hn]
        exact hv
    · exact h.buffered ho hv'
  builds := h.builds

/-- The builder prepares on its own chain root. -/
theorem prepared_prepareBuildInternal [DecidableEq D] (b : AnchorBuilder D) (events : List Event)
    (vlc : VLCSnapshot) (toDepth now : UInt64) :
    (b.prepareBuildInternal H events vlc toDepth now).Prepared H :=
  ⟨⟨_, rfl, rfl⟩, rfl⟩

/-- What proposing does: nothing, or a frame is stored with the build it came from. -/
theorem propose_cases (m : ConsensusManager D) (round : UInt64) (env : Ambient)
    {prepare : HashSet EventId → Except (AnchorBuildError D) (PendingAnchorBuild D)}
    (hp : ∀ {inFlight build}, prepare inFlight = .ok build → build.Prepared H) :
    m.propose H round env prepare = (none, m) ∨
      ∃ build, build.Prepared H ∧
        let cf := ConsensusFrame.new H round build.anchor m.localValidatorId env.now
        m.propose H round env prepare = (some cf, { m with
            pendingBuilds := m.pendingBuilds.insert cf.id build
            pendingCfs := m.pendingCfs.insert cf.id cf }) := by
  unfold propose
  split
  · exact .inl rfl
  · split
    · next build hb => exact .inr ⟨build, hp hb, rfl⟩
    · exact .inl rfl

/-- A frame over a known anchor may be stored with its build. -/
theorem Inv.insertBuild (h : m.Inv H Known Valid) {build : PendingAnchorBuild D}
    (hb : build.Prepared H) (hcf : cf.Tracked Known Valid cf.id)
    (ha : cf.anchor = build.anchor) :
    { m with
      pendingBuilds := m.pendingBuilds.insert cf.id build
      pendingCfs := m.pendingCfs.insert cf.id cf }.Inv H Known Valid where
  frames := by
    intro id found hf
    rcases HashMap.lookup_insert_cases hf with ⟨rfl, rfl⟩ | ⟨-, ho⟩
    · exact hcf
    · exact h.frames ho
  buffered := h.buffered
  builds := by
    intro id found hf
    rcases HashMap.lookup_insert_cases hf with ⟨rfl, rfl⟩ | ⟨hne, ho⟩
    · exact ⟨hb, cf, AList.lookup_insert _, ha⟩
    · dsimp only
      rw [AList.lookup_insert_ne hne]
      exact h.builds ho

end ConsensusManager

end Setu.Consensus
