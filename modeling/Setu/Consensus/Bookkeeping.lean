import Setu.Consensus.FrameTables

/-!
# Bookkeeping of consensus frames

Library `Consensus`. In every run at most one build is open, builds and stored events belong to
pending frames, and a new frame holds no event in flight. Received frames are looked up among the
finalized ones, but a frame that the validator opens itself is not: it can get the identifier of a
frame that was forged in its name beforehand. Closed frames leave no build and no events behind, but
the votes that come late stay in the buffer. Source `consensus/src/folder.rs`.
-/

namespace Setu.Consensus

open Setu.Base Setu.Types Setu.State CfLifecycleOutcome

variable {D : Type}

/-- An open build or the stored events of a pending frame refer to the event. -/
def FrameTables.InFlight (t : FrameTables D) (id : EventId) : Prop :=
  (∃ cfId build, t.pendingBuilds.lookup cfId = some build ∧ id ∈ build.anchor.eventIds) ∨
    ∃ cfId events, t.pendingCfEvents.lookup cfId = some events ∧ id ∈ events.map (·.id)

/-- Without collisions a frame's identifier tells its round and its time. -/
theorem stamp_eq_of_id_eq {H : Blake3 D} (hH : H.CollisionFree) {cf cf' : ConsensusFrame D}
    (hv : cf.verifyId H = true) (hv' : cf'.verifyId H = true)
    (hid : cf.id = cf'.id) : cf.round = cf'.round ∧ cf.createdAt = cf'.createdAt := by
  rw [ConsensusFrame.verifyId, beq_iff_eq] at hv hv'
  rw [hv, hv', ConsensusFrame.computeId, ConsensusFrame.computeId, hH.hexDigest_inj] at hid
  simp only [List.append_assoc, List.append_cancel_left_eq] at hid
  obtain ⟨hro, hr⟩ := List.append_inj hid (by rw [length_u64Le, length_u64Le])
  refine ⟨u64Le_inj.mp hro, ?_⟩
  simp only [← List.append_assoc] at hr
  exact u64Le_inj.mp (List.append_inj_right' hr (by rw [length_u64Le, length_u64Le]))

namespace ConsensusManager

variable [DecidableEq D] {H : Blake3 D} {m : ConsensusManager D}

omit [DecidableEq D] in
theorem mem_collectInFlightEventIds {id : EventId} :
    id ∈ m.collectInFlightEventIds ↔ m.tables.InFlight id := by
  rw [collectInFlightEventIds, HashMap.mem_insertAll]
  simp only [AList.notMem_empty, false_or, List.map_map, Function.comp_def, List.map_id',
    List.mem_append, List.mem_flatMap, HashMap.mem_values, FrameTables.InFlight, tables]
  constructor
  · rintro (⟨build, ⟨cfId, hb⟩, hid⟩ | ⟨events, ⟨cfId, he⟩, hid⟩)
    · exact .inl ⟨cfId, build, hb, hid⟩
    · exact .inr ⟨cfId, events, he, hid⟩
  · rintro (⟨cfId, build, hb, hid⟩ | ⟨cfId, events, he, hid⟩)
    · exact .inl ⟨build, ⟨cfId, hb⟩, hid⟩
    · exact .inr ⟨events, ⟨cfId, he⟩, hid⟩

omit [DecidableEq D] in
private theorem not_mem_of_selectEvents {b : AnchorBuilder D} {dag : Dag}
    {inFlight : HashSet EventId} {selected : List Event}
    (hs : b.selectEvents H dag inFlight = .ok selected) :
    ∀ id ∈ selected.map (·.id), id ∉ inFlight := by
  intro id hid
  obtain ⟨event, he, rfl⟩ := List.mem_map.mp hid
  rw [AnchorBuilder.selectEvents_eq_ok hs] at he
  have hc := (sortOn_perm eventOrder _).mem_iff.mp
    ((applyStrictSameKeyFoldPolicy_sublist _).subset (List.mem_of_mem_take he))
  simpa using (List.mem_filter.mp hc).2

omit [DecidableEq D] in
private theorem propose_eq_some {round : UInt64} {env : Ambient}
    {prepare : HashSet EventId → Except (AnchorBuildError D) (PendingAnchorBuild D)}
    {cf : ConsensusFrame D} (h : (m.propose H round env prepare).1 = some cf) :
    ∃ build, prepare m.collectInFlightEventIds = .ok build ∧ cf.anchor = build.anchor := by
  rw [propose] at h
  split at h
  · cases h
  · split at h
    · next build hb =>
      cases h
      exact ⟨build, hb, rfl⟩
    · cases h

end ConsensusManager

namespace ConsensusEngine

variable [DecidableEq D] {H : Blake3 D} {S : Ed25519} {e₀ e : ConsensusEngine D}

variable {cf : ConsensusFrame D}

private theorem proposed_announce {env : Ambient}
    {created : Option (ConsensusFrame D) × ConsensusManager D}
    (h : (e.announce H S env created).effects.proposed = some cf) :
    ∃ frame, created.1 = some frame ∧ cf.anchor = frame.anchor := by
  obtain ⟨frame, m⟩ := created
  cases frame with
  | none => cases h
  | some frame =>
    refine ⟨frame, rfl, ?_⟩
    rw [announce] at h
    dsimp only at h
    split at h
    · cases h
      rfl
    · split at h
      · cases h
        rfl
      · cases h
        rfl

private theorem proposed_acceptCf {env : Ambient} :
    (e.acceptCf H S cf env).effects.proposed = none := by
  rw [acceptCf]
  split
  · rfl
  · rw [Handled.map, effects_conclude]

/-- A new frame holds no event that is in flight. -/
theorem not_inFlight_of_proposed {input : EngineInput D × Ambient}
    (h : (e.step H S input).1.proposed = some cf) :
    ∀ id ∈ cf.anchor.eventIds, ¬ e.consensusManager.tables.InFlight id := by
  intro id hid hfl
  have hm := ConsensusManager.mem_collectInFlightEventIds.mpr hfl
  obtain ⟨input, env⟩ := input
  have hs := e.acts_step (H := H) (S := S) input env
  generalize e.step H S (input, env) = after at hs h
  cases hs with
  | announces hinput hprepare =>
    obtain ⟨frame, hf, ha⟩ := proposed_announce h
    obtain ⟨build, hb, hf⟩ := ConsensusManager.propose_eq_some hf
    obtain ⟨selected, hs, rfl⟩ := hprepare.selected hb
    rw [ha, hf] at hid
    exact ConsensusManager.not_mem_of_selectEvents hs id hid hm
  | accepts =>
    rw [Handled.outcome, proposed_acceptCf] at h
    cases h
  | merges | counts =>
    rw [Handled.outcome, effects_conclude] at h
    cases h
  | answers | cleans | marks | completes | advances => cases h

/-- No finalized frame of the current round carries the present time, when a frame is opened. -/
def Unstamped (e : ConsensusEngine D) (input : EngineInput D × Ambient) : Prop :=
  input.1.creates = true → ∀ cf ∈ e.consensusManager.finalizedCfs,
    cf.round = e.validatorSet.currentRound → cf.createdAt ≠ input.2.now

instance Unstamped.decidable (e : ConsensusEngine D) (input : EngineInput D × Ambient) :
    Decidable (e.Unstamped input) :=
  inferInstanceAs (Decidable (input.1.creates = true → ∀ cf ∈ e.consensusManager.finalizedCfs,
    cf.round = e.validatorSet.currentRound → cf.createdAt ≠ input.2.now))

theorem kept_step (h : e.consensusManager.tables.Kept) (input : EngineInput D × Ambient) :
    (e.step H S input).2.consensusManager.tables.Kept :=
  h.moves (e.moves_step input)

private theorem apart_step (hH : H.CollisionFree) (h : e.consensusManager.tables.Apart H)
    {input : EngineInput D × Ambient} (hu : e.Unstamped input) :
    (e.step H S input).2.consensusManager.tables.Apart H := by
  have hm := e.moves_step (H := H) (S := S) input
  generalize (e.step H S input).2.consensusManager.tables = t at hm ⊢
  induction hm with
  | refl => exact h
  | tail _ hmo ih =>
    refine ih.move hmo ?_
    intro cf ho hv finalized hf hid
    obtain ⟨hc, rfl, hr, ht⟩ := ho
    obtain ⟨hr', ht'⟩ := stamp_eq_of_id_eq hH (h.finalized finalized hf) hv hid
    exact hu hc finalized hf (hr'.trans hr) (ht'.trans ht)

/-- In every run of a validator: at most one build is open, builds and stored events belong to
pending frames, and a new frame holds no event in flight; if in addition no frame is opened at the
time that a finalized frame of the round carries, no frame is both pending and finalized. -/
theorem bookkeeping_of_run (hH : H.CollisionFree) (hfresh : e₀.consensusManager.Fresh H)
    {effects : List (Effects D)} (hrun : Run (step H S) (fun _ _ _ ↦ True) e₀ effects e) :
    e.consensusManager.tables.Kept ∧
      (∀ input cf, (e.step H S input).1.proposed = some cf →
        ∀ id ∈ cf.anchor.eventIds, ¬ e.consensusManager.tables.InFlight id) ∧
      (Run (step H S) (fun _ e input ↦ e.Unstamped input) e₀ effects e →
        ∀ id ∈ e.consensusManager.pendingCfs, e.consensusManager.isFinalizedCf id = false) := by
  have hkept₀ : e₀.consensusManager.tables.Kept := by
    obtain ⟨config, count, heq⟩ := hfresh
    rw [heq]
    exact ⟨fun hid ↦ absurd hid (AList.notMem_empty _), fun hid ↦ absurd hid (AList.notMem_empty _),
      fun hid ↦ absurd hid (AList.notMem_empty _)⟩
  have hapart₀ : e₀.consensusManager.tables.Apart H := by
    obtain ⟨config, count, heq⟩ := hfresh
    rw [heq]
    exact ⟨nofun, nofun, nofun⟩
  refine ⟨?_, fun input cf hcf ↦ not_inFlight_of_proposed hcf, ?_⟩
  · exact hrun.invariant (fun _ e ↦ e.consensusManager.tables.Kept) hkept₀
      (fun hk _ ↦ kept_step hk _)
  · intro hrun id hid
    have ha := hrun.invariant (fun _ e ↦ e.consensusManager.tables.Apart H) hapart₀
      (fun ha hu ↦ apart_step hH ha hu)
    rw [ConsensusManager.isFinalizedCf_eq_false_iff]
    rintro cf hcf rfl
    exact ha.disjoint cf hcf hid

/-- A follower that finalizes one frame keeps its tables. -/
theorem bookkeeping_genesisFrame :
    ∃ effects e, Run (step Blake3.ideal Ed25519.ideal) (fun _ _ _ ↦ True) follower effects e ∧
      e.consensusManager.finalizedCfs.length = 1 ∧ e.consensusManager.tables.Kept ∧
      ∀ id ∈ e.consensusManager.pendingCfs, e.consensusManager.isFinalizedCf id = false := by
  have hf : Feeds (step Blake3.ideal Ed25519.ideal) (fun _ _ _ ↦ True) ([], follower)
      [frameArrives "a", voteArrives "a"] :=
    ⟨trivial, trivial, trivial⟩
  have hu : Feeds (step Blake3.ideal Ed25519.ideal) (fun _ e input ↦ e.Unstamped input)
      ([], follower) [frameArrives "a", voteArrives "a"] := by
    decide +kernel
  obtain ⟨hk, -, hd⟩ := bookkeeping_of_run Blake3.ideal_collisionFree
    ⟨{ validatorCount := 2 }, 2, rfl⟩ (Run.start.feed hf)
  refine ⟨_, _, Run.start.feed hf, by decide +kernel, hk, ?_⟩
  exact hd (Run.start.feed hu)

/-- Validator `v1` of `v1` and `v2`, the proposer of round 0, with keys and strict signatures. -/
def proposer : ConsensusEngine UInt64 :=
  startUp Blake3.fnv {} ⟨"v1", .replicate 32 1⟩ [⟨"v2", .replicate 32 2⟩] (some (.replicate 32 1)) 0

/-- One pending event. -/
def waitingDag : Dag :=
  let event : Event := ⟨"e", .transfer, [], none, none, .none, ⟨∅, 1, 0⟩, "", .pending, none, 0⟩
  { events := (∅ : HashMap EventId Event).insert "e" event
    children := ∅
    depths := (∅ : HashMap EventId UInt64).insert "e" 0
    tips := (∅ : HashSet EventId).insert "e" ()
    maxDepth := 0
    pending := (∅ : HashSet EventId).insert "e" ()
    keyed := by
      intro id found hfound
      rcases HashMap.lookup_insert_cases hfound with ⟨rfl, rfl⟩ | ⟨-, hnone⟩
      · rfl
      · cases hnone }

/-- What the proposer sees. -/
def observesEvent : EngineInput UInt64 × Ambient :=
  (.observe waitingDag ⟨∅, 10, 0⟩, ⟨0, 0, .ok ()⟩)

/-- The proposer opens a frame at time 7. -/
def opensFrame : EngineInput UInt64 × Ambient := (.tryCreateCf, ⟨7, 0, .ok ()⟩)

/-- A frame without events that `v2` made beforehand under the identifier of the proposer's next
anchor, with the vote of `v2`. -/
def forgedFrame : ConsensusFrame UInt64 :=
  let root := ((GlobalStateManager.new Blake3.fnv).computeGlobalRoot Blake3.fnv).1
  let anchorId := Anchor.computeId Blake3.fnv ["e"] ⟨∅, 10, 0⟩
    (hexEncode (Blake3.fnv.asBytes root)) 7
  let cf := ConsensusFrame.new Blake3.fnv 0 ⟨anchorId, [], ⟨∅, 0, 0⟩, "", none, none, 0, 0⟩ "v1" 7
  let vote := Vote.new "v2" cf.id true 0
  cf.addVote { vote with
    signature := Ed25519.ideal.sign (.replicate 32 2) vote.signingMessage }

/-- It arrives at time 6. -/
def forgedFrameArrives : EngineInput UInt64 × Ambient :=
  (.receiveCf forgedFrame none, ⟨6, 0, .ok ()⟩)

/-- The forged frame is finalized, and the proposer then opens a frame of its own over the same
anchor identifier, round and time: its identifier is both pending and finalized. -/
theorem pending_and_finalized_forgedFrame :
    ∃ effects e cf, proposer.consensusManager.Fresh Blake3.fnv ∧
      Run (step Blake3.fnv Ed25519.ideal) (fun _ _ _ ↦ True) proposer effects e ∧
      e.consensusManager.pendingCfs.lookup forgedFrame.id = some cf ∧
      cf.anchor.eventIds = ["e"] ∧ cf.round = forgedFrame.round ∧
      cf.anchor.id = forgedFrame.anchor.id ∧ cf.createdAt = forgedFrame.createdAt ∧
      e.consensusManager.isFinalizedCf forgedFrame.id = true := by
  have hfe : Feeds (step Blake3.fnv Ed25519.ideal) (fun _ _ _ ↦ True) ([], proposer)
      [observesEvent, forgedFrameArrives, opensFrame] :=
    ⟨trivial, trivial, trivial, trivial⟩
  have hp : forgedFrame.id ∈ (feed (step Blake3.fnv Ed25519.ideal) ([], proposer)
      [observesEvent, forgedFrameArrives, opensFrame]).2.consensusManager.pendingCfs := by
    decide +kernel
  obtain ⟨cf, hcf⟩ := Option.isSome_iff_exists.mp (AList.lookup_isSome.mpr hp)
  refine ⟨_, _, cf, ⟨{ validatorCount := 1 }, 2, rfl⟩, Run.start.feed hfe, hcf, ?_⟩
  have hf : ((feed (step Blake3.fnv Ed25519.ideal) ([], proposer)
      [observesEvent, forgedFrameArrives, opensFrame]).2.consensusManager.pendingCfs.lookup
        forgedFrame.id).map (fun cf ↦ (cf.anchor.eventIds, cf.round, cf.anchor.id, cf.createdAt)) =
      some (["e"], forgedFrame.round, forgedFrame.anchor.id, forgedFrame.createdAt) := by
    decide +kernel
  rw [hcf, Option.map_some, Option.some.injEq, Prod.mk.injEq, Prod.mk.injEq, Prod.mk.injEq] at hf
  exact ⟨hf.1, hf.2.1, hf.2.2.1, hf.2.2.2, by decide +kernel⟩

end ConsensusEngine

/-- The frame that an outcome closes. -/
def CfLifecycleOutcome.closedId : CfLifecycleOutcome D → Option CFId
  | .pending => none
  | .finalized cfId _ | .rejected cfId | .timedOut cfId => some cfId
  | .applyFailed failure => some failure.cfId

private theorem filterMap_closedId_singleton (outcome : CfLifecycleOutcome D) :
    [outcome].filterMap (·.closedId) = outcome.closedId.toList := by
  cases h : outcome.closedId <;> simp [h]

/-- The manager with the frames that were closed so far. -/
structure TrackedManager (D : Type) where
  manager : ConsensusManager D
  closed : List CFId

namespace ConsensusManager

variable [DecidableEq D] {H : Blake3 D} {S : Ed25519} {m : ConsensusManager D} {closed : List CFId}

/-- Buffered votes are for frames that are neither pending nor closed. -/
def VotesApart (m : ConsensusManager D) (closed : List CFId) : Prop :=
  ∀ id ∈ m.bufferedVotes, id ∉ m.pendingCfs ∧ id ∉ closed

omit [DecidableEq D] in
private theorem VotesApart.close (h : m.VotesApart closed) {m' : ConsensusManager D}
    (hm : Shrinks m m') {ids : List CFId} (hi : ∀ id ∈ ids, id ∈ m.pendingCfs) :
    m'.VotesApart (closed ++ ids) := by
  intro id hid
  obtain ⟨votes, hv⟩ := Option.isSome_iff_exists.mp (AList.lookup_isSome.mpr hid)
  obtain ⟨hp, hc⟩ := h id (AList.lookup_isSome.mp (Option.isSome_of_eq_some (hm.buffered hv)))
  constructor
  · intro hme
    rw [← AList.lookup_isSome] at hme hp
    rcases hm.frames id with hk | hg
    · exact hp (hk ▸ hme)
    · rw [hg.1] at hme
      cases hme
  · rw [List.mem_append, not_or]
    exact ⟨hc, fun hme ↦ hp (hi id hme)⟩

variable {id : CFId} {cf : ConsensusFrame D}

omit [DecidableEq D] in
private theorem VotesApart.insertFrame (h : m.VotesApart closed) (hid : id ∉ m.bufferedVotes) :
    { m with pendingCfs := m.pendingCfs.insert id cf }.VotesApart closed := by
  intro id' hid'
  obtain ⟨hp, hc⟩ := h id' hid'
  refine ⟨?_, hc⟩
  rw [AList.mem_insert, not_or]
  exact ⟨fun heq ↦ hid (heq ▸ hid'), hp⟩

omit [DecidableEq D] in
private theorem VotesApart.not_mem (h : m.VotesApart closed)
    (hcf : m.pendingCfs.lookup id = some cf) : id ∉ m.bufferedVotes :=
  fun hid ↦ (h id hid).1 (AList.lookup_isSome.mp (Option.isSome_of_eq_some hcf))

variable {env : Ambient}

private theorem cfId_of_applyFollower {events : List Event} {role : ApplyFailureRole}
    {failure : ApplyFailure} (h : (m.applyFollower H id cf events role env).1 = .error failure)
    : failure.cfId = id := by
  rw [applyFollower] at h
  split at h
  · cases h
  · cases h
    rfl

private theorem cfId_of_applyFinalized {failure : ApplyFailure}
    (h : (m.applyFinalized H id cf env).1 = .error failure) : failure.cfId = id := by
  rw [applyFinalized] at h
  split at h
  · dsimp only at h
    split at h
    · cases h
    · exact cfId_of_applyFollower h
    · cases h
      rfl
  · exact cfId_of_applyFollower h

private theorem pending_of_closedId :
    ∀ closedId ∈ (m.classifyFinalization H id env).1.closedId, closedId ∈ m.pendingCfs := by
  rw [classifyFinalization]
  cases hcf : m.pendingCfs.lookup id with
  | none =>
    intro _ hc
    cases hc
  | some cf =>
    have hp : ∀ closedId ∈ some id, closedId ∈ m.pendingCfs := by
      intro closedId hc
      rw [← Option.some.inj hc]
      exact AList.lookup_isSome.mp (Option.isSome_of_eq_some hcf)
    dsimp only
    cases m.decision cf env.now with
    | none =>
      intro _ hc
      cases hc
    | some decision =>
      cases decision with
      | reject | timeout => exact hp
      | finalize =>
        dsimp only
        split
        · exact hp
        · next failure hf =>
          rw [closedId, cfId_of_applyFinalized hf]
          exact hp

private theorem VotesApart.classifyFinalization (h : m.VotesApart closed) (id : CFId)
    (env : Ambient) :
    (m.classifyFinalization H id env).2.VotesApart
      (closed ++ (m.classifyFinalization H id env).1.closedId.toList) := by
  apply h.close (settled_classifyFinalization m id env).shrinks
  intro closedId hc
  exact pending_of_closedId closedId (Option.mem_toList.mp hc)

omit [DecidableEq D] in
private theorem mem_of_mem_timeoutIds (h : id ∈ m.timeoutIds env) : id ∈ m.pendingCfs := by
  obtain ⟨entry, he, rfl⟩ := List.mem_map.mp h
  apply HashMap.mem_keys_toList.mp
  exact List.mem_map_of_mem (List.mem_of_mem_filter he)

omit [DecidableEq D] in
private theorem mem_bufferedVotes_cleanupTimeoutCfs (env : Ambient) (h : id ∈ m.bufferedVotes)
    (hp : id ∉ m.pendingCfs) :
    id ∈ (m.cleanupTimeoutCfs env).2.bufferedVotes ∧
      id ∉ (m.cleanupTimeoutCfs env).2.pendingCfs := by
  have hid : id ∉ m.timeoutIds env := fun hm ↦ hp (mem_of_mem_timeoutIds hm)
  change id ∈ ((m.timeoutIds env).foldl cleanupTimeoutCf m).bufferedVotes ∧
    id ∉ ((m.timeoutIds env).foldl cleanupTimeoutCf m).pendingCfs
  revert hid
  generalize m.timeoutIds env = ids
  intro hid
  induction ids generalizing m with
  | nil => exact ⟨h, hp⟩
  | cons other rest ih =>
    rw [List.mem_cons, not_or] at hid
    apply ih
    · exact AList.mem_erase.mpr ⟨hid.1, h⟩
    · exact fun hm ↦ hp (AList.mem_erase.mp hm).2
    · exact hid.2

omit [DecidableEq D] in
private theorem VotesApart.receiveCf (h : m.VotesApart closed) (cf : ConsensusFrame D) :
    (m.receiveCf cf).VotesApart closed := by
  rw [ConsensusManager.receiveCf]
  split
  · exact h
  · intro id hid
    obtain ⟨hne, hid⟩ := AList.mem_erase.mp hid
    obtain ⟨hp, hc⟩ := h id hid
    refine ⟨?_, hc⟩
    rw [AList.mem_insert, not_or]
    exact ⟨hne, hp⟩

private theorem VotesApart.receiveFinalizedCf (h : m.VotesApart closed) (cf : ConsensusFrame D)
    (env : Ambient) :
    (m.receiveFinalizedCf H cf env).2.VotesApart
      (closed ++ (m.receiveFinalizedCf H cf env).1.closedId.toList) := by
  rw [ConsensusManager.receiveFinalizedCf]
  split
  · simpa [closedId] using h
  · apply VotesApart.classifyFinalization
    rw [mergeFinalizedCf]
    split
    · next existing he => exact h.insertFrame (h.not_mem he)
    · exact h.receiveCf cf

omit [DecidableEq D] in
private theorem VotesApart.voteForCf (h : m.VotesApart closed) (id : CFId) (approve : Bool)
    (key : Option Bytes) (now : UInt64) :
    (m.voteForCf S id approve key now).2.VotesApart closed := by
  rcases voteForCf_cases S m id approve key now with hs | ⟨cf, hcf, hv⟩
  · rw [hs]
    exact h
  · rw [hv]
    exact h.insertFrame (h.not_mem hcf)

private theorem VotesApart.receiveVote (h : m.VotesApart closed) {vote : Vote}
    (hv : vote.cfId ∈ closed → vote.cfId ∈ m.pendingCfs) (env : Ambient) :
    (m.receiveVote H vote env).2.VotesApart
      (closed ++ (m.receiveVote H vote env).1.closedId.toList) := by
  rw [ConsensusManager.receiveVote]
  split
  · next hn =>
    have hp : vote.cfId ∉ m.pendingCfs := AList.lookup_eq_none.mp hn
    rw [closedId, Option.toList_none, List.append_nil]
    intro id hid
    rcases (AList.mem_insert _).mp hid with rfl | hid
    · exact ⟨hp, fun hc ↦ hp (hv hc)⟩
    · exact h id hid
  · next cf hcf =>
    split
    · simpa [closedId] using h
    · exact (h.insertFrame (h.not_mem hcf)).classifyFinalization vote.cfId env

omit [DecidableEq D] in
private theorem VotesApart.propose (h : m.VotesApart closed) {round : UInt64}
    {prepare : HashSet EventId → Except (AnchorBuildError D) (PendingAnchorBuild D)}
    (hc : ∀ cf ∈ (m.propose H round env prepare).1, cf.id ∉ m.bufferedVotes) :
    (m.propose H round env prepare).2.VotesApart closed := by
  rw [ConsensusManager.propose] at hc ⊢
  split at hc
  · next hs =>
    rw [if_pos hs]
    exact h
  · next hs =>
    rw [if_neg hs]
    split at hc
    · exact h.insertFrame (hc _ rfl)
    · exact h

end ConsensusManager

/-- A new manager holds nothing. -/
theorem ConsensusManager.Fresh.kept [DecidableEq D] {H : Blake3 D} {m : ConsensusManager D}
    (h : m.Fresh H) : m.tables.Kept := by
  obtain ⟨config, count, heq⟩ := h
  rw [heq]
  exact ⟨nofun, nofun, nofun⟩

namespace TrackedManager

variable [DecidableEq D] {H : Blake3 D} {S : Ed25519} {t : TrackedManager D}

/-- A manager that closed no frame yet. -/
def start (m : ConsensusManager D) : TrackedManager D := ⟨m, []⟩

/-- A call, with the frames that it closes. -/
def step (H : Blake3 D) (S : Ed25519) (t : TrackedManager D) (input : ManagerCall D × Ambient) :
    List (CfLifecycleOutcome D) × TrackedManager D :=
  let (outcomes, m) := t.manager.call H S input
  (outcomes, ⟨m, t.closed ++ outcomes.filterMap (·.closedId)⟩)

/-- Closed frames have left no build, no events and no votes behind. -/
def NoLeftover (t : TrackedManager D) : Prop :=
  ∀ id ∈ t.closed, id ∉ t.manager.pendingCfs →
    id ∉ t.manager.pendingBuilds ∧ id ∉ t.manager.pendingCfEvents ∧ id ∉ t.manager.bufferedVotes

/-- Received frames are verified, as the engine does it. -/
def Verified (H : Blake3 D) (_ : List (List (CfLifecycleOutcome D))) (_ : TrackedManager D)
    (input : ManagerCall D × Ambient) : Prop :=
  input.1.Verified H

/-- In addition, no vote comes for a closed frame, and no frame is opened whose votes came
before. -/
def Orderly (H : Blake3 D) (_ : List (List (CfLifecycleOutcome D))) (t : TrackedManager D)
    (input : ManagerCall D × Ambient) : Prop :=
  input.1.Verified H ∧
    match input.1 with
    | .receiveVote vote => vote.cfId ∈ t.closed → vote.cfId ∈ t.manager.pendingCfs
    | .tryCreateCf dag vlc round =>
      ∀ cf ∈ (t.manager.tryCreateCf H dag vlc round input.2).1, cf.id ∉ t.manager.bufferedVotes
    | .tryCreateCfHeartbeat dag vlc interval round =>
      ∀ cf ∈ (t.manager.tryCreateCfHeartbeat H dag vlc interval round input.2).1,
        cf.id ∉ t.manager.bufferedVotes
    | _ => True

private theorem votesApart_step (h : t.manager.VotesApart t.closed)
    {outputs : List (List (CfLifecycleOutcome D))} {input : ManagerCall D × Ambient}
    (ho : Orderly H outputs t input) :
    (t.step H S input).2.manager.VotesApart (t.step H S input).2.closed := by
  obtain ⟨input, env⟩ := input
  obtain ⟨-, ho⟩ := ho
  cases input with
  | tryCreateCf dag vlc round =>
    change (t.manager.tryCreateCf H dag vlc round env).2.VotesApart (t.closed ++ [])
    rw [List.append_nil]
    exact h.propose ho
  | tryCreateCfHeartbeat dag vlc interval round =>
    change (t.manager.tryCreateCfHeartbeat H dag vlc interval round env).2.VotesApart
      (t.closed ++ [])
    rw [List.append_nil]
    exact h.propose ho
  | receiveCf dag cf =>
    change (if t.manager.hasCf cf.id then t.manager
      else (t.manager.applyCfStateChanges dag cf).receiveCf cf).VotesApart (t.closed ++ [])
    rw [List.append_nil]
    split
    · exact h
    · exact ConsensusManager.VotesApart.receiveCf (m := t.manager.applyCfStateChanges dag cf) h cf
  | receiveFinalizedCf dag cf =>
    rw [step, ConsensusManager.call]
    dsimp only
    split
    · simpa using h
    · rw [filterMap_closedId_singleton]
      exact ConsensusManager.VotesApart.receiveFinalizedCf
        (m := t.manager.applyCfStateChanges dag cf) h cf env
  | voteForCf id approve key =>
    change (t.manager.voteForCf S id approve key env.now).2.VotesApart (t.closed ++ [])
    rw [List.append_nil]
    exact h.voteForCf id approve key env.now
  | classifyFinalization id =>
    rw [step, ConsensusManager.call]
    dsimp only
    rw [filterMap_closedId_singleton]
    exact h.classifyFinalization id env
  | receiveVote vote =>
    rw [step, ConsensusManager.call]
    dsimp only
    rw [filterMap_closedId_singleton]
    exact h.receiveVote ho env
  | cleanupTimeoutCfs =>
    apply h.close (ConsensusManager.shrinks_cleanupTimeoutCfs t.manager env).1
    intro id hid
    change id ∈ ((t.manager.timeoutIds env).map timedOut).filterMap
      closedId at hid
    rw [List.filterMap_map] at hid
    obtain ⟨id', hid', hid⟩ := List.mem_filterMap.mp hid
    rw [← Option.some.inj hid]
    exact ConsensusManager.mem_of_mem_timeoutIds hid'
  | markAnchorPersisted anchorId =>
    change (t.manager.markAnchorPersisted anchorId).VotesApart (t.closed ++ [])
    rw [List.append_nil]
    exact h

private theorem votesApart_start {m : ConsensusManager D} (hf : m.Fresh H) :
    (start m).manager.VotesApart (start m).closed := by
  obtain ⟨config, count, heq⟩ := hf
  rw [start, heq]
  nofun

private theorem kept_step {outputs : List (List (CfLifecycleOutcome D))}
    (h : t.manager.tables.Kept) {input : ManagerCall D × Ambient}
    (hv : Verified H outputs t input) : (t.step H S input).2.manager.tables.Kept := by
  have hm : t.manager.tables.Moves H (fun _ _ ↦ True) (fun _ _ ↦ True)
      (t.manager.call H S input).2.tables :=
    t.manager.moves_call hv (fun _ _ _ ↦ trivial) (fun _ _ _ _ ↦ trivial)
  exact h.moves hm

/-- A vote for a closed frame stays in the buffer, whatever is cleaned up. -/
theorem not_noLeftover_of_vote {vote : Vote} (hc : vote.cfId ∈ t.closed)
    (hp : vote.cfId ∉ t.manager.pendingCfs) (env env' : Ambient) :
    ¬ ((t.step H S (.receiveVote vote, env)).2.step H S
      (.cleanupTimeoutCfs, env')).2.NoLeftover := by
  have hb : (t.manager.receiveVote H vote env).2 =
      { t.manager with bufferedVotes := t.manager.bufferedVotes.pushAt vote.cfId vote } := by
    rw [ConsensusManager.receiveVote, AList.lookup_eq_none.mpr hp]
  have hpu : vote.cfId ∈ (t.manager.receiveVote H vote env).2.bufferedVotes := by
    rw [hb]
    exact (AList.mem_insert _).mpr (.inl rfl)
  have hp' : vote.cfId ∉ (t.manager.receiveVote H vote env).2.pendingCfs := by
    rw [hb]
    exact hp
  obtain ⟨hk, hg⟩ := ConsensusManager.mem_bufferedVotes_cleanupTimeoutCfs env' hpu hp'
  intro hn
  refine (hn vote.cfId ?_ hg).2.2 hk
  exact List.mem_append_left _ (List.mem_append_left _ hc)

/-- In every run closed frames leave no build and no events behind; they leave no votes either, if
no vote comes for a closed frame and no frame is opened whose votes came before. A vote that comes
for a closed frame stays. -/
theorem noLeftover_of_orderly {m : ConsensusManager D} (hfresh : m.Fresh H)
    {outputs : List (List (CfLifecycleOutcome D))}
    (hrun : Run (step H S) (Verified H) (start m) outputs t) :
    (∀ id ∈ t.closed, id ∉ t.manager.pendingCfs →
      id ∉ t.manager.pendingBuilds ∧ id ∉ t.manager.pendingCfEvents) ∧
    (Run (step H S) (Orderly H) (start m) outputs t → t.NoLeftover) ∧
    ∀ vote : Vote, vote.cfId ∈ t.closed → vote.cfId ∉ t.manager.pendingCfs → ∀ env env',
      ¬ ((t.step H S (.receiveVote vote, env)).2.step H S
        (.cleanupTimeoutCfs, env')).2.NoLeftover := by
  have hk : t.manager.tables.Kept :=
    hrun.invariant (fun _ t ↦ t.manager.tables.Kept) (hfresh.kept) fun h hv ↦
      kept_step h hv
  refine ⟨?_, ?_, fun vote hc hp env env' ↦
    not_noLeftover_of_vote hc hp env env'⟩
  · intro id _ hp
    exact ⟨fun hid ↦ hp (hk.builds hid), fun hid ↦ hp (hk.events hid)⟩
  · intro hrun id hc hp
    have hvo := hrun.invariant (fun _ t ↦ t.manager.VotesApart t.closed)
      (votesApart_start hfresh) fun h ho ↦ votesApart_step h ho
    exact ⟨fun hid ↦ hp (hk.builds hid), fun hid ↦ hp (hk.events hid), fun hid ↦ (hvo id hid).2 hc⟩

/-- The manager of `v2`, one of four validators. -/
def voterManager : ConsensusManager (Option Bytes) :=
  .new Blake3.ideal { validatorCount := 4 } "v2"

/-- A frame of `v1` without events, at time 0. -/
def emptyFrame : ConsensusFrame (Option Bytes) :=
  .new Blake3.ideal 0 ⟨"a", [], ⟨∅, 0, 0⟩, "", none, none, 0, 0⟩ "v1" 0

/-- A vote for it arrives. -/
def voteOf (validatorId : String) : ManagerCall (Option Bytes) × Ambient :=
  (.receiveVote (.new validatorId emptyFrame.id true 0), ⟨0, 0, .ok ()⟩)

/-- The frame arrives after one of its votes, and two more votes finalize it. -/
def finalizingCalls : List (ManagerCall (Option Bytes) × Ambient) :=
  [voteOf "v1", (.receiveCf .new emptyFrame, ⟨0, 0, .ok ()⟩), voteOf "v2", voteOf "v3"]

/-- Timed-out frames are removed. -/
def cleanup : ManagerCall (Option Bytes) × Ambient := (.cleanupTimeoutCfs, ⟨9000, 0, .ok ()⟩)

private def finalizedManager : TrackedManager (Option Bytes) :=
  (feed (step Blake3.ideal Ed25519.ideal) ([], start voterManager) finalizingCalls).2

private theorem fresh_voterManager : voterManager.Fresh Blake3.ideal :=
  ⟨{ validatorCount := 4 }, 4, rfl⟩

/-- The vote before the frame is counted, and nothing is left of the finalized frame. -/
theorem noLeftover_finalizingCalls :
    finalizedManager.closed = [emptyFrame.id] ∧
      finalizedManager.manager.isFinalizedCf emptyFrame.id = true ∧
      finalizedManager.NoLeftover := by
  have hv : Feeds (step Blake3.ideal Ed25519.ideal) (Verified Blake3.ideal)
      ([], start voterManager) finalizingCalls :=
    ⟨trivial, (by decide +kernel : emptyFrame.verifyId Blake3.ideal = true), trivial, trivial,
      trivial⟩
  have ho : Feeds (step Blake3.ideal Ed25519.ideal) (Orderly Blake3.ideal)
      ([], start voterManager) finalizingCalls := by
    refine ⟨⟨trivial, ?_⟩, ⟨hv.2.1, trivial⟩, ⟨trivial, ?_⟩, ⟨trivial, ?_⟩, trivial⟩
    all_goals
      change (_ ∈ _ → _ ∈ _)
      decide +kernel
  refine ⟨by decide +kernel, by decide +kernel, ?_⟩
  exact (noLeftover_of_orderly fresh_voterManager (Run.start.feed hv)).2.1 (Run.start.feed ho)

/-- The fourth vote comes after the quorum: it is buffered, and the cleanup leaves it there. -/
theorem not_noLeftover_lateVote :
    ∃ outputs t, voterManager.Fresh Blake3.ideal ∧
      Run (step Blake3.ideal Ed25519.ideal) (Verified Blake3.ideal) (start voterManager) outputs t ∧
      t.closed = [emptyFrame.id] ∧ emptyFrame.id ∉ t.manager.pendingCfs ∧
      emptyFrame.id ∈ t.manager.bufferedVotes := by
  have hv : Feeds (step Blake3.ideal Ed25519.ideal) (Verified Blake3.ideal)
      ([], start voterManager) (finalizingCalls ++ [voteOf "v4", cleanup]) :=
    ⟨trivial, (by decide +kernel : emptyFrame.verifyId Blake3.ideal = true), trivial, trivial,
      trivial, trivial, trivial⟩
  refine ⟨_, _, fresh_voterManager, Run.start.feed hv, ?_⟩
  decide +kernel

end TrackedManager

end Setu.Consensus
