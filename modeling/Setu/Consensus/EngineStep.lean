import Setu.Consensus.Engine
import Setu.Consensus.Finalization
import Setu.Consensus.LeaderFollower

/-!
# What a step of the engine does

Library `Consensus`. Every handler takes frames and votes in and then settles at most one
frame. Stated once, for any notion of a known anchor and of a valid vote, this carries the
results about runs.
-/

namespace Setu.Consensus

open Setu.Base Setu.Types Setu.Merkle Setu.State

variable {D : Type} {H : Blake3 D} {S : Ed25519}

/-- What no step changes: the registered keys, the number of validators, the local validator
with its key, and the signature mode. -/
structure Setup where
  publicKey : ValidatorId → Option Bytes
  validatorCount : Nat
  localValidatorId : ValidatorId
  privateKey : Option Bytes
  strictVoteSignatures : Bool

/-- The input lets the engine open a frame. -/
def EngineInput.creates : EngineInput D → Bool
  | .tryCreateCf | .tryCreateCfHeartbeat _ => true
  | _ => false

namespace ConsensusEngine

variable {e e' : ConsensusEngine D}

/-- The setup an engine runs under. -/
def setup (e : ConsensusEngine D) : Setup where
  publicKey := e.validatorSet.publicKey
  validatorCount := e.validatorSet.count
  localValidatorId := e.localValidatorId
  privateKey := e.privateKey
  strictVoteSignatures := e.strictVoteSignatures

theorem fetchEvents_eq (cf : ConsensusFrame D)
    (fetch : Nat → Except String (Dag × VLCSnapshot)) (attempts : List Nat) (lastError : String)
    (e : ConsensusEngine D) :
    ∃ dag vlc, (fetchEvents cf fetch attempts lastError e).2 =
      { e with dag := dag, vlc := vlc } := by
  induction attempts generalizing lastError e with
  | nil => exact ⟨e.dag, e.vlc, rfl⟩
  | cons attempt rest ih =>
    unfold fetchEvents
    split
    · exact ih _ _
    · dsimp only
      split
      · exact ⟨_, _, rfl⟩
      · obtain ⟨dag, vlc, heq⟩ := ih _ _
        exact ⟨dag, vlc, heq⟩

/-- Fetching changes the DAG and the clock only. -/
theorem ensureCfEventsAvailable_eq (e : ConsensusEngine D) (cf : ConsensusFrame D)
    (fetch : Fetch) :
    ∃ dag vlc, (e.ensureCfEventsAvailable cf fetch).2 = { e with dag := dag, vlc := vlc } := by
  unfold ensureCfEventsAvailable
  dsimp only
  split
  · exact ⟨e.dag, e.vlc, rfl⟩
  · split
    · exact ⟨e.dag, e.vlc, rfl⟩
    · exact fetchEvents_eq cf _ _ _ e

@[simp]
theorem setup_handleFinalization (e : ConsensusEngine D) :
    e.handleFinalization.2.setup = e.setup := by
  unfold handleFinalization
  split <;> rfl

@[simp]
theorem consensusManager_handleFinalization (e : ConsensusEngine D) :
    e.handleFinalization.2.consensusManager = e.consensusManager := by
  unfold handleFinalization
  split <;> rfl

section Conclude

variable (e : ConsensusEngine D) (cast : Option (ConsensusFrame D × Vote))
  (settled : CfLifecycleOutcome D × ConsensusManager D)

@[simp]
theorem setup_conclude : (e.conclude cast settled).engine.setup = e.setup := by
  unfold conclude
  dsimp only
  split
  · exact setup_handleFinalization _
  · rfl

@[simp]
theorem consensusManager_conclude :
    (e.conclude cast settled).engine.consensusManager = settled.2 := by
  unfold conclude
  dsimp only
  split
  · exact consensusManager_handleFinalization _
  · rfl

@[simp]
theorem effects_conclude :
    (e.conclude cast settled).effects =
      { cast := cast, finalized := settled.1.finalizedFrame } := by
  unfold conclude CfLifecycleOutcome.finalizedFrame
  dsimp only
  cases settled.1 <;> rfl

end Conclude

/-- Filtering touches the votes only. -/
theorem filterEmbeddedVotesForStrictMode_eq (e : ConsensusEngine D) (cf : ConsensusFrame D) :
    ∃ votes, e.filterEmbeddedVotesForStrictMode S cf = { cf with votes := votes } := by
  unfold filterEmbeddedVotesForStrictMode
  split
  · exact ⟨cf.votes, rfl⟩
  · exact ⟨_, rfl⟩

variable [DecidableEq D] {cf : ConsensusFrame D}

/-- A frame that passes the first checks has the identifier of its content. -/
theorem verifyId_of_receiveCfChecks (h : e.receiveCfChecks H cf = none) : cf.verifyId H = true := by
  unfold receiveCfChecks at h
  by_contra hno
  rw [Bool.not_eq_true] at hno
  simp [hno] at h

variable (H S e) in
/-- How a build is prepared: for a fold or for a heartbeat. -/
inductive Prepares (env : Ambient) :
    (HashSet EventId → Except (AnchorBuildError D) (PendingAnchorBuild D)) → Prop
  | fold : Prepares env fun inFlight ↦
      e.consensusManager.anchorBuilder.prepareBuild H e.dag e.vlc inFlight env.now
  | heartbeat (interval : Nat) : Prepares env fun inFlight ↦
      e.consensusManager.anchorBuilder.prepareBuildHeartbeat H e.dag e.vlc interval env.instant
        inFlight env.now

theorem Prepares.selected {env : Ambient}
    {prepare : HashSet EventId → Except (AnchorBuildError D) (PendingAnchorBuild D)}
    (hp : e.Prepares H env prepare) {inFlight : HashSet EventId} {build : PendingAnchorBuild D}
    (h : prepare inFlight = .ok build) :
    ∃ selected, e.consensusManager.anchorBuilder.selectEvents H e.dag inFlight = .ok selected ∧
      build = e.consensusManager.anchorBuilder.prepareBuildInternal H selected e.vlc
        e.dag.maxDepth env.now := by
  cases hp with
  | fold =>
    have hb : _ ∨ e.consensusManager.anchorBuilder.prepareBuildHeartbeat H e.dag e.vlc 0 0 inFlight
      env.now = .ok build := .inl h
    exact AnchorBuilder.selected_of_ok hb
  | heartbeat interval => exact AnchorBuilder.selected_of_ok (.inr h)

variable (H S e) in
/-- What a step comes down to: an answer at once, a frame that is opened and announced, a received
frame that is accepted, a frame or a vote that the manager settles, or maintenance. -/
inductive Acts (env : Ambient) : EngineInput D → Effects D × ConsensusEngine D → Prop
  | answers (input : EngineInput D) (dag : Dag) (vlc : VLCSnapshot) :
      Acts env input ({}, { e with dag := dag, vlc := vlc })
  | announces {input : EngineInput D} (hinput : input.creates = true)
      {prepare : HashSet EventId → Except (AnchorBuildError D) (PendingAnchorBuild D)}
      (hprepare : e.Prepares H env prepare) :
      Acts env input (e.announce H S env (e.consensusManager.propose H
        e.validatorSet.currentRound env prepare)).outcome
  | accepts (cf : ConsensusFrame D) (fetch : Fetch) (dag : Dag) (vlc : VLCSnapshot)
      (votes : HashMap String Vote) (hid : cf.verifyId H = true)
      (hvotes : e.filterEmbeddedVotesForStrictMode S cf = { cf with votes := votes })
      (hnew : e.consensusManager.hasCf cf.id = false) :
      Acts env (.receiveCf cf fetch)
        (acceptCf H S { e with dag := dag, vlc := vlc } { cf with votes := votes } env).outcome
  | merges (cf : ConsensusFrame D) (fetch : Fetch) (dag : Dag) (vlc : VLCSnapshot)
      (hid : cf.verifyId H = true) (hvotes : e.verifyFinalizedCfVotes S cf = .ok ())
      (hnew : e.consensusManager.isFinalizedCf cf.id = false) :
      Acts env (.receiveFinalizedCf cf fetch) (conclude { e with dag := dag, vlc := vlc } none
        ((e.consensusManager.applyCfStateChanges dag cf).receiveFinalizedCf H cf env)).outcome
  | counts (vote : Vote) {validator : ValidatorInfo}
      (hvalidator : e.validatorSet.findValidator vote.validatorId = some validator)
      (hsigned : e.verifyVoteSignaturePolicy S vote validator.node.publicKey "vote" = .ok ()) :
      Acts env (.receiveVote vote)
        (e.conclude none (e.consensusManager.receiveVote H vote env)).outcome
  | cleans : Acts env .runPeriodicMaintenance ({}, e.runPeriodicMaintenance env)
  | marks (anchorId : AnchorId) :
      Acts env (.markAnchorPersisted anchorId) ({}, e.markAnchorPersisted anchorId)
  | completes : Acts env .completePendingFinalizations ({}, e.completePendingFinalizations)
  | advances : Acts env .advanceRound ({}, { e with validatorSet := e.validatorSet.advanceRound })

private theorem acts_receiveCf (e : ConsensusEngine D) (cf : ConsensusFrame D) (fetch : Fetch)
    (env : Ambient) :
    e.Acts H S env (.receiveCf cf fetch) (e.receiveCf H S cf fetch env).outcome := by
  obtain ⟨dag, vlc, hfe⟩ := e.ensureCfEventsAvailable_eq cf fetch
  obtain ⟨votes, hf⟩ := e.filterEmbeddedVotesForStrictMode_eq (S := S) cf
  unfold receiveCf
  split
  · exact .answers _ e.dag e.vlc
  · next hc =>
    dsimp only
    rw [hfe]
    split
    · exact .answers _ dag vlc
    · split_ifs with _ hk
      · exact .answers _ dag vlc
      · exact .answers _ dag vlc
      · exact .answers _ dag vlc
      · -- the filter looks at the validators only, which fetching left alone
        change ¬e.consensusManager.hasCf (e.filterEmbeddedVotesForStrictMode S cf).id = true at hk
        rw [hf] at hk
        have ha : e.Acts H S env _ _ := .accepts cf fetch dag vlc votes
          (verifyId_of_receiveCfChecks hc) hf (Bool.eq_false_of_not_eq_true hk)
        rw [← hf] at ha
        exact ha

private theorem acts_receiveFinalizedCf (e : ConsensusEngine D) (cf : ConsensusFrame D)
    (fetch : Fetch) (env : Ambient) :
    e.Acts H S env (.receiveFinalizedCf cf fetch)
      (e.receiveFinalizedCf H S cf fetch env).outcome := by
  obtain ⟨dag, vlc, hf⟩ := e.ensureCfEventsAvailable_eq cf fetch
  unfold receiveFinalizedCf
  split
  · exact .answers _ e.dag e.vlc
  · next hv =>
    rw [Bool.not_eq_true, Bool.not_eq_false'] at hv
    split
    · exact .answers _ e.dag e.vlc
    · next hvo =>
      split
      · exact .answers _ e.dag e.vlc
      · next hn =>
        split
        · exact .answers _ e.dag e.vlc
        · dsimp only
          rw [hf]
          split
          · exact .answers _ dag vlc
          · split_ifs
            · exact .answers _ dag vlc
            · exact .answers _ dag vlc
            · exact .merges cf fetch dag vlc hv hvo (Bool.eq_false_of_not_eq_true hn)

private theorem acts_receiveVote (e : ConsensusEngine D) (vote : Vote) (env : Ambient) :
    e.Acts H S env (.receiveVote vote) (e.receiveVote H S vote env).outcome := by
  unfold receiveVote
  split
  · exact .answers _ e.dag e.vlc
  · next validator hv =>
    split
    · exact .answers _ e.dag e.vlc
    · next hp => exact .counts vote hv hp

theorem acts_step (e : ConsensusEngine D) (input : EngineInput D) (env : Ambient) :
    e.Acts H S env input (e.step H S (input, env)) := by
  cases input with
  | observe dag vlc => exact .answers _ dag vlc
  | tryCreateCf =>
    change Acts H S e env _ (e.tryCreateCf H S env).outcome
    unfold tryCreateCf
    dsimp only
    split_ifs
    · exact .answers _ e.dag e.vlc
    · exact .answers _ e.dag e.vlc
    · exact .announces rfl .fold
  | tryCreateCfHeartbeat interval =>
    change Acts H S e env _ (e.tryCreateCfHeartbeat H S interval env).outcome
    unfold tryCreateCfHeartbeat
    dsimp only
    split_ifs
    · exact .answers _ e.dag e.vlc
    · exact .announces rfl (.heartbeat interval)
  | receiveCf cf fetch => exact e.acts_receiveCf cf fetch env
  | receiveFinalizedCf cf fetch => exact e.acts_receiveFinalizedCf cf fetch env
  | receiveVote vote => exact e.acts_receiveVote vote env
  | runPeriodicMaintenance => exact .cleans
  | markAnchorPersisted anchorId => exact .marks anchorId
  | completePendingFinalizations => exact .completes
  | advanceRound => exact .advances

private theorem setup_announce (e : ConsensusEngine D) (env : Ambient)
    (created : Option (ConsensusFrame D) × ConsensusManager D) :
    (e.announce H S env created).engine.setup = e.setup := by
  unfold announce
  dsimp only
  split
  · rfl
  · split
    · rfl
    · split <;> rfl

private theorem setup_acceptCf (e : ConsensusEngine D) (cf : ConsensusFrame D) (env : Ambient) :
    (e.acceptCf H S cf env).engine.setup = e.setup := by
  unfold acceptCf
  dsimp only
  split
  · rfl
  · exact setup_conclude ..

omit [DecidableEq D] in
theorem setup_completePendingFinalizations (e : ConsensusEngine D) :
    e.completePendingFinalizations.setup = e.setup := by
  have hr : ∀ (entries : List (CompletionEntry D)) (vs : ValidatorSet),
      (entries.foldl (fun vs entry ↦
          if vs.currentRound = entry.expectedRound then vs.advanceRound else vs) vs).publicKey =
        vs.publicKey ∧
      (entries.foldl (fun vs entry ↦
          if vs.currentRound = entry.expectedRound then vs.advanceRound else vs) vs).count =
        vs.count := by
    intro entries
    induction entries with
    | nil => exact fun vs ↦ ⟨rfl, rfl⟩
    | cons entry rest ih =>
      intro vs
      rw [List.foldl_cons]
      obtain ⟨hk, hc⟩ := ih _
      rw [hk, hc]
      split
      · exact ⟨vs.publicKey_setRound _, vs.count_setRound _⟩
      · exact ⟨rfl, rfl⟩
  obtain ⟨hk, hc⟩ := hr (e.pendingCompletions.filter (·.persisted)) e.validatorSet
  unfold setup completePendingFinalizations
  dsimp only
  rw [hk, hc]

/-- No step changes the setup. -/
theorem setup_step (e : ConsensusEngine D) (input : EngineInput D × Ambient) :
    (e.step H S input).2.setup = e.setup := by
  obtain ⟨input, env⟩ := input
  have ha := e.acts_step (H := H) (S := S) input env
  generalize e.step H S (input, env) = after at ha
  cases ha with
  | answers | cleans | marks => rfl
  | announces => exact setup_announce ..
  | accepts => exact setup_acceptCf ..
  | merges | counts => exact setup_conclude ..
  | completes => exact setup_completePendingFinalizations e
  | advances =>
    unfold setup ValidatorSet.advanceRound
    simp

variable {Known : CFId → Anchor D → Prop} {Valid : CFId → String → Vote → Prop}

/-- The frame or the votes of an input are known and valid as far as the checks let them
through. -/
def Delivers (H : Blake3 D) (S : Ed25519) (Known : CFId → Anchor D → Prop)
    (Valid : CFId → String → Vote → Prop) (e : ConsensusEngine D) : EngineInput D → Prop
  | .receiveCf cf _ => cf.verifyId H = true → Known cf.id cf.anchor ∧
      ∀ {voter vote}, (e.filterEmbeddedVotesForStrictMode S cf).votes.lookup voter = some vote →
        Valid cf.id voter vote
  | .receiveFinalizedCf cf _ => cf.verifyId H = true → e.verifyFinalizedCfVotes S cf = .ok () →
      Known cf.id cf.anchor ∧ ∀ {voter vote}, cf.votes.lookup voter = some vote →
        Valid cf.id voter vote ∧ Valid cf.id vote.validatorId vote
  | .receiveVote vote => ∀ {validator}, e.validatorSet.findValidator vote.validatorId =
      some validator → e.verifyVoteSignaturePolicy S vote validator.node.publicKey "vote" = .ok () →
        Valid vote.cfId vote.validatorId vote
  | _ => True

/-- An input whose data is known and valid, as is what the engine itself proposes and casts. -/
structure Admits (H : Blake3 D) (S : Ed25519) (Known : CFId → Anchor D → Prop)
    (Valid : CFId → String → Vote → Prop) (e : ConsensusEngine D)
    (input : EngineInput D × Ambient) : Prop where
  delivers : e.Delivers H S Known Valid input.1
  proposed : ∀ {frame}, (e.step H S input).1.proposed = some frame → frame.verifyId H = true →
    Known frame.id frame.anchor
  cast : ∀ {frame vote}, (e.step H S input).1.cast = some (frame, vote) →
    Valid frame.id vote.validatorId vote

/-- The manager took things in and then settled at most one frame. -/
def Handles (H : Blake3 D) (Known : CFId → Anchor D → Prop)
    (Valid : CFId → String → Vote → Prop) (e : ConsensusEngine D) (effects : Effects D)
    (e' : ConsensusEngine D) : Prop :=
  ∃ m, e.consensusManager.Intake m ∧ m.Inv H Known Valid ∧
    m.Settled H effects.finalized e'.consensusManager

variable {effects : Effects D}

theorem handles_of_settled (hi : e.consensusManager.Inv H Known Valid)
    (hs : e.consensusManager.Settled H effects.finalized e'.consensusManager) :
    e.Handles H Known Valid effects e' :=
  ⟨e.consensusManager, ⟨rfl, rfl, rfl⟩, hi, hs⟩

theorem handles_of_eq (hi : e.consensusManager.Inv H Known Valid)
    (hn : effects.finalized = none) (heq : e'.consensusManager = e.consensusManager) :
    e.Handles H Known Valid effects e' := by
  apply handles_of_settled hi
  rw [hn, heq]
  exact .of_shrinks (.refl _) rfl

variable {env : Ambient} {handled : Handled D (Option (ConsensusFrame D))}

/-- What a handler does that votes for a stored frame and settles it. -/
structure VotesAndSettles (H : Blake3 D) (cf : ConsensusFrame D)
    (voted : Option Vote × ConsensusManager D) (effects : Effects D) (e' : ConsensusEngine D) :
    Prop where
  cast : effects.cast = voted.1.map (cf, ·)
  settled : voted.2.Settled H effects.finalized e'.consensusManager

private theorem announce_some (e : ConsensusEngine D) (env : Ambient) (cf : ConsensusFrame D)
    (m : ConsensusManager D) :
    (∃ votes, (e.announce H S env (some cf, m)).effects.proposed =
        some { cf with votes := votes }) ∧
      VotesAndSettles H cf (m.voteForCf S cf.id true e.privateKey env.now)
        (e.announce H S env (some cf, m)).effects (e.announce H S env (some cf, m)).engine := by
  unfold announce
  dsimp only
  generalize m.voteForCf S cf.id true e.privateKey env.now = voted
  obtain ⟨vote, m'⟩ := voted
  cases vote with
  | none => exact ⟨⟨cf.votes, rfl⟩, rfl, .of_shrinks (.refl _) rfl⟩
  | some vote =>
    have hs := m'.settled_classifyFinalization (H := H) cf.id env
    dsimp only
    generalize m'.classifyFinalization H cf.id env = settled at hs
    obtain ⟨outcome, m''⟩ := settled
    cases outcome with
    | finalized | pending | applyFailed | rejected | timedOut =>
      exact ⟨⟨_, rfl⟩, rfl, hs⟩

private theorem acceptCf_spec (e : ConsensusEngine D) (cf : ConsensusFrame D) (env : Ambient) :
    VotesAndSettles H cf
      (((e.consensusManager.applyCfStateChanges e.dag cf).receiveCf cf).voteForCf S cf.id true
        e.privateKey env.now)
      (e.acceptCf H S cf env).effects (e.acceptCf H S cf env).engine := by
  unfold acceptCf
  dsimp only
  generalize ConsensusManager.voteForCf S _ _ _ _ _ = voted
  obtain ⟨vote, m'⟩ := voted
  cases vote with
  | none => exact ⟨rfl, .of_shrinks (.refl _) rfl⟩
  | some vote =>
    have hs := m'.settled_classifyFinalization (H := H) cf.id env
    simp only [Handled.map, effects_conclude]
    rw [← e.consensusManager_conclude (some (cf, vote))] at hs
    exact ⟨rfl, hs⟩

private theorem VotesAndSettles.handles {m : ConsensusManager D}
    (h : VotesAndSettles H cf (m.voteForCf S cf.id true e.privateKey env.now) effects e')
    (hi : e.consensusManager.Intake m) (hin : m.Inv H Known Valid)
    (hc : ∀ {frame vote}, effects.cast = some (frame, vote) →
      Valid frame.id vote.validatorId vote) : e.Handles H Known Valid effects e' := by
  refine ⟨_, hi.trans (ConsensusManager.intake_voteForCf ..), ?_, h.settled⟩
  apply hin.voteForCf
  intro vote hv
  apply @hc cf vote
  rw [h.cast, hv]
  rfl

private theorem VotesAndSettles.cast_eq {m : ConsensusManager D}
    (h : VotesAndSettles H cf (m.voteForCf S cf.id true e.privateKey env.now) effects e')
    {frame : ConsensusFrame D} {vote : Vote} (hc : effects.cast = some (frame, vote))
    (hi : e.consensusManager.Intake m) :
    frame = cf ∧ vote = e.consensusManager.localVote S cf.id true e.privateKey env.now := by
  rw [h.cast, Option.map_eq_some_iff] at hc
  obtain ⟨vote', hv, heq⟩ := hc
  cases heq
  refine ⟨rfl, ?_⟩
  rcases ConsensusManager.voteForCf_cases S m cf.id true e.privateKey env.now with
    hn | ⟨pending, -, hs⟩
  · rw [hn] at hv
    cases hv
  · rw [hs] at hv
    cases hv
    unfold ConsensusManager.localVote
    rw [hi.localValidatorId_eq]

private theorem propose_of_prepares
    {prepare : HashSet EventId → Except (AnchorBuildError D) (PendingAnchorBuild D)}
    (hp : e.Prepares H env prepare) (round : UInt64) :
    e.consensusManager.propose H round env prepare = (none, e.consensusManager) ∨
      ∃ build, build.Prepared H ∧
        let cf := ConsensusFrame.new H round build.anchor e.consensusManager.localValidatorId
          env.now
        e.consensusManager.propose H round env prepare = (some cf, { e.consensusManager with
          pendingBuilds := e.consensusManager.pendingBuilds.insert cf.id build
          pendingCfs := e.consensusManager.pendingCfs.insert cf.id cf }) := by
  refine e.consensusManager.propose_cases round env fun h ↦ ?_
  obtain ⟨selected, -, rfl⟩ := hp.selected h
  exact ConsensusManager.prepared_prepareBuildInternal ..

omit [DecidableEq D] in
private theorem intake_receiveCf (m : ConsensusManager D) (dag : Dag) (cf : ConsensusFrame D) :
    m.Intake ((m.applyCfStateChanges dag cf).receiveCf cf) :=
  (ConsensusManager.intake_applyCfStateChanges _ _ _).trans (ConsensusManager.intake_receiveCf _ _)

private theorem handles_merge (hi : e.consensusManager.Inv H Known Valid) (dag : Dag)
    (hk : Known cf.id cf.anchor)
    (hv : ∀ {voter vote}, cf.votes.lookup voter = some vote →
      Valid cf.id voter vote ∧ Valid cf.id vote.validatorId vote) (env : Ambient) :
    ∃ m, e.consensusManager.Intake m ∧ m.Inv H Known Valid ∧
      m.Settled H ((e.consensusManager.applyCfStateChanges dag cf).receiveFinalizedCf H cf
        env).1.finalizedFrame
        ((e.consensusManager.applyCfStateChanges dag cf).receiveFinalizedCf H cf env).2 := by
  have ho : ∀ vote ∈ cf.votes.values, Valid cf.id vote.validatorId vote := by
    intro vote hm
    obtain ⟨voter, hl⟩ := HashMap.mem_values.mp hm
    exact (hv hl).2
  obtain ⟨m, hin, hi', hs⟩ := (hi.applyCfStateChanges dag cf).receiveFinalizedCf
    ⟨rfl, hk, fun hl ↦ (hv hl).1⟩ ho env
  exact ⟨m, (ConsensusManager.intake_applyCfStateChanges _ _ _).trans hin, hi', hs⟩

/-- A step takes things in and settles at most one frame. -/
theorem step_handles (hi : e.consensusManager.Inv H Known Valid)
    {input : EngineInput D × Ambient} (ha : e.Admits H S Known Valid input) :
    e.Handles H Known Valid (e.step H S input).1 (e.step H S input).2 := by
  obtain ⟨input, env⟩ := input
  obtain ⟨hd, hp, hc⟩ := ha
  have hs := e.acts_step (H := H) (S := S) input env
  generalize e.step H S (input, env) = after at hs hp hc ⊢
  cases hs with
  | answers | completes | advances => exact handles_of_eq hi rfl rfl
  | announces hinput hprepare =>
    rcases propose_of_prepares hprepare e.validatorSet.currentRound with heq | ⟨build, hb, heq⟩
    · rw [heq]
      exact handles_of_eq hi rfl rfl
    · rw [heq] at hp hc ⊢
      obtain ⟨⟨votes, ha⟩, hv⟩ := announce_some (H := H) (S := S) e env _ _
      have hk := hp ha (ConsensusFrame.verifyId_new ..)
      exact hv.handles ⟨rfl, rfl, rfl⟩ (hi.insertBuild hb ⟨rfl, hk, nofun⟩ rfl) hc
  | accepts cf fetch dag vlc votes hid hvotes hnew =>
    obtain ⟨hk, hv⟩ := hd hid
    rw [hvotes] at hv
    have ha := acceptCf_spec (H := H) (S := S) { e with dag := dag, vlc := vlc }
      { cf with votes := votes } env
    exact ha.handles (intake_receiveCf _ _ _) ((hi.applyCfStateChanges _ _).receiveCf
      ⟨rfl, hk, hv⟩) hc
  | merges cf fetch dag vlc hid hvotes hnew =>
    obtain ⟨hk, hv⟩ := hd hid hvotes
    simp only [Handled.outcome, Handles, effects_conclude, consensusManager_conclude]
    exact handles_merge hi dag hk hv env
  | counts vote hvalidator hsigned =>
    simp only [Handled.outcome, Handles, effects_conclude, consensusManager_conclude]
    exact hi.receiveVote (hd hvalidator hsigned) env
  | cleans =>
    obtain ⟨hs, hb⟩ := e.consensusManager.shrinks_cleanupTimeoutCfs env
    exact handles_of_settled hi (.of_shrinks hs hb)
  | marks anchorId =>
    exact handles_of_settled hi (.of_shrinks ⟨fun _ ↦ .inl rfl, fun h ↦ h, fun h ↦ h, rfl, rfl⟩ rfl)

/-- A step casts at most the local validator's approving vote, for the frame it received or
proposed. -/
theorem step_cast {input : EngineInput D × Ambient} {frame : ConsensusFrame D} {vote : Vote}
    (hc : (e.step H S input).1.cast = some (frame, vote)) :
    vote = e.consensusManager.localVote S frame.id true e.privateKey input.2.now ∧
      frame.verifyId H = true ∧
      ((∃ cf fetch votes, input.1 = .receiveCf cf fetch ∧ frame = { cf with votes := votes }) ∨
        ∃ votes, (e.step H S input).1.proposed = some { frame with votes := votes }) := by
  obtain ⟨input, env⟩ := input
  have hs := e.acts_step (H := H) (S := S) input env
  generalize e.step H S (input, env) = after at hs hc ⊢
  cases hs with
  | answers | cleans | marks | completes | advances => cases hc
  | announces hinput hprepare =>
    rcases propose_of_prepares hprepare e.validatorSet.currentRound with heq | ⟨build, -, heq⟩
    · rw [heq] at hc
      cases hc
    · rw [heq] at hc ⊢
      obtain ⟨hp, hvo⟩ := announce_some (H := H) (S := S) e env _ _
      obtain ⟨rfl, hv⟩ := hvo.cast_eq hc ⟨rfl, rfl, rfl⟩
      exact ⟨hv, ConsensusFrame.verifyId_new .., .inr hp⟩
  | accepts cf fetch dag vlc votes hid hvotes hnew =>
    obtain ⟨rfl, hv⟩ := (acceptCf_spec { e with dag := dag, vlc := vlc } _ env).cast_eq hc
      (intake_receiveCf _ _ _)
    exact ⟨hv, hid, .inl ⟨cf, fetch, votes, rfl, rfl⟩⟩
  | merges | counts => simp [Handled.outcome] at hc

end ConsensusEngine

end Setu.Consensus
