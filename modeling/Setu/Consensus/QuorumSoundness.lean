import Setu.Base.Machine
import Setu.Consensus.EngineStep

/-!
# Signed quorums

Library `Consensus`. In strict mode every vote that counts was checked against a registered
key, by one of three routes: the filter on a proposed frame's votes, the check of a finalized
frame's votes, and the check of a single vote. The second looks at a vote's own identifier and
not at the key of its entry, so it needs the vote map to be keyed by voter.
-/

namespace Setu.Consensus

open Setu.Base Setu.Types Setu.Merkle Setu.State

variable {D : Type}

/-- The votes a message carries. -/
def EngineInput.votes : EngineInput D → List Vote
  | .receiveCf cf _ | .receiveFinalizedCf cf _ => cf.votes.values
  | .receiveVote vote => [vote]
  | _ => []

/-- The frame a message carries. -/
def EngineInput.frame : EngineInput D → Option (ConsensusFrame D)
  | .receiveCf cf _ | .receiveFinalizedCf cf _ => some cf
  | _ => none

/-- A finalized frame's votes are filed under the names of their voters. -/
def EngineInput.Keyed : EngineInput D → Prop
  | .receiveFinalizedCf cf _ => ∀ entry ∈ cf.votes.toList, entry.2.validatorId = entry.1
  | _ => True

instance (input : EngineInput D) : Decidable input.Keyed :=
  match input with
  | .receiveFinalizedCf cf _ =>
    inferInstanceAs (Decidable (∀ entry ∈ cf.votes.toList, entry.2.validatorId = entry.1))
  | .observe .. | .tryCreateCf | .tryCreateCfHeartbeat _ | .receiveCf .. | .receiveVote _
  | .runPeriodicMaintenance | .markAnchorPersisted _ | .completePendingFinalizations
  | .advanceRound => inferInstanceAs (Decidable True)

/-- A vote for the frame that turned up with a signature of the voter. -/
structure SignedFor (S : Ed25519) (publicKey : ValidatorId → Option Bytes) (Seen : Vote → Prop)
    (id : CFId) (voter : ValidatorId) (vote : Vote) : Prop where
  cfId_eq : vote.cfId = id
  seen : Seen vote
  verified : ∃ key, publicKey voter = some key ∧ vote.verifySignature S key = true

theorem SignedFor.mono {S : Ed25519} {publicKey : ValidatorId → Option Bytes}
    {Seen Seen' : Vote → Prop} {id : CFId} {voter : ValidatorId} {vote : Vote}
    (h : SignedFor S publicKey Seen id voter vote) (hs : ∀ {vote}, Seen vote → Seen' vote) :
    SignedFor S publicKey Seen' id voter vote :=
  ⟨h.cfId_eq, hs h.seen, h.verified⟩

/-- Whatever signature of the vote verifies under a key, the holder of the key signed it. -/
def Genuine (S : Ed25519) (Signed : Bytes → Bytes → Prop) (vote : Vote) : Prop :=
  ∀ key, vote.verifySignature S key = true → Signed key vote.signingMessage

/-- Strict signatures, and a local key under which the validator is registered. -/
structure Setup.Secure (S : Ed25519) (setup : Setup) : Prop where
  strict : setup.strictVoteSignatures = true
  key : ∃ key, setup.privateKey = some key ∧ key.length = 32 ∧
    setup.publicKey setup.localValidatorId = some (S.publicKey key)

namespace ConsensusEngine

variable {H : Blake3 D} {S : Ed25519} {e : ConsensusEngine D} {Seen : Vote → Prop}

/-- In strict mode the policy demands a signature that verifies. -/
theorem verifySignature_of_policy (hs : e.strictVoteSignatures = true) {vote : Vote}
    {key : Bytes} {context : String}
    (h : e.verifyVoteSignaturePolicy S vote key context = .ok ()) :
    vote.verifySignature S key = true := by
  unfold verifyVoteSignaturePolicy at h
  rw [hs] at h
  split at h
  · cases h
  · split at h
    · cases h
    · split at h
      · cases h
      · next hv => simpa using hv

/-- A vote that passed the policy is signed by the validator it names. -/
theorem signedFor_of_policy (hs : e.strictVoteSignatures = true) {vote : Vote}
    {validator : ValidatorInfo} {context : String} (hse : Seen vote)
    (hv : e.validatorSet.findValidator vote.validatorId = some validator)
    (h : e.verifyVoteSignaturePolicy S vote validator.node.publicKey context = .ok ()) :
    SignedFor S e.validatorSet.publicKey Seen vote.cfId vote.validatorId vote :=
  ⟨rfl, hse, _, ValidatorSet.publicKey_of_findValidator hv, verifySignature_of_policy hs h⟩

/-- The votes of an accepted finalized frame are for it and signed by whom they name. -/
theorem signedFor_of_verifyFinalizedCfVotes (hs : e.strictVoteSignatures = true)
    {cf : ConsensusFrame D} (h : e.verifyFinalizedCfVotes S cf = .ok ()) {vote : Vote}
    (hv : vote ∈ cf.votes.values) (hse : Seen vote) :
    SignedFor S e.validatorSet.publicKey Seen cf.id vote.validatorId vote := by
  unfold verifyFinalizedCfVotes at h
  split at h
  · cases h
  · have hp := forM_eq_ok.mp h vote hv
    unfold verifyFinalizedCfVote at hp
    split at hp
    · cases hp
    · next hid =>
      rw [not_not] at hid
      split at hp
      · cases hp
      · next validator hva =>
        rw [← hid]
        exact signedFor_of_policy hs hse hva hp

/-- The votes the filter keeps are for the frame and signed by the validators they are filed
under. -/
theorem signedFor_of_filterEmbeddedVotes (hs : e.strictVoteSignatures = true)
    {cf : ConsensusFrame D} {voter : ValidatorId} {vote : Vote}
    (hv : (e.filterEmbeddedVotesForStrictMode S cf).votes.lookup voter = some vote)
    (hse : ∀ vote ∈ cf.votes.values, Seen vote) :
    SignedFor S e.validatorSet.publicKey Seen cf.id voter vote := by
  unfold filterEmbeddedVotesForStrictMode at hv
  split at hv
  · next he =>
    rw [hs, Bool.not_true, Bool.false_or, List.isEmpty_iff] at he
    have hm := AList.mem_keys.mp (AList.lookup_isSome.mp (Option.isSome_of_eq_some hv))
    rw [he] at hm
    cases hm
  · dsimp only at hv
    rw [HashMap.lookup_retain, Option.filter_eq_some_iff] at hv
    obtain ⟨hl, hk⟩ := hv
    unfold keepsEmbeddedVote at hk
    split at hk
    · cases hk
    · next hid =>
      split at hk
      · cases hk
      · next validator hva =>
        split at hk
        · cases hk
        · exact ⟨not_not.mp hid, hse vote (HashMap.mem_values.mpr ⟨voter, hl⟩), _,
            ValidatorSet.publicKey_of_findValidator hva, hk⟩

/-- Signing changes the signature only. -/
theorem localVote_eq (S : Ed25519) (m : ConsensusManager D) (id : CFId) (approve : Bool)
    (key : Option Bytes) (now : UInt64) :
    ∃ signature, m.localVote S id approve key now =
      { Vote.new m.localValidatorId id approve now with signature := signature } := by
  unfold ConsensusManager.localVote Vote.sign
  cases key with
  | none => exact ⟨[], rfl⟩
  | some key =>
    dsimp only
    split_ifs
    · exact ⟨[], rfl⟩
    · exact ⟨_, rfl⟩

/-- The local vote carries a signature that verifies under the key's public key. -/
theorem verifySignature_localVote (hc : S.Correct) {key : Bytes} (hl : key.length = 32)
    (m : ConsensusManager D) (id : CFId) (approve : Bool) (now : UInt64) :
    (m.localVote S id approve (some key) now).verifySignature S (S.publicKey key) = true := by
  unfold ConsensusManager.localVote Vote.sign
  have hs := hc.sign_ne_nil (Vote.new m.localValidatorId id approve now).signingMessage hl
  have hv := hc.verify_sign (Vote.new m.localValidatorId id approve now).signingMessage hl
  simp only [hl, ne_eq, not_true_eq_false, ↓reduceIte]
  unfold Vote.verifySignature
  simp only [List.isEmpty_iff, hs, ↓reduceIte, hc.length_publicKey hl, ne_eq, not_true_eq_false]
  exact hv

variable [DecidableEq D] {Known : CFId → Anchor D → Prop} {setup : Setup}

/-- An input with known frames and seen votes, as are the frame and the vote it leads to. -/
structure Acceptable (H : Blake3 D) (S : Ed25519) (Known : CFId → Anchor D → Prop)
    (Seen : Vote → Prop) (e : ConsensusEngine D) (input : EngineInput D × Ambient) : Prop where
  keyed : input.1.Keyed
  votes : ∀ vote ∈ input.1.votes, Seen vote
  cast : ∀ {frame vote}, (e.step H S input).1.cast = some (frame, vote) → Seen vote
  frame : ∀ {frame}, input.1.frame = some frame → frame.verifyId H = true →
    Known frame.id frame.anchor
  proposed : ∀ {frame}, (e.step H S input).1.proposed = some frame → frame.verifyId H = true →
    Known frame.id frame.anchor

omit [DecidableEq D] in
private theorem delivers_signedFor (hs : e.strictVoteSignatures = true)
    {input : EngineInput D} (hk : input.Keyed) (hvo : ∀ vote ∈ input.votes, Seen vote)
    (hf : ∀ {frame}, input.frame = some frame → frame.verifyId H = true →
      Known frame.id frame.anchor) :
    e.Delivers H S Known (SignedFor S e.validatorSet.publicKey Seen) input := by
  cases input with
  | receiveCf cf fetch =>
    intro hve
    exact ⟨hf rfl hve, fun hv ↦ signedFor_of_filterEmbeddedVotes hs hv hvo⟩
  | receiveFinalizedCf cf fetch =>
    intro hve hc
    refine ⟨hf rfl hve, ?_⟩
    intro voter vote hv
    have hm := HashMap.mem_values.mpr ⟨voter, hv⟩
    have hsi := signedFor_of_verifyFinalizedCfVotes hs hc hm (hvo vote hm)
    -- the check is about the voter the vote names, the count about the key of the entry
    have hke : vote.validatorId = voter := hk (voter, vote) (HashMap.mem_toList.mpr hv)
    exact ⟨hke ▸ hsi, hsi⟩
  | receiveVote vote =>
    intro validator hva hp
    have hse := hvo vote (List.mem_singleton_self vote)
    exact signedFor_of_policy hs hse hva hp
  | observe | tryCreateCf | tryCreateCfHeartbeat | runPeriodicMaintenance | markAnchorPersisted
  | completePendingFinalizations | advanceRound => exact trivial

/-- The engine's invariant under its setup: whatever counts as a vote is signed. -/
structure Guarded (H : Blake3 D) (S : Ed25519) (Known : CFId → Anchor D → Prop)
    (Seen : Vote → Prop) (setup : Setup) (e : ConsensusEngine D) : Prop where
  setup_eq : e.setup = setup
  validatorCount_eq : e.consensusManager.config.validatorCount = setup.validatorCount
  localValidatorId_eq : e.consensusManager.localValidatorId = setup.localValidatorId
  inv : e.consensusManager.Inv H Known (SignedFor S setup.publicKey Seen)

/-- A known frame with approving votes that a quorum of registered validators signed. -/
structure Certified (S : Ed25519) (Known : CFId → Anchor D → Prop) (Seen : Vote → Prop)
    (setup : Setup) (cf : ConsensusFrame D) : Prop where
  known : Known cf.id cf.anchor
  signers : ∃ voters : Finset ValidatorId, quorum setup.validatorCount ≤ voters.card ∧
    ∀ voter ∈ voters, ∃ vote, vote.approve = true ∧
      SignedFor S setup.publicKey Seen cf.id voter vote

omit [DecidableEq D] in
theorem Guarded.mono {Seen' : Vote → Prop} (h : e.Guarded H S Known Seen setup)
    (hs : ∀ {vote}, Seen vote → Seen' vote) : e.Guarded H S Known Seen' setup :=
  ⟨h.setup_eq, h.validatorCount_eq, h.localValidatorId_eq,
    h.inv.mono (fun hk ↦ hk) fun hv ↦ hv.mono hs⟩

omit [DecidableEq D] in
theorem Certified.mono {Seen' : Vote → Prop} {cf : ConsensusFrame D}
    (h : Certified S Known Seen setup cf) (hs : ∀ {vote}, Seen vote → Seen' vote) :
    Certified S Known Seen' setup cf := by
  obtain ⟨hk, voters, hc, hv⟩ := h
  refine ⟨hk, voters, hc, ?_⟩
  intro voter hvo
  obtain ⟨vote, ha, hsi⟩ := hv voter hvo
  exact ⟨vote, ha, hsi.mono hs⟩

private theorem Guarded.admits (h : e.Guarded H S Known Seen setup) (hco : S.Correct)
    (hs : setup.Secure S) {input : EngineInput D × Ambient}
    (hi : e.Acceptable H S Known Seen input) :
    e.Admits H S Known (SignedFor S setup.publicKey Seen) input where
  delivers := by
    obtain ⟨rfl, -, -, -⟩ := h
    exact delivers_signedFor hs.strict hi.keyed hi.votes hi.frame
  proposed := hi.proposed
  cast := by
    intro frame vote hc
    obtain ⟨key, hk, hl, hr⟩ := hs.key
    have hse := hi.cast hc
    obtain ⟨hv, -, -⟩ := step_cast hc
    have hp : e.privateKey = some key := by
      rw [← hk, ← h.setup_eq]
      rfl
    rw [hp] at hv
    have hve := verifySignature_localVote hco hl e.consensusManager frame.id true input.2.now
    rw [← hv] at hve
    obtain ⟨signature, hsh⟩ := localVote_eq S e.consensusManager frame.id true (some key)
      input.2.now
    rw [hsh] at hv
    subst hv
    refine ⟨rfl, hse, S.publicKey key, ?_, hve⟩
    change setup.publicKey e.consensusManager.localValidatorId = _
    rw [h.localValidatorId_eq]
    exact hr

/-- A step of a guarded engine keeps it guarded, and a frame it finalizes is certified. -/
theorem Guarded.step (h : e.Guarded H S Known Seen setup) (hco : S.Correct)
    (hse : setup.Secure S) {input : EngineInput D × Ambient}
    (hip : e.Acceptable H S Known Seen input) :
    (e.step H S input).2.Guarded H S Known Seen setup ∧
      ∀ {cf}, (e.step H S input).1.finalized = some cf → Certified S Known Seen setup cf := by
  obtain ⟨m, hin, hi, hs⟩ := step_handles h.inv (h.admits hco hse hip)
  have hc : m.config.validatorCount = setup.validatorCount := by
    rw [hin.config_eq, h.validatorCount_eq]
  refine ⟨⟨?_, ?_, ?_, hi.of_shrinks hs.shrinks⟩, ?_⟩
  · rw [setup_step, h.setup_eq]
  · rw [hs.shrinks.config_eq, hc]
  · rw [hs.shrinks.localValidatorId_eq, hin.localValidatorId_eq, h.localValidatorId_eq]
  · intro cf hfi
    obtain ⟨id, hf⟩ := hs.finalizes hfi
    have ht := hf.tracked hi
    have hq := hf.exists_quorum hi
    rw [hc, ← ht.id_eq] at hq
    exact ⟨ht.id_eq ▸ ht.known, hq⟩

/-- As a validator starts: with a new manager that counts the registered validators. -/
def Starts (H : Blake3 D) (e : ConsensusEngine D) : Prop :=
  ∃ config, e.consensusManager =
    (ConsensusManager.new H config e.localValidatorId).updateValidatorCount e.validatorSet.count

omit [DecidableEq D] in
/-- Setting up a validator starts it. -/
theorem starts_startUp (config : ConsensusConfig) (self : NodeInfo) (peers : List NodeInfo)
    (key : Option Bytes) (now : UInt64) : (startUp H config self peers key now).Starts H := by
  have hp : ∀ (peers : List NodeInfo) {e : ConsensusEngine D}, e.Starts H →
      (peers.foldl (fun e peer ↦ e.addConsensusValidator ⟨peer, false, 0⟩) e).Starts H := by
    intro peers
    induction peers with
    | nil => exact fun h ↦ h
    | cons peer rest ih =>
      rintro e ⟨config, heq⟩
      apply ih
      refine ⟨config, ?_⟩
      unfold addConsensusValidator
      dsimp only
      rw [heq]
      rfl
  have ha : (new H { config with validatorCount := 1 } self.id
      (ValidatorSet.new.addValidator ⟨self, false, 0⟩) now).Starts H :=
    ⟨{ config with validatorCount := 1 }, rfl⟩
  obtain ⟨config', heq⟩ := hp (peers.filter fun peer ↦ peer.id ≠ self.id) ha
  unfold startUp
  cases key with
  | none => exact ⟨config', heq⟩
  | some key => exact ⟨config', heq⟩

omit [DecidableEq D] in
theorem Starts.guarded (h : e.Starts H) : e.Guarded H S Known Seen e.setup := by
  obtain ⟨config, heq⟩ := h
  refine ⟨rfl, ?_, ?_, ?_⟩
  · rw [heq]
    rfl
  · rw [heq]
    rfl
  · rw [heq]
    exact ConsensusManager.inv_new ..

/-- Unforgeability where it matters: every vote that is delivered or cast in this step has
genuine signatures only. -/
def Authentic (H : Blake3 D) (S : Ed25519) (Signed : Bytes → Bytes → Prop)
    (e : ConsensusEngine D) (input : EngineInput D × Ambient) : Prop :=
  ∀ vote ∈ input.1.votes ++ ((e.step H S input).1.cast.map (·.2)).toList, Genuine S Signed vote

/-- In every run of a validator in strict mode that signs under its registered key, and in
which the votes of finalized frames are filed under their voters, each finalized frame has
approving votes signed by a quorum of registered validators. -/
theorem exists_quorum_signed {e₀ e : ConsensusEngine D} (hcorrect : S.Correct)
    (hstarts : e₀.Starts H) (hsecure : e₀.setup.Secure S) {Signed : Bytes → Bytes → Prop}
    {effects : List (Effects D)}
    (hrun : Run (ConsensusEngine.step H S)
      (fun _ e input ↦ e.Authentic H S Signed input ∧ input.1.Keyed) e₀ effects e)
    {effect : Effects D} (heffect : effect ∈ effects) {cf : ConsensusFrame D}
    (hcf : effect.finalized = some cf) :
    ∃ voters : Finset ValidatorId, quorum e₀.validatorSet.count ≤ voters.card ∧
      ∀ voter ∈ voters, ∃ (key : Bytes) (vote : Vote), e₀.validatorSet.publicKey voter = some key ∧
        vote.cfId = cf.id ∧ vote.approve = true ∧ Signed key vote.signingMessage := by
  let Inv (effects : List (Effects D)) (e : ConsensusEngine D) : Prop :=
    e.Guarded H S (fun _ _ ↦ True) (Genuine S Signed) e₀.setup ∧
      ∀ effect ∈ effects, ∀ cf, effect.finalized = some cf →
        Certified S (fun _ _ ↦ True) (Genuine S Signed) e₀.setup cf
  have hi : Inv effects e := by
    refine Run.invariant Inv ⟨hstarts.guarded, List.forall_mem_nil _⟩ ?_ hrun
    rintro effects e input ⟨hg, hc⟩ ⟨ha, hk⟩
    have hin : e.Acceptable H S (fun _ _ ↦ True) (Genuine S Signed) input := {
      keyed := hk
      votes := fun vote hv ↦ ha vote (List.mem_append_left _ hv)
      cast := fun hca ↦ ha _ (List.mem_append_right _ (by simp [hca]))
      frame := fun _ _ ↦ trivial
      proposed := fun _ _ ↦ trivial }
    obtain ⟨hg', hc'⟩ := hg.step hcorrect hsecure hin
    refine ⟨hg', ?_⟩
    rw [List.forall_mem_append, List.forall_mem_singleton]
    exact ⟨hc, fun cf hcf ↦ hc' hcf⟩
  obtain ⟨voters, hcr, hvo⟩ := (hi.2 effect heffect cf hcf).signers
  refine ⟨voters, hcr, ?_⟩
  intro voter hvt
  obtain ⟨vote, hap, hid, hs, key, hke, hve⟩ := hvo voter hvt
  exact ⟨key, vote, hke, hid, hap, hs key hve⟩

/-- A validator that holds the key made of 32 copies of a byte. -/
def keyedNode (id : ValidatorId) (byte : UInt8) : NodeInfo := ⟨id, .replicate 32 byte⟩

/-- Validator `v2` of four, set up with its key. -/
def validatorTwo : ConsensusEngine (Option Bytes) :=
  startUp Blake3.ideal {} (keyedNode "v2" 2) [keyedNode "v1" 1, keyedNode "v3" 3, keyedNode "v4" 4]
    (some (.replicate 32 2)) 0

/-- A frame of round 0 without events and Merkle roots. -/
def bareFrame : ConsensusFrame (Option Bytes) :=
  .new Blake3.ideal 0 ⟨"a", [], ⟨∅, 0, 0⟩, "", none, none, 0, 0⟩ "v1" 0

/-- An approving vote for it, signed with the key of the byte. -/
def signedVote (id : ValidatorId) (byte : UInt8) : Vote :=
  let vote := Vote.new id bareFrame.id true 0
  { vote with signature := Ed25519.ideal.sign (.replicate 32 byte) vote.signingMessage }

/-- The frame arrives as finalized with these votes. -/
def finalizedArrives (entries : List (ValidatorId × Vote)) :
    EngineInput (Option Bytes) × Ambient :=
  (.receiveFinalizedCf { bareFrame with votes := HashMap.insertAll ∅ entries } none,
    ⟨0, 0, .ok ()⟩)

/-- The certificate with three voters. -/
def properArrives : EngineInput (Option Bytes) × Ambient :=
  finalizedArrives [("v1", signedVote "v1" 1), ("v3", signedVote "v3" 3), ("v4", signedVote "v4" 4)]

/-- The vote of `v1`, filed under three names. -/
def duplicatedArrives : EngineInput (Option Bytes) × Ambient :=
  finalizedArrives [("v1", signedVote "v1" 1), ("v3", signedVote "v1" 1), ("v4", signedVote "v1" 1)]

private theorem starts_validatorTwo : validatorTwo.Starts Blake3.ideal := starts_startUp ..

private theorem secure_validatorTwo : validatorTwo.setup.Secure Ed25519.ideal :=
  ⟨rfl, _, rfl, rfl, by decide +kernel⟩

private theorem count_validatorTwo : validatorTwo.validatorSet.count = 4 := by decide +kernel

-- in the ideal scheme a signature shows the key that made it
private theorem authentic_of_no_cast {e : ConsensusEngine (Option Bytes)}
    {input : EngineInput (Option Bytes) × Ambient}
    (hc : (e.step Blake3.ideal Ed25519.ideal input).1.cast.isNone = true) :
    e.Authentic Blake3.ideal Ed25519.ideal
      (fun key message ↦ key ++ message ∈ input.1.votes.map (·.signature)) input := by
  rw [Option.isNone_iff_eq_none] at hc
  unfold Authentic
  rw [hc]
  intro vote hvo key hv
  rw [Option.map_none, Option.toList_none, List.append_nil] at hvo
  have hs : vote.signature = key ++ vote.signingMessage := by
    unfold Vote.verifySignature at hv
    split_ifs at hv
    simpa [Ed25519.ideal] using hv
  exact List.mem_map.mpr ⟨vote, hvo, hs⟩

theorem exists_quorum_signed_properArrives :
    ∃ cf, (validatorTwo.step Blake3.ideal Ed25519.ideal properArrives).1.finalized = some cf ∧
      ∃ voters : Finset ValidatorId, quorum 4 ≤ voters.card ∧ ∀ voter ∈ voters,
        ∃ (key : Bytes) (vote : Vote), validatorTwo.validatorSet.publicKey voter = some key ∧
          vote.cfId = cf.id ∧ vote.approve = true ∧
          key ++ vote.signingMessage ∈ properArrives.1.votes.map (·.signature) := by
  obtain ⟨hs, hn⟩ :
      (validatorTwo.step Blake3.ideal Ed25519.ideal properArrives).1.finalized.isSome = true ∧
      (validatorTwo.step Blake3.ideal Ed25519.ideal properArrives).1.cast.isNone = true := by
    decide +kernel
  obtain ⟨cf, hcf⟩ := Option.isSome_iff_exists.mp hs
  refine ⟨cf, hcf, ?_⟩
  have hi := authentic_of_no_cast hn
  have hk : properArrives.1.Keyed := by decide +kernel
  have hq := exists_quorum_signed Ed25519.ideal_correct starts_validatorTwo
    secure_validatorTwo (Run.start.next properArrives ⟨hi, hk⟩)
    (List.mem_append_right _ (List.mem_singleton_self _)) hcf
  rw [count_validatorTwo] at hq
  exact hq

/-- The check of a finalized frame counts entries and looks at votes, so one validator's vote
filed under three names makes a quorum of four validators. -/
theorem not_exists_quorum_signed_duplicatedArrives :
    ∃ effects e effect cf, ∃ Signed : Bytes → Bytes → Prop,
      validatorTwo.Starts Blake3.ideal ∧ validatorTwo.setup.Secure Ed25519.ideal ∧
      Run (ConsensusEngine.step Blake3.ideal Ed25519.ideal)
        (fun _ e input ↦ e.Authentic Blake3.ideal Ed25519.ideal Signed input)
        validatorTwo effects e ∧
      effect ∈ effects ∧ effect.finalized = some cf ∧
      ¬ ∃ voters : Finset ValidatorId, quorum validatorTwo.validatorSet.count ≤ voters.card ∧
        ∀ voter ∈ voters, ∃ (key : Bytes) (vote : Vote),
          validatorTwo.validatorSet.publicKey voter = some key ∧
          vote.cfId = cf.id ∧ vote.approve = true ∧ Signed key vote.signingMessage := by
  obtain ⟨hso, hn⟩ :
      (validatorTwo.step Blake3.ideal Ed25519.ideal duplicatedArrives).1.finalized.isSome = true ∧
      (validatorTwo.step Blake3.ideal Ed25519.ideal duplicatedArrives).1.cast.isNone = true := by
    decide +kernel
  obtain ⟨cf, hcf⟩ := Option.isSome_iff_exists.mp hso
  have hi := authentic_of_no_cast hn
  refine ⟨_, _, _, cf, _, starts_validatorTwo, secure_validatorTwo,
    Run.start.next duplicatedArrives hi, List.mem_singleton_self _, hcf, ?_⟩
  rintro ⟨voters, hc, hv⟩
  have hr : ∀ voter ∈ validatorTwo.validatorSet.ids,
      ∀ key ∈ validatorTwo.validatorSet.publicKey voter, key.length = 32 ∧
        (key = .replicate 32 1 → voter = "v1") := by
    decide +kernel
  have ho : voters ⊆ {"v1"} := by
    intro voter hvo
    obtain ⟨key, vote, hk, -, -, hs⟩ := hv voter hvo
    obtain ⟨hl, hon⟩ := hr voter (ValidatorSet.mem_ids hk) key hk
    have hsi : duplicatedArrives.1.votes.map (·.signature) =
        .replicate 3 (signedVote "v1" 1).signature := by
      decide +kernel
    rw [hsi] at hs
    have hsg : key ++ vote.signingMessage =
        .replicate 32 1 ++ (Vote.new "v1" bareFrame.id true 0).signingMessage :=
      List.eq_of_mem_replicate hs
    exact Finset.mem_singleton.mpr (hon (List.append_inj_left hsg hl))
  have hle := Finset.card_le_card ho
  rw [Finset.card_singleton] at hle
  rw [count_validatorTwo] at hc
  unfold quorum at hc
  omega

end ConsensusEngine

end Setu.Consensus
