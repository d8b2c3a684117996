import Setu.Consensus.ChainIntegrity
import Setu.Validator.Persistence

/-!
# Rounds and finalized frames

Library `Validator`. A finalized frame waits in a queue until its anchor is persisted; then its
completion advances the round, provided that the round is still the one in which the frame was
finalized. So the round counts the frames as long as no frame is finalized while another one of the
same round waits, or by the vote of its proposer alone. Nothing is completed or collected before its
anchor is marked as persisted. Sources `consensus/src/engine.rs` and
`setu-validator/src/persistence.rs`.
-/

namespace Setu.Consensus

open Setu.Base Setu.Types

variable {D : Type} [DecidableEq D] {H : Blake3 D} {S : Ed25519}

@[simp]
theorem ValidatorSet.currentRound_advanceRound (vs : ValidatorSet) :
    vs.advanceRound.currentRound = vs.currentRound + 1 := by
  rw [advanceRound]
  rcases vs.setRound_cases (vs.currentRound + 1) with hr | ⟨leaderId, hr⟩
  · rw [hr]
  · rw [hr]
    rfl

namespace ConsensusManager

omit [DecidableEq D] in
private theorem length_gcScan (persisted : HashSet AnchorId) (excess : Nat)
    (cfs : List (ConsensusFrame D)) :
    cfs.length ≤ (gcScan persisted excess cfs).1.length + excess := by
  induction cfs generalizing excess with
  | nil => simp
  | cons cf rest ih =>
    cases excess with
    | zero => exact Nat.le_refl _
    | succ excess =>
      rw [gcScan]
      split
      · have := ih excess
        simp only [List.length_cons]
        omega
      · have := ih (excess + 1)
        simp only [List.length_cons]
        omega

omit [DecidableEq D] in
private theorem isSome_lastFinalizedCf_gcFinalizedCfs {m : ConsensusManager D}
    (h : m.lastFinalizedCf.isSome = true) : m.gcFinalizedCfs.lastFinalizedCf.isSome = true := by
  rw [gcFinalizedCfs]
  dsimp only
  split
  · exact h
  · next hl =>
    have hk := length_gcScan m.persistedAnchorIds (m.finalizedCfs.length - 1000) m.finalizedCfs
    rw [lastFinalizedCf, List.getLast?_isSome]
    intro hn
    dsimp only at hn
    rw [hn, List.length_nil] at hk
    omega

/-- A frame that was just finalized can be read back. -/
theorem isSome_lastFinalizedCf_classifyFinalization {m : ConsensusManager D} {id : CFId}
    {env : Ambient}
    (h : (m.classifyFinalization H id env).1.finalizedFrame.isSome = true) :
    (m.classifyFinalization H id env).2.lastFinalizedCf.isSome = true := by
  rw [classifyFinalization] at h ⊢
  split at h
  · cases h
  · split at h
    · cases h
    · cases h
    · cases h
    · dsimp only at h ⊢
      split at h
      · apply isSome_lastFinalizedCf_gcFinalizedCfs
        simp [lastFinalizedCf]
      · cases h

end ConsensusManager

/-- The anchor that an input marks as persisted. -/
def EngineInput.marks {D : Type} : EngineInput D → List AnchorId
  | .markAnchorPersisted anchorId => [anchorId]
  | _ => []

/-- How a step moves the round and the queue of completions: it leaves both, puts a finalized frame
into the queue, marks an anchor, or completes what is persisted. -/
inductive QueueMove {D : Type} (marked : List AnchorId) (e e' : ConsensusEngine D)
    (effects : Effects D) : Prop where
  | stays (hset : e'.validatorSet = e.validatorSet)
      (hqueue : e'.pendingCompletions = e.pendingCompletions)
      (hinline : effects.finalized.isSome = true → effects.proposed.isSome = true)
  | queues (cf : ConsensusFrame D) (hset : e'.validatorSet = e.validatorSet)
      (hqueue : e'.pendingCompletions =
        e.pendingCompletions ++ [⟨cf, cf.anchor.id, e.validatorSet.currentRound, false⟩])
      (hfinalized : effects.finalized.isSome = true) (hproposed : effects.proposed = none)
  | marks (anchorId : AnchorId) (hmarked : anchorId ∈ marked)
      (hset : e'.validatorSet = e.validatorSet)
      (hqueue : e'.pendingCompletions = (e.markAnchorPersisted anchorId).pendingCompletions)
      (hfinalized : effects.finalized = none)
  | completes (hset : e'.validatorSet = e.completePendingFinalizations.validatorSet)
      (hqueue : e'.pendingCompletions = e.completePendingFinalizations.pendingCompletions)
      (hfinalized : effects.finalized = none)

omit [DecidableEq D] in
private theorem QueueMove.of_fetched {e e' : ConsensusEngine D} {effects : Effects D} {dag : Dag}
    {vlc : VLCSnapshot} {marked : List AnchorId}
    (h : QueueMove marked { e with dag := dag, vlc := vlc } e' effects) :
    QueueMove marked e e' effects := by
  cases h with
  | stays hs hq hi => exact .stays hs hq hi
  | queues cf hs hq hf hp => exact .queues cf hs hq hf hp
  | marks anchorId hm hs hq hf =>
    exact .marks anchorId hm hs hq hf
  | completes hs hq hf => exact .completes hs hq hf

namespace ConsensusEngine

variable {e e' : ConsensusEngine D} {marked : List AnchorId}

omit [DecidableEq D] in
private theorem queueMove_conclude (cast : Option (ConsensusFrame D × Vote))
    {settled : CfLifecycleOutcome D × ConsensusManager D}
    (hl : settled.1.finalizedFrame.isSome = true → settled.2.lastFinalizedCf.isSome = true) :
    QueueMove marked e (e.conclude cast settled).engine (e.conclude cast settled).effects := by
  rcases settled with ⟨outcome, m⟩
  cases outcome with
  | finalized id cf =>
    obtain ⟨last, hm⟩ := Option.isSome_iff_exists.mp (hl rfl)
    dsimp only at hm
    refine .queues last ?_ ?_ rfl rfl
    · simp [conclude, handleFinalization, hm]
    · simp [conclude, handleFinalization, hm]
  | pending => exact .stays rfl rfl fun h ↦ by cases h
  | applyFailed failure => exact .stays rfl rfl fun h ↦ by cases h
  | rejected id => exact .stays rfl rfl fun h ↦ by cases h
  | timedOut id => exact .stays rfl rfl fun h ↦ by cases h

private theorem queueMove_announce (env : Ambient)
    (created : Option (ConsensusFrame D) × ConsensusManager D) :
    QueueMove marked e (e.announce H S env created).engine
      (e.announce H S env created).effects := by
  unfold announce
  split
  · exact .stays rfl rfl fun h ↦ by cases h
  · dsimp only
    split
    · exact .stays rfl rfl fun h ↦ by cases h
    · split
      · exact .stays rfl rfl fun _ ↦ rfl
      · exact .stays rfl rfl fun h ↦ by cases h

/-- Every step but the one that advances the round by hand makes such a move. -/
theorem queueMove_step (e : ConsensusEngine D) (input : EngineInput D × Ambient)
    (hi : input.1 ≠ .advanceRound) :
    QueueMove input.1.marks e (e.step H S input).2 (e.step H S input).1 := by
  obtain ⟨input, env⟩ := input
  have hs := e.acts_step (H := H) (S := S) input env
  generalize e.step H S (input, env) = after at hs ⊢
  cases hs with
  | answers | cleans => exact .stays rfl rfl fun h ↦ by cases h
  | announces => exact queueMove_announce ..
  | accepts cf fetch dag vlc votes =>
    rw [acceptCf]
    dsimp only
    split
    · exact .stays rfl rfl fun h ↦ by cases h
    · apply QueueMove.of_fetched
      exact queueMove_conclude _ ConsensusManager.isSome_lastFinalizedCf_classifyFinalization
  | merges cf fetch dag vlc =>
    apply QueueMove.of_fetched
    refine queueMove_conclude _ ?_
    rw [ConsensusManager.receiveFinalizedCf]
    split
    · exact fun h ↦ by cases h
    · exact ConsensusManager.isSome_lastFinalizedCf_classifyFinalization
  | counts vote =>
    refine queueMove_conclude _ ?_
    rw [ConsensusManager.receiveVote]
    split
    · exact fun h ↦ by cases h
    · split
      · exact fun h ↦ by cases h
      · exact ConsensusManager.isSome_lastFinalizedCf_classifyFinalization
  | marks anchorId => exact .marks anchorId (List.mem_singleton_self _) rfl rfl rfl
  | completes => exact .completes rfl rfl rfl
  | advances => exact absurd rfl hi

end ConsensusEngine

end Setu.Consensus

namespace Setu.Validator

open Setu.Base Setu.Types Setu.Consensus

variable {D : Type}

section Counting

variable {e e' : ConsensusEngine D} {effects : Effects D} {marked : List AnchorId}

/-- A frame is late if its proposer's vote alone finalized it, or if another frame of the round
still waits. -/
def isLate (e : ConsensusEngine D) (effects : Effects D) : Bool :=
  effects.finalized.isSome && (effects.proposed.isSome ||
    e.pendingCompletions.any fun entry ↦ decide (entry.expectedRound = e.validatorSet.currentRound))

/-- Without late frames: at most one frame waits, of the current round, and the others are
counted. -/
structure Aligned (first : UInt64) (finalized : Nat) (e : ConsensusEngine D) : Prop where
  expected : ∀ entry ∈ e.pendingCompletions, entry.expectedRound = e.validatorSet.currentRound
  alone : e.pendingCompletions.length ≤ 1
  counted : e.validatorSet.currentRound + UInt64.ofNat e.pendingCompletions.length =
    first + UInt64.ofNat finalized

private theorem mem_markAnchorPersisted {anchorId : AnchorId} {entry : CompletionEntry D}
    (h : entry ∈ (e.markAnchorPersisted anchorId).pendingCompletions) :
    ∃ old ∈ e.pendingCompletions, entry.expectedRound = old.expectedRound ∧
      entry.anchorId = old.anchorId ∧
      (entry.persisted = true → old.persisted = true ∨ old.anchorId = anchorId) := by
  obtain ⟨old, ho, rfl⟩ := List.mem_map.mp h
  refine ⟨old, ho, ?_⟩
  split
  · next heq => exact ⟨rfl, rfl, fun _ ↦ .inr heq⟩
  · exact ⟨rfl, rfl, .inl⟩

theorem Aligned.move {first : UInt64} {finalized : Nat} (h : Aligned first finalized e)
    (hm : QueueMove marked e e' effects) (hl : isLate e effects = false) :
    Aligned first (finalized + if effects.finalized.isSome then 1 else 0) e' := by
  cases hm with
  | stays hs hq hi =>
    have hn : effects.finalized.isSome = false := by
      by_contra hso
      rw [Bool.not_eq_false] at hso
      simp [isLate, hso, hi hso] at hl
    rw [hn]
    constructor
    · rw [hq, hs]
      exact h.expected
    · rw [hq]
      exact h.alone
    · rw [hq, hs]
      exact h.counted
  | queues cf hs hq hf hpr =>
    have hem : e.pendingCompletions = [] := by
      rw [isLate, hf, hpr] at hl
      cases he : e.pendingCompletions with
      | nil => rfl
      | cons entry rest =>
        have hen := h.expected entry (he ▸ List.mem_cons_self)
        simp [he, hen] at hl
    have hc := h.counted
    rw [hem, List.length_nil] at hc
    rw [hem, List.nil_append] at hq
    rw [hf, if_pos rfl]
    constructor
    · intro entry hen
      rw [hq, List.mem_singleton] at hen
      rw [hen, hs]
    · rw [hq, List.length_singleton]
    · rw [hq, hs, List.length_singleton, UInt64.ofNat_add, ← UInt64.add_assoc, ← hc]
      simp
  | marks anchorId hma hs hq hf =>
    have hle : e'.pendingCompletions.length = e.pendingCompletions.length := by
      rw [hq, ConsensusEngine.markAnchorPersisted, List.length_map]
    rw [hf]
    constructor
    · intro entry hen
      obtain ⟨old, hol, heq, -, -⟩ := mem_markAnchorPersisted (hq ▸ hen)
      rw [heq, hs]
      exact h.expected old hol
    · rw [hle]
      exact h.alone
    · rw [hle, hs]
      exact h.counted
  | completes hs hq hf =>
    rw [hf]
    -- at most one entry waits: it is completed and advances the round, or it stays
    cases he : e.pendingCompletions with
    | nil =>
      simp only [ConsensusEngine.completePendingFinalizations, he, List.filter_nil,
        List.foldl_nil] at hs hq
      have hc := h.counted
      rw [he] at hc
      constructor
      · rw [hq]
        exact List.forall_mem_nil _
      · rw [hq]
        exact Nat.zero_le _
      · rw [hq, hs]
        exact hc
    | cons entry rest =>
      have ha := h.alone
      rw [he, List.length_cons] at ha
      obtain rfl : rest = [] := List.eq_nil_of_length_eq_zero (by omega)
      have hex := h.expected entry (he ▸ List.mem_cons_self)
      have hc := h.counted
      rw [he] at hc
      cases hp : entry.persisted with
      | false =>
        simp [ConsensusEngine.completePendingFinalizations, he, hp] at hs hq
        constructor
        · intro other ho
          rw [hq, List.mem_singleton] at ho
          rw [ho, hs]
          exact hex
        · rw [hq, List.length_singleton]
        · rw [hq, hs]
          exact hc
      | true =>
        simp [ConsensusEngine.completePendingFinalizations, he, hp, hex] at hs hq
        constructor
        · rw [hq]
          exact List.forall_mem_nil _
        · rw [hq]
          exact Nat.zero_le _
        · rw [hq, hs]
          simpa using hc

/-- With late frames: the round has been advanced some number of times, the frames that wait were
finalized in a round that was reached, and the late ones are not counted. -/
def Accounted (first : UInt64) (finalized late : Nat) (e : ConsensusEngine D) : Prop :=
  ∃ advanced : Nat, e.validatorSet.currentRound = first + UInt64.ofNat advanced ∧
    (∀ entry ∈ e.pendingCompletions, ∃ k ≤ advanced,
      entry.expectedRound = first + UInt64.ofNat k) ∧
    finalized = advanced + late + if e.pendingCompletions.any fun entry ↦
      decide (entry.expectedRound = e.validatorSet.currentRound) then 1 else 0

private theorem ofNat_ne {a b : Nat} (hne : a ≠ b) (ha : a < 2 ^ 64) (hb : b < 2 ^ 64) :
    UInt64.ofNat a ≠ UInt64.ofNat b := by
  intro heq
  have hn := congrArg UInt64.toNat heq
  rw [UInt64.toNat_ofNat_of_lt' ha, UInt64.toNat_ofNat_of_lt' hb] at hn
  exact hne hn

private theorem foldl_advance_of_forall_ne {entries : List (CompletionEntry D)} {vs : ValidatorSet}
    (h : ∀ entry ∈ entries, entry.expectedRound ≠ vs.currentRound) :
    entries.foldl (fun vs entry ↦
      if vs.currentRound = entry.expectedRound then vs.advanceRound else vs) vs = vs := by
  induction entries with
  | nil => rfl
  | cons entry rest ih =>
    rw [List.foldl_cons, if_neg (h entry List.mem_cons_self).symm]
    exact ih fun other ho ↦ h other (List.mem_cons_of_mem _ ho)

private theorem currentRound_foldl_advance {entries : List (CompletionEntry D)} {vs : ValidatorSet}
    (h : ∀ entry ∈ entries, entry.expectedRound ≠ vs.currentRound + 1) :
    (entries.foldl (fun vs entry ↦
      if vs.currentRound = entry.expectedRound then vs.advanceRound else vs) vs).currentRound =
        vs.currentRound + if entries.any fun entry ↦
          decide (entry.expectedRound = vs.currentRound) then 1 else 0 := by
  induction entries with
  | nil => simp
  | cons entry rest ih =>
    have hr : ∀ other ∈ rest, other.expectedRound ≠ vs.currentRound + 1 :=
      fun other ho ↦ h other (List.mem_cons_of_mem _ ho)
    rw [List.foldl_cons]
    by_cases heq : vs.currentRound = entry.expectedRound
    · rw [if_pos heq, foldl_advance_of_forall_ne (by simpa using hr)]
      simp [heq.symm]
    · rw [if_neg heq, ih hr]
      simp [Ne.symm heq]

theorem Accounted.move {first : UInt64} {finalized late : Nat}
    (h : Accounted first finalized late e) (hm : QueueMove marked e e' effects)
    (hb : (finalized + if effects.finalized.isSome then 1 else 0) < 2 ^ 64) :
    Accounted first (finalized + if effects.finalized.isSome then 1 else 0)
      (late + if isLate e effects then 1 else 0) e' := by
  obtain ⟨advanced, hr, hen, hc⟩ := h
  cases hm with
  | stays hs hq hi =>
    refine ⟨advanced, by rw [hs, hr], by rwa [hq], ?_⟩
    rw [hq, hs, hc]
    have hl : isLate e effects = effects.finalized.isSome := by
      cases hf : effects.finalized.isSome with
      | false => simp [isLate, hf]
      | true => simp [isLate, hf, hi hf]
    rw [hl]
    omega
  | queues cf hs hq hf hpr =>
    refine ⟨advanced, by rw [hs, hr], ?_, ?_⟩
    · intro entry he
      rw [hq, List.mem_append, List.mem_singleton] at he
      rcases he with he | rfl
      · exact hen entry he
      · exact ⟨advanced, Nat.le_refl _, hr⟩
    · rw [hq, hs, hc]
      simp only [isLate, hf, hpr, List.any_append, List.any_cons, List.any_nil,
        decide_true, Bool.or_true, if_true, Option.isSome_none, Bool.false_or, Bool.true_and,
        Bool.or_false]
      split <;> omega
  | marks anchorId hma hs hq hf =>
    have ha : (e'.pendingCompletions.any fun entry ↦
        decide (entry.expectedRound = e'.validatorSet.currentRound)) =
          e.pendingCompletions.any fun entry ↦
            decide (entry.expectedRound = e.validatorSet.currentRound) := by
      rw [hq, hs, ConsensusEngine.markAnchorPersisted, List.any_map]
      congr 1
      funext entry
      simp only [Function.comp_apply]
      split <;> rfl
    refine ⟨advanced, by rw [hs, hr], ?_, ?_⟩
    · intro entry he
      obtain ⟨old, hol, heq, -, -⟩ := mem_markAnchorPersisted (hq ▸ he)
      rw [heq]
      exact hen old hol
    · rw [ha, hc]
      simp [isLate, hf]
  | completes hs hq hf =>
    have hke : ∀ entry ∈ e'.pendingCompletions, entry ∈ e.pendingCompletions := by
      rw [hq]
      exact fun entry he ↦ List.mem_of_mem_filter he
    simp only [hf, isLate, Option.isSome_none, Bool.false_eq_true, if_false,
      Bool.false_and, Nat.add_zero] at hb ⊢
    by_cases hcu : ∃ entry ∈ e.pendingCompletions, entry.persisted = true ∧
        entry.expectedRound = e.validatorSet.currentRound
    · obtain ⟨entry, he, hp, heq⟩ := hcu
      -- a frame of the current round is completed: the frames that stay are of earlier rounds
      rw [if_pos (List.any_eq_true.mpr ⟨entry, he, decide_eq_true heq⟩)] at hc
      have hn : ∀ other ∈ e.pendingCompletions,
          other.expectedRound ≠ e.validatorSet.currentRound + 1 := by
        intro other ho ho'
        obtain ⟨k, hk, hex⟩ := hen other ho
        rw [hex, hr, UInt64.add_assoc, UInt64.add_right_inj] at ho'
        exact ofNat_ne (by omega) (by omega) (by omega) (ho'.trans (UInt64.ofNat_add _ 1).symm)
      have hr' : e'.validatorSet.currentRound = e.validatorSet.currentRound + 1 := by
        rw [hs, ConsensusEngine.completePendingFinalizations, currentRound_foldl_advance
          fun other ho ↦ hn other (List.mem_of_mem_filter ho), if_pos]
        exact List.any_eq_true.mpr ⟨entry, List.mem_filter.mpr ⟨he, hp⟩, decide_eq_true heq⟩
      refine ⟨advanced + 1, ?_, ?_, ?_⟩
      · rw [hr', hr, UInt64.add_assoc]
        exact congrArg (first + ·) (UInt64.ofNat_add _ 1).symm
      · intro other ho
        obtain ⟨k, hk, hex⟩ := hen other (hke other ho)
        exact ⟨k, by omega, hex⟩
      · rw [if_neg, hc]
        · omega
        · rw [List.any_eq_true]
          rintro ⟨other, ho, ho'⟩
          exact hn other (hke other ho) ((of_decide_eq_true ho').trans hr')
    · have hs' : e'.validatorSet = e.validatorSet := by
        rw [hs, ConsensusEngine.completePendingFinalizations]
        refine foldl_advance_of_forall_ne ?_
        intro entry he heq
        obtain ⟨he, hp⟩ := List.mem_filter.mp he
        exact hcu ⟨entry, he, hp, heq⟩
      have ha : (e'.pendingCompletions.any fun entry ↦
          decide (entry.expectedRound = e.validatorSet.currentRound)) =
            e.pendingCompletions.any fun entry ↦
              decide (entry.expectedRound = e.validatorSet.currentRound) := by
        rw [Bool.eq_iff_iff, List.any_eq_true, List.any_eq_true]
        constructor
        · rintro ⟨entry, he, heq⟩
          exact ⟨entry, hke entry he, heq⟩
        · rintro ⟨entry, he, heq⟩
          refine ⟨entry, ?_, heq⟩
          rw [hq]
          refine List.mem_filter.mpr ⟨he, ?_⟩
          rw [Bool.not_eq_true']
          by_contra hp
          exact hcu ⟨entry, he, Bool.eq_true_of_not_eq_false hp, of_decide_eq_true heq⟩
      refine ⟨advanced, by rw [hs', hr], fun other ho ↦
        hen other (hke other ho), ?_⟩
      rw [hs', ha, hc]

end Counting

/-- `advance_round` is called from outside. -/
def NodeInput.advancesRound : NodeInput D → Bool
  | .engine .advanceRound _ => true
  | _ => false

/-- The validator with what is kept for the statements only: how many frames were finalized, how
many of them late, and the anchors that were marked as persisted, completed and collected. -/
structure TrackedNode (D : Type) where
  node : ValidatorNode D
  finalized : Nat
  late : Nat
  marked : List AnchorId
  completed : List AnchorId
  collected : List AnchorId

namespace TrackedNode

/-- A validator that starts or has restarted. -/
def start (node : ValidatorNode D) : TrackedNode D := ⟨node, 0, 0, [], [], []⟩

variable (t : TrackedNode D)

/-- The engine of the validator. -/
def engine : ConsensusEngine D := t.node.intake.engine

/-- The call that goes on, if it is in a phase. -/
def resumed (index : Nat) (inPhase : PersistPhase → Bool) : List AnchorId :=
  (t.node.calls[index]?).toList.filterMap fun call ↦
    if inPhase call.phase then some call.anchor.id else none

/-- The anchors that an input marks as persisted. -/
def marks : NodeInput D → List AnchorId
  | .engine input _ => input.marks
  | .resume index _ => t.resumed index fun
    | .markPersisted _ => true
    | _ => false
  | .persist _ => []

/-- The anchors whose frames an input completes. -/
def completes : NodeInput D → List AnchorId
  | .engine .completePendingFinalizations _ =>
    (t.engine.pendingCompletions.filter (·.persisted)).map (·.anchorId)
  | _ => []

/-- The anchors whose events an input collects. -/
def collects : NodeInput D → List AnchorId
  | .resume index _ => t.resumed index fun
    | .collect => true
    | _ => false
  | _ => []

/-- One step of the validator. -/
def step [DecidableEq D] (H : Blake3 D) (S : Ed25519) (t : TrackedNode D) (input : NodeInput D) :
    Effects D × TrackedNode D :=
  let (effects, node) := t.node.step H S input
  (effects,
    { node := node
      finalized := t.finalized + if effects.finalized.isSome then 1 else 0
      late := t.late + if isLate t.engine effects then 1 else 0
      marked := t.marked ++ t.marks input
      completed := t.completed ++ t.completes input
      collected := t.collected ++ t.collects input })

/-- Rounds advance by completion only. -/
def Completes (_ : List (Effects D)) (_ : TrackedNode D) (input : NodeInput D) : Prop :=
  input.advancesRound = false

instance Completes.decidable (effects : List (Effects D)) (t : TrackedNode D)
    (input : NodeInput D) : Decidable (Completes effects t input) :=
  inferInstanceAs (Decidable (input.advancesRound = false))

/-- Once nothing waits, the round has advanced once for every finalized frame. -/
def RoundsTrack (first : UInt64) (t : TrackedNode D) : Prop :=
  t.engine.pendingCompletions = [] →
    t.engine.validatorSet.currentRound = first + UInt64.ofNat t.finalized

/-- Nothing is completed or collected before its anchor is marked as persisted. -/
structure Ordered (t : TrackedNode D) : Prop where
  persisted : ∀ entry ∈ t.engine.pendingCompletions, entry.persisted = true →
    entry.anchorId ∈ t.marked
  completed : t.completed ⊆ t.marked
  collected : t.collected ⊆ t.marked
  collecting : ∀ call ∈ t.node.calls, call.phase = .collect → call.anchor.id ∈ t.marked

section Steps

variable [DecidableEq D] {H : Blake3 D} {S : Ed25519} {t : TrackedNode D}

omit [DecidableEq D] in
/-- A phase marks the anchor of its call, or it leaves the queue and the round and does not lead to
the collection. -/
private theorem runPhase_cases {node node' : ValidatorNode D} {call : PersistCall D}
    {answers : StoreAnswers} {outcome : PersistOutcome}
    (h : node.runPhase call answers = (outcome, node')) :
    node'.calls = node.calls ∧
      ((∃ known, call.phase = .markPersisted known) ∧
          node'.intake.engine = node.intake.engine.markAnchorPersisted call.anchor.id ∨
        node'.intake.engine.validatorSet = node.intake.engine.validatorSet ∧
          node'.intake.engine.pendingCompletions = node.intake.engine.pendingCompletions ∧
          outcome ≠ .continue .collect) := by
  rw [ValidatorNode.runPhase] at h
  cases hp : call.phase with
  | check =>
    rw [hp] at h
    cases h
    refine ⟨rfl, .inr ⟨rfl, rfl, ?_⟩⟩
    unfold ValidatorNode.checkPhase
    split
    · nofun
    · split
      · nofun
      · split <;> nofun
  | storeEvents entries =>
    rw [hp] at h
    dsimp only [ValidatorNode.storeEventsPhase] at h
    split at h <;> cases h <;> exact ⟨rfl, .inr ⟨rfl, rfl, nofun⟩⟩
  | indexFrames known =>
    rw [hp] at h
    dsimp only [ValidatorNode.indexFramesPhase] at h
    split at h <;> cases h
    · exact ⟨rfl, .inr ⟨rfl, rfl, nofun⟩⟩
    · cases known <;> exact ⟨rfl, .inr ⟨rfl, rfl, nofun⟩⟩
  | storeAnchor =>
    rw [hp] at h
    dsimp only [ValidatorNode.storeAnchorPhase] at h
    split at h <;> cases h <;> exact ⟨rfl, .inr ⟨rfl, rfl, nofun⟩⟩
  | markPersisted known =>
    rw [hp] at h
    cases h
    exact ⟨rfl, .inl ⟨⟨known, rfl⟩, rfl⟩⟩
  | collect =>
    rw [hp] at h
    dsimp only [ValidatorNode.collectPhase] at h
    split at h <;> cases h <;> exact ⟨rfl, .inr ⟨rfl, rfl, nofun⟩⟩

/-- Every step moves the queue and the round as a step of the engine does. -/
theorem queueMove_step {errors : List (Effects D)} {input : NodeInput D}
    (hi : Completes errors t input) :
    QueueMove (t.marks input) t.engine (t.step H S input).2.engine (t.step H S input).1 := by
  cases input with
  | engine input env =>
    refine t.engine.queueMove_step (input, env) ?_
    rintro rfl
    cases hi
  | persist anchor => exact .stays rfl rfl fun h ↦ by cases h
  | resume index answers =>
    change QueueMove (t.marks (.resume index answers)) t.engine
      (t.node.resume index answers).intake.engine {}
    rw [ValidatorNode.resume]
    split
    · exact .stays rfl rfl fun h ↦ by cases h
    · next call hc =>
      rcases hr : t.node.runPhase call answers with ⟨outcome, node⟩
      have hm : QueueMove (t.marks (.resume index answers)) t.engine node.intake.engine {} := by
        rcases (runPhase_cases hr).2 with ⟨⟨known, hp⟩, he⟩ | ⟨hs, hq, -⟩
        · rw [he]
          refine .marks call.anchor.id ?_ rfl rfl rfl
          simp [marks, resumed, hc, hp]
        · exact .stays hs hq fun h ↦ by cases h
      cases outcome <;> exact hm

omit [DecidableEq D] in
private theorem Ordered.persisted_of_move (h : t.Ordered) {e' : ConsensusEngine D}
    {effects : Effects D} {marked : List AnchorId} (hm : QueueMove marked t.engine e' effects) :
    ∀ entry ∈ e'.pendingCompletions, entry.persisted = true →
      entry.anchorId ∈ t.marked ++ marked := by
  have ho : ∀ entry ∈ t.engine.pendingCompletions, entry.persisted = true →
      entry.anchorId ∈ t.marked ++ marked :=
    fun entry he hp ↦ List.mem_append_left _ (h.persisted entry he hp)
  intro entry he hp
  cases hm with
  | stays hs hq hi => exact ho entry (hq ▸ he) hp
  | queues cf hs hq hf hpr =>
    rw [hq, List.mem_append, List.mem_singleton] at he
    rcases he with he | rfl
    · exact ho entry he hp
    · cases hp
  | marks anchorId hma hs hq hf =>
    obtain ⟨old, hme, -, hid, hw⟩ := mem_markAnchorPersisted (hq ▸ he)
    rw [hid]
    rcases hw hp with hb | rfl
    · exact ho old hme hb
    · exact List.mem_append_right _ hma
  | completes hs hq hf =>
    rw [hq] at he
    exact ho entry (List.mem_of_mem_filter he) hp

omit [DecidableEq D] in
private theorem Ordered.collecting_of_resume (h : t.Ordered) (index : Nat)
    (answers : StoreAnswers) :
    ∀ call ∈ (t.node.resume index answers).calls, call.phase = .collect →
      call.anchor.id ∈ t.marked ++ t.marks (.resume index answers) := by
  have ho : ∀ call ∈ t.node.calls, call.phase = .collect →
      call.anchor.id ∈ t.marked ++ t.marks (.resume index answers) :=
    fun call hc hp ↦ List.mem_append_left _ (h.collecting call hc hp)
  rw [ValidatorNode.resume]
  split
  · exact ho
  · next current hcu =>
    rcases hr : t.node.runPhase current answers with ⟨outcome, node⟩
    obtain ⟨hca, hcases⟩ := runPhase_cases hr
    intro call hc hp
    cases outcome with
    | «continue» phase =>
      rcases List.mem_or_eq_of_mem_set hc with hc | rfl
      · exact ho call (hca ▸ hc) hp
      · obtain rfl : phase = .collect := hp
        obtain ⟨⟨known, hm⟩, -⟩ | ⟨-, -, hn⟩ := hcases
        · refine List.mem_append_right _ ?_
          simp [marks, resumed, hcu, hm]
        · exact absurd rfl hn
    | done | failed | panicked => exact ho call (hca ▸ List.mem_of_mem_eraseIdx hc) hp

theorem Ordered.step (h : t.Ordered) {errors : List (Effects D)} {input : NodeInput D}
    (hi : Completes errors t input) : (t.step H S input).2.Ordered := by
  have hm : ∀ {ids : List AnchorId}, ids ⊆ t.marked → ids ⊆ t.marked ++ t.marks input :=
    fun his ↦ List.Subset.trans his (List.subset_append_left _ _)
  constructor
  case persisted => exact h.persisted_of_move (queueMove_step hi)
  case completed =>
    refine List.append_subset.mpr ⟨hm h.completed, ?_⟩
    apply hm
    rw [completes.eq_def]
    split
    · intro id hid
      obtain ⟨entry, he, rfl⟩ := List.mem_map.mp hid
      obtain ⟨he, hpe⟩ := List.mem_filter.mp he
      exact h.persisted entry he hpe
    · exact List.nil_subset _
  case collected =>
    refine List.append_subset.mpr ⟨hm h.collected, ?_⟩
    apply hm
    rw [collects.eq_def]
    split
    · intro id hid
      rw [resumed, List.mem_filterMap] at hid
      obtain ⟨call, hc, hid⟩ := hid
      have hme : call ∈ t.node.calls := List.mem_of_getElem? (Option.mem_toList.mp hc)
      split at hid
      · next hp =>
        cases hid
        exact h.collecting call hme hp
      · cases hid
    · exact List.nil_subset _
  case collecting =>
    cases input with
    | engine input env =>
      exact fun call hc hp ↦ List.mem_append_left _ (h.collecting call hc hp)
    | persist anchor =>
      intro call hc hp
      rcases List.mem_append.mp hc with hc | hc
      · exact List.mem_append_left _ (h.collecting call hc hp)
      · rw [List.mem_singleton.mp hc] at hp
        cases hp
    | resume index answers => exact h.collecting_of_resume index answers

end Steps

/-- The round and the counts agree with the queue after every run. -/
private structure Counted (first : UInt64) (t : TrackedNode D) : Prop where
  aligned : t.late = 0 → Aligned first t.finalized t.engine
  accounted : t.finalized < 2 ^ 64 → Accounted first t.finalized t.late t.engine
  ordered : t.Ordered

private theorem counted_start {node : ValidatorNode D}
    (hq : node.intake.engine.pendingCompletions = []) (hc : node.calls = []) :
    Counted node.intake.engine.validatorSet.currentRound (start node) := by
  have he : (start node).engine.pendingCompletions = [] := hq
  constructor
  case aligned =>
    intro _
    constructor
    · rw [he]
      exact List.forall_mem_nil _
    · rw [he]
      exact Nat.zero_le _
    · rw [he]
      rfl
  case accounted =>
    intro _
    refine ⟨0, ?_, ?_, ?_⟩
    · simp [start, engine]
    · rw [he]
      exact List.forall_mem_nil _
    · rw [he]
      rfl
  case ordered =>
    constructor
    · rw [he]
      exact List.forall_mem_nil _
    · exact List.Subset.refl _
    · exact List.Subset.refl _
    · change ∀ call ∈ node.calls, _
      rw [hc]
      exact List.forall_mem_nil _

private theorem Counted.step [DecidableEq D] {H : Blake3 D} {S : Ed25519} {first : UInt64}
    {t : TrackedNode D} (h : Counted first t) {effects : List (Effects D)} {input : NodeInput D}
    (hi : Completes effects t input) : Counted first (t.step H S input).2 := by
  have hm := queueMove_step (H := H) (S := S) hi
  constructor
  case aligned =>
    intro hl
    obtain ⟨hbe, hn⟩ := Nat.add_eq_zero_iff.mp hl
    refine (h.aligned hbe).move hm ?_
    by_contra his
    rw [Bool.not_eq_false] at his
    rw [his] at hn
    cases hn
  case accounted =>
    intro hb
    exact (h.accounted (Nat.lt_of_le_of_lt (Nat.le_add_right _ _) hb)).move hm hb
  case ordered => exact h.ordered.step hi

/-- Validator `v2` of `v1` and `v2`, with empty stores. -/
def followerNode : ValidatorNode (Option Bytes) where
  intake :=
    { engine := ConsensusEngine.follower
      recentCache := .new 15000 DagManagerConfig.default.capacity_pos
      eventStore := .new
      config := .default
      warmingUp := false
      pendingQueue := [] }
  anchorStore := .new
  frameIndex := ⟨∅, ∅⟩
  calls := []

/-- The anchor that continues the chain after the first. -/
def nextAnchor : Anchor (Option Bytes) :=
  let first := ConsensusEngine.genesisAnchor "a"
  let root := chainHash Blake3.ideal Blake3.ideal.zero (first.computeHash Blake3.ideal)
  { ConsensusEngine.genesisAnchor "b" with
    previousAnchor := some "a"
    depth := 1
    merkleRoots := first.merkleRoots.map ({ · with anchorChainRoot := root }) }

/-- Round 0's proposer `v1` proposes the anchor, and its vote is the second of two. -/
def nextFrame : List (NodeInput (Option Bytes)) :=
  let cf := ConsensusFrame.new Blake3.ideal 0 nextAnchor "v1" 0
  [.engine (.receiveCf cf none) ⟨0, 0, .ok ()⟩,
    .engine (.receiveVote (.new "v1" cf.id true 0)) ⟨0, 0, .ok ()⟩]

/-- The first frame arrives, and the second of two votes for it. -/
def firstFrame : List (NodeInput (Option Bytes)) :=
  [ConsensusEngine.frameArrives "a", ConsensusEngine.voteArrives "a"].map fun input ↦
    .engine input.1 input.2

/-- An anchor is persisted by stores that answer, in six phases. -/
def persists (anchor : Anchor (Option Bytes)) : List (NodeInput (Option Bytes)) :=
  .persist anchor :: List.replicate 6
    (.resume 0 ⟨⟨fun _ _ ↦ true, true⟩, fun _ ↦ .ok (), .ok (), 0⟩)

/-- The finalized frames whose anchors are persisted are completed. -/
def completion : NodeInput (Option Bytes) := .engine .completePendingFinalizations ⟨0, 0, .ok ()⟩

end TrackedNode

end Setu.Validator
