import Mathlib.Data.Finmap
import Mathlib.Order.Lattice
import Setu.Consensus.Intake

/-!
# Clocks

Library `Consensus`. A vector clock is a function from nodes to counters in which a missing entry
is zero: the source's order is the order of these functions and merging is their supremum. The test
for concurrency compares entries instead, so clocks that differ only in explicit zeros count as
concurrent. Counters and logical times are unsigned integers that wrap at the top of their range.
Source `crates/setu-vlc/src/lib.rs`.
-/

namespace Setu.Consensus

open Setu.Base Setu.Types

/-- A vector clock, `lib.rs:47-50`. -/
abbrev VectorClock := HashMap String UInt64

namespace VectorClock

variable (clock : VectorClock)

/-- `lib.rs:74-76`. -/
def get (nodeId : String) : UInt64 := (clock.lookup nodeId).getD 0

variable (self other : VectorClock)

/-- `lib.rs:97-118`. -/
def happensBefore : Bool :=
  if self.toList.any fun e ↦ other.get e.1 < e.2 then false
  else
    (self.toList.any fun e ↦ e.2 < other.get e.1) ||
      other.toList.any fun e ↦ (self.lookup e.1).isNone && 0 < e.2

/-- The derived equality, `lib.rs:46`: as many entries, and the same ones. -/
def sameEntries : Bool :=
  self.keys.length == other.keys.length &&
    self.toList.all fun e ↦ other.lookup e.1 == some e.2

/-- `lib.rs:121-123`. -/
def isConcurrent : Bool :=
  !self.happensBefore other && !other.happensBefore self && !self.sameEntries other

/-- What the clock says of each node; a missing entry counts as zero. -/
def counters : String → Nat := fun nodeId ↦ (clock.get nodeId).toNat

variable (a b : VectorClock)

/-- Happens before, or the same counters. -/
def AtMost : Prop := a.happensBefore b = true ∨ a.counters = b.counters

/-- Entries for the same nodes, those with an explicit zero included. -/
def SameNodes : Prop := ∀ nodeId, nodeId ∈ a ↔ nodeId ∈ b

/-- How two clocks can be related. -/
inductive Comparison where
  | before | after | equal | concurrent

/-- The clocks are related that way. -/
def Comparison.Holds : Comparison → Prop
  | before => a.happensBefore b = true
  | after => b.happensBefore a = true
  | equal => a.counters = b.counters
  | concurrent => a.isConcurrent b = true

theorem counters_of_lookup {clock : VectorClock} {nodeId : String} {time : UInt64}
    (h : clock.lookup nodeId = some time) : clock.counters nodeId = time.toNat := by
  simp [counters, get, h]

private theorem happensBefore_scan :
    a.happensBefore b = true ↔ (∀ n, a.counters n ≤ b.counters n) ∧
      ∃ n, a.counters n < b.counters n := by
  have hle : (∀ e ∈ a.toList, ¬ b.get e.1 < e.2) ↔ ∀ n, a.counters n ≤ b.counters n := by
    simp only [Prod.forall, HashMap.mem_toList, UInt64.not_lt, UInt64.le_iff_toNat_le]
    refine forall_congr' fun n ↦ ?_
    cases hn : a.lookup n <;> simp [counters, get, hn]
  have hlt : ((∃ e ∈ a.toList, e.2 < b.get e.1) ∨
      ∃ e ∈ b.toList, a.lookup e.1 = none ∧ 0 < e.2) ↔ ∃ n, a.counters n < b.counters n := by
    simp only [Prod.exists, HashMap.mem_toList, UInt64.lt_iff_toNat_lt, ← exists_or]
    refine exists_congr fun n ↦ ?_
    cases ha : a.lookup n <;> cases hb : b.lookup n <;> simp [counters, get, ha, hb]
  rw [happensBefore, ← hle, ← hlt]
  split
  · next h =>
    simp only [Bool.false_eq_true, false_iff, not_and]
    intro hn
    obtain ⟨e, he, hl⟩ := List.any_eq_true.mp h
    exact absurd (of_decide_eq_true hl) (hn e he)
  · next h =>
    simp only [List.any_eq_true, decide_eq_true_eq, not_exists, not_and] at h
    rw [and_iff_right h]
    simp

/-- The order of the source is the strict order of the counters. -/
theorem happensBefore_iff {a b : VectorClock} :
    a.happensBefore b = true ↔ a.counters < b.counters := by
  rw [happensBefore_scan, Pi.lt_def]
  rfl

theorem atMost_iff {a b : VectorClock} : a.AtMost b ↔ a.counters ≤ b.counters := by
  rw [AtMost, happensBefore_iff, le_iff_lt_or_eq]

/-- Equal entries are equal counters over the same nodes. -/
theorem sameEntries_iff {a b : VectorClock} :
    a.sameEntries b = true ↔ a.counters = b.counters ∧ a.SameNodes b := by
  simp only [sameEntries, Bool.and_eq_true, beq_iff_eq, List.all_eq_true, Prod.forall,
    HashMap.mem_toList]
  constructor
  · rintro ⟨hl, hs⟩
    have hk : a.keys ⊆ b.keys := by
      intro n hn
      obtain ⟨time, ht⟩ := Option.isSome_iff_exists.mp (AList.lookup_isSome.mpr hn)
      exact AList.lookup_isSome.mp (by simp [hs n time ht])
    have hp := (AList.keys_nodup a).subperm hk |>.perm_of_length_le hl.ge
    have hn : a.SameNodes b := fun n ↦ hp.mem_iff
    refine ⟨funext fun n ↦ ?_, hn⟩
    cases ha : a.lookup n with
    | some time => rw [counters_of_lookup ha, counters_of_lookup (hs n time ha)]
    | none =>
      have hb : b.lookup n = none := by
        rw [AList.lookup_eq_none] at ha ⊢
        exact fun h ↦ ha ((hn n).mpr h)
      simp [counters, get, ha, hb]
  · rintro ⟨hc, hn⟩
    refine ⟨((List.perm_ext_iff_of_nodup a.keys_nodup b.keys_nodup).mpr hn).length_eq, ?_⟩
    intro n time ha
    obtain ⟨other, hb⟩ := Option.isSome_iff_exists.mp
      (AList.lookup_isSome.mpr ((hn n).mp (AList.lookup_isSome.mp (by simp [ha]))))
    have ht := congrFun hc n
    rw [counters_of_lookup ha, counters_of_lookup hb] at ht
    rw [hb, UInt64.toNat_inj.mp ht]

theorem toNat_max (a b : UInt64) : (max a b).toNat = max a.toNat b.toNat := by
  rw [show max a b = if a ≤ b then b else a from rfl]
  split <;> rename_i h <;> rw [UInt64.le_iff_toNat_le] at h <;> omega

private theorem foldl_max_le_iff (l : List (String × UInt64)) (clock : VectorClock) (n : String)
    (x : Nat) :
    (l.foldl (fun clocks entry ↦ clocks.insert entry.1
        (max ((clocks.lookup entry.1).getD 0) entry.2)) clock : VectorClock).counters n ≤ x ↔
      clock.counters n ≤ x ∧ ∀ e ∈ l, e.1 = n → e.2.toNat ≤ x := by
  induction l generalizing clock with
  | nil => simp
  | cons e rest ih =>
    rw [List.foldl_cons, ih, List.forall_mem_cons, ← and_assoc]
    refine and_congr_left' ?_
    by_cases hn : e.1 = n
    · subst hn
      simp [counters, get, toNat_max]
    · simp [counters, get, AList.lookup_insert_ne (Ne.symm hn), hn]

/-- Merging takes the greater counters. -/
theorem counters_mergeClocks :
    VectorClock.counters (mergeClocks a b) = a.counters ⊔ b.counters := by
  ext n
  refine eq_of_forall_ge_iff fun x ↦ ?_
  rw [mergeClocks, foldl_max_le_iff, Pi.sup_apply, sup_le_iff]
  refine and_congr_right' ?_
  simp only [Prod.forall, HashMap.mem_toList]
  cases hb : b.lookup n with
  | none => simp [counters, get, hb]; aesop
  | some time => simp [counters, get, hb]; aesop

private theorem existsUnique_holds_iff :
    (∃! r, Comparison.Holds a b r) ↔ (a.counters = b.counters → a.SameNodes b) := by
  have hc : Comparison.Holds a b .concurrent ↔
      ¬ a.counters < b.counters ∧ ¬ b.counters < a.counters ∧
        ¬ (a.counters = b.counters ∧ a.SameNodes b) := by
    simp only [Comparison.Holds, isConcurrent, Bool.and_eq_true, Bool.not_eq_true',
      ← sameEntries_iff, ← Bool.not_eq_true, ← happensBefore_iff, and_assoc]
  have hb : Comparison.Holds a b .before ↔ a.counters < b.counters := happensBefore_iff
  have ha : Comparison.Holds a b .after ↔ b.counters < a.counters := happensBefore_iff
  have he : Comparison.Holds a b .equal ↔ a.counters = b.counters := Iff.rfl
  constructor
  · rintro ⟨r, -, hu⟩ heq
    by_contra hn
    have hr := hu .concurrent (hc.mpr ⟨heq.not_lt, heq.not_gt, fun h ↦ hn h.2⟩)
    cases hr.trans (hu .equal heq).symm
  · intro hs
    -- the cases of the order exclude each other, and the last is what they leave
    have hab := fun h : a.counters < b.counters ↦ (⟨h.asymm, h.ne⟩ : _ ∧ _)
    have hba := fun h : b.counters < a.counters ↦ (⟨h.asymm, h.ne'⟩ : _ ∧ _)
    by_cases hlt : a.counters < b.counters
    · exact ⟨.before, hb.mpr hlt, by rintro (_ | _ | _ | _) hr <;> simp_all⟩
    by_cases hgt : b.counters < a.counters
    · exact ⟨.after, ha.mpr hgt, by rintro (_ | _ | _ | _) hr <;> simp_all⟩
    by_cases heq : a.counters = b.counters
    · exact ⟨.equal, heq, by rintro (_ | _ | _ | _) hr <;> simp_all⟩
    · exact ⟨.concurrent, by simp_all, by rintro (_ | _ | _ | _) hr <;> simp_all⟩

/-- Happening before is a strict partial order, merging is the least upper bound, and two clocks
are related in exactly one way unless they differ in explicit zeros only. -/
theorem clock_laws (a b c : VectorClock) :
    ¬ a.happensBefore a ∧
      (a.happensBefore b → b.happensBefore c → a.happensBefore c) ∧
      (AtMost (mergeClocks a b) c ↔ AtMost a c ∧ AtMost b c) ∧
      counters (mergeClocks a b) = counters (mergeClocks b a) ∧
      counters (mergeClocks (mergeClocks a b) c) = counters (mergeClocks a (mergeClocks b c)) ∧
      counters (mergeClocks a a) = counters a ∧
      ((∃! r, Comparison.Holds a b r) ↔ (a.counters = b.counters → a.SameNodes b)) := by
  refine ⟨?_, ?_, ?_, ?_, ?_, ?_, existsUnique_holds_iff a b⟩
  · simp only [happensBefore_iff, lt_irrefl, not_false_eq_true]
  · simp only [happensBefore_iff]
    exact lt_trans
  · simp only [atMost_iff, counters_mergeClocks, sup_le_iff]
  · simp only [counters_mergeClocks, sup_comm]
  · simp only [counters_mergeClocks, sup_assoc]
  · simp only [counters_mergeClocks, sup_idem]

/-- `with_node` against the empty clock: the same counters, yet concurrent. -/
theorem withNode_concurrent_empty :
    VectorClock.counters (AList.singleton "a" 0) = VectorClock.counters ∅ ∧
      VectorClock.isConcurrent (AList.singleton "a" 0) ∅ = true := by
  refine ⟨funext fun n ↦ ?_, by decide⟩
  by_cases hn : n = "a"
  · subst hn
    rfl
  · simp [counters, get, AList.singleton, AList.lookup, hn]

theorem counters_incrementClock (nodeId : String) :
    counters (incrementClock clock nodeId) =
      Function.update clock.counters nodeId ((clock.counters nodeId + 1) % 2 ^ 64) := by
  ext n
  by_cases hn : n = nodeId
  · subst hn
    simp [counters, get, incrementClock]
  · simp [counters, get, incrementClock, hn, AList.lookup_insert_ne]

end VectorClock

open VectorClock

/-- `lib.rs:276-288`. -/
def snapshotHappensBefore (self other : VLCSnapshot) : Bool :=
  if VectorClock.happensBefore self.vectorClock other.vectorClock then true
  else if VectorClock.sameEntries self.vectorClock other.vectorClock then
    self.logicalTime < other.logicalTime
  else false

/-- The second snapshot is later than the first in both senses. -/
structure Later (earlier later : VLCSnapshot) : Prop where
  time : earlier.logicalTime < later.logicalTime
  before : snapshotHappensBefore earlier later = true

/-- A step of a local clock. -/
inductive ClockStep where
  | increment (now : UInt64)
  | receive (other : VLCSnapshot) (now : UInt64)

namespace ClockStep

/-- The snapshot after a step. -/
def apply (nodeId : String) (vlc : VLCSnapshot) : ClockStep → VLCSnapshot
  | increment now => tickClock vlc nodeId now
  | receive other now => receiveClock vlc other nodeId now

/-- No logical time the step reads is the greatest one. -/
def Fits (vlc : VLCSnapshot) : ClockStep → Prop
  | increment _ => vlc.logicalTime.toNat + 1 < 2 ^ 64
  | receive other _ => max vlc.logicalTime.toNat other.logicalTime.toNat + 1 < 2 ^ 64

/-- Every step of the run fits. -/
def FitsAll (nodeId : String) : VLCSnapshot → List ClockStep → Prop
  | _, [] => True
  | vlc, step :: rest => step.Fits vlc ∧ FitsAll nodeId (step.apply nodeId vlc) rest

variable {vlc : VLCSnapshot} {nodeId : String}

theorem logicalTime_le_apply {step : ClockStep}
    (hf : step.Fits vlc) : vlc.logicalTime ≤ (step.apply nodeId vlc).logicalTime := by
  rw [UInt64.le_iff_toNat_le]
  cases step with
  | increment now =>
    simp only [Fits] at hf
    simp only [apply, tickClock, UInt64.toNat_add, UInt64.toNat_one]
    omega
  | receive other now =>
    simp only [Fits] at hf
    simp only [apply, receiveClock, UInt64.toNat_add, UInt64.toNat_one, toNat_max]
    omega

theorem logicalTime_le_run {steps : List ClockStep} (hf : FitsAll nodeId vlc steps) :
    vlc.logicalTime ≤ (steps.foldl (apply nodeId) vlc).logicalTime := by
  induction steps generalizing vlc with
  | nil => exact UInt64.le_refl _
  | cons step rest ih => exact UInt64.le_trans (logicalTime_le_apply hf.1) (ih hf.2)

theorem fitsAll_append {steps later : List ClockStep} (hf : FitsAll nodeId vlc (steps ++ later)) :
    FitsAll nodeId (steps.foldl (apply nodeId) vlc) later := by
  induction steps generalizing vlc with
  | nil => exact hf
  | cons step rest ih => exact ih hf.2

end ClockStep

private theorem counters_le_of_before {a b : VLCSnapshot} (h : snapshotHappensBefore a b = true) :
    counters a.vectorClock ≤ counters b.vectorClock := by
  simp only [snapshotHappensBefore] at h
  split at h
  · next hb => exact (happensBefore_iff.mp hb).le
  split at h
  · next hs => exact (sameEntries_iff.mp hs).1.le
  · cases h

private theorem before_of_counters_lt {a b : VLCSnapshot}
    (h : counters a.vectorClock < counters b.vectorClock) :
    snapshotHappensBefore a b = true := by
  simp [snapshotHappensBefore, happensBefore_iff.mpr h]

/-- A received snapshot and the local one are both earlier than the result exactly when neither the
logical times nor the two counters of the local node are at the top of their range; and as long as
no logical time is, the logical time of a run never decreases. -/
theorem receive_later_and_run_monotone (vlc other : VLCSnapshot) (nodeId : String) (now : UInt64)
    (steps later : List ClockStep) :
    ((Later vlc (receiveClock vlc other nodeId now) ∧
        Later other (receiveClock vlc other nodeId now)) ↔
      max vlc.logicalTime.toNat other.logicalTime.toNat + 1 < 2 ^ 64 ∧
        max (counters vlc.vectorClock nodeId) (counters other.vectorClock nodeId) + 1 < 2 ^ 64) ∧
    (ClockStep.FitsAll nodeId vlc (steps ++ later) →
      (steps.foldl (ClockStep.apply nodeId) vlc).logicalTime ≤
        ((steps ++ later).foldl (ClockStep.apply nodeId) vlc).logicalTime) := by
  refine ⟨?_, fun hf ↦ ?_⟩
  · have ht : (receiveClock vlc other nodeId now).logicalTime.toNat =
        (max vlc.logicalTime.toNat other.logicalTime.toNat + 1) % 2 ^ 64 := by
      simp [receiveClock, UInt64.toNat_add, toNat_max]
    have hc : counters (receiveClock vlc other nodeId now).vectorClock =
        Function.update (counters vlc.vectorClock ⊔ counters other.vectorClock) nodeId
          ((max (counters vlc.vectorClock nodeId) (counters other.vectorClock nodeId) + 1) %
            2 ^ 64) := by
      rw [receiveClock, counters_incrementClock, counters_mergeClocks, Pi.sup_apply]
    constructor
    · rintro ⟨⟨h1, h2⟩, h3, h4⟩
      rw [UInt64.lt_iff_toNat_lt, ht] at h1 h3
      have h5 : counters vlc.vectorClock nodeId ≤ _ := counters_le_of_before h2 nodeId
      have h6 : counters other.vectorClock nodeId ≤ _ := counters_le_of_before h4 nodeId
      rw [hc, Function.update_self] at h5 h6
      have ho := vlc.logicalTime.toNat_lt
      have ho' := other.logicalTime.toNat_lt
      have h7 : counters vlc.vectorClock nodeId < 2 ^ 64 := UInt64.toNat_lt _
      have h8 : counters other.vectorClock nodeId < 2 ^ 64 := UInt64.toNat_lt _
      omega
    · rintro ⟨h1, h2⟩
      have hlt (s : VLCSnapshot) (hs : counters s.vectorClock ≤
          counters vlc.vectorClock ⊔ counters other.vectorClock)
          (hl : s.logicalTime.toNat ≤ max vlc.logicalTime.toNat other.logicalTime.toNat) :
          Later s (receiveClock vlc other nodeId now) := by
        refine ⟨by rw [UInt64.lt_iff_toNat_lt, ht]; omega, before_of_counters_lt ?_⟩
        have hn := hs nodeId
        rw [hc, Pi.lt_def]
        refine ⟨fun n ↦ ?_, nodeId, ?_⟩
        · by_cases hn : n = nodeId
          · subst hn
            have := hs n
            simp only [Function.update_self, Pi.sup_apply] at this ⊢
            omega
          · simpa [hn] using hs n
        · simp only [Function.update_self, Pi.sup_apply] at hn ⊢
          omega
      exact ⟨hlt vlc le_sup_left (le_max_left ..), hlt other le_sup_right (le_max_right ..)⟩
  · rw [List.foldl_append]
    exact ClockStep.logicalTime_le_run (ClockStep.fitsAll_append hf)

/-- A peer's greatest logical time takes the local one back to zero. -/
theorem receive_greatest_time_wraps :
    (receiveClock ⟨∅, 5, 0⟩ ⟨∅, UInt64.ofNat (2 ^ 64 - 1), 0⟩ "a" 0).logicalTime = 0 ∧
      ¬ Later ⟨∅, 5, 0⟩ (receiveClock ⟨∅, 5, 0⟩ ⟨∅, UInt64.ofNat (2 ^ 64 - 1), 0⟩ "a" 0) := by
  refine ⟨by decide, fun h ↦ ?_⟩
  exact absurd h.time (by decide)

end Setu.Consensus
