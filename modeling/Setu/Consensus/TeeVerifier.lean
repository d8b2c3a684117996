import Setu.Enclave.StateDiff

/-!
# The commitment to a write set

Library `Consensus`. An enclave attests the changes of an execution by a hash over keys and values,
and the validator recomputes the hash over the changes it received. Keys and values stand in the
preimage without their lengths, and target subnets do not stand in it at all. So the commitment
tells apart changes of one layout, and the validator is bound to the attested list only if that list
is empty. Sources `types/src/hash_utils.rs`, `consensus/src/tee_verifier.rs` and
`crates/setu-enclave/src/stf.rs`.
-/

namespace Setu.Types

open Setu.Base

variable {D : Type}

/-- Key, old value and new value of a change. -/
abbrev WriteSetChange := String × Option Bytes × Option Bytes

/-- An optional value after its presence byte, `hash_utils.rs:94-111`. -/
def presenceBytes : Option Bytes → Bytes
  | some value => 1 :: value
  | none => [0]

/-- What is hashed for a change, `hash_utils.rs:93-111`. -/
def changeBytes (change : WriteSetChange) : Bytes :=
  strBytes change.1 ++ presenceBytes change.2.1 ++ presenceBytes change.2.2

/-- `hash_utils.rs:87-114`. -/
def computeWriteSetCommitment (H : Blake3 D) (changes : List WriteSetChange) : D :=
  H.hash (strBytes "SETU_WRITE_SET_COMMITMENT:" ++ changes.flatMap changeBytes)

/-- Two changes of one layout: keys of one length, and values that are both absent or of one
length. -/
structure SameLayout (change change' : WriteSetChange) : Prop where
  key : (strBytes change.1).length = (strBytes change'.1).length
  oldValue : change.2.1.map List.length = change'.2.1.map List.length
  newValue : change.2.2.map List.length = change'.2.2.map List.length

theorem presenceBytes_injective : Function.Injective presenceBytes := by
  intro a b h
  cases a <;> cases b <;> simp_all [presenceBytes]

theorem length_presenceBytes {a b : Option Bytes} (h : a.map List.length = b.map List.length) :
    (presenceBytes a).length = (presenceBytes b).length := by
  cases a <;> cases b <;> simp_all [presenceBytes]

/-- A change can be read off the front of a string of its layout. -/
theorem SameLayout.append_inj {change change' : WriteSetChange} (h : SameLayout change change')
    {s t : Bytes} (heq : changeBytes change ++ s = changeBytes change' ++ t) :
    change = change' ∧ s = t := by
  simp only [changeBytes, List.append_assoc] at heq
  obtain ⟨hk, heq⟩ := List.append_inj heq h.key
  obtain ⟨ho, heq⟩ := List.append_inj heq (length_presenceBytes h.oldValue)
  obtain ⟨hn, heq⟩ := List.append_inj heq (length_presenceBytes h.newValue)
  exact ⟨Prod.ext (strBytes_injective hk)
    (Prod.ext (presenceBytes_injective ho) (presenceBytes_injective hn)), heq⟩

/-- Among lists of one layout, the commitment determines the changes. -/
theorem computeWriteSetCommitment_inj {H : Blake3 D} (hH : H.CollisionFree)
    {changes changes' : List WriteSetChange} (h : List.Forall₂ SameLayout changes changes') :
    computeWriteSetCommitment H changes = computeWriteSetCommitment H changes' ↔
      changes = changes' := by
  rw [computeWriteSetCommitment, computeWriteSetCommitment, hH.hash_inj, List.append_cancel_left_eq]
  constructor
  · intro heq
    induction h with
    | nil => rfl
    | cons hl _ ih =>
      obtain ⟨rfl, hr⟩ := hl.append_inj heq
      rw [ih hr]
  · rintro rfl
    rfl

/-- Only the empty list has the commitment of the empty list. -/
theorem eq_nil_of_commitment {H : Blake3 D} (hH : H.CollisionFree) {changes : List WriteSetChange}
    (h : computeWriteSetCommitment H changes = computeWriteSetCommitment H []) : changes = [] := by
  rw [computeWriteSetCommitment, computeWriteSetCommitment, hH.hash_inj,
    List.append_cancel_left_eq] at h
  cases changes with
  | nil => rfl
  | cons change rest => cases ho : change.2.1 <;> simp [changeBytes, ho, presenceBytes] at h

end Setu.Types

namespace Setu.Enclave.StateDiff

open Setu.Base Setu.Types

/-- `stf.rs:333-335`. -/
def isEmpty (diff : StateDiff) : Bool := diff.writes.isEmpty && diff.deletes.isEmpty

/-- `stf.rs:345-365`. -/
def commitment {D : Type} (H : Blake3 D) (diff : StateDiff) : D :=
  computeWriteSetCommitment H (diff.writes.map (fun w ↦ (w.key, w.oldValue, some w.newValue)) ++
    diff.deletes.map fun key ↦ (key, none, none))

end Setu.Enclave.StateDiff

namespace Setu.Consensus

open Setu.Base Setu.Types Setu.Merkle Setu.Enclave

variable {D : Type}

/-- `tee_verifier.rs:31-50`, as far as the verifier reads it. -/
structure TeeAttestation (D : Type) where
  solverId : String
  measurement : HashValue
  writeSetCommitment : D
  timestamp : UInt64

/-- `tee_verifier.rs:77-87`. -/
def TeeAttestation.computeWriteSetCommitment (H : Blake3 D) (changes : List StateChange) : D :=
  Types.computeWriteSetCommitment H
    (changes.map fun change ↦ (change.key, change.oldValue, change.newValue))

/-- Errors of the verifier, `tee_verifier.rs:103-123`, as far as an attestation can cause them. -/
inductive VerificationError where
  | writeSetMismatch
  | expiredAttestation
  | unknownSolver (solverId : String)
  | measurementMismatch
  deriving DecidableEq

/-- `tee_verifier.rs:91-99`, as far as an attestation can cause it. -/
inductive VerificationResult where
  | verified
  | failed (error : VerificationError)
  deriving DecidableEq

/-- `tee_verifier.rs:149-155`, as far as the verifier reads it. -/
structure SolverInfo where
  expectedMeasurement : HashValue

/-- `tee_verifier.rs:179-186`, with its registry of solvers. -/
structure TeeVerifier where
  solverRegistry : HashMap String SolverInfo
  maxAttestationAgeMs : UInt64
  skipVerification : Bool

namespace TeeVerifier

variable [DecidableEq D] (H : Blake3 D) (v : TeeVerifier) (attestation : TeeAttestation D)

/-- `tee_verifier.rs:258-296`. A solver is registered if it is found. -/
def verifyAttestation (result : ExecutionResult) (now : UInt64) : VerificationResult :=
  if v.skipVerification then .verified
  else
    match v.solverRegistry.lookup attestation.solverId with
    | none => .failed (.unknownSolver attestation.solverId)
    | some solverInfo =>
      if attestation.timestamp + v.maxAttestationAgeMs < now then .failed .expiredAttestation
      else if TeeAttestation.computeWriteSetCommitment H result.stateChanges ≠
          attestation.writeSetCommitment then
        .failed .writeSetMismatch
      else if attestation.measurement ≠ solverInfo.expectedMeasurement then
        .failed .measurementMismatch
      else .verified

/-- The attestation is of a registered solver with its measurement, and not too old. -/
def Trusts (now : UInt64) : Prop :=
  ∃ solverInfo, v.solverRegistry.lookup attestation.solverId = some solverInfo ∧
    ¬ attestation.timestamp + v.maxAttestationAgeMs < now ∧
    attestation.measurement = solverInfo.expectedMeasurement

/-- The verifier accepts no other changes than those of the diff. -/
def AcceptsOnly (now : UInt64) (diff : StateDiff) : Prop :=
  ∀ result : ExecutionResult, v.verifyAttestation H attestation result now = .verified →
    result.stateChanges = diffChanges diff

variable {H}

theorem verifyAttestation_eq_verified_iff {v : TeeVerifier} {attestation : TeeAttestation D}
    {result : ExecutionResult} {now : UInt64} :
    v.verifyAttestation H attestation result now = .verified ↔
      v.skipVerification = true ∨ v.Trusts attestation now ∧
        TeeAttestation.computeWriteSetCommitment H result.stateChanges =
          attestation.writeSetCommitment := by
  rw [verifyAttestation, Trusts]
  split
  · next hs => simp [hs]
  · next hs =>
    split
    · next hn => simp [hs, hn]
    · next info hi =>
      simp only [hi, Option.some.injEq, exists_eq_left', hs]
      split
      · next ho => simp [ho]
      · next hf =>
        split
        · next hc => simp [hc]
        · next hc =>
          split <;> simp_all

omit [DecidableEq D] in
/-- Validator and enclave compute the same commitment of a diff. -/
theorem commitment_diffChanges (diff : StateDiff) :
    TeeAttestation.computeWriteSetCommitment H (diffChanges diff) = diff.commitment H := by
  simp [TeeAttestation.computeWriteSetCommitment, diffChanges, StateDiff.commitment,
    Function.comp_def]

omit [DecidableEq D] in
/-- The changes of a diff, the first of them sent to another subnet. -/
theorem exists_retargeted {diff : StateDiff} (h : diff.isEmpty = false) :
    ∃ changes : List StateChange, changes ≠ diffChanges diff ∧
      TeeAttestation.computeWriteSetCommitment H changes = diff.commitment H := by
  have ht : ∀ change ∈ diffChanges diff, change.targetSubnet = none := by
    intro change hc
    simp only [diffChanges, List.mem_append, List.mem_map] at hc
    rcases hc with ⟨_, -, rfl⟩ | ⟨_, -, rfl⟩ <;> rfl
  rw [← commitment_diffChanges]
  cases hch : diffChanges diff with
  | nil => simp_all [diffChanges, StateDiff.isEmpty]
  | cons change rest =>
    refine ⟨{ change with targetSubnet := some SubnetId.root } :: rest, ?_, rfl⟩
    intro heq
    have hn := ht change (hch ▸ List.mem_cons_self)
    rw [← (List.cons.inj heq).1] at hn
    cases hn

/-- A verifier accepts only what was attested exactly if it verifies and, once it trusts the
attestation, nothing was attested; among changes of one layout the commitment tells them apart. -/
theorem acceptsOnly_iff (hH : H.CollisionFree) (v : TeeVerifier) (attestation : TeeAttestation D)
    (now : UInt64) (diff : StateDiff)
    (hattests : attestation.writeSetCommitment = diff.commitment H) :
    (v.AcceptsOnly H attestation now diff ↔ v.skipVerification = false ∧
        (v.Trusts attestation now → diff.isEmpty = true)) ∧
      ∀ changes changes' : List WriteSetChange, List.Forall₂ SameLayout changes changes' →
        (Types.computeWriteSetCommitment H changes =
          Types.computeWriteSetCommitment H changes' ↔ changes = changes') := by
  refine ⟨?_, fun changes changes' h ↦ computeWriteSetCommitment_inj hH h⟩
  constructor
  · intro ho
    constructor
    · by_contra hs
      have ha : ∀ changes : List StateChange, changes = diffChanges diff := fun changes ↦
        ho ⟨true, none, changes⟩
          (verifyAttestation_eq_verified_iff.mpr (.inl (Bool.eq_true_of_not_eq_false hs)))
      have hl := congrArg List.length ((ha []).trans (ha [⟨"", none, none, none⟩]).symm)
      cases hl
    · intro ht
      by_contra he
      obtain ⟨changes, hne, hc⟩ := exists_retargeted (H := H) (Bool.eq_false_of_not_eq_true he)
      apply hne
      apply ho ⟨true, none, changes⟩
      exact verifyAttestation_eq_verified_iff.mpr (.inr ⟨ht, hc.trans hattests.symm⟩)
  · rintro ⟨hs, he⟩ result hr
    rcases verifyAttestation_eq_verified_iff.mp hr with hs' | ⟨ht, hc⟩
    · rw [hs] at hs'
      cases hs'
    · have hn : diffChanges diff = [] := by
        have hd := he ht
        simp_all [StateDiff.isEmpty, diffChanges]
      rw [hattests, ← commitment_diffChanges, hn] at hc
      rw [hn]
      exact List.map_eq_nil_iff.mp (eq_nil_of_commitment hH hc)

/-! An enclave attests a write and a deletion. -/

private def enclaveMeasurement : HashValue := ⟨Vector.replicate 32 0⟩

private def coinWrite : WriteSetEntry := ⟨"oid:a", none, [7]⟩

private def attestedDiff : StateDiff := ⟨[coinWrite], ["oid:b"]⟩

private def solverAttestation (diff : StateDiff) : TeeAttestation (Option Bytes) :=
  ⟨"solver-1", enclaveMeasurement, diff.commitment Blake3.ideal, 0⟩

private def solverVerifier : TeeVerifier :=
  ⟨(∅ : HashMap String SolverInfo).insert "solver-1" ⟨enclaveMeasurement⟩, 5 * 60 * 1000, false⟩

private theorem trusts_solverAttestation (diff : StateDiff) :
    solverVerifier.Trusts (solverAttestation diff) 0 := by
  refine ⟨⟨enclaveMeasurement⟩, rfl, ?_, rfl⟩
  change ¬ (0 : UInt64) + 5 * 60 * 1000 < 0
  decide

/-- The verifier is bound to an attestation of nothing, and to no other one. -/
theorem acceptsOnly_nothing :
    solverVerifier.AcceptsOnly Blake3.ideal (solverAttestation .new) 0 .new ∧
      ¬ solverVerifier.AcceptsOnly Blake3.ideal (solverAttestation attestedDiff) 0
        attestedDiff := by
  constructor
  · exact (acceptsOnly_iff Blake3.ideal_collisionFree solverVerifier (solverAttestation .new) 0 .new
      rfl).1.mpr ⟨rfl, fun _ ↦ rfl⟩
  · intro ho
    have he := ((acceptsOnly_iff Blake3.ideal_collisionFree solverVerifier
      (solverAttestation attestedDiff) 0 attestedDiff rfl).1.mp ho).2
    exact absurd (he (trusts_solverAttestation attestedDiff)) (by decide)

/-- One change whose value ends in the bytes of the second one. -/
private def mergedChanges : List StateChange :=
  [⟨"oid:a", none, some (7 :: (strBytes "oid:b" ++ [0, 0])), none⟩]

private def retargetedChanges : List StateChange :=
  [⟨"oid:a", none, some [7], some SubnetId.root⟩, ⟨"oid:b", none, none, none⟩]

/-- Instead of the attested changes, the verifier accepts one change with a longer value, and the
same changes in another subnet. -/
theorem verifyAttestation_merged :
    solverVerifier.verifyAttestation Blake3.ideal (solverAttestation attestedDiff)
        ⟨true, none, mergedChanges⟩ 0 = .verified ∧
      mergedChanges.map (fun change ↦ (change.key, change.oldValue, change.newValue)) ≠
        (diffChanges attestedDiff).map (fun change ↦
          (change.key, change.oldValue, change.newValue)) ∧
      solverVerifier.verifyAttestation Blake3.ideal (solverAttestation attestedDiff)
        ⟨true, none, retargetedChanges⟩ 0 = .verified ∧
      retargetedChanges ≠ diffChanges attestedDiff := by
  decide +kernel

end TeeVerifier

end Setu.Consensus
