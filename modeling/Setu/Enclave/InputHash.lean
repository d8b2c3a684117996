import Setu.Enclave.TaskExecution
import Setu.Types.Subnet

/-!
# The input hash of an attestation

Library `Enclave`. The attestation of an execution carries a hash of its input. The fields of
fixed width come first and can be read off the preimage; after them the event identifiers and
the keys of the read set follow without lengths, the values are left out, and of the resolved
inputs only the number of objects is hashed. Source `crates/setu-enclave/src/stf.rs`,
`StfInput::input_hash`.
-/

namespace Setu.Enclave

open Setu.Base Setu.Types

variable {D : Type}

/-- An input together with the task it is for, `StfInput`, `stf.rs:156-185`. -/
structure AttestedInput where
  taskId : Vector UInt8 32
  subnetId : SubnetId
  preStateRoot : Vector UInt8 32
  input : StfInput

namespace AttestedInput

variable (x : AttestedInput)

/-- The identifiers of the events. -/
def eventIds : List EventId := x.input.events.map (·.id)

/-- The part of the preimage that has no fixed width: event identifiers, then read-set keys. -/
def unframed : Bytes :=
  x.input.events.flatMap (fun event ↦ strBytes event.id) ++
    x.input.readSet.flatMap (fun entry ↦ strBytes entry.key)

/-- The bytes that are hashed, `stf.rs:235-250`. -/
def preimage : Bytes :=
  x.taskId.toList ++ x.subnetId.asBytes ++ x.preStateRoot.toList ++ x.unframed ++
    u64Le (UInt64.ofNat x.input.resolvedInputs.inputObjects.length)

variable (sha256 : Blake3 D)

/-- `stf.rs:231-257`; SHA-256 is the parameter. -/
def inputHash (x : AttestedInput) : D := sha256.hash x.preimage

/-- The hash of the input determines what is executed: every input with this hash has the same
subnet, root, event identifiers, read set and resolved inputs. -/
def Bound (x : AttestedInput) : Prop :=
  ∀ y : AttestedInput, y.inputHash sha256 = x.inputHash sha256 →
    y.subnetId = x.subnetId ∧ y.preStateRoot = x.preStateRoot ∧ y.eventIds = x.eventIds ∧
      y.input.readSet = x.input.readSet ∧ y.input.resolvedInputs = x.input.resolvedInputs

/-- The fields of fixed width can be read off the preimage. -/
theorem eq_of_preimage_eq {x y : AttestedInput} (h : x.preimage = y.preimage) :
    x.taskId = y.taskId ∧ x.subnetId = y.subnetId ∧ x.preStateRoot = y.preStateRoot ∧
      x.unframed = y.unframed ∧
      UInt64.ofNat x.input.resolvedInputs.inputObjects.length =
        UInt64.ofNat y.input.resolvedInputs.inputObjects.length := by
  -- the count has a fixed width at the end, the other fields have one at the front
  have hc := List.append_inj' h (by rw [length_u64Le, length_u64Le])
  simp only [List.append_assoc] at hc
  have ht := List.append_inj hc.1 (by simp)
  have hs := List.append_inj ht.2 (by simp [SubnetId.asBytes])
  have hr := List.append_inj hs.2 (by simp)
  refine ⟨Vector.toList_inj.mp ht.1, ?_, Vector.toList_inj.mp hr.1, hr.2, u64Le_inj.mp hc.2⟩
  exact congrArg SubnetId.mk (Vector.toList_inj.mp hs.1)

/-- Another use of the same input objects. -/
def otherOperation : OperationType → OperationType
  | .noOp => .movePublish
  | _ => .noOp

theorem otherOperation_ne (operation : OperationType) : otherOperation operation ≠ operation := by
  cases operation <;> simp [otherOperation]

/-- The input with its objects put to another use. -/
def withOtherOperation : AttestedInput :=
  { x with input.resolvedInputs.operation := otherOperation x.input.resolvedInputs.operation }

/-- The input with one byte put in front of every value of its read set. -/
def withOtherValues : AttestedInput :=
  { x with input.readSet := x.input.readSet.map fun entry ↦ ⟨entry.key, 0 :: entry.value⟩ }

/-- The use of the objects does not enter the hash. -/
theorem inputHash_withOtherOperation (x : AttestedInput) :
    x.withOtherOperation.inputHash sha256 = x.inputHash sha256 := rfl

/-- The values of the read set do not enter the hash. -/
theorem inputHash_withOtherValues (x : AttestedInput) :
    x.withOtherValues.inputHash sha256 = x.inputHash sha256 := by
  unfold inputHash preimage unframed withOtherValues
  rw [List.flatMap_map]

theorem readSet_withOtherValues_ne {x : AttestedInput} (h : x.input.readSet ≠ []) :
    x.withOtherValues.input.readSet ≠ x.input.readSet := by
  intro heq
  cases hr : x.input.readSet with
  | nil => exact h hr
  | cons entry rest =>
    rw [withOtherValues, hr, List.map_cons, List.cons.injEq] at heq
    exact List.cons_ne_self _ _ (congrArg ReadSetEntry.value heq.1)

/-- No input is bound by its hash. Another use of the same objects always has the same hash,
and so have other values of a read set that is not empty. -/
theorem not_bound_inputHash (sha256 : Blake3 D) (x : AttestedInput) :
    ¬ x.Bound sha256 ∧
      (x.input.readSet ≠ [] → ∃ y : AttestedInput, y.inputHash sha256 = x.inputHash sha256 ∧
        y.input.resolvedInputs = x.input.resolvedInputs ∧ y.eventIds = x.eventIds ∧
        y.input.readSet ≠ x.input.readSet) := by
  constructor
  · intro hb
    have hs := hb x.withOtherOperation (inputHash_withOtherOperation sha256 x)
    have ho := congrArg TaskInputs.operation hs.2.2.2.2
    exact otherOperation_ne _ ho
  · intro hr
    exact ⟨x.withOtherValues, inputHash_withOtherValues sha256 x, rfl, rfl,
      readSet_withOtherValues_ne hr⟩

/-- A transfer of `amount` from the coin `coin`, for the event `id` and with one value read. -/
def transferInput (id : EventId) (coin : ObjectId) (amount : UInt64) (entry : ReadSetEntry) :
    AttestedInput where
  taskId := Vector.replicate 32 1
  subnetId := .root
  preStateRoot := Vector.replicate 32 2
  input :=
    { events := [⟨id, .transfer, 0, none, .other⟩]
      resolvedInputs := ⟨.transfer 0 amount, [⟨coin, "Coin", 1⟩], []⟩
      readSet := [entry]
      moduleReadSet := []
      gasBudget := 1000 }

/-- What the hash binds, and no more: the task, the subnet, the root, the event identifiers and
read-set keys run together, and the number of input objects as a 64-bit number. -/
theorem inputHash_eq_iff {sha256 : Blake3 D} (hsha : sha256.CollisionFree)
    (x y : AttestedInput) :
    x.inputHash sha256 = y.inputHash sha256 ↔
      x.taskId = y.taskId ∧ x.subnetId = y.subnetId ∧ x.preStateRoot = y.preStateRoot ∧
        x.unframed = y.unframed ∧
        UInt64.ofNat x.input.resolvedInputs.inputObjects.length =
          UInt64.ofNat y.input.resolvedInputs.inputObjects.length := by
  constructor
  · intro h
    exact eq_of_preimage_eq (hsha.hash_inj.mp h)
  · rintro ⟨ht, hs, hr, hu, hc⟩
    rw [inputHash, inputHash, preimage, preimage, ht, hs, hr, hu, hc]

/-- Another event is another hash. -/
theorem inputHash_ne_transferInput :
    (transferInput "e1" ⟨Vector.replicate 32 7⟩ 10 ⟨"oid:07", [1]⟩).inputHash Blake3.ideal ≠
      (transferInput "e2" ⟨Vector.replicate 32 7⟩ 10 ⟨"oid:07", [1]⟩).inputHash Blake3.ideal := by
  intro h
  have hf := (inputHash_eq_iff Blake3.ideal_collisionFree _ _).mp h
  exact absurd hf.2.2.2.1 (by decide +kernel)

/-- Two transfers with one hash: another coin and amount, another value read, and the boundary
between the event identifier and the first key of the read set moved. -/
theorem inputHash_eq_transferInput :
    let x := transferInput "e1" ⟨Vector.replicate 32 7⟩ 10 ⟨"oid:07", [1]⟩
    let y := transferInput "e1oid" ⟨Vector.replicate 32 8⟩ 5000 ⟨":07", [2]⟩
    x.inputHash Blake3.ideal = y.inputHash Blake3.ideal ∧ x.eventIds ≠ y.eventIds ∧
      x.input.readSet ≠ y.input.readSet ∧ x.input.resolvedInputs ≠ y.input.resolvedInputs := by
  refine ⟨congrArg Blake3.ideal.hash (by decide +kernel), by decide, by decide, ?_⟩
  intro h
  have hc := congrArg TaskInputs.inputObjects h
  simp [transferInput] at hc

end AttestedInput

end Setu.Enclave
