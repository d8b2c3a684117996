import Setu.Base.Blake3
import Setu.Base.MerkleTrie

/-!
# 256-bit keys and the hashes of tree nodes

Library `Merkle`. Source `crates/setu-merkle/src/hash.rs` and the hash helpers of `sparse.rs`.
Tree keys are concrete 32-byte values, read bit by bit from the most significant end; node
hashes are digests of the parameter hasher over the source's preimages.
-/

namespace Setu.Merkle

open Setu.Base

/-- A 256-bit key; `hash.rs:17`. -/
structure HashValue where
  bytes : Vector UInt8 32
deriving DecidableEq

/-- Bit `i` of a byte, `0` being the most significant; `hash.rs:89-90`. -/
def byteBit (b : UInt8) (i : Nat) : Bool := (b >>> UInt8.ofNat (7 - i)) &&& 1 == 1

/-- Bit `i` of a byte string, `0` being the most significant bit of the first byte. -/
def bitAt (bytes : Bytes) (i : Nat) : Bool := byteBit (bytes.getD (i / 8) 0) (i % 8)

/-- Number of leading zero bits of a byte; `u8::leading_zeros`. -/
def leadingZeros (b : UInt8) : Nat := if b = 0 then 8 else 7 - b.toNat.log2

/-- The loop of `hash.rs:95-101`: eight bits for every equal byte, then the leading zeros of
the first difference. -/
def commonPrefix : Bytes → Bytes → Nat
  | x :: xs, y :: ys => if x ≠ y then leadingZeros (x ^^^ y) else 8 + commonPrefix xs ys
  | _, _ => 0

namespace HashValue

/-- The 32 bytes of a key; `hash.rs:60`. -/
def asBytes (key : HashValue) : Bytes := key.bytes.toList

/-- The bit at an index below 256; `hash.rs:86-91`. -/
def bit (key : HashValue) (index : Nat) : Bool := bitAt key.asBytes index

/-- Bit access with the source's assertion: no result is a panic; `hash.rs:87`. -/
def bitChecked (key : HashValue) (index : Nat) : Option Bool :=
  if index < 256 then some (key.bit index) else none

/-- Length of the common prefix of two keys in bits; `hash.rs:94-102`. -/
def commonPrefixBits (key other : HashValue) : Nat := commonPrefix key.asBytes other.asBytes

end HashValue

private theorem byteBit_eq_testBit (b : UInt8) {i : Nat} (hi : i < 8) :
    byteBit b i = b.toNat.testBit (7 - i) := by
  have hs : ((UInt8.ofNat (7 - i)).toNat) % 8 = 7 - i := by
    simp only [UInt8.toNat_ofNat']
    omega
  rw [byteBit, Nat.testBit_eq_decide_div_mod_eq]
  rw [Bool.eq_iff_iff, beq_iff_eq, decide_eq_true_iff, ← UInt8.toNat_inj]
  rw [UInt8.toNat_and, UInt8.toNat_shiftRight, hs]
  rw [Nat.shiftRight_eq_div_pow]
  simp [Nat.and_one_is_mod]

private theorem leadingZeros_xor {x y : UInt8} (hne : x ≠ y) :
    leadingZeros (x ^^^ y) < 8 ∧ byteBit x (leadingZeros (x ^^^ y)) ≠
      byteBit y (leadingZeros (x ^^^ y)) ∧
      ∀ i < leadingZeros (x ^^^ y), byteBit x i = byteBit y i := by
  have hz : x ^^^ y ≠ 0 := fun h ↦ hne (UInt8.xor_eq_zero_iff.mp h)
  have hz' : (x ^^^ y).toNat ≠ 0 := fun h ↦ hz (UInt8.toNat_inj.mp h)
  have hl : (x ^^^ y).toNat.log2 < 8 := (Nat.log2_lt hz').mpr (x ^^^ y).toNat_lt
  have hx : ∀ j, (x ^^^ y).toNat.testBit j = (x.toNat.testBit j ^^ y.toNat.testBit j) := by
    intro j
    rw [UInt8.toNat_xor, Nat.testBit_xor]
  rw [leadingZeros, if_neg hz]
  refine ⟨by omega, ?_, fun i hi ↦ ?_⟩
  · rw [byteBit_eq_testBit x (by omega), byteBit_eq_testBit y (by omega),
      show 7 - (7 - (x ^^^ y).toNat.log2) = (x ^^^ y).toNat.log2 by omega]
    have h := Nat.testBit_log2 hz'
    rw [hx] at h
    simpa using h
  · rw [byteBit_eq_testBit x (by omega), byteBit_eq_testBit y (by omega)]
    have hlt : (x ^^^ y).toNat < 2 ^ (7 - i) := (Nat.log2_lt hz').mp (by omega)
    have h := Nat.testBit_lt_two_pow hlt
    rw [hx] at h
    simpa using h

private theorem byteBit_ext {x y : UInt8} (h : ∀ i < 8, byteBit x i = byteBit y i) : x = y := by
  by_contra hne
  obtain ⟨hlt, hd, -⟩ := leadingZeros_xor hne
  exact hd (h _ hlt)

private theorem bitAt_cons_of_lt (x : UInt8) (xs : Bytes) {i : Nat} (hi : i < 8) :
    bitAt (x :: xs) i = byteBit x i := by
  rw [bitAt, Nat.div_eq_of_lt hi, Nat.mod_eq_of_lt hi]
  rfl

private theorem bitAt_cons_add (x : UInt8) (xs : Bytes) (i : Nat) :
    bitAt (x :: xs) (8 + i) = bitAt xs i := by
  rw [bitAt, bitAt, show (8 + i) / 8 = i / 8 + 1 by omega, show (8 + i) % 8 = i % 8 by omega]
  rfl

private theorem le_commonPrefix_iff {xs ys : Bytes} (hl : xs.length = ys.length) {n : Nat} :
    n ≤ commonPrefix xs ys ↔ n ≤ 8 * xs.length ∧ ∀ i < n, bitAt xs i = bitAt ys i := by
  induction xs generalizing ys n with
  | nil =>
    rw [commonPrefix, List.length_nil]
    · constructor
      · intro hn
        exact ⟨by omega, fun i hi ↦ by omega⟩
      · rintro ⟨hn, -⟩
        omega
    · rintro _ _ _ _ ⟨⟩
  | cons x xs ih =>
    cases ys with
    | nil => simp at hl
    | cons y ys =>
      rw [List.length_cons, List.length_cons, Nat.add_right_cancel_iff] at hl
      rw [commonPrefix, List.length_cons]
      split
      · next hne =>
        obtain ⟨hlt, hd, hs⟩ := leadingZeros_xor hne
        constructor
        · intro hn
          refine ⟨by omega, fun i hi ↦ ?_⟩
          rw [bitAt_cons_of_lt _ _ (by omega), bitAt_cons_of_lt _ _ (by omega)]
          exact hs i (by omega)
        · rintro ⟨-, hb⟩
          by_contra hn
          apply hd
          rw [← bitAt_cons_of_lt x xs hlt, ← bitAt_cons_of_lt y ys hlt]
          exact hb _ (by omega)
      · next heq =>
        obtain rfl : x = y := not_not.mp heq
        constructor
        · intro hn
          obtain ⟨hle, hb⟩ := (ih hl (n := n - 8)).mp (by omega)
          refine ⟨by omega, fun i hi ↦ ?_⟩
          by_cases h8 : i < 8
          · rw [bitAt_cons_of_lt _ _ h8, bitAt_cons_of_lt _ _ h8]
          · obtain ⟨j, rfl⟩ : ∃ j, i = 8 + j := ⟨i - 8, by omega⟩
            rw [bitAt_cons_add, bitAt_cons_add]
            exact hb j (by omega)
        · rintro ⟨hle, hb⟩
          have h := (ih hl (n := n - 8)).mpr ⟨by omega, fun i hi ↦ ?_⟩
          · omega
          · rw [← bitAt_cons_add x xs, ← bitAt_cons_add x ys]
            exact hb _ (by omega)

private theorem bitAt_ext {xs ys : Bytes} (hl : xs.length = ys.length)
    (h : ∀ i < 8 * xs.length, bitAt xs i = bitAt ys i) : xs = ys := by
  induction xs generalizing ys with
  | nil => exact (List.length_eq_zero_iff.mp hl.symm).symm
  | cons x xs ih =>
    cases ys with
    | nil => simp at hl
    | cons y ys =>
      rw [List.length_cons] at h
      have hx : x = y := byteBit_ext fun i hi ↦ by
        rw [← bitAt_cons_of_lt x xs hi, ← bitAt_cons_of_lt y ys hi, h i (by omega)]
      have hxs : xs = ys := ih (by simpa using hl) fun i hi ↦ by
        rw [← bitAt_cons_add x xs, ← bitAt_cons_add y ys, h _ (by omega)]
      rw [hx, hxs]

namespace HashValue

/-- A key has 32 bytes. -/
@[simp]
theorem length_asBytes (key : HashValue) : key.asBytes.length = 32 := by simp [asBytes]

/-- The bytes determine the key. -/
@[simp]
theorem asBytes_inj {a b : HashValue} : a.asBytes = b.asBytes ↔ a = b := by
  cases a
  cases b
  simp [asBytes, Vector.toList_inj]

/-- The common prefix is the longest run of equal leading bits. -/
theorem le_commonPrefixBits_iff {a b : HashValue} {n : Nat} :
    n ≤ a.commonPrefixBits b ↔ n ≤ 256 ∧ ∀ i < n, a.bit i = b.bit i := by
  rw [commonPrefixBits, le_commonPrefix_iff (by simp), length_asBytes]
  rfl

/-- Keys as bit strings of width 256. -/
def bitKeys : BitKeys HashValue where
  width := 256
  bit := bit
  ext {a b} h := by
    apply asBytes_inj.mp
    apply bitAt_ext (by simp)
    rw [length_asBytes]
    exact h

/-- The common prefix in terms of agreeing bits. -/
theorem le_commonPrefixBits {a b : HashValue} {n : Nat} (hn : n ≤ 256) :
    n ≤ a.commonPrefixBits b ↔ bitKeys.Agree n a b := by
  rw [le_commonPrefixBits_iff]
  exact and_iff_right hn

/-- Two keys agree on their common prefix. -/
theorem agree_commonPrefixBits (a b : HashValue) : bitKeys.Agree (a.commonPrefixBits b) a b :=
  (le_commonPrefixBits_iff.mp (Nat.le_refl _)).2

/-- The common prefix is no longer than a key. -/
theorem commonPrefixBits_le (a b : HashValue) : a.commonPrefixBits b ≤ 256 :=
  (le_commonPrefixBits_iff.mp (Nat.le_refl _)).1

/-- The common prefix does not depend on the order of the keys. -/
theorem commonPrefixBits_comm (a b : HashValue) : a.commonPrefixBits b = b.commonPrefixBits a := by
  apply Nat.le_antisymm
  · rw [le_commonPrefixBits (commonPrefixBits_le a b)]
    exact (agree_commonPrefixBits a b).symm
  · rw [le_commonPrefixBits (commonPrefixBits_le b a)]
    exact (agree_commonPrefixBits b a).symm

end HashValue

variable {D : Type} (H : Blake3 D)

/-- The hash of an empty subtree; `sparse.rs:49-60`. -/
def emptyHash : D := H.hash (strBytes "SPARSE_EMPTY")

/-- Hash of a sparse-tree leaf under the prefix byte `0x02`; `hash.rs:198-206`. -/
def hashSparseLeaf (key : HashValue) (valueHash : D) : D :=
  H.hash (0x02 :: (key.asBytes ++ H.asBytes valueHash))

/-- Hash of a sparse-tree internal node under the prefix byte `0x03`; `hash.rs:186-194`. -/
def hashSparseInternal (left right : D) : D :=
  H.hash (0x03 :: (H.asBytes left ++ H.asBytes right))

/-- Hash of a stored value; `sparse.rs:268-271`. -/
def hashValue (value : Bytes) : D := H.hash value

/-- The three node hashes of the sparse tree. -/
def sparseHash : NodeHash HashValue D D where
  empty := emptyHash H
  leaf := hashSparseLeaf H
  node := hashSparseInternal H

variable {H}

/-- The prefix bytes and the fixed widths separate the node hashes. -/
theorem sparseHash_separated (hH : H.CollisionFree) : (sparseHash H).Separated where
  leaf_inj h := by
    have h := List.cons.inj (hH.hash_inj.mp h) |>.2
    obtain ⟨hk, hv⟩ := List.append_inj h (by simp)
    exact ⟨HashValue.asBytes_inj.mp hk, hH.asBytes_inj.mp hv⟩
  node_inj h := by
    have h := List.cons.inj (hH.hash_inj.mp h) |>.2
    obtain ⟨hl, hr⟩ := hH.asBytes_append_inj h
    exact ⟨hl, hH.asBytes_inj.mp hr⟩
  leaf_ne_empty h := by
    have h := congrArg List.head? (hH.hash_inj.mp h)
    simp only [List.head?_cons] at h
    revert h
    decide
  node_ne_empty h := by
    have h := congrArg List.head? (hH.hash_inj.mp h)
    simp only [List.head?_cons] at h
    revert h
    decide
  leaf_ne_node h := by
    have h := List.cons.inj (hH.hash_inj.mp h) |>.1
    revert h
    decide

end Setu.Merkle
