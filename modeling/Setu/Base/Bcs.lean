import Mathlib.Tactic.Ring
import Setu.Base.Bytes

/-!
# Reading what canonical serialization wrote

Library `Base`. A reader takes a value off the front of a byte string. It is correct for an
encoding when it undoes the encoding and leaves whatever follows; correct readers compose, so
a record is read field by field in the order in which it was written.
-/

namespace Setu.Base

/-- A decoder that takes its value off the front of its input. -/
abbrev Reader (α : Type) := StateT Bytes Option α

/-- The reader finds the value in front of every continuation and leaves the continuation. -/
def Reader.Reads {α : Type} (r : Reader α) (encoded : Bytes) (value : α) : Prop :=
  ∀ rest, r.run (encoded ++ rest) = some (value, rest)

/-- `bcs::from_bytes`: the value must use up the input. -/
def Reader.parse {α : Type} (r : Reader α) (input : Bytes) : Option α :=
  match r.run input with
  | some (value, []) => some value
  | _ => none

namespace Reader

variable {α β : Type}

theorem reads_pure (value : α) : Reads (pure value) [] value := fun _ ↦ rfl

variable {r : Reader α}

/-- Readers in a row read what was written in a row. -/
theorem Reads.bind {f : α → Reader β} {front back : Bytes} {a : α} {b : β} (hr : r.Reads front a)
    (hf : (f a).Reads back b) : (r >>= f).Reads (front ++ back) b := by
  intro rest
  rw [StateT.run_bind, List.append_assoc, hr (back ++ rest)]
  exact hf rest

/-- The value of the last reader may be rebuilt. -/
theorem Reads.bind_pure {encoded : Bytes} {a : α} (hr : r.Reads encoded a) (f : α → β)
    : (r >>= fun x ↦ pure (f x)).Reads encoded (f a) := by
  have h := hr.bind (f := fun x ↦ pure (f x)) (reads_pure (f a))
  rwa [List.append_nil] at h

/-- A correct reader parses exactly what was written. -/
theorem Reads.parse {encoded : Bytes} {a : α} (h : r.Reads encoded a) :
    r.parse encoded = some a := by
  have hr := h []
  rw [List.append_nil] at hr
  rw [Reader.parse, hr]

/-- Whatever the reader takes off is the encoding of the value it finds. -/
def Canonical (r : Reader α) (encode : α → Bytes) : Prop :=
  ∀ input a rest, r.run input = some (a, rest) → input = encode a ++ rest

variable {encode : α → Bytes}

theorem Canonical.eq_of_parse (h : r.Canonical encode) {input : Bytes} {a : α}
    (hp : r.parse input = some a) : input = encode a := by
  unfold Reader.parse at hp
  split at hp
  · next value hr =>
    cases hp
    simpa using h input a [] hr
  · cases hp

/-- Two readers in a row, where the second one gives the value of both. -/
theorem Canonical.bind (h : r.Canonical encode) {f : α → Reader β} {encode' : β → Bytes}
    (hf : ∀ a input b rest, (f a).run input = some (b, rest) → encode a ++ input = encode' b ++
      rest) : (r >>= f).Canonical encode' := by
  intro input b rest hru
  change (r.run input >>= fun read ↦ (f read.1).run read.2) = some (b, rest) at hru
  obtain ⟨⟨a, input'⟩, hr, hb⟩ := Option.bind_eq_some_iff.mp hru
  rw [h input a input' hr]
  exact hf a input' b rest hb

/-- The value of the last reader may be rebuilt. -/
theorem Canonical.bind_pure (h : r.Canonical encode) {f : α → β} {encode' : β → Bytes}
    (he : ∀ a, encode' (f a) = encode a) : (r >>= fun x ↦ pure (f x)).Canonical encode' := by
  intro input b rest hru
  change (r.run input >>= fun read ↦ some (f read.1, read.2)) = some (b, rest) at hru
  obtain ⟨⟨a, rest'⟩, hr, heq⟩ := Option.bind_eq_some_iff.mp hru
  cases heq
  rw [he]
  exact h input a _ hr

end Reader

open Reader

/-- The next `n` bytes. -/
def readBytes (n : Nat) : Reader Bytes := fun input ↦
  if n ≤ input.length then some (input.take n, input.drop n) else none

variable (bytes : Bytes)

theorem reads_readBytes : (readBytes bytes.length).Reads bytes bytes := by
  intro rest
  simp [readBytes, StateT.run]

/-- The next `n` bytes as an array of that length. -/
def readArray (n : Nat) : Reader (Vector UInt8 n) := fun input ↦
  if h : n ≤ input.length then some (⟨(input.take n).toArray, by simp [h]⟩, input.drop n)
  else none

theorem reads_readArray {n : Nat} (array : Vector UInt8 n) :
    (readArray n).Reads array.toList array := by
  intro rest
  have hl : array.toList.length = n := array.length_toList
  have ht : (array.toList ++ rest).take n = array.toList := List.take_left' hl
  have hd : (array.toList ++ rest).drop n = rest := List.drop_left' hl
  have hle : n ≤ (array.toList ++ rest).length := by simp
  simp only [readArray, StateT.run, hle, dif_pos, hd, Option.some.injEq, Prod.mk.injEq, and_true]
  exact Vector.toList_inj.mp ht

theorem canonical_readArray {n : Nat} : (readArray n).Canonical Vector.toList := by
  intro input array rest h
  simp only [readArray, StateT.run] at h
  split at h
  · cases h
    exact (List.take_append_drop n input).symm
  · cases h

/-- The next byte. -/
def readByte : Reader UInt8
  | [] => none
  | b :: rest => some (b, rest)

theorem reads_readByte (b : UInt8) : readByte.Reads [b] b := fun _ ↦ rfl

/-- The number with these little-endian bytes. -/
def ofLeBytes : Bytes → Nat
  | [] => 0
  | b :: rest => b.toNat + 256 * ofLeBytes rest

/-- Little-endian bytes determine the number modulo their range. -/
theorem ofLeBytes_leBytes (width n : Nat) : ofLeBytes (leBytes width n) = n % 256 ^ width := by
  induction width generalizing n with
  | zero => simp [leBytes, ofLeBytes, Nat.mod_one]
  | succ width ih =>
    have hb : (UInt8.ofNat n).toNat = n % 256 := UInt8.toNat_ofNat'
    rw [leBytes, ofLeBytes, ih, hb, Nat.pow_succ, Nat.mul_comm (256 ^ width), Nat.mod_mul]

/-- A number below the range of its width determines its bytes. -/
theorem leBytes_ofLeBytes : leBytes bytes.length (ofLeBytes bytes) = bytes := by
  induction bytes with
  | nil => rfl
  | cons b rest ih =>
    have hb : UInt8.ofNat (b.toNat + 256 * ofLeBytes rest) = b := by
      rw [← UInt8.toNat_inj, UInt8.toNat_ofNat', Nat.add_mul_mod_self_left,
        Nat.mod_eq_of_lt b.toNat_lt]
    have hr : (b.toNat + 256 * ofLeBytes rest) / 256 = ofLeBytes rest := by
      rw [Nat.add_mul_div_left _ _ (by decide), Nat.div_eq_of_lt b.toNat_lt, Nat.zero_add]
    rw [List.length_cons, ofLeBytes, leBytes, hb, hr, ih]

theorem ofLeBytes_lt : ofLeBytes bytes < 256 ^ bytes.length := by
  induction bytes with
  | nil => simp [ofLeBytes]
  | cons b rest ih =>
    have hb : b.toNat < 256 := b.toNat_lt
    rw [ofLeBytes, List.length_cons, Nat.pow_succ]
    omega

/-- A `u64` of eight little-endian bytes. -/
def readU64 : Reader UInt64 := do
  let bytes ← readBytes 8
  pure (UInt64.ofNat (ofLeBytes bytes))

theorem reads_readU64 (n : UInt64) : readU64.Reads (u64Le n) n := by
  have hv : UInt64.ofNat (ofLeBytes (u64Le n)) = n := by
    rw [u64Le, ofLeBytes_leBytes, Nat.mod_eq_of_lt (show n.toNat < 256 ^ 8 from n.toNat_lt),
      UInt64.ofNat_toNat]
  have hb := reads_readBytes (u64Le n)
  rw [length_u64Le] at hb
  have h := hb.bind_pure fun bytes ↦ UInt64.ofNat (ofLeBytes bytes)
  rwa [hv] at h

theorem canonical_readU64 : readU64.Canonical u64Le := by
  intro input n rest h
  have hr : readU64.run input =
      if 8 ≤ input.length then some (UInt64.ofNat (ofLeBytes (input.take 8)), input.drop 8)
      else none := by
    change ((readBytes 8).run input >>= fun read ↦ some (UInt64.ofNat (ofLeBytes read.1), read.2)) =
      _
    simp only [readBytes, StateT.run]
    split <;> rfl
  rw [hr] at h
  split at h
  · next hle =>
    cases h
    have hl : (input.take 8).length = 8 := by simp [hle]
    have hlt := ofLeBytes_lt (input.take 8)
    have hb := leBytes_ofLeBytes (input.take 8)
    rw [hl] at hlt hb
    rw [u64Le, UInt64.toNat_ofNat_of_lt' hlt, hb, List.take_append_drop]
  · cases h

/-- A number in groups of seven bits; one that ends in a zero group is not canonical. -/
def readUleb : Reader Nat
  | [] => none
  | b :: rest =>
    if b.toNat < 128 then some (b.toNat, rest)
    else
      match readUleb rest with
      | some (high, rest) => if high = 0 then none else some (b.toNat - 128 + 128 * high, rest)
      | none => none

private theorem readUleb_ulebLoop (fuel : Nat) {n : Nat} (hn : n < fuel) (rest : Bytes) :
    readUleb (ulebLoop fuel n ++ rest) = some (n, rest) := by
  induction fuel generalizing n with
  | zero => omega
  | succ fuel ih =>
    by_cases hs : n < 128
    · have hb : (UInt8.ofNat n).toNat = n := by
        rw [UInt8.toNat_ofNat']
        omega
      simp [ulebLoop, hs, readUleb, hb]
    · have hb : (UInt8.ofNat (n % 128 + 128)).toNat = n % 128 + 128 := by
        rw [UInt8.toNat_ofNat']
        omega
      have hh : n / 128 ≠ 0 := by omega
      have hl : ¬ n % 128 + 128 < 128 := by omega
      simp only [ulebLoop, hs, if_false, List.cons_append, readUleb, hb, hl,
        ih (show n / 128 < fuel by omega), hh, Option.some.injEq, Prod.mk.injEq, and_true]
      omega

theorem reads_readUleb (n : Nat) : readUleb.Reads (uleb128 n) n :=
  readUleb_ulebLoop (n + 1) (Nat.lt_succ_self n)

private theorem ulebLoop_eq {fuel n : Nat} (fuel' : Nat) (h : n < fuel) (h' : n < fuel') :
    ulebLoop fuel n = ulebLoop fuel' n := by
  induction fuel generalizing fuel' n with
  | zero => omega
  | succ fuel ih =>
    cases fuel' with
    | zero => omega
    | succ fuel' =>
      rw [ulebLoop, ulebLoop]
      by_cases hs : n < 128
      · rw [if_pos hs, if_pos hs]
      · rw [if_neg hs, if_neg hs, ih fuel' (by omega) (by omega)]

theorem canonical_readUleb : readUleb.Canonical uleb128 := by
  intro input
  induction input with
  | nil =>
    intro n rest h
    cases h
  | cons b input ih =>
    intro n rest h
    change readUleb (b :: input) = some (n, rest) at h
    rw [readUleb] at h
    by_cases hs : b.toNat < 128
    · rw [if_pos hs] at h
      cases h
      rw [uleb128, ulebLoop, if_pos hs, UInt8.ofNat_toNat]
      rfl
    · rw [if_neg hs] at h
      cases hr : readUleb input with
      | none =>
        rw [hr] at h
        cases h
      | some read =>
        obtain ⟨high, rest'⟩ := read
        rw [hr] at h
        by_cases hz : high = 0
        · simp [hz] at h
        · simp only [hz, if_false, Option.some.injEq, Prod.mk.injEq] at h
          obtain ⟨hn, rfl⟩ := h
          have hb : b.toNat < 256 := b.toNat_lt
          have hl : n % 128 + 128 = b.toNat := by omega
          have hh : n / 128 = high := by omega
          have hu : uleb128 n = b :: uleb128 high := by
            rw [uleb128, ulebLoop, if_neg (by omega), hl, hh, UInt8.ofNat_toNat, uleb128,
              ulebLoop_eq n (Nat.lt_succ_self high) (by omega)]
          rw [ih high rest' hr, hu, List.cons_append]

/-- A byte vector with its length in front. -/
def readVec : Reader Bytes := do
  let length ← readUleb
  readBytes length

theorem reads_readVec : readVec.Reads (bcsVec bytes) bytes :=
  (reads_readUleb bytes.length).bind (reads_readBytes bytes)

theorem canonical_readVec : readVec.Canonical bcsVec := by
  apply canonical_readUleb.bind
  intro length input bytes rest h
  simp only [readBytes, StateT.run] at h
  split at h
  · next hle =>
    cases h
    rw [bcsVec, List.length_take, Nat.min_eq_left hle, List.append_assoc, List.take_append_drop]
  · cases h

/-- A string with its length in front; the bytes must be UTF-8. -/
def readString : Reader String := do
  let bytes ← readVec
  fun rest ↦ (String.fromUTF8? bytes.toByteArray).map fun s ↦ (s, rest)

theorem reads_readString (s : String) : readString.Reads (bcsString s) s := by
  have hb : (strBytes s).toByteArray = s.toUTF8 := ByteArray.ext (by simp [strBytes])
  have hutf8 : String.fromUTF8? (strBytes s).toByteArray = some s := by
    rw [hb, String.fromUTF8?, String.toUTF8_eq_toByteArray, dif_pos s.isValidUTF8]
    rfl
  have hr : Reader.Reads (fun rest ↦ (String.fromUTF8? (strBytes s).toByteArray).map
      fun s ↦ (s, rest)) [] s := by
    intro rest
    simp [StateT.run, hutf8]
  have h := (reads_readVec (strBytes s)).bind (f := fun bytes rest ↦
    (String.fromUTF8? bytes.toByteArray).map fun s ↦ (s, rest)) hr
  rwa [List.append_nil] at h

theorem canonical_readString : readString.Canonical bcsString := by
  apply canonical_readVec.bind
  intro bytes input s rest h
  obtain ⟨s', hs, heq⟩ := Option.map_eq_some_iff.mp h
  cases heq
  rw [String.fromUTF8?] at hs
  split at hs
  · next hv =>
    cases hs
    have hb : strBytes (String.fromUTF8 bytes.toByteArray hv) = bytes := by
      simp [strBytes, String.fromUTF8]
    rw [bcsString, hb]
  · cases hs

end Setu.Base
