import Mathlib.Algebra.Group.Nat.Defs
import Mathlib.Data.List.Basic

/-!
# Byte strings and the encodings fed to a hasher

Library `Base`. Hash preimages are lists of bytes. UTF-8 text, fixed-width little-endian
integers and lowercase hexadecimal text are the only encodings used; each one is injective,
and the fixed-width ones can be cut off the front of a longer string.
-/

namespace Setu.Base

/-- A byte string; `Vec<u8>` and `&[u8]` in the source. -/
abbrev Bytes := List UInt8

/-- The bounds under which 32 bytes make an address and its first byte is read. -/
theorem size_toArray_of_length {bytes : Bytes} (h : bytes.length = 32) :
    bytes.toArray.size = 32 := by
  simp [h]

theorem zero_lt_32 : 0 < 32 := by
  decide

/-- The UTF-8 bytes of a string; `str::as_bytes`. -/
def strBytes (s : String) : Bytes := s.toUTF8.data.toList

/-- UTF-8 encoding loses nothing. -/
theorem strBytes_injective : Function.Injective strBytes := by
  intro s t h
  apply String.toByteArray_inj.mp
  exact ByteArray.ext (Array.toList_inj.mp h)

theorem strBytes_append (s t : String) : strBytes (s ++ t) = strBytes s ++ strBytes t := by
  simp [strBytes]

/-- UTF-8 encoding is injective, as a simp rule. -/
@[simp]
theorem strBytes_inj {s t : String} : strBytes s = strBytes t ↔ s = t :=
  strBytes_injective.eq_iff

/-- The `width` low-order bytes of a number, least significant first. -/
def leBytes : (width : Nat) → Nat → Bytes
  | 0, _ => []
  | width + 1, n => UInt8.ofNat n :: leBytes width (n / 256)

/-- A little-endian integer has its fixed width. -/
@[simp]
theorem length_leBytes (width n : Nat) : (leBytes width n).length = width := by
  induction width generalizing n with
  | zero => rfl
  | succ width ih => simp [leBytes, ih]

/-- Numbers below `256 ^ width` are determined by their little-endian bytes. -/
theorem leBytes_inj {width a b : Nat} (ha : a < 256 ^ width) (hb : b < 256 ^ width)
    (h : leBytes width a = leBytes width b) : a = b := by
  induction width generalizing a b with
  | zero => simp only [Nat.pow_zero] at ha hb; omega
  | succ width ih =>
    simp only [leBytes, List.cons.injEq] at h
    obtain ⟨hl, hh⟩ := h
    have hl : a % 256 = b % 256 := by simpa using congrArg UInt8.toNat hl
    rw [Nat.pow_succ] at ha hb
    have hd : a / 256 = b / 256 := ih (by omega) (by omega) hh
    omega

/-- Eight little-endian bytes; `u64::to_le_bytes`. -/
def u64Le (n : UInt64) : Bytes := leBytes 8 n.toNat

/-- A `u64` takes eight bytes. -/
@[simp]
theorem length_u64Le (n : UInt64) : (u64Le n).length = 8 := length_leBytes 8 _

/-- The eight bytes determine the `u64`. -/
@[simp]
theorem u64Le_inj {a b : UInt64} : u64Le a = u64Le b ↔ a = b := by
  constructor
  · intro h
    apply UInt64.toNat_inj.mp
    exact leBytes_inj (UInt64.toNat_lt a) (UInt64.toNat_lt b) h
  · rintro rfl
    rfl

/-- Lowercase hexadecimal digit of a value below sixteen. -/
def hexDigit (n : Nat) : Char := if n < 10 then Char.ofNat (48 + n) else Char.ofNat (87 + n)

private def hexChars : Bytes → List Char
  | [] => []
  | b :: rest => hexDigit (b.toNat / 16) :: hexDigit (b.toNat % 16) :: hexChars rest

variable (bytes : Bytes)

/-- Two lowercase digits for each byte, high nibble first; `hex::encode`. -/
def hexEncode : String := String.ofList (hexChars bytes)

/-- The text of a byte string starts with the digits of its first byte. -/
theorem toList_hexEncode_cons (b : UInt8) (rest : Bytes) :
    (hexEncode (b :: rest)).toList =
      hexDigit (b.toNat / 16) :: hexDigit (b.toNat % 16) :: (hexEncode rest).toList := by
  simp [hexEncode, hexChars]

private theorem hexDigit_inj : ∀ a < 16, ∀ b < 16, hexDigit a = hexDigit b → a = b := by
  decide

private theorem hexChars_injective : Function.Injective hexChars := by
  intro a
  induction a with
  | nil =>
    intro b h
    cases b with
    | nil => rfl
    | cons y b => simp [hexChars] at h
  | cons x a ih =>
    intro b h
    cases b with
    | nil => simp [hexChars] at h
    | cons y b =>
      simp only [hexChars, List.cons.injEq] at h
      obtain ⟨hhi, hlo, hr⟩ := h
      have hx : x.toNat < 256 := x.toNat_lt
      have hy : y.toNat < 256 := y.toNat_lt
      have hhi := hexDigit_inj _ (by omega) _ (by omega) hhi
      have hlo := hexDigit_inj _ (by omega) _ (by omega) hlo
      rw [ih hr, UInt8.toNat_inj.mp (by omega : x.toNat = y.toNat)]

/-- Hexadecimal text determines the bytes. -/
@[simp]
theorem hexEncode_inj {a b : Bytes} : hexEncode a = hexEncode b ↔ a = b := by
  rw [hexEncode, hexEncode, String.ofList_inj, hexChars_injective.eq_iff]

private theorem strBytes_ofList (chars : List Char) :
    strBytes (String.ofList chars) = chars.flatMap String.utf8EncodeChar := by
  simp [strBytes, List.utf8Encode]

private theorem length_utf8EncodeChar_hexDigit :
    ∀ n < 16, (String.utf8EncodeChar (hexDigit n)).length = 1 := by
  decide

private theorem utf8EncodeChar_hexDigit_inj : ∀ a < 16, ∀ b < 16,
    String.utf8EncodeChar (hexDigit a) = String.utf8EncodeChar (hexDigit b) → a = b := by
  decide

/-- If one string starts with the hexadecimal text of both `a` and `b`, one of these is the
beginning of the other. -/
theorem comparable_of_hexEncode_append {a b s t : Bytes}
    (h : strBytes (hexEncode a) ++ s = strBytes (hexEncode b) ++ t) :
    ∃ rest, a ++ rest = b ∨ b ++ rest = a := by
  rw [hexEncode, hexEncode, strBytes_ofList, strBytes_ofList] at h
  induction a generalizing b with
  | nil => exact ⟨b, .inl rfl⟩
  | cons x a ih =>
    cases b with
    | nil => exact ⟨x :: a, .inr rfl⟩
    | cons y b =>
      have hx : x.toNat < 256 := x.toNat_lt
      have hy : y.toNat < 256 := y.toNat_lt
      simp only [hexChars, List.flatMap_cons, List.append_assoc] at h
      have hl : ∀ m < 16, ∀ n < 16, (String.utf8EncodeChar (hexDigit m)).length =
          (String.utf8EncodeChar (hexDigit n)).length := by
        intro m hm n hn
        rw [length_utf8EncodeChar_hexDigit m hm, length_utf8EncodeChar_hexDigit n hn]
      obtain ⟨hhi, h⟩ := List.append_inj h (hl _ (by omega) _ (by omega))
      obtain ⟨hlo, h⟩ := List.append_inj h (hl _ (by omega) _ (by omega))
      have hhi := utf8EncodeChar_hexDigit_inj _ (by omega) _ (by omega) hhi
      have hlo := utf8EncodeChar_hexDigit_inj _ (by omega) _ (by omega) hlo
      have hxy : x = y := UInt8.toNat_inj.mp (by omega)
      obtain ⟨rest, hr⟩ := ih h
      refine ⟨rest, ?_⟩
      rw [hxy, List.cons_append, List.cons_append, List.cons_inj_right, List.cons_inj_right]
      exact hr

private theorem length_hexChars : (hexChars bytes).length = 2 * bytes.length := by
  induction bytes with
  | nil => rfl
  | cons b rest ih =>
    rw [hexChars, List.length_cons, List.length_cons, List.length_cons, ih]
    omega

/-- Every byte takes two digits. -/
theorem length_hexEncode : (hexEncode bytes).toList.length = 2 * bytes.length := by
  rw [hexEncode, String.toList_ofList, length_hexChars]

/-- Value of a hexadecimal digit of either case. -/
def hexValue (c : Char) : Option Nat :=
  if '0' ≤ c ∧ c ≤ '9' then some (c.toNat - 48)
  else if 'a' ≤ c ∧ c ≤ 'f' then some (c.toNat - 87)
  else if 'A' ≤ c ∧ c ≤ 'F' then some (c.toNat - 55)
  else none

/-- The bytes of hexadecimal text, if it is such; `hex::decode`. -/
def hexDecode : List Char → Option Bytes
  | [] => some []
  | [_] => none
  | high :: low :: rest => do
    let high ← hexValue high
    let low ← hexValue low
    let bytes ← hexDecode rest
    some (UInt8.ofNat (16 * high + low) :: bytes)

private theorem hexValue_hexDigit : ∀ n < 16, hexValue (hexDigit n) = some n := by
  decide

/-- Decoding undoes encoding. -/
theorem hexDecode_hexEncode : hexDecode (hexEncode bytes).toList = some bytes := by
  rw [hexEncode, String.toList_ofList]
  induction bytes with
  | nil => rfl
  | cons b rest ih =>
    have hb : b.toNat < 256 := b.toNat_lt
    have hby : UInt8.ofNat (16 * (b.toNat / 16) + b.toNat % 16) = b := by
      rw [Nat.div_add_mod]
      exact UInt8.ofNat_toNat
    rw [hexChars, hexDecode, hexValue_hexDigit _ (by omega), hexValue_hexDigit _ (by omega), ih]
    simp only [Option.bind_eq_bind, Option.bind_some, hby]

private theorem hexDigit_of_hexValue {c : Char} {n : Nat} (h : hexValue c = some n)
    (hc : c.isUpper = false) : c = hexDigit n ∧ n < 16 := by
  unfold hexValue at h
  have ho : Char.ofNat c.toNat = c := Char.ofNat_toNat c
  split at h
  · next hd =>
    cases h
    have hl : 48 ≤ c.toNat := hd.1
    have hh : c.toNat ≤ 57 := hd.2
    rw [hexDigit, if_pos (by omega), Nat.add_sub_cancel' hl, ho]
    exact ⟨rfl, by omega⟩
  · split at h
    · next hle =>
      cases h
      have hl : 97 ≤ c.toNat := hle.1
      have hh : c.toNat ≤ 102 := hle.2
      rw [hexDigit, if_neg (by omega), Nat.add_sub_cancel' (by omega), ho]
      exact ⟨rfl, by omega⟩
    · split at h
      · next hu =>
        have hl : 65 ≤ c.toNat := hu.1
        have hh : c.toNat ≤ 70 := hu.2
        have hi : c.isUpper = true := by
          have hr : 65 ≤ c.val ∧ c.val ≤ 90 := ⟨hl, Nat.le_trans hh (by decide)⟩
          exact decide_eq_true hr
        rw [hi] at hc
        cases hc
      · cases h

/-- Text without uppercase letters is the encoding of what it decodes to. -/
theorem hexEncode_of_hexDecode {chars : List Char} {bytes : Bytes}
    (h : hexDecode chars = some bytes) (hch : ∀ c ∈ chars, c.isUpper = false) :
    hexEncode bytes = String.ofList chars := by
  induction chars using hexDecode.induct generalizing bytes with
  | case1 =>
    cases h
    rfl
  | case2 => cases h
  | case3 high low rest ih =>
    simp only [hexDecode, Option.bind_eq_bind, Option.bind_eq_some_iff, Option.some.injEq] at h
    obtain ⟨hi, hhi, lo, hlo, tail, ht, rfl⟩ := h
    obtain ⟨rfl, hi16⟩ := hexDigit_of_hexValue hhi (hch high List.mem_cons_self)
    obtain ⟨rfl, lo16⟩ := hexDigit_of_hexValue hlo
      (hch low (List.mem_cons_of_mem _ List.mem_cons_self))
    have hr := ih ht fun c hc ↦
      hch c (List.mem_cons_of_mem _ (List.mem_cons_of_mem _ hc))
    rw [hexEncode, String.ofList_inj] at hr ⊢
    have hlt : 16 * hi + lo < 256 := by omega
    have hb : (UInt8.ofNat (16 * hi + lo)).toNat = 16 * hi + lo := UInt8.toNat_ofNat_of_lt hlt
    have hd : (16 * hi + lo) / 16 = hi := by omega
    have hm : (16 * hi + lo) % 16 = lo := by omega
    rw [hexChars, hr, hb, hd, hm]

/-- Hexadecimal text of even length decodes. -/
theorem exists_hexDecode {chars : List Char} {n : Nat} (hl : chars.length = 2 * n)
    (hch : ∀ c ∈ chars, (hexValue c).isSome) :
    ∃ bytes, hexDecode chars = some bytes ∧ bytes.length = n := by
  induction n generalizing chars with
  | zero =>
    rw [Nat.mul_zero, List.length_eq_zero_iff] at hl
    subst hl
    exact ⟨[], rfl, rfl⟩
  | succ n ih =>
    match chars, hl with
    | high :: low :: rest, hl =>
      obtain ⟨hi, hhi⟩ := Option.isSome_iff_exists.mp (hch high List.mem_cons_self)
      obtain ⟨lo, hlo⟩ := Option.isSome_iff_exists.mp
        (hch low (List.mem_cons_of_mem _ List.mem_cons_self))
      simp only [List.length_cons] at hl
      have hr : rest.length = 2 * n := by omega
      obtain ⟨bytes, hb, hco⟩ := ih hr fun c hc ↦
        hch c (List.mem_cons_of_mem _ (List.mem_cons_of_mem _ hc))
      refine ⟨UInt8.ofNat (16 * hi + lo) :: bytes, ?_, by rw [List.length_cons, hco]⟩
      simp only [hexDecode, hhi, hlo, hb, Option.bind_eq_bind, Option.bind_some]

private theorem hexDigit_cases : ∀ n < 16, (hexValue (hexDigit n)).isSome ∧
    (hexDigit n).isUpper = false ∧ ((hexDigit n).isLower || (hexDigit n).isDigit) = true ∧
    (hexDigit n).utf8Size = 1 := by
  decide

/-- Every character of hexadecimal text is a lowercase digit of one byte. -/
theorem hexDigit_of_mem_hexEncode {bytes : Bytes} {c : Char} (h : c ∈ (hexEncode bytes).toList) :
    (hexValue c).isSome ∧ c.isUpper = false ∧ (c.isLower || c.isDigit) = true ∧
      c.utf8Size = 1 := by
  rw [hexEncode, String.toList_ofList] at h
  induction bytes with
  | nil => cases h
  | cons b rest ih =>
    have hb : b.toNat < 256 := b.toNat_lt
    simp only [hexChars, List.mem_cons] at h
    rcases h with rfl | rfl | h
    · exact hexDigit_cases _ (by omega)
    · exact hexDigit_cases _ (by omega)
    · exact ih h

/-- Seven bits to a byte, least significant first, the high bit set on all but the last. -/
def ulebLoop : (fuel : Nat) → Nat → Bytes
  | 0, _ => []
  | fuel + 1, n =>
    if n < 128 then [UInt8.ofNat n] else UInt8.ofNat (n % 128 + 128) :: ulebLoop fuel (n / 128)

/-- ULEB128 of a length. -/
def uleb128 (n : Nat) : Bytes := ulebLoop (n + 1) n

/-- A byte vector with its length; `bcs::to_bytes` of a `Vec<u8>`. -/
def bcsVec : Bytes := uleb128 bytes.length ++ bytes

/-- A string with its length in bytes; `bcs::to_bytes` of a `String`. -/
def bcsString (s : String) : Bytes := bcsVec (strBytes s)

end Setu.Base
