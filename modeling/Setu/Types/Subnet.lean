import Setu.Base.Checked
import Setu.Types.Event
import Setu.Types.Object

/-!
# Names of subnets

Library `Types`. A subnet is named by a public id or by the hexadecimal text of its identifier.
Public ids are hashed to identifiers of applications. Source `types/src/subnet.rs`. What is
proved about the resolver covers exactly the names that the registration grammar accepts.
-/

namespace Setu.Types

open Setu.Base

/-- `char::is_whitespace`, the Unicode property `White_Space`. -/
def isWhitespace (c : Char) : Bool :=
  let n := c.toNat
  decide (9 ≤ n ∧ n ≤ 13) || n == 0x20 || n == 0x85 || n == 0xA0 || n == 0x1680 ||
    decide (0x2000 ≤ n ∧ n ≤ 0x200A) || n == 0x2028 || n == 0x2029 || n == 0x202F ||
    n == 0x205F || n == 0x3000

/-- `str::trim`. -/
def trim (text : String) : String :=
  String.ofList
    ((text.toList.dropWhile isWhitespace).reverse.dropWhile isWhitespace).reverse

/-- `str::len`, in bytes. -/
def byteLength (chars : List Char) : Nat := (chars.map Char.utf8Size).sum

/-- `strip_prefix("0x")`, or the text itself. -/
def stripZeroX : List Char → List Char
  | '0' :: 'x' :: rest => rest
  | chars => chars

/-- `eq_ignore_ascii_case`. -/
def eqIgnoreAsciiCase (a b : String) : Bool :=
  a.toList.map Char.toLower == b.toList.map Char.toLower

private theorem utf8Size_of_hexValue {c : Char} (h : (hexValue c).isSome) : c.utf8Size = 1 := by
  have hle : c.toNat ≤ 102 := by
    unfold hexValue at h
    split at h
    · next hd => exact Nat.le_trans (show c.toNat ≤ 57 from hd.2) (by decide)
    · split at h
      · next hl => exact hl.2
      · split at h
        · next hu => exact Nat.le_trans (show c.toNat ≤ 70 from hu.2) (by decide)
        · cases h
  have hle : c.val ≤ 0x7f := UInt32.le_iff_toNat_le.mpr (Nat.le_trans hle (by decide))
  simp [Char.utf8Size, hle]

private theorem byteLength_of_hex {chars : List Char} (h : ∀ c ∈ chars, (hexValue c).isSome) :
    byteLength chars = chars.length := by
  rw [byteLength, List.map_congr_left fun c hc ↦ utf8Size_of_hexValue (h c hc)]
  simp

private theorem stripZeroX_of_hex {chars : List Char} (h : ∀ c ∈ chars, (hexValue c).isSome) :
    stripZeroX chars = chars := by
  unfold stripZeroX
  split
  · have hx := h 'x' (by simp)
    exact absurd hx (by decide)
  · rfl

namespace SubnetId

/-- The 32 bytes of an identifier, `subnet.rs:270-272`. -/
def asBytes (subnet : SubnetId) : Bytes := subnet.bytes.toList

/-- `subnet.rs:188-197`. -/
def fromHex (text : String) : Except String SubnetId :=
  match hexDecode (stripZeroX text.toList) with
  | none => .error "Invalid hex string"
  | some bytes =>
    if h : bytes.length = 32 then .ok ⟨⟨bytes.toArray, size_toArray_of_length h⟩⟩
    else .error "SubnetId must be 32 bytes"

variable (raw : String)

/-- `subnet.rs:203-231`. -/
def validatePublicIdGrammar : Except String PUnit := do
  let value := trim raw
  require (value != "") "Invalid subnet_id: must not be empty"
  require (value == raw) "Invalid subnet_id: leading/trailing whitespace is not allowed"
  require (decide (3 ≤ byteLength value.toList ∧ byteLength value.toList ≤ 64))
    "Invalid subnet_id: length must be 3-64 characters"
  require (!(eqIgnoreAsciiCase value "root" || eqIgnoreAsciiCase value "governance"))
    "Invalid subnet_id: reserved system id"
  require (value.toList.head?.any Char.isAlphanum && value.toList.getLast?.any Char.isAlphanum)
    "Invalid subnet_id: must start and end with a letter or digit"
  require (value.toList.all fun ch ↦ ch.isLower || ch.isDigit || ch == '-')
    "Invalid subnet_id: only lowercase letters, digits, and '-' are allowed"

/-- `subnet.rs:80-87`. -/
inductive SubnetIdParseError where
  | empty
  | invalidHex (message : String)
  | invalidGrammar (message : String)
  deriving DecidableEq

variable {D : Type} (H : Blake3 D)

/-- `subnet.rs:142-150`. -/
def fromStrId (id : String) : SubnetId :=
  ⟨(hashedId H (strBytes "SETU_SUBNET:" ++ strBytes id)).bytes.set 0 appPrefix zero_lt_32⟩

/-- `subnet.rs:239-252`. -/
def parsePublicOrHex (value : String) : Except SubnetIdParseError SubnetId :=
  if trim value = "" then .error .empty
  else if value = "ROOT" ∨ value = "root" then .ok root
  else
    let bare := stripZeroX value.toList
    if byteLength bare = 64 ∧ bare.all (fun c ↦ (hexValue c).isSome) then
      (fromHex value).mapError .invalidHex
    else do
      (validatePublicIdGrammar value).mapError .invalidGrammar
      pure (fromStrId H value)

/-- The grammar accepts the name. -/
def Accepted : Prop := validatePublicIdGrammar raw = .ok ⟨⟩

instance (raw : String) : Decidable (Accepted raw) :=
  decidable_of_iff ((validatePublicIdGrammar raw).toOption.isSome = true) <| by
    unfold Accepted
    cases validatePublicIdGrammar raw with
    | error e => simp [Except.toOption]
    | ok r => simp [Except.toOption]

/-- The name is the hexadecimal text of the identifier. -/
def Spells (subnet : SubnetId) : Prop := raw = hexEncode subnet.asBytes

private theorem accepted_iff {raw : String} (h : Accepted raw) :
    trim raw = raw ∧ raw ≠ "" ∧ byteLength raw.toList ≤ 64 ∧ raw ≠ "ROOT" ∧ raw ≠ "root" ∧
      ∀ c ∈ raw.toList, (c.isLower || c.isDigit || c == '-') = true := by
  simp only [Accepted, validatePublicIdGrammar, bind_eq_ok, require_eq_ok, beq_iff_eq,
    bne_iff_ne, decide_eq_true_eq, List.all_eq_true] at h
  obtain ⟨-, hne, -, ht, -, hl, -, hr, -, -, hc⟩ := h
  rw [ht] at hne hl hr hc
  refine ⟨ht, hne, hl.2, ?_, ?_, hc⟩
  · rintro rfl
    exact absurd hr (by decide)
  · rintro rfl
    exact absurd hr (by decide)

variable {H}

private theorem parsePublicOrHex_of_accepted {raw : String} (h : Accepted raw) :
    parsePublicOrHex H raw =
      if byteLength (stripZeroX raw.toList) = 64 ∧
          (stripZeroX raw.toList).all (fun c ↦ (hexValue c).isSome) then
        (fromHex raw).mapError .invalidHex
      else .ok (fromStrId H raw) := by
  obtain ⟨ht, hne, -, hr, hr', -⟩ := accepted_iff h
  have hg : validatePublicIdGrammar raw = .ok ⟨⟩ := h
  rw [parsePublicOrHex, ht, if_neg hne, if_neg (by simp [hr, hr']), hg]
  rfl

/-- A name that spells an identifier is resolved to it. -/
theorem parsePublicOrHex_of_spells {raw : String} {subnet : SubnetId} (h : Accepted raw)
    (hs : Spells raw subnet) : parsePublicOrHex H raw = .ok subnet := by
  have hh : ∀ c ∈ raw.toList, (hexValue c).isSome := by
    intro c hc
    rw [hs] at hc
    exact (hexDigit_of_mem_hexEncode hc).1
  have hl : raw.toList.length = 64 := by
    rw [hs, length_hexEncode, asBytes, Vector.length_toList]
  rw [parsePublicOrHex_of_accepted h, stripZeroX_of_hex hh, if_pos]
  · have hd : hexDecode (stripZeroX raw.toList) = some subnet.asBytes := by
      rw [stripZeroX_of_hex hh, hs, hexDecode_hexEncode]
    have hle : subnet.asBytes.length = 32 := Vector.length_toList
    rw [fromHex, hd]
    simp only [hle, ↓reduceDIte]
    rfl
  · exact ⟨by rw [byteLength_of_hex hh, hl], List.all_eq_true.mpr hh⟩

/-- A name that spells no identifier is hashed. -/
theorem parsePublicOrHex_of_not_spells {raw : String} (h : Accepted raw)
    (hs : ∀ subnet, ¬ Spells raw subnet) :
    parsePublicOrHex H raw = .ok (fromStrId H raw) := by
  obtain ⟨-, -, hle, -, -, hch⟩ := accepted_iff h
  rw [parsePublicOrHex_of_accepted h, if_neg]
  rintro ⟨hl, ha⟩
  rw [List.all_eq_true] at ha
  unfold stripZeroX at hl ha
  split at hl
  · -- with `0x` in front the name would have 66 characters
    next rest heq =>
    rw [heq] at hle
    have hz : ('0' : Char).utf8Size = 1 := rfl
    have hx : ('x' : Char).utf8Size = 1 := rfl
    simp only [byteLength, List.map_cons, List.sum_cons] at hle hl
    omega
  · split at ha
    · next h _ _ heq => exact h _ heq
    rw [byteLength_of_hex ha] at hl
    obtain ⟨bytes, hb, hco⟩ := exists_hexDecode (show _ = 2 * 32 from hl) ha
    have hu : ∀ c ∈ raw.toList, c.isUpper = false := by
      intro c hc
      have hc := hch c hc
      by_contra hup
      have hup : 65 ≤ c.val ∧ c.val ≤ 90 := of_decide_eq_true (Bool.eq_true_of_not_eq_false hup)
      simp only [Char.isDigit, Bool.or_eq_true, beq_iff_eq, Bool.and_eq_true,
        decide_eq_true_eq] at hc
      rcases hc with (hc | hc) | rfl
      · have hlo : 97 ≤ c.val := of_decide_eq_true (Bool.and_eq_true_iff.mp hc).1
        exact absurd (UInt32.le_trans hlo hup.2) (by decide)
      · exact absurd (UInt32.le_trans hup.1 hc.2) (by decide)
      · exact absurd hup (by decide)
    have ht := hexEncode_of_hexDecode hb hu
    rw [String.ofList_toList] at ht
    refine hs ⟨⟨bytes.toArray, by simp [hco]⟩⟩ ?_
    rw [Spells, ← ht]
    rfl

/-- Hashed names are names of applications. -/
theorem isSystem_fromStrId : (fromStrId H raw).isSystem = false := by
  simp [isSystem, fromStrId, appPrefix, systemPrefix]

end SubnetId

end Setu.Types
