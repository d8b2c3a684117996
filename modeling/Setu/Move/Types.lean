import Setu.Types.SolverTask

/-!
# Names and types of the Move VM

Library `Move`. Identifiers, type tags, module identifiers and ability sets as
`move_core_types` and `move_binary_format` have them, the conversions of
`crates/setu-move-vm/src/address_compat.rs` and the framework's constants of
`ptb_executor.rs`. How a type tag is written as text belongs to `move_core_types` and is a
parameter.
-/

namespace Setu.Types

open Setu.Base

/-- `object_id_to_move`, `address_compat.rs:19-21`. -/
def Address.ofObjectId (id : ObjectId) : Address := ⟨id.bytes⟩

/-- `move_addr_to_object_id`, `address_compat.rs:34-37`. -/
def Address.toObjectId (address : Address) : ObjectId := ⟨address.bytes⟩

/-- `AccountAddress::from_hex_literal`: `0x` and up to 64 digits, padded with zeros. -/
def Address.fromHexLiteral (text : String) : Option Address :=
  match text.toList with
  | '0' :: 'x' :: digits =>
    match hexDecode (List.replicate (64 - digits.length) '0' ++ digits) with
    | some bytes => if h : bytes.length = 32 then some ⟨⟨bytes.toArray, size_toArray_of_length h⟩⟩ else none
    | none => none
  | _ => none

/-- The text with all digits is read back. -/
theorem Address.fromHexLiteral_toText (address : Address) :
    Address.fromHexLiteral address.toText = some address := by
  have hl : (hexEncode address.asBytes).toList.length = 64 := by
    rw [length_hexEncode, Address.asBytes, Vector.length_toList]
  have hli : address.toText.toList = '0' :: 'x' :: (hexEncode address.asBytes).toList := by
    simp [Address.toText]
  have hb : address.asBytes.length = 32 := by simp [Address.asBytes]
  simp only [Address.fromHexLiteral, hli, hl, Nat.sub_self, List.replicate_zero,
    List.nil_append, hexDecode_hexEncode, hb, dif_pos]
  rfl

end Setu.Types

namespace Setu.Move

open Setu.Base Setu.Types

/-- Letters, digits and the underscore. -/
def isIdentifierChar (c : Char) : Bool := c.isAlphanum || c == '_'

/-- A letter or an underscore that something follows, and then identifier characters. -/
def isIdentifier (text : String) : Bool :=
  match text.toList with
  | [] => false
  | '_' :: rest => !rest.isEmpty && rest.all isIdentifierChar
  | c :: rest => text == "<SELF>" || (c.isAlpha && rest.all isIdentifierChar)

/-- A name of a module, a type or a function; `Identifier` and `IdentStr`. -/
structure Identifier where
  name : String
  valid : isIdentifier name = true
  deriving DecidableEq

/-- `Identifier::new` and `IdentStr::new`. -/
def Identifier.new (text : String) : Except String Identifier :=
  if h : isIdentifier text = true then .ok ⟨text, h⟩ else .error s!"Invalid identifier '{text}'"

/-- A module at an address; `ModuleId`. -/
structure ModuleId where
  address : Address
  name : Identifier
  deriving DecidableEq

mutual

/-- A closed type; `TypeTag`. -/
inductive TypeTag where
  | bool | u8 | u16 | u32 | u64 | u128 | u256 | address | signer
  | vector (element : TypeTag)
  | struct (tag : StructTag)
  deriving DecidableEq

/-- A struct type with its type parameters; `StructTag`. -/
inductive StructTag where
  | mk (address : Address) (module name : Identifier) (typeParams : TypeTags)
  deriving DecidableEq

/-- A list of type parameters. -/
inductive TypeTags where
  | nil
  | cons (head : TypeTag) (tail : TypeTags)
  deriving DecidableEq

end

/-- A type as a signature has it; `runtime_types::Type`, with everything below the outermost
reference as a tag. -/
inductive VmType where
  | value (tag : TypeTag)
  | reference (tag : TypeTag)
  | mutableReference (tag : TypeTag)
  deriving DecidableEq

/-- Whether values of a type hold a struct: the type is a struct or a vector of such. -/
def TypeTag.holdsStruct : TypeTag → Bool
  | struct _ => true
  | vector element => element.holdsStruct
  | _ => false

namespace VmType

/-- The type below the reference, if there is one. -/
def tag : VmType → TypeTag
  | value tag | reference tag | mutableReference tag => tag

/-- Whether an argument of the type is borrowed; `engine.rs:1359`. -/
def isReference : VmType → Bool
  | value _ => false
  | reference _ | mutableReference _ => true

end VmType

/-- What may be done with the values of a type; `AbilitySet`. -/
structure AbilitySet where
  copy : Bool
  drop : Bool
  store : Bool
  key : Bool
  deriving DecidableEq

/-- The textual form of type tags; `TypeTag::from_str`, `StructTag::from_str` and `to_string`. -/
structure TagSyntax where
  parseType : String → Except String TypeTag
  parseStruct : String → Except String StructTag
  text : TypeTag → String

/-- `SETU_FRAMEWORK_ADDR`, `ptb_executor.rs:46-47`. -/
def frameworkAddr : Address := ⟨Vector.ofFn fun i ↦ if i.val = 31 then 1 else 0⟩

/-- A name that is known to be an identifier. -/
abbrev ident (text : String) (h : isIdentifier text = true := by exact Eq.refl true) : Identifier :=
  ⟨text, h⟩

/-- `0x1::coin`; `COIN_MODULE`, `ptb_executor.rs:49`. -/
def coinModule : ModuleId := ⟨frameworkAddr, ident "coin"⟩

/-- `0x1::package`; `PACKAGE_MODULE`, `ptb_executor.rs:53`. -/
def packageModule : ModuleId := ⟨frameworkAddr, ident "package"⟩

/-- `0x1::coin::Coin<T>`. -/
def coinTag (t : TypeTag) : StructTag :=
  .mk frameworkAddr (ident "coin") (ident "Coin") (.cons t .nil)

/-- A type of the package module without parameters. -/
def packageTag (name : Identifier) : StructTag := .mk frameworkAddr (ident "package") name .nil

/-- `ptb_executor.rs:358-370`. -/
def coinInnerTypeFromTag : TypeTag → Option TypeTag
  | .struct (.mk address module name (.cons t .nil)) =>
    if address = frameworkAddr ∧ module.name = "coin" ∧ name.name = "Coin" then some t else none
  | _ => none

/-- The inner type is found exactly in the coin types. -/
theorem coinInnerTypeFromTag_eq_some_iff {tag t : TypeTag} :
    coinInnerTypeFromTag tag = some t ↔ tag = .struct (coinTag t) := by
  constructor
  · intro h
    unfold coinInnerTypeFromTag at h
    split at h
    · next address module name t' =>
      split at h
      · next hc =>
        obtain ⟨ha, hm, hn⟩ := hc
        obtain ⟨⟩ := h
        have hm : module = ident "coin" := by
          cases module
          cases hm
          rfl
        have hn : name = ident "Coin" := by
          cases name
          cases hn
          rfl
        rw [ha, hm, hn, coinTag]
      · cases h
    · cases h
  · rintro rfl
    simp [coinTag, coinInnerTypeFromTag]

end Setu.Move
