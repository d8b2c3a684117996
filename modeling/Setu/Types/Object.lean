import Setu.Base.Bcs
import Setu.Merkle.HashValue

/-!
# Objects, coins and envelopes

Library `Types`. Sources `types/src/object.rs`, `coin.rs`, `envelope.rs` and `state_key.rs`.
Digests and timestamps that no modelled function reads are left out of the records.
-/

namespace Setu.Types

open Setu.Base Setu.Merkle

/-- An object identifier, `object.rs:7`; the state trees use the same 32 bytes as their key. -/
abbrev ObjectId := HashValue

/-- An account address, `object.rs:114`. -/
structure Address where
  bytes : Vector UInt8 32
  deriving DecidableEq

namespace Address

/-- `Address::ZERO`, `object.rs:117`. -/
def zero : Address := ⟨Vector.replicate 32 0⟩

variable (address : Address)

/-- The 32 bytes of an address; `object.rs:169-171`. -/
def asBytes : Bytes := address.bytes.toList

/-- The `Display` form, `object.rs:177-181`. -/
def toText : String := "0x" ++ hexEncode address.asBytes

/-- `object.rs:132-136`; the `0x` in front may be missing. -/
def fromHex (text : String) : Option Address :=
  let digits :=
    match text.toList with
    | '0' :: 'x' :: rest => rest
    | chars => chars
  match hexDecode digits with
  | some bytes => if h : bytes.length = 32 then some ⟨⟨bytes.toArray, size_toArray_of_length h⟩⟩ else none
  | none => none

/-- The displayed form of an address is read back. -/
theorem fromHex_toText : fromHex address.toText = some address := by
  have hl : address.asBytes.length = 32 := by simp [asBytes]
  have hd : address.toText.toList = '0' :: 'x' :: (hexEncode address.asBytes).toList := by
    simp [toText]
  simp only [fromHex, hd, hexDecode_hexEncode, hl, dif_pos]
  rfl

end Address

variable (id : ObjectId)

/-- The `Display` form of an object identifier, `object.rs:60-64`. -/
def objectIdText : String := "0x" ++ hexEncode id.asBytes

/-- The storage key of an object, `state_key.rs:36-38`. -/
def objectKey : String := "oid:" ++ hexEncode id.asBytes

theorem toList_objectKey :
    (objectKey id).toList = 'o' :: 'i' :: 'd' :: ':' :: (hexEncode id.asBytes).toList := by
  rw [objectKey, String.toList_append]
  rfl

theorem objectKey_inj {id id' : ObjectId} : objectKey id = objectKey id' ↔ id = id' := by
  rw [← String.toList_inj, toList_objectKey, toList_objectKey]
  simp [String.toList_inj, HashValue.asBytes_inj]

/-- The state key of a module. -/
def moduleKey (addr name : String) : String := "mod:" ++ addr ++ "::" ++ name

/-- `AccountAddress::to_hex_literal`: hex without leading zeros. -/
def toHexLiteral (bytes : Bytes) : String :=
  match (hexEncode bytes).toList.dropWhile (· == '0') with
  | [] => "0x0"
  | digits => "0x" ++ String.ofList digits

/-- The object identifier whose bytes are the digest of a preimage. -/
def hashedId {D : Type} (H : Blake3 D) (preimage : Bytes) : ObjectId :=
  ⟨Vector.ofFn fun i ↦ (H.asBytes (H.hash preimage)).getD i 0⟩

/-- Kinds of objects, `object.rs:268-272`. -/
inductive ObjectType where
  | ownedObject | sharedObject | immutableObject
  deriving DecidableEq

/-- Who may use an object, `object.rs:275-280`. -/
inductive Ownership where
  | addressOwner (owner : Address)
  | objectOwner (parent : ObjectId)
  | shared (initialSharedVersion : UInt64)
  | immutable
  deriving DecidableEq

/-- A coin of the runtime; `Object<CoinData>`, `object.rs:283-298` and `coin.rs:155-163`. -/
structure Coin where
  id : ObjectId
  version : UInt64
  objectType : ObjectType
  owner : Option Address
  ownership : Ownership
  createdAt : UInt64
  updatedAt : UInt64
  coinType : String
  balance : UInt64
  deriving DecidableEq

namespace Coin

variable (coin : Coin)

/-- `object.rs:401-403`. -/
def isOwned : Bool := coin.objectType == .ownedObject

/-- `object.rs:434-437`. -/
def incrementVersion : Coin := { coin with version := coin.version + 1 }

/-- `object.rs:439-445`. -/
def transferTo (newOwner : Address) : Coin :=
  if coin.isOwned then
    { coin with owner := some newOwner, ownership := .addressOwner newOwner }.incrementVersion
  else coin

/-- `coin.rs:130-139`. -/
def withdraw (amount : UInt64) : Except String Coin :=
  if coin.balance < amount then
    .error s!"Insufficient balance: have {coin.balance}, need {amount}"
  else .ok { coin with balance := coin.balance - amount }

/-- `coin.rs:142-146`. -/
def deposit (amount : UInt64) : Except String Coin :=
  if coin.balance.toNat + amount.toNat < 2 ^ 64 then
    .ok { coin with balance := coin.balance + amount }
  else .error "Balance overflow"

/-- The stored form; `to_coin_state_bytes`, `coin.rs:217-235`. -/
def toCoinStateBytes : Bytes :=
  bcsString ((coin.owner.map Address.toText).getD "") ++ u64Le coin.balance ++
    u64Le coin.version ++ bcsString coin.coinType

end Coin

/-- `coin.rs:380-392`. -/
def createCoinWithId (owner : Address) (value : UInt64) (coinType : String) (timestamp : UInt64)
    : Coin where
  id := id
  version := 1
  objectType := .ownedObject
  owner := some owner
  ownership := .addressOwner owner
  createdAt := timestamp
  updatedAt := timestamp
  coinType := coinType
  balance := value

/-- `coin.rs:359-366`. -/
def coinIdFromTx {D : Type} (H : Blake3 D) (txHash : Bytes) (outputIndex : Nat) : ObjectId :=
  hashedId H (strBytes "SETU_COIN_TX:" ++ txHash ++ strBytes ":" ++ leBytes 4 outputIndex)

/-- `object.rs:157-167`. -/
def Address.normalize {D : Type} (H : Blake3 D) (text : String) : Address :=
  (Address.fromHex text).getD ⟨(hashedId H (strBytes text)).bytes⟩

/-- Storage form of a Move object, `envelope.rs:25-45`, without the constant magic number. -/
structure ObjectEnvelope where
  id : ObjectId
  owner : Address
  version : UInt64
  ownership : Ownership
  digest : HashValue
  typeTag : String
  data : Bytes
  deriving DecidableEq

/-- `bcs::to_bytes` of an ownership. -/
def Ownership.toBytes : Ownership → Bytes
  | addressOwner owner => 0 :: owner.asBytes
  | objectOwner parent => 1 :: parent.asBytes
  | shared initialSharedVersion => 2 :: u64Le initialSharedVersion
  | immutable => [3]

namespace ObjectEnvelope

/-- `envelope.rs:48-63` and `127-132`. -/
def fromMoveResult {D : Type} (H : Blake3 D) (id : ObjectId) (owner : Address) (version : UInt64)
    (ownership : Ownership) (typeTag : String) (data : Bytes) : ObjectEnvelope where
  id := id
  owner := owner
  version := version
  ownership := ownership
  digest := hashedId H (strBytes "SETU_OBJ_DIGEST:" ++ data)
  typeTag := typeTag
  data := data

/-- `envelope.rs:118-120`. -/
def toBytes (e : ObjectEnvelope) : Bytes :=
  [0x53, 0x45] ++ e.id.asBytes ++ e.owner.asBytes ++ u64Le e.version ++ e.ownership.toBytes ++
    e.digest.asBytes ++ bcsString e.typeTag ++ bcsVec e.data

end ObjectEnvelope

/-- A key of 32 bytes. -/
def readHashValue : Reader HashValue := do
  let bytes ← readArray 32
  pure ⟨bytes⟩

theorem reads_readHashValue (id : HashValue) : readHashValue.Reads id.asBytes id :=
  (reads_readArray id.bytes).bind_pure HashValue.mk

/-- An address of 32 bytes. -/
def readAddress : Reader Address := do
  let bytes ← readArray 32
  pure ⟨bytes⟩

theorem reads_readAddress (address : Address) :
    readAddress.Reads address.asBytes address :=
  (reads_readArray address.bytes).bind_pure Address.mk

theorem canonical_readHashValue : readHashValue.Canonical HashValue.asBytes :=
  canonical_readArray.bind_pure fun _ ↦ rfl

theorem canonical_readAddress : readAddress.Canonical Address.asBytes :=
  canonical_readArray.bind_pure fun _ ↦ rfl

/-- What follows the first byte of an ownership. -/
def readOwnershipBody : UInt8 → Reader Ownership
  | 0 => do pure (.addressOwner (← readAddress))
  | 1 => do pure (.objectOwner (← readHashValue))
  | 2 => do pure (.shared (← readU64))
  | 3 => pure .immutable
  | _ => failure

/-- An ownership, told by its first byte. -/
def readOwnership : Reader Ownership := readByte >>= readOwnershipBody

private theorem reads_readOwnership (ownership : Ownership) :
    readOwnership.Reads ownership.toBytes ownership := by
  cases ownership with
  | addressOwner owner =>
    exact (reads_readByte 0).bind ((reads_readAddress owner).bind_pure Ownership.addressOwner)
  | objectOwner parent =>
    exact (reads_readByte 1).bind ((reads_readHashValue parent).bind_pure Ownership.objectOwner)
  | shared version =>
    exact (reads_readByte 2).bind ((reads_readU64 version).bind_pure Ownership.shared)
  | immutable => exact (reads_readByte 3).bind (Reader.reads_pure Ownership.immutable)

namespace ObjectEnvelope

/-- The fields of an envelope in the order of their declaration. -/
def reader : Reader ObjectEnvelope := do
  let _ ← readBytes 2
  let id ← readHashValue
  let owner ← readAddress
  let version ← readU64
  let ownership ← readOwnership
  let digest ← readHashValue
  let typeTag ← readString
  let data ← readVec
  pure ⟨id, owner, version, ownership, digest, typeTag, data⟩

/-- `envelope.rs:123-125`. -/
def fromBytes (bytes : Bytes) : Option ObjectEnvelope := reader.parse bytes

/-- What is stored can be read back. -/
theorem fromBytes_toBytes (e : ObjectEnvelope) : fromBytes e.toBytes = some e := by
  apply Reader.Reads.parse
  have hm : (readBytes 2).Reads [0x53, 0x45] [0x53, 0x45] := reads_readBytes [0x53, 0x45]
  rw [toBytes]
  simp only [List.append_assoc]
  refine hm.bind <| (reads_readHashValue e.id).bind <| (reads_readAddress e.owner).bind <|
    (reads_readU64 e.version).bind <| (reads_readOwnership e.ownership).bind <|
    (reads_readHashValue e.digest).bind <| (reads_readString e.typeTag).bind ?_
  exact (reads_readVec e.data).bind_pure fun data ↦ { e with data := data }

end ObjectEnvelope

/-- The stored state of a coin, `coin.rs:38-48`. -/
structure CoinState where
  owner : String
  balance : UInt64
  version : UInt64
  coinType : String
  deriving DecidableEq

namespace CoinState

/-- The fields of a coin state in the order of their declaration. -/
def reader : Reader CoinState := do
  let owner ← readString
  let balance ← readU64
  let version ← readU64
  let coinType ← readString
  pure ⟨owner, balance, version, coinType⟩

/-- `coin.rs:72-74`. -/
def fromBytes (bytes : Bytes) : Option CoinState := reader.parse bytes

/-- `coin.rs:67-69`. -/
def toBytes (coin : CoinState) : Bytes :=
  bcsString coin.owner ++ u64Le coin.balance ++ u64Le coin.version ++ bcsString coin.coinType

theorem canonical_reader : reader.Canonical toBytes := by
  intro input coin rest h
  change (readString.run input >>= fun owner ↦ readU64.run owner.2 >>= fun balance ↦
    readU64.run balance.2 >>= fun version ↦ readString.run version.2 >>= fun coinType ↦
      some (CoinState.mk owner.1 balance.1 version.1 coinType.1, coinType.2)) =
        some (coin, rest) at h
  simp only [Option.bind_eq_bind, Option.bind_eq_some_iff, Option.some.injEq, Prod.mk.injEq] at h
  obtain ⟨owner, ho, balance, hb, version, hv, coinType, ht, rfl, rfl⟩ := h
  rw [canonical_readString _ _ _ ho, canonical_readU64 _ _ _ hb,
    canonical_readU64 _ _ _ hv, canonical_readString _ _ _ ht, toBytes]
  simp only [List.append_assoc]

/-- Bytes that are read as a coin are the bytes of this coin. -/
theorem eq_toBytes_of_fromBytes {bytes : Bytes} {coin : CoinState}
    (h : fromBytes bytes = some coin) : bytes = coin.toBytes :=
  canonical_reader.eq_of_parse h

theorem fromBytes_toBytes (coin : CoinState) : fromBytes coin.toBytes = some coin := by
  apply Reader.Reads.parse
  rw [toBytes]
  simp only [List.append_assoc]
  refine (reads_readString _).bind <| (reads_readU64 _).bind <| (reads_readU64 _).bind ?_
  exact (reads_readString coin.coinType).bind_pure fun coinType ↦
    CoinState.mk coin.owner coin.balance coin.version coinType

/-- What is stored of a coin can be read back. -/
theorem fromBytes_toCoinStateBytes (coin : Coin) :
    fromBytes coin.toCoinStateBytes =
      some ⟨(coin.owner.map Address.toText).getD "", coin.balance, coin.version,
        coin.coinType⟩ :=
  fromBytes_toBytes ⟨_, _, _, _⟩

end CoinState

end Setu.Types
