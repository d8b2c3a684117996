import Setu.Enclave.MoveEvents

/-!
# The local store of a Move task

Library `Enclave`. A task is executed on a store of its own, which holds what the task's read sets
hold and nothing else. Source `crates/setu-enclave/src/mock/mod.rs:480-626`.
-/

namespace Setu.Enclave

open Setu.Base Setu.Types Setu.Runtime Setu.Move

/-- The errors of `StfError`, `stf.rs:92-140`, with which the store is refused. -/
inductive StfError where
  | invalidResolvedInputs (message : String)
  deriving DecidableEq

variable {D : Type} (H : Blake3 D) (texts : LibraryTexts)

/-- `ObjectId::from_hex`, `object.rs:16-29`. -/
def objectIdFromHex (text : List Char) : Except String ObjectId := do
  let digits :=
    match text with
    | '0' :: 'x' :: rest => rest
    | chars => chars
  let bytes ← okOr (hexDecode digits) "Invalid hex string"
  if h : bytes.length = 32 then pure ⟨⟨bytes.toArray, size_toArray_of_length h⟩⟩
  else .error "ObjectId must be 32 bytes"

/-- `envelope.rs:81-98`. -/
def fromLegacyCoinState (id : ObjectId) (coin : CoinState) : ObjectEnvelope :=
  let owner := Address.normalize H coin.owner
  .fromMoveResult H id owner coin.version (.addressOwner owner)
    s!"0x1::coin::Coin<0x1::setu::{coin.coinType}>" (bcsString coin.coinType ++ u64Le coin.balance)

/-- An entry that is read as a coin, `mock/mod.rs:545-558` and `567-581`. -/
def legacyEnvelope (id : ObjectId) (hexId : String) (value : Bytes) :
    Except StfError ObjectEnvelope := do
  let coin ← okOr (CoinState.fromBytes value) (.invalidResolvedInputs
    s!"Failed to deserialize CoinState {hexId}: {texts.bcsError value}")
  pure (fromLegacyCoinState H id coin)

/-- An entry under an object key, `mock/mod.rs:496-562`: values that are empty or in JSON are
passed over. -/
def objectEntry (id : ObjectId) (hexId : String) (value : Bytes) :
    Except StfError (Option ObjectEnvelope) :=
  if value.isEmpty then .ok none
  else if value.take 2 = [0x53, 0x45] then do
    let env ← okOr (ObjectEnvelope.fromBytes value) (.invalidResolvedInputs
      s!"Failed to deserialize ObjectEnvelope {hexId}: {texts.bcsError value}")
    pure (some env)
  else if value.head? = some 0x7b then .ok none
  else do
    let env ← legacyEnvelope H texts id hexId value
    pure (some env)

/-- What an entry of the read set brings into the store, `mock/mod.rs:496-594`. -/
def storeEntry (entry : ReadSetEntry) : Except StfError (Option (ObjectId × ObjectEnvelope)) := do
  let parseId (hexId : List Char) : Except StfError ObjectId :=
    (objectIdFromHex hexId).mapError fun e ↦ .invalidResolvedInputs s!"Invalid object ID: {e}"
  match entry.key.toList with
  | 'o' :: 'i' :: 'd' :: ':' :: hexId =>
    let id ← parseId hexId
    let env ← objectEntry H texts id (String.ofList hexId) entry.value
    pure (env.map fun env ↦ (id, env))
  | 'c' :: 'o' :: 'i' :: 'n' :: ':' :: hexId =>
    let id ← parseId hexId
    let env ← legacyEnvelope H texts id (String.ofList hexId) entry.value
    pure (some (id, env))
  | _ => .error (.invalidResolvedInputs s!"Unknown read_set key format: {entry.key}")

/-- Whether a module entry is loaded, `mock/mod.rs:604-606`. -/
def isModuleKey (key : String) : Bool :=
  "mod:".toList.isPrefixOf key.toList || "linkage:latest:".toList.isPrefixOf key.toList ||
    "linkage:hist:".toList.isPrefixOf key.toList

/-- `build_object_store_from_read_set`, `mock/mod.rs:486-626`. -/
def buildObjectStore (readSet moduleReadSet : List ReadSetEntry) : Except StfError LocalStore := do
  let objects ← readSet.mapM (storeEntry H texts)
  let envelopes : HashMap ObjectId ObjectEnvelope := HashMap.insertAll ∅ (objects.filterMap id)
  let modules := moduleReadSet.filter fun entry ↦ isModuleKey entry.key
  let raw : HashMap String Bytes :=
    HashMap.insertAll ∅ (modules.map fun entry ↦ (entry.key, entry.value))
  pure ⟨fun id ↦ .ok (envelopes.lookup id), fun key ↦ .ok (raw.lookup key)⟩

variable {H texts}

theorem objectIdFromHex_hexEncode (id : ObjectId) :
    objectIdFromHex (hexEncode id.asBytes).toList = .ok id := by
  have hl : id.asBytes.length = 32 := by simp [Merkle.HashValue.asBytes]
  unfold objectIdFromHex
  split
  · next rest hc =>
    have hx : 'x' ∈ (hexEncode id.asBytes).toList := by simp [hc]
    exact absurd (hexDigit_of_mem_hexEncode hx).1 (by decide)
  · dsimp only
    rw [hexDecode_hexEncode]
    change (if h : id.asBytes.length = 32 then _ else _) = _
    rw [dif_pos hl]
    refine congrArg Except.ok (congrArg Merkle.HashValue.mk (Vector.toArray_inj.mp ?_))
    simp [Merkle.HashValue.asBytes, Vector.toList]

theorem objectEntry_toBytes (id : ObjectId) (hexId : String) (env : ObjectEnvelope) :
    objectEntry H texts id hexId env.toBytes = .ok (some env) := by
  have hm : env.toBytes.take 2 = [0x53, 0x45] := by simp [ObjectEnvelope.toBytes]
  have he : env.toBytes.isEmpty = false := by simp [ObjectEnvelope.toBytes]
  simp only [objectEntry, he, hm, ObjectEnvelope.fromBytes_toBytes]
  rfl

/-- An entry under the key of an object brings this object into the store. -/
theorem storeEntry_objectKey {id id' : ObjectId} {value : Bytes} {env : ObjectEnvelope}
    (h : storeEntry H texts ⟨objectKey id, value⟩ = .ok (some (id', env))) :
    id' = id ∧ objectEntry H texts id (hexEncode id.asBytes) value = .ok (some env) := by
  simp only [storeEntry, toList_objectKey, objectIdFromHex_hexEncode, String.ofList_toList,
    bind_eq_ok, mapError_eq_ok, pure_eq_ok] at h
  obtain ⟨_, heq, found, hf, hm⟩ := h
  cases heq
  cases found with
  | none => cases hm
  | some found =>
    cases hm
    exact ⟨rfl, hf⟩

/-- An object of the store comes from an entry of the read set. -/
theorem exists_entry_of_buildObjectStore {readSet moduleReadSet : List ReadSetEntry}
    {store : LocalStore} (h : buildObjectStore H texts readSet moduleReadSet = .ok store)
    {id : ObjectId} {env : ObjectEnvelope} (he : store.getEnvelope id = .ok (some env)) :
    ∃ entry ∈ readSet, storeEntry H texts entry = .ok (some (id, env)) := by
  simp only [buildObjectStore, bind_eq_ok, pure_eq_ok] at h
  obtain ⟨objects, ho, rfl⟩ := h
  rw [Except.ok.injEq] at he
  obtain hm | hn := HashMap.mem_or_lookup_of_insertAll he
  · obtain ⟨_, hf, rfl⟩ := List.mem_filterMap.mp hm
    exact exists_of_mem_mapM_ok ho hf
  · cases hn

end Setu.Enclave
