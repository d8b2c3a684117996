import Setu.Base.IndexMap
import Setu.Move.Types
import Setu.Runtime.Executor

/-!
# The object runtime of a Move session

Library `Move`. What the native functions record about objects and dynamic fields while a
session runs. The natives are the only way in which Move code reaches the record, so a run of
the VM changes it by a list of native calls. Sources
`crates/setu-move-vm/src/object_runtime.rs` and `natives.rs`.
-/

namespace Setu.Move

open Setu.Base Setu.Types Setu.Runtime

/-- An object loaded for the session, `object_runtime.rs:23-37`. -/
structure InputObject where
  id : ObjectId
  owner : Address
  ownership : Ownership
  version : UInt64
  envelopeBytes : Bytes
  moveData : Bytes
  typeTag : StructTag
  deriving DecidableEq

/-- `object_runtime.rs:44-64`. -/
def InputObject.fromEnvelope (tags : TagSyntax) (id : ObjectId) (env : ObjectEnvelope) :
    Except RuntimeError InputObject := do
  let typeTag ← (tags.parseStruct env.typeTag).mapError fun e ↦
    .invalidTransaction s!"Failed to parse type_tag '{env.typeTag}': {e}"
  pure ⟨id, env.owner, env.ownership, env.version, env.toBytes, env.data, typeTag⟩

/-- `object_runtime.rs:68-72`. -/
structure ObjectTransferEffect where
  newOwner : Address
  typeTag : StructTag
  bcsBytes : Bytes
  deriving DecidableEq

/-- `object_runtime.rs:75-78`. -/
structure ObjectFreezeEffect where
  typeTag : StructTag
  bcsBytes : Bytes
  deriving DecidableEq

/-- `object_runtime.rs:88-92`. -/
structure ObjectShareEffect where
  typeTag : StructTag
  bcsBytes : Bytes
  initialSharedVersion : UInt64
  deriving DecidableEq

/-- `object_runtime.rs:95-98`. -/
structure ObjectMutationEffect where
  typeTag : StructTag
  bcsBytes : Bytes
  deriving DecidableEq

/-- A preloaded dynamic field, `object_runtime.rs:112-118`. -/
structure DfEntry where
  dfOid : ObjectId
  valueBytes : Option Bytes
  valueTypeTag : String
  mode : DfAccessMode
  envelopeBytes : Option Bytes
  deriving DecidableEq

/-- Where a dynamic field hangs; `DfCacheKey`, `object_runtime.rs:170`. -/
structure DfCacheKey where
  parent : ObjectId
  keyTypeTag : String
  keyBcs : Bytes
  deriving DecidableEq

/-- `object_runtime.rs:125-131`. -/
structure DfCreateEffect where
  key : DfCacheKey
  valueTypeTag : String
  valueBcs : Bytes
  deriving DecidableEq

/-- `object_runtime.rs:139-151`. -/
structure DfMutateEffect where
  key : DfCacheKey
  valueTypeTag : String
  oldValueBcs : Bytes
  newValueBcs : Bytes
  onDiskEnvelope : Option Bytes
  deriving DecidableEq

/-- `object_runtime.rs:157-166`. -/
structure DfDeleteEffect where
  key : DfCacheKey
  valueTypeTag : String
  oldValueBcs : Bytes
  onDiskEnvelope : Option Bytes
  deriving DecidableEq

/-- The record of a session, `object_runtime.rs:201-222`; consuming it at the end,
`object_runtime.rs:443-457`, changes nothing in it. -/
structure SetuObjectRuntime where
  inputObjects : HashMap ObjectId InputObject
  createdIds : IndexSet ObjectId
  deletedIds : IndexSet ObjectId
  transfers : IndexMap ObjectId ObjectTransferEffect
  frozen : IndexMap ObjectId ObjectFreezeEffect
  shared : IndexMap ObjectId ObjectShareEffect
  mutated : IndexMap ObjectId ObjectMutationEffect
  emittedEvents : List (StructTag × Bytes)
  dfCache : HashMap DfCacheKey DfEntry
  dfCreated : IndexMap ObjectId DfCreateEffect
  dfMutated : IndexMap ObjectId DfMutateEffect
  dfDeleted : IndexMap ObjectId DfDeleteEffect
  txHash : Bytes
  idsCreated : UInt64
  sender : Address
  epochTimestampMs : UInt64

namespace SetuObjectRuntime

/-- The cache entry of a resolved field, `object_runtime.rs:237-251`. -/
def dfEntry (rdf : ResolvedDynamicField) : DfCacheKey × DfEntry :=
  (⟨rdf.parentObjectId, rdf.nameTypeTag, rdf.nameBcs⟩,
    ⟨rdf.dfObjectId, rdf.valueBytes, rdf.valueTypeTag, rdf.mode, rdf.envelopeBytes⟩)

/-- `object_runtime.rs:227-271`. -/
def new (inputObjects : List InputObject) (dfPreload : List ResolvedDynamicField)
    (txHash : Bytes) (sender : Address) (epochTimestampMs : UInt64) : SetuObjectRuntime where
  inputObjects := HashMap.insertAll ∅ (inputObjects.map fun obj ↦ (obj.id, obj))
  createdIds := .empty
  deletedIds := .empty
  transfers := .empty
  frozen := .empty
  shared := .empty
  mutated := .empty
  emittedEvents := []
  dfCache := HashMap.insertAll ∅ (dfPreload.map dfEntry)
  dfCreated := .empty
  dfMutated := .empty
  dfDeleted := .empty
  txHash := txHash
  idsCreated := 0
  sender := sender
  epochTimestampMs := epochTimestampMs

variable (rt : SetuObjectRuntime)

/-- `object_runtime.rs:307-315`. -/
def mutateObject (id : ObjectId) (typeTag : StructTag) (bcsBytes : Bytes) : SetuObjectRuntime :=
  { rt with mutated := rt.mutated.insert id ⟨typeTag, bcsBytes⟩ }

/-- `object_runtime.rs:334-351`. -/
def shareObject (id : ObjectId) (typeTag : StructTag) (bcsBytes : Bytes) : SetuObjectRuntime :=
  let initialSharedVersion := ((rt.inputObjects.lookup id).map InputObject.version).getD 0
  { rt with
    transfers := rt.transfers.shiftRemove id
    shared := rt.shared.insert id ⟨typeTag, bcsBytes, initialSharedVersion⟩ }

/-- `object_runtime.rs:427-432`. -/
def recordDfDelete (dfOid : ObjectId) (effect : DfDeleteEffect) : SetuObjectRuntime :=
  match rt.dfMutated.get? dfOid with
  | some prior =>
    { rt with
      dfMutated := rt.dfMutated.swapRemove dfOid
      dfDeleted := rt.dfDeleted.insert dfOid { effect with oldValueBcs := prior.oldValueBcs } }
  | none => { rt with dfDeleted := rt.dfDeleted.insert dfOid effect }

/-- Set the cached value of a field that is preloaded; `df_cache_get_mut`,
`object_runtime.rs:396-398`. -/
def setDfValue (key : DfCacheKey) (value : Option Bytes) : SetuObjectRuntime :=
  match rt.dfCache.lookup key with
  | some entry => { rt with dfCache := rt.dfCache.insert key { entry with valueBytes := value } }
  | none => rt

end SetuObjectRuntime

/-- A call of a native function that reads or changes the record; the values it is given are
serialized already. -/
inductive NativeCall where
  | newUid
  | deleteUid (id : ObjectId)
  | transfer (recipient : Address) (typeTag : StructTag) (bcsBytes : Bytes)
  | share (typeTag : StructTag) (bcsBytes : Bytes)
  | freeze (typeTag : StructTag) (bcsBytes : Bytes)
  | emit (typeTag : StructTag) (bcsBytes : Bytes)
  | dfAdd (key : DfCacheKey) (valueTag : String) (valueBcs : Bytes)
  | dfRemove (key : DfCacheKey) (valueTag : String)
  | dfBorrow (key : DfCacheKey) (valueTag : String)
  | dfBorrowMut (key : DfCacheKey) (valueTag : String)
  deriving DecidableEq

/-- Whether a native works on dynamic fields. -/
def NativeCall.isField : NativeCall → Bool
  | dfAdd .. | dfRemove .. | dfBorrow .. | dfBorrowMut .. => true
  | _ => false

/-- Why a native function fails: it aborts with a code, `natives.rs:38-47`, or a value cannot
be deserialized. -/
inductive NativeError where
  | abort (code : Nat)
  | valueDeserialization
  deriving DecidableEq

/-- `natives.rs:970-977`. -/
def extractUidFromBcs (bcsBytes : Bytes) : Option ObjectId :=
  if h : 32 ≤ bcsBytes.length then some ⟨⟨(bcsBytes.take 32).toArray, by simp [h]⟩⟩ else none

/-- An object starts with its identifier. -/
@[simp]
theorem extractUidFromBcs_append (id : ObjectId) (rest : Bytes) :
    extractUidFromBcs (id.asBytes ++ rest) = some id := by
  have hl : id.asBytes.length = 32 := id.bytes.length_toList
  have hle : 32 ≤ (id.asBytes ++ rest).length := by simp [hl]
  have ht : (id.asBytes ++ rest).take 32 = id.asBytes := List.take_left' hl
  obtain ⟨bytes⟩ := id
  simp only [extractUidFromBcs, hle, dif_pos, ht, Option.some.injEq, Merkle.HashValue.mk.injEq]
  exact Vector.toList_inj.mp rfl

namespace SetuObjectRuntime

variable {D : Type} (H : Blake3 D)

/-- The identifier that the next `fresh_id` returns, `object_runtime.rs:276-280`. -/
def nextId (rt : SetuObjectRuntime) : ObjectId :=
  hashedId H (strBytes "SETU_FRESH_ID:" ++ rt.txHash ++ u64Le rt.idsCreated)

/-- `object_runtime.rs:275-286`. -/
def freshId (rt : SetuObjectRuntime) : SetuObjectRuntime :=
  { rt with
    createdIds := rt.createdIds.insert (rt.nextId H) ()
    idsCreated := rt.idsCreated + 1 }

/-- `native_object_delete_uid`, `natives.rs:235-262`. -/
def deleteUid (rt : SetuObjectRuntime) (id : ObjectId) : SetuObjectRuntime :=
  if rt.createdIds.contains id then { rt with createdIds := rt.createdIds.swapRemove id }
  else { rt with deletedIds := rt.deletedIds.insert id () }

/-- Whether a serialized value starts with the identifier of an input object,
`natives.rs:641-650`. -/
def impersonatesInput (rt : SetuObjectRuntime) (valueBcs : Bytes) : Bool :=
  ((extractUidFromBcs valueBcs).bind rt.inputObjects.lookup).isSome

/-- `native_df_add_internal`, `natives.rs:610-719`. -/
def dfAdd (rt : SetuObjectRuntime) (key : DfCacheKey) (valueTag : String) (valueBcs : Bytes) :
    Except NativeError SetuObjectRuntime := do
  let dfOid := deriveDfOid H key.parent key.keyTypeTag key.keyBcs
  require (!rt.impersonatesInput valueBcs) (.abort 4)
  let entry ← okOr (rt.dfCache.lookup key) (.abort 0)
  let mutateReplace := entry.mode == .mutate && entry.valueBytes.isNone
  require (entry.mode == .create || mutateReplace) (.abort 0)
  require entry.valueBytes.isNone (.abort 1)
  require (entry.valueTypeTag == valueTag) (.abort 3)
  require (entry.dfOid == dfOid) (.abort 0)
  if mutateReplace then
    let prior ← okOr (rt.dfDeleted.get? dfOid) (.abort 0)
    let rt := { rt with
      dfDeleted := rt.dfDeleted.swapRemove dfOid
      dfMutated := rt.dfMutated.insert dfOid
        ⟨key, valueTag, prior.oldValueBcs, valueBcs, prior.onDiskEnvelope⟩ }
    pure (rt.setDfValue key (some valueBcs))
  else
    let rt := { rt with dfCreated := rt.dfCreated.insert dfOid ⟨key, valueTag, valueBcs⟩ }
    pure (rt.setDfValue key (some valueBcs))

/-- The preloaded field and its value, with the checks that `remove`, `borrow` and `borrow_mut`
make in this order. -/
def dfExisting (rt : SetuObjectRuntime) (key : DfCacheKey) (valueTag : String)
    (modes : List DfAccessMode) : Except NativeError (DfEntry × Bytes) := do
  let entry ← okOr (rt.dfCache.lookup key) (.abort 0)
  require (modes.contains entry.mode) (.abort 0)
  let bytes ← okOr entry.valueBytes (.abort 2)
  require (entry.valueTypeTag == valueTag) (.abort 3)
  pure (entry, bytes)

/-- `native_df_remove_internal`, `natives.rs:722-788`. -/
def dfRemove (rt : SetuObjectRuntime) (key : DfCacheKey) (valueTag : String) :
    Except NativeError SetuObjectRuntime := do
  let (entry, bytes) ← rt.dfExisting key valueTag [.delete, .mutate]
  let rt := rt.recordDfDelete entry.dfOid ⟨key, valueTag, bytes, entry.envelopeBytes⟩
  pure (rt.setDfValue key none)

/-- `native_df_borrow_mut_internal`, `natives.rs:860-929`: the new value is recorded as the old
one. -/
def dfBorrowMut (rt : SetuObjectRuntime) (key : DfCacheKey) (valueTag : String) :
    Except NativeError SetuObjectRuntime := do
  let (entry, bytes) ← rt.dfExisting key valueTag [.mutate]
  pure { rt with
    dfMutated := rt.dfMutated.insert entry.dfOid
      ⟨key, valueTag, bytes, bytes, entry.envelopeBytes⟩ }

/-- What a native call does to the record; `natives.rs:207-977`. -/
def native (rt : SetuObjectRuntime) : NativeCall → Except NativeError SetuObjectRuntime
  | .newUid => pure (rt.freshId H)
  | .deleteUid id => pure (rt.deleteUid id)
  | .transfer recipient typeTag bcsBytes => do
    let id ← okOr (extractUidFromBcs bcsBytes) .valueDeserialization
    pure { rt with transfers := rt.transfers.insert id ⟨recipient, typeTag, bcsBytes⟩ }
  | .share typeTag bcsBytes => do
    let id ← okOr (extractUidFromBcs bcsBytes) .valueDeserialization
    pure (rt.shareObject id typeTag bcsBytes)
  | .freeze typeTag bcsBytes => do
    let id ← okOr (extractUidFromBcs bcsBytes) .valueDeserialization
    pure { rt with frozen := rt.frozen.insert id ⟨typeTag, bcsBytes⟩ }
  | .emit typeTag bcsBytes =>
    pure { rt with emittedEvents := rt.emittedEvents ++ [(typeTag, bcsBytes)] }
  | .dfAdd key valueTag valueBcs => rt.dfAdd H key valueTag valueBcs
  | .dfRemove key valueTag => rt.dfRemove key valueTag
  | .dfBorrow key valueTag => do
    let _ ← rt.dfExisting key valueTag [.read, .mutate, .create, .delete]
    pure rt
  | .dfBorrowMut key valueTag => rt.dfBorrowMut key valueTag

/-- The native calls of a run of the VM, in order. -/
def natives (rt : SetuObjectRuntime) (calls : List NativeCall) :
    Except NativeError SetuObjectRuntime :=
  calls.foldlM (fun rt call ↦ rt.native H call) rt

variable {H}

/-- The loaded objects, the recorded mutations and the transaction stay as they are. -/
structure Preserved (rt rt' : SetuObjectRuntime) : Prop where
  inputObjects : rt'.inputObjects = rt.inputObjects
  mutated : rt'.mutated = rt.mutated
  txHash : rt'.txHash = rt.txHash

theorem Preserved.refl (rt : SetuObjectRuntime) : Preserved rt rt := ⟨rfl, rfl, rfl⟩

theorem Preserved.trans {a b c : SetuObjectRuntime} (h : Preserved a b) (h' : Preserved b c) :
    Preserved a c :=
  ⟨h'.inputObjects.trans h.inputObjects, h'.mutated.trans h.mutated, h'.txHash.trans h.txHash⟩

private theorem preserved_setDfValue (rt : SetuObjectRuntime) (key : DfCacheKey)
    (value : Option Bytes) : Preserved rt (rt.setDfValue key value) := by
  unfold setDfValue
  split <;> exact ⟨rfl, rfl, rfl⟩

private theorem preserved_recordDfDelete (rt : SetuObjectRuntime) (dfOid : ObjectId)
    (effect : DfDeleteEffect) : Preserved rt (rt.recordDfDelete dfOid effect) := by
  unfold recordDfDelete
  split <;> exact ⟨rfl, rfl, rfl⟩

variable {rt rt' : SetuObjectRuntime}

private theorem preserved_dfAdd {key : DfCacheKey} {valueTag : String} {valueBcs : Bytes}
    (h : rt.dfAdd H key valueTag valueBcs = .ok rt') : Preserved rt rt' := by
  simp only [dfAdd, bind_eq_ok] at h
  obtain ⟨_, -, entry, -, _, -, _, -, _, -, _, -, h⟩ := h
  split at h
  · simp only [bind_eq_ok, pure_eq_ok] at h
    obtain ⟨prior, -, rfl⟩ := h
    refine .trans ?_ (preserved_setDfValue _ _ _)
    exact ⟨rfl, rfl, rfl⟩
  · cases h
    refine .trans ?_ (preserved_setDfValue _ _ _)
    exact ⟨rfl, rfl, rfl⟩

/-- A native call preserves them. -/
theorem preserved_native {call : NativeCall} (h : rt.native H call = .ok rt')
    : Preserved rt rt' := by
  cases call with
  | newUid | emit =>
    cases h
    exact ⟨rfl, rfl, rfl⟩
  | deleteUid id =>
    cases h
    unfold deleteUid
    split <;> exact ⟨rfl, rfl, rfl⟩
  | transfer | share | freeze =>
    simp only [native, bind_eq_ok, pure_eq_ok] at h
    obtain ⟨id, -, rfl⟩ := h
    exact ⟨rfl, rfl, rfl⟩
  | dfAdd key valueTag valueBcs => exact preserved_dfAdd h
  | dfRemove key valueTag =>
    simp only [native, dfRemove, bind_eq_ok, pure_eq_ok] at h
    obtain ⟨found, -, rfl⟩ := h
    exact (preserved_recordDfDelete _ _ _).trans (preserved_setDfValue _ _ _)
  | dfBorrow key valueTag =>
    simp only [native, bind_eq_ok, pure_eq_ok] at h
    obtain ⟨found, -, rfl⟩ := h
    exact .refl _
  | dfBorrowMut key valueTag =>
    simp only [native, dfBorrowMut, bind_eq_ok, pure_eq_ok] at h
    obtain ⟨found, -, rfl⟩ := h
    exact ⟨rfl, rfl, rfl⟩

/-- A run of native calls preserves them. -/
theorem preserved_natives {calls : List NativeCall} (h : rt.natives H calls = .ok rt')
    : Preserved rt rt' :=
  foldlM_ok_induction (Preserved rt) h (.refl rt) fun _ _ _ _ hs hk ↦ hk.trans (preserved_native hs)

/-- Nothing but dynamic fields has changed. -/
def FieldsOnly (rt rt' : SetuObjectRuntime) : Prop :=
  rt' = { rt with
    dfCache := rt'.dfCache
    dfCreated := rt'.dfCreated
    dfMutated := rt'.dfMutated
    dfDeleted := rt'.dfDeleted }

theorem FieldsOnly.trans {a b c : SetuObjectRuntime} (h : FieldsOnly a b) (h' : FieldsOnly b c) :
    FieldsOnly a c := by
  unfold FieldsOnly at h h' ⊢
  rw [h', h]

private theorem fieldsOnly_setDfValue (rt : SetuObjectRuntime) (key : DfCacheKey)
    (value : Option Bytes) : FieldsOnly rt (rt.setDfValue key value) := by
  unfold setDfValue
  split <;> rfl

private theorem fieldsOnly_recordDfDelete (rt : SetuObjectRuntime) (dfOid : ObjectId)
    (effect : DfDeleteEffect) : FieldsOnly rt (rt.recordDfDelete dfOid effect) := by
  unfold recordDfDelete
  split <;> rfl

private theorem fieldsOnly_dfAdd {key : DfCacheKey} {valueTag : String} {valueBcs : Bytes}
    (h : rt.dfAdd H key valueTag valueBcs = .ok rt') : FieldsOnly rt rt' := by
  simp only [dfAdd, bind_eq_ok] at h
  obtain ⟨_, -, entry, -, _, -, _, -, _, -, _, -, h⟩ := h
  split at h
  · simp only [bind_eq_ok, pure_eq_ok] at h
    obtain ⟨prior, -, rfl⟩ := h
    refine .trans ?_ (fieldsOnly_setDfValue _ _ _)
    rfl
  · cases h
    refine .trans ?_ (fieldsOnly_setDfValue _ _ _)
    rfl

/-- A native call on dynamic fields changes nothing else. -/
theorem fieldsOnly_native {call : NativeCall} (h : rt.native H call = .ok rt')
    (hf : call.isField = true) : FieldsOnly rt rt' := by
  cases call with
  | newUid | deleteUid | transfer | share | freeze | emit => cases hf
  | dfAdd key valueTag valueBcs => exact fieldsOnly_dfAdd h
  | dfRemove key valueTag =>
    simp only [native, dfRemove, bind_eq_ok, pure_eq_ok] at h
    obtain ⟨found, -, rfl⟩ := h
    exact (fieldsOnly_recordDfDelete _ _ _).trans (fieldsOnly_setDfValue _ _ _)
  | dfBorrow key valueTag =>
    simp only [native, bind_eq_ok, pure_eq_ok] at h
    obtain ⟨found, -, rfl⟩ := h
    rfl
  | dfBorrowMut key valueTag =>
    simp only [native, dfBorrowMut, bind_eq_ok, pure_eq_ok] at h
    obtain ⟨found, -, rfl⟩ := h
    rfl

end SetuObjectRuntime

end Setu.Move
