import Setu.Enclave.TaskStore
import Setu.Runtime.Atomicity

/-!
# The local runtime of a task

Library `Enclave`. The coin operations of a task run on the store of the task, which keeps every
object in an envelope and shows coins to the runtime. Sources `crates/setu-runtime/src/state.rs`
and `types/src/envelope.rs`.
-/

namespace Setu.Enclave

open Setu.Base Setu.Types Setu.Runtime Setu.Move

variable {D : Type}

/-- `envelope.rs:66-80`. -/
def fromCoinObject (H : Blake3 D) (coin : Types.Coin) : ObjectEnvelope :=
  .fromMoveResult H coin.id (coin.owner.getD .zero) coin.version coin.ownership
    s!"0x1::coin::Coin<0x1::setu::{coin.coinType}>" (bcsString coin.coinType ++ u64Le coin.balance)

/-- The data of a coin, `types/src/coin.rs`. -/
def readCoinData : Reader (String × UInt64) := do
  let coinType ← readString
  let balance ← readU64
  pure (coinType, balance)

/-- `envelope.rs:101-117`. -/
def tryAsCoinObject (env : ObjectEnvelope) : Option Types.Coin :=
  (readCoinData.parse env.data).map fun data ↦
    { id := env.id
      version := env.version
      objectType := .ownedObject
      owner := some env.owner
      ownership := env.ownership
      createdAt := 0
      updatedAt := 0
      coinType := data.1
      balance := data.2 }

/-- A coin is read back with its owner and its balance. -/
theorem tryAsCoinObject_fromCoinObject (H : Blake3 D) (coin : Types.Coin) :
    tryAsCoinObject (fromCoinObject H coin) =
      some { coin with
        objectType := .ownedObject
        owner := some (coin.owner.getD .zero)
        createdAt := 0
        updatedAt := 0 } := by
  have hb : (readU64 >>= fun balance ↦ pure (coin.coinType, balance)).Reads
      (u64Le coin.balance) (coin.coinType, coin.balance) := (reads_readU64 coin.balance).bind_pure _
  have hd : readCoinData.parse (bcsString coin.coinType ++ u64Le coin.balance) =
      some (coin.coinType, coin.balance) := ((reads_readString coin.coinType).bind hb).parse
  exact congrArg (Option.map _) hd

/-- `state.rs:188-199`, without the index of owners, which no operation of
a task reads. -/
structure InMemoryObjectStore where
  envelopes : HashMap ObjectId ObjectEnvelope
  raw : HashMap String Bytes

/-- The store as the Move engine reads it. -/
def InMemoryObjectStore.toLocalStore (store : InMemoryObjectStore) : LocalStore :=
  ⟨fun id ↦ .ok (store.envelopes.lookup id), fun key ↦ .ok (store.raw.lookup key)⟩

/-- `build_object_store_from_read_set`, `mock/mod.rs:486-626`. -/
def InMemoryObjectStore.ofReadSets (H : Blake3 D) (texts : LibraryTexts)
    (readSet moduleReadSet : List ReadSetEntry) : Except StfError InMemoryObjectStore := do
  let objects ← readSet.mapM (storeEntry H texts)
  pure
    { envelopes := HashMap.insertAll ∅ (objects.filterMap id)
      raw := HashMap.insertAll ∅ ((moduleReadSet.filter fun entry ↦ isModuleKey entry.key).map
        fun entry ↦ (entry.key, entry.value)) }

/-- The engine reads the store of the task. -/
theorem buildObjectStore_eq_map (H : Blake3 D) (texts : LibraryTexts)
    (readSet moduleReadSet : List ReadSetEntry) :
    buildObjectStore H texts readSet moduleReadSet =
      (InMemoryObjectStore.ofReadSets H texts readSet moduleReadSet).map
        InMemoryObjectStore.toLocalStore := by
  unfold buildObjectStore InMemoryObjectStore.ofReadSets
  cases readSet.mapM (storeEntry H texts) with
  | error e => rfl
  | ok objects => rfl

/-- A runtime on the store, with the counter of new coins of the running event. -/
structure LocalRuntime (H : Blake3 D) where
  store : InMemoryObjectStore
  outputCounter : Nat

variable {H : Blake3 D}

/-- The coins of the store, `state.rs:259-290`. -/
instance : InPlace.StateStore (LocalRuntime H) where
  getObject rt id := (rt.store.envelopes.lookup id).bind tryAsCoinObject
  setObject rt id coin := { rt with
    store := { rt.store with envelopes := rt.store.envelopes.insert id (fromCoinObject H coin) } }
  deleteObject rt id := { rt with
    store := { rt.store with envelopes := rt.store.envelopes.erase id } }
  nextOutputIndex rt := (rt.outputCounter, { rt with outputCounter := rt.outputCounter + 1 })

instance : LawfulStateStore (LocalRuntime H) where
  getObject_deleteObject rt id := by
    funext other
    by_cases heq : other = id
    · rw [heq, Function.update_self]
      exact congrArg (Option.bind · tryAsCoinObject) (AList.lookup_erase id rt.store.envelopes)
    · rw [Function.update_of_ne heq]
      exact congrArg (Option.bind · tryAsCoinObject) (AList.lookup_erase_ne heq)
  getObject_setObject rt id coin owner howner _ := by
    have hread : InPlace.StateStore.getObject (InPlace.StateStore.setObject rt id coin) id =
        tryAsCoinObject (fromCoinObject H coin) :=
      congrArg (Option.bind · tryAsCoinObject) (AList.lookup_insert rt.store.envelopes)
    rw [hread, tryAsCoinObject_fromCoinObject, howner]
    exact ⟨_, rfl, rfl, rfl, rfl⟩

end Setu.Enclave
