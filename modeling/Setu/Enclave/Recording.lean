import Setu.Enclave.TaskExecution

/-!
# What a successful coin event records

Library `Enclave`. A transfer records the coin it takes from and at most one new coin. A merge
records its target and each of its sources, with the values it found, and a transfer after it finds
the target as the merge left it. Sources `crates/setu-runtime/src/executor.rs` and
`crates/setu-enclave/src/mock/mod.rs`.
-/

namespace Setu.Enclave

open Setu.Base Setu.Types Setu.Runtime
open InPlace.StateStore (getObject)

variable {D : Type} {H : Blake3 D} {rt rt' : LocalRuntime H} {ctx : ExecutionContext}
  {coinId : ObjectId}

variable {coin : Types.Coin}

/-- A coin that the runtime finds comes from an entry of the read set. -/
theorem exists_entry_of_getObject {texts : Move.LibraryTexts} {readSet : List ReadSetEntry}
    {store : InMemoryObjectStore} {index : Nat}
    (hs : InMemoryObjectStore.ofReadSets H texts readSet [] = .ok store)
    (hk : ∀ entry ∈ readSet, ∃ id, entry.key = objectKey id)
    (hg : getObject (⟨store, index⟩ : LocalRuntime H) coinId = some coin) :
    ∃ value env, ⟨objectKey coinId, value⟩ ∈ readSet ∧
      objectEntry H texts coinId (hexEncode coinId.asBytes) value = .ok (some env) ∧
      tryAsCoinObject env = some coin := by
  obtain ⟨env, he, hc⟩ := Option.bind_eq_some_iff.mp hg
  have hb : buildObjectStore H texts readSet [] = .ok store.toLocalStore := by
    rw [buildObjectStore_eq_map, hs]
    rfl
  obtain ⟨⟨key, value⟩, hm, hen⟩ := exists_entry_of_buildObjectStore hb (congrArg Except.ok he)
  obtain ⟨id, rfl⟩ : ∃ id, key = objectKey id := hk _ hm
  obtain ⟨rfl, ho⟩ := storeEntry_objectKey hen
  exact ⟨value, env, hm, ho, hc⟩

private theorem take_toBytes_ne (owner : Address) (balance version : UInt64) (coinType : String) :
    (CoinState.mk owner.toText balance version coinType).toBytes.take 2 ≠ [0x53, 0x45] := by
  have ht : ∃ rest, strBytes owner.toText = 0x30 :: rest := by
    rw [Address.toText, strBytes_append]
    exact ⟨_, rfl⟩
  obtain ⟨rest, ht⟩ := ht
  rw [CoinState.toBytes, bcsString, bcsVec, ht, uleb128, ulebLoop]
  by_cases hs : (0x30 :: rest).length < 128
  · rw [if_pos hs]
    simp
  · rw [if_neg hs]
    intro heq
    have hb : UInt8.ofNat ((0x30 :: rest).length % 128 + 128) = 0x53 := by
      simpa using congrArg List.head? heq
    have hn := congrArg UInt8.toNat hb
    rw [UInt8.toNat_ofNat'] at hn
    have hr : (0x53 : UInt8).toNat = 83 := rfl
    omega

private theorem fromLegacyCoinState_eq (owner : Address) (balance version : UInt64)
    (coinType : String) :
    fromLegacyCoinState H coinId ⟨owner.toText, balance, version, coinType⟩ =
      fromCoinObject H ⟨coinId, version, .ownedObject, some owner, .addressOwner owner, 0, 0,
        coinType, balance⟩ := by
  have hn : Address.normalize H owner.toText = owner := by
    rw [Address.normalize, Address.fromHex_toText, Option.getD_some]
  simp only [fromLegacyCoinState, fromCoinObject, hn, Option.getD_some]

variable {owner recipient : Address} {coinType : String}

/-- The runtime finds a stored coin with the bytes it is stored with. -/
theorem toCoinStateBytes_of_objectEntry {texts : Move.LibraryTexts} {hexId : String}
    {balance version : UInt64} {env : ObjectEnvelope}
    (he : objectEntry H texts coinId hexId (CoinState.mk owner.toText balance version
      coinType).toBytes = .ok (some env)) (hc : tryAsCoinObject env = some coin) :
    coin.toCoinStateBytes = (CoinState.mk owner.toText balance version coinType).toBytes := by
  unfold objectEntry at he
  split at he
  · cases he
  · rw [if_neg (take_toBytes_ne owner balance version coinType)] at he
    split at he
    · cases he
    · simp only [legacyEnvelope, CoinState.fromBytes_toBytes, okOr, bind_eq_ok,
        pure_eq_ok, Option.some.injEq] at he
      obtain ⟨_, ⟨_, heq, rfl⟩, rfl⟩ := he
      cases heq
      rw [fromLegacyCoinState_eq, tryAsCoinObject_fromCoinObject] at hc
      cases hc
      rfl

/-- Nothing, or the new coin of the event. -/
def CreatesCoin (newId : ObjectId) (changes : List Runtime.StateChange) : Prop :=
  changes = [] ∨ ∃ bytes, changes = [⟨.create, newId, none, some bytes⟩]

/-- The changes of a transfer from a coin. -/
def TransferChanges (coinId newId : ObjectId) (coin : Types.Coin)
    (changes : List Runtime.StateChange) : Prop :=
  ∃ left created, changes = ⟨.update, coinId, some coin.toCoinStateBytes, some left⟩ :: created ∧
    CreatesCoin newId created

variable {output : ExecutionOutput}

private theorem transferChanges_fullTransfer {message : String} {newId : ObjectId}
    (h : InPlace.fullTransfer message coin coinId recipient rt = (.ok output, rt')) :
    TransferChanges coinId newId coin output.stateChanges := by
  cases h
  exact ⟨_, [], rfl, .inl rfl⟩

private theorem transferChanges_partialTransfer {message : String} {amount : UInt64}
    (h : InPlace.partialTransfer H ctx message coin coinId recipient amount rt =
      (.ok output, rt')) :
    TransferChanges coinId (coinIdFromTx H ctx.txHash rt.outputCounter) coin
      output.stateChanges := by
  obtain ⟨reduced, -, h⟩ := Exec.check_bind_eq_ok.mp h
  cases h
  exact ⟨_, _, rfl, .inr ⟨_, rfl⟩⟩

theorem transferChanges_executeTransfer {sender : Address} {amount : Option UInt64}
    (h : InPlace.executeTransfer H ctx sender coinId recipient amount rt = (.ok output, rt')) :
    ∃ coin, getObject rt coinId = some coin ∧
      TransferChanges coinId (coinIdFromTx H ctx.txHash rt.outputCounter) coin
        output.stateChanges := by
  obtain ⟨coin, hc, h⟩ := Exec.check_bind_eq_ok.mp h
  obtain ⟨-, -, h⟩ := Exec.check_bind_eq_ok.mp h
  obtain ⟨owner, -, h⟩ := Exec.check_bind_eq_ok.mp h
  obtain ⟨-, -, h⟩ := Exec.check_bind_eq_ok.mp h
  obtain ⟨-, -, h⟩ := Exec.check_bind_eq_ok.mp h
  refine ⟨coin, okOr_eq_ok.mp hc, ?_⟩
  split at h
  · exact transferChanges_fullTransfer h
  · split at h
    · exact transferChanges_fullTransfer h
    · exact transferChanges_partialTransfer h

theorem transferChanges_executeTransferWithCoin {sender recipient : String}
    {amount : Option UInt64}
    (h : InPlace.executeTransferWithCoin H ctx coinId sender recipient amount rt =
      (.ok output, rt')) :
    ∃ coin, getObject rt coinId = some coin ∧
      TransferChanges coinId (coinIdFromTx H ctx.txHash rt.outputCounter) coin
        output.stateChanges := by
  obtain ⟨senderAddr, -, h⟩ := Exec.check_bind_eq_ok.mp h
  obtain ⟨recipientAddr, -, h⟩ := Exec.check_bind_eq_ok.mp h
  exact transferChanges_executeTransfer h

/-- The change that a merge records for a source. -/
def sourceChange (get : ObjectId → Option Types.Coin) (id : ObjectId) : Runtime.StateChange :=
  ⟨.delete, id, (get id).map Types.Coin.toCoinStateBytes, none⟩

variable {progress : InPlace.MergeProgress}

private theorem mergeSource_eq_ok {next : InPlace.MergeProgress} {id : ObjectId}
    (h : InPlace.mergeSource owner coinType progress id rt = (.ok next, rt')) :
    (getObject rt id).isSome ∧
      next.stateChanges = progress.stateChanges ++ [sourceChange (getObject rt) id] ∧
      rt' = InPlace.StateStore.deleteObject rt id := by
  obtain ⟨coin, hc, h⟩ := Exec.check_bind_eq_ok.mp h
  obtain ⟨sourceOwner, -, h⟩ := Exec.check_bind_eq_ok.mp h
  obtain ⟨-, -, h⟩ := Exec.check_bind_eq_ok.mp h
  obtain ⟨-, -, h⟩ := Exec.check_bind_eq_ok.mp h
  obtain ⟨target, -, h⟩ := Exec.check_bind_eq_ok.mp h
  cases h
  rw [okOr_eq_ok] at hc
  rw [sourceChange, hc]
  exact ⟨rfl, rfl, rfl⟩

private theorem mergeLoop_eq_ok {merged : InPlace.MergeProgress} {ids : List ObjectId}
    (hn : ids.Nodup)
    (h : ids.foldlM (InPlace.mergeSource owner coinType) progress rt = (.ok merged, rt')) :
    (∀ id ∈ ids, (getObject rt id).isSome) ∧
      merged.stateChanges = progress.stateChanges ++ ids.map (sourceChange (getObject rt)) ∧
      rt'.outputCounter = rt.outputCounter := by
  induction ids generalizing progress rt with
  | nil =>
    cases h
    exact ⟨List.forall_mem_nil _, (List.append_nil _).symm, rfl⟩
  | cons id rest ih =>
    obtain ⟨hid, hn⟩ := List.nodup_cons.mp hn
    rw [List.foldlM_cons] at h
    obtain ⟨next, mid, ht, hr⟩ := Exec.bind_eq_ok.mp h
    obtain ⟨hs, hne, rfl⟩ := mergeSource_eq_ok ht
    obtain ⟨hf, hc, hco⟩ := ih hn hr
    have hg : ∀ other ∈ rest, getObject (InPlace.StateStore.deleteObject rt id) other =
        getObject rt other := by
      intro other ho
      rw [LawfulStateStore.getObject_deleteObject, Function.update_of_ne]
      rintro rfl
      exact hid ho
    refine ⟨List.forall_mem_cons.mpr ⟨hs, fun other ho ↦ ?_⟩, ?_, hco⟩
    · rw [← hg other ho]
      exact hf other ho
    · rw [hc, hne, List.append_assoc, List.map_cons, List.singleton_append]
      refine congrArg (fun l ↦ progress.stateChanges ++ _ :: l) (List.map_congr_left ?_)
      intro other ho
      rw [sourceChange, sourceChange, hg other ho]

/-- What a merge of the sources into the target records, and what it leaves of the target. -/
structure MergeChanges (rt rt' : LocalRuntime H) (targetId : ObjectId)
    (sourceIds : List ObjectId) (changes : List Runtime.StateChange) : Prop where
  nodup : (targetId :: sourceIds).Nodup
  found : ∀ id ∈ targetId :: sourceIds, (getObject rt id).isSome
  eq : ∃ target left : Types.Coin, getObject rt targetId = some target ∧
    getObject rt' targetId = some left ∧
      changes = ⟨.update, targetId, some target.toCoinStateBytes, some left.toCoinStateBytes⟩ ::
        sourceIds.map (sourceChange (getObject rt))
  outputCounter : rt'.outputCounter = rt.outputCounter

private theorem getObject_setObject (rt : LocalRuntime H) (coinId : ObjectId)
    (ho : coin.owner.isSome) :
    ∃ stored : Types.Coin,
      getObject (InPlace.StateStore.setObject rt coinId coin) coinId = some stored ∧
        stored.toCoinStateBytes = coin.toCoinStateBytes := by
  obtain ⟨owner, ho⟩ := Option.isSome_iff_exists.mp ho
  have hr : getObject (InPlace.StateStore.setObject rt coinId coin) coinId =
      tryAsCoinObject (fromCoinObject H coin) :=
    congrArg (Option.bind · tryAsCoinObject) (AList.lookup_insert rt.store.envelopes)
  rw [hr, tryAsCoinObject_fromCoinObject]
  refine ⟨_, rfl, ?_⟩
  rw [Types.Coin.toCoinStateBytes, Types.Coin.toCoinStateBytes, ho]
  rfl

private theorem owner_mergeLoop {merged : InPlace.MergeProgress} {ids : List ObjectId}
    (h : ids.foldlM (InPlace.mergeSource owner coinType) progress rt = (.ok merged, rt')) :
    merged.target.owner = progress.target.owner := by
  induction ids generalizing progress rt with
  | nil =>
    cases h
    rfl
  | cons id rest ih =>
    rw [List.foldlM_cons] at h
    obtain ⟨next, mid, ht, hr⟩ := Exec.bind_eq_ok.mp h
    rw [ih hr]
    obtain ⟨coin, -, ht⟩ := Exec.check_bind_eq_ok.mp ht
    obtain ⟨sourceOwner, -, ht⟩ := Exec.check_bind_eq_ok.mp ht
    obtain ⟨-, -, ht⟩ := Exec.check_bind_eq_ok.mp ht
    obtain ⟨-, -, ht⟩ := Exec.check_bind_eq_ok.mp ht
    obtain ⟨target, hd, ht⟩ := Exec.check_bind_eq_ok.mp ht
    cases ht
    rw [mapError_eq_ok, Types.Coin.deposit] at hd
    split at hd
    · cases hd
      rfl
    · cases hd

theorem mergeChanges_executeMergeCoins {targetId : ObjectId} {sourceIds : List ObjectId}
    (h : InPlace.executeMergeCoins owner targetId sourceIds rt = (.ok output, rt')) :
    MergeChanges rt rt' targetId sourceIds output.stateChanges := by
  rw [InPlace.executeMergeCoins, Exec.read_bind] at h
  obtain ⟨target, ht, h⟩ := Exec.check_bind_eq_ok.mp h
  have ha := mergeTarget_eq_ok.mp ht
  obtain ⟨merged, mid, hl, he⟩ := Exec.bind_eq_ok.mp h
  cases he
  obtain ⟨hf, hc, hco⟩ := mergeLoop_eq_ok ha.nodup hl
  have ho : merged.target.incrementVersion.owner.isSome := by
    have hk := owner_mergeLoop hl
    rw [show merged.target.incrementVersion.owner = merged.target.owner from rfl, hk]
    exact ha.owned ▸ rfl
  obtain ⟨left, hle, hb⟩ := getObject_setObject mid targetId ho
  have htS : (getObject rt targetId).isSome := ha.found ▸ rfl
  refine ⟨List.nodup_cons.mpr ⟨ha.notSource, ha.nodup⟩,
    List.forall_mem_cons.mpr ⟨htS, hf⟩, ⟨target, left, ha.found, hle, ?_⟩,
    hco⟩
  rw [hb]
  exact congrArg _ hc

/-- What a merge and a transfer from its target record. -/
theorem changes_executeMergeThenTransferEvent {event : TaskEvent} {inputs : ResolvedInputs}
    {targetIndex : Nat} {sourceIndices : List Nat} {amount : UInt64} {targetId : ObjectId}
    {sourceIds : List ObjectId}
    (hop : inputs.operation = .mergeThenTransfer targetIndex sourceIndices recipient
      amount) (ht : inputs.input targetIndex = .ok targetId)
    (hs : sourceIndices.mapM inputs.input = .ok sourceIds)
    (h : executeMergeThenTransferEvent H event inputs rt = (.ok output, rt')) :
    ∃ mid merged transferred left, MergeChanges rt mid targetId sourceIds merged ∧
      getObject mid targetId = some left ∧
      TransferChanges targetId (coinIdFromTx H (deriveTxHash H event.id) rt.outputCounter) left
        transferred ∧ output.stateChanges = merged ++ transferred := by
  rw [executeMergeThenTransferEvent, hop] at h
  obtain ⟨_, heq, h⟩ := Exec.check_bind_eq_ok.mp h
  cases ht.symm.trans heq
  obtain ⟨_, heq, h⟩ := Exec.check_bind_eq_ok.mp h
  cases hs.symm.trans heq
  obtain ⟨owner, _, ho, h⟩ := Exec.bind_eq_ok.mp h
  rw [ownerOf, Exec.read_bind] at ho
  obtain ⟨coin, -, ho⟩ := Exec.check_bind_eq_ok.mp ho
  obtain ⟨-, rfl⟩ := Prod.mk.inj ho
  obtain ⟨merged, mid, hm, h⟩ := Exec.bind_eq_ok.mp h
  obtain ⟨transferred, _, htr, he⟩ := Exec.bind_eq_ok.mp h
  cases he
  have hm := mergeChanges_executeMergeCoins (Exec.mapError_eq_ok.mp hm)
  obtain ⟨left, hl, hc⟩ := transferChanges_executeTransferWithCoin (Exec.mapError_eq_ok.mp htr)
  rw [hm.outputCounter] at hc
  exact ⟨mid, _, _, left, hm, hl, hc, rfl⟩

end Setu.Enclave
