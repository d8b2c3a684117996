import Setu.Base.Exec
import Setu.Runtime.Conservation

/-!
# Coin operations as they write the store

Library `Runtime`. The operations of the local runtime with every write where the source makes it,
so that the store after a failure is known as well. A transfer and a split check everything before
their first write and do the same as their all-or-nothing forms; a merge deletes each source before
it looks at the next one. Source `crates/setu-runtime/src/executor.rs`.
-/

namespace Setu.Runtime.InPlace

open Setu.Base Setu.Types Exec

/-- A runtime with its store of coins and the counter of new coins; `StateStore`,
`state.rs:41-66`, and `next_output_index`, `executor.rs:78-84`. -/
class StateStore (R : Type) where
  getObject : R → ObjectId → Option Coin
  setObject : R → ObjectId → Coin → R
  deleteObject : R → ObjectId → R
  nextOutputIndex : R → Nat × R

/-- The store that keeps coins as they are; `InMemoryStateStore`, `state.rs:69-179`. -/
instance : StateStore RuntimeExecutor where
  getObject rt id := rt.state.lookup id
  setObject rt id coin := { rt with state := rt.state.insert id coin }
  deleteObject rt id := { rt with state := rt.state.erase id }
  nextOutputIndex rt := (rt.outputCounter, { rt with outputCounter := rt.outputCounter + 1 })

variable {R : Type} [StateStore R]

/-- A method of a runtime. -/
abbrev Run (R : Type) := Exec R RuntimeError

/-- `get_object` of a coin that must be there. -/
def getObject (id : ObjectId) : Run R Coin := fun r ↦
  (okOr (StateStore.getObject r id) (.objectNotFound id), r)

/-- `set_object`. -/
def setObject (id : ObjectId) (coin : Coin) : Run R PUnit :=
  write fun r ↦ StateStore.setObject r id coin

/-- `delete_object`. -/
def deleteObject (id : ObjectId) : Run R PUnit :=
  write fun r ↦ StateStore.deleteObject r id

variable {D : Type} (H : Blake3 D)

/-- `executor.rs:87-89`. -/
def newCoinId (ctx : ExecutionContext) : Run R ObjectId := fun r ↦
  let (index, r) := StateStore.nextOutputIndex r
  (.ok (coinIdFromTx H ctx.txHash index), r)

/-- A transfer of the whole coin, `executor.rs:337-353`. -/
def fullTransfer (message : String) (coin : Coin) (coinId : ObjectId) (recipient : Address) :
    Run R ExecutionOutput := do
  let moved := coin.transferTo recipient
  setObject coinId moved
  pure ⟨message,
    [⟨.update, coinId, some coin.toCoinStateBytes, some moved.toCoinStateBytes⟩], [], []⟩

/-- A transfer of a part of the coin, `executor.rs:354-397`. -/
def partialTransfer (ctx : ExecutionContext) (message : String) (coin : Coin) (coinId : ObjectId)
    (recipient : Address) (amount : UInt64) : Run R ExecutionOutput := do
  let reduced ← check ((coin.withdraw amount).mapError .invalidTransaction)
  let kept := reduced.incrementVersion
  setObject coinId kept
  let newId ← newCoinId H ctx
  let newCoin := createCoinWithId newId recipient amount coin.coinType ctx.timestamp
  setObject newId newCoin
  pure ⟨message,
    [⟨.update, coinId, some coin.toCoinStateBytes, some kept.toCoinStateBytes⟩,
      ⟨.create, newId, none, some newCoin.toCoinStateBytes⟩], [newId], []⟩

/-- `executor.rs:275-411`. -/
def executeTransfer (ctx : ExecutionContext) (sender : Address) (coinId : ObjectId)
    (recipient : Address) (amount : Option UInt64) : Run R ExecutionOutput := do
  let coin ← getObject coinId
  check (require coin.isOwned (.invalidTransaction
    s!"Coin {objectIdText coinId} is not an owned object — cannot transfer"))
  let owner ← check (okOr coin.owner (.invalidOwnership coinId sender.toText))
  check (require (owner == sender) (.invalidOwnership coinId sender.toText))
  check (require (amount != some 0) (.invalidTransaction "Transfer amount must be > 0"))
  let message := s!"Transfer completed: {sender.toText} -> {recipient.toText}"
  match amount with
  | none => fullTransfer message coin coinId recipient
  | some amount =>
    if amount = coin.balance then fullTransfer message coin coinId recipient
    else partialTransfer H ctx message coin coinId recipient amount

/-- `executor.rs:495-530`. -/
def executeTransferWithCoin (ctx : ExecutionContext) (coinId : ObjectId)
    (sender recipient : String) (amount : Option UInt64) : Run R ExecutionOutput := do
  let senderAddr ← check (okOr (Address.fromHex sender) (.invalidAddress sender))
  let recipientAddr ← check (okOr (Address.fromHex recipient) (.invalidAddress recipient))
  executeTransfer H ctx senderAddr coinId recipientAddr amount

/-- What the merge loop keeps outside of the store. -/
structure MergeProgress where
  target : Coin
  stateChanges : List StateChange
  deletedObjects : List ObjectId

/-- One turn of the merge loop, `executor.rs:1046-1079`. -/
def mergeSource (owner : Address) (targetCoinType : String) (progress : MergeProgress)
    (sourceId : ObjectId) : Run R MergeProgress := do
  let source ← getObject sourceId
  let sourceOwner ← check (okOr source.owner (.invalidOwnership sourceId owner.toText))
  check (require (sourceOwner == owner) (.invalidTransaction
    s!"Source coin {objectIdText sourceId} not owned by {owner.toText}"))
  check (require (source.coinType == targetCoinType) (.invalidTransaction
    s!"Coin type mismatch: target={targetCoinType}, source={source.coinType}"))
  let target ← check ((progress.target.deposit source.balance).mapError .invalidTransaction)
  deleteObject sourceId
  pure
    { target := target
      stateChanges := progress.stateChanges ++
        [⟨.delete, sourceId, some source.toCoinStateBytes, none⟩]
      deletedObjects := progress.deletedObjects ++ [sourceId] }

/-- The checks before the merge loop, `executor.rs:994-1040`, with the target. -/
def mergeTarget (get : ObjectId → Option Coin) (owner : Address) (targetCoinId : ObjectId)
    (sourceCoinIds : List ObjectId) : Except RuntimeError Coin := do
  require (!sourceCoinIds.isEmpty) (.invalidTransaction
    "Must provide at least one source coin to merge")
  require (decide (sourceCoinIds.length ≤ RuntimeExecutor.maxMergeSources)) (.invalidTransaction
    s!"Too many source coins: {sourceCoinIds.length} (max {RuntimeExecutor.maxMergeSources})")
  require (!sourceCoinIds.contains targetCoinId) (.invalidTransaction
    s!"Target coin {objectIdText targetCoinId} cannot also be a source")
  let duplicate := RuntimeExecutor.firstDuplicate [] sourceCoinIds
  require duplicate.isNone (.invalidTransaction
    ("Duplicate source coin: " ++ (duplicate.map objectIdText).getD ""))
  let target ← okOr (get targetCoinId) (.objectNotFound targetCoinId)
  let targetOwner ← okOr target.owner (.invalidOwnership targetCoinId owner.toText)
  require (targetOwner == owner) (.invalidOwnership targetCoinId owner.toText)
  pure target

/-- `executor.rs:987-1105`. -/
def executeMergeCoins (owner : Address) (targetCoinId : ObjectId)
    (sourceCoinIds : List ObjectId) : Run R ExecutionOutput := do
  let r ← read
  let target ← check (mergeTarget (StateStore.getObject r) owner targetCoinId sourceCoinIds)
  let merged ← sourceCoinIds.foldlM (mergeSource owner target.coinType) ⟨target, [], []⟩
  let updated := merged.target.incrementVersion
  setObject targetCoinId updated
  pure ⟨s!"Merged {sourceCoinIds.length} coins",
    ⟨.update, targetCoinId, some target.toCoinStateBytes, some updated.toCoinStateBytes⟩ ::
      merged.stateChanges, [], merged.deletedObjects⟩

/-- What the split loop keeps outside of the store. -/
structure SplitProgress where
  source : Coin
  stateChanges : List StateChange
  createdObjects : List ObjectId

/-- One turn of the split loop, `executor.rs:1170-1193`: the new coin is stored before its amount
is withdrawn. -/
def splitAmount (ctx : ExecutionContext) (owner : Address) (progress : SplitProgress)
    (amount : UInt64) : Run R SplitProgress := do
  let newId ← newCoinId H ctx
  let newCoin := createCoinWithId newId owner amount progress.source.coinType ctx.timestamp
  setObject newId newCoin
  let source ← check ((progress.source.withdraw amount).mapError .invalidTransaction)
  pure
    { source := source
      stateChanges := progress.stateChanges ++
        [⟨.create, newId, none, some newCoin.toCoinStateBytes⟩]
      createdObjects := progress.createdObjects ++ [newId] }

/-- The end of a split, `executor.rs:1196-1231`. -/
def finishSplit (count : Nat) (sourceCoinId : ObjectId) (source : Coin) (total : UInt64)
    (split : SplitProgress) : Run R ExecutionOutput :=
  if source.balance = total then do
    deleteObject sourceCoinId
    pure ⟨s!"Split into {count} coins (source deleted)",
      ⟨.delete, sourceCoinId, some source.toCoinStateBytes, none⟩ :: split.stateChanges,
      split.createdObjects, [sourceCoinId]⟩
  else do
    let updated := split.source.incrementVersion
    setObject sourceCoinId updated
    pure ⟨s!"Split into {count} coins",
      ⟨.update, sourceCoinId, some source.toCoinStateBytes, some updated.toCoinStateBytes⟩ ::
        split.stateChanges, split.createdObjects, []⟩

/-- `executor.rs:1112-1235`. -/
def executeSplitCoin (ctx : ExecutionContext) (owner : Address) (sourceCoinId : ObjectId)
    (amounts : List UInt64) : Run R ExecutionOutput := do
  check (require (!amounts.isEmpty) (.invalidTransaction "Split amounts cannot be empty"))
  check (require (!amounts.contains 0) (.invalidTransaction
    "Split amount must be > 0 (zero-balance coins are not allowed)"))
  check (require (decide (amounts.length ≤ RuntimeExecutor.maxSplitOutputs))
    (.invalidTransaction
      s!"Too many split outputs: {amounts.length} (max {RuntimeExecutor.maxSplitOutputs})"))
  let source ← getObject sourceCoinId
  let sourceOwner ← check (okOr source.owner (.invalidOwnership sourceCoinId owner.toText))
  check (require (sourceOwner == owner) (.invalidOwnership sourceCoinId owner.toText))
  let total ← check (okOr (RuntimeExecutor.totalSplit amounts)
    (.invalidTransaction "Split amounts overflow u64"))
  check (require (decide (total ≤ source.balance))
    (.insufficientBalance owner.toText total source.balance))
  let split ← amounts.foldlM (splitAmount H ctx owner) ⟨source, [], []⟩
  finishSplit amounts.length sourceCoinId source total split

/-- The merge of all coins into the largest and the transfer from it, `executor.rs:602-628`. The
source panics on the index when there is no coin. -/
def mergeAndTransfer (ctx : ExecutionContext) (sender recipient : Address) (amount : UInt64)
    (coins : List (ObjectId × Coin)) : Run RuntimeExecutor ExecutionOutput :=
  match sortOn (fun c ↦ OrderDual.toDual c.2.balance.toNat) coins with
  | [] => check (.error
      (.invalidTransaction "index out of bounds: the len is 0 but the index is 0"))
  | (targetId, _) :: rest => do
    let sourceIds := rest.map Prod.fst
    let merged ← executeMergeCoins sender targetId sourceIds
    let transferred ← executeTransfer H ctx sender targetId recipient (some amount)
    pure ⟨s!"Auto-merged {sourceIds.length + 1} coins, then transferred {amount} to " ++
        recipient.toText,
      merged.stateChanges ++ transferred.stateChanges,
      merged.createdObjects ++ transferred.createdObjects,
      merged.deletedObjects ++ transferred.deletedObjects⟩

/-- `executor.rs:552-637`. -/
def executeSimpleTransfer (getOwnedObjects : Address → List ObjectId) (ctx : ExecutionContext)
    (inTee : Bool) (sender recipient : String) (amount : UInt64) (coinType : Option String) :
    Run RuntimeExecutor ExecutionOutput := do
  check (require (!inTee) (.invalidTransaction
    ("execute_simple_transfer must not be called in TEE path — " ++
      "use execute_transfer_with_coin with pre-selected coin_id")))
  let senderAddr ← check (okOr (Address.fromHex sender) (.invalidAddress sender))
  let recipientAddr ← check (okOr (Address.fromHex recipient) (.invalidAddress recipient))
  let rt ← read
  let coins := RuntimeExecutor.coinsOfType rt.state (getOwnedObjects senderAddr)
    (coinType.getD "ROOT")
  let total ← check (okOr (RuntimeExecutor.totalBalance coins)
    (.invalidTransaction "Total balance overflow"))
  check (require (decide (amount ≤ total))
    (.insufficientBalance senderAddr.toText amount total))
  let ascending := sortOn (fun c ↦ c.2.balance.toNat) coins
  match ascending.find? fun c ↦ decide (amount ≤ c.2.balance) with
  | some (coinId, _) => executeTransfer H ctx senderAddr coinId recipientAddr (some amount)
  | none => mergeAndTransfer H ctx senderAddr recipientAddr amount ascending

variable (rt : RuntimeExecutor) (ctx : ExecutionContext)

theorem executeTransfer_eq (sender : Address) (coinId : ObjectId) (recipient : Address)
    (amount : Option UInt64) :
    executeTransfer H ctx sender coinId recipient amount rt =
      atomically rt (rt.executeTransfer H ctx sender coinId recipient amount) := by
  refine check_bind_eq_atomically fun coin _ ↦ ?_
  refine check_bind_eq_atomically fun _ _ ↦ ?_
  refine check_bind_eq_atomically fun owner _ ↦ ?_
  refine check_bind_eq_atomically fun _ _ ↦ ?_
  refine check_bind_eq_atomically fun _ _ ↦ ?_
  cases amount with
  | none => rfl
  | some amount =>
    dsimp only
    split
    · rfl
    · exact check_bind_eq_atomically fun reduced _ ↦ rfl

theorem executeTransferWithCoin_eq (coinId : ObjectId) (sender recipient : String)
    (amount : Option UInt64) :
    executeTransferWithCoin H ctx coinId sender recipient amount rt =
      atomically rt (rt.executeTransferWithCoin H ctx coinId sender recipient amount) := by
  refine check_bind_eq_atomically fun senderAddr _ ↦ ?_
  exact check_bind_eq_atomically fun recipientAddr _ ↦ executeTransfer_eq _ _ _ _ _ _ _

/-- What the in-place loop keeps of the progress of the all-or-nothing one. -/
private def keptOf (progress : RuntimeExecutor.SplitProgress) : SplitProgress :=
  ⟨progress.source, progress.stateChanges, progress.createdObjects⟩

private theorem splitAmount_eq (owner : Address) {progress : RuntimeExecutor.SplitProgress}
    {amount : UInt64} (h : amount ≤ progress.source.balance) :
    ∃ next, RuntimeExecutor.splitAmount H ctx owner progress amount = .ok next ∧
      splitAmount H ctx owner (keptOf progress) amount progress.executor =
        (.ok (keptOf next), next.executor) ∧
      next.source.balance = progress.source.balance - amount := by
  have hw : progress.source.withdraw amount =
      .ok { progress.source with balance := progress.source.balance - amount } := by
    rw [Coin.withdraw, if_neg (UInt64.not_lt.mpr h)]
  cases hn : RuntimeExecutor.splitAmount H ctx owner progress amount with
  | error e =>
    rw [RuntimeExecutor.splitAmount, hw] at hn
    cases hn
  | ok next =>
    rw [RuntimeExecutor.splitAmount, hw] at hn
    cases hn
    refine ⟨_, rfl, ?_, rfl⟩
    unfold splitAmount keptOf
    rw [hw]
    rfl

private theorem splitLoop_eq (owner : Address) {amounts : List UInt64}
    {progress : RuntimeExecutor.SplitProgress}
    (h : (amounts.map UInt64.toNat).sum ≤ progress.source.balance.toNat) :
    ∃ split, amounts.foldlM (RuntimeExecutor.splitAmount H ctx owner) progress = .ok split ∧
      amounts.foldlM (splitAmount H ctx owner) (keptOf progress) progress.executor =
        (.ok (keptOf split), split.executor) := by
  induction amounts generalizing progress with
  | nil => exact ⟨_, rfl, rfl⟩
  | cons amount rest ih =>
    rw [List.map_cons, List.sum_cons] at h
    have hle : amount ≤ progress.source.balance := UInt64.le_iff_toNat_le.mpr (by omega)
    obtain ⟨next, hn, hi, hb⟩ := splitAmount_eq H ctx owner hle
    have hr : (rest.map UInt64.toNat).sum ≤ next.source.balance.toNat := by
      rw [hb, UInt64.toNat_sub_of_le _ _ hle]
      omega
    obtain ⟨split, hs, hl⟩ := ih hr
    refine ⟨split, ?_, ?_⟩
    · rw [List.foldlM_cons, hn]
      exact hs
    · rw [List.foldlM_cons, bind_of_ok hi]
      exact hl

theorem executeSplitCoin_eq (owner : Address) (sourceCoinId : ObjectId) (amounts : List UInt64) :
    executeSplitCoin H ctx owner sourceCoinId amounts rt =
      atomically rt (rt.executeSplitCoin H ctx owner sourceCoinId amounts) := by
  refine check_bind_eq_atomically fun _ _ ↦ ?_
  refine check_bind_eq_atomically fun _ _ ↦ ?_
  refine check_bind_eq_atomically fun _ _ ↦ ?_
  refine check_bind_eq_atomically fun source _ ↦ ?_
  refine check_bind_eq_atomically fun sourceOwner _ ↦ ?_
  refine check_bind_eq_atomically fun _ _ ↦ ?_
  refine check_bind_eq_atomically fun total ht ↦ ?_
  refine check_bind_eq_atomically fun _ hc ↦ ?_
  have hs : (amounts.map UInt64.toNat).sum ≤ source.balance.toNat := by
    rw [okOr_eq_ok] at ht
    rwa [require_eq_ok, decide_eq_true_eq, UInt64.le_iff_toNat_le, toNat_totalSplit ht] at hc
  obtain ⟨split, hsp, hl⟩ : ∃ split,
      amounts.foldlM (RuntimeExecutor.splitAmount H ctx owner) ⟨rt, source, [], []⟩ = .ok split ∧
      amounts.foldlM (splitAmount H ctx owner) ⟨source, [], []⟩ rt =
        (.ok (keptOf split), split.executor) := splitLoop_eq H ctx owner hs
  rw [hsp]
  refine (bind_of_ok hl).trans ?_
  unfold finishSplit
  change _ = atomically rt (if source.balance = total then _ else _)
  split
  · rfl
  · rfl

/-- The progress of the all-or-nothing loop, the store next to what the loop keeps. -/
private def unpack (outputCounter : Nat) (progress : RuntimeExecutor.MergeProgress) :
    MergeProgress × RuntimeExecutor :=
  (⟨progress.target, progress.stateChanges, progress.deletedObjects⟩,
    ⟨progress.state, outputCounter⟩)

/-- One turn of the merge loop is all or nothing. -/
theorem mergeSource_eq (owner : Address) (coinType : String) (progress : MergeProgress)
    (sourceId : ObjectId) :
    mergeSource owner coinType progress sourceId rt =
      atomically rt (RuntimeExecutor.mergeSource owner coinType
        ⟨rt.state, progress.target, progress.stateChanges, progress.deletedObjects⟩ sourceId >>=
          fun next ↦ pure (unpack rt.outputCounter next)) := by
  simp only [RuntimeExecutor.mergeSource, bind_assoc]
  refine check_bind_eq_atomically fun source _ ↦ ?_
  refine check_bind_eq_atomically fun sourceOwner _ ↦ ?_
  refine check_bind_eq_atomically fun _ _ ↦ ?_
  refine check_bind_eq_atomically fun _ _ ↦ ?_
  exact check_bind_eq_atomically fun target _ ↦ rfl

private theorem follows_mergeLoop (owner : Address) (coinType : String) (ids : List ObjectId)
    (progress : MergeProgress) :
    (ids.foldlM (mergeSource owner coinType) progress).Follows rt
      (ids.foldlM (RuntimeExecutor.mergeSource owner coinType)
        ⟨rt.state, progress.target, progress.stateChanges, progress.deletedObjects⟩ >>=
          fun next ↦ pure (unpack rt.outputCounter next)) := by
  induction ids generalizing progress rt with
  | nil => exact follows_pure _ _
  | cons id rest ih =>
    rw [List.foldlM_cons, List.foldlM_cons, bind_assoc]
    have ht := follows_of_eq_atomically (mergeSource_eq rt owner coinType progress id)
    exact ht.bind_pack fun next _ ↦ ih _ _

/-- The checks of a merge in front of its loop. -/
theorem executeMergeCoins_eq (owner : Address) (targetCoinId : ObjectId)
    (sourceCoinIds : List ObjectId) :
    rt.executeMergeCoins owner targetCoinId sourceCoinIds =
      mergeTarget (StateStore.getObject rt) owner targetCoinId sourceCoinIds >>= fun target ↦
        sourceCoinIds.foldlM (RuntimeExecutor.mergeSource owner target.coinType)
          ⟨rt.state, target, [], []⟩ >>= fun merged ↦ pure
            (⟨s!"Merged {sourceCoinIds.length} coins",
              ⟨.update, targetCoinId, some target.toCoinStateBytes,
                some merged.target.incrementVersion.toCoinStateBytes⟩ :: merged.stateChanges, [],
              merged.deletedObjects⟩,
              { rt with
                state := merged.state.insert targetCoinId merged.target.incrementVersion }) := by
  simp only [mergeTarget, bind_assoc, pure_bind]
  rfl

/-- A merge in place succeeds exactly if its all-or-nothing form does, with the same store. -/
theorem follows_executeMergeCoins (owner : Address) (targetCoinId : ObjectId)
    (sourceCoinIds : List ObjectId) :
    (executeMergeCoins owner targetCoinId sourceCoinIds).Follows rt
      (rt.executeMergeCoins owner targetCoinId sourceCoinIds) := by
  rw [executeMergeCoins_eq]
  refine follows_check_bind fun target _ ↦ ?_
  exact (follows_mergeLoop _ _ _ _ _).bind_pack fun merged _ ↦ rfl

private theorem follows_mergeAndTransfer (sender recipient : Address) (amount : UInt64)
    (coins : List (ObjectId × Coin)) :
    (mergeAndTransfer H ctx sender recipient amount coins).Follows rt
      (rt.mergeAndTransfer H ctx sender recipient amount coins) := by
  unfold mergeAndTransfer RuntimeExecutor.mergeAndTransfer
  cases sortOn (fun c : ObjectId × Coin ↦ OrderDual.toDual c.2.balance.toNat) coins with
  | nil => exact ⟨rt, rfl⟩
  | cons c rest =>
    refine (follows_executeMergeCoins _ _ _ _).bind fun merged rt' _ ↦ ?_
    exact (follows_of_eq_atomically (executeTransfer_eq _ _ _ _ _ _ _)).bind fun _ _ _ ↦ rfl

theorem follows_executeSimpleTransfer (getOwnedObjects : Address → List ObjectId) (inTee : Bool)
    (sender recipient : String) (amount : UInt64) (coinType : Option String) :
    (executeSimpleTransfer H getOwnedObjects ctx inTee sender recipient amount coinType).Follows rt
      (rt.executeSimpleTransfer H getOwnedObjects ctx inTee sender recipient amount coinType) := by
  refine follows_check_bind fun _ _ ↦ ?_
  refine follows_check_bind fun senderAddr _ ↦ ?_
  refine follows_check_bind fun recipientAddr _ ↦ ?_
  refine follows_check_bind fun total _ ↦ ?_
  refine follows_check_bind fun _ _ ↦ ?_
  dsimp only
  cases (sortOn (fun c ↦ c.2.balance.toNat) (RuntimeExecutor.coinsOfType rt.state
      (getOwnedObjects senderAddr) (coinType.getD "ROOT"))).find? fun c ↦
        decide (amount ≤ c.2.balance) with
  | some c => exact follows_of_eq_atomically (executeTransfer_eq _ _ _ _ _ _ _)
  | none => exact follows_mergeAndTransfer _ _ _ _ _ _ _

end Setu.Runtime.InPlace
