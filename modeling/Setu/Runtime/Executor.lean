import Setu.Base.Checked
import Setu.Base.HashMap
import Setu.Base.Sort
import Setu.Types.Object

/-!
# Coin operations of the local runtime

Library `Runtime`. Transfer, merge and split over a store of coins, each with the list of state
changes it reports. The store is the coin view of the enclave's object store; the counter of
new coins belongs to the execution context of one event. Source
`crates/setu-runtime/src/executor.rs`.
-/

namespace Setu.Runtime

open Setu.Base Setu.Types

/-- Kinds of state changes, `executor.rs:124-131`. -/
inductive StateChangeType where
  | create | update | delete
  deriving DecidableEq

/-- A change to one object with its serialized states, `executor.rs:112-121`. -/
structure StateChange where
  changeType : StateChangeType
  objectId : ObjectId
  oldState : Option Bytes
  newState : Option Bytes
  deriving DecidableEq

/-- Why an operation is refused, `crates/setu-runtime/src/error.rs:9-82`; the variants that the
modelled operations return. -/
inductive RuntimeError where
  | objectNotFound (id : ObjectId)
  | insufficientBalance (address : String) (required available : UInt64)
  | invalidOwnership (objectId : ObjectId) (address : String)
  | invalidAddress (address : String)
  | invalidTransaction (message : String)
  | vmExecutionError (message : String)
  | ptbArgumentOutOfBounds (message : String)
  | ptbArgumentAlreadyConsumed (message : String)
  | ptbInvalidCoinLayout (message : String)
  | ptbUnsupportedTransferType (message : String)
  | ptbInvalidTypeTag (message : String)
  | outOfGas (used : UInt64)

/-- The `Display` form of an error. -/
def RuntimeError.toText : RuntimeError → String
  | objectNotFound id => s!"Object not found: {objectIdText id}"
  | insufficientBalance address required available =>
    s!"Insufficient balance for {address}: required {required}, available {available}"
  | invalidOwnership objectId address =>
    s!"Invalid ownership: object {objectIdText objectId} is not owned by {address}"
  | invalidAddress address => s!"Invalid address: {address}"
  | invalidTransaction message => s!"Invalid transaction: {message}"
  | vmExecutionError message => s!"Move VM execution error: {message}"
  | ptbArgumentOutOfBounds message => s!"PTB argument out of bounds: {message}"
  | ptbArgumentAlreadyConsumed message => s!"PTB argument already consumed: {message}"
  | ptbInvalidCoinLayout message => s!"PTB invalid coin layout: {message}"
  | ptbUnsupportedTransferType message =>
    s!"PTB unsupported transfer type (B6b is Coin-only): {message}"
  | ptbInvalidTypeTag message => s!"PTB invalid type tag: {message}"
  | outOfGas used => s!"PTB out of gas: used {used}"

/-- What a successful operation reports, `executor.rs:93-108`. -/
structure ExecutionOutput where
  message : String
  stateChanges : List StateChange
  createdObjects : List ObjectId
  deletedObjects : List ObjectId

/-- The part of the execution context that coin operations read, `executor.rs:30-46`. -/
structure ExecutionContext where
  timestamp : UInt64
  txHash : Bytes

/-- The store of coins and the output counter of the running event. -/
structure RuntimeExecutor where
  state : HashMap ObjectId Coin
  outputCounter : Nat

variable {D : Type} (H : Blake3 D)

namespace RuntimeExecutor

variable (rt : RuntimeExecutor)

/-- A transfer of the whole coin, `executor.rs:337-353`. -/
def fullTransfer (coin : Coin) (coinId : ObjectId) (recipient : Address) :
    List StateChange × RuntimeExecutor :=
  let moved := coin.transferTo recipient
  ([⟨.update, coinId, some coin.toCoinStateBytes, some moved.toCoinStateBytes⟩],
    { rt with state := rt.state.insert coinId moved })

variable (ctx : ExecutionContext)

/-- A transfer of a part of the coin into a new one, `executor.rs:354-397`. -/
def partialTransfer (coin reduced : Coin) (coinId : ObjectId) (recipient : Address)
    (amount : UInt64) : List StateChange × List ObjectId × RuntimeExecutor :=
  let kept := reduced.incrementVersion
  let newCoinId := coinIdFromTx H ctx.txHash rt.outputCounter
  let newCoin := createCoinWithId newCoinId recipient amount coin.coinType ctx.timestamp
  ([⟨.update, coinId, some coin.toCoinStateBytes, some kept.toCoinStateBytes⟩,
      ⟨.create, newCoinId, none, some newCoin.toCoinStateBytes⟩],
    [newCoinId],
    { state := (rt.state.insert coinId kept).insert newCoinId newCoin
      outputCounter := rt.outputCounter + 1 })

/-- `executor.rs:275-411`. -/
def executeTransfer (sender : Address) (coinId : ObjectId) (recipient : Address)
    (amount : Option UInt64) :
    Except RuntimeError (ExecutionOutput × RuntimeExecutor) := do
  let coin ← okOr (rt.state.lookup coinId) (.objectNotFound coinId)
  require coin.isOwned (.invalidTransaction
    s!"Coin {objectIdText coinId} is not an owned object — cannot transfer")
  let owner ← okOr coin.owner (.invalidOwnership coinId sender.toText)
  require (owner == sender) (.invalidOwnership coinId sender.toText)
  require (amount != some 0) (.invalidTransaction "Transfer amount must be > 0")
  let message := s!"Transfer completed: {sender.toText} -> {recipient.toText}"
  match amount with
  | none =>
    let (changes, rt) := rt.fullTransfer coin coinId recipient
    pure (⟨message, changes, [], []⟩, rt)
  | some amount =>
    if amount = coin.balance then
      let (changes, rt) := rt.fullTransfer coin coinId recipient
      pure (⟨message, changes, [], []⟩, rt)
    else
      let reduced ← (coin.withdraw amount).mapError .invalidTransaction
      let (changes, created, rt) := rt.partialTransfer H ctx coin reduced coinId recipient amount
      pure (⟨message, changes, created, []⟩, rt)

/-- `executor.rs:495-530`. -/
def executeTransferWithCoin (coinId : ObjectId) (sender recipient : String)
    (amount : Option UInt64) :
    Except RuntimeError (ExecutionOutput × RuntimeExecutor) := do
  let senderAddr ← okOr (Address.fromHex sender) (.invalidAddress sender)
  let recipientAddr ← okOr (Address.fromHex recipient) (.invalidAddress recipient)
  rt.executeTransfer H ctx senderAddr coinId recipientAddr amount

/-- `MAX_MERGE_SOURCES`, `executor.rs:981`. -/
def maxMergeSources : Nat := 50

/-- The first identifier that was seen before, `executor.rs:1014-1023`. -/
def firstDuplicate : (seen : List ObjectId) → List ObjectId → Option ObjectId
  | _, [] => none
  | seen, id :: rest => if seen.contains id then some id else firstDuplicate (id :: seen) rest

/-- What the merge loop has done so far. -/
structure MergeProgress where
  state : HashMap ObjectId Coin
  target : Coin
  stateChanges : List StateChange
  deletedObjects : List ObjectId

variable (owner : Address)

/-- One turn of the merge loop, `executor.rs:1046-1079`. -/
def mergeSource (targetCoinType : String) (progress : MergeProgress)
    (sourceId : ObjectId) : Except RuntimeError MergeProgress := do
  let source ← okOr (progress.state.lookup sourceId) (.objectNotFound sourceId)
  let sourceOwner ← okOr source.owner (.invalidOwnership sourceId owner.toText)
  require (sourceOwner == owner) (.invalidTransaction
    s!"Source coin {objectIdText sourceId} not owned by {owner.toText}")
  require (source.coinType == targetCoinType) (.invalidTransaction
    s!"Coin type mismatch: target={targetCoinType}, source={source.coinType}")
  let target ← (progress.target.deposit source.balance).mapError .invalidTransaction
  pure
    { state := progress.state.erase sourceId
      target := target
      stateChanges := progress.stateChanges ++
        [⟨.delete, sourceId, some source.toCoinStateBytes, none⟩]
      deletedObjects := progress.deletedObjects ++ [sourceId] }

/-- `executor.rs:987-1105`. -/
def executeMergeCoins (targetCoinId : ObjectId) (sourceCoinIds : List ObjectId)
    : Except RuntimeError (ExecutionOutput × RuntimeExecutor) := do
  require (!sourceCoinIds.isEmpty) (.invalidTransaction
    "Must provide at least one source coin to merge")
  require (decide (sourceCoinIds.length ≤ maxMergeSources)) (.invalidTransaction
    s!"Too many source coins: {sourceCoinIds.length} (max {maxMergeSources})")
  require (!sourceCoinIds.contains targetCoinId) (.invalidTransaction
    s!"Target coin {objectIdText targetCoinId} cannot also be a source")
  let duplicate := firstDuplicate [] sourceCoinIds
  require duplicate.isNone (.invalidTransaction
    ("Duplicate source coin: " ++ (duplicate.map objectIdText).getD ""))
  let target ← okOr (rt.state.lookup targetCoinId) (.objectNotFound targetCoinId)
  let targetOwner ← okOr target.owner (.invalidOwnership targetCoinId owner.toText)
  require (targetOwner == owner) (.invalidOwnership targetCoinId owner.toText)
  let merged ← sourceCoinIds.foldlM (mergeSource owner target.coinType) ⟨rt.state, target, [], []⟩
  let updated := merged.target.incrementVersion
  pure
    (⟨s!"Merged {sourceCoinIds.length} coins",
      ⟨.update, targetCoinId, some target.toCoinStateBytes, some updated.toCoinStateBytes⟩ ::
        merged.stateChanges, [], merged.deletedObjects⟩,
      { rt with state := merged.state.insert targetCoinId updated })

/-- `MAX_SPLIT_OUTPUTS`, `executor.rs:1106`. -/
def maxSplitOutputs : Nat := 50

/-- What the split loop has done so far. -/
structure SplitProgress where
  executor : RuntimeExecutor
  source : Coin
  stateChanges : List StateChange
  createdObjects : List ObjectId

/-- One turn of the split loop, `executor.rs:1170-1193`. -/
def splitAmount (progress : SplitProgress)
    (amount : UInt64) : Except RuntimeError SplitProgress := do
  let newCoinId := coinIdFromTx H ctx.txHash progress.executor.outputCounter
  let newCoin := createCoinWithId newCoinId owner amount progress.source.coinType ctx.timestamp
  let source ← (progress.source.withdraw amount).mapError .invalidTransaction
  pure
    { executor :=
        { state := progress.executor.state.insert newCoinId newCoin
          outputCounter := progress.executor.outputCounter + 1 }
      source := source
      stateChanges := progress.stateChanges ++
        [⟨.create, newCoinId, none, some newCoin.toCoinStateBytes⟩]
      createdObjects := progress.createdObjects ++ [newCoinId] }

/-- The checked sum of the amounts, `executor.rs:1151-1153`. -/
def totalSplit (amounts : List UInt64) : Option UInt64 :=
  let total := (amounts.map UInt64.toNat).sum
  if total < 2 ^ 64 then some (UInt64.ofNat total) else none

/-- `executor.rs:1112-1235`. -/
def executeSplitCoin (sourceCoinId : ObjectId)
    (amounts : List UInt64) : Except RuntimeError (ExecutionOutput × RuntimeExecutor) := do
  require (!amounts.isEmpty) (.invalidTransaction "Split amounts cannot be empty")
  require (!amounts.contains 0) (.invalidTransaction
    "Split amount must be > 0 (zero-balance coins are not allowed)")
  require (decide (amounts.length ≤ maxSplitOutputs)) (.invalidTransaction
    s!"Too many split outputs: {amounts.length} (max {maxSplitOutputs})")
  let source ← okOr (rt.state.lookup sourceCoinId) (.objectNotFound sourceCoinId)
  let sourceOwner ← okOr source.owner (.invalidOwnership sourceCoinId owner.toText)
  require (sourceOwner == owner) (.invalidOwnership sourceCoinId owner.toText)
  let total ← okOr (totalSplit amounts) (.invalidTransaction "Split amounts overflow u64")
  require (decide (total ≤ source.balance))
    (.insufficientBalance owner.toText total source.balance)
  let split ← amounts.foldlM (splitAmount H ctx owner) ⟨rt, source, [], []⟩
  if source.balance = total then
    pure
      (⟨s!"Split into {amounts.length} coins (source deleted)",
        ⟨.delete, sourceCoinId, some source.toCoinStateBytes, none⟩ :: split.stateChanges,
        split.createdObjects, [sourceCoinId]⟩,
        { split.executor with state := split.executor.state.erase sourceCoinId })
  else
    let updated := split.source.incrementVersion
    pure
      (⟨s!"Split into {amounts.length} coins",
        ⟨.update, sourceCoinId, some source.toCoinStateBytes, some updated.toCoinStateBytes⟩ ::
          split.stateChanges, split.createdObjects, []⟩,
        { split.executor with state := split.executor.state.insert sourceCoinId updated })

/-- The coins of a type among the listed objects, `executor.rs:569-577`. -/
def coinsOfType (state : HashMap ObjectId Coin) (owned : List ObjectId) (coinType : String) :
    List (ObjectId × Coin) :=
  (owned.filterMap fun id ↦ (state.lookup id).map (Prod.mk id)).filter (·.2.coinType == coinType)

/-- The checked sum of the balances, `executor.rs:579-581`. -/
def totalBalance (coins : List (ObjectId × Coin)) : Option UInt64 :=
  let total := (coins.map fun c ↦ c.2.balance.toNat).sum
  if total < 2 ^ 64 then some (UInt64.ofNat total) else none

/-- The merge of all coins into the largest and the transfer from it, `executor.rs:602-628`.
The source panics on the index when there is no coin. -/
def mergeAndTransfer (sender recipient : Address) (amount : UInt64)
    (coins : List (ObjectId × Coin)) : Except RuntimeError (ExecutionOutput × RuntimeExecutor) :=
  match sortOn (fun c ↦ OrderDual.toDual c.2.balance.toNat) coins with
  | [] => .error (.invalidTransaction "index out of bounds: the len is 0 but the index is 0")
  | (targetId, _) :: rest => do
    let sourceIds := rest.map Prod.fst
    let (merged, rt) ← rt.executeMergeCoins sender targetId sourceIds
    let (transferred, rt) ← rt.executeTransfer H ctx sender targetId recipient (some amount)
    pure
      (⟨s!"Auto-merged {sourceIds.length + 1} coins, then transferred {amount} to " ++
          recipient.toText,
        merged.stateChanges ++ transferred.stateChanges,
        merged.createdObjects ++ transferred.createdObjects,
        merged.deletedObjects ++ transferred.deletedObjects⟩, rt)

/-- `executor.rs:543-631`. The store answers which objects an address
owns from an index of its own. -/
def executeSimpleTransfer (getOwnedObjects : Address → List ObjectId) (rt : RuntimeExecutor)
    (ctx : ExecutionContext) (inTee : Bool) (sender recipient : String) (amount : UInt64)
    (coinType : Option String) : Except RuntimeError (ExecutionOutput × RuntimeExecutor) := do
  require (!inTee) (.invalidTransaction
    ("execute_simple_transfer must not be called in TEE path — " ++
      "use execute_transfer_with_coin with pre-selected coin_id"))
  let senderAddr ← okOr (Address.fromHex sender) (.invalidAddress sender)
  let recipientAddr ← okOr (Address.fromHex recipient) (.invalidAddress recipient)
  let coins := coinsOfType rt.state (getOwnedObjects senderAddr) (coinType.getD "ROOT")
  let total ← okOr (totalBalance coins) (.invalidTransaction "Total balance overflow")
  require (decide (amount ≤ total)) (.insufficientBalance senderAddr.toText amount total)
  let ascending := sortOn (fun c ↦ c.2.balance.toNat) coins
  match ascending.find? fun c ↦ decide (amount ≤ c.2.balance) with
  | some (coinId, _) => rt.executeTransfer H ctx senderAddr coinId recipientAddr (some amount)
  | none => rt.mergeAndTransfer H ctx senderAddr recipientAddr amount ascending

/-- Everything an operation deletes is a coin of the store it started from. -/
def DeletesStored (output : ExecutionOutput) : Prop :=
  ∀ id ∈ output.deletedObjects, (rt.state.lookup id).isSome

variable {H} {rt rt' : RuntimeExecutor} {output : ExecutionOutput}

/-- A transfer deletes nothing. -/
theorem deletedObjects_executeTransferWithCoin {ctx : ExecutionContext} {coinId : ObjectId}
    {sender recipient : String} {amount : Option UInt64}
    (h : rt.executeTransferWithCoin H ctx coinId sender recipient amount = .ok (output, rt')) :
    output.deletedObjects = [] := by
  simp only [executeTransferWithCoin, executeTransfer, bind_eq_ok] at h
  obtain ⟨sender, -, recipient, -, coin, -, -, -, owner, -, -, -, -, -, h⟩ := h
  cases amount with
  | none =>
    simp only [pure_eq_ok, Prod.mk.injEq] at h
    rw [← h.1]
  | some amount =>
    dsimp only at h
    split at h
    · simp only [pure_eq_ok, Prod.mk.injEq] at h
      rw [← h.1]
    · simp only [bind_eq_ok, pure_eq_ok, Prod.mk.injEq] at h
      obtain ⟨reduced, -, h, -⟩ := h
      rw [← h]

/-- A merge deletes coins of the store. -/
theorem deletesStored_executeMergeCoins {owner : Address} {targetCoinId : ObjectId}
    {sourceCoinIds : List ObjectId}
    (h : rt.executeMergeCoins owner targetCoinId sourceCoinIds = .ok (output, rt')) :
    rt.DeletesStored output := by
  simp only [executeMergeCoins, bind_eq_ok, pure_eq_ok, Prod.mk.injEq] at h
  obtain ⟨-, -, -, -, -, -, -, -, target, -, -, -, -, -, merged, hm, h, -⟩ := h
  -- the loop only removes coins, so that what it finds was in the store at the start
  have hp := foldlM_ok_induction
    (fun p : MergeProgress ↦ (∀ id, (p.state.lookup id).isSome → (rt.state.lookup id).isSome) ∧
      ∀ id ∈ p.deletedObjects, (rt.state.lookup id).isSome)
    hm ⟨fun _ h ↦ h, List.forall_mem_nil _⟩ ?_
  · rw [← h]
    exact hp.2
  · rintro sourceId _ p p' hs ⟨hst, hd⟩
    simp only [mergeSource, bind_eq_ok, pure_eq_ok, okOr_eq_ok] at hs
    obtain ⟨source, hso, -, -, -, -, -, -, -, -, rfl⟩ := hs
    refine ⟨fun id hid ↦ hst id ?_, fun id hid ↦ ?_⟩
    · by_cases heq : id = sourceId
      · rw [heq, hso]
        rfl
      · rwa [AList.lookup_erase_ne heq] at hid
    · rcases List.mem_append.mp hid with hid | hid
      · exact hd id hid
      · rw [List.mem_singleton.mp hid]
        exact hst sourceId (by simp [hso])

/-- A split deletes at most its source, a coin of the store. -/
theorem deletesStored_executeSplitCoin {ctx : ExecutionContext} {owner : Address}
    {sourceCoinId : ObjectId} {amounts : List UInt64}
    (h : rt.executeSplitCoin H ctx owner sourceCoinId amounts = .ok (output, rt')) :
    rt.DeletesStored output := by
  simp only [executeSplitCoin, bind_eq_ok, okOr_eq_ok] at h
  obtain ⟨-, -, -, -, -, -, source, hs, -, -, -, -, total, -, -, -, split, -, h⟩ := h
  split at h
  · simp only [pure_eq_ok, Prod.mk.injEq] at h
    rw [← h.1]
    intro id hid
    rw [List.mem_singleton.mp hid, hs]
    rfl
  · simp only [pure_eq_ok, Prod.mk.injEq] at h
    rw [← h.1]
    exact List.forall_mem_nil _

end RuntimeExecutor

end Setu.Runtime
