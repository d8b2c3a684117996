import Setu.Enclave.StateDiff

/-!
# Coin events from the enclave to the state trees

Library `Enclave`. A coin event runs in the enclave's local runtime; its changes go through the
state diff and the solver's result into the event that the state manager applies. Objects that
the runtime deletes are written with the empty value on the way, so that none of them leaves
the state. Sources `crates/setu-enclave/src/mock/mod.rs` and `stf.rs`, `setu-solver/src/tee.rs`.
-/

namespace Setu.Enclave

open Setu.Base Setu.Types Setu.State Setu.Runtime

/-- How the resolved inputs of a task are used, `types/src/task/solver_task.rs:254-330`; the
Move operations, which coin events refuse, without their data. -/
inductive OperationType where
  | noOp
  | transfer (fromCoinIndex : Nat) (amount : UInt64)
  | mergeCoins (targetIndex : Nat) (sourceIndices : List Nat)
  | splitCoin (sourceIndex : Nat) (amounts : List UInt64)
  | mergeThenTransfer (targetIndex : Nat) (sourceIndices : List Nat) (recipient : Address)
      (amount : UInt64)
  | moveCall
  | movePublish
  | programmableTransaction

/-- The inputs the validator has chosen for a task, `solver_task.rs`. -/
structure ResolvedInputs where
  inputObjects : List ObjectId
  operation : OperationType

/-- The object at an index; indexing out of range panics in the source and is an error here. -/
def ResolvedInputs.input (inputs : ResolvedInputs) (index : Nat) : Except String ObjectId :=
  okOr inputs.inputObjects[index]? "index out of bounds"

variable {D : Type} (H : Blake3 D)

/-- `mock/mod.rs:1664-1669`. -/
def deriveTxHash (eventId : EventId) : Bytes :=
  H.asBytes (H.hash (strBytes "SETU_TX_HASH:" ++ strBytes eventId))

/-- The owner of a coin of the store, `mock/mod.rs:1108-1115`. -/
def coinOwner (state : HashMap ObjectId Coin) (role : String) (coinId : ObjectId) :
    Except String Address := do
  let coin ← okOr (state.lookup coinId) s!"{role} coin {objectIdText coinId} not found"
  okOr coin.owner s!"{role} coin has no owner"

/-- The `CoinMerge` arm, `mock/mod.rs:1091-1131`. -/
def executeCoinMerge (inputs : ResolvedInputs) (rt : RuntimeExecutor) :
    Except String (ExecutionOutput × RuntimeExecutor) :=
  match inputs.operation with
  | .mergeCoins targetIndex sourceIndices => do
    let targetCoinId ← inputs.input targetIndex
    let sourceCoinIds ← sourceIndices.mapM inputs.input
    let owner ← coinOwner rt.state "Target" targetCoinId
    (rt.executeMergeCoins owner targetCoinId sourceCoinIds).mapError
      fun e ↦ "Runtime merge error: " ++ e.toText
  | _ => .error "CoinMerge payload but operation is not MergeCoins"

/-- The `CoinSplit` arm, `mock/mod.rs:1134-1170`. -/
def executeCoinSplit (ctx : ExecutionContext) (inputs : ResolvedInputs) (rt : RuntimeExecutor) :
    Except String (ExecutionOutput × RuntimeExecutor) :=
  match inputs.operation with
  | .splitCoin sourceIndex amounts => do
    let sourceCoinId ← inputs.input sourceIndex
    let owner ← coinOwner rt.state "Source" sourceCoinId
    (rt.executeSplitCoin H ctx owner sourceCoinId amounts).mapError
      fun e ↦ "Runtime split error: " ++ e.toText
  | _ => .error "CoinSplit payload but operation is not SplitCoin"

/-- The `CoinMergeThenTransfer` arm, `mock/mod.rs:1173-1246`. -/
def executeCoinMergeThenTransfer (ctx : ExecutionContext) (inputs : ResolvedInputs)
    (rt : RuntimeExecutor) : Except String (ExecutionOutput × RuntimeExecutor) :=
  match inputs.operation with
  | .mergeThenTransfer targetIndex sourceIndices recipient amount => do
    let targetCoinId ← inputs.input targetIndex
    let sourceCoinIds ← sourceIndices.mapM inputs.input
    let owner ← coinOwner rt.state "Target" targetCoinId
    let (mergeOutput, rt) ← (rt.executeMergeCoins owner targetCoinId sourceCoinIds).mapError
      fun e ↦ "Runtime merge error: " ++ e.toText
    let (transferOutput, rt) ← (rt.executeTransferWithCoin H ctx targetCoinId owner.toText
      recipient.toText (some amount)).mapError fun e ↦ "Runtime transfer error: " ++ e.toText
    pure
      ({ mergeOutput with
          stateChanges := mergeOutput.stateChanges ++ transferOutput.stateChanges
          createdObjects := mergeOutput.createdObjects ++ transferOutput.createdObjects
          deletedObjects := mergeOutput.deletedObjects ++ transferOutput.deletedObjects }, rt)
  | _ => .error "CoinMergeThenTransfer payload but operation is not MergeThenTransfer"

/-- A coin event in the local runtime; the coin arms of
`execute_single_event_with_object_store`, `mock/mod.rs:1032-1246`. -/
def executeCoinEvent (event : Event) (inputs : ResolvedInputs) (state : HashMap ObjectId Coin) :
    Except String (ExecutionOutput × RuntimeExecutor) :=
  let ctx := ⟨event.timestamp, deriveTxHash H event.id⟩
  match event.payload with
  | .coinMerge .. => executeCoinMerge inputs ⟨state, 0⟩
  | .coinSplit .. => executeCoinSplit H ctx inputs ⟨state, 0⟩
  | .coinMergeThenTransfer .. => executeCoinMergeThenTransfer H ctx inputs ⟨state, 0⟩
  | _ => .error "not a coin event"

/-- The diff of a task with one coin event, `mock/mod.rs:688-800`: the power change before the
operation if there is one, the operation's changes, the processed marker and the flux change. -/
def coinEventDiff (power flux : Option Runtime.StateChange) (eventId : EventId)
    (processedBefore : Option Bytes) (output : ExecutionOutput) : StateDiff :=
  let consumed := StateDiff.new.addStateChanges power.toList
  let executed := consumed.addStateChanges output.stateChanges
  (executed.addWrite (processedEntry eventId processedBefore)).addStateChanges flux.toList

/-- The event with the result of its execution, `tee.rs:260-319`. -/
def coinEventExecuted (event : Event) (power flux : Option Runtime.StateChange)
    (processedBefore : Option Bytes) (executionTimeUs : UInt64) (output : ExecutionOutput) :
    Event :=
  let stf : StfOutput :=
    ⟨coinEventDiff power flux event.id processedBefore output, [event.id], [], executionTimeUs⟩
  { event with
    executionResult := some (TeeExecutionResult.fromStfOutput stf).toExecutionResult }

/-- The diff of runtime changes deletes nothing. -/
@[simp]
theorem deletes_addStateChanges (diff : StateDiff) (changes : List Runtime.StateChange) :
    (diff.addStateChanges changes).deletes = diff.deletes := by
  unfold StateDiff.addStateChanges
  induction changes generalizing diff with
  | nil => rfl
  | cons change rest ih => exact ih (diff.addStateChange change)

variable {H}

private theorem applyAll_diffChanges_ne_none {subnetId : SubnetId} {diff : StateDiff}
    (hd : diff.deletes = []) {s : Objects} {k : SubnetId × ObjectId} (hk : s k ≠ none) :
    Write.applyAll s ((diffChanges diff).map (changeWrite H subnetId)) k ≠ none := by
  rw [Write.applyAll_apply]
  cases hl : Write.lastValue ((diffChanges diff).map (changeWrite H subnetId)) k with
  | none => exact hk
  | some value =>
    obtain ⟨w, hw, -, rfl⟩ := Write.exists_mem_of_lastValue hl
    obtain ⟨change, hc, rfl⟩ := List.mem_map.mp hw
    rw [diffChanges, hd, List.map_nil, List.append_nil] at hc
    obtain ⟨entry, -, rfl⟩ := List.mem_map.mp hc
    exact Option.some_ne_none _

/-- Everything a coin event deletes is a coin of the store it ran on. -/
theorem deletesStored_executeCoinEvent {event : Event} {inputs : ResolvedInputs}
    {state : HashMap ObjectId Coin} {output : ExecutionOutput} {rt : RuntimeExecutor}
    (h : executeCoinEvent H event inputs state = .ok (output, rt)) :
    ∀ id ∈ output.deletedObjects, (state.lookup id).isSome := by
  unfold executeCoinEvent at h
  split at h
  · unfold executeCoinMerge at h
    split at h
    · simp only [bind_eq_ok, mapError_eq_ok] at h
      obtain ⟨_, -, _, -, _, -, h⟩ := h
      exact RuntimeExecutor.deletesStored_executeMergeCoins h
    · cases h
  · unfold executeCoinSplit at h
    split at h
    · simp only [bind_eq_ok, mapError_eq_ok] at h
      obtain ⟨_, -, _, -, h⟩ := h
      exact RuntimeExecutor.deletesStored_executeSplitCoin h
    · cases h
  · unfold executeCoinMergeThenTransfer at h
    split at h
    · simp only [bind_eq_ok, mapError_eq_ok, pure_eq_ok, Prod.mk.injEq] at h
      obtain ⟨_, -, _, -, _, -, ⟨mergeOutput, merged⟩, hm, ⟨transferOutput, _⟩, ht, rfl, -⟩ := h
      rw [RuntimeExecutor.deletedObjects_executeTransferWithCoin ht, List.append_nil]
      exact RuntimeExecutor.deletesStored_executeMergeCoins hm
    · cases h
  · cases h

variable [DecidableEq D]

variable (H) in
/-- In the state the objects that the operation deleted have no leaf, and every other object it
touched has the value it has in the enclave's runtime. -/
structure DeletionsSurvive (g : GlobalStateManager D) (subnetId : SubnetId)
    (output : ExecutionOutput) (rt : RuntimeExecutor) : Prop where
  deleted : ∀ id ∈ output.deletedObjects, g.objects H (subnetId, id) = none
  touched : ∀ change ∈ output.stateChanges, change.objectId ∉ output.deletedObjects →
    g.objects H (subnetId, change.objectId) =
      (rt.state.lookup change.objectId).map Coin.toCoinStateBytes

/-- Applying a coin event removes no leaf. -/
theorem objects_applyCommittedEvents_coinEvent_ne_none (g : GlobalStateManager D) (event : Event)
    (power flux : Option Runtime.StateChange) (processedBefore : Option Bytes)
    (executionTimeUs depth : UInt64) (output : ExecutionOutput) {k : SubnetId × ObjectId}
    (hk : g.objects H k ≠ none) :
    (g.applyCommittedEvents H
      [coinEventExecuted event power flux processedBefore executionTimeUs output]
        depth).1.objects H k ≠ none := by
  set executed := coinEventExecuted event power flux processedBefore executionTimeUs output
  change (GlobalStateManager.applyEvent H depth
    ({ g with lastFinalizedDepth := max g.lastFinalizedDepth depth }, .new) executed).1.objects
      H k ≠ none
  by_cases h : Admits H (g.objects H) executed
  · rw [(GlobalStateManager.applyEvent_of_admits depth h).1]
    obtain ⟨ws, hws, hf, -⟩ := h
    have ho : serialApply H (g.objects H) executed = Write.applyAll (g.objects H) ws := by
      simp [serialApply, hws, hf]
    obtain ⟨result, hr, -, rfl⟩ := exists_result_of_eventWrites hws
    cases hr
    change serialApply H (g.objects H) executed k ≠ none
    rw [ho]
    exact applyAll_diffChanges_ne_none (by simp [coinEventDiff, StateDiff.new, StateDiff.addWrite])
      hk
  · rw [GlobalStateManager.objects_congr (GlobalStateManager.applyEvent_of_not_admits depth h).1]
    exact hk

/-- No deletion survives: whenever a coin event deletes coins that were read from the state, its
application leaves a leaf for each of them. -/
theorem not_deletionsSurvive (g : GlobalStateManager D) (event : Event) (inputs : ResolvedInputs)
    (state : HashMap ObjectId Coin) (output : ExecutionOutput) (rt : RuntimeExecutor)
    (hexec : executeCoinEvent H event inputs state = .ok (output, rt))
    (hdeletes : output.deletedObjects ≠ [])
    (hread : ∀ id ∈ state, g.objects H (event.getSubnetId, id) ≠ none)
    (power flux : Option Runtime.StateChange) (processedBefore : Option Bytes)
    (executionTimeUs depth : UInt64) :
    ¬ DeletionsSurvive H (g.applyCommittedEvents H
        [coinEventExecuted event power flux processedBefore executionTimeUs output] depth).1
      event.getSubnetId output rt := by
  intro hs
  obtain ⟨id, hid⟩ := List.exists_mem_of_ne_nil _ hdeletes
  have hst := deletesStored_executeCoinEvent hexec id hid
  exact objects_applyCommittedEvents_coinEvent_ne_none g event power flux processedBefore
    executionTimeUs depth output (hread id (AList.lookup_isSome.mp hst))
    (hs.deleted id hid)

/-! Two coins of one owner in the root subnet, merged into the first or split exactly. -/

private def coinId (n : UInt8) : ObjectId := ⟨Vector.replicate 32 n⟩

private def heldCoins : HashMap ObjectId Coin :=
  [(1, 5), (2, 7)].foldl (fun coins e ↦ coins.insert (coinId e.1)
    (createCoinWithId (coinId e.1) Address.zero e.2 "ROOT" 0)) ∅

private def holding : GlobalStateManager (Option Bytes) :=
  (GlobalStateManager.new Blake3.ideal).modifySubnet Blake3.ideal .root fun smt ↦
    heldCoins.toList.foldl (fun smt e ↦ smt.upsert Blake3.ideal e.1 e.2.toCoinStateBytes) smt

private def coinEvent (eventType : EventType) (payload : EventPayload) : Event where
  id := "e1"
  eventType := eventType
  parentIds := []
  subnetId := none
  transfer := none
  payload := payload
  vlcSnapshot := ⟨∅, 1, 0⟩
  creator := ""
  status := .pending
  executionResult := none
  timestamp := 0

private def merging : Event := coinEvent .coinMerge (.coinMerge "01" ["02"])

private def splitting : Event := coinEvent .coinSplit (.coinSplit "01" [5])

private theorem objects_holding_ne_none : ∀ id ∈ heldCoins,
    holding.objects Blake3.ideal (SubnetId.root, id) ≠ none := by
  change ∀ id ∈ heldCoins.keys, _
  decide +kernel

/-- A merge of two coins leaves a leaf for the merged one. -/
theorem not_deletionsSurvive_merging : ∃ output rt,
    executeCoinEvent Blake3.ideal merging ⟨[coinId 1, coinId 2], .mergeCoins 0 [1]⟩ heldCoins =
        .ok (output, rt) ∧
      ¬ DeletionsSurvive Blake3.ideal (holding.applyCommittedEvents Blake3.ideal
        [coinEventExecuted merging none none none 0 output] 0).1 .root output rt := by
  have hd : (executeCoinEvent Blake3.ideal merging
      ⟨[coinId 1, coinId 2], .mergeCoins 0 [1]⟩ heldCoins).toOption.map
        (fun r ↦ r.1.deletedObjects) = some [coinId 2] := by
    decide +kernel
  cases he : executeCoinEvent Blake3.ideal merging
      ⟨[coinId 1, coinId 2], .mergeCoins 0 [1]⟩ heldCoins with
  | error e => simp [he, Except.toOption] at hd
  | ok r =>
    have hde : r.1.deletedObjects = [coinId 2] := by
      simpa [he, Except.toOption] using hd
    exact ⟨r.1, r.2, rfl, not_deletionsSurvive holding merging _ heldCoins r.1 r.2 he
      (by simp [hde]) objects_holding_ne_none none none none 0 0⟩

/-- After an exact split has been applied, the leaf of the deleted coin holds the empty value. -/
theorem not_deletionsSurvive_splitting : ∃ output rt,
    executeCoinEvent Blake3.ideal splitting ⟨[coinId 1], .splitCoin 0 [5]⟩ heldCoins =
        .ok (output, rt) ∧
      (holding.applyCommittedEvents Blake3.ideal
        [coinEventExecuted splitting none none none 0 output] 0).1.objects Blake3.ideal
          (.root, coinId 1) = some [] ∧
      ¬ DeletionsSurvive Blake3.ideal (holding.applyCommittedEvents Blake3.ideal
        [coinEventExecuted splitting none none none 0 output] 0).1 .root output rt := by
  have hl : (executeCoinEvent Blake3.ideal splitting
      ⟨[coinId 1], .splitCoin 0 [5]⟩ heldCoins).toOption.map (fun r ↦
        (r.1.deletedObjects, (holding.applyCommittedEvents Blake3.ideal
          [coinEventExecuted splitting none none none 0 r.1] 0).1.objects Blake3.ideal
            (.root, coinId 1))) = some ([coinId 1], some []) := by
    decide +kernel
  cases he : executeCoinEvent Blake3.ideal splitting ⟨[coinId 1], .splitCoin 0 [5]⟩ heldCoins with
  | error e => simp [he, Except.toOption] at hl
  | ok r =>
    rw [he] at hl
    obtain ⟨hd, hl⟩ := Prod.mk.inj (Option.some.inj hl)
    refine ⟨r.1, r.2, rfl, hl, fun hs ↦ ?_⟩
    have hn := hs.deleted (coinId 1) (hd ▸ List.mem_singleton_self _)
    cases hl.symm.trans hn

end Setu.Enclave
