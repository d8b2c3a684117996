import Setu.Enclave.TaskExecution
import Setu.Move.CoinFunctions

/-!
# Failed events and the events after them

Library `Enclave`. A failed event of a task should leave nothing but its charge to the events after
it. It does where nothing can go wrong after its first write: a failed merge leaves the sources it
has already deleted, and a merge whose transfer fails leaves the merged coin. Source
`crates/setu-enclave/src/mock/mod.rs`.
-/

namespace Setu.Enclave

open Setu.Base Setu.Types Setu.Runtime Setu.Move Exec

open InPlace.StateStore (getObject)

variable {D S : Type} {H : Blake3 D} {engine : SetuMoveEngine S}

/-- The merge cannot fail once its first source is taken. -/
def MergeFailsEarly (get : ObjectId → Option Types.Coin) (targetCoinId : ObjectId)
    (sourceCoinIds : List ObjectId) : Prop :=
  ∀ owner target, Admits get owner targetCoinId sourceCoinIds target →
    Takes get owner target.coinType target.balance.toNat (sourceCoinIds.take 1) →
      Takes get owner target.coinType target.balance.toNat sourceCoinIds

/-- The transfer after the merge cannot fail. -/
def MergeCovers (get : ObjectId → Option Types.Coin) (targetCoinId : ObjectId)
    (sourceCoinIds : List ObjectId) (amount : UInt64) : Prop :=
  ∀ owner target, Admits get owner targetCoinId sourceCoinIds target →
    Takes get owner target.coinType target.balance.toNat sourceCoinIds →
      amount ≠ 0 ∧
        amount.toNat ≤ target.balance.toNat + (sourceCoinIds.map (heldBy get)).sum

/-- Nothing can go wrong after the first write of the event. -/
def TaskEvent.FailsEarly (event : TaskEvent) (inputs : ResolvedInputs)
    (get : ObjectId → Option Types.Coin) : Prop :=
  event.transfer = none →
    match event.payload, inputs.operation with
    | .coinMerge, .mergeCoins targetIndex sourceIndices =>
      ∀ targetCoinId sourceCoinIds, inputs.input targetIndex = .ok targetCoinId →
        sourceIndices.mapM inputs.input = .ok sourceCoinIds →
        MergeFailsEarly get targetCoinId sourceCoinIds
    | .coinMergeThenTransfer, .mergeThenTransfer targetIndex sourceIndices _ amount =>
      ∀ targetCoinId sourceCoinIds, inputs.input targetIndex = .ok targetCoinId →
        sourceIndices.mapM inputs.input = .ok sourceCoinIds →
        MergeFailsEarly get targetCoinId sourceCoinIds ∧
          MergeCovers get targetCoinId sourceCoinIds amount
    | _, _ => True

variable {rt : LocalRuntime H} {inputs : ResolvedInputs} {event : TaskEvent}

private theorem atomic_executeTransferWithLocalRuntime (transfer : EventTransfer) :
    (executeTransferWithLocalRuntime H event transfer inputs).Atomic rt := by
  refine atomic_check_bind fun coinId _ ↦ ?_
  exact (atomic_executeTransferWithCoin _ _ _).mapError _

private theorem atomic_ownerOf_bind {α : Type} {role : String} {coinId : ObjectId}
    {f : Address → TaskRun H α}
    (h : ∀ coin owner, getObject rt coinId = some coin → coin.owner = some owner →
      (f owner).Atomic rt) : (ownerOf H role coinId >>= f).Atomic rt := by
  simp only [ownerOf, bind_assoc]
  apply atomic_read_bind
  refine atomic_check_bind fun coin hc ↦ ?_
  refine atomic_check_bind fun owner ho ↦ ?_
  exact h coin owner (okOr_eq_ok.mp hc) (okOr_eq_ok.mp ho)

private theorem atomic_executeSplitEvent :
    (executeSplitEvent H event inputs).Atomic rt := by
  unfold executeSplitEvent
  split
  · refine atomic_check_bind fun sourceCoinId _ ↦ ?_
    refine atomic_ownerOf_bind fun coin owner _ _ ↦ ?_
    exact (atomic_executeSplitCoin _ _).mapError _
  · exact Exec.Refuses.atomic ⟨_, rfl⟩

private theorem atomic_executeMergeEvent
    (h : ∀ targetIndex sourceIndices, inputs.operation = .mergeCoins targetIndex sourceIndices →
      ∀ targetCoinId sourceCoinIds, inputs.input targetIndex = .ok targetCoinId →
        sourceIndices.mapM inputs.input = .ok sourceCoinIds →
        MergeFailsEarly (getObject rt) targetCoinId sourceCoinIds) :
    (executeMergeEvent H inputs).Atomic rt := by
  unfold executeMergeEvent
  split
  · next targetIndex sourceIndices ho =>
    refine atomic_check_bind fun targetCoinId ht ↦ ?_
    refine atomic_check_bind fun sourceCoinIds hs ↦ ?_
    refine atomic_ownerOf_bind fun coin owner _ _ ↦ ?_
    refine (atomic_executeMergeCoins fun target ↦ ?_).mapError _
    exact h _ _ ho targetCoinId sourceCoinIds ht hs owner target
  · exact Exec.Refuses.atomic ⟨_, rfl⟩

private theorem isOwned_of_getObject {id : ObjectId} {coin : Types.Coin}
    (h : getObject rt id = some coin) : coin.isOwned := by
  obtain ⟨env, -, hc⟩ := Option.bind_eq_some_iff.mp h
  obtain ⟨data, -, rfl⟩ := Option.map_eq_some_iff.mp hc
  rfl

private theorem mergeThenTransfer_of_takes (H : Blake3 D) {rt : LocalRuntime H}
    (ctx : ExecutionContext) (recipient : Address) {owner : Address} {targetCoinId : ObjectId}
    {sourceCoinIds : List ObjectId} {target : Types.Coin} {amount : UInt64}
    (ha : Admits (getObject rt) owner targetCoinId sourceCoinIds target)
    (ht : Takes (getObject rt) owner target.coinType target.balance.toNat sourceCoinIds)
    (hp : amount ≠ 0)
    (ham : amount.toNat ≤
      target.balance.toNat + (sourceCoinIds.map (heldBy (getObject rt))).sum) :
    ∃ output mid, InPlace.executeMergeCoins owner targetCoinId sourceCoinIds rt =
        (.ok output, mid) ∧ ∃ output' rt', InPlace.executeTransferWithCoin H ctx targetCoinId
          owner.toText recipient.toText (some amount) mid = (.ok output', rt') := by
  obtain ⟨output, mid, merged, hme, hm⟩ := executeMergeCoins_of_takes ha ht
  have ho : merged.incrementVersion.isOwned :=
    (congrArg (· == ObjectType.ownedObject) hm.objectType).trans (isOwned_of_getObject ha.found)
  obtain ⟨stored, hs, how, hk, hb⟩ := LawfulStateStore.getObject_setObject mid
    targetCoinId merged.incrementVersion owner (hm.owner.trans ha.owned) ho
  have hc : amount ≤ stored.balance := by
    rw [UInt64.le_iff_toNat_le, hb]
    exact ham.trans_eq hm.balance.symm
  obtain ⟨output', rt', htr⟩ := executeTransfer_of_covered (H := H) hs hk how hp hc
  refine ⟨output, _, hme, output', rt', ?_⟩
  refine (check_bind_of_ok (okOr_eq_ok.mpr (Address.fromHex_toText owner))).trans ?_
  refine (check_bind_of_ok (okOr_eq_ok.mpr (Address.fromHex_toText recipient))).trans ?_
  exact htr

private theorem atomic_executeMergeThenTransferEvent
    (h : ∀ targetIndex sourceIndices recipient amount,
      inputs.operation = .mergeThenTransfer targetIndex sourceIndices recipient amount →
      ∀ targetCoinId sourceCoinIds, inputs.input targetIndex = .ok targetCoinId →
        sourceIndices.mapM inputs.input = .ok sourceCoinIds →
        MergeFailsEarly (getObject rt) targetCoinId sourceCoinIds ∧
          MergeCovers (getObject rt) targetCoinId sourceCoinIds amount) :
    (executeMergeThenTransferEvent H event inputs).Atomic rt := by
  unfold executeMergeThenTransferEvent
  split
  · next targetIndex sourceIndices recipient amount ho =>
    refine atomic_check_bind fun targetCoinId hta ↦ ?_
    refine atomic_check_bind fun sourceCoinIds hs ↦ ?_
    obtain ⟨he, hc⟩ := h _ _ _ _ ho _ _ hta hs
    refine atomic_ownerOf_bind fun coin owner hco how ↦ ?_
    by_cases hf : ∃ target, Admits (getObject rt) owner targetCoinId sourceCoinIds target ∧
        Takes (getObject rt) owner target.coinType target.balance.toNat (sourceCoinIds.take 1)
    · obtain ⟨target, ha, hf⟩ := hf
      have ht := he owner target ha hf
      obtain ⟨hp, ham⟩ := hc owner target ha ht
      obtain ⟨output, mid, hm, output', rt', htr⟩ :=
        mergeThenTransfer_of_takes H (coinContext H event) recipient ha ht hp ham
      exact atomic_of_eq_ok ((bind_of_ok (mapError_of_ok _ hm)).trans
        (bind_of_ok (mapError_of_ok _ htr)))
    · obtain ⟨e, hm⟩ := refuses_executeMergeCoins fun target ha ht ↦
        hf ⟨target, ha, ht⟩
      exact Exec.Refuses.atomic ⟨_, bind_of_error (mapError_of_error _ hm)⟩
  · exact Exec.Refuses.atomic ⟨_, rfl⟩

/-- An event that can only fail early leaves the store when it fails. -/
theorem atomic_executeSingleEvent {inputs : TaskInputs} {gasBudget : UInt64}
    (h : event.FailsEarly inputs.resolved (getObject rt)) :
    (executeSingleEvent H engine inputs gasBudget event).Atomic rt := by
  unfold executeSingleEvent
  split
  · exact (atomic_executeTransferWithLocalRuntime _).map _
  · next ht =>
    have h := h ht
    unfold executePayload
    split
    · exact Exec.Refuses.atomic ⟨_, rfl⟩
    · exact Exec.Refuses.atomic ⟨_, rfl⟩
    · exact Exec.Refuses.atomic ⟨_, rfl⟩
    · exact Exec.Refuses.atomic ⟨_, rfl⟩
    · exact Exec.Refuses.atomic ⟨_, rfl⟩
    · next hp =>
      refine (atomic_executeMergeEvent fun targetIndex sourceIndices ho ↦ ?_).map _
      rwa [hp, ho] at h
    · exact atomic_executeSplitEvent.map _
    · next hp =>
      refine (atomic_executeMergeThenTransferEvent
        fun targetIndex sourceIndices recipient amount ho ↦ ?_).map _
      rwa [hp, ho] at h
    · apply atomic_read_bind
      exact atomic_check_bind fun output _ ↦ atomic_of_eq_ok (pure_apply _ _)
    · apply atomic_read_bind
      exact atomic_check_bind fun output _ ↦ atomic_of_eq_ok (pure_apply _ _)
    · exact atomic_of_eq_ok rfl

variable (H) in
/-- An event that only performs its charge, and fails. -/
def chargeOnly (reason : String) : TaskEvent → TaskRun H (List Recorded) :=
  fun _ ↦ check (.error reason)

/-- The events with those that failed replaced by events that only perform their charge. -/
def replaceFailed (run : TaskEvent → TaskRun H (List Recorded)) :
    List Outcome → List TaskEvent → List ((TaskEvent → TaskRun H (List Recorded)) × TaskEvent)
  | .ok _ :: outcomes, event :: events => (run, event) :: replaceFailed run outcomes events
  | .error reason :: outcomes, event :: events =>
    (chargeOnly H reason, event) :: replaceFailed run outcomes events
  | _, _ => []

section Run

variable (json : ResourceJson) (params : ResourceParams)

/-- Every event of the run can only fail early on the store it finds. -/
def FailEarly (run : TaskEvent → TaskRun H (List Recorded)) (inputs : ResolvedInputs) :
    List TaskEvent → TaskState → Prop
  | [], _ => True
  | event :: rest, st =>
    event.FailsEarly inputs (getObject (⟨st.store, 0⟩ : LocalRuntime H)) ∧
      FailEarly run inputs rest (taskStep H json params run st event).2

variable {json params} {run : TaskEvent → TaskRun H (List Recorded)} {st : TaskState}

/-- Events that can only fail early on any store. -/
theorem failEarly_of_forall {inputs : ResolvedInputs} {events : List TaskEvent}
    (h : ∀ event ∈ events, ∀ get, event.FailsEarly inputs get) :
    FailEarly json params run inputs events st := by
  induction events generalizing st with
  | nil => trivial
  | cons event rest ih =>
    rw [List.forall_mem_cons] at h
    exact ⟨h.1 _, ih h.2⟩

/-- A failed event that leaves the store is as good as its charge. -/
theorem taskStep_chargeOnly {reason : String} (ha : (run event).Atomic ⟨st.store, 0⟩)
    (h : (taskStep H json params run st event).1 = .error reason) :
    taskStep H json params (chargeOnly H reason) st event =
      taskStep H json params run st event := by
  unfold taskStep at h ⊢
  cases hp : chargePower H json params event st.power with
  | error e => rfl
  | ok charged =>
    rw [hp] at h
    cases hr : run event ⟨st.store, 0⟩ with
    | mk result rt =>
      rw [hr] at h
      cases result with
      | ok recorded => cases h
      | error e =>
        cases h
        rw [ha _ rt hr]
        rfl

/-- In a run of events that can only fail early, the failed ones can be replaced by their
charges. -/
theorem simulateExecution_replaceFailed {inputs : ResolvedInputs}
    (hr : ∀ event (rt : LocalRuntime H), event.FailsEarly inputs (getObject rt) →
      (run event).Atomic rt)
    {events : List TaskEvent} (h : FailEarly json params run inputs events st) :
    simulateExecution H json params (replaceFailed run
        (simulateExecution H json params (events.map fun event ↦ (run, event)) st).1 events) st =
      simulateExecution H json params (events.map fun event ↦ (run, event)) st := by
  induction events generalizing st with
  | nil => rfl
  | cons event rest ih =>
    obtain ⟨he, hre⟩ := h
    have ih := ih hre
    rw [List.map_cons, simulateExecution]
    dsimp only
    cases ho : (taskStep H json params run st event).1 with
    | ok recorded =>
      rw [replaceFailed, simulateExecution]
      dsimp only
      rw [ih, ho]
    | error reason =>
      rw [replaceFailed, simulateExecution]
      dsimp only
      rw [taskStep_chargeOnly (hr event _ he) ho, ih, ho]

end Run

namespace StfInput

variable (H engine) (json : ResourceJson) (input : StfInput) (markers : HashMap String Bytes)

/-- The outcomes of the events, each with its way to run, on the store of the task. -/
def outcomes (store : InMemoryObjectStore)
    (events : List ((TaskEvent → TaskRun H (List Recorded)) × TaskEvent)) : List Outcome :=
  (simulateExecution H json (extractResourceParams H json input.readSet) events
    (input.initial H json store markers)).1

/-- The successful events have the verdicts and the records that they have if every failed event
only performs its charge. -/
def Isolates : Prop :=
  ∀ store, InMemoryObjectStore.ofReadSets H engine.texts input.readSet input.moduleReadSet =
      .ok store →
    let executed := input.outcomes H json markers store
      (input.events.map fun event ↦ (input.run H engine, event))
    (input.outcomes H json markers store
      (replaceFailed (input.run H engine) executed input.events)).map Except.toOption =
        executed.map Except.toOption

/-- Every event of the task can only fail early on the store it finds. -/
def FailsEarly : Prop :=
  ∀ store, InMemoryObjectStore.ofReadSets H engine.texts input.readSet input.moduleReadSet =
      .ok store →
    FailEarly json (extractResourceParams H json input.readSet) (input.run H engine)
      input.resolvedInputs.resolved input.events (input.initial H json store markers)

/-- Failed events do not reach the events after them in a task where nothing can go wrong after
the first write of an event. -/
theorem isolates_of_failsEarly (input : StfInput) (markers : HashMap String Bytes)
    (h : input.FailsEarly H engine json markers) : input.Isolates H engine json markers := by
  intro store hs
  have hr : ∀ event (rt : LocalRuntime H),
      event.FailsEarly input.resolvedInputs.resolved (getObject rt) →
        (input.run H engine event).Atomic rt := fun _ _ ↦ atomic_executeSingleEvent
  dsimp only [outcomes]
  rw [simulateExecution_replaceFailed hr (h store hs)]

/-! Two coins of one owner, of 60 and of 20. -/

private def taskCoin (n : UInt8) : ObjectId := ⟨Vector.replicate 32 n⟩

private def taskReadSet : List ReadSetEntry :=
  [(1, 60), (2, 20)].map fun c ↦ ⟨objectKey (taskCoin c.1),
    (createCoinWithId (taskCoin c.1) Address.zero c.2 "ROOT" 0).toCoinStateBytes⟩

private def noJson : ResourceJson :=
  ⟨fun _ ↦ [], fun _ ↦ none, fun _ ↦ [], fun _ ↦ none, fun _ ↦ none⟩

private def transferEvent (id : EventId) (amount : UInt64) : TaskEvent where
  id := id
  eventType := .transfer
  timestamp := 0
  transfer := some ⟨Address.zero.toText, Address.zero.toText, amount⟩
  payload := .other

private def coinTask (operation : OperationType) (events : List TaskEvent) : StfInput where
  events := events
  resolvedInputs := ⟨operation, [⟨taskCoin 1, "Coin", 0⟩, ⟨taskCoin 2, "Coin", 0⟩], []⟩
  readSet := taskReadSet
  moduleReadSet := []
  gasBudget := 0

/-- A transfer of more than there is, a merge of both coins and a transfer of 70. -/
private def mergeBetween : StfInput :=
  coinTask (.mergeCoins 0 [1]) [transferEvent "e1" 90,
    ⟨"e2", .coinMerge, 0, none, .coinMerge⟩, transferEvent "e3" 70]

/-- The failed transfer does not reach the merge, nor the transfer that the merge makes
possible. -/
theorem isolates_mergeBetween :
    mergeBetween.FailsEarly Blake3.ideal (coinEngine Blake3.ideal) noJson ∅ ∧
      mergeBetween.Isolates Blake3.ideal (coinEngine Blake3.ideal) noJson ∅ := by
  have he : mergeBetween.FailsEarly Blake3.ideal (coinEngine Blake3.ideal) noJson ∅ := by
    intro store _
    refine failEarly_of_forall fun event hev get ↦ ?_
    have hc : event = transferEvent "e1" 90 ∨
        event = ⟨"e2", .coinMerge, 0, none, .coinMerge⟩ ∨ event = transferEvent "e3" 70 := by
      simpa [mergeBetween, coinTask] using hev
    rcases hc with rfl | rfl | rfl
    · intro ht
      cases ht
    · intro _ targetCoinId sourceCoinIds _ hs owner target _ hf
      cases hs
      exact hf
    · intro ht
      cases ht
  exact ⟨he, isolates_of_failsEarly Blake3.ideal (coinEngine Blake3.ideal) noJson mergeBetween ∅ he⟩

/-- A merge of both coins for a transfer of 100, and a transfer of 70. -/
private def mergeTooSmall : StfInput :=
  coinTask (.mergeThenTransfer 0 [1] Address.zero 100)
    [⟨"e1", .coinMergeThenTransfer, 0, none, .coinMergeThenTransfer⟩, transferEvent "e2" 70]

private def verdicts (outcomes : List Outcome) : List Bool :=
  outcomes.map fun outcome ↦ outcome.toOption.isSome

private def leakedVerdicts (store : InMemoryObjectStore) : List Bool × List Bool :=
  let run := mergeTooSmall.run Blake3.ideal (coinEngine Blake3.ideal)
  let executed := mergeTooSmall.outcomes Blake3.ideal noJson ∅ store
    (mergeTooSmall.events.map fun event ↦ (run, event))
  (verdicts executed, verdicts (mergeTooSmall.outcomes Blake3.ideal noJson ∅ store
    (replaceFailed run executed mergeTooSmall.events)))

/-- The second event succeeds with the coins that the failed one has merged. -/
theorem mergeTooSmall_leaks :
    ¬ mergeTooSmall.Isolates Blake3.ideal (coinEngine Blake3.ideal) noJson ∅ := by
  intro hi
  obtain ⟨store, hs, hv⟩ := exists_ok_of_map_toOption
    (x := InMemoryObjectStore.ofReadSets Blake3.ideal (coinEngine Blake3.ideal).texts
      mergeTooSmall.readSet mergeTooSmall.moduleReadSet) (f := leakedVerdicts)
    (d := ([false, true], [false, false])) (by decide +kernel)
  have heq := congrArg (List.map Option.isSome) (hi store hs)
  rw [List.map_map, List.map_map] at heq
  obtain ⟨he, hr⟩ := Prod.mk.inj hv
  exact absurd ((hr.symm.trans heq).trans he) (by decide)

end StfInput

end Setu.Enclave
