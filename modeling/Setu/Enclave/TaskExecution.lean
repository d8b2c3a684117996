import Setu.Enclave.Consumption
import Setu.Enclave.LocalRuntime
import Setu.Runtime.Resources

/-!
# Executing the events of a task

Library `Enclave`. The events of a task run one after the other on one local runtime. Around each
of them the sender's power and flux are charged, a failed event is reported and the next one goes
on with the runtime as it is. Source `crates/setu-enclave/src/mock/mod.rs`,
`simulate_execution_isolated` and `execute_single_event_with_object_store`.
-/

namespace Setu.Enclave

open Setu.Base Setu.Types Setu.Runtime Setu.Move

/-- A transfer as an event carries it; the fields that execution reads, `transfer.rs:102-146`. -/
structure EventTransfer where
  sender : String
  recipient : String
  amount : UInt64
  deriving DecidableEq

/-- The payloads that execution tells apart, `mock/mod.rs:1059-1577`. -/
inductive TaskPayload where
  | subnetRegister | userRegister | contractPublish | movePublish | moveUpgrade
  | coinMerge | coinSplit | coinMergeThenTransfer
  | moveCall (payload : MoveCallPayload)
  | movePtb (payload : MovePtbPayload)
  | other

/-- The parts of an event that its execution reads. -/
structure TaskEvent where
  id : EventId
  eventType : EventType
  timestamp : UInt64
  transfer : Option EventTransfer
  payload : TaskPayload

/-- The inputs that all events of a task share, `solver_task.rs:106-122`. -/
structure TaskInputs where
  operation : OperationType
  inputObjects : List ResolvedObject
  dynamicFields : List ResolvedDynamicField

/-- The inputs as coin events see them. -/
def TaskInputs.resolved (inputs : TaskInputs) : ResolvedInputs :=
  ⟨inputs.inputObjects.map (·.objectId), inputs.operation⟩

/-- `solver_task.rs:224-243`. -/
def ResolvedInputs.primaryCoin (inputs : ResolvedInputs) : Option ObjectId :=
  match inputs.operation with
  | .transfer index _ | .mergeCoins index _ | .splitCoin index _
  | .mergeThenTransfer index _ _ _ => inputs.inputObjects[index]?
  | .noOp | .moveCall | .movePublish | .programmableTransaction => none

/-- A linkage entry that a package change writes, `mock/mod.rs:111-117`. -/
structure LinkageWrite where
  familyHex : String
  version : UInt64
  latest : Bytes
  oldLatest : Option Bytes

/-- The linkage entry of a package, `bcs::to_bytes(&(addr, version))`. -/
def linkageBytes (package : Bytes) (version : UInt64) : Bytes := package ++ u64Le version

/-- The linkage entry that a module change brings, `mock/mod.rs:136-231`. -/
def linkageWrite : ModuleChange → Option LinkageWrite
  | .publish .. => none
  | .publishWithLinkage _ _ familyId packageAddr version =>
    some ⟨hexEncode familyId.asBytes, version, linkageBytes packageAddr.asBytes version, none⟩
  | .upgrade _ _ familyId prevPackage newPackageAddr newVersion =>
    some ⟨hexEncode familyId.asBytes, newVersion, linkageBytes newPackageAddr.asBytes newVersion,
      some (linkageBytes prevPackage.asBytes (if newVersion = 0 then 0 else newVersion - 1))⟩

/-- The bytecode of a module change. -/
def moduleBytecode : ModuleChange → Bytes
  | .publish _ bytecode | .publishWithLinkage _ bytecode _ _ _ | .upgrade _ bytecode _ _ _ _ =>
    bytecode

/-- The write of the bytecode, under `mod:{address}::{name}`. -/
def bytecodeEntry (change : ModuleChange) : WriteSetEntry :=
  ⟨moduleKey (toHexLiteral change.moduleId.address.asBytes) change.moduleId.name.name, none,
    moduleBytecode change⟩

/-- A number with zeros in front up to twenty digits; `{:020}`. -/
def padTwenty (n : UInt64) : String :=
  let digits := toString n.toNat
  String.ofList (List.replicate (20 - digits.length) '0') ++ digits

/-- The two writes of a linkage entry, `mock/mod.rs:235-243`. -/
def LinkageWrite.entries (write : LinkageWrite) : List WriteSetEntry :=
  [⟨"linkage:latest:" ++ write.familyHex, write.oldLatest, write.latest⟩,
    ⟨s!"linkage:hist:{write.familyHex}:{padTwenty write.version}", none, write.latest⟩]

/-- One entry for each family and version, the first of them. -/
def firstWrites : List LinkageWrite → List LinkageWrite
  | [] => []
  | write :: rest =>
    write :: (firstWrites rest).filter fun other ↦
      !(other.familyHex == write.familyHex && other.version == write.version)

/-- `apply_module_changes_to_diff`, `mock/mod.rs:107-244`: the bytecode in the order of the
changes, then the linkage of the packages in the order of families and versions. -/
def moduleEntries (changes : List ModuleChange) : List WriteSetEntry :=
  changes.map bytecodeEntry ++
    (sortOn (fun w : LinkageWrite ↦ toLex (w.familyHex, w.version.toNat))
      (firstWrites (changes.filterMap linkageWrite))).flatMap LinkageWrite.entries

/-- A change of the Move engine as the diff takes it, which looks at the states only. -/
def moveChange (change : MoveStateChange) : Recorded :=
  .move ⟨if change.newState.isNone then .delete else .update, change.objectId, change.oldState,
    change.newState⟩

/-- What a Move execution records, `mock/mod.rs:1404-1427` and `1538-1563`. -/
def moveRecorded (output : MoveExecutionOutput) : List Recorded :=
  output.stateChanges.map moveChange ++ (moduleEntries output.moduleChanges).map .entry

variable {D S : Type} (H : Blake3 D) (engine : SetuMoveEngine S)

/-- An event on the local runtime. -/
abbrev TaskRun (H : Blake3 D) := Exec (LocalRuntime H) String

/-- The owner of a coin of the runtime, `mock/mod.rs:1108-1115`. -/
def ownerOf (role : String) (coinId : ObjectId) : TaskRun H Address := do
  let rt ← Exec.read
  let coin ← Exec.check (okOr (InPlace.StateStore.getObject rt coinId)
    s!"{role} coin {objectIdText coinId} not found")
  Exec.check (okOr coin.owner s!"{role} coin has no owner")

variable (event : TaskEvent)

/-- The execution context of a coin event. -/
def coinContext : ExecutionContext :=
  ⟨event.timestamp, deriveTxHash H event.id⟩

/-- `mock/mod.rs:1588-1655`. -/
def executeTransferWithLocalRuntime (transfer : EventTransfer)
    (inputs : ResolvedInputs) : TaskRun H ExecutionOutput := do
  let coinId ← Exec.check (okOr inputs.primaryCoin
    "Missing resolved_inputs.primary_coin - TaskPreparer error")
  (InPlace.executeTransferWithCoin H (coinContext H event) coinId transfer.sender
    transfer.recipient (some transfer.amount)).mapError fun e ↦ "Runtime error: " ++ e.toText

/-- The `CoinMerge` arm, `mock/mod.rs:1091-1131`. -/
def executeMergeEvent (inputs : ResolvedInputs) : TaskRun H ExecutionOutput :=
  match inputs.operation with
  | .mergeCoins targetIndex sourceIndices => do
    let targetCoinId ← Exec.check (inputs.input targetIndex)
    let sourceCoinIds ← Exec.check (sourceIndices.mapM inputs.input)
    let owner ← ownerOf H "Target" targetCoinId
    (InPlace.executeMergeCoins owner targetCoinId sourceCoinIds).mapError
      fun e ↦ "Runtime merge error: " ++ e.toText
  | _ => Exec.check (.error "CoinMerge payload but operation is not MergeCoins")

/-- The `CoinSplit` arm, `mock/mod.rs:1134-1170`. -/
def executeSplitEvent (inputs : ResolvedInputs) : TaskRun H ExecutionOutput :=
  match inputs.operation with
  | .splitCoin sourceIndex amounts => do
    let sourceCoinId ← Exec.check (inputs.input sourceIndex)
    let owner ← ownerOf H "Source" sourceCoinId
    (InPlace.executeSplitCoin H (coinContext H event) owner sourceCoinId amounts).mapError
      fun e ↦ "Runtime split error: " ++ e.toText
  | _ => Exec.check (.error "CoinSplit payload but operation is not SplitCoin")

/-- The `CoinMergeThenTransfer` arm, `mock/mod.rs:1173-1243`. -/
def executeMergeThenTransferEvent (inputs : ResolvedInputs) : TaskRun H ExecutionOutput :=
  match inputs.operation with
  | .mergeThenTransfer targetIndex sourceIndices recipient amount => do
    let targetCoinId ← Exec.check (inputs.input targetIndex)
    let sourceCoinIds ← Exec.check (sourceIndices.mapM inputs.input)
    let owner ← ownerOf H "Target" targetCoinId
    let merged ← (InPlace.executeMergeCoins owner targetCoinId sourceCoinIds).mapError
      fun e ↦ "Runtime merge error: " ++ e.toText
    let transferred ← (InPlace.executeTransferWithCoin H (coinContext H event) targetCoinId
      owner.toText recipient.toText (some amount)).mapError
        fun e ↦ "Runtime transfer error: " ++ e.toText
    pure { merged with
      stateChanges := merged.stateChanges ++ transferred.stateChanges
      createdObjects := merged.createdObjects ++ transferred.createdObjects
      deletedObjects := merged.deletedObjects ++ transferred.deletedObjects }
  | _ => Exec.check (.error "CoinMergeThenTransfer payload but operation is not MergeThenTransfer")

/-- What a coin event records. -/
def coinRecorded (output : ExecutionOutput) : List Recorded := output.stateChanges.map .runtime

/-- The payload of an event without a transfer, `mock/mod.rs:1059-1577`. Move events read the
store and write to the diff only. -/
def executePayload (inputs : TaskInputs) (gasBudget : UInt64) (event : TaskEvent) :
    TaskRun H (List Recorded) :=
  match event.payload with
  | .subnetRegister => Exec.check (.error
      "SubnetRegister is a Validator-executed event, should not reach TEE")
  | .userRegister => Exec.check (.error
      "UserRegister is a Validator-executed event, should not reach TEE")
  | .contractPublish => Exec.check (.error
      "ContractPublish is a Validator-executed event, should not reach TEE")
  | .movePublish => Exec.check (.error "MovePublish is a ROOT event, should not reach TEE")
  | .moveUpgrade => Exec.check (.error
      "MoveUpgrade is a ROOT event (rides on ContractPublish umbrella), should not reach TEE")
  | .coinMerge => coinRecorded <$> executeMergeEvent H inputs.resolved
  | .coinSplit => coinRecorded <$> executeSplitEvent H event inputs.resolved
  | .coinMergeThenTransfer =>
    coinRecorded <$> executeMergeThenTransferEvent H event inputs.resolved
  | .moveCall payload => do
    let rt ← Exec.read
    let output ← Exec.check (executeMoveCallEvent H engine rt.store.toLocalStore payload
      inputs.inputObjects inputs.dynamicFields event.id event.timestamp gasBudget)
    pure (moveRecorded output)
  | .movePtb payload => do
    let rt ← Exec.read
    let output ← Exec.check (executeMovePtbEvent H engine rt.store.toLocalStore payload
      inputs.inputObjects inputs.dynamicFields event.id event.timestamp gasBudget)
    pure (moveRecorded output)
  | .other => pure []

/-- `execute_single_event_with_object_store`, `mock/mod.rs:1032-1577`, up to the processed
marker. -/
def executeSingleEvent (inputs : TaskInputs) (gasBudget : UInt64) (event : TaskEvent) :
    TaskRun H (List Recorded) :=
  match event.transfer with
  | some transfer =>
    coinRecorded <$> executeTransferWithLocalRuntime H event transfer inputs.resolved
  | none => executePayload H engine inputs gasBudget event

/-- What the loop over the events carries, `mock/mod.rs:693-709`; the markers of processed events
belong to the enclave. -/
structure TaskState where
  store : InMemoryObjectStore
  power : Option PowerState
  flux : Option FluxState
  markers : HashMap String Bytes
  recorded : List Recorded

/-- The outcome of an event: what it records, or why it failed. -/
abbrev Outcome := Except String (List Recorded)

variable (json : ResourceJson) (params : ResourceParams)

/-- The power charge before an event, `mock/mod.rs:718-739`. Without a power object the charge is
passed over. -/
def chargePower (event : TaskEvent) (power : Option PowerState) :
    Except String (List Recorded × Option PowerState) :=
  if shouldConsumePower event.eventType then
    match power with
    | none => .ok ([], none)
    | some power =>
      match decrementPower H json power params.powerCostPerEvent with
      | .ok (change, power) => .ok ([.runtime change], some power)
      | .error e => .error ("Power check failed: " ++ e)
  else .ok ([], power)

/-- A change of the flux for an event, if there is a flux object and the amount is not zero. -/
def chargeFlux (update : FluxState → UInt64 → UInt64 → Runtime.StateChange × FluxState)
    (amount : UInt64) (event : TaskEvent) (flux : Option FluxState) :
    List Recorded × Option FluxState :=
  match flux with
  | none => ([], none)
  | some flux =>
    if shouldConsumePower event.eventType ∧ 0 < amount then
      let (change, flux) := update flux event.timestamp amount
      ([.runtime change], some flux)
    else ([], some flux)

/-- One turn of the loop, `mock/mod.rs:712-795`, for a way to run the event. -/
def taskStep (run : TaskEvent → TaskRun H (List Recorded)) (st : TaskState) (event : TaskEvent) :
    Outcome × TaskState :=
  match chargePower H json params event st.power with
  | .error e => (.error e, st)
  | .ok (consumed, power) =>
    match run event ⟨st.store, 0⟩ with
    | (.ok recorded, rt) =>
      let marker := "event:" ++ event.id
      let (rewarded, flux) := chargeFlux (incrementFlux H json) params.fluxRewardOnSuccess event
        st.flux
      let output := consumed ++ recorded ++
        [.entry (processedEntry event.id (st.markers.lookup marker))] ++ rewarded
      (.ok output,
        { store := rt.store
          power := power
          flux := flux
          markers := st.markers.insert marker (strBytes ("processed:" ++ event.id))
          recorded := st.recorded ++ output })
    | (.error e, rt) =>
      let (penalized, flux) := chargeFlux (penalizeFlux H json) params.fluxPenaltyOnFailure event
        st.flux
      (.error e,
        { st with
          store := rt.store
          power := power
          flux := flux
          recorded := st.recorded ++ consumed ++ penalized })

/-- The loop over the events, `simulate_execution_isolated`, `mock/mod.rs:688-800`, each with its
way to run. The limit on the wall-clock time is not part of the model. -/
def simulateExecution :
    List ((TaskEvent → TaskRun H (List Recorded)) × TaskEvent) → TaskState →
      List Outcome × TaskState
  | [], st => ([], st)
  | (run, event) :: rest, st =>
    let (outcome, next) := taskStep H json params run st event
    let (outcomes, final) := simulateExecution rest next
    (outcome :: outcomes, final)

/-- The power and flux objects of the sender among the entries, `extract_power_flux`,
`mock/mod.rs:430-459`; an entry that cannot be read is passed over. -/
def extractPowerFlux (readSet : List ReadSetEntry) (sender : String) :
    Option PowerState × Option FluxState :=
  readSet.foldl (fun (power, flux) entry ↦
    if entry.key = objectKey (powerStateObjectId H sender) then
      ((json.parsePower entry.value).or power, flux)
    else if entry.key = objectKey (fluxStateObjectId H sender) then
      (power, (json.parseFlux entry.value).or flux)
    else (power, flux)) (none, none)

/-- `mock/mod.rs:465-478`. -/
def extractResourceParams (readSet : List ReadSetEntry) : ResourceParams :=
  ((readSet.filter fun entry ↦ entry.key = objectKey (resourceParamsObjectId H)).findSome?
    fun entry ↦ json.parseParams entry.value).getD .default

/-- The part of the enclave's input that execution reads, `StfInput`, `stf.rs`. -/
structure StfInput where
  events : List TaskEvent
  resolvedInputs : TaskInputs
  readSet : List ReadSetEntry
  moduleReadSet : List ReadSetEntry
  gasBudget : UInt64

namespace StfInput

/-- The state before the first event, `mock/mod.rs:693-709`. The sender is the one of the first
event. -/
def initial (input : StfInput) (store : InMemoryObjectStore) (markers : HashMap String Bytes) :
    TaskState :=
  let sender := (input.events.head?.bind (·.transfer)).map (·.sender)
  let (power, flux) := sender.elim (none, none) (extractPowerFlux H json input.readSet)
  ⟨store, power, flux, markers, []⟩

/-- How the task runs an event. -/
def run (input : StfInput) : TaskEvent → TaskRun H (List Recorded) :=
  executeSingleEvent H engine input.resolvedInputs input.gasBudget

/-- The events of the task with the outcome of each; the store is built from the read sets. -/
def execute (input : StfInput) (markers : HashMap String Bytes) :
    Except StfError (List Outcome × TaskState) := do
  let store ← InMemoryObjectStore.ofReadSets H engine.texts input.readSet input.moduleReadSet
  pure (simulateExecution H json (extractResourceParams H json input.readSet)
    (input.events.map fun event ↦ (input.run H engine, event))
    (input.initial H json store markers))

/-- The parts of the record of a task with a single event that succeeds. -/
theorem execute_single {input : StfInput} {event : TaskEvent} (he : input.events = [event])
    {markers : HashMap String Bytes} {recorded : List Recorded} {final : TaskState}
    (h : input.execute H engine json markers = .ok ([.ok recorded], final)) :
    ∃ store consumed power changes rt,
      InMemoryObjectStore.ofReadSets H engine.texts input.readSet input.moduleReadSet =
        .ok store ∧
      chargePower H json (extractResourceParams H json input.readSet) event
        (input.initial H json store markers).power = .ok (consumed, power) ∧
      executeSingleEvent H engine input.resolvedInputs input.gasBudget event ⟨store, 0⟩ =
        (.ok changes, rt) ∧
      final.recorded = consumed ++ changes ++
        [.entry (processedEntry event.id (markers.lookup ("event:" ++ event.id)))] ++
        (chargeFlux (incrementFlux H json)
          (extractResourceParams H json input.readSet).fluxRewardOnSuccess event
          (input.initial H json store markers).flux).1 := by
  rw [execute, bind_eq_ok] at h
  obtain ⟨store, hs, h⟩ := h
  rw [he, List.map_singleton, pure_eq_ok] at h
  simp only [simulateExecution, Prod.mk.injEq, List.cons.injEq, and_true] at h
  obtain ⟨ho, rfl⟩ := h
  refine ⟨store, ?_⟩
  generalize hi : input.initial H json store markers = initial at ho ⊢
  have hm : initial.markers = markers := hi ▸ rfl
  have hst : initial.store = store := hi ▸ rfl
  have hre : initial.recorded = [] := hi ▸ rfl
  unfold taskStep at ho ⊢
  cases hp : chargePower H json (extractResourceParams H json input.readSet) event
      initial.power with
  | error e =>
    rw [hp] at ho
    cases ho
  | ok charged =>
    obtain ⟨consumed, power⟩ := charged
    rw [hp] at ho
    dsimp only at ho ⊢
    rw [hst] at ho ⊢
    cases hr : input.run H engine event ⟨store, 0⟩ with
    | mk outcome rt =>
      rw [hr] at ho
      cases outcome with
      | error e => cases ho
      | ok changes =>
        refine ⟨consumed, power, changes, rt, hs, rfl, hr, ?_⟩
        rw [hm, hre]
        rfl

end StfInput

end Setu.Enclave
