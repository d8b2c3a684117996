import Setu.Enclave.Recording
import Setu.Validator.TransferNonce

/-!
# Tasks for transfers

Library `Validator`. A task for a transfer carries the coins it takes with their values and, if it
takes a single coin, the power and flux of the sender. The coins are read from the tree of the
task's subnet, power and flux from the root subnet. The enclave runs the task, and all that it
records goes into the event for the task's subnet. Sources `task_preparer/single.rs`,
`task_preparer/batch.rs` and `network/tee_executor.rs`.
-/

namespace Setu.Validator

open Setu.Base Setu.Types Setu.State Setu.Enclave Setu.Runtime

/-- `get_object_from_subnet`, `provider.rs:562-566`, of a state without speculative writes. -/
def CoinSnapshot.objectFromSubnet (snapshot : CoinSnapshot) (subnet : SubnetId) (id : ObjectId) :
    Option Bytes :=
  (snapshot.subnet subnet).bind fun objects ↦ objects id

/-- `get_object`, `provider.rs:509-511`: the provider's subnet is the root. -/
def CoinSnapshot.object (snapshot : CoinSnapshot) (id : ObjectId) : Option Bytes :=
  snapshot.objectFromSubnet SubnetId.root id

/-- A state with its index of coins, as preparation reads it. -/
def coinSnapshot {D : Type} (g : GlobalStateManager D)
    (coinObjects : String → List (ObjectId × String)) : CoinSnapshot where
  coinObjects := coinObjects
  subnet := fun subnet ↦ (g.subnetStates.lookup subnet).map SubnetStateSMT.get

@[simp]
theorem objectFromSubnet_coinSnapshot {D : Type} (H : Blake3 D) (g : GlobalStateManager D)
    (coinObjects : String → List (ObjectId × String)) (subnet : SubnetId) (id : ObjectId) :
    (coinSnapshot g coinObjects).objectFromSubnet subnet id = g.objects H (subnet, id) := by
  change ((g.subnetStates.lookup subnet).map SubnetStateSMT.get).bind (fun objects ↦ objects id) =
    ((g.subnetStates.lookup subnet).getD (SubnetStateSMT.new H subnet)).get id
  cases g.subnetStates.lookup subnet with
  | none => rfl
  | some smt => rfl

/-- The coin lies in the tree of the subnet, with the canonical text of its owner. -/
def CoinInfo.InPlace (snapshot : CoinSnapshot) (subnet : SubnetId) (coin : CoinInfo) : Prop :=
  snapshot.coinAt subnet coin.objectId = some coin ∧ ∃ owner : Address, coin.owner = owner.toText

theorem CoinInfo.InPlace.objectFromSubnet {snapshot : CoinSnapshot} {subnet : SubnetId}
    {coin : CoinInfo} (h : coin.InPlace snapshot subnet) :
    ∃ owner : Address, snapshot.objectFromSubnet subnet coin.objectId =
      some (CoinState.mk owner.toText coin.balance coin.version coin.coinType).toBytes := by
  obtain ⟨hc, owner, ho⟩ := h
  simp only [CoinSnapshot.coinAt, Option.bind_eq_bind, Option.bind_eq_some_iff,
    Option.some.injEq] at hc
  obtain ⟨objects, hob, bytes, hb, state, hs, heq⟩ := hc
  have hs' : state = ⟨owner.toText, coin.balance, coin.version, coin.coinType⟩ := by
    rw [← ho, ← heq]
  refine ⟨owner, ?_⟩
  rw [CoinSnapshot.objectFromSubnet, hob, Option.bind_some, hb,
    CoinState.eq_toBytes_of_fromBytes hs, hs']

variable {D : Type} (H : Blake3 D)

/-- A task for a transfer, `solver_task.rs:25-53`, without the identity of its event. Proofs of
the read values are not looked at. -/
structure TransferSolverTask where
  payload : PreparedPayload
  resolvedInputs : TaskInputs
  readSet : List ReadSetEntry

namespace TransferPreparer

/-- A coin as an input of a task. -/
def resolvedCoin (coin : CoinInfo) : ResolvedObject := ⟨coin.objectId, "Coin", coin.version⟩

/-- The entry of an object that is there. -/
def foundEntry (id : ObjectId) (data : Option Bytes) : List ReadSetEntry :=
  (data.map fun data ↦ ⟨objectKey id, data⟩).toList

variable (snapshot : CoinSnapshot)

/-- The read set of a transfer from one coin, `single.rs:188-234` and `batch.rs:592-630`. -/
def transferReadSet (sender : String) (coinId : ObjectId) (coinData : Bytes) : List ReadSetEntry :=
  let fluxOid := fluxStateObjectId H sender
  let powerOid := powerStateObjectId H sender
  let rpOid := resourceParamsObjectId H
  ⟨objectKey coinId, coinData⟩ ::
    (foundEntry fluxOid (snapshot.object fluxOid) ++
      foundEntry powerOid (snapshot.object powerOid) ++
      foundEntry rpOid (snapshot.objectFromSubnet SubnetId.governance rpOid))

/-- `batch.rs:575-647`, which does what `prepare_transfer_task` does with the coin
it has selected, `single.rs:174-261`. -/
def assembleTask (transfer : Transfer) (coin : CoinInfo) (objectData : Bytes)
    : TransferSolverTask where
  payload := .transfer transfer
  resolvedInputs := ⟨.transfer 0 transfer.amount, [resolvedCoin coin], []⟩
  readSet := transferReadSet H snapshot transfer.sender coin.objectId objectData

/-- `single.rs:684-708`. -/
def buildReadSet (subnet : SubnetId) (ids : List ObjectId) :
    Except TransferPrepareError (List ReadSetEntry) :=
  ids.mapM fun id ↦ do
    let data ← okOr (snapshot.objectFromSubnet subnet id)
      (.objectNotFound (hexEncode id.asBytes))
    pure ⟨objectKey id, data⟩

/-- `single.rs:596-679`. -/
def prepareMergeThenTransferTask (target : CoinInfo) (sources : List CoinInfo)
    (recipient : Address) (amount : UInt64) (subnet : SubnetId) :
    Except TransferPrepareError TransferSolverTask := do
  let payload ← prepareMergeThenTransfer target sources recipient amount
  let readSet ← buildReadSet snapshot subnet ((target :: sources).map (·.objectId))
  pure ⟨payload,
    ⟨.mergeThenTransfer 0 (List.range' 1 sources.length) recipient amount,
      (target :: sources).map resolvedCoin, []⟩, readSet⟩

/-- `single.rs:119-261`. -/
def prepareTransferTask (transfer : Transfer) (subnet : SubnetId) :
    Except TransferPrepareError TransferSolverTask := do
  let coins := getCoinsForAddressInSubnet H snapshot transfer.sender subnet
  match ← selectCoinsForTransfer coins transfer.amount with
  | .needMerge target sources =>
    prepareMergeThenTransferTask snapshot target sources (Address.normalize H transfer.recipient)
      transfer.amount subnet
  | .singleCoin coin => do
    let coinData ← okOr (snapshot.objectFromSubnet subnet coin.objectId)
      (.objectNotFound (hexEncode coin.objectId.asBytes))
    pure (assembleTask H snapshot transfer coin coinData)

end TransferPreparer

/-- The event of the task as the enclave reads it. -/
def TransferSolverTask.taskEvent (task : TransferSolverTask) (created : Event) : TaskEvent :=
  match task.payload with
  | .transfer t =>
    ⟨created.id, .transfer, created.timestamp, some ⟨t.sender, t.recipient, t.amount⟩, .other⟩
  | .mergeThenTransfer .. =>
    ⟨created.id, .coinMergeThenTransfer, created.timestamp, none, .coinMergeThenTransfer⟩

/-- The enclave's input for the task; a transfer calls no module. -/
def TransferSolverTask.stfInput (task : TransferSolverTask) (created : Event)
    (gasBudget : UInt64) : StfInput :=
  ⟨[task.taskEvent created], task.resolvedInputs, task.readSet, [], gasBudget⟩

variable {S : Type} (engine : Move.SetuMoveEngine S) (json : ResourceJson)

/-- A task that the enclave has executed successfully, for the event created for it. -/
structure ExecutedTransfer where
  subnetId : SubnetId
  task : TransferSolverTask
  created : Event
  gasBudget : UInt64
  markers : HashMap String Bytes
  recorded : List Recorded
  final : TaskState
  executed : (task.stfInput created gasBudget).execute H engine json markers =
    .ok ([.ok recorded], final)
  executionTimeUs : UInt64
  solverMessage : String
  suffix : String

namespace ExecutedTransfer

variable {H engine json}

/-- The enclave's output. -/
def stfOutput (e : ExecutedTransfer H engine json) : StfOutput :=
  ⟨recordedDiff e.final.recorded, [e.created.id], [], e.executionTimeUs⟩

/-- The executed event. -/
def event (codec : TransferCodec) (e : ExecutedTransfer H engine json) : Event :=
  { e.created with
    subnetId := some e.subnetId
    payload := e.task.payload.toEventPayload codec
    status := .executed
    executionResult := some (executedResult (.fromStfOutput e.stfOutput) e.subnetId
      (nonceMarker H codec e.subnetId e.created.timestamp e.task.payload) e.solverMessage
      e.suffix) }

/-- The event with the record of its execution. -/
def pipeline (codec : TransferCodec) (e : ExecutedTransfer H engine json) : PipelineEvent where
  event := e.event codec
  recorded := e.final.recorded
  stf := e.stfOutput
  taskSubnet := e.subnetId
  marker := nonceMarker H codec e.subnetId e.created.timestamp e.task.payload
  solverMessage := e.solverMessage
  suffix := e.suffix
  stateDiff_eq := rfl
  executionResult_eq := rfl

end ExecutedTransfer

end Setu.Validator
