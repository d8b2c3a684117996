import Setu.Move.CoinFunctions
import Setu.Validator.TransferTask

/-!
# A freshly prepared transfer

Library `Validator`. A transfer that was prepared from a state and executed is applied to the same
state. The state changes of a transfer from one coin go to the task's subnet, the power and flux of
the sender among them, although these were read from the root subnet: outside of the root subnet
such a transfer of a registered sender is refused. Sources `task_preparer/single.rs`,
`network/tee_executor.rs` and `storage/src/state/manager.rs`.
-/

namespace Setu.Validator

open Setu.Base Setu.Types Setu.State Setu.Enclave Setu.Runtime Recorded
open InPlace (StateStore)

variable {D : Type} (H : Blake3 D)

/-- The object that marks an event as processed. -/
def processedId (eventId : EventId) : ObjectId := parseStateChangeKey H ("event:" ++ eventId)

/-- The coin that a transfer of a part of a coin makes. -/
def madeCoinId (eventId : EventId) : ObjectId := coinIdFromTx H (deriveTxHash H eventId) 0

/-- The nonce marker that a transfer makes. -/
def nonceKeys (transfer : Transfer) : List (SubnetId × ObjectId) :=
  (transfer.authorization.map (markerKey H)).toList

/-- The objects that a transfer from one coin reads beside the coin. -/
def resourceIds (sender : String) : List ObjectId :=
  [powerStateObjectId H sender, fluxStateObjectId H sender, resourceParamsObjectId H]

/-- The identifiers are different, as digests of different texts. -/
structure IdsApart (transfer : Transfer) (eventId : EventId) (coins : List CoinInfo) : Prop where
  nodup : (madeCoinId H eventId :: processedId H eventId :: resourceIds H transfer.sender ++
    (nonceKeys H transfer).map Prod.snd).Nodup
  coins : ∀ coin ∈ coins, coin.objectId ∉ resourceIds H transfer.sender

variable (json : ResourceJson)

/-- The sender's power and flux, if any, are stored in the root subnet as registration and charges
write them. -/
structure Registered (s : Objects) (sender : String) (power : Option PowerState)
    (flux : Option FluxState) : Prop where
  power_eq : s (.root, powerStateObjectId H sender) = power.map json.powerBytes
  flux_eq : s (.root, fluxStateObjectId H sender) = flux.map json.fluxBytes
  powerId : ∀ p ∈ power, powerStateObjectId H p.address = powerStateObjectId H sender
  fluxId : ∀ f ∈ flux, fluxStateObjectId H f.address = fluxStateObjectId H sender

/-- The resource parameters that are in force. -/
def paramsInForce (s : Objects) : ResourceParams :=
  ((s (.governance, resourceParamsObjectId H)).bind json.parseParams).getD .default

/-- The subnet's own tree holds the power and flux that the root subnet holds, as far as a transfer
charges them. -/
def ResourcesShared (s : Objects) (sender : String) (subnet : SubnetId) : Prop :=
  (s (.root, powerStateObjectId H sender) ≠ none →
    s (subnet, powerStateObjectId H sender) = s (.root, powerStateObjectId H sender)) ∧
  (s (.root, fluxStateObjectId H sender) ≠ none → 0 < (paramsInForce H json s).fluxRewardOnSuccess →
    s (subnet, fluxStateObjectId H sender) = s (.root, fluxStateObjectId H sender))

/-- How tasks for a transfer are prepared from the coins that the state lists for the sender: one by
one, or in a batch for a coin that covers the amount. -/
inductive Prepares (snapshot : CoinSnapshot) (transfer : Transfer) (subnet : SubnetId) :
    List CoinInfo → TransferSolverTask → Prop
  | single {task : TransferSolverTask}
      (h : TransferPreparer.prepareTransferTask H snapshot transfer subnet = .ok task) :
      Prepares snapshot transfer subnet
        (getCoinsForAddressInSubnet H snapshot transfer.sender subnet) task
  | batch {coins : List CoinInfo} {coin : CoinInfo} {objectData : Bytes} (hcoin : coin ∈ coins)
      (hcovers : transfer.amount ≤ coin.balance)
      (hdata : snapshot.objectFromSubnet subnet coin.objectId = some objectData) :
      Prepares snapshot transfer subnet coins
        (TransferPreparer.assembleTask H snapshot transfer coin objectData)

variable {S : Type} {engine : Move.SetuMoveEngine S}

variable {H json} in
/-- Nothing that the transfer makes is there: neither for the enclave nor in the state. -/
structure ExecutedTransfer.Fresh (s : Objects) (transfer : Transfer)
    (e : ExecutedTransfer H engine json) : Prop where
  unprocessed : e.markers.lookup ("event:" ++ e.created.id) = none
  processed : s (e.subnetId, processedId H e.created.id) = none
  madeCoin : s (e.subnetId, madeCoinId H e.created.id) = none
  nonce : ∀ key ∈ nonceKeys H transfer, s key = none

variable (subnet : SubnetId)

/-- The write of a change of the coin runtime. -/
def runtimeWrite (change : Runtime.StateChange) : Write (SubnetId × ObjectId) Bytes :=
  ⟨(subnet, change.objectId), change.oldState, some (change.newState.getD [])⟩

/-- The write of the processed marker. -/
def processedWrite (eventId : EventId) : Write (SubnetId × ObjectId) Bytes :=
  ⟨(subnet, processedId H eventId), none, some (strBytes ("processed:" ++ eventId))⟩

/-- The write of the nonce marker. -/
def nonceWrites (codec : TransferCodec) (subnet : SubnetId) (timestamp : UInt64)
    (payload : PreparedPayload) : List (Write (SubnetId × ObjectId) Bytes) :=
  ((nonceMarker H codec subnet timestamp payload).map fun m ↦
    ⟨(.root, parseStateChangeKey H m.1), none, some m.2⟩).toList

variable {H json} (changes : List Runtime.StateChange)

private theorem writes_runtime :
    ((changes.map runtime).filterMap write?).map (entryWrite H subnet) =
      changes.map (runtimeWrite subnet) := by
  have hw : write? ∘ runtime = some ∘ fun change ↦
      WriteSetEntry.fromStateChange change.objectId change.oldState (change.newState.getD []) := rfl
  rw [List.filterMap_map, hw, List.filterMap_eq_map, List.map_map]
  apply List.map_congr_left
  intro change _
  simp [entryWrite, runtimeWrite, WriteSetEntry.fromStateChange]

private theorem deletes_runtime :
    (changes.map runtime).filterMap delete? = [] := by
  simp [List.filterMap_eq_nil_iff, delete?]

/-- The writes of a transfer are those of the runtime around the processed marker, and the nonce
marker. -/
theorem ExecutedTransfer.eventWrites_eq (codec : TransferCodec) (e : ExecutedTransfer H engine json)
    {before after : List Runtime.StateChange}
    (h : e.final.recorded = before.map .runtime ++ [.entry (processedEntry e.created.id none)] ++
      after.map .runtime) :
    eventWrites H (e.event codec) = some (before.map (runtimeWrite e.subnetId) ++
      [processedWrite H e.subnetId e.created.id] ++ after.map (runtimeWrite e.subnetId) ++
      nonceWrites H codec e.subnetId e.created.timestamp e.task.payload) := by
  obtain ⟨ws, hws⟩ : ∃ ws, eventWrites H (e.event codec) = some ws := ⟨_, rfl⟩
  have heq := (e.pipeline codec).writes_eq hws
  have hd : (e.pipeline codec).stf.stateDiff = recordedDiff e.final.recorded := rfl
  rw [hd, recordedDiff_eq, h] at heq
  simp only [List.filterMap_append, deletes_runtime, List.map_append, writes_runtime] at heq
  rw [hws, heq]
  have hm : (e.pipeline codec).marker.toList.map (entryWrite H .root ∘ fun m ↦ ⟨m.1, none, m.2⟩) =
      nonceWrites H codec e.subnetId e.created.timestamp e.task.payload := by
    rw [nonceWrites, Option.toList_map]
    rfl
  rw [hm]
  simp [write?, delete?, processedWrite, processedEntry, entryWrite,
    processedId, ExecutedTransfer.pipeline]

section ReadSet

open TransferPreparer

variable {snapshot : CoinSnapshot} {sender : String} {coinId : ObjectId} {coinData : Bytes}

private theorem nodup_resourceIds {transfer : Transfer} {eventId : EventId}
    {coins : List CoinInfo} (h : IdsApart H transfer eventId coins) :
    (resourceIds H transfer.sender).Nodup :=
  h.nodup.sublist (((List.sublist_append_left _ _).cons _).cons _)

/-- The turn of `extract_power_flux` for one entry. -/
private def extractStep (H : Blake3 D) (json : ResourceJson) (sender : String)
    (found : Option PowerState × Option FluxState) (entry : ReadSetEntry) :
    Option PowerState × Option FluxState :=
  if entry.key = objectKey (powerStateObjectId H sender) then
    ((json.parsePower entry.value).or found.1, found.2)
  else if entry.key = objectKey (fluxStateObjectId H sender) then
    (found.1, (json.parseFlux entry.value).or found.2)
  else found

private theorem extractStep_other {found : Option PowerState × Option FluxState} {id : ObjectId}
    {data : Bytes} (hp : id ≠ powerStateObjectId H sender)
    (hf : id ≠ fluxStateObjectId H sender) :
    extractStep H json sender found ⟨objectKey id, data⟩ = found := by
  rw [extractStep, if_neg (mt objectKey_inj.mp hp), if_neg (mt objectKey_inj.mp hf)]

variable (data : Option Bytes)

private theorem foldl_foundEntry_other {found : Option PowerState × Option FluxState}
    {id : ObjectId} (hp : id ≠ powerStateObjectId H sender) (hf : id ≠ fluxStateObjectId H sender) :
    (foundEntry id data).foldl (extractStep H json sender) found = found := by
  cases data with
  | none => rfl
  | some data => exact extractStep_other hp hf

private theorem foldl_foundEntry_flux
    (hne : fluxStateObjectId H sender ≠ powerStateObjectId H sender) :
    (foundEntry (fluxStateObjectId H sender) data).foldl (extractStep H json sender) (none, none) =
      (none, data.bind json.parseFlux) := by
  cases data with
  | none => rfl
  | some data =>
    rw [foundEntry, Option.map_some, Option.toList_some, List.foldl_cons, List.foldl_nil,
      extractStep]
    simp only [objectKey_inj, hne, if_false, if_true, Option.or_none, Option.bind_some]

private theorem foldl_foundEntry_power (flux : Option FluxState) :
    (foundEntry (powerStateObjectId H sender) data).foldl (extractStep H json sender) (none, flux) =
      (data.bind json.parsePower, flux) := by
  cases data with
  | none => rfl
  | some data =>
    rw [foundEntry, Option.map_some, Option.toList_some, List.foldl_cons, List.foldl_nil,
      extractStep]
    simp only [if_true, Option.or_none, Option.bind_some]

theorem extractPowerFlux_transferReadSet (hn : (resourceIds H sender).Nodup)
    (hc : coinId ∉ resourceIds H sender) :
    extractPowerFlux H json (transferReadSet H snapshot sender coinId coinData) sender =
      ((snapshot.object (powerStateObjectId H sender)).bind json.parsePower,
        (snapshot.object (fluxStateObjectId H sender)).bind json.parseFlux) := by
  simp only [resourceIds, List.nodup_cons, List.mem_cons, List.not_mem_nil, or_false, not_or,
    List.nodup_nil, and_true, not_false_eq_true] at hn hc
  obtain ⟨⟨hp, hpP⟩, hf⟩ := hn
  obtain ⟨hcP, hcF, -⟩ := hc
  change (transferReadSet H snapshot sender coinId coinData).foldl (extractStep H json sender)
    (none, none) = _
  rw [transferReadSet, List.foldl_cons, extractStep_other hcP hcF, List.foldl_append,
    List.foldl_append, foldl_foundEntry_flux _ (Ne.symm hp), foldl_foundEntry_power,
    foldl_foundEntry_other _ (Ne.symm hpP) (Ne.symm hf)]

private theorem filter_foundEntry_other {id id' : ObjectId} (hne : id ≠ id') :
    (foundEntry id data).filter (fun entry ↦ entry.key = objectKey id') = [] := by
  cases data with
  | none => rfl
  | some data => exact List.filter_cons_of_neg (by simpa using mt objectKey_inj.mp hne)

private theorem filter_foundEntry_self (id : ObjectId) (data : Option Bytes) :
    (foundEntry id data).filter (fun entry ↦ entry.key = objectKey id) = foundEntry id data := by
  cases data with
  | none => rfl
  | some data => exact List.filter_cons_of_pos (by simp)

theorem extractResourceParams_transferReadSet (hn : (resourceIds H sender).Nodup)
    (hc : coinId ∉ resourceIds H sender) :
    extractResourceParams H json (transferReadSet H snapshot sender coinId coinData) =
      ((snapshot.objectFromSubnet SubnetId.governance (resourceParamsObjectId H)).bind
        json.parseParams).getD .default := by
  simp only [resourceIds, List.nodup_cons, List.mem_cons, List.not_mem_nil, or_false, not_or,
    List.nodup_nil, and_true, not_false_eq_true] at hn hc
  obtain ⟨⟨-, hp⟩, hf⟩ := hn
  obtain ⟨-, -, hcP⟩ := hc
  rw [extractResourceParams, transferReadSet, List.filter_cons_of_neg
    (by simpa using mt objectKey_inj.mp hcP), List.filter_append, List.filter_append,
    filter_foundEntry_other _ hf, filter_foundEntry_other _ hp,
    filter_foundEntry_self]
  cases snapshot.objectFromSubnet SubnetId.governance (resourceParamsObjectId H) with
  | none => rfl
  | some data => simp [foundEntry]

theorem keys_transferReadSet :
    ∀ entry ∈ transferReadSet H snapshot sender coinId coinData,
      ∃ id, entry.key = objectKey id := by
  intro entry he
  simp only [transferReadSet, foundEntry, List.mem_cons, List.mem_append, Option.mem_toList,
    Option.map_eq_some_iff] at he
  rcases he with rfl | (⟨_, -, rfl⟩ | ⟨_, -, rfl⟩) | ⟨_, -, rfl⟩
  · exact ⟨_, rfl⟩
  · exact ⟨_, rfl⟩
  · exact ⟨_, rfl⟩
  · exact ⟨_, rfl⟩

/-- The entry of the coin is the only one under its key. -/
theorem value_of_mem_transferReadSet (hc : coinId ∉ resourceIds H sender) {value : Bytes}
    (h : ⟨objectKey coinId, value⟩ ∈ transferReadSet H snapshot sender coinId coinData) :
    value = coinData := by
  simp only [resourceIds, List.mem_cons, List.not_mem_nil, or_false, not_or] at hc
  obtain ⟨hp, hf, hpa⟩ := hc
  simp only [transferReadSet, foundEntry, List.mem_cons, List.mem_append, Option.mem_toList,
    Option.map_eq_some_iff, ReadSetEntry.mk.injEq, objectKey_inj, true_and] at h
  rcases h with rfl | (⟨_, -, heq, -⟩ | ⟨_, -, heq, -⟩) | ⟨_, -, heq, -⟩
  · rfl
  · exact absurd heq.symm hf
  · exact absurd heq.symm hp
  · exact absurd heq.symm hpa

end ReadSet

theorem chargePower_eq_ok {params : ResourceParams} {event : TaskEvent}
    {power power' : Option PowerState} {consumed : List Recorded}
    (hc : shouldConsumePower event.eventType = true)
    (h : chargePower H json params event power = .ok (consumed, power')) :
    consumed = (power.toList.map (powerChange H json params.powerCostPerEvent)).map .runtime := by
  unfold chargePower at h
  rw [if_pos hc] at h
  cases power with
  | none =>
    cases h
    rfl
  | some p =>
    dsimp only at h
    split at h
    · next change next hd =>
      cases h
      rw [decrementPower_eq_ok H json hd]
      rfl
    · cases h

/-- The changes of a flux reward. -/
def fluxChanges (H : Blake3 D) (json : ResourceJson) (reward timestamp : UInt64)
    (flux : Option FluxState) : List Runtime.StateChange :=
  if 0 < reward then flux.toList.map fun f ↦ (incrementFlux H json f timestamp reward).1 else []

theorem chargeFlux_eq {event : TaskEvent} {flux : Option FluxState} {reward : UInt64}
    (hc : shouldConsumePower event.eventType = true) :
    (chargeFlux (incrementFlux H json) reward event flux).1 =
      (fluxChanges H json reward event.timestamp flux).map .runtime := by
  unfold chargeFlux fluxChanges
  by_cases hr : 0 < reward
  · cases flux with
    | none => simp
    | some f => simp [hc, hr]
  · cases flux with
    | none => simp
    | some f => simp [hr]

section Single

variable {snapshot : CoinSnapshot} {s : Objects} {transfer : Transfer} {coin : CoinInfo}
  {coinData : Bytes} {power : Option PowerState} {flux : Option FluxState}
  {e : ExecutedTransfer H engine json}

/-- What the enclave records for a transfer from a stored coin. -/
theorem recorded_of_assembleTask (hj : json.Lawful)
    (hs : ∀ subnet id, snapshot.objectFromSubnet subnet id = s (subnet, id))
    (hr : Registered H json s transfer.sender power flux)
    (hn : (resourceIds H transfer.sender).Nodup)
    (hc : coin.objectId ∉ resourceIds H transfer.sender)
    (hu : e.markers.lookup ("event:" ++ e.created.id) = none)
    (ht : e.task = TransferPreparer.assembleTask H snapshot transfer coin coinData)
    {owner : Address} {balance version : UInt64} {coinType : String}
    (hd : coinData = (CoinState.mk owner.toText balance version coinType).toBytes) :
    ∃ left created, CreatesCoin (madeCoinId H e.created.id) created ∧
      e.final.recorded =
        (power.toList.map (powerChange H json (paramsInForce H json s).powerCostPerEvent) ++
          ⟨.update, coin.objectId, some coinData, some left⟩ :: created).map .runtime ++
        [.entry (processedEntry e.created.id none)] ++
        (fluxChanges H json (paramsInForce H json s).fluxRewardOnSuccess e.created.timestamp
          flux).map .runtime := by
  have he := e.executed
  rw [ht] at he
  obtain ⟨store, consumed, power', changes, rt, hst, hpo, hru, hre⟩ :=
    StfInput.execute_single H engine json rfl he
  have hex : extractPowerFlux H json (TransferPreparer.transferReadSet H snapshot
      transfer.sender coin.objectId coinData) transfer.sender = (power, flux) := by
    rw [extractPowerFlux_transferReadSet hn hc, CoinSnapshot.object, CoinSnapshot.object,
      hs, hs, hr.power_eq, hr.flux_eq]
    cases power <;> cases flux <;>
      simp [hj.parsePower_powerBytes, hj.parseFlux_fluxBytes]
  have hi : ((TransferPreparer.assembleTask H snapshot transfer coin coinData).stfInput
      e.created e.gasBudget).initial H json store e.markers =
        ⟨store, power, flux, e.markers, []⟩ := by
    change (⟨store, (extractPowerFlux H json (TransferPreparer.transferReadSet H snapshot
      transfer.sender coin.objectId coinData) transfer.sender).1, (extractPowerFlux H json
      (TransferPreparer.transferReadSet H snapshot transfer.sender coin.objectId coinData)
      transfer.sender).2, e.markers, []⟩ : TaskState) = _
    rw [hex]
  have hp : extractResourceParams H json ((TransferPreparer.assembleTask H snapshot transfer
      coin coinData).stfInput e.created e.gasBudget).readSet = paramsInForce H json s := by
    rw [paramsInForce, ← hs]
    exact extractResourceParams_transferReadSet hn hc
  obtain ⟨output, ho, rfl⟩ := Exec.map_eq_ok.mp hru
  obtain ⟨coinId, hcI, htr⟩ := Exec.check_bind_eq_ok.mp ho
  obtain rfl : coin.objectId = coinId := Option.some.inj (okOr_eq_ok.mp hcI)
  obtain ⟨found, hf, left, created, hch, hcr⟩ :=
    transferChanges_executeTransferWithCoin (Exec.mapError_eq_ok.mp htr)
  obtain ⟨value, env, hm, hen, hev⟩ := exists_entry_of_getObject hst keys_transferReadSet hf
  obtain rfl := value_of_mem_transferReadSet hc hm
  rw [hd] at hen
  have hb := (toCoinStateBytes_of_objectEntry hen hev).trans hd.symm
  refine ⟨left, created, hcr, ?_⟩
  rw [hre, hi, hp, chargeFlux_eq rfl, chargePower_eq_ok rfl hpo, hp,
    hi, coinRecorded, hch, hb, ← List.map_append]
  have hid : ((TransferPreparer.assembleTask H snapshot transfer coin value).taskEvent
    e.created).id = e.created.id := rfl
  rw [hid, hu]
  rfl

/-- The objects that a transfer from one coin may write. -/
def writtenKeys (H : Blake3 D) (subnet : SubnetId) (transfer : Transfer) (eventId : EventId)
    (coinId : ObjectId) : List (SubnetId × ObjectId) :=
  [powerStateObjectId H transfer.sender, coinId, madeCoinId H eventId, processedId H eventId,
    fluxStateObjectId H transfer.sender].map (Prod.mk subnet) ++ nonceKeys H transfer

private theorem ne_of_fresh (hf : e.Fresh s transfer) {id : ObjectId}
    (hs : s (e.subnetId, id) ≠ none) :
    id ≠ madeCoinId H e.created.id ∧ id ≠ processedId H e.created.id :=
  ⟨fun heq ↦ hs (heq ▸ hf.madeCoin), fun heq ↦ hs (heq ▸ hf.processed)⟩

theorem nodup_writtenKeys {coins : List CoinInfo}
    (hap : IdsApart H transfer e.created.id coins) (hc : coin ∈ coins)
    (hf : e.Fresh s transfer) (hs : s (e.subnetId, coin.objectId) ≠ none) :
    (writtenKeys H e.subnetId transfer e.created.id coin.objectId).Nodup := by
  have hn := hap.nodup
  have hr := hap.coins coin hc
  obtain ⟨hm, hp⟩ := ne_of_fresh hf hs
  have hno : ∀ key ∈ nonceKeys H transfer, (e.subnetId, coin.objectId) ≠ key := by
    rintro key hk rfl
    exact hs (hf.nonce _ hk)
  unfold writtenKeys nonceKeys
  unfold nonceKeys at hn hno
  simp only [resourceIds, List.mem_cons, List.not_mem_nil, or_false, not_or] at hr hn
  cases ha : transfer.authorization with
  | none =>
    simp only [ha, Option.map_none, Option.toList_none, List.map_nil, List.append_nil,
      List.nodup_cons, List.mem_cons, List.not_mem_nil, or_false, not_or, List.nodup_nil,
      and_true, not_false_eq_true, List.map_cons, Prod.mk.injEq, true_and] at hn ⊢
    grind
  | some auth =>
    simp only [ha, Option.map_some, Option.toList_some, List.mem_singleton, forall_eq] at hno
    simp only [ha, Option.map_some, Option.toList_some, List.map_cons, List.map_nil,
      List.cons_append, List.nil_append, List.nodup_cons, List.mem_cons, List.not_mem_nil,
      or_false, not_or, List.nodup_nil, and_true, not_false_eq_true, Prod.mk.injEq,
      true_and] at hn ⊢
    grind

variable (codec : TransferCodec)

private theorem map_key_nonceWrites (subnet : SubnetId) (timestamp : UInt64) :
    (nonceWrites H codec subnet timestamp (.transfer transfer)).map Write.key =
      nonceKeys H transfer := by
  cases ha : transfer.authorization with
  | none => simp [nonceWrites, nonceKeys, nonceMarker, ha]
  | some auth => simp [nonceWrites, nonceKeys, nonceMarker, ha, markerKey]

private theorem fits_nonceWrites (subnet : SubnetId) (timestamp : UInt64)
    (hf : ∀ key ∈ nonceKeys H transfer, s key = none) :
    ∀ w ∈ nonceWrites H codec subnet timestamp (.transfer transfer), w.Fits s := by
  intro w hw
  have hk : w.key ∈ nonceKeys H transfer := by
    rw [← map_key_nonceWrites codec subnet timestamp]
    exact List.mem_map_of_mem hw
  simp only [nonceWrites, Option.mem_toList, Option.map_eq_some_iff] at hw
  obtain ⟨m, -, rfl⟩ := hw
  exact (Write.fits_of_creates ⟨rfl, Option.some_ne_none _⟩).mpr (hf _ hk)

private theorem fits_created {subnet : SubnetId} {newId : ObjectId}
    {created : List Runtime.StateChange} (hc : CreatesCoin newId created)
    (hf : s (subnet, newId) = none) :
    ∀ w ∈ created.map (runtimeWrite subnet), w.Fits s := by
  rcases hc with rfl | ⟨bytes, rfl⟩
  · exact List.forall_mem_nil _
  · rw [List.map_singleton, List.forall_mem_singleton]
    exact (Write.fits_of_creates ⟨rfl, Option.some_ne_none _⟩).mpr hf

private theorem sublist_created (subnet : SubnetId) {newId : ObjectId}
    {created : List Runtime.StateChange} (hc : CreatesCoin newId created) :
    ((created.map (runtimeWrite subnet)).map Write.key).Sublist [(subnet, newId)] := by
  rcases hc with rfl | ⟨bytes, rfl⟩
  · exact List.nil_sublist _
  · exact List.Sublist.refl _

/-- What is charged is written to the subnet, over what the root subnet holds. -/
private theorem charged_spec {α : Type} {charged : Option α} {bytes : α → Bytes} {id : ObjectId}
    (hr : s (.root, id) = charged.map bytes) (subnet : SubnetId) (change : α → Runtime.StateChange)
    (hc : ∀ a ∈ charged, (change a).objectId = id ∧ (change a).oldState = some (bytes a)) :
    ((∀ w ∈ (charged.toList.map change).map (runtimeWrite subnet), w.Fits s) ↔
        (s (.root, id) ≠ none → s (subnet, id) = s (.root, id))) ∧
      (((charged.toList.map change).map (runtimeWrite subnet)).map Write.key).Sublist
        [(subnet, id)] := by
  rw [hr]
  cases charged with
  | none => simp
  | some a =>
    obtain ⟨hid, ho⟩ := hc a rfl
    simp [runtimeWrite, Write.fits_of_expected, hid, ho]

private theorem flux_spec (hr : Registered H json s transfer.sender power flux)
    (subnet : SubnetId) (reward timestamp : UInt64) :
    ((∀ w ∈ (fluxChanges H json reward timestamp flux).map (runtimeWrite subnet), w.Fits s) ↔
        (s (.root, fluxStateObjectId H transfer.sender) ≠ none → 0 < reward →
          s (subnet, fluxStateObjectId H transfer.sender) =
            s (.root, fluxStateObjectId H transfer.sender))) ∧
      (((fluxChanges H json reward timestamp flux).map (runtimeWrite subnet)).map
        Write.key).Sublist [(subnet, fluxStateObjectId H transfer.sender)] := by
  unfold fluxChanges
  by_cases hre : 0 < reward
  · simp only [hre, if_true, true_imp_iff]
    exact charged_spec hr.flux_eq subnet _ fun f hf ↦ ⟨hr.fluxId f hf, rfl⟩
  · simp [hre]

variable (H json) in
/-- The writes of a transfer from one coin, which leaves the given bytes of the coin. -/
def transferWrites (params : ResourceParams) (transfer : Transfer) (power : Option PowerState)
    (flux : Option FluxState) (subnet : SubnetId) (created : Event) (coinId : ObjectId)
    (coinData left : Bytes) (made : List Runtime.StateChange) :
    List (Write (SubnetId × ObjectId) Bytes) :=
  (power.toList.map (powerChange H json params.powerCostPerEvent)).map (runtimeWrite subnet) ++
    runtimeWrite subnet ⟨.update, coinId, some coinData, some left⟩ ::
      made.map (runtimeWrite subnet) ++
    [processedWrite H subnet created.id] ++
    (fluxChanges H json params.fluxRewardOnSuccess created.timestamp flux).map
      (runtimeWrite subnet) ++
    nonceWrites H codec subnet created.timestamp (.transfer transfer)

theorem sublist_transferWrites (params : ResourceParams)
    (hr : Registered H json s transfer.sender power flux) (subnet : SubnetId) (created : Event)
    {coinId : ObjectId} {left : Bytes} {made : List Runtime.StateChange}
    (hm : CreatesCoin (madeCoinId H created.id) made) :
    ((transferWrites H json codec params transfer power flux subnet created coinId coinData left
      made).map Write.key).Sublist (writtenKeys H subnet transfer created.id coinId) := by
  have hp := (charged_spec hr.power_eq subnet (powerChange H json
    params.powerCostPerEvent) fun p hp ↦ ⟨hr.powerId p hp, rfl⟩).2
  have hc := (sublist_created subnet hm).cons_cons (subnet, coinId)
  have hf := (flux_spec hr subnet params.fluxRewardOnSuccess created.timestamp).2
  have hpr := List.Sublist.refl [(subnet, processedId H created.id)]
  simp only [transferWrites, List.map_append, List.map_cons, List.map_nil, map_key_nonceWrites]
  exact (((hp.append hc).append hpr).append hf).append (List.Sublist.refl _)

/-- The writes fit if the resources that the transfer charges are where it writes them. -/
theorem fits_transferWrites_iff (params : ResourceParams)
    (hr : Registered H json s transfer.sender power flux) {coinId : ObjectId} {left : Bytes}
    {made : List Runtime.StateChange} (hm : CreatesCoin (madeCoinId H e.created.id) made)
    (hf : e.Fresh s transfer) (hs : s (e.subnetId, coinId) = some coinData) :
    (∀ w ∈ transferWrites H json codec params transfer power flux e.subnetId e.created coinId
        coinData left made, w.Fits s) ↔
      (s (.root, powerStateObjectId H transfer.sender) ≠ none →
        s (e.subnetId, powerStateObjectId H transfer.sender) =
          s (.root, powerStateObjectId H transfer.sender)) ∧
      (s (.root, fluxStateObjectId H transfer.sender) ≠ none → 0 < params.fluxRewardOnSuccess →
        s (e.subnetId, fluxStateObjectId H transfer.sender) =
          s (.root, fluxStateObjectId H transfer.sender)) := by
  have hu : Write.Fits s (runtimeWrite e.subnetId
      ⟨.update, coinId, some coinData, some left⟩) := (Write.fits_of_expected rfl).mpr hs
  have hpr : (processedWrite H e.subnetId e.created.id).Fits s :=
    (Write.fits_of_creates ⟨rfl, Option.some_ne_none _⟩).mpr hf.processed
  have hp := (charged_spec hr.power_eq e.subnetId (powerChange H json
    params.powerCostPerEvent) fun p hp ↦ ⟨hr.powerId p hp, rfl⟩).1
  simp only [transferWrites, List.forall_mem_append, List.forall_mem_cons, hp,
    (flux_spec hr _ _ _).1]
  constructor
  · rintro ⟨⟨⟨⟨hp, -⟩, -⟩, hfl⟩, -⟩
    exact ⟨hp, hfl⟩
  · rintro ⟨hp, hfl⟩
    exact ⟨⟨⟨⟨hp, hu, fits_created hm hf.madeCoin⟩, hpr,
      List.forall_mem_nil _⟩, hfl⟩, fits_nonceWrites codec _ _ hf.nonce⟩

/-- A transfer from one coin is admitted if the resources that it charges are where it writes
them. -/
theorem admits_iff_of_assembleTask (hj : json.Lawful)
    (hs : ∀ subnet id, snapshot.objectFromSubnet subnet id = s (subnet, id))
    (hr : Registered H json s transfer.sender power flux) {coins : List CoinInfo}
    (ha : IdsApart H transfer e.created.id coins) (hc : coin ∈ coins)
    (hi : coin.InPlace snapshot e.subnetId) (hf : e.Fresh s transfer)
    (hd : snapshot.objectFromSubnet e.subnetId coin.objectId = some coinData)
    (ht : e.task = TransferPreparer.assembleTask H snapshot transfer coin coinData) :
    Admits H s (e.event codec) ↔ ResourcesShared H json s transfer.sender e.subnetId := by
  have hst : s (e.subnetId, coin.objectId) = some coinData := hs e.subnetId _ ▸ hd
  obtain ⟨owner, ho⟩ := hi.objectFromSubnet
  obtain ⟨left, made, hm, hre⟩ := recorded_of_assembleTask hj hs hr
    (nodup_resourceIds ha) (ha.coins coin hc) hf.unprocessed ht
    (Option.some.inj (hd.symm.trans ho))
  have hp : e.task.payload = .transfer transfer := by
    rw [ht]
    rfl
  have hws : eventWrites H (e.event codec) = some (transferWrites H json codec
      (paramsInForce H json s) transfer power flux e.subnetId e.created coin.objectId coinData left
      made) := by
    rw [e.eventWrites_eq codec hre, hp, transferWrites, List.map_append, List.map_cons]
  have hk := nodup_writtenKeys ha hc hf (hst ▸ Option.some_ne_none _)
  rw [admits_iff_of_nodup hws (hk.sublist (sublist_transferWrites codec _ hr _ _ hm)),
    fits_transferWrites_iff codec _ hr hm hf hst]
  rfl

end Single

section Merge

variable {snapshot : CoinSnapshot} {s : Objects} {target : CoinInfo} {sources : List CoinInfo}
  {recipient : Address} {amount : UInt64} {e : ExecutedTransfer H engine json}

/-- The entries of the read set hold the objects of the subnet. -/
theorem objectFromSubnet_of_mem_buildReadSet {subnet : SubnetId} {ids : List ObjectId}
    {readSet : List ReadSetEntry}
    (h : TransferPreparer.buildReadSet snapshot subnet ids = .ok readSet) {entry : ReadSetEntry}
    (he : entry ∈ readSet) :
    ∃ id ∈ ids, entry.key = objectKey id ∧
      snapshot.objectFromSubnet subnet id = some entry.value := by
  obtain ⟨id, hid, hb⟩ := exists_of_mem_mapM_ok h he
  simp only [bind_eq_ok, okOr_eq_ok, pure_eq_ok] at hb
  obtain ⟨data, hd, rfl⟩ := hb
  exact ⟨id, hid, rfl, hd⟩

private theorem mapM_input_range' (operation : OperationType) (first : ObjectId)
    (rest : List ObjectId) :
    (List.range' 1 rest.length).mapM (ResolvedInputs.mk (first :: rest) operation).input =
      .ok rest := by
  rw [mapM_eq_ok, List.forall₂_iff_get]
  refine ⟨by simp, fun i hi hi' ↦ ?_⟩
  rw [ResolvedInputs.input, okOr_eq_ok]
  simp [Nat.add_comm 1 i]

private theorem stored_of_getObject
    (hs : ∀ subnet id, snapshot.objectFromSubnet subnet id = s (subnet, id)) {subnet : SubnetId}
    {coins : List CoinInfo} (hi : ∀ coin ∈ coins, coin.InPlace snapshot subnet)
    {readSet : List ReadSetEntry}
    (hr : TransferPreparer.buildReadSet snapshot subnet (coins.map (·.objectId)) =
      .ok readSet) {texts : Move.LibraryTexts} {store : InMemoryObjectStore}
    (hst : InMemoryObjectStore.ofReadSets H texts readSet [] = .ok store) {index : Nat}
    {id : ObjectId} {coin : Types.Coin}
    (hg : StateStore.getObject (⟨store, index⟩ : LocalRuntime H) id = some coin) :
    s (subnet, id) = some coin.toCoinStateBytes := by
  have hke : ∀ entry ∈ readSet, ∃ id, entry.key = objectKey id := by
    intro entry he
    obtain ⟨id, -, hk, -⟩ := objectFromSubnet_of_mem_buildReadSet hr he
    exact ⟨id, hk⟩
  obtain ⟨value, env, hm, he, hen⟩ := exists_entry_of_getObject hst hke hg
  obtain ⟨id', hid', hk, hv⟩ := objectFromSubnet_of_mem_buildReadSet hr hm
  obtain rfl := objectKey_inj.mp hk
  obtain ⟨info, hin, rfl⟩ := List.mem_map.mp hid'
  obtain ⟨owner, ho⟩ := (hi info hin).objectFromSubnet
  have hb := Option.some.inj (hv.symm.trans ho)
  dsimp only at hb
  rw [hb] at he
  rw [← hs, ho, toCoinStateBytes_of_objectEntry he hen]

/-- What the enclave records for a merge and a transfer from stored coins. -/
theorem recorded_of_prepareMergeThenTransferTask
    (hs : ∀ subnet id, snapshot.objectFromSubnet subnet id = s (subnet, id))
    (hi : ∀ coin ∈ target :: sources, coin.InPlace snapshot e.subnetId)
    (hu : e.markers.lookup ("event:" ++ e.created.id) = none)
    (hp : TransferPreparer.prepareMergeThenTransferTask snapshot target sources recipient
      amount e.subnetId = .ok e.task) :
    e.task.payload = .mergeThenTransfer target.objectId (sources.map (·.objectId)) recipient
      amount ∧
    ∃ (rt mid : LocalRuntime H) (merged transferred : List Runtime.StateChange)
      (left : Types.Coin),
      (∀ id coin, StateStore.getObject rt id = some coin →
        s (e.subnetId, id) = some coin.toCoinStateBytes) ∧
      MergeChanges rt mid target.objectId (sources.map (·.objectId)) merged ∧
      StateStore.getObject mid target.objectId = some left ∧
      TransferChanges target.objectId (madeCoinId H e.created.id) left transferred ∧
      e.final.recorded = (merged ++ transferred).map .runtime ++
        [.entry (processedEntry e.created.id none)] ++ [].map .runtime := by
  simp only [TransferPreparer.prepareMergeThenTransferTask, prepareMergeThenTransfer,
    bind_eq_ok, pure_eq_ok] at hp
  obtain ⟨_, ⟨-, -, -, -, rfl⟩, readSet, hr, ht⟩ := hp
  have he := e.executed
  rw [← ht] at he ⊢
  refine ⟨rfl, ?_⟩
  obtain ⟨store, consumed, power', changes, rt, hst, hpo, hru, hre⟩ :=
    StfInput.execute_single H engine json rfl he
  obtain ⟨output, ho, rfl⟩ := Exec.map_eq_ok.mp hru
  have hid : (List.map (·.objectId) ((target :: sources).map TransferPreparer.resolvedCoin)) =
      target.objectId :: sources.map (·.objectId) := by
    rw [List.map_map, List.map_cons]
    rfl
  have hso : (List.range' 1 sources.length).mapM (ResolvedInputs.mk
      (List.map (·.objectId) ((target :: sources).map TransferPreparer.resolvedCoin))
      (.mergeThenTransfer 0 (List.range' 1 sources.length) recipient amount)).input =
        .ok (sources.map (·.objectId)) := by
    rw [hid]
    have h := mapM_input_range' (.mergeThenTransfer 0 (List.range' 1 sources.length) recipient
      amount) target.objectId (sources.map (·.objectId))
    rwa [List.length_map] at h
  obtain ⟨mid, merged, transferred, left, hm, hl, htr, hc⟩ :=
    changes_executeMergeThenTransferEvent rfl rfl hso ho
  refine ⟨⟨store, 0⟩, mid, merged, transferred, left, fun id coin hg ↦ ?_, hm, hl, htr, ?_⟩
  · exact stored_of_getObject hs hi hr hst hg
  · have hco := chargePower_eq_ok rfl hpo
    rw [hre, hco, chargeFlux_eq rfl, coinRecorded, hc]
    refine congrArg₂ (· ++ ·) ?_ ?_
    · exact congrArg (fun old ↦ [] ++ (merged ++ transferred).map runtime ++
        [entry (processedEntry e.created.id old)]) hu
    · unfold fluxChanges
      exact congrArg (List.map runtime) (ite_self [])

private theorem allFit_merged {rt mid : LocalRuntime H} {subnet : SubnetId} {targetId : ObjectId}
    {sourceIds : List ObjectId} {merged : List Runtime.StateChange} {left : Types.Coin}
    (hst : ∀ id coin, StateStore.getObject rt id = some coin →
      s (subnet, id) = some coin.toCoinStateBytes)
    (hm : MergeChanges rt mid targetId sourceIds merged)
    (hl : StateStore.getObject mid targetId = some left) :
    Write.AllFit s (merged.map (runtimeWrite subnet)) ∧
      (merged.map (runtimeWrite subnet)).map Write.key =
        (targetId :: sourceIds).map (Prod.mk subnet) ∧
      (∀ w ∈ merged.map (runtimeWrite subnet), ¬ w.Creates) ∧
      Write.applyAll s (merged.map (runtimeWrite subnet)) (subnet, targetId) =
        some left.toCoinStateBytes := by
  obtain ⟨target, left', ht, hl', heq⟩ := hm.eq
  cases hl.symm.trans hl'
  have hk : (merged.map (runtimeWrite subnet)).map Write.key =
      (targetId :: sourceIds).map (Prod.mk subnet) := by
    simp [heq, runtimeWrite, sourceChange, Function.comp_def]
  have hn := hm.nodup.map (f := Prod.mk subnet) fun _ _ h ↦ (Prod.mk.inj h).2
  have he : ∀ w ∈ merged.map (runtimeWrite subnet),
      ∃ v, w.expected = some v ∧ s w.key = some v := by
    rw [heq, List.map_cons, List.forall_mem_cons, List.map_map, List.forall_mem_map]
    refine ⟨⟨_, rfl, hst targetId target ht⟩, fun id hid ↦ ?_⟩
    obtain ⟨coin, hc⟩ := Option.isSome_iff_exists.mp (hm.found id (List.mem_cons_of_mem _ hid))
    refine ⟨coin.toCoinStateBytes, ?_, hst id coin hc⟩
    simp [runtimeWrite, sourceChange, hc]
  refine ⟨(Write.allFit_iff_of_nodup (hk ▸ hn)).mpr fun w hw ↦ ?_, hk, fun w hw ↦ ?_, ?_⟩
  · obtain ⟨v, hv, hs⟩ := he w hw
    exact (Write.fits_of_expected hv).mpr hs
  · obtain ⟨v, hv, -⟩ := he w hw
    exact Write.not_creates_of_expected hv
  · rw [heq, List.map_cons, Write.applyAll_cons, Write.applyAll_of_ne]
    · exact Function.update_self ..
    · rw [List.map_map, List.forall_mem_map]
      rintro id hid heq
      obtain rfl : id = targetId := (Prod.mk.inj heq).2
      exact (List.nodup_cons.mp hm.nodup).1 hid

/-- A transfer after a merge is admitted. -/
theorem admits_of_prepareMergeThenTransferTask (codec : TransferCodec)
    (hs : ∀ subnet id, snapshot.objectFromSubnet subnet id = s (subnet, id))
    (hi : ∀ coin ∈ target :: sources, coin.InPlace snapshot e.subnetId)
    {transfer : Transfer} (hf : e.Fresh s transfer)
    (ha : madeCoinId H e.created.id ≠ processedId H e.created.id)
    (hp : TransferPreparer.prepareMergeThenTransferTask snapshot target sources recipient
      amount e.subnetId = .ok e.task) : Admits H s (e.event codec) := by
  obtain ⟨hpa, rt, mid, merged, transferred, left, hst, hme, hl, ⟨after, made, rfl, hm⟩, hr⟩ :=
    recorded_of_prepareMergeThenTransferTask hs hi hf.unprocessed hp
  obtain ⟨hfi, hk, hu, hv⟩ := allFit_merged hst hme hl
  have hws := e.eventWrites_eq codec hr
  rw [hpa] at hws
  have hno : nonceWrites H codec e.subnetId e.created.timestamp (.mergeThenTransfer
      target.objectId (sources.map (·.objectId)) recipient amount) = [] := rfl
  rw [hno, List.append_nil, List.map_nil, List.append_nil, List.map_append,
    List.append_assoc] at hws
  -- a coin that is merged is there before, what the transfer makes is not
  have hfo : ∀ key ∈ (merged.map (runtimeWrite e.subnetId)).map Write.key, s key ≠ none := by
    rw [hk, List.forall_mem_map]
    intro id hid hn
    obtain ⟨coin, hco⟩ := Option.isSome_iff_exists.mp (hme.found id hid)
    rw [hst id coin hco] at hn
    cases hn
  have ho : ∀ key, s key = none →
      Write.applyAll s (merged.map (runtimeWrite e.subnetId)) key = none := by
    intro key hn
    rw [Write.applyAll_of_ne, hn]
    rintro w hw rfl
    exact hfo _ (List.mem_map_of_mem hw) hn
  have ht : s (e.subnetId, target.objectId) ≠ none :=
    hfo _ (hk ▸ List.mem_map_of_mem List.mem_cons_self)
  have hnd : [(e.subnetId, target.objectId), (e.subnetId, madeCoinId H e.created.id),
      (e.subnetId, processedId H e.created.id)].Nodup := by
    simp [ne_of_fresh hf ht, ha]
  have hsu := ((sublist_created e.subnetId hm).append (List.Sublist.refl
    [(e.subnetId, processedId H e.created.id)])).cons_cons (e.subnetId, target.objectId)
  have hma : ∀ w ∈ made.map (runtimeWrite e.subnetId), s w.key = none := by
    rcases hm with rfl | ⟨bytes, rfl⟩
    · exact List.forall_mem_nil _
    · rw [List.map_singleton, List.forall_mem_singleton]
      exact hf.madeCoin
  refine ⟨_, hws, Write.allFit_append.mpr ⟨hfi, (Write.allFit_iff_of_nodup ?_).mpr ?_⟩, ?_⟩
  · rw [List.map_append, List.map_cons]
    exact hnd.sublist hsu
  · rw [List.map_cons, List.cons_append, List.forall_mem_cons, List.forall_mem_append,
      List.forall_mem_singleton]
    exact ⟨(Write.fits_of_expected rfl).mpr hv, fits_created hm (ho _ hf.madeCoin),
      (Write.fits_of_creates ⟨rfl, Option.some_ne_none _⟩).mpr (ho _ hf.processed)⟩
  · rintro ⟨w, hw, hc, hne⟩
    rw [List.mem_append, List.map_cons, List.cons_append, List.mem_cons, List.mem_append,
      List.mem_singleton] at hw
    rcases hw with hw | rfl | hw | rfl
    · exact hu w hw hc
    · exact Write.not_creates_of_expected rfl hc
    · exact hne (hma w hw)
    · exact hne hf.processed

end Merge

section

variable [DecidableEq D]

/-- The event is applied to the state, alone. -/
def ExecutedTransfer.AppliedTo (codec : TransferCodec) (g : GlobalStateManager D) (depth : UInt64)
    (e : ExecutedTransfer H engine json) : Prop :=
  ¬ (g.applyCommittedEvents H [e.event codec] depth).2.Reports e.created.id

theorem ExecutedTransfer.appliedTo_iff_admits (codec : TransferCodec) (g : GlobalStateManager D)
    (depth : UInt64) (e : ExecutedTransfer H engine json) :
    e.AppliedTo codec g depth ↔ Admits H (g.objects H) (e.event codec) := by
  have hs : sortOn eventOrder [e.event codec] = [e.event codec] :=
    sortOn_eq_self (List.pairwise_singleton _ _)
  have hr : (e.event codec).executionResult ≠ none := Option.some_ne_none _
  unfold AppliedTo GlobalStateManager.applyCommittedEvents
  rw [hs, List.foldl_cons, List.foldl_nil, GlobalStateManager.reports_applyEvent]
  constructor
  · intro h
    by_contra ha
    exact h (.inr ⟨rfl, hr, ha⟩)
  · rintro ha (hn | ⟨-, -, hno⟩)
    · simp [StateApplySummary.Reports, StateApplySummary.new] at hn
    · exact hno ha

/-- A freshly prepared and executed transfer is applied to the state that it was prepared from,
unless it takes a single coin and charges power or flux that the tree of its subnet does not hold.
-/
theorem appliedTo_iff_resourcesShared (codec : TransferCodec) {g : GlobalStateManager D}
    {coinObjects : String → List (ObjectId × String)} {transfer : Transfer}
    {coins : List CoinInfo} {power : Option PowerState} {flux : Option FluxState}
    {e : ExecutedTransfer H engine json} (depth : UInt64) (hjson : json.Lawful)
    (hprepared : Prepares H (coinSnapshot g coinObjects) transfer e.subnetId coins e.task)
    (hinPlace : ∀ coin ∈ coins, coin.InPlace (coinSnapshot g coinObjects) e.subnetId)
    (hregistered : Registered H json (g.objects H) transfer.sender power flux)
    (hfresh : e.Fresh (g.objects H) transfer)
    (hapart : IdsApart H transfer e.created.id coins) :
    e.AppliedTo codec g depth ↔
      ((∃ coin ∈ coins, transfer.amount ≤ coin.balance) →
        ResourcesShared H json (g.objects H) transfer.sender e.subnetId) := by
  have hs := objectFromSubnet_coinSnapshot H g coinObjects
  rw [ExecutedTransfer.appliedTo_iff_admits]
  generalize ht : e.task = task at hprepared
  cases hprepared with
  | batch hc hco hd =>
    rw [admits_iff_of_assembleTask codec hjson hs hregistered hapart hc (hinPlace _ hc)
      hfresh hd ht]
    exact ⟨fun h _ ↦ h, fun h ↦ h ⟨_, hc, hco⟩⟩
  | single hprepared =>
    simp only [TransferPreparer.prepareTransferTask, bind_eq_ok] at hprepared
    obtain ⟨selection, hse, hprepared⟩ := hprepared
    cases selection with
    | singleCoin coin =>
      simp only [bind_eq_ok, okOr_eq_ok, pure_eq_ok] at hprepared
      obtain ⟨coinData, hd, hprepared⟩ := hprepared
      obtain ⟨hc, hco⟩ := mem_of_selectCoinsForTransfer_singleCoin hse
      rw [admits_iff_of_assembleTask codec hjson hs hregistered hapart hc (hinPlace _ hc)
        hfresh hd (ht.trans hprepared.symm)]
      exact ⟨fun h _ ↦ h, fun h ↦ h ⟨_, hc, hco⟩⟩
    | needMerge target sources =>
      obtain ⟨hcn, hco⟩ := mem_of_selectCoinsForTransfer_needMerge hse
      have hm : madeCoinId H e.created.id ≠ processedId H e.created.id := by
        have h := (List.nodup_cons.mp hapart.nodup).1
        intro heq
        exact h (heq ▸ List.mem_cons_self)
      have ha := admits_of_prepareMergeThenTransferTask codec hs
        (fun coin hc ↦ hinPlace coin (hcn coin hc)) hfresh hm
        (hprepared.trans (congrArg Except.ok ht.symm))
      exact ⟨fun _ h ↦ absurd h hco, fun _ ↦ ha⟩

/-! A coin of 100 of the zero address in a subnet, the power and flux of the address in the root
subnet, and a transfer of 40. -/

/-- A hash that shows the start of its preimage, which tells the kinds of objects apart. -/
private def shortHash : Blake3 Bytes := ⟨List.take 10, id, []⟩

private def freshHolder : String := Address.zero.toText

private def freshCoinId : ObjectId := ⟨Vector.replicate 32 9⟩

private def freshPower : PowerState := ⟨freshHolder, 10, 0⟩

private def freshFlux : FluxState := ⟨freshHolder, 5, 0, 0⟩

private def powerOid : ObjectId := powerStateObjectId shortHash freshHolder

private def fluxOid : ObjectId := fluxStateObjectId shortHash freshHolder

/-- The fields one after the other, behind the brace that JSON objects start with. -/
private def plainJson : ResourceJson where
  powerBytes p := 0x7b :: (bcsString p.address ++ (u64Le p.powerRemaining ++ u64Le p.version))
  parsePower bytes := Reader.parse (do
    let address ← readString
    let powerRemaining ← readU64
    let version ← readU64
    pure ⟨address, powerRemaining, version⟩) (bytes.drop 1)
  fluxBytes f := 0x7b ::
    (bcsString f.address ++ (u64Le f.flux ++ (u64Le f.lastActiveAt ++ u64Le f.version)))
  parseFlux bytes := Reader.parse (do
    let address ← readString
    let flux ← readU64
    let lastActiveAt ← readU64
    let version ← readU64
    pure ⟨address, flux, lastActiveAt, version⟩) (bytes.drop 1)
  parseParams _ := none

private theorem lawful_plainJson : plainJson.Lawful where
  parsePower_powerBytes p := by
    apply Reader.Reads.parse
    refine (reads_readString p.address).bind <| (reads_readU64 _).bind ?_
    exact (reads_readU64 p.version).bind_pure (PowerState.mk p.address p.powerRemaining)
  parseFlux_fluxBytes f := by
    apply Reader.Reads.parse
    refine (reads_readString f.address).bind <| (reads_readU64 _).bind <| (reads_readU64 _).bind ?_
    exact (reads_readU64 f.version).bind_pure (FluxState.mk f.address f.flux f.lastActiveAt)

private def freshSubnet : SubnetId := resolveSubnetId shortHash "app-subnet"

private def freshCoin : CoinInfo := ⟨freshCoinId, freshHolder, 100, 1, "app-subnet"⟩

private def freshCoinData : Bytes := (CoinState.mk freshHolder 100 1 "app-subnet").toBytes

variable (shared : Bool)

/-- The resources are written to the root subnet, and to the coin's subnet as well if they are to be
found there. -/
private def freshState : GlobalStateManager Bytes :=
  let write := fun (g : GlobalStateManager Bytes) (entry : SubnetId × ObjectId × Bytes) ↦
    g.modifySubnet shortHash entry.1 fun smt ↦ smt.upsert shortHash entry.2.1 entry.2.2
  ([(.root, powerOid, plainJson.powerBytes freshPower),
    (.root, fluxOid, plainJson.fluxBytes freshFlux), (freshSubnet, freshCoinId, freshCoinData)] ++
    if shared then [(freshSubnet, powerOid, plainJson.powerBytes freshPower),
      (freshSubnet, fluxOid, plainJson.fluxBytes freshFlux)] else []).foldl write
    (GlobalStateManager.new shortHash)

private def freshObjects : Objects := (freshState shared).objects shortHash

private def freshSnapshot : CoinSnapshot :=
  coinSnapshot (freshState shared) fun _ ↦ [(freshCoinId, "app-subnet")]

private def freshTransfer : Transfer := ⟨"t", freshHolder, freshHolder, 40, none⟩

private def freshEvent : Event where
  id := "e"
  eventType := .transfer
  parentIds := []
  subnetId := none
  transfer := none
  payload := .none
  vlcSnapshot := ⟨∅, 1, 0⟩
  creator := ""
  status := .pending
  executionResult := none
  timestamp := 0

private def freshTask : TransferSolverTask where
  payload := .transfer freshTransfer
  resolvedInputs := ⟨.transfer 0 40, [TransferPreparer.resolvedCoin freshCoin], []⟩
  readSet := [⟨objectKey freshCoinId, freshCoinData⟩,
    ⟨objectKey fluxOid, plainJson.fluxBytes freshFlux⟩,
    ⟨objectKey powerOid, plainJson.powerBytes freshPower⟩]

private theorem assembleTask_fresh :
    TransferPreparer.assembleTask shortHash (freshSnapshot shared) freshTransfer freshCoin
      freshCoinData = freshTask := by
  have hr : (TransferPreparer.transferReadSet shortHash (freshSnapshot shared) freshHolder
      freshCoinId freshCoinData) = freshTask.readSet := by
    decide +kernel +revert
  rw [TransferPreparer.assembleTask]
  exact congrArg (TransferSolverTask.mk _ _) hr

private def plainCodec : TransferCodec := ⟨fun _ ↦ [], fun _ ↦ []⟩

private abbrev FreshExecuted := ExecutedTransfer shortHash (Move.coinEngine shortHash) plainJson

private theorem freshTask_succeeds :
    ((freshTask.stfInput freshEvent 0).execute shortHash (Move.coinEngine shortHash) plainJson
      ∅).toOption.map (fun r ↦ r.1.map fun outcome ↦ outcome.toOption.isSome) = some [true] := by
  decide +kernel

private theorem exists_freshExecuted :
    ∃ e : FreshExecuted, e.subnetId = freshSubnet ∧ e.task = freshTask ∧ e.created = freshEvent ∧
      e.markers = ∅ := by
  obtain ⟨⟨outcomes, final⟩, he, ho⟩ := exists_ok_of_map_toOption freshTask_succeeds
  obtain ⟨outcome, rfl, hou⟩ := List.map_eq_singleton_iff.mp ho
  cases outcome with
  | error reason => cases hou
  | ok recorded =>
    exact ⟨⟨freshSubnet, freshTask, freshEvent, 0, ∅, recorded, final, he, 0, "", ""⟩,
      rfl, rfl, rfl, rfl⟩

private theorem freshObjects_root :
    freshObjects shared (.root, powerOid) = some (plainJson.powerBytes freshPower) ∧
      freshObjects shared (.root, fluxOid) = some (plainJson.fluxBytes freshFlux) := by
  decide +kernel +revert

private theorem freshObjects_subnet :
    freshObjects shared (freshSubnet, freshCoinId) = some freshCoinData ∧
      freshObjects shared (freshSubnet, madeCoinId shortHash "e") = none ∧
      freshObjects shared (freshSubnet, processedId shortHash "e") = none ∧
      (freshObjects shared (freshSubnet, powerOid) = freshObjects shared (.root, powerOid) ↔
        shared = true) ∧
      (shared = true →
        freshObjects shared (freshSubnet, fluxOid) = freshObjects shared (.root, fluxOid)) := by
  decide +kernel +revert

private theorem coinAt_freshCoin :
    (freshSnapshot shared).coinAt freshSubnet freshCoinId = some freshCoin := by
  decide +kernel +revert

private theorem registered_freshState :
    Registered shortHash plainJson (freshObjects shared) freshTransfer.sender (some freshPower)
      (some freshFlux) where
  power_eq := (freshObjects_root shared).1
  flux_eq := (freshObjects_root shared).2
  powerId p hp := by
    cases hp
    rfl
  fluxId f hf := by
    cases hf
    rfl

private theorem idsApart_freshTransfer :
    IdsApart shortHash freshTransfer freshEvent.id [freshCoin] where
  nodup := by decide +kernel
  coins := by decide +kernel

private theorem fresh_freshExecuted {e : FreshExecuted} (hs : e.subnetId = freshSubnet)
    (hc : e.created = freshEvent) (hm : e.markers = ∅)
    : e.Fresh (freshObjects shared) freshTransfer where
  unprocessed := by
    rw [hm]
    rfl
  processed := by
    rw [hs, hc]
    exact (freshObjects_subnet shared).2.2.1
  madeCoin := by
    rw [hs, hc]
    exact (freshObjects_subnet shared).2.1
  nonce := List.forall_mem_nil _

/-- The transfer is prepared, and it is applied if the subnet holds the resources as well. -/
theorem appliedTo_freshTransfer :
    ∃ e : FreshExecuted,
      Prepares shortHash (freshSnapshot true) freshTransfer e.subnetId [freshCoin] e.task ∧
      e.AppliedTo plainCodec (freshState true) 0 := by
  obtain ⟨e, hs, ht, hc, hm⟩ := exists_freshExecuted
  have hp : Prepares shortHash (freshSnapshot true) freshTransfer e.subnetId [freshCoin]
      e.task := by
    rw [ht, ← assembleTask_fresh true, hs]
    exact .batch List.mem_cons_self (by decide)
      ((objectFromSubnet_coinSnapshot shortHash _ _ _ _).trans (freshObjects_subnet true).1)
  refine ⟨e, hp, (appliedTo_iff_resourcesShared plainCodec 0 lawful_plainJson hp ?_
    (registered_freshState true) (fresh_freshExecuted true hs hc hm) ?_).mpr
    fun _ ↦ ?_⟩
  · intro coin hco
    rw [List.mem_singleton.mp hco, hs]
    exact ⟨coinAt_freshCoin true, Address.zero, rfl⟩
  · rw [hc]
    exact idsApart_freshTransfer
  · rw [hs]
    exact ⟨fun _ ↦ (freshObjects_subnet true).2.2.2.1.mpr rfl,
      fun _ _ ↦ (freshObjects_subnet true).2.2.2.2 rfl⟩

private theorem prepareTransferTask_fresh :
    TransferPreparer.prepareTransferTask shortHash (freshSnapshot shared) freshTransfer
      freshSubnet = .ok freshTask := by
  have hc : getCoinsForAddressInSubnet shortHash (freshSnapshot shared) freshTransfer.sender
      freshSubnet = [freshCoin] := by
    decide +kernel +revert
  have hse : selectCoinsForTransfer [freshCoin] freshTransfer.amount =
      .ok (.singleCoin freshCoin) := by decide +kernel
  have hd : (freshSnapshot shared).objectFromSubnet freshSubnet freshCoinId = some freshCoinData :=
    (objectFromSubnet_coinSnapshot shortHash _ _ _ _).trans (freshObjects_subnet shared).1
  rw [TransferPreparer.prepareTransferTask, hc, hse, ← assembleTask_fresh shared]
  exact bind_eq_ok.mpr ⟨_, rfl, bind_eq_ok.mpr ⟨_, okOr_eq_ok.mpr hd, rfl⟩⟩

/-- Without them in the subnet the same transfer is prepared and refused: its charge of power
expects the power object in the tree of the subnet. -/
theorem not_appliedTo_freshTransfer_subnet :
    ∃ e : FreshExecuted,
      TransferPreparer.prepareTransferTask shortHash (freshSnapshot false) freshTransfer
        e.subnetId = .ok e.task ∧ ¬ e.AppliedTo plainCodec (freshState false) 0 := by
  obtain ⟨e, hs, ht, hc, hm⟩ := exists_freshExecuted
  refine ⟨e, ?_, ?_⟩
  · rw [hs, ht]
    exact prepareTransferTask_fresh false
  · rw [ExecutedTransfer.appliedTo_iff_admits, admits_iff_of_assembleTask plainCodec
      lawful_plainJson (objectFromSubnet_coinSnapshot shortHash (freshState false) _)
      (registered_freshState false) (hc ▸ idsApart_freshTransfer) List.mem_cons_self
      (hs ▸ ⟨coinAt_freshCoin false, Address.zero, rfl⟩)
      (fresh_freshExecuted false hs hc hm)
      (hs ▸ (objectFromSubnet_coinSnapshot shortHash _ _ _ _).trans
        (freshObjects_subnet false).1) (ht.trans (assembleTask_fresh false).symm), hs]
    rintro ⟨hp, -⟩
    have hr : freshObjects false (.root, powerOid) ≠ none := by
      rw [(freshObjects_root false).1]
      exact Option.some_ne_none _
    exact absurd ((freshObjects_subnet false).2.2.2.1.mp (hp hr)) Bool.false_ne_true

end

end Setu.Validator
