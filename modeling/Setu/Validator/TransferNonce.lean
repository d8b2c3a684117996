import Setu.Enclave.CoinEvents
import Setu.State.Run
import Setu.Validator.SubnetRegistration

/-!
# Replay protection of user-authorized transfers

Library `Validator`. An authorized transfer names its signer and a nonce. The event of a transfer
from a single coin creates a marker object for the two in the root subnet, and an event that
creates an existing object is not applied. A transfer that needs several coins is prepared as an
event without the authorization and leaves no marker. Sources
`setu-validator/src/user_transfer_nonce.rs`, `task_preparer/single.rs` and
`network/tee_executor.rs`.
-/

namespace Setu.Validator

open Setu.Base Setu.Types Setu.State Setu.Enclave Setu.Runtime

/-- The authorization of a transfer, `types/src/transfer.rs:62-79`, without its audit material. -/
structure TransferAuthorization where
  signer : String
  clientNonce : String
  requestDigest : ObjectId
  deriving DecidableEq

/-- The fields of a transfer that preparation and execution read, `transfer.rs:102-146`. -/
structure Transfer where
  id : String
  sender : String
  recipient : String
  amount : UInt64
  authorization : Option TransferAuthorization
  deriving DecidableEq

/-- The text of a marker object's identifier, `user_transfer_nonce.rs:61-67`. Lengths are stored
in two bytes. -/
def noncePreimage (normalizedFrom clientNonce : String) : Bytes :=
  strBytes "SETU_USER_TRANSFER_NONCE_V1" ++
    (leBytes 2 (strBytes normalizedFrom).length ++
      (strBytes normalizedFrom ++
        (leBytes 2 (strBytes clientNonce).length ++ strBytes clientNonce)))

/-- The marker value, `user_transfer_nonce.rs:79-93`, without its constant kind. -/
structure UserTransferNonceV1 where
  sender : String
  clientNonce : String
  requestDigest : String
  subnetId : String
  amountRaw : UInt64
  timestampMs : UInt64

/-- `types/src/subnet.rs:262-268`. -/
def canonicalString (subnet : SubnetId) : String :=
  if subnet.isRoot then "ROOT" else "0x" ++ hexEncode subnet.asBytes

variable {D : Type} (H : Blake3 D)

/-- `user_transfer_nonce.rs:60-68`. -/
def nonceObjectId (normalizedFrom clientNonce : String) : ObjectId :=
  hashedId H (noncePreimage normalizedFrom clientNonce)

/-- Where the marker of an authorization is stored. -/
def markerKey (authorization : TransferAuthorization) : SubnetId × ObjectId :=
  (SubnetId.root, nonceObjectId H authorization.signer authorization.clientNonce)

/-- `task_preparer/mod.rs:84-95`. -/
inductive CoinSelectionResult where
  | singleCoin (coin : CoinInfo)
  | needMerge (target : CoinInfo) (sources : List CoinInfo)
  deriving DecidableEq

/-- The errors of transfer tasks, `task_preparer/mod.rs:98-118`. -/
inductive TransferPrepareError where
  | insufficientBalance (required available : UInt64)
  | noCoinsFound (address : String)
  | invalidInput (message : String)
  | objectNotFound (objectId : String)
  deriving DecidableEq

/-- `MAX_MERGE_SOURCES`, `task_preparer/mod.rs:60`. -/
def maxMergeSources : Nat := 50

/-- `checked_add`, at most the largest `u64`. -/
def saturatingAdd (a b : UInt64) : UInt64 :=
  if a.toNat + b.toNat < 2 ^ 64 then a + b else UInt64.ofNat (2 ^ 64 - 1)

/-- The greedy loop, `single.rs:783-794`. -/
def gatherCoins (amount : UInt64) (selected : List CoinInfo) (accumulated : UInt64) :
    List CoinInfo → List CoinInfo × UInt64
  | [] => (selected, accumulated)
  | coin :: rest =>
    let selected := selected ++ [coin]
    let accumulated := saturatingAdd accumulated coin.balance
    if amount ≤ accumulated then (selected, accumulated)
    else if maxMergeSources + 1 ≤ selected.length then (selected, accumulated)
    else gatherCoins amount selected accumulated rest

/-- `single.rs:741-809`; identifiers break ties in the order of
their bytes. -/
def selectCoinsForTransfer (coins : List CoinInfo) (amount : UInt64) :
    Except TransferPrepareError CoinSelectionResult := do
  require (amount != 0) (.invalidInput "Transfer amount must be > 0")
  require (!coins.isEmpty) (.noCoinsFound "sender has no coins")
  let eligible := sortOn
    (fun c ↦ (toLex (c.balance.toNat, hexEncode c.objectId.asBytes) : Nat ×ₗ String))
    (coins.filter fun c ↦ decide (amount ≤ c.balance))
  match eligible with
  | coin :: _ => pure (.singleCoin coin)
  | [] =>
    let sorted := sortOn (fun c ↦ (toLex (OrderDual.toDual c.balance.toNat,
      hexEncode c.objectId.asBytes) : Natᵒᵈ ×ₗ String)) coins
    let (selected, accumulated) := gatherCoins amount [] 0 sorted
    require (decide (amount ≤ accumulated)) (.insufficientBalance amount accumulated)
    match selected with
    | target :: sources => pure (.needMerge target sources)
    -- `remove(0)` panics without a coin, but there is one at least
    | [] => throw (.invalidInput "removal index (is 0) should be < len (is 0)")

/-- What a prepared transfer carries: the transfer itself, or the coins to merge, the recipient
and the amount. -/
inductive PreparedPayload where
  | transfer (transfer : Transfer)
  | mergeThenTransfer (targetCoinId : ObjectId) (sourceCoinIds : List ObjectId)
      (recipient : Address) (amount : UInt64)
  deriving DecidableEq

/-- `prepare_merge_then_transfer_task`, `single.rs:596-679`, up to the payload of its event; the
sum of the balances wraps. -/
def prepareMergeThenTransfer (target : CoinInfo) (sources : List CoinInfo) (recipient : Address)
    (amount : UInt64) : Except TransferPrepareError PreparedPayload := do
  require (!sources.isEmpty) (.invalidInput "Must provide at least one source coin to merge")
  let mergedBalance := sources.foldl (fun sum c ↦ sum + c.balance) target.balance
  require (decide (amount ≤ mergedBalance)) (.insufficientBalance amount mergedBalance)
  pure (.mergeThenTransfer target.objectId (sources.map (·.objectId)) recipient amount)

/-- `single.rs:119-215`, up to the payload of its event, on the coins
that the state lists for the sender in the subnet. -/
def prepareTransferTask (coins : List CoinInfo) (transfer : Transfer) :
    Except TransferPrepareError PreparedPayload := do
  match ← selectCoinsForTransfer coins transfer.amount with
  | .needMerge target sources =>
    prepareMergeThenTransfer target sources (Address.normalize H transfer.recipient)
      transfer.amount
  | .singleCoin _ => pure (.transfer transfer)

/-- Serialized forms: of a transfer in its event, and of a marker as JSON. -/
structure TransferCodec where
  transfer : Transfer → Bytes
  marker : UserTransferNonceV1 → Bytes

variable (codec : TransferCodec)

/-- The event payload of a prepared transfer, `single.rs:652-657` and `854-855`. -/
def PreparedPayload.toEventPayload : PreparedPayload → EventPayload
  | transfer t => .transfer (codec.transfer t)
  | mergeThenTransfer target sources recipient amount =>
    .coinMergeThenTransfer (hexEncode target.asBytes) (sources.map fun id ↦ hexEncode id.asBytes)
      recipient.toText amount

/-- The key and the bytes of the nonce marker that `build_execution_state_changes` adds,
`tee_executor.rs:134-158`. -/
def nonceMarker (taskSubnet : SubnetId) (timestamp : UInt64) :
    PreparedPayload → Option (String × Bytes)
  | .transfer t => t.authorization.map fun auth ↦
    (objectKey (nonceObjectId H auth.signer auth.clientNonce),
      codec.marker ⟨auth.signer, auth.clientNonce, "0x" ++ hexEncode auth.requestDigest.asBytes,
        canonicalString taskSubnet, t.amount, timestamp⟩)
  | .mergeThenTransfer .. => none

/-- A transfer on its way: what it was prepared from and to, the event created for it, and what
the solver answered. -/
structure TransferTask where
  transfer : Transfer
  coins : List CoinInfo
  subnetId : SubnetId
  payload : PreparedPayload
  prepared : prepareTransferTask H coins transfer = .ok payload
  created : Event
  result : TeeExecutionResult
  solverMessage : String
  suffix : String

/-- The executed event of a transfer. -/
def TransferTask.event (task : TransferTask H) : Event :=
  { task.created with
    subnetId := some task.subnetId
    payload := task.payload.toEventPayload codec
    status := .executed
    executionResult := some (executedResult task.result task.subnetId
      (nonceMarker H codec task.subnetId task.created.timestamp task.payload)
      task.solverMessage task.suffix) }

/-- What is committed: transfers and any other events. -/
inductive LedgerTask where
  | transfer (task : TransferTask H)
  | other (event : Event)

namespace LedgerTask

variable {H}

/-- The event of a task. -/
def event (codec : TransferCodec) : LedgerTask H → Event
  | transfer task => task.event H codec
  | other event => event

/-- The authorization that a task was made for. -/
def authorization : LedgerTask H → Option TransferAuthorization
  | transfer task => task.transfer.authorization
  | other _ => none

/-- The sender of an authorized transfer has a coin that covers the amount. -/
def OneCoinCovers (task : LedgerTask H) : Prop :=
  match task with
  | .transfer task => task.transfer.authorization.isSome →
    ∃ coin ∈ task.coins, task.transfer.amount ≤ coin.balance
  | .other _ => True

variable (H) in
/-- No state change of the event removes a nonce marker. -/
def KeepsMarkers (codec : TransferCodec) (task : LedgerTask H) : Prop :=
  ∀ ws ∈ eventWrites H (task.event codec), ∀ w ∈ ws, w.value = none →
    ∀ authorization, w.key ≠ markerKey H authorization

end LedgerTask

section

variable [DecidableEq D]

/-- In a run at most one event is applied for a signer and a nonce. -/
def AppliedOnce (codec : TransferCodec) (g : GlobalStateManager D)
    (calls : List (Call (LedgerTask H))) : Prop :=
  ∀ (i j : Nat) (t t' : Turn (LedgerTask H) D) (a a' : TransferAuthorization), i < j →
    (g.runTurns H (LedgerTask.event codec) calls)[i]? = some t →
    (g.runTurns H (LedgerTask.event codec) calls)[j]? = some t' →
    t.task.authorization = some a → t'.task.authorization = some a' →
    t.Applied (LedgerTask.event codec) → t'.Applied (LedgerTask.event codec) →
    (a.signer, a.clientNonce) ≠ (a'.signer, a'.clientNonce)

end

/-- Different signers or nonces have different markers, if they are short and BLAKE3 does not
collide on their texts. -/
def MarkersApart : Prop :=
  ∀ a a' : TransferAuthorization,
    (strBytes a.signer).length < 65536 → (strBytes a'.signer).length < 65536 →
    (nonceObjectId H a.signer a.clientNonce = nonceObjectId H a'.signer a'.clientNonce →
      noncePreimage a.signer a.clientNonce = noncePreimage a'.signer a'.clientNonce) →
    (a.signer, a.clientNonce) ≠ (a'.signer, a'.clientNonce) → markerKey H a ≠ markerKey H a'

variable {H}

private theorem noncePreimage_inj {signer signer' nonce nonce' : String}
    (hsi : (strBytes signer).length < 65536) (hsi' : (strBytes signer').length < 65536)
    (h : noncePreimage signer nonce = noncePreimage signer' nonce') :
    signer = signer' ∧ nonce = nonce' := by
  simp only [noncePreimage] at h
  have h := List.append_cancel_left h
  obtain ⟨hl, h⟩ := List.append_inj h (by simp)
  have hl := leBytes_inj (show _ < 256 ^ 2 from hsi) hsi' hl
  obtain ⟨hs, h⟩ := List.append_inj h hl
  obtain ⟨-, hn⟩ := List.append_inj h (by simp)
  exact ⟨strBytes_inj.mp hs, strBytes_inj.mp hn⟩

theorem markersApart : MarkersApart H := by
  unfold MarkersApart
  intro a a' hsh hsh' hf hne heq
  rw [markerKey, markerKey, Prod.mk.injEq] at heq
  obtain ⟨hs, hn⟩ := noncePreimage_inj hsh hsh' (hf heq.2)
  exact hne (by rw [hs, hn])

private theorem mem_of_mem_gatherCoins {amount accumulated : UInt64}
    {selected coins : List CoinInfo} {coin : CoinInfo}
    (h : coin ∈ (gatherCoins amount selected accumulated coins).1) :
    coin ∈ selected ∨ coin ∈ coins := by
  induction coins generalizing selected accumulated with
  | nil => exact .inl h
  | cons first rest ih =>
    have hs : coin ∈ selected ++ [first] ∨ coin ∈ rest := by
      rw [gatherCoins] at h
      split at h
      · exact .inl h
      · split at h
        · exact .inl h
        · exact ih h
    rcases hs with hm | hm
    · rcases List.mem_append.mp hm with hm | hm
      · exact .inl hm
      · exact .inr (List.mem_cons.mpr (.inl (List.mem_singleton.mp hm)))
    · exact .inr (List.mem_cons_of_mem _ hm)

/-- A selection that came through is of one coin that covers, or merges without one. -/
theorem selectCoinsForTransfer_cases {coins : List CoinInfo} {amount : UInt64}
    {selection : CoinSelectionResult} (h : selectCoinsForTransfer coins amount = .ok selection) :
    (∃ coin ∈ coins, amount ≤ coin.balance ∧ selection = .singleCoin coin) ∨
      (¬ ∃ coin ∈ coins, amount ≤ coin.balance) ∧
        ∃ target sources, selection = .needMerge target sources ∧ target :: sources ⊆ coins := by
  simp only [selectCoinsForTransfer, bind_eq_ok] at h
  obtain ⟨-, -, -, -, h⟩ := h
  have hm : ∀ coin, coin ∈ sortOn (fun c : CoinInfo ↦
      (toLex (c.balance.toNat, hexEncode c.objectId.asBytes) : Nat ×ₗ String))
      (coins.filter fun c ↦ decide (amount ≤ c.balance)) ↔ coin ∈ coins ∧ amount ≤ coin.balance := by
    intro coin
    rw [(sortOn_perm _ _).mem_iff, List.mem_filter, decide_eq_true_eq]
  split at h
  · next first rest heq =>
    obtain ⟨hc, hle⟩ := (hm first).mp (heq ▸ List.mem_cons_self)
    exact .inl ⟨first, hc, hle, (pure_eq_ok.mp h).symm⟩
  · next heq =>
    refine .inr ⟨?_, ?_⟩
    · rintro ⟨coin, hc⟩
      cases heq ▸ (hm coin).mpr hc
    · simp only [bind_eq_ok] at h
      obtain ⟨-, -, h⟩ := h
      split at h
      · next target sources hg =>
        refine ⟨target, sources, (pure_eq_ok.mp h).symm, fun coin hc ↦ ?_⟩
        rcases mem_of_mem_gatherCoins (hg ▸ hc) with hn | hs
        · cases hn
        · exact (sortOn_perm _ _).mem_iff.mp hs
      · cases h

theorem mem_of_selectCoinsForTransfer_singleCoin {coins : List CoinInfo} {amount : UInt64}
    {coin : CoinInfo} (h : selectCoinsForTransfer coins amount = .ok (.singleCoin coin)) :
    coin ∈ coins ∧ amount ≤ coin.balance := by
  rcases selectCoinsForTransfer_cases h with ⟨_, hc, hle, ⟨⟩⟩ | ⟨-, _, _, ⟨⟩, -⟩
  exact ⟨hc, hle⟩

theorem mem_of_selectCoinsForTransfer_needMerge {coins : List CoinInfo} {amount : UInt64}
    {target : CoinInfo} {sources : List CoinInfo}
    (h : selectCoinsForTransfer coins amount = .ok (.needMerge target sources)) :
    (∀ coin ∈ target :: sources, coin ∈ coins) ∧ ¬ ∃ coin ∈ coins, amount ≤ coin.balance := by
  rcases selectCoinsForTransfer_cases h with ⟨_, -, -, ⟨⟩⟩ | ⟨hno, _, _, ⟨⟩, hsub⟩
  exact ⟨fun _ hc ↦ hsub hc, hno⟩

variable {codec : TransferCodec}

private theorem writes_of_covers {task : LedgerTask H} {a : TransferAuthorization}
    (ha : task.authorization = some a) (hc : task.OneCoinCovers)
    {ws : List (Write (SubnetId × ObjectId) Bytes)}
    (hws : eventWrites H (task.event codec) = some ws) :
    ∃ front value, ws = front ++ [⟨markerKey H a, none, some value⟩] := by
  cases task with
  | other event => cases ha
  | transfer task =>
    have hc := hc (by rw [show task.transfer.authorization = some a from ha]; rfl)
    have hpr := task.prepared
    simp only [prepareTransferTask, bind_eq_ok] at hpr
    obtain ⟨selection, hs, hp⟩ := hpr
    rcases selectCoinsForTransfer_cases hs with ⟨coin, -, -, rfl⟩ | ⟨hno, -⟩
    swap
    · exact absurd hc hno
    have hp : PreparedPayload.transfer task.transfer = task.payload := by
      simpa only [pure_eq_ok] using hp
    have ha : task.transfer.authorization = some a := ha
    simp only [LedgerTask.event, TransferTask.event, eventWrites, ← hp, nonceMarker, ha,
      Option.map_some, executedResult] at hws
    split at hws
    · rw [Option.some.injEq] at hws
      rw [← hws]
      simp only [resultWrites, buildExecutionStateChanges, Option.map_some, Option.toList_some,
        List.map_append, List.map_cons, List.map_nil, changeWrite, changeTarget,
        Option.getD_some, parseStateChangeKey_objectKey]
      exact ⟨_, _, rfl⟩
    · cases hws

variable [DecidableEq D]

private theorem after_markerKey_ne_none {t : Turn (LedgerTask H) D}
    (hl : t.OfLoop H (LedgerTask.event codec)) (hap : t.Applied (LedgerTask.event codec))
    {a : TransferAuthorization} (ha : t.task.authorization = some a) (hc : t.task.OneCoinCovers) :
    t.after H (LedgerTask.event codec) (markerKey H a) ≠ none := by
  obtain ⟨ws, hws, -, -⟩ := hl.applied_iff.mp hap
  obtain ⟨front, value, rfl⟩ := writes_of_covers ha hc hws
  rw [Turn.after, if_pos hap, Turn.writes, hws, Option.getD_some, Write.applyAll_append,
    Write.applyAll_cons, Write.applyAll_nil, Write.apply, Function.update_self]
  exact Option.some_ne_none _

private theorem before_markerKey_eq_none {t : Turn (LedgerTask H) D}
    (hl : t.OfLoop H (LedgerTask.event codec)) (hap : t.Applied (LedgerTask.event codec))
    {a : TransferAuthorization} (ha : t.task.authorization = some a)
    (hc : t.task.OneCoinCovers) : t.before (markerKey H a) = none := by
  obtain ⟨ws, hws, -, hr⟩ := hl.applied_iff.mp hap
  obtain ⟨front, value, rfl⟩ := writes_of_covers ha hc hws
  by_contra hb
  exact hr ⟨_, List.mem_append_right _ List.mem_cons_self, ⟨rfl, Option.some_ne_none _⟩, hb⟩

/-- In every run in which one coin covers every authorized transfer and no event removes a nonce
marker, no signer and nonce is used twice; different signers and nonces never share a marker. -/
theorem appliedOnce_of_oneCoinCovers (codec : TransferCodec) (g : GlobalStateManager D)
    (calls : List (Call (LedgerTask H)))
    (hcovers : ∀ call ∈ calls, ∀ task ∈ call.tasks, task.OneCoinCovers)
    (hkeeps : ∀ call ∈ calls, ∀ task ∈ call.tasks, task.KeepsMarkers H codec) :
    AppliedOnce H codec g calls ∧ MarkersApart H := by
  refine ⟨?_, markersApart⟩
  intro i j t t' a a' hij ht ht' ha ha' hap hap' heq
  obtain ⟨hc, hl⟩ := g.chained_runTurns H (LedgerTask.event codec) calls
  have hta {t : Turn (LedgerTask H) D} (h : t ∈ g.runTurns H (LedgerTask.event codec) calls) :
      t.task.OneCoinCovers ∧ t.task.KeepsMarkers H codec := by
    obtain ⟨call, hca, hta⟩ := GlobalStateManager.task_mem_of_mem_runTurns h
    exact ⟨hcovers call hca _ hta, hkeeps call hca _ hta⟩
  have hm := List.mem_of_getElem? ht
  have hm' := List.mem_of_getElem? ht'
  have hk : markerKey H a = markerKey H a' := by
    rw [markerKey, markerKey, (Prod.mk.inj heq).1, (Prod.mk.inj heq).2]
  -- the marker of the first event is kept until the second one, which then does not fit
  have haf := after_markerKey_ne_none (hl t hm) hap ha (hta hm).1
  have hn : t.after H (LedgerTask.event codec) = stateAt H (LedgerTask.event codec) (g.objects H)
        (g.runTurns H (LedgerTask.event codec) calls) (i + 1) := by
    rw [stateAt_of_le _ _ (Nat.le_succ i), ← hc.before_eq ht, Turn.after_eq_applyAll,
      List.take_add_one, ht]
    simp [List.length_take, Nat.min_eq_left (List.getElem?_eq_some_iff.mp ht).1.le]
  have hb := before_markerKey_eq_none (hl t' hm') hap' ha' (hta hm').1
  rw [hc.before_eq ht', stateAt_of_le _ _ (Nat.succ_le_of_lt hij), ← hn, ← hk] at hb
  refine Write.applyAll_ne_none haf ?_ hb
  intro w hw hwk hno
  obtain ⟨u, hu, hwu⟩ := List.mem_flatMap.mp hw
  have hu := List.mem_of_mem_take (List.mem_of_mem_drop hu)
  rw [Turn.appliedWrites] at hwu
  split at hwu
  · rw [Turn.writes] at hwu
    cases hws : eventWrites H (LedgerTask.event codec u.task) with
    | none =>
      rw [hws] at hwu
      cases hwu
    | some ws =>
      rw [hws] at hwu
      exact (hta hu).2 ws hws w hwu hno a hwk
  · cases hwu

/-! Four coins of 30 of the zero address in the root subnet, and transfers of its to itself under
one nonce. -/

/-- A hash that shows the end of its preimage first. -/
private def backwards : Blake3 Bytes := ⟨List.reverse, id, []⟩

private def payCoinId (n : UInt8) : ObjectId := ⟨Vector.replicate 32 n⟩

private def payCoin (n : UInt8) : CoinInfo :=
  ⟨payCoinId n, Address.zero.toText, 30, 1, "ROOT"⟩

private def payCoins : HashMap ObjectId Coin :=
  [1, 2, 3, 4].foldl (fun coins n ↦ coins.insert (payCoinId n)
    (createCoinWithId (payCoinId n) Address.zero 30 "ROOT" 0)) ∅

private def payState : GlobalStateManager Bytes :=
  (GlobalStateManager.new backwards).modifySubnet backwards .root fun smt ↦
    payCoins.toList.foldl (fun smt e ↦ smt.upsert backwards e.1 e.2.toCoinStateBytes) smt

private def payTransfer (amount : UInt64) : Transfer :=
  ⟨"t", Address.zero.toText, Address.zero.toText, amount,
    some ⟨Address.zero.toText, "nonce-0001", payCoinId 0⟩⟩

private def payEvent (id : EventId) (eventType : EventType) (payload : EventPayload) : Event where
  id := id
  eventType := eventType
  parentIds := []
  subnetId := none
  transfer := none
  payload := payload
  vlcSnapshot := ⟨∅, 1, 0⟩
  creator := ""
  status := .pending
  executionResult := none
  timestamp := 0

private def payCodec : TransferCodec := ⟨fun _ ↦ [], fun _ ↦ []⟩

/-- A transfer of 20 from the first coin. -/
private def coveredTask (id : EventId) : TransferTask backwards where
  transfer := payTransfer 20
  coins := [payCoin 1]
  subnetId := .root
  payload := .transfer (payTransfer 20)
  prepared := by decide +kernel
  created := payEvent id .transfer .none
  result :=
    let coin := createCoinWithId (payCoinId 1) Address.zero 30 "ROOT" 0
    ⟨[⟨objectKey (payCoinId 1), some coin.toCoinStateBytes,
      some { coin with balance := 10 }.toCoinStateBytes, none⟩], 1, 0, [], 0⟩
  solverMessage := ""
  suffix := ""

private def coveredCalls : List (Call (LedgerTask backwards)) :=
  [⟨[.transfer (coveredTask "e1"), .transfer (coveredTask "e2")], 0⟩]

private theorem keepsMarkers_coveredTask {id : EventId}
    (h : (eventWrites backwards (LedgerTask.event payCodec (.transfer (coveredTask id)))).all
      (fun ws ↦ ws.all (·.value.isSome)) = true) :
    LedgerTask.KeepsMarkers backwards payCodec (.transfer (coveredTask id)) := by
  intro ws hws w hw hn
  rw [Option.mem_def.mp hws, Option.all_some, List.all_eq_true] at h
  have hs := h w hw
  rw [hn] at hs
  cases hs

/-- Two requests with one nonce, committed together. -/
theorem appliedOnce_coveredCalls :
    AppliedOnce backwards payCodec payState coveredCalls ∧ MarkersApart backwards := by
  refine appliedOnce_of_oneCoinCovers payCodec payState coveredCalls ?_ ?_
  · intro call hc task ht
    obtain rfl := List.mem_singleton.mp hc
    rcases List.mem_pair.mp ht with rfl | rfl <;>
      exact fun _ ↦ ⟨payCoin 1, List.mem_cons_self, by decide⟩
  · intro call hc task ht
    obtain rfl := List.mem_singleton.mp hc
    rcases List.mem_pair.mp ht with rfl | rfl <;>
      exact keepsMarkers_coveredTask (by decide +kernel)

/-- A transfer of 40, which two coins are merged for, as the enclave executes it. -/
private def mergedTask (id : EventId) (target source : UInt8)
    (prepared : prepareTransferTask backwards [payCoin target, payCoin source] (payTransfer 40) =
      .ok (.mergeThenTransfer (payCoinId target) [payCoinId source] Address.zero 40)) :
    TransferTask backwards where
  transfer := payTransfer 40
  coins := [payCoin target, payCoin source]
  subnetId := .root
  payload := .mergeThenTransfer (payCoinId target) [payCoinId source] Address.zero 40
  prepared := prepared
  created := payEvent id .coinMergeThenTransfer .none
  result :=
    match executeCoinEvent backwards
      (payEvent id .coinMergeThenTransfer (.coinMergeThenTransfer "" [""] "" 40))
      ⟨[payCoinId target, payCoinId source], .mergeThenTransfer 0 [1] Address.zero 40⟩
      payCoins with
    | .ok (output, _) =>
      .fromStfOutput ⟨coinEventDiff none none id none output, [id], [], 0⟩
    | .error reason => .fromStfOutput ⟨.new, [], [⟨id, reason⟩], 0⟩
  solverMessage := ""
  suffix := ""

private def mergedCalls : List (Call (LedgerTask backwards)) :=
  [⟨[.transfer (mergedTask "e1" 1 2 (by decide +kernel))], 0⟩,
    ⟨[.transfer (mergedTask "e2" 3 4 (by decide +kernel))], 0⟩]

/-- Both requests are applied: no marker was left by the first one. -/
theorem not_appliedOnce_mergedCalls :
    (payState.runTurns backwards (LedgerTask.event payCodec) mergedCalls).map
      (fun t ↦ (t.task.authorization, decide (t.Applied (LedgerTask.event payCodec)))) =
        [((payTransfer 40).authorization, true), ((payTransfer 40).authorization, true)] ∧
    ¬ AppliedOnce backwards payCodec payState mergedCalls := by
  have htu : (payState.runTurns backwards (LedgerTask.event payCodec) mergedCalls).map
      (fun t ↦ (t.task.authorization, decide (t.Applied (LedgerTask.event payCodec)))) =
        [((payTransfer 40).authorization, true), ((payTransfer 40).authorization, true)] := by
    decide +kernel
  refine ⟨htu, fun ho ↦ ?_⟩
  rcases h : payState.runTurns backwards (LedgerTask.event payCodec) mergedCalls with
    _ | ⟨t, _ | ⟨t', rest⟩⟩
  · rw [h] at htu
    cases htu
  · rw [h, List.map_cons, List.cons.injEq] at htu
    cases htu.2
  · rw [h, List.map_cons, List.map_cons, List.cons.injEq, List.cons.injEq, Prod.mk.injEq,
      Prod.mk.injEq] at htu
    obtain ⟨⟨ht, ha⟩, ⟨ht', ha'⟩, -⟩ := htu
    exact ho 0 1 t t' _ _ Nat.zero_lt_one (by rw [h]; rfl) (by rw [h]; rfl) ht ht'
      (of_decide_eq_true ha) (of_decide_eq_true ha') rfl

end Setu.Validator
