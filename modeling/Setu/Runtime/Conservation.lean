import Setu.Base.Journal
import Setu.Runtime.Executor

/-!
# Conservation of coin value by the local runtime

Library `Runtime`. Every coin operation that comes through keeps the supply of each coin type,
leaves coins it does not name alone and reports state changes that lead from the stored coins
before it to those after it. All three follow from a journal of the operation: its edits of the
store in the order of the reported changes, with as much value left as was found.
-/

namespace Setu.Runtime

open Setu.Base Setu.Types RuntimeExecutor

variable (coinType : String)

/-- The value of a coin in a coin type. -/
def worth (coin : Coin) : Nat :=
  if coin.coinType = coinType then coin.balance.toNat else 0

variable (state : HashMap ObjectId Coin)

/-- The sum of all balances of a coin type. -/
def supply (coinType : String) : Nat :=
  HashMap.sumOver (worth coinType) state

/-- The stored form of the coins. -/
def storedCoins : ObjectId → Option Bytes :=
  fun id ↦ (state.lookup id).map Coin.toCoinStateBytes

/-- What a change leaves at its object. -/
def StateChange.stored (change : StateChange) : Option Bytes :=
  match change.changeType with
  | .create | .update => change.newState
  | .delete => none

/-- Replays a change on stored objects; it must find the old state it names. -/
def StateChange.replay (stored : ObjectId → Option Bytes) (change : StateChange) :
    Option (ObjectId → Option Bytes) :=
  if stored change.objectId = change.oldState then
    some (Function.update stored change.objectId change.stored)
  else none

/-- The new coins have identifiers of their own. -/
def FreshCoins (rt : RuntimeExecutor) (output : ExecutionOutput) : Prop :=
  output.createdObjects.Nodup ∧ ∀ id ∈ output.createdObjects, rt.state.lookup id = none

/-- What an operation that names some coins conserves. -/
structure Conserves (named : List ObjectId) (rt : RuntimeExecutor) (output : ExecutionOutput)
    (rt' : RuntimeExecutor) : Prop where
  supply : ∀ coinType, supply rt'.state coinType = supply rt.state coinType
  others : ∀ id coin, id ∉ named → rt.state.lookup id = some coin →
    rt'.state.lookup id = some coin
  replay : output.stateChanges.foldlM StateChange.replay (storedCoins rt.state) =
    some (storedCoins rt'.state)

variable (e : Edit ObjectId Coin)

/-- The state change that reports an edit. -/
def coinChange : StateChange where
  changeType :=
    match e.old, e.new with
    | _, none => .delete
    | none, some _ => .create
    | some _, some _ => .update
  objectId := e.key
  oldState := e.old.map Coin.toCoinStateBytes
  newState := e.new.map Coin.toCoinStateBytes

/-- A journal of an operation: it reports the edits, which touch named and new coins only and
leave as much value as they found. -/
structure IsJournal (named : List ObjectId) (rt : RuntimeExecutor) (output : ExecutionOutput)
    (rt' : RuntimeExecutor) (log : List (Edit ObjectId Coin)) : Prop where
  leads : Leads rt.state log rt'.state
  changes : output.stateChanges = log.map coinChange
  keys : ∀ e ∈ log, e.key ∈ named ∨ e.key ∈ output.createdObjects
  balanced : ∀ coinType, foundWeight (worth coinType) log = leftWeight (worth coinType) log

private theorem stored_coinChange : (coinChange e).stored = e.new.map Coin.toCoinStateBytes := by
  rcases e with ⟨key, _ | old, _ | new⟩ <;> rfl

private theorem storedCoins_perform :
    storedCoins (e.perform state) =
      Function.update (storedCoins state) e.key (e.new.map Coin.toCoinStateBytes) := by
  funext id
  rw [storedCoins, congrFun (Edit.lookup_perform state e) id]
  by_cases h : id = e.key
  · subst h
    rw [Function.update_self, Function.update_self]
  · rw [Function.update_of_ne h, Function.update_of_ne h, storedCoins]

variable {log : List (Edit ObjectId Coin)}

/-- Replaying the changes of a journal goes where the journal leads. -/
theorem replay_of_leads {state state' : HashMap ObjectId Coin} (h : Leads state log state') :
    (log.map coinChange).foldlM StateChange.replay (storedCoins state) =
      some (storedCoins state') := by
  induction log generalizing state with
  | nil =>
    have hs : storedCoins state = storedCoins state' := by
      funext id
      rw [storedCoins, h id, storedCoins]
    rw [List.map_nil, List.foldlM_nil, hs]
    rfl
  | cons e log ih =>
    have hf : storedCoins state (coinChange e).objectId = (coinChange e).oldState := by
      rw [storedCoins, coinChange, h.1]
    rw [List.map_cons, List.foldlM_cons, StateChange.replay, if_pos hf, stored_coinChange]
    have hr := ih h.2
    rw [storedCoins_perform] at hr
    exact hr

/-- An operation with a journal conserves. -/
theorem IsJournal.conserves {named : List ObjectId} {rt rt' : RuntimeExecutor}
    {output : ExecutionOutput} (h : IsJournal named rt output rt' log)
    (hf : FreshCoins rt output) :
    Conserves named rt output rt' where
  supply coinType := by
    have hs := h.leads.sumOver_add (worth coinType)
    have hb := h.balanced coinType
    rw [supply, supply]
    omega
  others id coin hid hc := by
    rw [h.leads.lookup_eq, hc]
    rintro e he rfl
    rcases h.keys e he with hn | hcr
    · exact hid hn
    · rw [hf.2 e.key hcr] at hc
      cases hc
  replay := by
    rw [h.changes]
    exact replay_of_leads h.leads

/-- More coins may be named. -/
theorem IsJournal.mono {named named' : List ObjectId} {rt rt' : RuntimeExecutor}
    {output : ExecutionOutput} (h : IsJournal named rt output rt' log) (hs : named ⊆ named') :
    IsJournal named' rt output rt' log :=
  ⟨h.leads, h.changes, fun e he ↦ (h.keys e he).imp_left fun hk ↦ hs hk, h.balanced⟩

private theorem worth_transferTo (coin : Coin) (recipient : Address) :
    worth coinType (coin.transferTo recipient) = worth coinType coin := by
  unfold Coin.transferTo
  split <;> rfl

private theorem worth_incrementVersion (coinType : String) (coin : Coin) :
    worth coinType coin.incrementVersion = worth coinType coin := rfl

variable {coin reduced target : Coin} {amount : UInt64}

private theorem coinType_withdraw (h : coin.withdraw amount = .ok reduced)
    : reduced.coinType = coin.coinType := by
  unfold Coin.withdraw at h
  split at h <;> cases h
  rfl

private theorem balance_withdraw (h : coin.withdraw amount = .ok reduced) :
    reduced.balance.toNat + amount.toNat = coin.balance.toNat := by
  unfold Coin.withdraw at h
  split at h
  · cases h
  · next hle =>
    cases h
    have hle := UInt64.not_lt.mp hle
    rw [UInt64.toNat_sub_of_le _ _ hle]
    exact Nat.sub_add_cancel (UInt64.le_iff_toNat_le.mp hle)

private theorem worth_withdraw (h : coin.withdraw amount = .ok reduced) (coinType : String)
    (id : ObjectId) (owner : Address) (timestamp : UInt64) :
    worth coinType reduced +
      worth coinType (createCoinWithId id owner amount coin.coinType timestamp) =
        worth coinType coin := by
  by_cases ht : coin.coinType = coinType
  · simp [worth, createCoinWithId, coinType_withdraw h, ht, balance_withdraw h]
  · simp [worth, createCoinWithId, coinType_withdraw h, ht]

private theorem worth_deposit {source merged : Coin}
    (h : target.deposit source.balance = .ok merged) (ht : source.coinType = target.coinType)
    (coinType : String) :
    worth coinType merged = worth coinType target + worth coinType source := by
  unfold Coin.deposit at h
  split at h
  · next hlt =>
    cases h
    simp only [worth, ht]
    split
    · rw [UInt64.toNat_add, Nat.mod_eq_of_lt hlt]
    · rfl
  · cases h

private theorem coinType_deposit {merged : Coin} (h : target.deposit amount = .ok merged)
    : merged.coinType = target.coinType := by
  unfold Coin.deposit at h
  split at h <;> cases h
  rfl

variable {D : Type} {H : Blake3 D} {ctx : ExecutionContext} {rt rt' : RuntimeExecutor}
  {output : ExecutionOutput}

variable {coinId targetId sourceId : ObjectId} {recipient owner : Address} {message : String}

private theorem isJournal_fullTransfer (hc : rt.state.lookup coinId = some coin) :
    IsJournal [coinId] rt ⟨message, (rt.fullTransfer coin coinId recipient).1, [], []⟩
      (rt.fullTransfer coin coinId recipient).2
      [⟨coinId, some coin, some (coin.transferTo recipient)⟩] where
  leads := Leads.single hc
  changes := rfl
  keys e he := by
    rw [List.mem_singleton.mp he]
    exact .inl List.mem_cons_self
  balanced coinType := by
    simp only [foundWeight_cons, leftWeight_cons, Option.elim_some, worth_transferTo,
      foundWeight_nil, leftWeight_nil]

private theorem isJournal_partialTransfer (hc : rt.state.lookup coinId = some coin)
    (hr : coin.withdraw amount = .ok reduced)
    (hn : rt.state.lookup (coinIdFromTx H ctx.txHash rt.outputCounter) = none) :
    IsJournal [coinId] rt
      ⟨message, (rt.partialTransfer H ctx coin reduced coinId recipient amount).1,
        (rt.partialTransfer H ctx coin reduced coinId recipient amount).2.1, []⟩
      (rt.partialTransfer H ctx coin reduced coinId recipient amount).2.2
      [⟨coinId, some coin, some reduced.incrementVersion⟩,
        ⟨coinIdFromTx H ctx.txHash rt.outputCounter, none,
          some (createCoinWithId (coinIdFromTx H ctx.txHash rt.outputCounter) recipient amount
            coin.coinType ctx.timestamp)⟩] where
  leads := by
    have hne : coinIdFromTx H ctx.txHash rt.outputCounter ≠ coinId := by
      intro heq
      rw [heq, hc] at hn
      cases hn
    refine ⟨hc, ?_, Leads.refl _⟩
    rw [Edit.lookup_perform_ne _ hne, hn]
  changes := rfl
  keys e he := by
    rcases List.mem_cons.mp he with rfl | he
    · exact .inl List.mem_cons_self
    · rw [List.mem_singleton.mp he]
      exact .inr List.mem_cons_self
  balanced coinType := by
    have hw := worth_withdraw hr coinType
      (coinIdFromTx H ctx.txHash rt.outputCounter) recipient ctx.timestamp
    simp only [foundWeight_cons, leftWeight_cons, Option.elim_some, Option.elim_none,
      foundWeight_nil, leftWeight_nil, worth_incrementVersion]
    omega

theorem exists_journal_executeTransfer {sender : Address} {amount : Option UInt64}
    (h : rt.executeTransfer H ctx sender coinId recipient amount = .ok (output, rt'))
    (hf : FreshCoins rt output) : ∃ log, IsJournal [coinId] rt output rt' log := by
  simp only [executeTransfer, bind_eq_ok, okOr_eq_ok] at h
  obtain ⟨coin, hc, -, -, owner, -, -, -, -, -, h⟩ := h
  cases amount with
  | none =>
    simp only [pure_eq_ok, Prod.mk.injEq] at h
    obtain ⟨rfl, rfl⟩ := h
    exact ⟨_, isJournal_fullTransfer hc⟩
  | some amount =>
    dsimp only at h
    split at h
    · simp only [pure_eq_ok, Prod.mk.injEq] at h
      obtain ⟨rfl, rfl⟩ := h
      exact ⟨_, isJournal_fullTransfer hc⟩
    · simp only [bind_eq_ok, mapError_eq_ok, pure_eq_ok, Prod.mk.injEq] at h
      obtain ⟨reduced, hr, rfl, rfl⟩ := h
      exact ⟨_, isJournal_partialTransfer hc hr (hf.2 _ List.mem_cons_self)⟩

/-- The journal of the sources merged so far. The target is put into the store last and reported
first, so that the journal has to lead on with any target in place. -/
private structure MergeJournal (rt : RuntimeExecutor) (targetId : ObjectId) (target : Coin)
    (sourceIds : List ObjectId) (progress : RuntimeExecutor.MergeProgress)
    (log : List (Edit ObjectId Coin)) : Prop where
  leads : ∀ coin,
    Leads (rt.state.insert targetId coin) log (progress.state.insert targetId coin)
  changes : progress.stateChanges = log.map coinChange
  keys : ∀ e ∈ log, e.key ∈ sourceIds
  coinType : progress.target.coinType = target.coinType
  found : ∀ coinType, worth coinType progress.target =
    worth coinType target + foundWeight (worth coinType) log
  left : ∀ coinType, leftWeight (worth coinType) log = 0

variable {sourceIds : List ObjectId}

private theorem mergeJournal_mergeSource {p p' : RuntimeExecutor.MergeProgress}
    (hso : sourceId ∈ sourceIds) (hne : sourceId ≠ targetId)
    (hs : mergeSource owner target.coinType p sourceId = .ok p')
    (hp : MergeJournal rt targetId target sourceIds p log) :
    ∃ log', MergeJournal rt targetId target sourceIds p' log' := by
  simp only [mergeSource, bind_eq_ok, pure_eq_ok, okOr_eq_ok,
    mapError_eq_ok, require_eq_ok, beq_iff_eq] at hs
  obtain ⟨source, hl, -, -, -, -, -, ht, merged, hm, rfl⟩ := hs
  refine ⟨log ++ [⟨sourceId, some source, none⟩], ?_, ?_, ?_, ?_, ?_, ?_⟩
  · intro coin
    refine (hp.leads coin).append ?_
    have hf : (p.state.insert targetId coin).lookup sourceId = some source := by
      rw [AList.lookup_insert_ne hne, hl]
    have hc := Edit.lookup_perform_comm p.state ⟨targetId, none, some coin⟩
      ⟨sourceId, some source, none⟩ (Ne.symm hne)
    exact (Leads.single hf).congr_right hc
  · rw [hp.changes, List.map_append]
    rfl
  · intro e he
    rcases List.mem_append.mp he with he | he
    · exact hp.keys e he
    · rw [List.mem_singleton.mp he]
      exact hso
  · rw [coinType_deposit hm, hp.coinType]
  · intro coinType
    rw [worth_deposit hm (ht.trans hp.coinType.symm), hp.found, foundWeight_append,
      foundWeight_cons, foundWeight_nil, Option.elim_some]
    omega
  · intro coinType
    rw [leftWeight_append, hp.left, leftWeight_cons, leftWeight_nil, Option.elim_none]

theorem exists_journal_executeMergeCoins
    (h : rt.executeMergeCoins owner targetId sourceIds = .ok (output, rt')) :
    ∃ log, IsJournal (targetId :: sourceIds) rt output rt' log := by
  simp only [executeMergeCoins, bind_eq_ok, pure_eq_ok, Prod.mk.injEq,
    okOr_eq_ok, require_eq_ok] at h
  obtain ⟨-, -, -, -, -, hn, -, -, target, ht, -, -, -, -, merged, hm, rfl, rfl⟩ := h
  have hn : targetId ∉ sourceIds := by simpa using hn
  obtain ⟨log, hl⟩ := foldlM_ok_induction
    (fun p ↦ ∃ log, MergeJournal rt targetId target sourceIds p log) hm
    ⟨[], fun _ ↦ Leads.refl _, rfl, List.forall_mem_nil _, rfl, fun _ ↦ rfl, fun _ ↦ rfl⟩ (by
      rintro sourceId hs p p' hst ⟨log, hl⟩
      have hne : sourceId ≠ targetId := fun heq ↦ hn (heq ▸ hs)
      exact mergeJournal_mergeSource hs hne hst hl)
  refine ⟨⟨targetId, some target, some merged.target.incrementVersion⟩ :: log, ?_, ?_, ?_, ?_⟩
  · exact ⟨ht, hl.leads _⟩
  · rw [List.map_cons, ← hl.changes]
    rfl
  · intro e he
    rcases List.mem_cons.mp he with rfl | he
    · exact .inl List.mem_cons_self
    · exact .inl (List.mem_cons_of_mem _ (hl.keys e he))
  · intro coinType
    simp only [foundWeight_cons, leftWeight_cons, Option.elim_some, worth_incrementVersion,
      hl.found, hl.left]
    omega

/-- The journal of the amounts split off so far, given that their coins are new; the source is
put back last and reported first. -/
private structure SplitJournal (rt : RuntimeExecutor) (sourceId : ObjectId) (source : Coin)
    (progress : RuntimeExecutor.SplitProgress) (log : List (Edit ObjectId Coin)) : Prop where
  leads : ∀ e : Edit ObjectId Coin, e.key = sourceId →
    Leads (e.perform rt.state) log (e.perform progress.executor.state)
  changes : progress.stateChanges = log.map coinChange
  keys : progress.createdObjects = log.map Edit.key
  coinType : progress.source.coinType = source.coinType
  left : ∀ coinType, worth coinType progress.source + leftWeight (worth coinType) log =
    worth coinType source
  found : ∀ coinType, foundWeight (worth coinType) log = 0

private def FreshProgress (rt : RuntimeExecutor) (progress : RuntimeExecutor.SplitProgress) :
    Prop :=
  progress.createdObjects.Nodup ∧ ∀ id ∈ progress.createdObjects, rt.state.lookup id = none

variable {p p' : RuntimeExecutor.SplitProgress}

private theorem splitJournal_splitAmount {source : Coin}
    (hso : rt.state.lookup sourceId = some source)
    (hs : splitAmount H ctx owner p amount = .ok p')
    (hf : FreshProgress rt p') (hp : SplitJournal rt sourceId source p log) :
    ∃ log', SplitJournal rt sourceId source p' log' := by
  simp only [splitAmount, bind_eq_ok, pure_eq_ok, mapError_eq_ok] at hs
  obtain ⟨reduced, hr, rfl⟩ := hs
  generalize coinIdFromTx H ctx.txHash p.executor.outputCounter = newId at hf ⊢
  have hn : rt.state.lookup newId = none := hf.2 newId (List.mem_append_right _ List.mem_cons_self)
  have hnM : newId ∉ p.createdObjects := by
    have hno := (List.nodup_append.mp hf.1).2.2
    intro hm
    exact hno newId hm newId List.mem_cons_self rfl
  have hne : newId ≠ sourceId := by
    intro heq
    rw [heq, hso] at hn
    cases hn
  refine ⟨log ++ [⟨newId, none,
    some (createCoinWithId newId owner amount p.source.coinType ctx.timestamp)⟩],
    ?_, ?_, ?_, ?_, ?_, ?_⟩
  · intro e he
    refine (hp.leads e he).append ?_
    -- the new identifier is not in the store yet, whatever stands at the source
    have hu : (e.perform p.executor.state).lookup newId = none := by
      rw [(hp.leads e he).lookup_eq, Edit.lookup_perform_ne _ (he ▸ hne), hn]
      intro e' he' heq
      rw [hp.keys, heq] at hnM
      exact hnM (List.mem_map_of_mem he')
    refine (Leads.single hu).congr_right (Edit.lookup_perform_comm _ e _ ?_)
    rw [he]
    exact Ne.symm hne
  · rw [hp.changes, List.map_append]
    rfl
  · rw [hp.keys, List.map_append]
    rfl
  · rw [coinType_withdraw hr, hp.coinType]
  · intro coinType
    have hw := worth_withdraw hr coinType newId owner ctx.timestamp
    have hl := hp.left coinType
    rw [leftWeight_append, leftWeight_cons, leftWeight_nil, Option.elim_some]
    dsimp only
    omega
  · intro coinType
    rw [foundWeight_append, hp.found, foundWeight_cons, foundWeight_nil, Option.elim_none]

private theorem freshProgress_of_splitAmount
    (hs : splitAmount H ctx owner p amount = .ok p')
    (hf : FreshProgress rt p') : FreshProgress rt p := by
  simp only [splitAmount, bind_eq_ok, pure_eq_ok] at hs
  obtain ⟨reduced, -, rfl⟩ := hs
  exact ⟨(List.nodup_append.mp hf.1).1, fun id hid ↦ hf.2 id (List.mem_append_left _ hid)⟩

variable {amounts : List UInt64}

private theorem balance_splitAmounts
    (h : amounts.foldlM (splitAmount H ctx owner) p = .ok p') :
    p'.source.balance.toNat + (amounts.map UInt64.toNat).sum = p.source.balance.toNat := by
  induction amounts generalizing p with
  | nil =>
    obtain rfl : p = p' := by simpa using h
    rfl
  | cons amount amounts ih =>
    rw [List.foldlM_cons, bind_eq_ok] at h
    obtain ⟨q, hs, hr⟩ := h
    simp only [splitAmount, bind_eq_ok, pure_eq_ok,
      mapError_eq_ok] at hs
    obtain ⟨reduced, hre, rfl⟩ := hs
    have hb := balance_withdraw hre
    have hr := ih hr
    rw [List.map_cons, List.sum_cons]
    dsimp only at hr
    omega

/-- A total that fits is the sum of the amounts. -/
theorem toNat_totalSplit {total : UInt64} (h : totalSplit amounts = some total) :
    total.toNat = (amounts.map UInt64.toNat).sum := by
  simp only [totalSplit, Option.ite_none_right_eq_some, Option.some.injEq] at h
  rw [← h.2]
  exact UInt64.toNat_ofNat_of_lt h.1

theorem exists_journal_executeSplitCoin
    (h : rt.executeSplitCoin H ctx owner sourceId amounts = .ok (output, rt'))
    (hf : FreshCoins rt output) : ∃ log, IsJournal [sourceId] rt output rt' log := by
  simp only [executeSplitCoin, bind_eq_ok, okOr_eq_ok] at h
  obtain ⟨-, -, -, -, -, -, source, hs, -, -, -, -, total, ht, -, -, split, hsp, h⟩ := h
  have hj (hpr : FreshProgress rt split) : ∃ log, SplitJournal rt sourceId source split log :=
    foldlM_ok_induction
      (fun p ↦ FreshProgress rt p → ∃ log, SplitJournal rt sourceId source p log) hsp
      (fun _ ↦ ⟨[], fun _ _ ↦ Leads.refl _, rfl, rfl, rfl, fun _ ↦ rfl, fun _ ↦ rfl⟩) (by
        intro amount _ p p' hst hp hp'
        obtain ⟨log, hl⟩ := hp (freshProgress_of_splitAmount hst hp')
        exact splitJournal_splitAmount hs hst hp' hl) hpr
  have hb := balance_splitAmounts hsp
  dsimp only at hb
  rw [← toNat_totalSplit ht] at hb
  split at h
  · next heq =>
    simp only [pure_eq_ok, Prod.mk.injEq] at h
    obtain ⟨rfl, rfl⟩ := h
    obtain ⟨log, hl⟩ := hj hf
    refine ⟨⟨sourceId, some source, none⟩ :: log, ⟨hs, hl.leads _ rfl⟩, ?_, ?_, ?_⟩
    · rw [List.map_cons, ← hl.changes]
      rfl
    · intro e he
      rcases List.mem_cons.mp he with rfl | he
      · exact .inl List.mem_cons_self
      · exact .inr (hl.keys ▸ List.mem_map_of_mem he)
    · intro coinType
      have hem : worth coinType split.source = 0 := by
        have hz : split.source.balance.toNat = 0 := by
          rw [heq] at hb
          omega
        simp [worth, hz]
      have hle := hl.left coinType
      simp only [foundWeight_cons, leftWeight_cons, Option.elim_some, Option.elim_none, hl.found]
      omega
  · simp only [pure_eq_ok, Prod.mk.injEq] at h
    obtain ⟨rfl, rfl⟩ := h
    obtain ⟨log, hl⟩ := hj hf
    refine ⟨⟨sourceId, some source, some split.source.incrementVersion⟩ :: log,
      ⟨hs, hl.leads _ rfl⟩, ?_, ?_, ?_⟩
    · rw [List.map_cons, ← hl.changes]
      rfl
    · intro e he
      rcases List.mem_cons.mp he with rfl | he
      · exact .inl List.mem_cons_self
      · exact .inr (hl.keys ▸ List.mem_map_of_mem he)
    · intro coinType
      have hle := hl.left coinType
      simp only [foundWeight_cons, leftWeight_cons, Option.elim_some, worth_incrementVersion,
        hl.found]
      omega

/-- The coins of a type are stored. -/
theorem mem_coinsOfType {state : HashMap ObjectId Coin} {owned : List ObjectId}
    {coinType : String} {id : ObjectId}
    (h : (id, coin) ∈ coinsOfType state owned coinType) :
    state.lookup id = some coin := by
  obtain ⟨id', -, hid'⟩ := List.mem_filterMap.mp (List.mem_of_mem_filter h)
  obtain ⟨coin', hc, heq⟩ := Option.map_eq_some_iff.mp hid'
  cases heq
  exact hc

private theorem IsJournal.append {named : List ObjectId} {mid : RuntimeExecutor}
    {merged transferred : ExecutionOutput} {log' : List (Edit ObjectId Coin)}
    (h : IsJournal named rt merged mid log) (h' : IsJournal named mid transferred rt' log') :
    IsJournal named rt
      ⟨message, merged.stateChanges ++ transferred.stateChanges,
        merged.createdObjects ++ transferred.createdObjects,
        merged.deletedObjects ++ transferred.deletedObjects⟩ rt' (log ++ log') where
  leads := h.leads.append h'.leads
  changes := by rw [h.changes, h'.changes, List.map_append]
  keys e he := by
    rcases List.mem_append.mp he with he | he
    · exact (h.keys e he).imp_right (List.mem_append_left _)
    · exact (h'.keys e he).imp_right (List.mem_append_right _)
  balanced coinType := by
    rw [foundWeight_append, leftWeight_append, h.balanced, h'.balanced]

private theorem createdObjects_executeMergeCoins
    (h : rt.executeMergeCoins owner targetId sourceIds = .ok (output, rt')) :
    output.createdObjects = [] := by
  simp only [executeMergeCoins, bind_eq_ok, pure_eq_ok, Prod.mk.injEq] at h
  obtain ⟨-, -, -, -, -, -, -, -, target, -, -, -, -, -, merged, -, rfl, -⟩ := h
  rfl

private theorem exists_journal_mergeAndTransfer {sender : Address}
    {coins : List (ObjectId × Coin)} (hco : ∀ c ∈ coins, rt.state.lookup c.1 = some c.2)
    (h : rt.mergeAndTransfer H ctx sender recipient amount coins = .ok (output, rt'))
    (hf : FreshCoins rt output) :
    ∃ log, IsJournal (coins.map Prod.fst) rt output rt' log := by
  unfold mergeAndTransfer at h
  split at h
  · cases h
  · next targetId target rest hs =>
    have hp := (sortOn_perm (fun c : ObjectId × Coin ↦
      OrderDual.toDual c.2.balance.toNat) coins).map Prod.fst
    rw [hs, List.map_cons] at hp
    simp only [bind_eq_ok, pure_eq_ok, Prod.mk.injEq, Prod.exists] at h
    obtain ⟨merged, mid, hm, transferred, rt', ht, rfl, rfl⟩ := h
    obtain ⟨log, hl⟩ := exists_journal_executeMergeCoins hm
    have hl := hl.mono hp.subset
    have hcr := createdObjects_executeMergeCoins hm
    -- the merge touches coins of the store only, so that new identifiers are still new after it
    have hmi : FreshCoins mid transferred := by
      simp only [FreshCoins, hcr, List.nil_append] at hf
      refine ⟨hf.1, fun id hid ↦ ?_⟩
      rw [hl.leads.lookup_eq, hf.2 id hid]
      intro e he heq
      rcases hl.keys e he with hk | hk
      · obtain ⟨c, hc, hck⟩ := List.mem_map.mp hk
        have hfo := hco c hc
        rw [hck, ← heq, hf.2 id hid] at hfo
        cases hfo
      · rw [hcr] at hk
        cases hk
    obtain ⟨log', hl'⟩ := exists_journal_executeTransfer ht hmi
    refine ⟨log ++ log', hl.append (hl'.mono ?_)⟩
    refine List.cons_subset.mpr ⟨hp.mem_iff.mp List.mem_cons_self, List.nil_subset _⟩

theorem exists_journal_executeSimpleTransfer {getOwnedObjects : Address → List ObjectId}
    {inTee : Bool} {sender recipient : String} {coinType : Option String}
    (h : rt.executeSimpleTransfer H getOwnedObjects ctx inTee sender recipient amount coinType =
      .ok (output, rt')) (hf : FreshCoins rt output) :
    ∃ address log, Address.fromHex sender = some address ∧
      IsJournal ((coinsOfType rt.state (getOwnedObjects address)
        (coinType.getD "ROOT")).map Prod.fst) rt output rt' log := by
  simp only [executeSimpleTransfer, bind_eq_ok, okOr_eq_ok] at h
  obtain ⟨-, -, address, ha, recipientAddr, -, total, -, -, -, h⟩ := h
  have hp := sortOn_perm (fun c : ObjectId × Coin ↦ c.2.balance.toNat)
    (coinsOfType rt.state (getOwnedObjects address) (coinType.getD "ROOT"))
  split at h
  · next coinId coin hfi =>
    obtain ⟨log, hl⟩ := exists_journal_executeTransfer h hf
    refine ⟨address, log, ha, hl.mono ?_⟩
    refine List.cons_subset.mpr ⟨(hp.map Prod.fst).mem_iff.mp ?_, List.nil_subset _⟩
    exact List.mem_map_of_mem (List.mem_of_find?_eq_some hfi)
  · obtain ⟨log, hl⟩ := exists_journal_mergeAndTransfer
      (fun c hc ↦ mem_coinsOfType (hp.mem_iff.mp hc)) h hf
    exact ⟨address, log, ha, hl.mono (hp.map Prod.fst).subset⟩

/-- The coin operations of the runtime with their arguments. -/
inductive CoinOperation where
  | transfer (sender : Address) (coinId : ObjectId) (recipient : Address) (amount : Option UInt64)
  | transferWithCoin (coinId : ObjectId) (sender recipient : String) (amount : Option UInt64)
  | simpleTransfer (inTee : Bool) (sender recipient : String) (amount : UInt64)
      (coinType : Option String)
  | mergeCoins (owner : Address) (targetCoinId : ObjectId) (sourceCoinIds : List ObjectId)
  | splitCoin (owner : Address) (sourceCoinId : ObjectId) (amounts : List UInt64)

namespace CoinOperation

/-- Runs an operation. -/
def run (H : Blake3 D) (getOwnedObjects : Address → List ObjectId) (ctx : ExecutionContext)
    (rt : RuntimeExecutor) :
    CoinOperation → Except RuntimeError (ExecutionOutput × RuntimeExecutor)
  | transfer sender coinId recipient amount =>
    rt.executeTransfer H ctx sender coinId recipient amount
  | transferWithCoin coinId sender recipient amount =>
    rt.executeTransferWithCoin H ctx coinId sender recipient amount
  | simpleTransfer inTee sender recipient amount coinType =>
    rt.executeSimpleTransfer H getOwnedObjects ctx inTee sender recipient amount coinType
  | mergeCoins owner targetCoinId sourceCoinIds =>
    rt.executeMergeCoins owner targetCoinId sourceCoinIds
  | splitCoin owner sourceCoinId amounts => rt.executeSplitCoin H ctx owner sourceCoinId amounts

/-- The coins an operation is about; a simple transfer is about the coins of its type that the
store lists for the sender. -/
def named (getOwnedObjects : Address → List ObjectId) (rt : RuntimeExecutor) :
    CoinOperation → List ObjectId
  | transfer _ coinId _ _ => [coinId]
  | transferWithCoin coinId _ _ _ => [coinId]
  | simpleTransfer _ sender _ _ coinType =>
    (Address.fromHex sender).elim [] fun address ↦
      (coinsOfType rt.state (getOwnedObjects address)
        (coinType.getD "ROOT")).map Prod.fst
  | mergeCoins _ targetCoinId sourceCoinIds => targetCoinId :: sourceCoinIds
  | splitCoin _ sourceCoinId _ => [sourceCoinId]

/-- Every operation that comes through has a journal. -/
theorem exists_journal_run {getOwnedObjects : Address → List ObjectId} {op : CoinOperation}
    (h : op.run H getOwnedObjects ctx rt = .ok (output, rt')) (hf : FreshCoins rt output) :
    ∃ log, IsJournal (op.named getOwnedObjects rt) rt output rt' log := by
  cases op with
  | transfer sender coinId recipient amount => exact exists_journal_executeTransfer h hf
  | transferWithCoin coinId sender recipient amount =>
    simp only [run, executeTransferWithCoin, bind_eq_ok] at h
    obtain ⟨senderAddr, -, recipientAddr, -, h⟩ := h
    exact exists_journal_executeTransfer h hf
  | simpleTransfer inTee sender recipient amount coinType =>
    obtain ⟨address, log, ha, hl⟩ := exists_journal_executeSimpleTransfer h hf
    rw [named, ha]
    exact ⟨log, hl⟩
  | mergeCoins owner targetCoinId sourceCoinIds => exact exists_journal_executeMergeCoins h
  | splitCoin owner sourceCoinId amounts => exact exists_journal_executeSplitCoin h hf

/-- Coin value is conserved by every operation of the runtime that comes through, whatever the
store holds and lists. -/
theorem conserves_run {getOwnedObjects : Address → List ObjectId} {op : CoinOperation}
    (h : op.run H getOwnedObjects ctx rt = .ok (output, rt')) (hfresh : FreshCoins rt output) :
    Conserves (op.named getOwnedObjects rt) rt output rt' := by
  obtain ⟨log, hl⟩ := exists_journal_run h hfresh
  exact hl.conserves hfresh

/-- Two coins of the zero address, of 30 and of 20. -/
private def twoCoins : RuntimeExecutor where
  state :=
    (AList.insert (⟨Vector.replicate 32 1⟩ : ObjectId)
      (createCoinWithId ⟨Vector.replicate 32 1⟩ Address.zero 30 "ROOT" 0) ∅).insert
        ⟨Vector.replicate 32 2⟩
        (createCoinWithId ⟨Vector.replicate 32 2⟩ Address.zero 20 "ROOT" 0)
  outputCounter := 0

/-- A transfer of 40 by the zero address to itself. -/
private def transferForty : CoinOperation :=
  .simpleTransfer false Address.zero.toText Address.zero.toText 40 none

private def bothCoins (_ : Address) : List ObjectId :=
  [⟨Vector.replicate 32 1⟩, ⟨Vector.replicate 32 2⟩]

/-- A transfer that needs both coins merges them and conserves their value. -/
theorem conserves_run_transferForty : ∃ output rt',
    transferForty.run Blake3.ideal bothCoins ⟨0, []⟩ twoCoins = .ok (output, rt') ∧
      FreshCoins twoCoins output ∧
      Conserves (transferForty.named bothCoins twoCoins) twoCoins output rt' := by
  have hr := eq_ok_get (x := transferForty.run Blake3.ideal bothCoins ⟨0, []⟩ twoCoins)
    (by decide +kernel)
  have hf : FreshCoins twoCoins ((transferForty.run Blake3.ideal bothCoins ⟨0, []⟩
      twoCoins).toOption.get (by decide +kernel)).1 :=
    ⟨by decide +kernel, by decide +kernel⟩
  exact ⟨_, _, hr, hf, conserves_run hr hf⟩

end CoinOperation

end Setu.Runtime
