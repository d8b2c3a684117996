import Setu.Runtime.InPlace

/-!
# What a failed coin operation leaves in the store

Library `Runtime`. A transfer and a split leave the store as it was when they fail. A merge does so
exactly if it cannot fail once its first source is taken: it deletes a source before it looks at
the next one. A simple transfer has the same fault in its merge, and one of its own, since only the
transfer after the merge looks at the kind of the target. Source
`crates/setu-runtime/src/executor.rs`.
-/

namespace Setu.Runtime

open Setu.Base Setu.Types
open InPlace hiding getObject setObject deleteObject

/-- The balance found under an identifier. -/
def heldBy (get : ObjectId → Option Coin) (id : ObjectId) : Nat :=
  (get id).elim 0 fun coin ↦ coin.balance.toNat

/-- Sources that a merge of the owner's coins of the type takes into a balance: each is there,
belongs to the owner and has the type, and the sum fits. -/
def Takes (get : ObjectId → Option Coin) (owner : Address) (coinType : String) (balance : Nat)
    (ids : List ObjectId) : Prop :=
  (∀ id ∈ ids, ∃ coin, get id = some coin ∧ coin.owner = some owner ∧ coin.coinType = coinType) ∧
    balance + (ids.map (heldBy get)).sum < 2 ^ 64

/-- What a merge asks of its arguments before it looks at a source. -/
structure Admits (get : ObjectId → Option Coin) (owner : Address) (targetCoinId : ObjectId)
    (sourceCoinIds : List ObjectId) (target : Coin) : Prop where
  nonempty : sourceCoinIds ≠ []
  bounded : sourceCoinIds.length ≤ RuntimeExecutor.maxMergeSources
  notSource : targetCoinId ∉ sourceCoinIds
  nodup : sourceCoinIds.Nodup
  found : get targetCoinId = some target
  owned : target.owner = some owner

variable {get : ObjectId → Option Coin} {owner : Address} {coinType : String}
  {targetCoinId : ObjectId} {sourceCoinIds : List ObjectId} {target : Coin}

private theorem firstDuplicate_eq_none_iff {seen ids : List ObjectId} :
    RuntimeExecutor.firstDuplicate seen ids = none ↔ ids.Nodup ∧ ∀ id ∈ ids, id ∉ seen := by
  induction ids generalizing seen with
  | nil => simp [RuntimeExecutor.firstDuplicate]
  | cons id rest ih =>
    rw [RuntimeExecutor.firstDuplicate]
    by_cases hid : id ∈ seen
    · simp [hid]
    · rw [if_neg (by simpa using hid), ih, List.nodup_cons, List.forall_mem_cons]
      constructor
      · rintro ⟨hn, hr⟩
        refine ⟨⟨fun hm ↦ hr id hm List.mem_cons_self, hn⟩, hid, fun other hm ↦ ?_⟩
        exact fun hs ↦ hr other hm (List.mem_cons_of_mem _ hs)
      · rintro ⟨⟨hnM, hn⟩, -, hr⟩
        refine ⟨hn, fun other hm hs ↦ ?_⟩
        rcases List.mem_cons.mp hs with rfl | hs
        · exact hnM hm
        · exact hr other hm hs

theorem mergeTarget_eq_ok :
    mergeTarget get owner targetCoinId sourceCoinIds = .ok target ↔
      Admits get owner targetCoinId sourceCoinIds target := by
  simp only [mergeTarget, bind_eq_ok, require_eq_ok, okOr_eq_ok, pure_eq_ok,
    Option.isNone_iff_eq_none, firstDuplicate_eq_none_iff]
  constructor
  · rintro ⟨-, hne, -, hl, -, hs, -, hn, coin, hc, coinOwner, ho, -, heq, rfl⟩
    rw [beq_iff_eq] at heq
    exact ⟨by simpa using hne, by simpa using hl, by simpa using hs, hn.1, hc, heq ▸ ho⟩
  · intro h
    exact ⟨⟨⟩, by simpa using h.nonempty, ⟨⟩, by simpa using h.bounded, ⟨⟩,
      by simpa using h.notSource, ⟨⟩, ⟨h.nodup, fun _ _ ↦ List.not_mem_nil⟩, target, h.found, owner,
      h.owned, ⟨⟩, beq_self_eq_true _, rfl⟩

/-- The first source is taken, and the others into what it makes of the balance. -/
theorem takes_cons {get' : ObjectId → Option Coin} {balance : Nat} {id : ObjectId}
    {rest : List ObjectId} (hg : ∀ other ∈ rest, get' other = get other) :
    Takes get owner coinType balance (id :: rest) ↔ Takes get owner coinType balance [id] ∧
      Takes get' owner coinType (balance + heldBy get id) rest := by
  have hhe : rest.map (heldBy get') = rest.map (heldBy get) := by
    apply List.map_congr_left
    intro other ho
    rw [heldBy, heldBy, hg other ho]
  have ht : (∀ other ∈ rest, ∃ coin, get' other = some coin ∧ coin.owner = some owner ∧
      coin.coinType = coinType) ↔
      ∀ other ∈ rest, ∃ coin, get other = some coin ∧ coin.owner = some owner ∧
        coin.coinType = coinType := by
    refine forall₂_congr fun other ho ↦ ?_
    rw [hg other ho]
  simp only [Takes, ht, hhe, List.forall_mem_cons, List.map_cons, List.sum_cons,
    List.map_nil, List.sum_nil, Nat.add_zero, List.not_mem_nil, false_imp_iff, implies_true,
    and_true]
  constructor
  · rintro ⟨⟨hh, hr⟩, hs⟩
    exact ⟨⟨hh, by omega⟩, hr, by omega⟩
  · rintro ⟨⟨hh, -⟩, hr, hs⟩
    exact ⟨⟨hh, hr⟩, by omega⟩

/-- A store in which a deletion is seen at its own identifier only and an owned coin is found with
the balance and the owner it was written with. -/
class LawfulStateStore (R : Type) [StateStore R] : Prop where
  getObject_deleteObject : ∀ (r : R) (id : ObjectId),
    StateStore.getObject (StateStore.deleteObject r id) =
      Function.update (StateStore.getObject r) id none
  getObject_setObject : ∀ (r : R) (id : ObjectId) (coin : Coin) (owner : Address),
    coin.owner = some owner → coin.isOwned → ∃ stored,
      StateStore.getObject (StateStore.setObject r id coin) id = some stored ∧
        stored.owner = some owner ∧ stored.isOwned ∧ stored.balance = coin.balance

instance : LawfulStateStore RuntimeExecutor where
  getObject_deleteObject rt id := HashMap.lookup_erase_eq_update rt.state id
  getObject_setObject rt _ coin _ howner howned :=
    ⟨coin, AList.lookup_insert rt.state, howner, howned, rfl⟩

open StateStore (getObject deleteObject setObject)

variable {R : Type} [StateStore R] {r : R} {id : ObjectId} {progress : MergeProgress}

/-- What the target has become after sources of the listed balance. -/
structure Merged (total : Nat) (target merged : Coin) : Prop where
  balance : merged.balance.toNat = target.balance.toNat + total
  version : merged.version = target.version
  owner : merged.owner = target.owner
  objectType : merged.objectType = target.objectType

/-- A turn whose source can be taken deletes it. -/
theorem mergeSource_of_takes
    (h : Takes (getObject r) owner coinType progress.target.balance.toNat [id]) :
    ∃ next, mergeSource owner coinType progress id r = (.ok next, deleteObject r id) ∧
      Merged (heldBy (getObject r) id) progress.target next.target := by
  obtain ⟨ht, hf⟩ := h
  obtain ⟨coin, hc, ho, hty⟩ := ht id (List.mem_singleton.mpr rfl)
  have hh : heldBy (getObject r) id = coin.balance.toNat := by rw [heldBy, hc]; rfl
  rw [List.map_cons, List.map_nil, List.sum_cons, List.sum_nil, Nat.add_zero, hh] at hf
  have hd : progress.target.deposit coin.balance =
      .ok { progress.target with balance := progress.target.balance + coin.balance } := if_pos hf
  refine ⟨⟨{ progress.target with balance := progress.target.balance + coin.balance },
    progress.stateChanges ++ [⟨.delete, id, some coin.toCoinStateBytes, none⟩],
    progress.deletedObjects ++ [id]⟩, ?_, ?_, rfl, rfl, rfl⟩
  · refine (Exec.check_bind_of_ok (okOr_eq_ok.mpr hc)).trans ?_
    refine (Exec.check_bind_of_ok (okOr_eq_ok.mpr ho)).trans ?_
    refine (Exec.check_bind_of_ok (a := ⟨⟩)
      (require_eq_ok.mpr (beq_self_eq_true owner))).trans ?_
    refine (Exec.check_bind_of_ok (a := ⟨⟩) (require_eq_ok.mpr (beq_iff_eq.mpr hty))).trans ?_
    exact Exec.check_bind_of_ok (mapError_eq_ok.mpr hd)
  · rw [hh, UInt64.toNat_add, Nat.mod_eq_of_lt hf]

/-- A turn whose source cannot be taken writes nothing. -/
theorem mergeSource_of_not_takes
    (h : ¬ Takes (getObject r) owner coinType progress.target.balance.toNat [id]) :
    (mergeSource owner coinType progress id).Refuses r := by
  refine Exec.refuses_check_bind fun coin hc ↦ ?_
  refine Exec.refuses_check_bind fun coinOwner ho ↦ ?_
  refine Exec.refuses_check_bind fun _ heq ↦ ?_
  refine Exec.refuses_check_bind fun _ ht ↦ ?_
  refine Exec.refuses_check_bind fun next hd ↦ absurd ?_ h
  simp only [okOr_eq_ok, require_eq_ok, mapError_eq_ok, beq_iff_eq] at hc ho heq ht hd
  refine ⟨fun other hot ↦ ?_, ?_⟩
  · obtain rfl := List.mem_singleton.mp hot
    exact ⟨coin, hc, heq ▸ ho, ht⟩
  · rw [Coin.deposit] at hd
    split at hd
    · next hf => simpa [heldBy, hc] using hf
    · cases hd

variable [LawfulStateStore R]

private theorem getObject_deleteObject_of_mem {rest : List ObjectId} (hid : id ∉ rest) :
    ∀ other ∈ rest, getObject (deleteObject r id) other = getObject r other := by
  intro other ho
  rw [LawfulStateStore.getObject_deleteObject, Function.update_of_ne]
  rintro rfl
  exact hid ho

/-- A loop whose sources can be taken comes through. -/
theorem mergeLoop_of_takes {ids : List ObjectId} (hno : ids.Nodup)
    (h : Takes (getObject r) owner coinType progress.target.balance.toNat ids) :
    ∃ merged r', ids.foldlM (mergeSource owner coinType) progress r = (.ok merged, r') ∧
      Merged (ids.map (heldBy (getObject r))).sum progress.target merged.target := by
  induction ids generalizing progress r with
  | nil => exact ⟨progress, r, rfl, rfl, rfl, rfl, rfl⟩
  | cons id rest ih =>
    obtain ⟨hid, hno⟩ := List.nodup_cons.mp hno
    have hg := getObject_deleteObject_of_mem (r := r) hid
    obtain ⟨hh, hr⟩ := (takes_cons hg).mp h
    obtain ⟨next, ht, hn⟩ := mergeSource_of_takes hh
    rw [← hn.balance] at hr
    obtain ⟨merged, r', hl, hm⟩ := ih hno hr
    have hhe : rest.map (heldBy (getObject (deleteObject r id))) =
        rest.map (heldBy (getObject r)) := by
      apply List.map_congr_left
      intro other ho
      rw [heldBy, heldBy, hg other ho]
    refine ⟨merged, r', ?_, ?_, ?_, ?_, ?_⟩
    · rw [List.foldlM_cons, Exec.bind_of_ok ht, hl]
    · rw [hm.balance, hn.balance, hhe, List.map_cons, List.sum_cons]
      omega
    · rw [hm.version, hn.version]
    · rw [hm.owner, hn.owner]
    · rw [hm.objectType, hn.objectType]

/-- A loop that comes through could take its sources. -/
theorem takes_of_mergeLoop {ids : List ObjectId} {merged : MergeProgress} {r' : R}
    (hn : ids.Nodup)
    (h : ids.foldlM (mergeSource owner coinType) progress r = (.ok merged, r')) :
    Takes (getObject r) owner coinType progress.target.balance.toNat ids := by
  induction ids generalizing progress r with
  | nil => exact ⟨List.forall_mem_nil _, progress.target.balance.toNat_lt⟩
  | cons id rest ih =>
    obtain ⟨hid, hn⟩ := List.nodup_cons.mp hn
    rw [List.foldlM_cons] at h
    by_cases hh : Takes (getObject r) owner coinType progress.target.balance.toNat [id]
    · obtain ⟨next, ht, hne⟩ := mergeSource_of_takes hh
      rw [Exec.bind_of_ok ht] at h
      have hr := ih hn h
      rw [hne.balance] at hr
      exact (takes_cons (getObject_deleteObject_of_mem hid)).mpr ⟨hh, hr⟩
    · obtain ⟨e, ht⟩ := mergeSource_of_not_takes hh
      rw [Exec.bind_of_error ht] at h
      cases h

private theorem getObject_mergeSource {sourceId : ObjectId} (h : getObject r id = none) :
    getObject (mergeSource owner coinType progress sourceId r).2 id = none := by
  by_cases hta : Takes (getObject r) owner coinType progress.target.balance.toNat [sourceId]
  · obtain ⟨next, ht, -⟩ := mergeSource_of_takes hta
    rw [ht, LawfulStateStore.getObject_deleteObject]
    by_cases heq : id = sourceId
    · rw [heq, Function.update_self]
    · rw [Function.update_of_ne heq, h]
  · obtain ⟨e, ht⟩ := mergeSource_of_not_takes hta
    rw [ht]
    exact h

/-- A merge that its arguments and its sources allow. -/
theorem executeMergeCoins_of_takes
    (ha : Admits (getObject r) owner targetCoinId sourceCoinIds target)
    (ht : Takes (getObject r) owner target.coinType target.balance.toNat sourceCoinIds) :
    ∃ output mid merged, executeMergeCoins owner targetCoinId sourceCoinIds r =
      (.ok output, setObject mid targetCoinId (Coin.incrementVersion merged)) ∧
        Merged (sourceCoinIds.map (heldBy (getObject r))).sum target merged := by
  obtain ⟨merged, mid, hl, hm⟩ : ∃ merged mid,
      sourceCoinIds.foldlM (mergeSource owner target.coinType) ⟨target, [], []⟩ r =
        (.ok merged, mid) ∧ Merged _ target merged.target := mergeLoop_of_takes ha.nodup ht
  exact ⟨_, mid, merged.target, (Exec.check_bind_of_ok (mergeTarget_eq_ok.mpr ha)).trans
    (Exec.bind_of_ok hl), hm⟩

omit [LawfulStateStore R] in
/-- A merge that its arguments or its first source stop has written nothing. -/
theorem refuses_executeMergeCoins
    (h : ∀ target, Admits (getObject r) owner targetCoinId sourceCoinIds target →
      ¬ Takes (getObject r) owner target.coinType target.balance.toNat (sourceCoinIds.take 1)) :
    (executeMergeCoins owner targetCoinId sourceCoinIds).Refuses r := by
  refine Exec.refuses_check_bind fun target ht ↦ ?_
  have ha := mergeTarget_eq_ok.mp ht
  cases sourceCoinIds with
  | nil => exact absurd rfl ha.nonempty
  | cons id rest =>
    obtain ⟨e, htu⟩ : (mergeSource owner target.coinType ⟨target, [], []⟩ id).Refuses r :=
      mergeSource_of_not_takes (h target ha)
    refine ⟨e, Exec.bind_of_error ?_⟩
    rw [List.foldlM_cons, Exec.bind_of_error htu]

/-- A merge that another source than the first stops has deleted the first. -/
theorem executeMergeCoins_of_not_takes
    (ha : Admits (getObject r) owner targetCoinId sourceCoinIds target)
    (hf : Takes (getObject r) owner target.coinType target.balance.toNat
      (sourceCoinIds.take 1))
    (hn : ¬ Takes (getObject r) owner target.coinType target.balance.toNat sourceCoinIds) :
    ∃ e r', executeMergeCoins owner targetCoinId sourceCoinIds r = (.error e, r') ∧
      getObject r' ≠ getObject r := by
  cases sourceCoinIds with
  | nil => exact absurd rfl ha.nonempty
  | cons id rest =>
    obtain ⟨coin, hc, -⟩ := hf.1 id List.mem_cons_self
    obtain ⟨next, ht, hne⟩ : ∃ next, mergeSource owner target.coinType ⟨target, [], []⟩ id r =
      (.ok next, deleteObject r id) ∧ Merged _ target next.target := mergeSource_of_takes hf
    have hg : getObject (deleteObject r id) id = none := by
      rw [LawfulStateStore.getObject_deleteObject, Function.update_self]
    have hk := Exec.foldlM_keeps (P := fun r : R ↦ getObject r id = none) (l := rest)
      (f := mergeSource owner target.coinType) (b := next) (s := deleteObject r id)
      (fun _ _ _ h ↦ getObject_mergeSource h) hg
    have hl : (id :: rest).foldlM (mergeSource owner target.coinType) ⟨target, [], []⟩ r =
        rest.foldlM (mergeSource owner target.coinType) next (deleteObject r id) := by
      rw [List.foldlM_cons, Exec.bind_of_ok ht]
    cases hr : rest.foldlM (mergeSource owner target.coinType) next (deleteObject r id) with
    | mk result r' =>
      rw [hr] at hl hk
      cases result with
      | ok merged => exact absurd (takes_of_mergeLoop ha.nodup hl) hn
      | error e =>
        refine ⟨e, r', ?_, fun heq ↦ ?_⟩
        · refine (Exec.check_bind_of_ok (mergeTarget_eq_ok.mpr ha)).trans ?_
          exact Exec.bind_of_error hl
        · rw [heq, hc] at hk
          cases hk

/-- A merge that cannot fail once its first source is taken leaves the store when it fails. -/
theorem atomic_executeMergeCoins
    (h : ∀ target, Admits (getObject r) owner targetCoinId sourceCoinIds target →
      Takes (getObject r) owner target.coinType target.balance.toNat (sourceCoinIds.take 1) →
        Takes (getObject r) owner target.coinType target.balance.toNat sourceCoinIds) :
    (executeMergeCoins owner targetCoinId sourceCoinIds).Atomic r := by
  by_cases hf : ∃ target, Admits (getObject r) owner targetCoinId sourceCoinIds target ∧
      Takes (getObject r) owner target.coinType target.balance.toNat (sourceCoinIds.take 1)
  · obtain ⟨target, ha, hf⟩ := hf
    obtain ⟨output, mid, merged, hr, -⟩ := executeMergeCoins_of_takes ha (h target ha hf)
    exact Exec.atomic_of_eq_ok hr
  · apply Exec.Refuses.atomic
    apply refuses_executeMergeCoins
    intro target ha ht
    exact hf ⟨target, ha, ht⟩

omit [LawfulStateStore R]

variable {D : Type} {H : Blake3 D} {ctx : ExecutionContext} {sender recipient : Address}
  {coinId : ObjectId} {coin : Coin} {amount : UInt64}

theorem atomic_executeTransfer (amount : Option UInt64) :
    (executeTransfer H ctx sender coinId recipient amount).Atomic r := by
  refine Exec.atomic_check_bind fun coin _ ↦ ?_
  refine Exec.atomic_check_bind fun _ _ ↦ ?_
  refine Exec.atomic_check_bind fun _ _ ↦ ?_
  refine Exec.atomic_check_bind fun _ _ ↦ ?_
  refine Exec.atomic_check_bind fun _ _ ↦ ?_
  cases amount with
  | none => exact Exec.atomic_of_eq_ok rfl
  | some amount =>
    dsimp only
    split
    · exact Exec.atomic_of_eq_ok rfl
    · exact Exec.atomic_check_bind fun reduced _ ↦ Exec.atomic_of_eq_ok rfl

theorem atomic_executeTransferWithCoin (sender recipient : String) (amount : Option UInt64) :
    (executeTransferWithCoin H ctx coinId sender recipient amount).Atomic r := by
  refine Exec.atomic_check_bind fun _ _ ↦ ?_
  exact Exec.atomic_check_bind fun _ _ ↦ atomic_executeTransfer _

/-- A transfer that nothing stands against. -/
theorem executeTransfer_of_covered (hco : getObject r coinId = some coin) (ho : coin.isOwned)
    (how : coin.owner = some sender) (hp : amount ≠ 0)
    (hcv : amount ≤ coin.balance) :
    ∃ output r', executeTransfer H ctx sender coinId recipient (some amount) r =
      (.ok output, r') := by
  have hn : (some amount != some 0) = true := by simpa using hp
  have hc : executeTransfer H ctx sender coinId recipient (some amount) r = _ :=
    (Exec.check_bind_of_ok (okOr_eq_ok.mpr hco)).trans <|
    (Exec.check_bind_of_ok (a := ⟨⟩) (require_eq_ok.mpr ho)).trans <|
    (Exec.check_bind_of_ok (okOr_eq_ok.mpr how)).trans <|
    (Exec.check_bind_of_ok (a := ⟨⟩) (require_eq_ok.mpr (beq_self_eq_true sender))).trans <|
    Exec.check_bind_of_ok (a := ⟨⟩) (require_eq_ok.mpr hn)
  by_cases heq : amount = coin.balance
  · exact ⟨_, _, hc.trans (congrFun (if_pos heq) r)⟩
  · have hw : coin.withdraw amount = .ok { coin with balance := coin.balance - amount } := by
      rw [Coin.withdraw, if_neg (UInt64.not_lt.mpr hcv)]
    exact ⟨_, _, (hc.trans (congrFun (if_neg heq) r)).trans
      (Exec.check_bind_of_ok (mapError_eq_ok.mpr hw))⟩

/-- A transfer looks at the kind of the coin. -/
theorem refuses_executeTransfer {amount : Option UInt64} (hc : getObject r coinId = some coin)
    (ho : ¬ coin.isOwned) :
    (executeTransfer H ctx sender coinId recipient amount).Refuses r := by
  refine Exec.refuses_check_bind fun coin' hc' ↦ ?_
  refine Exec.refuses_check_bind fun _ ho' ↦ absurd ?_ ho
  rw [okOr_eq_ok, hc] at hc'
  cases hc'
  exact require_eq_ok.mp ho'

private theorem splitLoop_of_covered {amounts : List UInt64} {progress : SplitProgress}
    (h : (amounts.map UInt64.toNat).sum ≤ progress.source.balance.toNat) :
    ∃ split r', amounts.foldlM (splitAmount H ctx owner) progress r = (.ok split, r') := by
  induction amounts generalizing progress r with
  | nil => exact ⟨_, _, rfl⟩
  | cons amount rest ih =>
    rw [List.map_cons, List.sum_cons] at h
    have hle : amount ≤ progress.source.balance := UInt64.le_iff_toNat_le.mpr (by omega)
    have hw : progress.source.withdraw amount =
        .ok { progress.source with balance := progress.source.balance - amount } := by
      rw [Coin.withdraw, if_neg (UInt64.not_lt.mpr hle)]
    have ht : splitAmount H ctx owner progress amount r = _ :=
      Exec.check_bind_of_ok (mapError_eq_ok.mpr hw)
    rw [List.foldlM_cons, Exec.bind_of_ok ht]
    apply ih
    change _ ≤ (progress.source.balance - amount).toNat
    rw [UInt64.toNat_sub_of_le _ _ hle]
    omega

theorem atomic_executeSplitCoin (sourceCoinId : ObjectId) (amounts : List UInt64) :
    (executeSplitCoin H ctx owner sourceCoinId amounts).Atomic r := by
  refine Exec.atomic_check_bind fun _ _ ↦ ?_
  refine Exec.atomic_check_bind fun _ _ ↦ ?_
  refine Exec.atomic_check_bind fun _ _ ↦ ?_
  refine Exec.atomic_check_bind fun source _ ↦ ?_
  refine Exec.atomic_check_bind fun _ _ ↦ ?_
  refine Exec.atomic_check_bind fun _ _ ↦ ?_
  refine Exec.atomic_check_bind fun total ht ↦ ?_
  refine Exec.atomic_check_bind fun _ hc ↦ ?_
  rw [okOr_eq_ok] at ht
  rw [require_eq_ok, decide_eq_true_eq, UInt64.le_iff_toNat_le, toNat_totalSplit ht] at hc
  obtain ⟨split, r', hl⟩ : ∃ split r',
    amounts.foldlM (splitAmount H ctx owner) ⟨source, [], []⟩ r = (.ok split, r') :=
    splitLoop_of_covered hc
  unfold finishSplit
  by_cases heq : source.balance = total
  · simp only [if_pos heq]
    exact Exec.atomic_of_eq_ok (Exec.bind_of_ok hl)
  · simp only [if_neg heq]
    exact Exec.atomic_of_eq_ok (Exec.bind_of_ok hl)

/-- A failure on the store leaves the store. -/
def KeepsStore (run : Run RuntimeExecutor ExecutionOutput) (rt : RuntimeExecutor) : Prop :=
  ∀ e rt', run rt = (.error e, rt') → rt'.state = rt.state

variable {rt : RuntimeExecutor}

theorem keepsStore_of_atomic {run : Run RuntimeExecutor ExecutionOutput} (h : run.Atomic rt) :
    KeepsStore run rt := by
  intro e rt' he
  rw [h e rt' he]

/-- A failed merge leaves the store exactly if it cannot fail once its first source is taken. -/
theorem keepsStore_executeMergeCoins_iff :
    KeepsStore (executeMergeCoins owner targetCoinId sourceCoinIds) rt ↔
      ∀ target, Admits (getObject rt) owner targetCoinId sourceCoinIds target →
        Takes (getObject rt) owner target.coinType target.balance.toNat (sourceCoinIds.take 1) →
          Takes (getObject rt) owner target.coinType target.balance.toNat sourceCoinIds := by
  constructor
  · intro hk target ha hf
    by_contra hn
    obtain ⟨e, rt', he, hne⟩ := executeMergeCoins_of_not_takes ha hf hn
    apply hne
    funext id
    exact congrArg (AList.lookup id) (hk e rt' he)
  · intro h
    exact keepsStore_of_atomic (atomic_executeMergeCoins h)

/-- The merge that a simple transfer of an amount from the listed coins makes: no single coin is
enough, all of them together are, and the largest takes the others. -/
structure MergesFirst (coins : List (ObjectId × Coin)) (amount : UInt64) (targetCoinId : ObjectId)
    (target : Coin) (sourceCoinIds : List ObjectId) : Prop where
  fits : (coins.map fun c ↦ c.2.balance.toNat).sum < 2 ^ 64
  covered : amount.toNat ≤ (coins.map fun c ↦ c.2.balance.toNat).sum
  noSingle : ∀ c ∈ coins, c.2.balance < amount
  largest : ∃ rest, sortOn (fun c ↦ OrderDual.toDual c.2.balance.toNat)
    (sortOn (fun c ↦ c.2.balance.toNat) coins) = (targetCoinId, target) :: rest ∧
      sourceCoinIds = rest.map Prod.fst

section SimpleTransfer

variable {coins : List (ObjectId × Coin)}

private theorem perm_of_largest {rest : List (ObjectId × Coin)}
    (h : sortOn (fun c ↦ OrderDual.toDual c.2.balance.toNat)
      (sortOn (fun c ↦ c.2.balance.toNat) coins) = (targetCoinId, target) :: rest) :
    ((targetCoinId, target) :: rest).Perm coins := by
  rw [← h]
  exact (sortOn_perm _ _).trans (sortOn_perm _ _)

private theorem mem_of_mergesFirst
    (h : MergesFirst coins amount targetCoinId target sourceCoinIds) :
    (targetCoinId, target) ∈ coins := by
  obtain ⟨rest, hs, -⟩ := h.largest
  exact (perm_of_largest hs).subset List.mem_cons_self

private theorem sum_heldBy (hco : ∀ c ∈ coins, getObject rt c.1 = some c.2)
    (h : MergesFirst coins amount targetCoinId target sourceCoinIds) :
    target.balance.toNat + (sourceCoinIds.map (heldBy (getObject rt))).sum =
      (coins.map fun c ↦ c.2.balance.toNat).sum := by
  obtain ⟨rest, hs, rfl⟩ := h.largest
  have hp := perm_of_largest hs
  rw [← (hp.map fun c ↦ c.2.balance.toNat).sum_eq, List.map_cons, List.sum_cons, List.map_map]
  congr 2
  apply List.map_congr_left
  intro c hc
  have hl := hco c (hp.subset (List.mem_cons_of_mem _ hc))
  simp only [Function.comp_apply, heldBy, hl, Option.elim_some]

private theorem ne_zero_of_mergesFirst
    (h : MergesFirst coins amount targetCoinId target sourceCoinIds) :
    amount ≠ 0 := by
  rintro rfl
  exact absurd (h.noSingle _ (mem_of_mergesFirst h)) UInt64.not_lt_zero

private theorem transfer_after_merge (H : Blake3 D) (ctx : ExecutionContext) (recipient : Address)
    (hc : ∀ c ∈ coins, getObject rt c.1 = some c.2)
    (hf : MergesFirst coins amount targetCoinId target sourceCoinIds)
    (ha : Admits (getObject rt) sender targetCoinId sourceCoinIds target)
    (ht : Takes (getObject rt) sender target.coinType target.balance.toNat sourceCoinIds) :
    ∃ output rt', executeMergeCoins sender targetCoinId sourceCoinIds rt = (.ok output, rt') ∧
      rt'.state ≠ rt.state ∧
      (target.isOwned → ∃ output' rt'', executeTransfer H ctx sender targetCoinId recipient
        (some amount) rt' = (.ok output', rt'')) ∧
      (¬ target.isOwned →
        (executeTransfer H ctx sender targetCoinId recipient (some amount)).Refuses rt') := by
  obtain ⟨output, mid, merged, hme, hm⟩ := executeMergeCoins_of_takes ha ht
  have hr : getObject (setObject mid targetCoinId merged.incrementVersion) targetCoinId =
      some merged.incrementVersion := AList.lookup_insert mid.state
  have hk : merged.incrementVersion.isOwned = target.isOwned :=
    congrArg (· == ObjectType.ownedObject) hm.objectType
  refine ⟨output, _, hme, ?_, fun ho ↦ ?_, fun ho ↦ ?_⟩
  · intro heq
    have hl := congrArg (AList.lookup targetCoinId) heq
    have hs := hr.symm.trans (hl.trans ha.found)
    have hv := congrArg Coin.version (Option.some.inj hs)
    have hn := congrArg UInt64.toNat (hv.symm.trans (congrArg (· + 1) hm.version))
    have hlt := target.version.toNat_lt
    rw [UInt64.toNat_add, UInt64.toNat_one] at hn
    omega
  · refine executeTransfer_of_covered hr (hk.trans ho) ?_ (ne_zero_of_mergesFirst hf) ?_
    · exact hm.owner.trans ha.owned
    · rw [UInt64.le_iff_toNat_le]
      refine hf.covered.trans_eq ?_
      rw [← sum_heldBy hc hf]
      exact hm.balance.symm
  · refine refuses_executeTransfer hr ?_
    rwa [hk]

private theorem keepsStore_mergeAndTransfer_iff
    (hc : ∀ c ∈ coins, getObject rt c.1 = some c.2)
    (hfi : (coins.map fun c ↦ c.2.balance.toNat).sum < 2 ^ 64)
    (hco : amount.toNat ≤ (coins.map fun c ↦ c.2.balance.toNat).sum)
    (hn : ∀ c ∈ coins, c.2.balance < amount) :
    KeepsStore (mergeAndTransfer H ctx sender recipient amount
        (sortOn (fun c ↦ c.2.balance.toNat) coins)) rt ↔
      ∀ targetCoinId target sourceCoinIds,
        MergesFirst coins amount targetCoinId target sourceCoinIds →
        Admits (getObject rt) sender targetCoinId sourceCoinIds target →
        Takes (getObject rt) sender target.coinType target.balance.toNat (sourceCoinIds.take 1) →
        Takes (getObject rt) sender target.coinType target.balance.toNat sourceCoinIds ∧
          target.isOwned := by
  unfold mergeAndTransfer
  cases hs : sortOn (fun c : ObjectId × Coin ↦ OrderDual.toDual c.2.balance.toNat)
      (sortOn (fun c ↦ c.2.balance.toNat) coins) with
  | nil =>
    refine iff_of_true (fun e rt' he ↦ ?_) fun targetCoinId target sourceCoinIds hf ↦ ?_
    · cases he
      rfl
    · obtain ⟨rest, hl, -⟩ := hf.largest
      rw [hs] at hl
      cases hl
  | cons c rest =>
    obtain ⟨targetCoinId, target⟩ := c
    have hf : MergesFirst coins amount targetCoinId target (rest.map Prod.fst) :=
      ⟨hfi, hco, hn, rest, hs, rfl⟩
    have hfo := hc _ (mem_of_mergesFirst hf)
    dsimp only
    constructor
    · intro hk targetCoinId' target' sourceCoinIds hf' ha ht
      obtain ⟨rest', hs', rfl⟩ := hf'.largest
      rw [hs] at hs'
      cases hs'
      by_contra hno
      by_cases hta : Takes (getObject rt) sender target.coinType target.balance.toNat
          (rest.map Prod.fst)
      · obtain ⟨output, rt', hm, hne, -, hr⟩ := transfer_after_merge H ctx recipient hc hf ha hta
        obtain ⟨e, htr⟩ := hr fun ho ↦ hno ⟨hta, ho⟩
        exact hne (hk e rt' ((Exec.bind_of_ok hm).trans (Exec.bind_of_error htr)))
      · obtain ⟨e, rt', he, hne⟩ := executeMergeCoins_of_not_takes ha ht hta
        apply hne
        funext id
        exact congrArg (AList.lookup id) (hk e rt' (Exec.bind_of_error he))
    · intro hcn
      by_cases htk : ∃ target', Admits (getObject rt) sender targetCoinId (rest.map Prod.fst)
          target' ∧ Takes (getObject rt) sender target'.coinType target'.balance.toNat
            ((rest.map Prod.fst).take 1)
      · obtain ⟨target', ha, ht⟩ := htk
        obtain rfl : target = target' := Option.some.inj (hfo.symm.trans ha.found)
        obtain ⟨hta, ho⟩ := hcn _ _ _ hf ha ht
        obtain ⟨output, rt', hm, -, hcv, -⟩ := transfer_after_merge H ctx recipient hc hf ha hta
        obtain ⟨output', rt'', htr⟩ := hcv ho
        exact keepsStore_of_atomic (Exec.atomic_of_eq_ok
          ((Exec.bind_of_ok hm).trans (Exec.bind_of_ok htr)))
      · obtain ⟨e, hm⟩ := refuses_executeMergeCoins fun target' ha ht ↦
          htk ⟨target', ha, ht⟩
        exact keepsStore_of_atomic (Exec.Refuses.atomic ⟨e, Exec.bind_of_error hm⟩)

end SimpleTransfer

private theorem keepsStore_check_bind_iff {α : Type} {e : Except RuntimeError α}
    {f : α → Run RuntimeExecutor ExecutionOutput} :
    KeepsStore (Exec.check e >>= f) rt ↔ ∀ a, e = .ok a → KeepsStore (f a) rt := by
  cases e with
  | error e =>
    refine iff_of_true ?_ fun _ h ↦ ?_
    · intro e' rt' he
      cases he
      rfl
    · cases h
  | ok a =>
    constructor
    · intro h b hb
      cases hb
      exact h
    · intro h
      exact h a rfl

/-- The coins that a simple transfer of the sender looks at. -/
def transferCoins (getOwnedObjects : Address → List ObjectId) (state : HashMap ObjectId Coin)
    (sender : Address) (coinType : Option String) : List (ObjectId × Coin) :=
  RuntimeExecutor.coinsOfType state (getOwnedObjects sender) (coinType.getD "ROOT")

private theorem le_ofNat_iff {amount : UInt64} {total : Nat} (h : total < 2 ^ 64) :
    amount ≤ UInt64.ofNat total ↔ amount.toNat ≤ total := by
  rw [UInt64.le_iff_toNat_le, UInt64.toNat_ofNat_of_lt' h]

private theorem keepsStore_select_iff {coins : List (ObjectId × Coin)} {amount : UInt64}
    {sender recipient : Address} :
    KeepsStore (match (sortOn (fun c : ObjectId × Coin ↦ c.2.balance.toNat) coins).find? fun c ↦
          decide (amount ≤ c.2.balance) with
        | some (coinId, _) => executeTransfer H ctx sender coinId recipient (some amount)
        | none => mergeAndTransfer H ctx sender recipient amount
            (sortOn (fun c ↦ c.2.balance.toNat) coins)) rt ↔
      ((∀ c ∈ coins, c.2.balance < amount) → KeepsStore (mergeAndTransfer H ctx sender
        recipient amount (sortOn (fun c ↦ c.2.balance.toNat) coins)) rt) := by
  have hm : ∀ c, c ∈ sortOn (fun c : ObjectId × Coin ↦ c.2.balance.toNat) coins ↔ c ∈ coins :=
    fun c ↦ (sortOn_perm _ _).mem_iff
  cases hf : (sortOn (fun c : ObjectId × Coin ↦ c.2.balance.toNat) coins).find? fun c ↦
      decide (amount ≤ c.2.balance) with
  | some c =>
    refine iff_of_true (keepsStore_of_atomic (atomic_executeTransfer _)) fun hn ↦ ?_
    have hc := hn c ((hm c).mp (List.mem_of_find?_eq_some hf))
    have hle := List.find?_some hf
    exact absurd hc (UInt64.not_lt.mpr (of_decide_eq_true hle))
  | none =>
    have hn : ∀ c ∈ coins, c.2.balance < amount := by
      intro c hc
      have hc := List.find?_eq_none.mp hf c ((hm c).mpr hc)
      exact UInt64.not_le.mp fun hle ↦ hc (decide_eq_true hle)
    exact ⟨fun h _ ↦ h, fun h ↦ h hn⟩

private theorem keepsStore_executeSimpleTransfer_iff {getOwnedObjects : Address → List ObjectId}
    {inTee : Bool} {sender recipient : String} {amount : UInt64} {coinType : Option String} :
    KeepsStore (executeSimpleTransfer H getOwnedObjects ctx inTee sender recipient amount
        coinType) rt ↔
      (inTee = false → ∀ owner, Address.fromHex sender = some owner →
        (Address.fromHex recipient).isSome → ∀ targetCoinId target sourceCoinIds,
        MergesFirst (transferCoins getOwnedObjects rt.state owner coinType) amount targetCoinId
          target sourceCoinIds →
        Admits (getObject rt) owner targetCoinId sourceCoinIds target →
        Takes (getObject rt) owner target.coinType target.balance.toNat (sourceCoinIds.take 1) →
        Takes (getObject rt) owner target.coinType target.balance.toNat sourceCoinIds ∧
          target.isOwned) := by
  have hco (owner : Address) : ∀ c ∈ transferCoins getOwnedObjects rt.state owner coinType,
      getObject rt c.1 = some c.2 := fun c hc ↦ mem_coinsOfType hc
  constructor
  · intro hk hT owner hs hr targetCoinId target sourceCoinIds hf
    obtain ⟨recipientAddr, hr⟩ := Option.isSome_iff_exists.mp hr
    have hk := keepsStore_check_bind_iff.mp hk ⟨⟩ (by rw [hT]; rfl)
    have hk := keepsStore_check_bind_iff.mp hk owner (okOr_eq_ok.mpr hs)
    have hk := keepsStore_check_bind_iff.mp hk recipientAddr (okOr_eq_ok.mpr hr)
    have hk := keepsStore_check_bind_iff.mp hk _ (okOr_eq_ok.mpr (if_pos hf.fits))
    have hk := keepsStore_check_bind_iff.mp hk ⟨⟩ (require_eq_ok.mpr
      (decide_eq_true ((le_ofNat_iff hf.fits).mpr hf.covered)))
    have hk := keepsStore_select_iff.mp hk hf.noSingle
    exact (keepsStore_mergeAndTransfer_iff (hco owner) hf.fits hf.covered
      hf.noSingle).mp hk targetCoinId target sourceCoinIds hf
  · intro hcn
    refine keepsStore_check_bind_iff.mpr fun _ hT ↦ ?_
    refine keepsStore_check_bind_iff.mpr fun owner hs ↦ ?_
    refine keepsStore_check_bind_iff.mpr fun recipientAddr hr ↦ ?_
    refine keepsStore_check_bind_iff.mpr fun total ht ↦ ?_
    refine keepsStore_check_bind_iff.mpr fun _ hcv ↦ ?_
    refine keepsStore_select_iff.mpr fun hn ↦ ?_
    simp only [okOr_eq_ok, require_eq_ok, decide_eq_true_eq, Bool.not_eq_true',
      RuntimeExecutor.totalBalance, Option.ite_none_right_eq_some, Option.some.injEq]
      at hT hs hr ht hcv
    obtain ⟨hfi, rfl⟩ := ht
    refine (keepsStore_mergeAndTransfer_iff (hco owner) hfi ((le_ofNat_iff hfi).mp hcv) hn).mpr ?_
    exact hcn hT owner hs (Option.isSome_of_eq_some hr)

namespace CoinOperation

/-- Runs an operation in place. -/
def exec (H : Blake3 D) (getOwnedObjects : Address → List ObjectId) (ctx : ExecutionContext) :
    CoinOperation → Run RuntimeExecutor ExecutionOutput
  | transfer sender coinId recipient amount =>
    executeTransfer H ctx sender coinId recipient amount
  | transferWithCoin coinId sender recipient amount =>
    executeTransferWithCoin H ctx coinId sender recipient amount
  | simpleTransfer inTee sender recipient amount coinType =>
    executeSimpleTransfer H getOwnedObjects ctx inTee sender recipient amount coinType
  | mergeCoins owner targetCoinId sourceCoinIds =>
    executeMergeCoins owner targetCoinId sourceCoinIds
  | splitCoin owner sourceCoinId amounts => executeSplitCoin H ctx owner sourceCoinId amounts

variable (getOwnedObjects : Address → List ObjectId)

/-- Every operation in place succeeds exactly if its all-or-nothing form does, with the same
store. -/
theorem follows_exec (op : CoinOperation) :
    (op.exec H getOwnedObjects ctx).Follows rt (op.run H getOwnedObjects ctx rt) := by
  cases op with
  | transfer => exact Exec.follows_of_eq_atomically (InPlace.executeTransfer_eq _ _ _ _ _ _ _)
  | transferWithCoin =>
    exact Exec.follows_of_eq_atomically (InPlace.executeTransferWithCoin_eq _ _ _ _ _ _ _)
  | simpleTransfer => exact InPlace.follows_executeSimpleTransfer _ _ _ _ _ _ _ _ _
  | mergeCoins => exact InPlace.follows_executeMergeCoins _ _ _ _
  | splitCoin => exact Exec.follows_of_eq_atomically (InPlace.executeSplitCoin_eq _ _ _ _ _ _)

/-- Nothing can go wrong after the first write: a merge whose first source can be taken can take
all of them, and a simple transfer that merges has such a merge into a coin that can be
transferred. -/
def FailsEarly (rt : RuntimeExecutor) :
    CoinOperation → Prop
  | transfer .. | transferWithCoin .. | splitCoin .. => True
  | mergeCoins owner targetCoinId sourceCoinIds =>
    ∀ target, Admits (getObject rt) owner targetCoinId sourceCoinIds target →
      Takes (getObject rt) owner target.coinType target.balance.toNat (sourceCoinIds.take 1) →
        Takes (getObject rt) owner target.coinType target.balance.toNat sourceCoinIds
  | simpleTransfer inTee sender recipient amount coinType =>
    inTee = false → ∀ owner, Address.fromHex sender = some owner →
      (Address.fromHex recipient).isSome → ∀ targetCoinId target sourceCoinIds,
      MergesFirst (transferCoins getOwnedObjects rt.state owner coinType) amount targetCoinId target
        sourceCoinIds →
      Admits (getObject rt) owner targetCoinId sourceCoinIds target →
      Takes (getObject rt) owner target.coinType target.balance.toNat (sourceCoinIds.take 1) →
      Takes (getObject rt) owner target.coinType target.balance.toNat sourceCoinIds ∧ target.isOwned

/-- A failed operation leaves the store as it was exactly if nothing can go wrong after its first
write. -/
theorem keepsStore_exec_iff (H : Blake3 D) (getOwnedObjects : Address → List ObjectId)
    (ctx : ExecutionContext) (op : CoinOperation) (rt : RuntimeExecutor) :
    KeepsStore (op.exec H getOwnedObjects ctx) rt ↔ op.FailsEarly getOwnedObjects rt := by
  cases op with
  | transfer sender coinId recipient amount =>
    exact iff_of_true (keepsStore_of_atomic (atomic_executeTransfer _)) trivial
  | transferWithCoin coinId sender recipient amount =>
    exact iff_of_true (keepsStore_of_atomic (atomic_executeTransferWithCoin _ _ _)) trivial
  | simpleTransfer inTee sender recipient amount coinType =>
    exact keepsStore_executeSimpleTransfer_iff
  | mergeCoins owner targetCoinId sourceCoinIds => exact keepsStore_executeMergeCoins_iff
  | splitCoin owner sourceCoinId amounts =>
    exact iff_of_true (keepsStore_of_atomic (atomic_executeSplitCoin _ _)) trivial

/-- Two coins of one type and one of another, all of the zero address. -/
private def mixedCoins : RuntimeExecutor where
  state :=
    ((AList.insert (⟨Vector.replicate 32 1⟩ : ObjectId)
      (createCoinWithId ⟨Vector.replicate 32 1⟩ Address.zero 30 "ROOT" 0) ∅).insert
        ⟨Vector.replicate 32 2⟩
        (createCoinWithId ⟨Vector.replicate 32 2⟩ Address.zero 20 "ROOT" 0)).insert
        ⟨Vector.replicate 32 3⟩
        (createCoinWithId ⟨Vector.replicate 32 3⟩ Address.zero 10 "GOLD" 0)
  outputCounter := 0

/-- A merge of the other two coins into the first. -/
private def mergeMixed : CoinOperation :=
  .mergeCoins Address.zero ⟨Vector.replicate 32 1⟩
    [⟨Vector.replicate 32 2⟩, ⟨Vector.replicate 32 3⟩]

/-- The merge is refused for the type of its second source, with the first one deleted. -/
theorem mergeMixed_deletes :
    (mergeMixed.exec Blake3.ideal (fun _ ↦ []) ⟨0, []⟩ mixedCoins).1.toOption.isNone ∧
      (mixedCoins.state.lookup ⟨Vector.replicate 32 2⟩).isSome ∧
      ((mergeMixed.exec Blake3.ideal (fun _ ↦ []) ⟨0, []⟩ mixedCoins).2.state.lookup
        ⟨Vector.replicate 32 2⟩).isNone ∧
      ¬ KeepsStore (mergeMixed.exec Blake3.ideal (fun _ ↦ []) ⟨0, []⟩) mixedCoins := by
  have hf : (mergeMixed.exec Blake3.ideal (fun _ ↦ []) ⟨0, []⟩ mixedCoins).1.toOption.isNone :=
    by decide +kernel
  have hfo : (mixedCoins.state.lookup ⟨Vector.replicate 32 2⟩).isSome := by decide +kernel
  have hg : ((mergeMixed.exec Blake3.ideal (fun _ ↦ []) ⟨0, []⟩ mixedCoins).2.state.lookup
      ⟨Vector.replicate 32 2⟩).isNone := by decide +kernel
  refine ⟨hf, hfo, hg, fun hk ↦ ?_⟩
  cases hr : mergeMixed.exec Blake3.ideal (fun _ ↦ []) ⟨0, []⟩ mixedCoins with
  | mk result rt' =>
    rw [hr] at hf hg
    cases result with
    | ok output => cases hf
    | error e =>
      rw [hk e rt' hr, Option.isNone_iff_eq_none] at hg
      rw [hg] at hfo
      cases hfo

end CoinOperation

end Setu.Runtime
