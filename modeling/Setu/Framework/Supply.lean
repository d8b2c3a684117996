import Setu.Base.HashMap
import Setu.Framework.Coin

/-!
# Token supply under the public functions of coins and balances

Library `Framework`. Arbitrary modules hold balances, coins and treasury caps and pass them to the
public functions of `setu-framework/sources/balance.move` and `coin.move`. Values of these types
can be neither copied nor dropped, so a module that holds one can only keep it somewhere, move it
or pass it on. Along every run the sum of all balances of a token is the sum of what its caps
account for, and every call of `create_treasury_cap` adds a cap.
-/

namespace Setu.Framework

open Setu.Base

/-- Why a call is not made or has no effect: there is no value at the place it names, a value
would be overwritten, or the function aborts. -/
inductive Refusal where
  | noValue
  | occupied
  | aborted (abort : Abort)
  deriving DecidableEq

section Places

variable {Place V A : Type} [DecidableEq Place] (m : HashMap Place V) (place : Place)

/-- Move a value out of its place. -/
def takeFrom : Except Refusal (V × HashMap Place V) := do
  let v ← okOr (m.lookup place) .noValue
  pure (v, m.erase place)

/-- Keep a value at an empty place. -/
def keepAt (v : V) : Except Refusal (HashMap Place V) := do
  require (m.lookup place).isNone .occupied
  pure (m.insert place v)

/-- Call a function on a mutable reference to the value at a place. -/
def modifyAt (f : V → Except Abort (A × V)) :
    Except Refusal (A × HashMap Place V) := do
  let v ← okOr (m.lookup place) .noValue
  let (a, v') ← (f v).mapError .aborted
  pure (a, m.insert place v')

variable {m m' : HashMap Place V} {place : Place}

theorem sumOver_takeFrom {v : V} (h : takeFrom m place = .ok (v, m'))
    (f : V → Nat) : HashMap.sumOver f m' + f v = HashMap.sumOver f m := by
  simp only [takeFrom, bind_eq_ok, okOr_eq_ok, pure_eq_ok, Prod.mk.injEq] at h
  obtain ⟨v, hv, rfl, rfl⟩ := h
  rw [← HashMap.sumOver_erase f m place, hv, Option.elim_some]

theorem sumOver_keepAt {v : V} (h : keepAt m place v = .ok m') (f : V → Nat) :
    HashMap.sumOver f m' = HashMap.sumOver f m + f v := by
  simp only [keepAt, bind_eq_ok, require_eq_ok, pure_eq_ok,
    Option.isNone_iff_eq_none] at h
  obtain ⟨-, hn, rfl⟩ := h
  rw [HashMap.sumOver_insert, HashMap.erase_eq_self hn, Nat.add_comm]

theorem sumOver_modifyAt {a : A} {g : V → Except Abort (A × V)}
    (h : modifyAt m place g = .ok (a, m')) :
    ∃ v v', g v = .ok (a, v') ∧
      ∀ f : V → Nat, HashMap.sumOver f m' + f v = HashMap.sumOver f m + f v' := by
  simp only [modifyAt, bind_eq_ok, okOr_eq_ok, mapError_eq_ok, pure_eq_ok,
    Prod.mk.injEq, Prod.exists] at h
  obtain ⟨v, hv, a, v', hg, rfl, rfl⟩ := h
  refine ⟨v, v', hg, fun f ↦ ?_⟩
  have he := HashMap.sumOver_erase f m place
  rw [hv, Option.elim_some] at he
  rw [HashMap.sumOver_insert]
  omega

end Places

variable {Token Place : Type} {T : Token}

/-- The values of a token that exist, wherever modules keep them: in variables, in fields of their
own structs, or in objects. -/
structure Holdings (Place : Type) (T : Token) where
  balances : HashMap Place (Balance T)
  coins : HashMap Place (Coin T)
  caps : HashMap Place (TreasuryCap T)

namespace Holdings

/-- Nothing of the token exists. -/
def empty : Holdings Place T := ⟨∅, ∅, ∅⟩

variable (held : Holdings Place T)

/-- The sum of all balances, in coins and loose. -/
def total : Nat :=
  HashMap.sumOver (fun b ↦ b.value.toNat) held.balances +
    HashMap.sumOver (fun c ↦ c.value.toNat) held.coins

/-- What all caps together account for. -/
def accounted : Nat :=
  HashMap.sumOver (fun cap ↦ cap.totalSupply.toNat) held.caps

/-- How many caps exist. -/
def capCount : Nat := HashMap.sumOver (fun _ ↦ 1) held.caps

/-- The supply is controlled: there is at most one cap, and all balances add up to what it
accounts for. -/
def Controlled : Prop :=
  held.caps.values = [] ∧ held.total = 0 ∨
    ∃ cap, held.caps.values = [cap] ∧ held.total = cap.totalSupply.toNat

end Holdings

/-- A mutable reference to a balance: to one a module keeps, or into a coin by `balance_mut`. -/
inductive BalanceRef (Place : Type) where
  | loose (place : Place)
  | ofCoin (place : Place)

/-- A call of a public function on values at the places a module names, or a move of a value from
one place to another. New objects come with the identifier that `object::new` answers. -/
inductive Call (Place : Type) where
  | balanceValue (balance : BalanceRef Place)
  | balanceZero (dest : Place)
  | balanceSplit (balance : BalanceRef Place) (amount : UInt64) (dest : Place)
  | balanceJoin (self : BalanceRef Place) (other : Place)
  | balanceDestroyZero (balance : Place)
  | value (coin : Place)
  | fromBalance (balance : Place) (id : Types.ObjectId) (dest : Place)
  | split (self : Place) (amount : UInt64) (id : Types.ObjectId) (dest : Place)
  | join (self other : Place)
  | destroyZero (coin : Place)
  | intoBalance (coin : Place) (dest : Place)
  | put (coin balance : Place)
  | take (coin : Place) (amount : UInt64) (dest : Place)
  | transfer (coin recipient : Place)
  | mint (cap : Place) (amount : UInt64) (id : Types.ObjectId) (dest : Place)
  | burn (cap coin : Place)
  | totalSupply (cap : Place)
  | createTreasuryCap (id : Types.ObjectId) (dest : Place)
  | createCoinMetadata (cap : Place)
  | moveBalance (source dest : Place)
  | moveCap (source dest : Place)

variable [DecidableEq Place]

/-- A change through a mutable reference to a balance. -/
def Holdings.modifyBalance {A : Type} (held : Holdings Place T)
    (f : Balance T → Except Abort (A × Balance T)) :
    BalanceRef Place → Except Refusal (A × Holdings Place T)
  | .loose place => do
    let (a, balances) ← modifyAt held.balances place f
    pure (a, { held with balances := balances })
  | .ofCoin place => do
    let (a, coins) ← modifyAt held.coins place fun coin ↦ do
      let (a, balance) ← f coin.balance
      pure (a, coin.setBalance balance)
    pure (a, { held with coins := coins })

/-- A function on a reference that returns nothing. -/
def returnsUnit {V : Type} (result : Except Abort V) : Except Abort (PUnit × V) := do
  let v ← result
  pure (⟨⟩, v)

/-- The values after a call. -/
def Call.run (held : Holdings Place T) : Call Place → Except Refusal (Holdings Place T)
  | balanceValue balance => do
    let (_, held) ← held.modifyBalance (fun b ↦ .ok (b.value, b)) balance
    pure held
  | balanceZero dest => do
    let balances ← keepAt held.balances dest Balance.zero
    pure { held with balances := balances }
  | balanceSplit balance amount dest => do
    let (taken, held) ← held.modifyBalance (fun b ↦ b.split amount) balance
    let balances ← keepAt held.balances dest taken
    pure { held with balances := balances }
  | balanceJoin self other => do
    let (joined, balances) ← takeFrom held.balances other
    let (_, held) ← { held with balances := balances }.modifyBalance
      (fun b ↦ returnsUnit (b.join joined)) self
    pure held
  | balanceDestroyZero balance => do
    let (destroyed, balances) ← takeFrom held.balances balance
    destroyed.destroyZero.mapError Refusal.aborted
    pure { held with balances := balances }
  | value coin => do
    let _ ← okOr (held.coins.lookup coin) .noValue
    pure held
  | fromBalance balance id dest => do
    let (taken, balances) ← takeFrom held.balances balance
    let coins ← keepAt held.coins dest (Coin.fromBalance taken id)
    pure { held with balances := balances, coins := coins }
  | split self amount id dest => do
    let (taken, coins) ← modifyAt held.coins self fun coin ↦ coin.split amount id
    let coins ← keepAt coins dest taken
    pure { held with coins := coins }
  | join self other => do
    let (joined, coins) ← takeFrom held.coins other
    let (_, coins) ← modifyAt coins self fun coin ↦ returnsUnit (coin.join joined)
    pure { held with coins := coins }
  | destroyZero coin => do
    let (destroyed, coins) ← takeFrom held.coins coin
    destroyed.destroyZero.mapError Refusal.aborted
    pure { held with coins := coins }
  | intoBalance coin dest => do
    let (taken, coins) ← takeFrom held.coins coin
    let balances ← keepAt held.balances dest taken.intoBalance
    pure { held with balances := balances, coins := coins }
  | put coin balance => do
    let (taken, balances) ← takeFrom held.balances balance
    let (_, coins) ← modifyAt held.coins coin fun coin ↦ returnsUnit (coin.put taken)
    pure { held with balances := balances, coins := coins }
  | take coin amount dest => do
    let (taken, coins) ← modifyAt held.coins coin fun coin ↦ coin.take amount
    let balances ← keepAt held.balances dest taken
    pure { held with balances := balances, coins := coins }
  | transfer coin recipient => do
    let (taken, coins) ← takeFrom held.coins coin
    let coins ← keepAt coins recipient taken
    pure { held with coins := coins }
  | mint cap amount id dest => do
    let (minted, caps) ← modifyAt held.caps cap fun cap ↦ cap.mint amount id
    let coins ← keepAt held.coins dest minted
    pure { held with coins := coins, caps := caps }
  | burn cap coin => do
    let (burned, coins) ← takeFrom held.coins coin
    let (_, caps) ← modifyAt held.caps cap fun cap ↦ cap.burn burned
    pure { held with coins := coins, caps := caps }
  | totalSupply cap | createCoinMetadata cap => do
    let _ ← okOr (held.caps.lookup cap) .noValue
    pure held
  | createTreasuryCap id dest => do
    let caps ← keepAt held.caps dest (TreasuryCap.createTreasuryCap id)
    pure { held with caps := caps }
  | moveBalance source dest => do
    let (moved, balances) ← takeFrom held.balances source
    let balances ← keepAt balances dest moved
    pure { held with balances := balances }
  | moveCap source dest => do
    let (moved, caps) ← takeFrom held.caps source
    let caps ← keepAt caps dest moved
    pure { held with caps := caps }

/-- Does the call make a new cap? -/
def Call.createsCap : Call Place → Bool
  | createTreasuryCap _ _ => true
  | _ => false

variable {held held' : Holdings Place T}

private theorem modifyBalance_eq_ok {A : Type} {f : Balance T → Except Abort (A × Balance T)}
    {ref : BalanceRef Place} {a : A} (h : held.modifyBalance f ref = .ok (a, held')) :
    held'.caps = held.caps ∧ ∃ b b', f b = .ok (a, b') ∧
      held'.total + b.value.toNat = held.total + b'.value.toNat := by
  cases ref with
  | loose place =>
    simp only [Holdings.modifyBalance, bind_eq_ok, pure_eq_ok, Prod.mk.injEq,
      Prod.exists] at h
    obtain ⟨a, balances, hm, rfl, rfl⟩ := h
    obtain ⟨b, b', hf, hs⟩ := sumOver_modifyAt hm
    refine ⟨rfl, b, b', hf, ?_⟩
    have hs := hs fun b ↦ b.value.toNat
    simp only [Holdings.total]
    omega
  | ofCoin place =>
    simp only [Holdings.modifyBalance, bind_eq_ok, pure_eq_ok, Prod.mk.injEq,
      Prod.exists] at h
    obtain ⟨a, coins, hm, rfl, rfl⟩ := h
    obtain ⟨coin, coin', hc, hs⟩ := sumOver_modifyAt hm
    simp only [bind_eq_ok, pure_eq_ok, Prod.mk.injEq, Prod.exists] at hc
    obtain ⟨a, b', hf, rfl, rfl⟩ := hc
    refine ⟨rfl, coin.balance, b', hf, ?_⟩
    have hs := hs fun c ↦ c.value.toNat
    simp only [Holdings.total]
    simp only [Coin.value, Coin.setBalance] at hs ⊢
    omega

private theorem returnsUnit_eq_ok {V : Type} {result : Except Abort V} {u : PUnit} {v : V}
    (h : returnsUnit result = .ok (u, v)) : result = .ok v := by
  simp only [returnsUnit, bind_eq_ok, pure_eq_ok, Prod.mk.injEq] at h
  obtain ⟨v, hv, -, rfl⟩ := h
  exact hv

/-- What a call does to the sums: balances and what caps account for grow alike, and a cap is
added only by its own function. -/
private structure Accounts (call : Call Place) (held held' : Holdings Place T) : Prop where
  total : held'.total + held.accounted = held.total + held'.accounted
  capCount : held'.capCount = held.capCount + if call.createsCap then 1 else 0

omit [DecidableEq Place] in
private theorem accounts_of_caps_eq {call : Call Place} {balances : HashMap Place (Balance T)}
    {coins : HashMap Place (Coin T)} {caps : HashMap Place (TreasuryCap T)}
    (hn : call.createsCap = false) (hc : caps = held.caps)
    (hs : HashMap.sumOver (fun b ↦ b.value.toNat) balances +
        HashMap.sumOver (fun c ↦ c.value.toNat) coins =
      HashMap.sumOver (fun b ↦ b.value.toNat) held.balances +
        HashMap.sumOver (fun c ↦ c.value.toNat) held.coins) :
    Accounts call held ⟨balances, coins, caps⟩ := by
  subst hc
  refine ⟨congrArg (· + held.accounted) hs, ?_⟩
  rw [hn]
  rfl

private theorem accounts_run {call : Call Place} (h : call.run held = .ok held') :
    Accounts call held held' := by
  cases call <;>
    simp only [Call.run, bind_eq_ok, pure_eq_ok, mapError_eq_ok, Prod.exists] at h
  case balanceValue =>
    obtain ⟨_, held', hm, rfl⟩ := h
    obtain ⟨hc, b, b', hb, ht⟩ := modifyBalance_eq_ok hm
    cases hb
    exact accounts_of_caps_eq rfl hc (Nat.add_right_cancel ht)
  case balanceZero =>
    obtain ⟨balances, hk, rfl⟩ := h
    have hs := sumOver_keepAt hk fun b ↦ b.value.toNat
    have hz : (Balance.zero : Balance T).value.toNat = 0 := rfl
    exact accounts_of_caps_eq rfl rfl (by omega)
  case balanceSplit =>
    obtain ⟨taken, mid, hm, balances, hk, rfl⟩ := h
    obtain ⟨hc, b, b', hb, ht⟩ := modifyBalance_eq_ok hm
    have hs := Balance.split_eq_ok hb
    have hb := sumOver_keepAt hk fun b ↦ b.value.toNat
    simp only [Holdings.total] at ht
    exact accounts_of_caps_eq rfl hc (by omega)
  case balanceJoin =>
    obtain ⟨joined, balances, ht, _, held', hm, rfl⟩ := h
    obtain ⟨hc, b, b', hb, hm⟩ := modifyBalance_eq_ok hm
    have hj := Balance.join_eq_ok (returnsUnit_eq_ok hb)
    have hs := sumOver_takeFrom ht fun b ↦ b.value.toNat
    simp only [Holdings.total] at hm
    exact accounts_of_caps_eq rfl hc (by omega)
  case balanceDestroyZero =>
    obtain ⟨destroyed, balances, ht, _, hz, rfl⟩ := h
    have hz := Balance.destroyZero_eq_ok hz
    have hs := sumOver_takeFrom ht fun b ↦ b.value.toNat
    exact accounts_of_caps_eq rfl rfl (by omega)
  case fromBalance id dest =>
    obtain ⟨taken, balances, ht, coins, hk, rfl⟩ := h
    have hb := sumOver_takeFrom ht fun b ↦ b.value.toNat
    have hc := sumOver_keepAt hk fun c ↦ c.value.toNat
    have hv : (Coin.fromBalance taken id).value = taken.value := rfl
    rw [hv] at hc
    exact accounts_of_caps_eq rfl rfl (by omega)
  case split =>
    obtain ⟨taken, coins, hm, coins', hk, rfl⟩ := h
    obtain ⟨coin, rest, hc, hm⟩ := sumOver_modifyAt hm
    have hm := hm fun c ↦ c.value.toNat
    have hs := Coin.split_eq_ok hc
    have hk := sumOver_keepAt hk fun c ↦ c.value.toNat
    exact accounts_of_caps_eq rfl rfl (by omega)
  case join =>
    obtain ⟨joined, coins, ht, _, coins', hm, rfl⟩ := h
    obtain ⟨coin, coin', hc, hm⟩ := sumOver_modifyAt hm
    have hm := hm fun c ↦ c.value.toNat
    have hj := Coin.join_eq_ok (returnsUnit_eq_ok hc)
    have ht := sumOver_takeFrom ht fun c ↦ c.value.toNat
    exact accounts_of_caps_eq rfl rfl (by omega)
  case destroyZero =>
    obtain ⟨destroyed, coins, ht, _, hz, rfl⟩ := h
    have hz : destroyed.value.toNat = 0 := Balance.destroyZero_eq_ok hz
    have hs := sumOver_takeFrom ht fun c ↦ c.value.toNat
    exact accounts_of_caps_eq rfl rfl (by omega)
  case intoBalance =>
    obtain ⟨taken, coins, ht, balances, hk, rfl⟩ := h
    have hc := sumOver_takeFrom ht fun c ↦ c.value.toNat
    have hb := sumOver_keepAt hk fun b ↦ b.value.toNat
    have hv : taken.intoBalance.value = taken.value := rfl
    rw [hv] at hb
    exact accounts_of_caps_eq rfl rfl (by omega)
  case put =>
    obtain ⟨taken, balances, ht, _, coins, hm, rfl⟩ := h
    obtain ⟨coin, coin', hc, hm⟩ := sumOver_modifyAt hm
    have hm := hm fun c ↦ c.value.toNat
    have hp := Coin.put_eq_ok (returnsUnit_eq_ok hc)
    have ht := sumOver_takeFrom ht fun b ↦ b.value.toNat
    exact accounts_of_caps_eq rfl rfl (by omega)
  case take =>
    obtain ⟨taken, coins, hm, balances, hk, rfl⟩ := h
    obtain ⟨coin, rest, hc, hm⟩ := sumOver_modifyAt hm
    have hm := hm fun c ↦ c.value.toNat
    have ht := Coin.take_eq_ok hc
    have hk := sumOver_keepAt hk fun b ↦ b.value.toNat
    exact accounts_of_caps_eq rfl rfl (by omega)
  case transfer =>
    obtain ⟨taken, coins, ht, coins', hk, rfl⟩ := h
    have ht := sumOver_takeFrom ht fun c ↦ c.value.toNat
    have hk := sumOver_keepAt hk fun c ↦ c.value.toNat
    exact accounts_of_caps_eq rfl rfl (by omega)
  case mint =>
    obtain ⟨minted, caps, hm, coins, hk, rfl⟩ := h
    obtain ⟨cap, cap', hc, hm⟩ := sumOver_modifyAt hm
    have hs := hm fun c ↦ c.totalSupply.toNat
    have hi := TreasuryCap.mint_eq_ok hc
    have hk := sumOver_keepAt hk fun c ↦ c.value.toNat
    refine ⟨?_, Nat.add_right_cancel (hm fun _ ↦ 1)⟩
    simp only [Holdings.total, Holdings.accounted]
    omega
  case burn =>
    obtain ⟨burned, coins, ht, _, caps, hm, rfl⟩ := h
    obtain ⟨cap, cap', hc, hm⟩ := sumOver_modifyAt hm
    have hs := hm fun c ↦ c.totalSupply.toNat
    have hb := TreasuryCap.burn_eq_ok hc
    have ht := sumOver_takeFrom ht fun c ↦ c.value.toNat
    refine ⟨?_, Nat.add_right_cancel (hm fun _ ↦ 1)⟩
    simp only [Holdings.total, Holdings.accounted]
    omega
  case value | totalSupply | createCoinMetadata =>
    obtain ⟨_, -, rfl⟩ := h
    exact accounts_of_caps_eq rfl rfl rfl
  case createTreasuryCap id dest =>
    obtain ⟨caps, hk, rfl⟩ := h
    -- a new cap accounts for nothing yet
    have hs := sumOver_keepAt hk fun c ↦ c.totalSupply.toNat
    have hz : (TreasuryCap.createTreasuryCap id : TreasuryCap T).totalSupply.toNat = 0 := rfl
    refine ⟨?_, sumOver_keepAt hk fun _ ↦ 1⟩
    simp only [Holdings.total, Holdings.accounted]
    omega
  case moveBalance =>
    obtain ⟨moved, balances, ht, balances', hk, rfl⟩ := h
    have ht := sumOver_takeFrom ht fun b ↦ b.value.toNat
    have hk := sumOver_keepAt hk fun b ↦ b.value.toNat
    exact accounts_of_caps_eq rfl rfl (by omega)
  case moveCap =>
    obtain ⟨moved, caps, ht, caps', hk, rfl⟩ := h
    have hs := sumOver_takeFrom ht fun c ↦ c.totalSupply.toNat
    have hs' := sumOver_keepAt hk fun c ↦ c.totalSupply.toNat
    refine ⟨?_, (sumOver_keepAt hk fun _ ↦ 1).trans (sumOver_takeFrom ht fun _ ↦ 1)⟩
    simp only [Holdings.total, Holdings.accounted]
    omega

/-- What exists of every token. -/
abbrev World (Place Token : Type) := (T : Token) → Holdings Place T

/-- A call with its type argument; values of other tokens are not affected. -/
def World.step [DecidableEq Token] (world : World Place Token) (call : Token × Call Place) :
    Except Refusal (World Place Token) := do
  let held ← call.2.run (world call.1)
  pure (Function.update world call.1 held)

/-- The state after calls that all came through, beginning with nothing. A call that aborts
undoes its transaction, so every state there ever is is the state after such calls. -/
def World.run [DecidableEq Token] (calls : List (Token × Call Place)) :
    Except Refusal (World Place Token) :=
  calls.foldlM World.step fun _ ↦ Holdings.empty

/-- How often a cap was made for the token. -/
def capsCreated [DecidableEq Token] (T : Token) (calls : List (Token × Call Place)) : Nat :=
  calls.countP fun call ↦ decide (call.1 = T) && call.2.createsCap

private theorem accounts_foldlM [DecidableEq Token] {calls : List (Token × Call Place)}
    {world world' : World Place Token} (h : calls.foldlM World.step world = .ok world')
    (T : Token) :
    (world' T).total + (world T).accounted = (world T).total + (world' T).accounted ∧
      (world' T).capCount = (world T).capCount + capsCreated T calls := by
  induction calls generalizing world with
  | nil =>
    obtain rfl : world = world' := by simpa using h
    exact ⟨rfl, rfl⟩
  | cons call calls ih =>
    rw [List.foldlM_cons, bind_eq_ok] at h
    obtain ⟨mid, hs, hr⟩ := h
    simp only [World.step, bind_eq_ok, pure_eq_ok] at hs
    obtain ⟨held, hru, rfl⟩ := hs
    obtain ⟨ht, hc⟩ := ih hr
    by_cases hT : T = call.1
    · subst hT
      have hca := accounts_run hru
      rw [Function.update_self] at ht hc
      have hf := hca.total
      have hcp := hca.capCount
      refine ⟨by omega, ?_⟩
      rw [hc, hcp, capsCreated, capsCreated, List.countP_cons, decide_eq_true rfl, Bool.true_and]
      omega
    · rw [Function.update_of_ne hT] at ht hc
      refine ⟨ht, ?_⟩
      rw [hc, capsCreated, capsCreated, List.countP_cons, decide_eq_false (Ne.symm hT),
        Bool.false_and]
      simp

omit [DecidableEq Place] in
private theorem capCount_eq_length (held : Holdings Place T) :
    held.capCount = held.caps.values.length := by
  simp [Holdings.capCount, HashMap.sumOver]

omit [DecidableEq Place] in
private theorem controlled_iff_capCount (h : held.total = held.accounted)
    : held.Controlled ↔ held.capCount ≤ 1 := by
  rw [Holdings.Controlled, h, capCount_eq_length, Holdings.accounted, HashMap.sumOver]
  rcases held.caps.values with _ | ⟨cap, _ | ⟨cap', rest⟩⟩ <;> simp

/-- After a run the supply of a token is controlled exactly if no more than one cap was made for
it. -/
theorem controlled_iff_capsCreated_le_one [DecidableEq Token] {calls : List (Token × Call Place)}
    {world : World Place Token} (h : World.run calls = .ok world) (T : Token) :
    (world T).Controlled ↔ capsCreated T calls ≤ 1 := by
  obtain ⟨ht, hco⟩ := accounts_foldlM h T
  have he : (Holdings.empty : Holdings Place T).total = 0 ∧
      (Holdings.empty : Holdings Place T).accounted = 0 ∧
      (Holdings.empty : Holdings Place T).capCount = 0 := ⟨rfl, rfl, rfl⟩
  have hb : (world T).total = (world T).accounted := by omega
  have hc : (world T).capCount = capsCreated T calls := by omega
  rw [controlled_iff_capCount hb, hc]

/-- A token module makes the cap of its token, mints, splits and burns. -/
private def oneCap : List (String × Call Nat) :=
  [("0x2::gold::GOLD", .createTreasuryCap ⟨Vector.replicate 32 1⟩ 0),
    ("0x2::gold::GOLD", .mint 0 100 ⟨Vector.replicate 32 2⟩ 0),
    ("0x2::gold::GOLD", .split 0 30 ⟨Vector.replicate 32 3⟩ 1),
    ("0x2::gold::GOLD", .burn 0 1)]

theorem controlled_oneCap : ∃ world, World.run oneCap = .ok world ∧
    ((world "0x2::gold::GOLD").Controlled ↔ capsCreated "0x2::gold::GOLD" oneCap ≤ 1) := by
  have hr := eq_ok_get (x := World.run oneCap) (by decide +kernel)
  exact ⟨_, hr, controlled_iff_capsCreated_le_one hr "0x2::gold::GOLD"⟩

/-- Any module can make another cap of a token and mint with it. -/
private def anotherCap : List (String × Call Nat) :=
  [("0x1::setu::SETU", .createTreasuryCap ⟨Vector.replicate 32 1⟩ 0),
    ("0x1::setu::SETU", .mint 0 100 ⟨Vector.replicate 32 2⟩ 0),
    ("0x1::setu::SETU", .createTreasuryCap ⟨Vector.replicate 32 3⟩ 1),
    ("0x1::setu::SETU", .mint 1 100 ⟨Vector.replicate 32 4⟩ 1)]

/-- Then there are two caps, and neither accounts for what exists. -/
theorem not_controlled_anotherCap : ∃ world, World.run anotherCap = .ok world ∧
    (world "0x1::setu::SETU").capCount = 2 ∧ (world "0x1::setu::SETU").total = 200 ∧
    (∀ cap ∈ (world "0x1::setu::SETU").caps.values, cap.totalSupply = 100) ∧
    ¬ (world "0x1::setu::SETU").Controlled := by
  refine ⟨_, eq_ok_get (by decide +kernel), by decide +kernel, by decide +kernel,
    by decide +kernel, ?_⟩
  rintro (⟨hn, -⟩ | ⟨cap, ho, -⟩)
  · exact absurd (congrArg List.length hn) (by decide +kernel)
  · have hl := congrArg List.length ho
    rw [List.length_singleton] at hl
    exact absurd hl (by decide +kernel)

end Setu.Framework
