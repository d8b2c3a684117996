import Setu.Base.Checked
import Setu.Types.Object

/-!
# Balances, coins and treasury caps of the framework

Library `Framework`. The Move modules `setu-framework/sources/balance.move` and `coin.move`. A
function that takes a value by mutable reference returns its new value last; the identifier that
`object::new(ctx)` answers is an argument. Token metadata holds no value and is left out.
-/

namespace Setu.Framework

open Setu.Base

/-- Why a Move function aborts: an assertion with its code, or arithmetic out of range. -/
inductive Abort where
  | code (code : UInt64)
  | arithmetic
  deriving DecidableEq

/-- Addition of `u64` values; it aborts on overflow. -/
def checkedAdd (a b : UInt64) : Except Abort UInt64 :=
  if a.toNat + b.toNat < 2 ^ 64 then .ok (a + b) else .error .arithmetic

/-- Subtraction of `u64` values; it aborts on underflow. -/
def checkedSub (a b : UInt64) : Except Abort UInt64 :=
  if b ≤ a then .ok (a - b) else .error .arithmetic

theorem toNat_checkedAdd {a b r : UInt64} (h : checkedAdd a b = .ok r) :
    r.toNat = a.toNat + b.toNat := by
  unfold checkedAdd at h
  split at h
  · next hlt =>
    cases h
    rw [UInt64.toNat_add, Nat.mod_eq_of_lt hlt]
  · cases h

theorem toNat_checkedSub {a b r : UInt64} (h : checkedSub a b = .ok r) :
    r.toNat + b.toNat = a.toNat := by
  unfold checkedSub at h
  split at h
  · next hle =>
    cases h
    rw [UInt64.toNat_sub_of_le _ _ hle]
    exact Nat.sub_add_cancel (UInt64.le_iff_toNat_le.mp hle)
  · cases h

variable {Token : Type} {T : Token}

/-- A balance of a token, `balance.move:8-10`; the token only tells balances apart. -/
structure Balance (T : Token) where
  value : UInt64
  deriving DecidableEq

namespace Balance

/-- `balance.move:18-20`. -/
def zero : Balance T := ⟨0⟩

/-- `balance.move:24-28`. -/
def split (self : Balance T) (amount : UInt64) : Except Abort (Balance T × Balance T) := do
  require (decide (amount ≤ self.value)) (.code 0)
  let rest ← checkedSub self.value amount
  pure (⟨amount⟩, ⟨rest⟩)

/-- `balance.move:31-34`. -/
def join (self other : Balance T) : Except Abort (Balance T) := do
  let value ← checkedAdd self.value other.value
  pure ⟨value⟩

/-- `balance.move:38-41`. -/
def destroyZero (balance : Balance T) : Except Abort PUnit :=
  require (balance.value == 0) (.code 1)

/-- `balance.move:44-47`; callable from `coin` only. -/
def destroyAndReturnValue (balance : Balance T) : UInt64 := balance.value

/-- `balance.move:51-53`; callable from `coin` only. -/
def createForTesting (value : UInt64) : Balance T := ⟨value⟩

theorem split_eq_ok {self taken rest : Balance T} {amount : UInt64}
    (h : self.split amount = .ok (taken, rest)) :
    taken.value.toNat + rest.value.toNat = self.value.toNat := by
  simp only [split, bind_eq_ok, pure_eq_ok, Prod.mk.injEq] at h
  obtain ⟨-, -, value, hv, rfl, rfl⟩ := h
  rw [← toNat_checkedSub hv, Nat.add_comm]

theorem join_eq_ok {self other joined : Balance T} (h : self.join other = .ok joined) :
    joined.value.toNat = self.value.toNat + other.value.toNat := by
  simp only [join, bind_eq_ok, pure_eq_ok] at h
  obtain ⟨value, hv, rfl⟩ := h
  exact toNat_checkedAdd hv

theorem destroyZero_eq_ok {balance : Balance T} {r : PUnit}
    (h : balance.destroyZero = .ok r) : balance.value.toNat = 0 := by
  simp only [destroyZero, require_eq_ok, beq_iff_eq] at h
  rw [h]
  rfl

end Balance

/-- A coin object, `coin.move:14-17`. -/
structure Coin (T : Token) where
  id : Types.ObjectId
  balance : Balance T
  deriving DecidableEq

namespace Coin

variable (coin : Coin T)

/-- `coin.move:43-45`. -/
def value : UInt64 := coin.balance.value

/-- What becomes of the coin when its balance is changed through `balance_mut`,
`coin.move:48-50`. -/
def setBalance (balance : Balance T) : Coin T := { coin with balance := balance }

/-- `coin.move:55-60`. -/
def fromBalance (balance : Balance T) (id : Types.ObjectId) : Coin T := ⟨id, balance⟩

/-- `coin.move:63-66`. -/
def split (self : Coin T) (amount : UInt64) (id : Types.ObjectId) :
    Except Abort (Coin T × Coin T) := do
  let (taken, rest) ← self.balance.split amount
  pure (fromBalance taken id, self.setBalance rest)

/-- `coin.move:69-73`. -/
def join (self other : Coin T) : Except Abort (Coin T) := do
  let balance ← self.balance.join other.balance
  pure (self.setBalance balance)

/-- `coin.move:76-80`. -/
def destroyZero : Except Abort PUnit := coin.balance.destroyZero

/-- `coin.move:83-87`. -/
def intoBalance : Balance T := coin.balance

/-- `coin.move:90-92`. -/
def put (self : Coin T) (balance : Balance T) : Except Abort (Coin T) := do
  let joined ← self.balance.join balance
  pure (self.setBalance joined)

/-- `coin.move:95-97`. -/
def take (self : Coin T) (amount : UInt64) : Except Abort (Balance T × Coin T) := do
  let (taken, rest) ← self.balance.split amount
  pure (taken, self.setBalance rest)

variable {self rest joined : Coin T} {amount : UInt64}

theorem split_eq_ok {taken : Coin T} {id : Types.ObjectId}
    (h : self.split amount id = .ok (taken, rest)) :
    taken.value.toNat + rest.value.toNat = self.value.toNat := by
  simp only [split, bind_eq_ok, pure_eq_ok, Prod.mk.injEq, Prod.exists] at h
  obtain ⟨taken, rest, hs, rfl, rfl⟩ := h
  exact Balance.split_eq_ok hs

/-- The coin that is left keeps its identifier. -/
theorem id_of_split {taken : Coin T} {id : Types.ObjectId}
    (h : self.split amount id = .ok (taken, rest)) : taken.id = id ∧ rest.id = self.id := by
  simp only [split, bind_eq_ok, pure_eq_ok, Prod.mk.injEq, Prod.exists] at h
  obtain ⟨taken, rest, -, rfl, rfl⟩ := h
  exact ⟨rfl, rfl⟩

theorem id_of_join {other : Coin T} (h : self.join other = .ok joined) : joined.id = self.id := by
  simp only [join, bind_eq_ok, pure_eq_ok] at h
  obtain ⟨balance, -, rfl⟩ := h
  rfl

theorem join_eq_ok {other : Coin T} (h : self.join other = .ok joined) :
    joined.value.toNat = self.value.toNat + other.value.toNat := by
  simp only [join, bind_eq_ok, pure_eq_ok] at h
  obtain ⟨balance, hj, rfl⟩ := h
  exact Balance.join_eq_ok hj

theorem put_eq_ok {balance : Balance T} (h : self.put balance = .ok joined) :
    joined.value.toNat = self.value.toNat + balance.value.toNat := by
  simp only [put, bind_eq_ok, pure_eq_ok] at h
  obtain ⟨balance, hj, rfl⟩ := h
  exact Balance.join_eq_ok hj

theorem take_eq_ok {taken : Balance T} (h : self.take amount = .ok (taken, rest)) :
    taken.value.toNat + rest.value.toNat = self.value.toNat := by
  simp only [take, bind_eq_ok, pure_eq_ok, Prod.mk.injEq, Prod.exists] at h
  obtain ⟨taken, rest, hs, rfl, rfl⟩ := h
  exact Balance.split_eq_ok hs

end Coin

/-- The authority to mint, `coin.move:20-23`. -/
structure TreasuryCap (T : Token) where
  id : Types.ObjectId
  totalSupply : UInt64
  deriving DecidableEq

namespace TreasuryCap

/-- `coin.move:107-111`. -/
def mint (cap : TreasuryCap T) (amount : UInt64) (id : Types.ObjectId) :
    Except Abort (Coin T × TreasuryCap T) := do
  let totalSupply ← checkedAdd cap.totalSupply amount
  pure (Coin.fromBalance (Balance.createForTesting amount) id,
    { cap with totalSupply := totalSupply })

/-- `coin.move:114-120`. -/
def burn (cap : TreasuryCap T) (coin : Coin T) : Except Abort (UInt64 × TreasuryCap T) := do
  let value := coin.balance.destroyAndReturnValue
  let totalSupply ← checkedSub cap.totalSupply value
  pure (value, { cap with totalSupply := totalSupply })

/-- `coin.move:128-133`. -/
def createTreasuryCap (id : Types.ObjectId) : TreasuryCap T := ⟨id, 0⟩

theorem mint_eq_ok {cap cap' : TreasuryCap T} {amount : UInt64} {id : Types.ObjectId}
    {minted : Coin T} (h : cap.mint amount id = .ok (minted, cap')) :
    cap'.totalSupply.toNat = cap.totalSupply.toNat + minted.value.toNat := by
  simp only [mint, bind_eq_ok, pure_eq_ok, Prod.mk.injEq] at h
  obtain ⟨totalSupply, ha, rfl, rfl⟩ := h
  exact toNat_checkedAdd ha

theorem burn_eq_ok {cap cap' : TreasuryCap T} {burned : Coin T} {value : UInt64}
    (h : cap.burn burned = .ok (value, cap')) :
    cap'.totalSupply.toNat + burned.value.toNat = cap.totalSupply.toNat := by
  simp only [burn, bind_eq_ok, pure_eq_ok, Prod.mk.injEq] at h
  obtain ⟨totalSupply, hs, rfl, rfl⟩ := h
  exact toNat_checkedSub hs

end TreasuryCap

end Setu.Framework
