import Mathlib.Data.List.Basic

/-!
# Computations that consult a store

Library `Base`. A computation asks for the values of keys, one after another, and may choose
the next key by the answers. On a given store it has a result and a list of the keys it asked
for. Two stores that agree on the keys asked for give the same result.
-/

namespace Setu.Base

/-- A computation with answers from a store of optional values. -/
inductive Lookup (K V α : Type) where
  | done (result : α)
  | get (key : K) (next : Option V → Lookup K V α)

namespace Lookup

variable {K V α β : Type}

/-- The second computation goes on with the result of the first. -/
def bind : Lookup K V α → (α → Lookup K V β) → Lookup K V β
  | done a, f => f a
  | get key next, f => get key fun answer ↦ (next answer).bind f

instance : Monad (Lookup K V) where
  pure := done
  bind := bind

private theorem bind_done (c : Lookup K V α) : c.bind done = c := by
  induction c with
  | done a => rfl
  | get key next ih => exact congrArg (get key) (funext fun answer ↦ ih answer)

private theorem bind_assoc {γ : Type} (c : Lookup K V α) (f : α → Lookup K V β)
    (g : β → Lookup K V γ) : (c.bind f).bind g = c.bind fun a ↦ (f a).bind g := by
  induction c with
  | done a => rfl
  | get key next ih => exact congrArg (get key) (funext fun answer ↦ ih answer)

instance : LawfulMonad (Lookup K V) :=
  .mk' _ (fun c ↦ bind_done c) (fun _ _ ↦ rfl) fun c f g ↦ bind_assoc c f g

/-- Asks for the value of one key. -/
def ask (key : K) : Lookup K V (Option V) := get key done

/-- The result on a store. -/
def run (store : K → Option V) : Lookup K V α → α
  | done a => a
  | get key next => (next (store key)).run store

/-- The keys asked for on a store, in order. -/
def reads (store : K → Option V) : Lookup K V α → List K
  | done _ => []
  | get key next => key :: (next (store key)).reads store

/-- On a store, computations one after the other are functions one after the other. -/
theorem run_bind (store : K → Option V) (c : Lookup K V α) (f : α → Lookup K V β) :
    (c >>= f).run store = (f (c.run store)).run store := by
  induction c with
  | done a => rfl
  | get key next ih => exact ih (store key)

/-- The result depends only on the keys asked for. -/
theorem run_congr {store store' : K → Option V} {c : Lookup K V α}
    (h : ∀ key ∈ c.reads store, store' key = store key) : c.run store' = c.run store := by
  induction c with
  | done a => rfl
  | get key next ih =>
    obtain ⟨hk, hn⟩ := List.forall_mem_cons.mp h
    rw [run, run, hk]
    exact ih _ hn

end Lookup

end Setu.Base
