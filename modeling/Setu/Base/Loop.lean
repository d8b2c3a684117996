import Mathlib.Logic.Function.Basic

/-!
# Loops

Library `Base`. A loop repeats its body until the body stops it. With fuel the loop is a total
function; a measure that every round lowers gives fuel enough.
-/

namespace Setu.Base

variable {σ : Type*} {body : σ → Option σ} {fuel : Nat} {s t : σ}

/-- Repeat the body until it answers `none`; no result if the fuel is used up first. -/
def loop (body : σ → Option σ) : Nat → σ → Option σ
  | 0, _ => none
  | fuel + 1, s =>
    match body s with
    | none => some s
    | some s' => loop body fuel s'

/-- What every round keeps holds at the end, where the body stops. -/
theorem loop_induction (Inv : σ → Prop) (hst : ∀ {s s'}, Inv s → body s = some s' → Inv s')
    (hs : Inv s) (h : loop body fuel s = some t) : Inv t ∧ body t = none := by
  induction fuel generalizing s with
  | zero => cases h
  | succ fuel ih =>
    rw [loop] at h
    split at h
    · next hb =>
      cases h
      exact ⟨hs, hb⟩
    · next s' hb => exact ih (hst hs hb) h

/-- A loop that lowers a measure in every round ends within that many rounds. -/
theorem exists_loop_of_measure (measure : σ → Nat)
    (hs : ∀ {s s'}, body s = some s' → measure s' < measure s) (h : measure s < fuel) :
    ∃ t, loop body fuel s = some t := by
  induction fuel generalizing s with
  | zero => exact absurd h (Nat.not_lt_zero _)
  | succ fuel ih =>
    rw [loop]
    split
    · exact ⟨s, rfl⟩
    · next s' hb =>
      have hlt := hs hb
      exact ih (by omega)

end Setu.Base
