import Setu.Base.Transaction

/-!
# Independent transactions

Library `Base`. A transaction is a list of checked writes that is applied as a whole or not at
all. It reads and writes only the keys that it names, so transactions without a common key
commute, and a list of them has the same effect in every order.
-/

namespace Setu.Base.Write

universe u v

variable {K : Type u} {V : Type v}

/-- No key is written by both. -/
def Independent (ws ws' : List (Write K V)) : Prop := ∀ w ∈ ws, ∀ w' ∈ ws', w.key ≠ w'.key

variable {ws ws' : List (Write K V)}

theorem Independent.symm (h : Independent ws ws') : Independent ws' ws := by
  intro w' hw' w hw
  exact (h w hw w' hw').symm

variable {s t : K → Option V}

/-- Whether a write fits depends on the value at its key. -/
theorem fits_congr {w : Write K V} (h : s w.key = t w.key) : w.Fits s ↔ w.Fits t := by
  rw [Fits, Fits, h]

theorem recreates_congr (h : ∀ w ∈ ws, s w.key = t w.key) : Recreates s ws ↔ Recreates t ws := by
  apply exists_congr
  intro w
  apply and_congr_right
  intro hw
  rw [h w hw]

variable [DecidableEq K]

/-- Stores that agree on the keys of a list of writes agree on whether it fits. -/
theorem allFit_congr (h : ∀ w ∈ ws, s w.key = t w.key) : AllFit s ws ↔ AllFit t ws := by
  induction ws generalizing s t with
  | nil => exact Iff.rfl
  | cons w ws ih =>
    rw [allFit_cons, allFit_cons, fits_congr (h w List.mem_cons_self)]
    apply and_congr_right
    intro _
    apply ih
    intro w' hw'
    by_cases hk : w'.key = w.key
    · rw [apply, apply, hk, Function.update_self, Function.update_self]
    · rw [apply, apply, Function.update_of_ne hk, Function.update_of_ne hk]
      exact h w' (List.mem_cons_of_mem w hw')

/-- Writes without a common key can be applied in either order. -/
theorem applyAll_comm (h : Independent ws ws') :
    applyAll (applyAll s ws) ws' = applyAll (applyAll s ws') ws := by
  funext k
  by_cases hk : ∃ w ∈ ws, w.key = k
  · obtain ⟨w, hw, rfl⟩ := hk
    rw [applyAll_of_ne fun w' hw' ↦ (h w hw w' hw').symm, applyAll_apply, applyAll_apply,
      applyAll_of_ne fun w' hw' ↦ (h w hw w' hw').symm]
  · have ho : ∀ w ∈ ws, w.key ≠ k := fun w hw heq ↦ hk ⟨w, hw, heq⟩
    rw [applyAll_of_ne (s := applyAll s ws') ho, applyAll_apply, applyAll_apply s ws',
      applyAll_of_ne ho]

/-- The writes fit one after another, and none creates a key of the store before all of them. -/
def Passes (s : K → Option V) (ws : List (Write K V)) : Prop := AllFit s ws ∧ ¬ Recreates s ws

/-- Whether a list of writes passes depends on the values at its keys. -/
theorem passes_congr (h : ∀ w ∈ ws, s w.key = t w.key) : Passes s ws ↔ Passes t ws := by
  rw [Passes, Passes, allFit_congr h, recreates_congr h]

section Pair

variable {s : K → Option V} {w w' : Write K V}

theorem passes_pair_iff (h : w'.key ≠ w.key) : Passes s [w, w'] ↔ w.Fits s ∧ w'.Fits s := by
  have hn : ([w, w'].map key).Nodup := by simpa using h.symm
  have hp : (∀ x ∈ [w, w'], x.Fits s) ↔ w.Fits s ∧ w'.Fits s := by simp
  rw [Passes, allFit_iff_of_nodup hn, ← hp]
  exact and_iff_left_of_imp not_recreates_of_fits

theorem applyAll_pair_left (h : w'.key ≠ w.key) : applyAll s [w, w'] w.key = w.value := by
  rw [applyAll_cons, applyAll_of_ne (by simpa using h), apply, Function.update_self]

theorem applyAll_pair_right : applyAll s [w, w'] w'.key = w'.value :=
  Function.update_self ..

end Pair

variable [DecidableEq V]

instance (s : K → Option V) (ws : List (Write K V)) : Decidable (Passes s ws) :=
  inferInstanceAs (Decidable (_ ∧ _))

/-- Apply the writes if they pass, and none of them otherwise. -/
def transact (s : K → Option V) (ws : List (Write K V)) : K → Option V :=
  if Passes s ws then applyAll s ws else s

theorem transact_of_passes (h : Passes s ws) :
    transact s ws = applyAll s ws := if_pos h

theorem transact_of_not_passes (h : ¬ Passes s ws) :
    transact s ws = s := if_neg h

/-- A key that a transaction does not name keeps its value. -/
theorem transact_of_ne {k : K} (h : ∀ w ∈ ws, w.key ≠ k) : transact s ws k = s k := by
  by_cases hp : Passes s ws
  · rw [transact_of_passes hp, applyAll_of_ne h]
  · rw [transact_of_not_passes hp]

/-- What holds of every stored value and of every written one holds after the transaction. -/
theorem forall_transact {P : K → V → Prop} (hs : ∀ k v, s k = some v → P k v)
    (hws : ∀ w ∈ ws, ∀ v, w.value = some v → P w.key v) :
    ∀ k v, transact s ws k = some v → P k v := by
  intro k v hv
  by_cases hp : Passes s ws
  · rw [transact_of_passes hp, applyAll_apply] at hv
    cases hl : lastValue ws k with
    | none =>
      rw [hl, Option.getD_none] at hv
      exact hs k v hv
    | some value =>
      obtain ⟨w, hw, rfl, rfl⟩ := exists_mem_of_lastValue hl
      rw [hl, Option.getD_some] at hv
      exact hws w hw v hv
  · rw [transact_of_not_passes hp] at hv
    exact hs k v hv

/-- A transaction does not see what an independent one has written. -/
theorem passes_transact (h : Independent ws ws') : Passes (transact s ws) ws' ↔ Passes s ws' := by
  apply passes_congr
  intro w' hw'
  apply transact_of_ne
  intro w hw
  exact h w hw w' hw'

/-- Independent transactions commute. -/
theorem transact_comm (h : Independent ws ws') :
    transact (transact s ws) ws' = transact (transact s ws') ws := by
  have hf := passes_transact (s := s) h.symm
  have hs := passes_transact (s := s) h
  by_cases hws : Passes s ws <;> by_cases hws' : Passes s ws'
  · rw [transact_of_passes (hs.mpr hws'), transact_of_passes hws,
      transact_of_passes (hf.mpr hws), transact_of_passes hws', applyAll_comm h]
  · rw [transact_of_not_passes fun hp ↦ hws' (hs.mp hp), transact_of_not_passes hws']
  · rw [transact_of_not_passes hws, transact_of_not_passes fun hp ↦ hws (hf.mp hp)]
  · rw [transact_of_not_passes hws, transact_of_not_passes hws', transact_of_not_passes hws]

/-- Pairwise independent transactions have the same effect in every order. -/
theorem foldl_transact_perm {l l' : List (List (Write K V))} (hp : l.Perm l')
    (h : l.Pairwise Independent) (s : K → Option V) : l.foldl transact s = l'.foldl transact s := by
  have hs : Std.Symm (Independent (K := K) (V := V)) := ⟨fun _ _ h ↦ h.symm⟩
  apply hp.foldl_eq'
  intro ws hws ws' hws' t
  by_cases heq : ws = ws'
  · rw [heq]
  · exact transact_comm (h.forall hws hws' heq)

end Setu.Base.Write
