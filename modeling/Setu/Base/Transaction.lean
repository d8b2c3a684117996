import Setu.Base.HashMap

/-!
# Checked writes to a key-value store

Library `Base`. A write names a key, the value it expects to find there and the value it
leaves. A list of writes fits a store when each write fits the store that the writes before it
leave. Writes that are checked against a map of pending values over an unchanged store are
checked against the store they would leave.
-/

namespace Setu.Base

universe u v

/-- A write to one key. -/
structure Write (K : Type u) (V : Type v) where
  key : K
  expected : Option V
  value : Option V
  deriving DecidableEq

namespace Write

variable {K : Type u} {V : Type v}

/-- The write leaves a value where it expects none. -/
def Creates (w : Write K V) : Prop := w.expected = none ∧ w.value ≠ none

instance (w : Write K V) : Decidable w.Creates :=
  decidable_of_iff (w.expected.isNone ∧ w.value.isSome) (by
    simp [Creates, Option.ne_none_iff_isSome])

/-- The write fits the store: an expected value is there, and a creation finds nothing. A
removal that expects nothing fits always. -/
def Fits (s : K → Option V) (w : Write K V) : Prop :=
  (∀ v, w.expected = some v → s w.key = some v) ∧ (w.Creates → s w.key = none)

/-- Some write creates a key that the store already has. -/
def Recreates (s : K → Option V) (ws : List (Write K V)) : Prop :=
  ∃ w ∈ ws, w.Creates ∧ s w.key ≠ none

variable {s : K → Option V} {w : Write K V}

theorem fits_of_expected {v : V} (h : w.expected = some v) : w.Fits s ↔ s w.key = some v := by
  simp [Fits, Creates, h]

theorem fits_of_creates (h : w.Creates) : w.Fits s ↔ s w.key = none := by
  simp [Fits, h, h.1]

theorem not_creates_of_expected {v : V} (h : w.expected = some v) : ¬ w.Creates := by
  simp [Creates, h]

/-- The write is checked: it expects a value or creates one. -/
def Checked (w : Write K V) : Prop := w.expected ≠ none ∨ w.value ≠ none

instance (w : Write K V) : Decidable w.Checked :=
  decidable_of_iff (w.expected.isSome ∨ w.value.isSome) (by
    simp [Checked, Option.ne_none_iff_isSome])

/-- A checked write that fits finds what it expects. -/
theorem Fits.eq_expected (h : w.Fits s) (hc : w.Checked) : s w.key = w.expected := by
  cases he : w.expected with
  | some v => exact h.1 v he
  | none => exact h.2 ⟨he, hc.resolve_left (by simp [he])⟩

theorem fits_iff_of_checked (h : w.Checked) : w.Fits s ↔ s w.key = w.expected := by
  constructor
  · intro hf
    exact hf.eq_expected h
  · intro hk
    refine ⟨fun v hv ↦ hk.trans hv, fun hc ↦ hk.trans hc.1⟩

/-- A removal that expects nothing is not checked. -/
theorem fits_of_remove (h : w.expected = none) (hv : w.value = none)
    : w.Fits s ∧ ¬ w.Creates := by
  simp [Fits, Creates, h, hv]

variable {ws : List (Write K V)}

theorem recreates_cons : Recreates s (w :: ws) ↔ w.Creates ∧ s w.key ≠ none ∨ Recreates s ws := by
  simp [Recreates]

variable [DecidableEq K]

/-- The store after the write; no value is a removal. -/
def apply (s : K → Option V) (w : Write K V) : K → Option V := Function.update s w.key w.value

/-- Each write fits the store that the writes before it leave. -/
def AllFit : (K → Option V) → List (Write K V) → Prop
  | _, [] => True
  | s, w :: ws => w.Fits s ∧ AllFit (w.apply s) ws

/-- The store after all writes, from the front. -/
def applyAll (s : K → Option V) (ws : List (Write K V)) : K → Option V := ws.foldl apply s

section Decidable

variable [DecidableEq V]

omit [DecidableEq K] in
instance (s : K → Option V) (w : Write K V) : Decidable (w.Fits s) :=
  match hw : w.expected with
  | some v => decidable_of_iff (s w.key = some v) (by simp [Fits, Creates, hw])
  | none => decidable_of_iff (w.Creates → s w.key = none) (by simp [Fits, hw])

omit [DecidableEq K] in
instance (s : K → Option V) (ws : List (Write K V)) : Decidable (Recreates s ws) :=
  inferInstanceAs (Decidable (∃ w ∈ ws, w.Creates ∧ s w.key ≠ none))

instance decidableAllFit : (s : K → Option V) → (ws : List (Write K V)) → Decidable (AllFit s ws)
  | _, [] => .isTrue trivial
  | s, w :: ws =>
    have := decidableAllFit (w.apply s) ws
    inferInstanceAs (Decidable (_ ∧ _))

end Decidable

@[simp]
theorem applyAll_nil (s : K → Option V) : applyAll s [] = s := rfl

@[simp]
theorem applyAll_cons (s : K → Option V) (w : Write K V) (ws : List (Write K V)) :
    applyAll s (w :: ws) = applyAll (w.apply s) ws := rfl

theorem applyAll_append (s : K → Option V) (ws ws' : List (Write K V)) :
    applyAll s (ws ++ ws') = applyAll (applyAll s ws) ws' :=
  List.foldl_append

@[simp]
theorem allFit_nil (s : K → Option V) : AllFit s [] := trivial

@[simp]
theorem allFit_cons :
    AllFit s (w :: ws) ↔ w.Fits s ∧ AllFit (w.apply s) ws := Iff.rfl

theorem allFit_append {ws' : List (Write K V)} :
    AllFit s (ws ++ ws') ↔ AllFit s ws ∧ AllFit (applyAll s ws) ws' := by
  induction ws generalizing s with
  | nil => simp
  | cons w ws ih => rw [List.cons_append, allFit_cons, allFit_cons, ih, applyAll_cons, and_assoc]

/-- The value that the last write to the key leaves, if a write names the key. -/
def lastValue : List (Write K V) → K → Option (Option V)
  | [], _ => none
  | w :: ws, k => (lastValue ws k).or (if w.key = k then some w.value else none)

/-- After all writes a key has its last value, or the one before if no write names it. -/
theorem applyAll_apply (s : K → Option V) (ws : List (Write K V)) (k : K) :
    applyAll s ws k = (lastValue ws k).getD (s k) := by
  induction ws generalizing s with
  | nil => rfl
  | cons w ws ih =>
    rw [applyAll_cons, ih, lastValue, apply]
    cases lastValue ws k with
    | some value => rfl
    | none =>
      by_cases hk : w.key = k
      · simp [hk]
      · simp [hk, Function.update_of_ne (Ne.symm hk)]

/-- A key that has a value and that no write removes keeps having one. -/
theorem applyAll_ne_none {k : K} (hk : s k ≠ none) (hws : ∀ w ∈ ws, w.key = k → w.value ≠ none)
    : applyAll s ws k ≠ none := by
  induction ws generalizing s with
  | nil => exact hk
  | cons w ws ih =>
    rw [applyAll_cons]
    refine ih ?_ fun w' hw' ↦ hws w' (List.mem_cons_of_mem w hw')
    by_cases hke : w.key = k
    · rw [apply, ← hke, Function.update_self]
      exact hws w List.mem_cons_self hke
    · rw [apply, Function.update_of_ne (Ne.symm hke)]
      exact hk

theorem lastValue_append (ws ws' : List (Write K V)) (k : K) :
    lastValue (ws ++ ws') k = (lastValue ws' k).or (lastValue ws k) := by
  induction ws with
  | nil => simp [lastValue]
  | cons w ws ih => rw [List.cons_append, lastValue, ih, lastValue, Option.or_assoc]

theorem exists_mem_of_lastValue {k : K} {value : Option V} (h : lastValue ws k = some value)
    : ∃ w ∈ ws, w.key = k ∧ w.value = value := by
  induction ws with
  | nil => cases h
  | cons w ws ih =>
    rw [lastValue, Option.or_eq_some_iff] at h
    rcases h with h | ⟨-, h⟩
    · obtain ⟨w', hm, hw'⟩ := ih h
      exact ⟨w', List.mem_cons_of_mem _ hm, hw'⟩
    · split at h
      · next hk => exact ⟨w, List.mem_cons_self, hk, Option.some.inj h⟩
      · cases h

theorem lastValue_eq_none_iff {k : K} : lastValue ws k = none ↔ ∀ w ∈ ws, w.key ≠ k := by
  induction ws with
  | nil => simp [lastValue]
  | cons w ws ih => simp [lastValue, ih, and_comm]

/-- A key that no write names keeps its value. -/
theorem applyAll_of_ne {k : K} (h : ∀ w ∈ ws, w.key ≠ k) : applyAll s ws k = s k := by
  rw [applyAll_apply, lastValue_eq_none_iff.mpr h, Option.getD_none]

/-- What the last write of several lists leaves is left by the last write of one of them. -/
theorem exists_lastValue_of_flatMap {α : Type*} {l : List α} {f : α → List (Write K V)} {k : K}
    {value : Option V} (h : lastValue (l.flatMap f) k = some value) :
    ∃ a ∈ l, lastValue (f a) k = some value := by
  induction l with
  | nil => cases h
  | cons a l ih =>
    rw [List.flatMap_cons, lastValue_append, Option.or_eq_some_iff] at h
    rcases h with h | ⟨-, h⟩
    · obtain ⟨b, hb, hv⟩ := ih h
      exact ⟨b, List.mem_cons_of_mem _ hb, hv⟩
    · exact ⟨a, List.mem_cons_self, h⟩

/-- The first write to a key fits the store before all writes. -/
theorem fits_of_first (hfi : AllFit s ws) {k : K} (hf : ws.find? (·.key = k) = some w)
    : w.Fits s := by
  induction ws generalizing s with
  | nil => cases hf
  | cons w' ws ih =>
    by_cases hk : w'.key = k
    · rw [List.find?_cons_of_pos (by simpa using hk)] at hf
      cases hf
      exact hfi.1
    · rw [List.find?_cons_of_neg (by simpa using hk)] at hf
      have hke : w.key = k := by simpa using List.find?_some hf
      have hl := ih hfi.2 hf
      rwa [Fits, apply, Function.update_of_ne (hke ▸ Ne.symm hk)] at hl

/-- A write is seen at its own key only. -/
theorem fits_apply {w' : Write K V} (h : w'.key ≠ w.key) : w'.Fits (w.apply s) ↔ w'.Fits s := by
  rw [Fits, Fits, apply, Function.update_of_ne h]

/-- Writes to different keys fit one after another if each of them fits. -/
theorem allFit_iff_of_nodup (hn : (ws.map key).Nodup) : AllFit s ws ↔ ∀ w ∈ ws, w.Fits s := by
  induction ws generalizing s with
  | nil => simp
  | cons w ws ih =>
    rw [List.map_cons, List.nodup_cons] at hn
    rw [allFit_cons, List.forall_mem_cons, ih hn.2]
    apply and_congr_right
    intro _
    apply forall₂_congr
    intro w' hw'
    apply fits_apply
    intro heq
    exact hn.1 (heq ▸ List.mem_map_of_mem hw')

omit [DecidableEq K] in
/-- A creation that fits finds nothing. -/
theorem not_recreates_of_fits (h : ∀ w ∈ ws, w.Fits s) : ¬ Recreates s ws := by
  rintro ⟨w, hw, hc, hne⟩
  exact hne ((h w hw).2 hc)

variable (pending : HashMap K (Option V))

/-- The store seen through pending values. -/
def overlay (s : K → Option V) : K → Option V :=
  fun k ↦ (pending.lookup k).getD (s k)

/-- Nothing is found through the map and nothing in the store, said of the two separately. -/
theorem overlay_eq_none_and_iff (s : K → Option V) (k : K) :
    overlay pending s k = none ∧ s k = none ↔
      ((pending.lookup k).map Option.isSome).getD false = false ∧ (s k).isSome = false := by
  unfold overlay
  cases pending.lookup k with
  | none => simp
  | some value => cases value <;> simp

/-- A pending value is a write to the store seen through the map. -/
theorem overlay_insert (s : K → Option V) (w : Write K V) :
    overlay (pending.insert w.key w.value) s = w.apply (overlay pending s) := by
  funext k
  unfold overlay apply
  by_cases hk : k = w.key
  · subst hk
    rw [AList.lookup_insert, Function.update_self]
    rfl
  · rw [AList.lookup_insert_ne hk, Function.update_of_ne hk]

end Write

end Setu.Base
