import Mathlib.Data.List.Forall2

/-!
# Computations that may fail

Library `Base`. Early returns of an error as `Except` computations: a condition that is
required, an option whose value is required, and what a computation that came through says
about its parts.
-/

namespace Setu.Base

universe u v

variable {ε α β : Type u} {γ : Type v}

/-- Goes on only if the condition holds; `if !condition { return Err(error) }`. -/
def require (condition : Bool) (error : ε) : Except ε PUnit.{u + 1} :=
  if condition then .ok ⟨⟩ else .error error

/-- The value of an option; `Option::ok_or`. -/
def okOr (value : Option α) (error : ε) : Except ε α := value.elim (.error error) .ok

variable {x : Except ε α}

@[simp]
theorem bind_eq_ok {f : α → Except ε β} {r : β} :
    (x >>= f) = .ok r ↔ ∃ a, x = .ok a ∧ f a = .ok r := by
  cases x <;> simp [bind, Except.bind]

variable {a r : α}

@[simp]
theorem pure_eq_ok : (pure a : Except ε α) = .ok r ↔ a = r := by
  simp [pure, Except.pure]

@[simp]
theorem require_eq_ok {condition : Bool} {error : ε} {r : PUnit} :
    require condition error = .ok r ↔ condition = true := by
  unfold require
  split <;> simp_all

@[simp]
theorem okOr_eq_ok {value : Option α} {error : ε} :
    okOr value error = .ok a ↔ value = some a := by
  cases value <;> simp [okOr]

@[simp]
theorem mapError_eq_ok {δ : Type u} {f : ε → δ} : x.mapError f = .ok a ↔ x = .ok a := by
  cases x <;> simp [Except.mapError]

/-- A computation that came through has its value as result. -/
theorem eq_ok_get (h : x.toOption.isSome) : x = .ok (x.toOption.get h) := by
  cases x with
  | error e => cases h
  | ok a => rfl

theorem toOption_eq_some_iff : x.toOption = some a ↔ x = .ok a := by
  cases x <;> simp [Except.toOption]

/-- What is computed of a result that came through is computed of a result. -/
theorem exists_ok_of_map_toOption {δ : Type*} {f : α → δ} {d : δ} (h : x.toOption.map f = some d)
    : ∃ a, x = .ok a ∧ f a = d := by
  cases x with
  | error e => cases h
  | ok a => exact ⟨a, rfl, Option.some.inj h⟩

variable {l : List γ} {step : α → γ → Except ε α}

/-- What holds at first and is kept by every step that comes through holds at the end. -/
theorem foldlM_ok_induction (P : α → Prop) (h : l.foldlM step a = .ok r) (ha : P a)
    (hs : ∀ c ∈ l, ∀ a b, step a c = .ok b → P a → P b) : P r := by
  induction l generalizing a with
  | nil =>
    obtain rfl : a = r := by simpa using h
    exact ha
  | cons c l ih =>
    rw [List.foldlM_cons, bind_eq_ok] at h
    obtain ⟨b, hb, hr⟩ := h
    exact ih hr (hs c List.mem_cons_self a b hb ha) fun c' hc' ↦ hs c' (List.mem_cons_of_mem _ hc')

/-- A loop whose turns come through wherever those of another loop do. -/
theorem foldlM_ok_mono {f g : α → γ → Except ε α} {b : α}
    (ht : ∀ a c a', f a c = .ok a' → g a c = .ok a') (h : l.foldlM f a = .ok b) :
    l.foldlM g a = .ok b := by
  induction l generalizing a with
  | nil => exact h
  | cons c l ih =>
    rw [List.foldlM_cons, bind_eq_ok] at h ⊢
    obtain ⟨next, hf, hr⟩ := h
    exact ⟨next, ht a c next hf, ih hr⟩

/-- In a fold that came through every step came through, from a value that has what holds at
first and is kept. -/
theorem exists_step_of_foldlM_ok (P : α → Prop) (h : l.foldlM step a = .ok r) (ha : P a)
    (hs : ∀ c ∈ l, ∀ a b, step a c = .ok b → P a → P b) {c : γ} (hc : c ∈ l) :
    ∃ a b, P a ∧ step a c = .ok b := by
  induction l generalizing a with
  | nil => cases hc
  | cons c' l ih =>
    rw [List.foldlM_cons, bind_eq_ok] at h
    obtain ⟨b, hb, hr⟩ := h
    rcases List.mem_cons.mp hc with rfl | hc
    · exact ⟨a, b, ha, hb⟩
    · exact ih hr (hs c' List.mem_cons_self a b hb ha)
        (fun c'' hc'' ↦ hs c'' (List.mem_cons_of_mem _ hc'')) hc

/-- A check of all members comes through exactly if it does for each. -/
theorem forM_eq_ok {f : γ → Except ε PUnit.{u + 1}} {r : PUnit} :
    l.forM f = .ok r ↔ ∀ c ∈ l, f c = .ok ⟨⟩ := by
  induction l with
  | nil => simp [pure, Except.pure]
  | cons c l ih =>
    rw [List.forM_eq_forM, List.forM_cons, bind_eq_ok, List.forall_mem_cons, ← ih]
    exact ⟨fun ⟨_, h, hr⟩ ↦ ⟨h, hr⟩, fun h ↦ ⟨⟨⟩, h⟩⟩

/-- Checks one after the other fail as one of them fails. -/
theorem forM_ok_or_error {α ε : Type*} {check : α → Except ε Unit} {P : ε → Prop} {l : List α}
    (h : ∀ a ∈ l, check a = .ok () ∨ ∃ e, check a = .error e ∧ P e) :
    l.forM check = .ok () ∨ ∃ e, l.forM check = .error e ∧ P e := by
  induction l with
  | nil => exact .inl rfl
  | cons a l ih =>
    change (check a >>= fun _ ↦ l.forM check) = _ ∨ ∃ e, (check a >>= fun _ ↦ l.forM check) = _ ∧ _
    rcases h a List.mem_cons_self with ha | ⟨e, ha, he⟩
    · rw [ha]
      exact ih fun b hb ↦ h b (List.mem_cons_of_mem _ hb)
    · rw [ha]
      exact .inr ⟨e, rfl, he⟩

variable {f : γ → Except ε α} {r : List α}

/-- A list of computations comes through with the list of their results. -/
theorem mapM_eq_ok : l.mapM f = .ok r ↔ List.Forall₂ (fun c a ↦ f c = .ok a) l r := by
  induction l generalizing r with
  | nil =>
    rw [List.mapM_nil, pure_eq_ok, List.forall₂_nil_left_iff, eq_comm]
  | cons c l ih =>
    simp only [List.mapM_cons, bind_eq_ok, pure_eq_ok, ih, List.forall₂_cons_left_iff]
    exact ⟨fun ⟨a, ha, rest, hr, h⟩ ↦ ⟨a, rest, ha, hr, h.symm⟩,
      fun ⟨a, rest, ha, hr, h⟩ ↦ ⟨a, ha, rest, hr, h.symm⟩⟩

/-- What lists related element by element have at a position is related. -/
theorem getElem?_of_forall₂ {δ : Type*} {R : γ → δ → Prop} {r : List δ} (h : List.Forall₂ R l r)
    {i : Nat} {a : δ} (ha : r[i]? = some a) : ∃ c, l[i]? = some c ∧ R c a := by
  induction h generalizing i with
  | nil => cases ha
  | cons hf _ ih =>
    cases i with
    | zero =>
      cases ha
      exact ⟨_, rfl, hf⟩
    | succ i => exact ih ha

/-- Every result is that of the computation at its position. -/
theorem getElem?_of_mapM_ok (h : l.mapM f = .ok r) {i : Nat} (ha : r[i]? = some a) :
    ∃ c, l[i]? = some c ∧ f c = .ok a :=
  getElem?_of_forall₂ (mapM_eq_ok.mp h) ha

theorem exists_of_mem_mapM_ok (h : l.mapM f = .ok r) (ha : a ∈ r)
    : ∃ c ∈ l, f c = .ok a := by
  obtain ⟨i, hi⟩ := List.getElem?_of_mem ha
  obtain ⟨c, hc, hf⟩ := getElem?_of_mapM_ok h hi
  exact ⟨c, List.mem_of_getElem? hc, hf⟩

/-- What each computation keeps of its input is kept along the list. -/
theorem map_eq_map_of_mapM_ok {δ : Type*} (h : l.mapM f = .ok r) {p : α → δ} {q : γ → δ}
    (hf : ∀ c a, f c = .ok a → p a = q c) : r.map p = l.map q := by
  rw [mapM_eq_ok] at h
  induction h with
  | nil => rfl
  | cons hfi _ ih => rw [List.map_cons, List.map_cons, ih, hf _ _ hfi]

/-- Every computation of the list comes through. -/
theorem exists_ok_of_mapM_ok (h : l.mapM f = .ok r) {c : γ} (hc : c ∈ l)
    : ∃ a ∈ r, f c = .ok a := by
  rw [mapM_eq_ok] at h
  induction h with
  | nil => cases hc
  | cons hfi _ ih =>
    rcases List.mem_cons.mp hc with rfl | hc
    · exact ⟨_, List.mem_cons_self, hfi⟩
    · obtain ⟨a, ha, hf⟩ := ih hc
      exact ⟨a, List.mem_cons_of_mem _ ha, hf⟩

end Setu.Base
