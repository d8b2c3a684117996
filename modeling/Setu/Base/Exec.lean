import Setu.Base.Checked

/-!
# Computations that keep their state when they fail

Library `Base`. A method on a mutable receiver that returns a result: what was written before an
error stays written. A computation is atomic on a state if a failure leaves that state. It follows
an all-or-nothing function if it comes to the same result, whatever a failure of it leaves behind.
-/

namespace Setu.Base

/-- A computation on a state of type `σ`. -/
def Exec (σ ε α : Type) : Type := σ → Except ε α × σ

namespace Exec

variable {σ ε α β γ : Type}

instance : Monad (Exec σ ε) where
  pure a := fun s ↦ (.ok a, s)
  bind x f := fun s ↦
    match x s with
    | (.ok a, s') => f a s'
    | (.error e, s') => (.error e, s')

private theorem map_id (x : Exec σ ε α) : id <$> x = x := by
  funext s
  change (match x s with | (.ok a, s') => (.ok a, s') | (.error e, s') => (.error e, s')) = x s
  rcases x s with ⟨_ | _, _⟩ <;> rfl

private theorem bind_bind (x : Exec σ ε α) (f : α → Exec σ ε β) (g : β → Exec σ ε γ) :
    x >>= f >>= g = x >>= fun a ↦ f a >>= g := by
  funext s
  change (match (match x s with
    | (.ok a, s') => f a s'
    | (.error e, s') => (.error e, s')) with
    | (.ok a, s') => g a s'
    | (.error e, s') => (.error e, s')) = (match x s with
    | (.ok a, s') => (f a >>= g) s'
    | (.error e, s') => (.error e, s'))
  rcases x s with ⟨_ | _, _⟩ <;> rfl

instance : LawfulMonad (Exec σ ε) := LawfulMonad.mk' _ map_id (fun _ _ ↦ rfl) bind_bind

/-- A check that writes nothing. -/
def check (e : Except ε α) : Exec σ ε α := fun s ↦ (e, s)

/-- The state as it is. -/
def read : Exec σ ε σ := fun s ↦ (.ok s, s)

/-- The computation with another text for its error. -/
def mapError {ε' : Type} (f : ε → ε') (x : Exec σ ε α) : Exec σ ε' α := fun s ↦
  ((x s).1.mapError f, (x s).2)

/-- A write, which cannot fail. -/
def write (f : σ → σ) : Exec σ ε PUnit := fun s ↦ (.ok ⟨⟩, f s)

@[simp]
theorem pure_apply (a : α) (s : σ) : (pure a : Exec σ ε α) s = (.ok a, s) := rfl

@[simp]
theorem read_bind (f : σ → Exec σ ε β) (s : σ) : (read >>= f) s = f s s := rfl

variable {x : Exec σ ε α} {f : α → Exec σ ε β} {s s' : σ} {a : α}

theorem bind_of_ok (h : x s = (.ok a, s')) : (x >>= f) s = f a s' := by
  change (match x s with | (.ok a, s') => f a s' | (.error e, s') => (.error e, s')) = _
  rw [h]

theorem bind_of_error {e : ε} (h : x s = (.error e, s')) : (x >>= f) s = (.error e, s') := by
  change (match x s with | (.ok a, s') => f a s' | (.error e, s') => (.error e, s')) = _
  rw [h]

theorem mapError_of_ok {ε' : Type} (f : ε → ε') (h : x s = (.ok a, s'))
    : x.mapError f s = (.ok a, s') := by
  rw [mapError, h]
  rfl

theorem mapError_of_error {ε' : Type} {e : ε} (f : ε → ε') (h : x s = (.error e, s'))
    : x.mapError f s = (.error (f e), s') := by
  rw [mapError, h]
  rfl

variable {e : Except ε α}

theorem check_bind_of_ok (h : e = .ok a) : (check e >>= f) s = f a s :=
  bind_of_ok (Prod.ext h rfl)

/-- A sequence fails in its first part or, after that came through, in its second. -/
theorem bind_eq_error {e : ε} (h : (x >>= f) s = (.error e, s')) :
    x s = (.error e, s') ∨ ∃ a t, x s = (.ok a, t) ∧ f a t = (.error e, s') := by
  cases hx : x s with
  | mk result t =>
    cases result with
    | error e' =>
      rw [bind_of_error hx] at h
      cases h
      exact .inl rfl
    | ok a =>
      rw [bind_of_ok hx] at h
      exact .inr ⟨a, t, rfl, h⟩

/-- A sequence comes through if both of its parts do. -/
theorem bind_eq_ok {b : β} :
    (x >>= f) s = (.ok b, s') ↔ ∃ a t, x s = (.ok a, t) ∧ f a t = (.ok b, s') := by
  constructor
  · intro h
    cases hx : x s with
    | mk result t =>
      cases result with
      | error e =>
        rw [bind_of_error hx] at h
        cases h
      | ok a =>
        rw [bind_of_ok hx] at h
        exact ⟨a, t, rfl, h⟩
  · rintro ⟨a, t, hx, hf⟩
    rw [bind_of_ok hx, hf]

theorem map_eq_ok {f : α → β} {b : β} :
    (f <$> x) s = (.ok b, s') ↔ ∃ a, x s = (.ok a, s') ∧ f a = b := by
  have hm : f <$> x = x >>= fun a ↦ pure (f a) := map_eq_pure_bind f x
  rw [hm, bind_eq_ok]
  constructor
  · rintro ⟨a, t, hx, hp⟩
    cases hp
    exact ⟨a, hx, rfl⟩
  · rintro ⟨a, hx, rfl⟩
    exact ⟨a, s', hx, rfl⟩

theorem mapError_eq_ok {ε' : Type} {f : ε → ε'} :
    x.mapError f s = (.ok a, s') ↔ x s = (.ok a, s') := by
  constructor
  · intro h
    cases hx : x s with
    | mk result t =>
      cases result with
      | error e =>
        rw [mapError_of_error f hx] at h
        cases h
      | ok b =>
        rw [mapError_of_ok f hx] at h
        cases h
        rfl
  · exact mapError_of_ok f

/-- A check that comes through has changed nothing. -/
theorem check_bind_eq_ok {b : β} :
    (check e >>= f) s = (.ok b, s') ↔ ∃ a, e = .ok a ∧ f a s = (.ok b, s') := by
  rw [bind_eq_ok]
  constructor
  · rintro ⟨a, t, hc, hf⟩
    cases hc
    exact ⟨a, rfl, hf⟩
  · rintro ⟨a, rfl, hf⟩
    exact ⟨a, s, rfl, hf⟩

/-- What every turn keeps, whether it comes through or fails, the loop keeps. -/
theorem foldlM_keeps {P : σ → Prop} {f : β → α → Exec σ ε β} {l : List α} {b : β}
    (hs : ∀ b a s, P s → P (f b a s).2) (h : P s) : P (l.foldlM f b s).2 := by
  induction l generalizing b s with
  | nil => exact h
  | cons a rest ih =>
    rw [List.foldlM_cons]
    have ht := hs b a s h
    cases hx : f b a s with
    | mk result t =>
      rw [hx] at ht
      cases result with
      | error e =>
        rw [bind_of_error hx]
        exact ht
      | ok b' =>
        rw [bind_of_ok hx]
        exact ih ht

/-- The result of an all-or-nothing function, which writes at its end only. -/
def atomically (s : σ) : Except ε (α × σ) → Except ε α × σ
  | .ok (a, s') => (.ok a, s')
  | .error e => (.error e, s)

/-- A failure on the state leaves the state. -/
def Atomic (x : Exec σ ε α) (s : σ) : Prop := ∀ e s', x s = (.error e, s') → s' = s

theorem atomic_of_eq_ok (h : x s = (.ok a, s')) : x.Atomic s := by
  intro e t he
  rw [h] at he
  cases he

theorem Atomic.mapError {ε' : Type} (h : x.Atomic s) (f : ε → ε') : (x.mapError f).Atomic s := by
  intro e s' he
  cases hx : x s with
  | mk result t =>
    rw [Exec.mapError, hx] at he
    cases result with
    | ok a => cases he
    | error e' =>
      cases he
      exact h e' t hx

theorem Atomic.map (h : x.Atomic s) (f : α → β) : (f <$> x).Atomic s := by
  intro e s' he
  rcases bind_eq_error (f := fun a ↦ pure (f a)) he with hx | ⟨a, t, -, hp⟩
  · exact h e s' hx
  · cases hp

/-- A look at the state in front. -/
theorem atomic_read_bind {f : σ → Exec σ ε β} (h : (f s).Atomic s) :
    (read >>= f).Atomic s := h

/-- A check in front. -/
theorem atomic_check_bind (h : ∀ a, e = .ok a → (f a).Atomic s) : (check e >>= f).Atomic s := by
  cases e with
  | ok a => exact h a rfl
  | error e =>
    intro e' s' he
    cases he
    rfl

/-- The computation is refused on the state, which it has not changed. -/
def Refuses (x : Exec σ ε α) (s : σ) : Prop := ∃ e, x s = (.error e, s)

theorem Refuses.atomic (h : x.Refuses s) : x.Atomic s := by
  obtain ⟨e, he⟩ := h
  intro e' s' her
  rw [he] at her
  cases her
  rfl

/-- If nothing comes through the checks, one of them refuses. -/
theorem refuses_check_bind (h : ∀ a, e = .ok a → (f a).Refuses s) : (check e >>= f).Refuses s := by
  cases e with
  | ok a => exact h a rfl
  | error e => exact ⟨e, rfl⟩

/-- A check in front of both. -/
theorem check_bind_eq_atomically {g : α → Except ε (β × σ)}
    (h : ∀ a, e = .ok a → f a s = atomically s (g a)) :
    (check e >>= f) s = atomically s (e >>= g) := by
  cases e with
  | error e => rfl
  | ok a => exact h a rfl

/-- On the state the computation comes to what an all-or-nothing function says. What a failure
leaves behind is not said. -/
def Follows (x : Exec σ ε α) (s : σ) : Except ε (α × σ) → Prop
  | .ok (a, s') => x s = (.ok a, s')
  | .error e => ∃ s', x s = (.error e, s')

theorem follows_of_eq_atomically {r : Except ε (α × σ)} (h : x s = atomically s r)
    : x.Follows s r := by
  cases r with
  | ok r => exact h
  | error e => exact ⟨s, h⟩

theorem follows_pure (a : α) (s : σ) : (pure a : Exec σ ε α).Follows s (.ok (a, s)) := rfl

/-- A part that both have in front. -/
theorem Follows.bind {r : Except ε (α × σ)} {g : α × σ → Except ε (β × σ)} (hx : x.Follows s r)
    (hf : ∀ a s', r = .ok (a, s') → (f a).Follows s' (g (a, s'))) :
    (x >>= f).Follows s (r >>= g) := by
  cases r with
  | error e =>
    obtain ⟨s', hs'⟩ := hx
    exact ⟨s', bind_of_error hs'⟩
  | ok r =>
    obtain ⟨a, s'⟩ := r
    have hf := hf a s' rfl
    rw [Follows] at hx
    change (x >>= f).Follows s (g (a, s'))
    cases hg : g (a, s') with
    | ok r =>
      rw [hg] at hf
      exact (bind_of_ok hx).trans hf
    | error e =>
      rw [hg] at hf
      obtain ⟨t, ht⟩ := hf
      exact ⟨t, (bind_of_ok hx).trans ht⟩

/-- A part in front whose all-or-nothing form keeps the state and the value in one record. -/
theorem Follows.bind_pack {r : Except ε γ} {unpack : γ → α × σ} {g : γ → Except ε (β × σ)}
    (hx : x.Follows s (r >>= fun c ↦ pure (unpack c)))
    (hf : ∀ c, r = .ok c → (f (unpack c).1).Follows (unpack c).2 (g c)) :
    (x >>= f).Follows s (r >>= g) := by
  cases r with
  | error e =>
    obtain ⟨s', hs'⟩ := hx
    exact ⟨s', bind_of_error hs'⟩
  | ok c =>
    refine Follows.bind (g := fun _ ↦ g c) hx fun a s' h ↦ ?_
    have heq : unpack c = (a, s') := Except.ok.inj h
    have hf := hf c rfl
    rwa [heq] at hf

/-- A check that both have in front. -/
theorem follows_check_bind {g : α → Except ε (β × σ)} (h : ∀ a, e = .ok a → (f a).Follows s (g a))
    : (check e >>= f).Follows s (e >>= g) := by
  cases e with
  | error e => exact ⟨s, rfl⟩
  | ok a => exact h a rfl

end Exec

end Setu.Base
