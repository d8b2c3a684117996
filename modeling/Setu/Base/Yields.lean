import Setu.Base.Checked

/-!
# Both outcomes of a fallible computation

Library `Base`. A computation is judged by what it returns and by the error it ends with. The
rules follow the computation step by step; a step whose value does not matter only has to end
with an admissible error.
-/

namespace Setu.Base

universe u w

variable {ε α β : Type u}

/-- What comes through satisfies `P`, and an error satisfies `Q`. -/
def Yields (P : α → Prop) (Q : ε → Prop) : Except ε α → Prop
  | .ok a => P a
  | .error e => Q e

/-- The computation ends with an admissible error or comes through. -/
abbrev Errs (Q : ε → Prop) (x : Except ε α) : Prop := Yields (fun _ ↦ True) Q x

namespace Yields

variable {P : α → Prop} {P' : β → Prop} {Q : ε → Prop}

theorem bind {x : Except ε α} {f : α → Except ε β} (hx : Yields P Q x)
    (hf : ∀ a, P a → Yields P' Q (f a)) : Yields P' Q (x >>= f) := by
  cases x with
  | error e => exact hx
  | ok a => exact hf a hx

theorem next {x : Except ε α} {f : α → Except ε β} (hx : Errs Q x)
    (hf : ∀ a, Yields P' Q (f a)) : Yields P' Q (x >>= f) :=
  hx.bind fun a _ ↦ hf a

theorem foldlM {γ : Type w} {f : α → γ → Except ε α} {l : List γ} {a : α} (ha : P a)
    (hs : ∀ a, P a → ∀ c, Yields P Q (f a c)) : Yields P Q (l.foldlM f a) := by
  induction l generalizing a with
  | nil => exact ha
  | cons c l ih =>
    rw [List.foldlM_cons]
    exact (hs a ha c).bind fun b hb ↦ ih hb

end Yields

namespace Errs

variable {Q : ε → Prop}

theorem okOr {value : Option α} {e : ε} (h : Q e) : Errs Q (okOr value e) := by
  cases value
  · exact h
  · trivial

theorem require {condition : Bool} {e : ε} (h : Q e) : Errs Q (require condition e) := by
  cases condition
  · exact h
  · trivial

theorem mapError {ε' : Type u} {x : Except ε' α} {g : ε' → ε} (h : ∀ e, Q (g e)) :
    Errs Q (x.mapError g) := by
  cases x
  · exact h _
  · trivial

theorem foldlM {γ : Type w} {f : α → γ → Except ε α} {l : List γ} {a : α}
    (hs : ∀ a c, Errs Q (f a c)) : Errs Q (l.foldlM f a) :=
  Yields.foldlM trivial fun a _ ↦ hs a

theorem mapM {γ : Type w} {f : γ → Except ε α} {l : List γ} (h : ∀ c, Errs Q (f c)) :
    Errs Q (l.mapM f) := by
  induction l with
  | nil => trivial
  | cons c l ih =>
    rw [List.mapM_cons]
    exact (h c).next fun _ ↦ ih.next fun _ ↦ trivial

theorem forM {γ : Type w} {f : γ → Except ε PUnit} {l : List γ} (h : ∀ c, Errs Q (f c)) :
    Errs Q (l.forM f) := by
  induction l with
  | nil => trivial
  | cons c l ih => exact (h c).next fun _ ↦ ih

end Errs

end Setu.Base
