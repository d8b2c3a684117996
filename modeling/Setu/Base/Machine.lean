import Mathlib.Logic.Function.Basic

/-!
# Runs of a machine

Library `Base`. A machine answers an input in a state with an output and the next state. Which
inputs a run admits may depend on the outputs so far, as with messages that can only repeat
what was sent before.
-/

namespace Setu.Base

variable {σ ι ο : Type*} {step : σ → ι → ο × σ} {Admits : List ο → σ → ι → Prop} {s₀ : σ}

/-- The outputs and the state after a run from `s₀` of admitted inputs. -/
inductive Run (step : σ → ι → ο × σ) (Admits : List ο → σ → ι → Prop) (s₀ : σ) :
    List ο → σ → Prop where
  | start : Run step Admits s₀ [] s₀
  | next {outputs : List ο} {s : σ} (input : ι) (hrun : Run step Admits s₀ outputs s)
      (hadmits : Admits outputs s input) :
      Run step Admits s₀ (outputs ++ [(step s input).1]) (step s input).2

/-- What holds at the start and is kept by every admitted input holds after every run. -/
theorem Run.invariant (Inv : List ο → σ → Prop) (hs : Inv [] s₀)
    (hn : ∀ {outputs s input}, Inv outputs s → Admits outputs s input →
      Inv (outputs ++ [(step s input).1]) (step s input).2)
    {outputs : List ο} {s : σ} (hr : Run step Admits s₀ outputs s) : Inv outputs s := by
  induction hr with
  | start => exact hs
  | next input _ ha ih => exact hn ih ha

/-- A family of machines, one of which takes an input at a time. -/
def stepAt {κ : Type*} [DecidableEq κ] (step : σ → ι → ο × σ) (family : κ → σ)
    (input : κ × ι) : (κ × ο) × (κ → σ) :=
  let result := step (family input.1) input.2
  ((input.1, result.1), Function.update family input.1 result.2)

/-- Feed inputs to a machine that has given some outputs and is in some state. -/
def feed (step : σ → ι → ο × σ) : List ο × σ → List ι → List ο × σ
  | done, [] => done
  | (outputs, s), input :: rest => feed step (outputs ++ [(step s input).1], (step s input).2) rest

/-- Each input is admitted at the point where it is fed. -/
def Feeds (step : σ → ι → ο × σ) (Admits : List ο → σ → ι → Prop) :
    List ο × σ → List ι → Prop
  | _, [] => True
  | (outputs, s), input :: rest =>
    Admits outputs s input ∧
      Feeds step Admits (outputs ++ [(step s input).1], (step s input).2) rest

instance Feeds.decidable [∀ outputs s input, Decidable (Admits outputs s input)] :
    (done : List ο × σ) → (inputs : List ι) → Decidable (Feeds step Admits done inputs)
  | _, [] => inferInstanceAs (Decidable True)
  | (outputs, s), input :: rest =>
    have := Feeds.decidable (outputs ++ [(step s input).1], (step s input).2) rest
    inferInstanceAs (Decidable (Admits outputs s input ∧ _))

/-- Feeding admitted inputs continues a run. -/
theorem Run.feed {inputs : List ι} {done : List ο × σ} (hr : Run step Admits s₀ done.1 done.2)
    (hf : Feeds step Admits done inputs) :
    Run step Admits s₀ (feed step done inputs).1 (feed step done inputs).2 := by
  induction inputs generalizing done with
  | nil => exact hr
  | cons input rest ih => exact ih (.next input hr hf.1) hf.2

/-- Every input passes a test in the state in which it is taken. -/
def passes (next : σ → ι → σ) (test : σ → ι → Bool) : σ → List ι → Bool
  | _, [] => true
  | s, input :: rest => test s input && passes next test (next s input) rest

/-- What inputs that pass the test keep holds after a sequence of them. -/
theorem foldl_of_passes {next : σ → ι → σ} {test : σ → ι → Bool} (Inv : σ → Prop)
    (hn : ∀ {s input}, Inv s → test s input = true → Inv (next s input)) {s : σ} {inputs : List ι}
    (hs : Inv s) (hp : passes next test s inputs = true) : Inv (inputs.foldl next s) := by
  induction inputs generalizing s with
  | nil => exact hs
  | cons input rest ih =>
    rw [passes, Bool.and_eq_true] at hp
    exact ih (hn hs hp.1) hp.2

end Setu.Base
