import Mathlib

/-!
# Runs of a system with inputs

A system takes an input in every step and moves from a state to a state, as
its step function says. A *run* (`Runs`) is a finite sequence of steps, every
one of them taken in a state in which a given guard admits its input: the
guard is how a property of runs says which inputs it speaks about.

* `Runs.invariant`: what holds at the start and is kept by every guarded step
  holds at the end of every run;
* `Runs.trans`, `Runs.single`: runs compose, and a guarded step is a run.
-/

namespace Run

variable {S L : Type*}

/-- The runs of the system `step` whose inputs are all admitted by `guard`: from
    a state, along the inputs, to a state. -/
inductive Runs (step : S → L → S) (guard : S → L → Prop) : S → List L → S → Prop
  | nil (s : S) : Runs step guard s [] s
  | cons {s t : S} {l : L} {ls : List L} :
      guard s l → Runs step guard (step s l) ls t → Runs step guard s (l :: ls) t

namespace Runs

variable {step : S → L → S} {guard : S → L → Prop} {s t u : S} {l : L} {ls ms : List L}

/-- A guarded step is a run. -/
theorem single (h : guard s l) : Runs step guard s [l] (step s l) := .cons h (.nil _)

/-- Runs compose. -/
theorem trans (h₁ : Runs step guard s ls t) (h₂ : Runs step guard t ms u) :
    Runs step guard s (ls ++ ms) u := by
  induction h₁ with
  | nil => exact h₂
  | cons hl _ ih => exact .cons hl (ih h₂)

/-- A run ends where the fold of the step function over its inputs does. -/
theorem eq_foldl (h : Runs step guard s ls t) : t = ls.foldl step s := by
  induction h with
  | nil => rfl
  | cons _ _ ih => rw [ih, List.foldl_cons]

/-- Where all inputs are admitted, every sequence of them is a run. -/
theorem foldl (s : S) (ls : List L) : Runs step (fun _ _ => True) s ls (ls.foldl step s) := by
  induction ls generalizing s with
  | nil => exact .nil s
  | cons l ls ih => exact .cons trivial (ih (step s l))

/-- What every guarded step keeps, every run keeps. -/
theorem invariant {P : S → Prop} (h : Runs step guard s ls t)
    (hstep : ∀ s l, guard s l → P s → P (step s l)) (hs : P s) : P t := by
  induction h with
  | nil => exact hs
  | cons hl _ ih => exact ih (hstep _ _ hl hs)

/-- A weaker guard admits more runs. -/
theorem mono {guard' : S → L → Prop} (hg : ∀ s l, guard s l → guard' s l)
    (h : Runs step guard s ls t) : Runs step guard' s ls t := by
  induction h with
  | nil => exact .nil _
  | cons hl _ ih => exact .cons (hg _ _ hl) ih

end Runs

end Run
