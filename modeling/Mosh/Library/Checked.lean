import Mathlib

/-!
# Checked computations

A computation in `Except` that makes one check after the other fails with the first check
that does. These lemmas take such a computation apart: if it succeeds, so did each of its
steps.

* `bind_eq_ok`: a sequence succeeds exactly if its first step and its rest do;
* `check_eq_ok`, `getOr_eq_ok`: when a check and a lookup succeed;
* `orError_eq_ok`, `mapError_eq_ok`: an error that is replaced stays an error;
* `foldlM_invariant`: what every step of a fold keeps, the fold keeps.
-/

namespace Checked

variable {ε ε' α β : Type}

/-- Fail unless a condition holds. -/
def check (e : ε) (b : Bool) : Except ε Unit := if b then .ok () else .error e

/-- A value, or fail without one. -/
def getOr (e : ε) (x : Option α) : Except ε α := x.elim (.error e) .ok

/-- The result, or an error of our own for any other. -/
def orError (e : ε') (x : Except ε α) : Except ε' α := x.mapError fun _ => e

/-- The answer of a fallible query, no if it fails. -/
def holds (x : Except ε Bool) : Bool := x.toOption.getD false

/-- A step that succeeds leaves the rest. -/
theorem ok_bind {a : α} {f : α → Except ε β} : (Except.ok a >>= f) = f a := rfl

theorem bind_eq_ok {x : Except ε α} {f : α → Except ε β} {b : β} :
    (x >>= f) = .ok b ↔ ∃ a, x = .ok a ∧ f a = .ok b := by
  cases x with
  | error e =>
    constructor
    · intro h
      cases h
    · rintro ⟨a, ha, -⟩
      cases ha
  | ok a =>
    constructor
    · exact fun h => ⟨a, rfl, h⟩
    · rintro ⟨a', ha, h⟩
      rwa [Except.ok.inj ha]

@[simp]
theorem check_eq_ok {e : ε} {b : Bool} {u : Unit} : check e b = .ok u ↔ b = true := by
  cases b <;> simp [check]

@[simp]
theorem getOr_eq_ok {e : ε} {x : Option α} {a : α} : getOr e x = .ok a ↔ x = some a := by
  cases x <;> simp [getOr]

theorem mapError_eq_ok {f : ε → ε'} {x : Except ε α} {a : α} :
    x.mapError f = .ok a ↔ x = .ok a := by
  rcases x with e | b <;> simp [Except.mapError]

@[simp]
theorem orError_eq_ok {e : ε'} {x : Except ε α} {a : α} : orError e x = .ok a ↔ x = .ok a := by
  rcases x with e' | b <;> simp [orError, Except.mapError]

@[simp]
theorem holds_eq_true {x : Except ε Bool} : holds x = true ↔ x = .ok true := by
  rcases x with e | b
  · simp [holds, Except.toOption]
  · cases b <;> simp [holds, Except.toOption]

/-- What every step of a checked fold keeps, the fold keeps. -/
theorem foldlM_invariant {σ : Type} {f : σ → α → Except ε σ} {R : σ → Prop} {l : List α}
    {s s' : σ} (h : l.foldlM f s = .ok s')
    (hstep : ∀ a ∈ l, ∀ s s', R s → f s a = .ok s' → R s') (hs : R s) : R s' := by
  induction l generalizing s with
  | nil => exact Except.ok.inj h ▸ hs
  | cons a l ih =>
    rw [List.foldlM_cons, bind_eq_ok] at h
    obtain ⟨t, ha, hl⟩ := h
    exact ih hl (fun b hb => hstep b (.tail _ hb)) (hstep a List.mem_cons_self _ _ hs ha)

end Checked
