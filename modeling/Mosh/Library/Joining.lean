import Mathlib

/-!
# Joining intervals

Half-open intervals are sorted and joined in one pass: an interval that starts where the joined part
ends, or before, extends it.

* `join`: the pass;
* `Joined`: what the joined part is;
* `joined_join`: the pass over sorted intervals finds it;
* `Joined.unique`: it is determined by the set of the intervals.
-/

namespace Joining

variable {α : Type*} [LinearOrder α]

/-- The point is in the interval. -/
def Contains (p : α × α) (t : α) : Prop := p.1 ≤ t ∧ t < p.2

instance (p : α × α) (t : α) : Decidable (Contains p t) := inferInstanceAs (Decidable (_ ∧ _))

/-- An interval that starts in the joined part or at its end extends it. -/
def extend (current : α) (p : α × α) : α := if p.1 ≤ current then max current p.2 else current

/-- The joined part after a pass. -/
def join (current : α) (l : List (α × α)) : α := l.foldl extend current

/-- Everything from a point to another one is covered, and no interval goes on from there. -/
structure Joined (l : List (α × α)) (now u : α) : Prop where
  now_lt : now < u
  covered : ∀ t, now ≤ t → t < u → ∃ p ∈ l, Contains p t
  closed : ∀ p ∈ l, p.1 ≤ u → p.2 ≤ u

variable {now current u : α} {l l' : List (α × α)}

theorem le_extend (current : α) (p : α × α) : current ≤ extend current p := by
  rw [extend]
  split
  · exact le_max_left _ _
  · exact le_rfl

theorem le_join (current : α) (l : List (α × α)) : current ≤ join current l := by
  induction l generalizing current with
  | nil => exact le_rfl
  | cons p l ih => exact (le_extend current p).trans (ih _)

/-- Intervals that start later do not extend the joined part. -/
theorem join_of_lt (h : ∀ p ∈ l, current < p.1) : join current l = current := by
  induction l with
  | nil => rfl
  | cons p l ih =>
    have hp : extend current p = current := if_neg (h p List.mem_cons_self).not_ge
    rw [join, List.foldl_cons, hp]
    exact ih fun q hq => h q (.tail _ hq)

/-- What a pass adds is covered. -/
theorem covered_join {t : α} (hlow : current ≤ t) (hhigh : t < join current l) :
    ∃ p ∈ l, Contains p t := by
  induction l generalizing current with
  | nil => exact absurd hhigh hlow.not_gt
  | cons p l ih =>
    rcases lt_or_ge t (extend current p) with hlt | hge
    · -- the first interval reaches beyond the point
      refine ⟨p, List.mem_cons_self, ?_⟩
      rw [extend] at hlt
      split at hlt
      · next hle => exact ⟨hle.trans hlow, (lt_max_iff.1 hlt).resolve_left hlow.not_gt⟩
      · exact absurd hlt hlow.not_gt
    · obtain ⟨q, hq, hcontains⟩ := ih hge hhigh
      exact ⟨q, .tail _ hq, hcontains⟩

/-- No interval goes on where a pass over sorted intervals ends. -/
theorem closed_join (hsorted : l.Pairwise fun p q => p.1 ≤ q.1) :
    ∀ p ∈ l, p.1 ≤ join current l → p.2 ≤ join current l := by
  induction l generalizing current with
  | nil => nofun
  | cons p l ih =>
    obtain ⟨hfirst, hrest⟩ := List.pairwise_cons.1 hsorted
    intro q hq hle
    rcases List.mem_cons.1 hq with rfl | hq
    · rcases le_or_gt q.1 current with hstart | hstart
      · have hextend : extend current q = max current q.2 := if_pos hstart
        have hend : q.2 ≤ extend current q := hextend ▸ le_max_right _ _
        exact hend.trans (le_join _ l)
      · -- neither this interval nor a later one extends the joined part
        have hnone : join current (q :: l) = current := join_of_lt fun p hp =>
          (List.mem_cons.1 hp).elim (fun heq => heq ▸ hstart) fun hp =>
            hstart.trans_le (hfirst p hp)
        rw [hnone] at hle
        exact absurd hle hstart.not_ge
    · exact ih hrest q hq hle

/-- A pass over sorted intervals, from the end of one that contains the point, joins them. -/
theorem joined_join (hsorted : l.Pairwise fun p q => p.1 ≤ q.1) {p : α × α} (hp : p ∈ l)
    (hnow : Contains p now) : Joined l now (join p.2 l) where
  now_lt := hnow.2.trans_le (le_join _ _)
  covered t hlow hhigh := by
    rcases lt_or_ge t p.2 with hlt | hge
    · exact ⟨p, hp, hnow.1.trans hlow, hlt⟩
    · exact covered_join hge hhigh
  closed := closed_join hsorted

/-- The joined part is determined by the set of the intervals. -/
theorem Joined.unique (h : Joined l now u) {u' : α} (h' : Joined l' now u')
    (hsame : ∀ p, p ∈ l ↔ p ∈ l') : u = u' := by
  refine le_antisymm (le_of_not_gt fun hlt => ?_) (le_of_not_gt fun hlt => ?_)
  · obtain ⟨p, hp, hle, hend⟩ := h.covered u' h'.now_lt.le hlt
    exact absurd hend (h'.closed p ((hsame p).1 hp) hle).not_gt
  · obtain ⟨p, hp, hle, hend⟩ := h'.covered u h.now_lt.le hlt
    exact absurd hend (h.closed p ((hsame p).2 hp) hle).not_gt

end Joining
