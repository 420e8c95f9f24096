import Mathlib.Data.List.DropRight
import Mathlib.Data.List.TakeWhile

/-!
# Trimming lists

The elements that satisfy a predicate are taken from both ends of a list.

* `exists_strip`: what is taken away;
* `bare_strip`: what is left starts and ends with other elements;
* `strip_eq`: this determines what is left;
* `strip_around`: a list around a bare core is trimmed on either side of it;
* `strip_map`: trimming and mapping.
-/

namespace Trim

variable {α β : Type*} (p : α → Bool)

/-- The list without the elements at its ends that satisfy the predicate. -/
def strip (l : List α) : List α := (l.dropWhile p).rdropWhile p

/-- The list neither starts nor ends with an element that satisfies the predicate. -/
def Bare (l : List α) : Prop :=
  (∀ x, l.head? = some x → p x = false) ∧ ∀ x, l.getLast? = some x → p x = false

variable {p} {a b core l : List α}

/-- A list is what is taken from its ends, and what is left. -/
theorem exists_strip (p : α → Bool) (l : List α) : ∃ a b, l = a ++ strip p l ++ b ∧
    (∀ x ∈ a, p x = true) ∧ ∀ x ∈ b, p x = true := by
  refine ⟨l.takeWhile p, (l.dropWhile p).rtakeWhile p, ?_, fun x hx => List.mem_takeWhile_imp hx,
    fun x hx => List.mem_rtakeWhile_imp hx⟩
  rw [strip, List.append_assoc, List.rdropWhile_append_rtakeWhile,
    List.takeWhile_append_dropWhile]

theorem dropWhile_cons_of_bare {x : α} {y : List α} (hx : p x = false) (ha : ∀ x ∈ a, p x = true) :
    (a ++ x :: y).dropWhile p = x :: y := by
  rw [List.dropWhile_append_of_pos ha, List.dropWhile_cons_of_neg (by rw [hx]; nofun)]

/-- A list around a core that is bare is trimmed on either side of it. -/
theorem strip_around (hcore : Bare p core) (hne : core ≠ []) (a b : List α) :
    strip p (a ++ core ++ b) = a.dropWhile p ++ core ++ b.rdropWhile p := by
  have hdrop : ∀ (p : α → Bool) (core a b : List α), core ≠ [] →
      (∀ x, core.head? = some x → p x = false) →
      (a ++ (core ++ b)).dropWhile p = a.dropWhile p ++ (core ++ b) := by
    intro p core a b hne hhead
    rcases core with - | ⟨x, core⟩
    · exact absurd rfl hne
    · have hx := hhead x rfl
      induction a with
      | nil =>
        rw [List.nil_append, List.dropWhile_nil, List.nil_append, List.cons_append,
          List.dropWhile_cons_of_neg (by rw [hx]; nofun)]
      | cons y a ih =>
        rw [List.cons_append, List.dropWhile_cons, List.dropWhile_cons]
        split
        · exact ih
        · rfl
  -- the right side is the left side of the reversed list
  rw [strip, List.append_assoc, hdrop p core a b hne hcore.1, List.rdropWhile,
    List.reverse_append, List.reverse_append, List.append_assoc,
    hdrop p core.reverse b.reverse (a.dropWhile p).reverse (by simpa using hne)
      (by rw [List.head?_reverse]; exact hcore.2)]
  simp [List.rdropWhile]

/-- What is left of a list starts and ends with other elements. -/
theorem bare_strip (p : α → Bool) (l : List α) : Bare p (strip p l) := by
  constructor
  · intro x hx
    obtain ⟨b, hb⟩ : strip p l <+: l.dropWhile p := List.rdropWhile_prefix p _
    have hhead : (l.dropWhile p).head? = some x := by
      rw [← hb, List.head?_append, hx]
      rfl
    have hnot := List.head?_dropWhile_not p l
    rw [hhead] at hnot
    simpa using hnot
  · intro x hx
    have hlast := List.head?_dropWhile_not p (l.dropWhile p).reverse
    rw [strip, List.rdropWhile, List.getLast?_reverse] at hx
    rw [hx] at hlast
    simpa using hlast

theorem strip_eq_nil_iff : strip p l = [] ↔ ∀ x ∈ l, p x = true := by
  constructor
  · intro h x hx
    obtain ⟨a, b, heq, ha, hb⟩ := exists_strip p l
    rw [h, List.append_nil] at heq
    rw [heq, List.mem_append] at hx
    exact hx.elim (ha x) (hb x)
  · intro h
    rw [strip, List.dropWhile_eq_nil_iff.2 h, List.rdropWhile_nil]

/-- What is left of a list is determined by its ends. -/
theorem strip_eq (ha : ∀ x ∈ a, p x = true) (hb : ∀ x ∈ b, p x = true) (hcore : Bare p core) :
    strip p (a ++ core ++ b) = core := by
  rcases eq_or_ne core [] with rfl | hne
  · rw [strip_eq_nil_iff]
    intro x hx
    rw [List.append_nil, List.mem_append] at hx
    exact hx.elim (ha x) (hb x)
  · rw [strip_around hcore hne, List.dropWhile_eq_nil_iff.2 ha,
      List.rdropWhile_eq_nil_iff.2 hb, List.nil_append, List.append_nil]

theorem strip_of_bare (hcore : Bare p core) : strip p core = core := by
  have h := strip_eq (a := []) (b := []) nofun nofun hcore
  rwa [List.nil_append, List.append_nil] at h

theorem length_strip_le (p : α → Bool) (l : List α) : (strip p l).length ≤ l.length :=
  (List.rdropWhile_prefix p _).length_le.trans (List.dropWhile_suffix p).length_le

/-- A list of which nothing is taken away is bare. -/
theorem bare_of_length_le (h : l.length ≤ (strip p l).length) : strip p l = l ∧ Bare p l := by
  have hsame : strip p l = l := by
    have hsuffix := List.dropWhile_suffix (l := l) p
    have hpre : strip p l <+: l.dropWhile p := List.rdropWhile_prefix p _
    have hdrop := hsuffix.eq_of_length_le (h.trans hpre.length_le)
    exact (hpre.eq_of_length_le (hsuffix.length_le.trans h)).trans hdrop
  exact ⟨hsame, hsame ▸ bare_strip p l⟩

/-- Elements are taken from a mapped list as from the list. -/
theorem strip_map (f : β → α) (p : α → Bool) (l : List β) :
    strip p (l.map f) = (strip (p ∘ f) l).map f := by
  rw [strip, strip, List.dropWhile_map, List.rdropWhile, List.rdropWhile, ← List.map_reverse,
    List.dropWhile_map, List.map_reverse]

theorem bare_singleton {x : α} (h : p x = false) : Bare p [x] :=
  ⟨fun _ hy => Option.some.inj hy ▸ h, fun _ hy => Option.some.inj hy ▸ h⟩

end Trim
