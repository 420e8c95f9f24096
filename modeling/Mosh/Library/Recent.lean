import Mathlib

/-!
# The most recent entries

A list that holds a bounded number of entries, each once, in the order in which they came: a new
entry is put at its end, and a full list loses its first entry for it.

* `nodup_push`, `length_push_le`: no entry is there twice, and the bound is kept;
* `Holds`: an entry is there, and all that came after it are among some given ones;
* `Holds.push`: an entry stays as long as fewer others than the bound come after it.
-/

namespace Recent

variable {α : Type*} [DecidableEq α] {n : Nat} {x c : α} {l : List α} {F G : Finset α}

/-- An entry comes to a list of at most `n`. -/
def push (n : Nat) (x : α) (l : List α) : List α :=
  if x ∈ l then l else (if l.length = n then l.tail else l) ++ [x]

theorem push_of_mem (h : x ∈ l) : push n x l = l := if_pos h

theorem push_of_not_mem (h : x ∉ l) :
    push n x l = (if l.length = n then l.tail else l) ++ [x] := if_neg h

/-- The entry that comes is there. -/
theorem mem_push_self : x ∈ push n x l := by
  by_cases h : x ∈ l
  · rwa [push_of_mem h]
  · rw [push_of_not_mem h]
    exact List.mem_append_right _ (List.mem_singleton.2 rfl)

/-- What is there was there, or has just come. -/
theorem mem_of_mem_push (h : c ∈ push n x l) : c ∈ l ∨ c = x := by
  by_cases hx : x ∈ l
  · rw [push_of_mem hx] at h
    exact .inl h
  · rw [push_of_not_mem hx] at h
    rcases List.mem_append.1 h with h | h
    · left
      split at h
      · exact List.mem_of_mem_tail h
      · exact h
    · exact .inr (List.mem_singleton.1 h)

theorem nodup_push (h : l.Nodup) : (push n x l).Nodup := by
  by_cases hx : x ∈ l
  · rwa [push_of_mem hx]
  · rw [push_of_not_mem hx]
    split
    · refine List.Nodup.append (h.sublist (List.tail_sublist l)) (List.nodup_singleton x) ?_
      exact List.disjoint_singleton.2 fun hmem => hx (List.mem_of_mem_tail hmem)
    · exact List.Nodup.append h (List.nodup_singleton x) (List.disjoint_singleton.2 hx)

theorem length_push_le (hn : 0 < n) (h : l.length ≤ n) : (push n x l).length ≤ n := by
  by_cases hx : x ∈ l
  · rwa [push_of_mem hx]
  · rw [push_of_not_mem hx, List.length_append, List.length_singleton]
    split
    · rw [List.length_tail]
      omega
    · omega

/-- The entry is there, and all that came after it are in `F`. -/
def Holds (F : Finset α) (c : α) (l : List α) : Prop :=
  ∃ before after, l = before ++ c :: after ∧ ∀ x ∈ after, x ∈ F

namespace Holds

theorem mem (h : Holds F c l) : c ∈ l := by
  obtain ⟨before, after, rfl, -⟩ := h
  exact List.mem_append_right _ List.mem_cons_self

theorem mono (h : Holds F c l) (hFG : F ⊆ G) : Holds G c l := by
  obtain ⟨before, after, rfl, hafter⟩ := h
  exact ⟨before, after, rfl, fun x hx => hFG (hafter x hx)⟩

/-- A new entry is the last one. -/
theorem of_push (h : c ∉ l) : Holds F c (push n c l) := by
  rw [push_of_not_mem h]
  exact ⟨_, [], rfl, fun x hx => absurd hx List.not_mem_nil⟩

/-- An entry stays as long as fewer others than the bound come after it. -/
theorem push (h : Holds F c l) (hnodup : l.Nodup) (hx : x ≠ c → x ∈ F) (hF : F.card < n) :
    Holds F c (push n x l) := by
  by_cases hmem : x ∈ l
  · rwa [push_of_mem hmem]
  obtain ⟨before, after, rfl, hafter⟩ := h
  have hxF : x ∈ F := hx fun he => hmem (he ▸ List.mem_append_right _ List.mem_cons_self)
  rw [push_of_not_mem hmem]
  have hgrow : ∀ y ∈ after ++ [x], y ∈ F := by
    intro y hy
    rcases List.mem_append.1 hy with hy | hy
    · exact hafter y hy
    · rwa [List.mem_singleton.1 hy]
  split
  · next hfull =>
    cases before with
    | cons first rest => exact ⟨rest, after ++ [x], by simp, hgrow⟩
    | nil =>
      -- the entry is the first one, and all the others, with the new one, are in `F`
      exfalso
      have hnodup' : (after ++ [x]).Nodup := by
        refine List.Nodup.append (List.nodup_cons.1 hnodup).2 (List.nodup_singleton x) ?_
        exact List.disjoint_singleton.2 fun h => hmem (List.mem_cons_of_mem c h)
      have hle : (after ++ [x]).toFinset.card ≤ F.card :=
        Finset.card_le_card fun y hy => hgrow y (List.mem_toFinset.1 hy)
      rw [List.toFinset_card_of_nodup hnodup', List.length_append, List.length_singleton] at hle
      rw [List.nil_append, List.length_cons] at hfull
      omega
  · exact ⟨before, after ++ [x], by simp, hgrow⟩

end Holds

end Recent
