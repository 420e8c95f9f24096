import Mathlib

/-!
# Tables

What an update of a table does to the rows, for tables whose order tells their keys
apart: the row of the key changes, and the others stay.
-/

namespace Table

open Std

variable {α β : Type*} {cmp : α → α → Ordering} [TransCmp cmp] [LawfulEqCmp cmp] [DecidableEq α]

/-- A row is put into a table. -/
theorem getElem?_insert (t : ExtTreeMap α β cmp) (k a : α) (v : β) :
    (t.insert k v)[a]? = if k = a then some v else t[a]? := by
  rw [ExtTreeMap.getElem?_insert]
  exact if_congr LawfulEqCmp.compare_eq_iff_eq rfl rfl

/-- A row of a table is changed. -/
theorem getElem?_alter (t : ExtTreeMap α β cmp) (k a : α) (f : Option β → Option β) :
    (t.alter k f)[a]? = if k = a then f t[k]? else t[a]? := by
  rw [ExtTreeMap.getElem?_alter]
  exact if_congr LawfulEqCmp.compare_eq_iff_eq rfl rfl

/-- A row is taken out of a table. -/
theorem getElem?_erase (t : ExtTreeMap α β cmp) (k a : α) :
    (t.erase k)[a]? = if k = a then none else t[a]? := by
  rw [ExtTreeMap.getElem?_erase]
  exact if_congr LawfulEqCmp.compare_eq_iff_eq rfl rfl

/-- A value is put under several keys. -/
theorem getElem?_foldl_insert {γ : Type*} (f : γ → α) (v : β) (l : List γ) (t : ExtTreeMap α β cmp)
    (a : α) : (l.foldl (fun t x => t.insert (f x) v) t)[a]? =
      if a ∈ l.map f then some v else t[a]? := by
  induction l generalizing t with
  | nil => rfl
  | cons x l ih =>
    rw [List.foldl_cons, ih, getElem?_insert, List.map_cons]
    by_cases hmem : a ∈ l.map f
    · rw [if_pos hmem, if_pos (List.mem_cons_of_mem _ hmem)]
    · rw [if_neg hmem]
      refine if_congr ?_ rfl rfl
      rw [List.mem_cons, or_iff_left hmem, eq_comm]

omit [DecidableEq α] in
/-- A table without one of its rows is smaller. -/
theorem size_erase_lt {t : ExtTreeMap α β cmp} {k : α} {v : β} (h : t[k]? = some v) :
    (t.erase k).size < t.size := by
  have hmem : k ∈ t := ExtTreeMap.mem_iff_isSome_getElem?.2 (by rw [h]; rfl)
  have hpos : t.size ≠ 0 := fun hzero =>
    ExtTreeMap.ne_empty_of_mem hmem (ExtTreeMap.eq_empty_iff_size_eq_zero.2 hzero)
  rw [ExtTreeMap.size_erase, if_pos (ExtTreeMap.contains_iff_mem.2 hmem)]
  exact Nat.sub_lt (Nat.pos_of_ne_zero hpos) Nat.one_pos

/-! ## The rows of a table -/

omit [DecidableEq α] in
theorem nodup_toList (t : ExtTreeMap α β cmp) : t.toList.Nodup := by
  refine ExtTreeMap.ordered_keys_toList.imp fun {a b} h heq => ?_
  have hself : cmp b.1 b.1 = .eq := ReflCmp.compare_self
  rw [heq, hself] at h
  cases h

/-- The rows after one is put into a table are that row and those of the other keys. -/
theorem perm_toList_insert (t : ExtTreeMap α β cmp) (k : α) (v : β) :
    (t.insert k v).toList.Perm ((k, v) :: t.toList.filter fun row => row.1 ≠ k) := by
  have hnew : (k, v) ∉ t.toList.filter fun row => row.1 ≠ k := by simp
  refine (List.perm_ext_iff_of_nodup (nodup_toList _)
    (List.nodup_cons.2 ⟨hnew, (nodup_toList t).filter _⟩)).2 fun row => ?_
  obtain ⟨a, b⟩ := row
  rw [ExtTreeMap.mem_toList_iff_getElem?_eq_some, getElem?_insert, List.mem_cons, List.mem_filter,
    ExtTreeMap.mem_toList_iff_getElem?_eq_some, decide_eq_true_eq, Prod.mk.injEq]
  by_cases h : k = a
  · subst h
    simp [eq_comm]
  · simp [h, Ne.symm h, eq_comm]

/-- A row that is put in again. -/
theorem insert_self {t : ExtTreeMap α β cmp} {k : α} {v : β} (h : t[k]? = some v) :
    t.insert k v = t := by
  refine ExtTreeMap.ext_getElem? fun a => ?_
  rw [getElem?_insert]
  split
  · next heq => rw [← heq, h]
  · rfl

theorem perm_toList_of_some {t : ExtTreeMap α β cmp} {k : α} {v : β} (h : t[k]? = some v) :
    t.toList.Perm ((k, v) :: t.toList.filter fun row => row.1 ≠ k) := by
  have hperm := perm_toList_insert t k v
  rwa [insert_self h] at hperm

theorem filter_toList_of_none {t : ExtTreeMap α β cmp} {k : α} (h : t[k]? = none) :
    (t.toList.filter fun row => row.1 ≠ k) = t.toList := by
  refine List.filter_eq_self.2 fun row hrow => decide_eq_true fun heq => ?_
  have hsome := ExtTreeMap.mem_toList_iff_getElem?_eq_some.1 hrow
  rw [heq, h] at hsome
  cases hsome

/-- A sum over the rows grows by no more than the row that is put in does. -/
theorem sum_toList_insert_le (f : α × β → Nat) {t : ExtTreeMap α β cmp} {k : α} {v : β} {n : Nat}
    (h : f (k, v) ≤ (t[k]?.elim 0 fun w => f (k, w)) + n) :
    ((t.insert k v).toList.map f).sum ≤ (t.toList.map f).sum + n := by
  rw [((perm_toList_insert t k v).map f).sum_eq, List.map_cons, List.sum_cons]
  rcases hk : t[k]? with - | w
  · rw [hk] at h
    rw [filter_toList_of_none hk]
    simp only [Option.elim_none] at h
    omega
  · rw [hk] at h
    rw [((perm_toList_of_some hk).map f).sum_eq, List.map_cons, List.sum_cons]
    simp only [Option.elim_some] at h
    omega

/-- At most one row more is of a kind after one is put in. -/
theorem countP_toList_insert_le (p : α × β → Bool) (t : ExtTreeMap α β cmp) (k : α) (v : β) :
    (t.insert k v).toList.countP p ≤ t.toList.countP p + 1 := by
  rw [(perm_toList_insert t k v).countP_eq, List.countP_cons]
  have hle : (t.toList.filter fun row => row.1 ≠ k).countP p ≤ t.toList.countP p :=
    List.filter_sublist.countP_le
  split <;> omega

/-- A row that is there is changed. -/
theorem alter_map (t : ExtTreeMap α β cmp) (k : α) (f : β → β) :
    t.alter k (Option.map f) = t[k]?.elim t fun v => t.insert k (f v) := by
  refine ExtTreeMap.ext_getElem? fun a => ?_
  rw [getElem?_alter]
  rcases hk : t[k]? with - | v
  · rw [Option.elim_none, Option.map_none]
    split
    · next heq => rw [← heq, hk]
    · rfl
  · rw [Option.elim_some, getElem?_insert, Option.map_some]

end Table
