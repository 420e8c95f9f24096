import Mosh.Library.Table

/-!
# Bounded tables

A table may hold rows of a kind of which only the newest are worth keeping. Of these it is
allowed a number (`evict`): the oldest of the others are taken out, and no other row is.

* `getElem?_evict`: which rows are left;
* `evict_eq_of_le`: nothing is taken out of a table that has room;
* `countP_evict_le`: how many rows of the kind are left at most.
-/

namespace Eviction

open Std

variable {α β : Type*} {cmp : α → α → Ordering} [TransCmp cmp] [LawfulEqCmp cmp] [DecidableEq α]
variable (kind : α × β → Bool) (age : β → Nat) (room : Nat) (t : ExtTreeMap α β cmp)

/-- The first of two rows is older, or as old with a key that is no greater. -/
def older (cmp : α → α → Ordering) (a b : Nat × α) : Prop :=
  ((compare a.1 b.1).then (cmp a.2 b.2)).isLE = true

omit [TransCmp cmp] [LawfulEqCmp cmp] [DecidableEq α] in
instance : DecidableRel (older cmp) := fun _ _ => inferInstanceAs (Decidable (_ = true))

/-- The rows of the kind by their ages and keys, the oldest first. -/
def ranked : List (Nat × α) :=
  ((t.toList.filter kind).map fun row => (age row.2, row.1)).insertionSort (older cmp)

/-- The keys of the oldest rows of the kind, those for which there is no room. -/
def excess : List α :=
  ((ranked kind age t).take ((ranked kind age t).length - room)).map (·.2)

/-- The table without the rows for which there is no room. -/
def evict : ExtTreeMap α β cmp := (excess kind age room t).foldl (fun t k => t.erase k) t

variable {kind age room t}

omit [DecidableEq α] in
/-- A row is ranked when it is of the kind. -/
theorem mem_ranked {key : α} : key ∈ (ranked kind age t).map (·.2) ↔
    ∃ value, t[key]? = some value ∧ kind (key, value) = true := by
  simp only [ranked, List.mem_map, List.mem_insertionSort, List.mem_filter]
  constructor
  · rintro ⟨_, ⟨⟨k, value⟩, ⟨hrow, hkind⟩, rfl⟩, rfl⟩
    exact ⟨value, ExtTreeMap.mem_toList_iff_getElem?_eq_some.1 hrow, hkind⟩
  · rintro ⟨value, hvalue, hkind⟩
    exact ⟨_, ⟨(key, value), ⟨ExtTreeMap.mem_toList_iff_getElem?_eq_some.2 hvalue, hkind⟩, rfl⟩,
      rfl⟩

omit [DecidableEq α] in
/-- Only rows of the kind are taken out. -/
theorem exists_of_mem_excess {key : α} (h : key ∈ excess kind age room t) :
    ∃ value, t[key]? = some value ∧ kind (key, value) = true := by
  obtain ⟨row, hrow, rfl⟩ := List.mem_map.1 h
  exact mem_ranked.1 (List.mem_map_of_mem (List.mem_of_mem_take hrow))

theorem getElem?_foldl_erase (keys : List α) (t : ExtTreeMap α β cmp) (a : α) :
    (keys.foldl (fun t k => t.erase k) t)[a]? = if a ∈ keys then none else t[a]? := by
  induction keys generalizing t with
  | nil => rfl
  | cons key keys ih =>
    rw [List.foldl_cons, ih, Table.getElem?_erase]
    by_cases hmem : a ∈ keys
    · rw [if_pos hmem, if_pos (List.mem_cons_of_mem _ hmem)]
    · rw [if_neg hmem]
      refine if_congr ?_ rfl rfl
      rw [List.mem_cons, or_iff_left hmem, eq_comm]

/-- The rows that are left. -/
theorem getElem?_evict (key : α) : (evict kind age room t)[key]? =
    if key ∈ excess kind age room t then none else t[key]? :=
  getElem?_foldl_erase _ t key

/-- A row that is left was there before. -/
theorem getElem?_of_evict {key : α} {value : β} (h : (evict kind age room t)[key]? = some value) :
    t[key]? = some value := by
  rw [getElem?_evict] at h
  split at h
  · cases h
  · exact h

/-- A row that is not of the kind is left. -/
theorem getElem?_evict_of_other {key : α} {value : β} (h : t[key]? = some value)
    (hkind : kind (key, value) = false) : (evict kind age room t)[key]? = some value := by
  rw [getElem?_evict, if_neg, h]
  intro hmem
  obtain ⟨other, hother, htrue⟩ := exists_of_mem_excess hmem
  rw [h, Option.some.injEq] at hother
  rw [← hother, hkind] at htrue
  cases htrue

omit [LawfulEqCmp cmp] [DecidableEq α] in
/-- A table that has room for all rows of the kind stays as it is. -/
theorem evict_eq_of_le (h : t.toList.countP kind ≤ room) : evict kind age room t = t := by
  have hlength : (ranked kind age t).length - room = 0 := by
    rw [ranked, List.length_insertionSort, List.length_map, ← List.countP_eq_length_filter]
    omega
  rw [evict, excess, hlength, List.take_zero, List.map_nil, List.foldl_nil]

/-- Fewer rows are of a kind after one is taken out. -/
theorem countP_erase_le (p : α × β → Bool) (t : ExtTreeMap α β cmp) (k : α) :
    (t.erase k).toList.countP p ≤ t.toList.countP p := by
  refine (List.subperm_of_subset (Table.nodup_toList _) fun row hrow => ?_).countP_le p
  have hleft := ExtTreeMap.mem_toList_iff_getElem?_eq_some.1 hrow
  rw [Table.getElem?_erase] at hleft
  split at hleft
  · cases hleft
  · exact ExtTreeMap.mem_toList_iff_getElem?_eq_some.2 hleft

omit [DecidableEq α] in
/-- The rows of the kind that are left are as many as there is room for at most: their keys are
    among those that come after the oldest. -/
theorem countP_evict_le : (evict kind age room t).toList.countP kind ≤ room := by
  classical
  have hnodup : (((evict kind age room t).toList.filter kind).map (·.1)).Nodup := by
    rw [List.nodup_map_iff_inj_on ((Table.nodup_toList _).filter _)]
    rintro ⟨a, v⟩ hv ⟨b, w⟩ hw (rfl : a = b)
    have hv' := ExtTreeMap.mem_toList_iff_getElem?_eq_some.1 (List.mem_of_mem_filter hv)
    have hw' := ExtTreeMap.mem_toList_iff_getElem?_eq_some.1 (List.mem_of_mem_filter hw)
    rw [Option.some.inj (hv'.symm.trans hw')]
  have hsubset : (((evict kind age room t).toList.filter kind).map (·.1)) ⊆
      ((ranked kind age t).drop ((ranked kind age t).length - room)).map (·.2) := by
    intro key hkey
    obtain ⟨⟨key, value⟩, hrow, rfl⟩ := List.mem_map.1 hkey
    obtain ⟨hrow, hkind⟩ := List.mem_filter.1 hrow
    have hleft := ExtTreeMap.mem_toList_iff_getElem?_eq_some.1 hrow
    -- The row is ranked, and not among the first, which are gone.
    have hranked : key ∈ (ranked kind age t).map (·.2) :=
      mem_ranked.2 ⟨value, getElem?_of_evict hleft, hkind⟩
    rw [← List.take_append_drop ((ranked kind age t).length - room) (ranked kind age t),
      List.map_append, List.mem_append] at hranked
    refine hranked.resolve_left fun (hfirst : key ∈ excess kind age room t) => ?_
    rw [getElem?_evict, if_pos hfirst] at hleft
    cases hleft
  have hle := (List.subperm_of_subset hnodup hsubset).length_le
  rw [List.length_map, List.length_map, List.length_drop] at hle
  rw [List.countP_eq_length_filter]
  omega

end Eviction
