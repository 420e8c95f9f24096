import Mathlib

/-!
# Lists with keys

Entries of a list are told apart by a key. An entry that comes in takes the place of the one with
its key, or goes to the end; some entries are *fixed*, and keep their place.

* `upsert_of_not_mem`, `upsert_eq_map`: what an entry does to the list;
* `foldl_upsert_append`, `foldl_upsert_eq_map`: what several entries do, with different keys, that
  are all new, or all there;
* `foldl_changeAt`: several entries are changed, each at its key.
-/

namespace Upsert

variable {α κ : Type*} [DecidableEq κ] (key : α → κ) (fixed : α → Bool)

/-- Puts an entry in the place of the first one with its key, unless that is fixed, or at the
    end. -/
def upsert (x : α) : List α → List α
  | [] => [x]
  | y :: l => if key y = key x then (if fixed y then y else x) :: l else y :: upsert x l

variable {key fixed} {x : α} {l xs : List α}

/-- A new entry goes to the end. -/
theorem upsert_of_not_mem (h : key x ∉ l.map key) : upsert key fixed x l = l ++ [x] := by
  induction l with
  | nil => rfl
  | cons y l ih =>
    rw [List.map_cons, List.mem_cons, not_or] at h
    rw [upsert, if_neg (Ne.symm h.1), ih h.2, List.cons_append]

/-- An entry whose key is there only changes the entry with this key. -/
theorem upsert_eq_map (hnodup : (l.map key).Nodup) (h : key x ∈ l.map key) :
    upsert key fixed x l = l.map fun y => if key y = key x ∧ fixed y = false then x else y := by
  induction l with
  | nil => exact absurd h List.not_mem_nil
  | cons y l ih =>
    rw [List.map_cons, List.nodup_cons] at hnodup
    rw [upsert, List.map_cons]
    by_cases hkey : key y = key x
    · -- the entry is found, and no other one has its key
      have hrest : (l.map fun z => if key z = key x ∧ fixed z = false then x else z) = l := by
        refine (List.map_congr_left fun z hz => if_neg fun hz' => hnodup.1 ?_).trans (List.map_id l)
        rw [hkey, ← hz'.1]
        exact List.mem_map_of_mem hz
      rw [if_pos hkey, hrest]
      cases fixed y <;> simp [hkey]
    · rw [if_neg hkey, if_neg fun hy => hkey hy.1]
      rw [List.map_cons, List.mem_cons] at h
      rw [ih hnodup.2 (h.resolve_left (Ne.symm hkey))]

/-- Entries with new and different keys all go to the end. -/
theorem foldl_upsert_append (h : ((l ++ xs).map key).Nodup) :
    xs.foldl (fun l x => upsert key fixed x l) l = l ++ xs := by
  induction xs generalizing l with
  | nil => exact (List.append_nil l).symm
  | cons x xs ih =>
    have hnew : key x ∉ l.map key := by
      rw [List.map_append, List.map_cons] at h
      exact fun hmem => (List.disjoint_of_nodup_append h) hmem List.mem_cons_self
    rw [List.foldl_cons, upsert_of_not_mem hnew]
    have happ : l ++ x :: xs = l ++ [x] ++ xs := by
      rw [List.append_assoc, List.singleton_append]
    rw [happ] at h ⊢
    exact ih h

/-- What is there for a key after entries with different keys have come in. -/
def update (key : α → κ) (fixed : α → Bool) (xs : List α) (y : α) : α :=
  if fixed y then y else (xs.find? fun x => key x = key y).getD y

theorem key_update (y : α) : key (update key fixed xs y) = key y := by
  rw [update]
  split
  · rfl
  · rcases hfind : xs.find? (fun x => key x = key y) with - | x
    · rfl
    · simpa using List.find?_some hfind

theorem update_of_fixed {y : α} (h : fixed y = true) : update key fixed xs y = y := if_pos h

/-- The entry with the key comes in. -/
theorem update_of_mem {y : α} (hxs : (xs.map key).Nodup) (hx : x ∈ xs) (hkey : key x = key y)
    (h : fixed y = false) : update key fixed xs y = x := by
  have hfind : xs.find? (fun z => key z = key y) = some x := by
    rcases hfound : xs.find? (fun z => key z = key y) with - | z
    · exact absurd (decide_eq_true hkey) (List.find?_eq_none.1 hfound x hx)
    · have hz : key z = key y := by simpa using List.find?_some hfound
      rw [List.inj_on_of_nodup_map hxs (List.mem_of_find?_eq_some hfound) hx (hz.trans hkey.symm)]
  rw [update, h, if_neg nofun, hfind, Option.getD_some]

/-- Nothing with the key comes in. -/
theorem update_of_not_mem {y : α} (h : key y ∉ xs.map key) : update key fixed xs y = y := by
  have hfind : xs.find? (fun z => key z = key y) = none := by
    refine List.find?_eq_none.2 fun z hz heq => h ?_
    rw [← of_decide_eq_true heq]
    exact List.mem_map_of_mem hz
  rw [update, hfind]
  split <;> rfl

/-- Entries with different keys that are all there change the entries with these keys. -/
theorem foldl_upsert_eq_map (hnodup : (l.map key).Nodup) (hxs : (xs.map key).Nodup)
    (h : ∀ x ∈ xs, key x ∈ l.map key) :
    xs.foldl (fun l x => upsert key fixed x l) l = l.map (update key fixed xs) := by
  induction xs generalizing l with
  | nil =>
    refine ((List.map_congr_left fun y _ => ?_).trans (List.map_id l)).symm
    rw [update]
    split <;> rfl
  | cons x xs ih =>
    rw [List.map_cons, List.nodup_cons] at hxs
    have hkeys : (upsert key fixed x l).map key = l.map key := by
      rw [upsert_eq_map hnodup (h x List.mem_cons_self), List.map_map]
      refine List.map_congr_left fun y _ => ?_
      rw [Function.comp_apply]
      split
      · next hy => exact hy.1.symm
      · rfl
    rw [List.foldl_cons, ih (by rwa [hkeys]) hxs.2 (fun z hz => by
      rw [hkeys]
      exact h z (List.mem_cons_of_mem _ hz)), upsert_eq_map hnodup (h x List.mem_cons_self),
      List.map_map]
    refine List.map_congr_left fun y _ => ?_
    rw [Function.comp_apply, update.eq_1 key fixed (x :: xs), List.find?_cons]
    by_cases hkey : key y = key x
    · -- no later entry has the key
      have hnone : xs.find? (fun z => key z = key x) = none := by
        refine List.find?_eq_none.2 fun z hz heq => hxs.1 ?_
        rw [← of_decide_eq_true heq]
        exact List.mem_map_of_mem hz
      cases hfixed : fixed y with
      | true => rw [if_neg (by simp), update, hfixed, if_pos rfl, if_pos rfl]
      | false =>
        rw [if_pos ⟨hkey, rfl⟩, update, hnone, hkey, decide_eq_true rfl]
        simp
    · rw [if_neg fun hy => hkey hy.1, decide_eq_false (Ne.symm hkey), update]

/-- The entries with a key are changed. -/
def changeAt (key : α → κ) (k : κ) (f : α → α) (l : List α) : List α :=
  l.map fun y => if key y = k then f y else y

/-- Several entries are changed, each once. -/
theorem foldl_changeAt {f : α → α} (hf : ∀ y, key (f y) = key y) {ks : List κ} (hks : ks.Nodup) :
    ks.foldl (fun l k => changeAt key k f l) l = l.map fun y => if key y ∈ ks then f y else y := by
  induction ks generalizing l with
  | nil => exact (List.map_id l).symm.trans (List.map_congr_left fun y _ => (if_neg List.not_mem_nil).symm)
  | cons k ks ih =>
    rw [List.nodup_cons] at hks
    rw [List.foldl_cons, ih hks.2, changeAt, List.map_map]
    refine List.map_congr_left fun y _ => ?_
    rw [Function.comp_apply]
    by_cases hk : key y = k
    · rw [if_pos hk, hf, hk, if_neg hks.1, if_pos List.mem_cons_self]
    · rw [if_neg hk]
      exact if_congr (by rw [List.mem_cons, or_iff_right hk]) rfl rfl

end Upsert
