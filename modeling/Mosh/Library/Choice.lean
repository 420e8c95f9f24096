import Mathlib

/-!
# Registers that choose

A register holds a value under every key. A new value either takes the place of the
old one or is dropped: the one of greater rank stays, and of two with the same rank
the first or the second, as the rank says (`choose`). An operation that does so on a
set of values is a *choice* (`IsChoice`).

* `IsChoice.idem`, `IsChoice.assoc`: a choice is idempotent and associative;
* `IsChoice.comm_iff`: it is commutative where no two values have the same rank;
* `IsChoice.foldl_absorb_congr`, `IsChoice.converges_iff`: registers that absorb the
  same values, in any order and with any repetitions, end up the same if and only if
  key and rank tell the values apart.
-/

namespace Choice

variable {α ρ K : Type*} [LinearOrder ρ] [DecidableEq K]

/-- The value of greater rank; of two with the same rank, the second one if the rank is
    `late`, and the first one otherwise. -/
def choose (rank : α → ρ) (late : ρ → Bool) (a b : α) : α :=
  if rank a < rank b then b else if rank b < rank a then a else if late (rank a) then b else a

/-- The operation chooses, among the values of a set. -/
def IsChoice (f : α → α → α) (rank : α → ρ) (late : ρ → Bool) (S : Set α) : Prop :=
  ∀ a ∈ S, ∀ b ∈ S, f a b = choose rank late a b

/-- A value that comes to an optional one. -/
def join (f : α → α → α) (old : Option α) (new : α) : Option α :=
  some (match old with
    | none => new
    | some old => f old new)

/-- A register absorbs a value under its key. -/
def absorb (key : α → K) (f : α → α → α) (register : K → Option α) (new : α) : K → Option α :=
  Function.update register (key new) (join f (register (key new)) new)

variable {f : α → α → α} {rank : α → ρ} {late : ρ → Bool} {S : Set α} {a b c : α}

/-- One of the two is chosen. -/
theorem choose_eq_or (rank : α → ρ) (late : ρ → Bool) (a b : α) :
    choose rank late a b = a ∨ choose rank late a b = b := by
  rw [choose]
  split_ifs <;> simp

/-- The rank of the chosen one. -/
theorem rank_choose (rank : α → ρ) (late : ρ → Bool) (a b : α) :
    rank (choose rank late a b) = max (rank a) (rank b) := by
  rw [choose]
  split_ifs with h₁ h₂ h₃
  · rw [max_eq_right h₁.le]
  · rw [max_eq_left h₂.le]
  · rw [max_eq_right (not_lt.1 h₂)]
  · rw [max_eq_left (not_lt.1 h₁)]

theorem choose_of_lt (h : rank a < rank b) : choose rank late a b = b := if_pos h

theorem choose_of_gt (h : rank b < rank a) : choose rank late a b = a := by
  rw [choose, if_neg h.not_gt, if_pos h]

theorem choose_of_eq (h : rank a = rank b) :
    choose rank late a b = if late (rank a) then b else a := by
  rw [choose, if_neg (h ▸ lt_irrefl _), if_neg (h ▸ lt_irrefl _)]

namespace IsChoice

variable (hf : IsChoice f rank late S)

include hf

/-- What is chosen is in the set. -/
theorem mem (ha : a ∈ S) (hb : b ∈ S) : f a b ∈ S := by
  rw [hf a ha b hb]
  obtain h | h := choose_eq_or rank late a b
  · rwa [h]
  · rwa [h]

/-- The rank of what is chosen. -/
theorem rank_eq (ha : a ∈ S) (hb : b ∈ S) : rank (f a b) = max (rank a) (rank b) := by
  rw [hf a ha b hb, rank_choose rank late]

/-- A choice between a value and itself. -/
theorem idem (ha : a ∈ S) : f a a = a := by
  rw [hf a ha a ha]
  exact (choose_eq_or rank late a a).elim id id

/-- Choices can be made in any grouping. -/
theorem assoc (ha : a ∈ S) (hb : b ∈ S) (hc : c ∈ S) : f (f a b) c = f a (f b c) := by
  rw [hf _ (hf.mem ha hb) c hc, hf a ha _ (hf.mem hb hc), hf a ha b hb, hf b hb c hc]
  obtain hab | hab | hab := lt_trichotomy (rank a) (rank b)
  · rw [choose_of_lt hab, choose_of_lt (b := choose rank late b c)]
    rw [rank_choose rank late]
    exact lt_max_of_lt_left hab
  · obtain hbc | hbc | hbc := lt_trichotomy (rank b) (rank c)
    · rw [choose_of_lt hbc, choose_of_lt (a := a) (hab.trans_lt hbc),
        choose_of_lt (by rw [rank_choose rank late, hab, max_self]; exact hbc)]
    · -- all three have the same rank, so the same one of each two is chosen
      rw [choose_of_eq hab, choose_of_eq hbc, ← hab]
      split
      · next hl => rw [choose_of_eq hbc, choose_of_eq (hab.trans hbc), ← hab, if_pos hl, if_pos hl]
      · next hl => rw [choose_of_eq (hab.trans hbc), choose_of_eq hab, if_neg hl, if_neg hl]
    · rw [choose_of_gt hbc, choose_of_gt (a := choose rank late a b)]
      rw [rank_choose rank late, hab, max_self]
      exact hbc
  · obtain hbc | hbc | hbc := lt_trichotomy (rank b) (rank c)
    · rw [choose_of_gt hab, choose_of_lt hbc]
    · rw [choose_of_gt hab, choose_of_gt (b := choose rank late b c)
        (by rw [rank_choose rank late, hbc, max_self, ← hbc]; exact hab), choose_of_gt (hbc ▸ hab)]
    · rw [choose_of_gt hab, choose_of_gt hbc, choose_of_gt hab, choose_of_gt (hbc.trans hab)]

/-- The order of two values matters if and only if the rank does not tell them apart. -/
theorem comm_iff (ha : a ∈ S) (hb : b ∈ S) : f a b = f b a ↔ (rank a = rank b → a = b) := by
  rw [hf a ha b hb, hf b hb a ha]
  obtain h | h | h := lt_trichotomy (rank a) (rank b)
  · rw [choose_of_lt h, choose_of_gt h]
    exact ⟨fun _ he => absurd he h.ne, fun _ => rfl⟩
  · rw [choose_of_eq h, choose_of_eq h.symm, ← h]
    split
    · exact ⟨fun he _ => he.symm, fun he => (he rfl).symm⟩
    · exact ⟨fun he _ => he, fun he => he rfl⟩
  · rw [choose_of_gt h, choose_of_lt h]
    exact ⟨fun _ he => absurd he h.ne', fun _ => rfl⟩

/-- What a register holds after it absorbed values: one of them, of greatest rank. -/
theorem foldl_join (xs : List α) (hxs : ∀ x ∈ xs, x ∈ S) (ha : a ∈ S) :
    ∃ w, xs.foldl (join f) (some a) = some w ∧ w ∈ a :: xs ∧ ∀ x ∈ a :: xs, rank x ≤ rank w := by
  induction xs generalizing a with
  | nil => exact ⟨a, rfl, .head _, fun x hx => (List.mem_singleton.1 hx ▸ le_rfl)⟩
  | cons y ys ih =>
    have hy : y ∈ S := hxs y (.head _)
    obtain ⟨w, hw, hmem, hle⟩ := ih (fun x hx => hxs x (.tail _ hx)) (hf.mem ha hy)
    have hmax : max (rank a) (rank y) ≤ rank w := hf.rank_eq ha hy ▸ hle _ (.head _)
    refine ⟨w, hw, ?_, ?_⟩
    · obtain rfl | hmem := List.mem_cons.1 hmem
      · rw [hf a ha y hy]
        obtain h | h := choose_eq_or rank late a y
        · rw [h]
          exact .head _
        · rw [h]
          exact .tail _ (.head _)
      · exact .tail _ (.tail _ hmem)
    · intro x hx
      obtain rfl | hx := List.mem_cons.1 hx
      · exact (le_max_left _ _).trans hmax
      obtain rfl | hx := List.mem_cons.1 hx
      · exact (le_max_right _ _).trans hmax
      · exact hle x (.tail _ hx)

/-- What stays of an optional value and the values that come to it: nothing if there are none, and
    otherwise one of greatest rank. -/
theorem foldl_join_option {old : Option α} (hold : ∀ a ∈ old, a ∈ S) (xs : List α)
    (hxs : ∀ x ∈ xs, x ∈ S) :
    (old.toList ++ xs = [] ∧ xs.foldl (join f) old = none) ∨
      ∃ w, xs.foldl (join f) old = some w ∧ w ∈ old.toList ++ xs ∧
        ∀ x ∈ old.toList ++ xs, rank x ≤ rank w := by
  cases old with
  | some a => exact .inr (hf.foldl_join xs hxs (hold a rfl))
  | none =>
    cases xs with
    | nil => exact .inl ⟨rfl, rfl⟩
    | cons a xs => exact .inr (hf.foldl_join xs (fun x hx => hxs x (.tail _ hx)) (hxs a (.head _)))

/-- The winner of a list: none of an empty one, and of another one a value of greatest rank. -/
theorem foldl_join_none (xs : List α) (hxs : ∀ x ∈ xs, x ∈ S) :
    (xs = [] ∧ xs.foldl (join f) none = none) ∨
      ∃ w, xs.foldl (join f) none = some w ∧ w ∈ xs ∧ ∀ x ∈ xs, rank x ≤ rank w :=
  hf.foldl_join_option (fun a (h : a ∈ (none : Option α)) => by cases h) xs hxs

end IsChoice

/-- A register absorbs the values of every key on their own. -/
theorem foldl_absorb (key : α → K) (f : α → α → α) (xs : List α) (register : K → Option α)
    (k : K) : xs.foldl (absorb key f) register k =
      (xs.filter (key · = k)).foldl (join f) (register k) := by
  induction xs generalizing register with
  | nil => rfl
  | cons x xs ih =>
    rw [List.foldl_cons, ih]
    by_cases hk : key x = k
    · rw [List.filter_cons_of_pos (by simpa using hk), List.foldl_cons, absorb, hk,
        Function.update_self]
    · rw [List.filter_cons_of_neg (by simpa using hk), absorb,
        Function.update_of_ne (Ne.symm hk)]

/-- A register that absorbs the same values, in any order and with any repetitions, ends up the
    same, if key and rank tell them and what it holds apart. -/
theorem IsChoice.foldl_absorb_congr (hf : IsChoice f rank late S) {key : α → K}
    (hapart : ∀ a ∈ S, ∀ b ∈ S, key a = key b → rank a = rank b → a = b)
    {register : K → Option α} (hreg : ∀ k, ∀ a ∈ register k, a ∈ S ∧ key a = k) {xs ys : List α}
    (hxs : ∀ x ∈ xs, x ∈ S) (hmem : ∀ x, x ∈ xs ↔ x ∈ ys) :
    xs.foldl (absorb key f) register = ys.foldl (absorb key f) register := by
  funext k
  rw [foldl_absorb, foldl_absorb]
  have hmemk : ∀ x, x ∈ (register k).toList ++ xs.filter (key · = k) ↔
      x ∈ (register k).toList ++ ys.filter (key · = k) := by
    intro x
    rw [List.mem_append, List.mem_append, List.mem_filter, List.mem_filter, hmem]
  have hxk : ∀ x ∈ xs.filter (key · = k), x ∈ S := fun x hx => hxs x (List.mem_filter.1 hx).1
  have hyk : ∀ y ∈ ys.filter (key · = k), y ∈ S := fun y hy =>
    hxs y ((hmem y).2 (List.mem_filter.1 hy).1)
  have hreg' : ∀ a ∈ register k, a ∈ S := fun a ha => (hreg k a ha).1
  have hall : ∀ x ∈ (register k).toList ++ xs.filter (key · = k), x ∈ S ∧ key x = k := by
    intro x hx
    obtain hx | hx := List.mem_append.1 hx
    · exact hreg k x (Option.mem_toList.1 hx)
    · exact ⟨hxk x hx, by simpa using (List.mem_filter.1 hx).2⟩
  obtain ⟨hx, hxw⟩ | ⟨v, hxw, hv, hvmax⟩ := hf.foldl_join_option hreg' _ hxk
  · obtain ⟨-, hyw⟩ | ⟨w, -, hw, -⟩ := hf.foldl_join_option hreg' _ hyk
    · rw [hxw, hyw]
    · rw [← hmemk, hx] at hw
      exact absurd hw List.not_mem_nil
  · obtain ⟨hy, -⟩ | ⟨w, hyw, hw, hwmax⟩ := hf.foldl_join_option hreg' _ hyk
    · rw [hmemk, hy] at hv
      exact absurd hv List.not_mem_nil
    · -- both winners have the greatest rank of the key
      have hrank : rank v = rank w :=
        le_antisymm (hwmax v ((hmemk v).1 hv)) (hvmax w ((hmemk w).2 hw))
      obtain ⟨hvS, hvk⟩ := hall v hv
      obtain ⟨hwS, hwk⟩ := hall w ((hmemk w).2 hw)
      rw [hxw, hyw, hapart v hvS w hwS (hvk.trans hwk.symm) hrank]

/-- Registers that absorb the same values, in any order and with any repetitions, end up the
    same, if and only if key and rank tell the values apart. -/
theorem IsChoice.converges_iff (hf : IsChoice f rank late S) (key : α → K) :
    (∀ xs ys : List α, (∀ x ∈ xs, x ∈ S) → (∀ x, x ∈ xs ↔ x ∈ ys) →
      xs.foldl (absorb key f) (fun _ => none) = ys.foldl (absorb key f) fun _ => none) ↔
      ∀ a ∈ S, ∀ b ∈ S, key a = key b → rank a = rank b → a = b := by
  constructor
  · intro h a ha b hb hkey hrank
    have hab := congrFun (h [a, b] [b, a] (by simp [ha, hb]) (by simp [or_comm])) (key a)
    rw [foldl_absorb, foldl_absorb] at hab
    have hcomm : f a b = f b a := by simpa [← hkey, join] using hab
    exact (hf.comm_iff ha hb).1 hcomm hrank
  · intro h xs ys hxs hmem
    exact hf.foldl_absorb_congr h (fun _ _ h => by cases h) hxs hmem

end Choice
