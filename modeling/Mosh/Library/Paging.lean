import Mathlib

/-!
# Pages of an ordered list

A list in the order of its keys is read page by page. A page takes as many items as are allowed on
it and as there is room for, but one at least (`fill`), and its cursor is the key of its last item,
when there are more. The items of the next page come after the cursor (`pageAfter`).

* `Walk`: the pages that are read from a cursor on, up to the one without a next cursor;
* `Walk.unique`: there is one such sequence at most;
* `exists_walk`: there is one, its pages are the items after the cursor in their order, and each of
  them fits (`Fits`).
-/

namespace Paging

variable {α κ ε : Type*}

/-- A page, with the cursor it was asked for and the cursor of the next one. -/
structure Window (α κ : Type*) where
  after : Option κ
  items : List α
  next : Option κ

section Fill

variable (size : α → Nat) (count room : Nat)

/-- The items that go onto a page that holds `n` items and some bytes, and those that do not. -/
def fill (n bytes : Nat) : List α → List α × List α
  | [] => ([], [])
  | x :: xs =>
    if n ≠ 0 ∧ (count ≤ n ∨ room < bytes + size x) then ([], x :: xs)
    else
      let (page, rest) := fill (n + 1) (bytes + size x) xs
      (x :: page, rest)

/-- No item is lost. -/
theorem fill_append (n bytes : Nat) (xs : List α) :
    (fill size count room n bytes xs).1 ++ (fill size count room n bytes xs).2 = xs := by
  induction xs generalizing n bytes with
  | nil => rfl
  | cons x xs ih =>
    rw [fill]
    split
    · rfl
    · exact congrArg (x :: ·) (ih (n + 1) (bytes + size x))

/-- The first item goes onto a page that is empty. -/
theorem fill_ne_nil {xs : List α} (h : xs ≠ []) : (fill size count room 0 0 xs).1 ≠ [] := by
  cases xs with
  | nil => exact absurd rfl h
  | cons x xs =>
    rw [fill, if_neg fun hfull => hfull.1 rfl]
    exact List.cons_ne_nil _ _

theorem length_fill_le {n : Nat} (bytes : Nat) (xs : List α) (hn : n ≤ count) (hcount : 0 < count) :
    n + (fill size count room n bytes xs).1.length ≤ count := by
  induction xs generalizing n bytes with
  | nil => simpa [fill] using hn
  | cons x xs ih =>
    rw [fill]
    split
    · simpa using hn
    · next hroom =>
      have hlt : n + 1 ≤ count := by
        rcases Nat.eq_zero_or_pos n with rfl | hpos
        · exact hcount
        · by_contra hfull
          exact hroom ⟨hpos.ne', .inl (not_lt.1 hfull)⟩
      have hle := ih (bytes + size x) hlt
      simp only [List.length_cons]
      omega

end Fill

/-! ## Cursors -/

variable [LinearOrder κ] (key : α → κ)

/-- The items after a cursor. -/
def itemsAfter (items : List α) (after : Option κ) : List α :=
  items.filter fun x => after.all (· < key x)

/-- The page after a cursor. -/
def pageAfter (size : α → Nat) (count room : Nat) (items : List α) (after : Option κ) :
    List α × Option κ :=
  let (page, rest) := fill size count room 0 0 (itemsAfter key items after)
  (page, if rest.isEmpty then none else page.getLast?.map key)

/-- The pages that are read from a cursor on. -/
inductive Walk (page : Option κ → Except ε (List α × Option κ)) :
    Option κ → List (Window α κ) → Prop
  | last {after : Option κ} {items : List α} : page after = .ok (items, none) →
      Walk page after [⟨after, items, none⟩]
  | more {after : Option κ} {items : List α} {next : κ} {windows : List (Window α κ)} :
      page after = .ok (items, some next) → Walk page (some next) windows →
        Walk page after (⟨after, items, some next⟩ :: windows)

/-- A window is a page of the items: they come after its cursor, in the order of their keys, as
    many as are allowed, and the next cursor is the last key if there are more. -/
structure Fits (count : Nat) (items : List α) (w : Window α κ) : Prop where
  length_le : w.items.length ≤ count
  ordered : w.items.Pairwise (key · < key ·)
  after_lt : ∀ x ∈ w.items, w.after.all (· < key x) = true
  next_eq : w.items = itemsAfter key items w.after ∧ w.next = none ∨
    w.items ≠ [] ∧ w.items ≠ itemsAfter key items w.after ∧ w.next = w.items.getLast?.map key

variable {key} {page : Option κ → Except ε (List α × Option κ)} {items : List α}

omit [LinearOrder κ] in
/-- Reading from a cursor has one outcome. -/
theorem Walk.unique {after : Option κ} {windows windows' : List (Window α κ)}
    (h : Walk page after windows) (h' : Walk page after windows') : windows = windows' := by
  induction h generalizing windows' with
  | last hpage =>
    cases h' with
    | last hpage' =>
      obtain ⟨rfl, _⟩ := Prod.mk.inj (Except.ok.inj (hpage.symm.trans hpage'))
      rfl
    | more hpage' _ => cases (Prod.mk.inj (Except.ok.inj (hpage.symm.trans hpage'))).2
  | more hpage _ ih =>
    cases h' with
    | last hpage' => cases (Prod.mk.inj (Except.ok.inj (hpage.symm.trans hpage'))).2
    | more hpage' hwalk =>
      obtain ⟨rfl, hnext⟩ := Prod.mk.inj (Except.ok.inj (hpage.symm.trans hpage'))
      obtain rfl := Option.some.inj hnext
      rw [ih hwalk]

/-- The items after the last one of a page are those that did not go onto it. -/
theorem itemsAfter_last {after : Option κ} {ys zs : List α} {last : α}
    (hsorted : items.Pairwise (key · < key ·)) (h : itemsAfter key items after = ys ++ zs)
    (hlast : ys.getLast? = some last) : itemsAfter key items (some (key last)) = zs := by
  have hmem : last ∈ itemsAfter key items after := by
    rw [h]
    exact List.mem_append_left _ (List.mem_of_getLast? hlast)
  have hafter := (List.mem_filter.1 hmem).2
  -- What comes after the item comes after the cursor that it came after.
  have hnarrow : itemsAfter key items (some (key last)) =
      (itemsAfter key items after).filter fun x => key last < key x := by
    rw [itemsAfter, itemsAfter, List.filter_filter]
    refine List.filter_congr fun x _ => ?_
    cases after with
    | none => simp
    | some k =>
      have hk : k < key last := by simpa using hafter
      by_cases hx : key last < key x
      · simp [hx, hk.trans hx]
      · simp [hx]
  have hpairwise : (ys ++ zs).Pairwise (key · < key ·) := h ▸ hsorted.filter _
  obtain ⟨hys, -, hcross⟩ := List.pairwise_append.1 hpairwise
  have hnot : ∀ y ∈ ys, ¬ key last < key y := by
    intro y hy hlt
    obtain ⟨init, rfl⟩ := List.getLast?_eq_some_iff.1 hlast
    rcases List.mem_append.1 hy with hinit | hself
    · exact lt_asymm hlt ((List.pairwise_append.1 hys).2.2 y hinit last (List.mem_singleton_self _))
    · rw [List.mem_singleton.1 hself] at hlt
      exact lt_irrefl _ hlt
  rw [hnarrow, h, List.filter_append, List.filter_eq_nil_iff.2 fun y hy => by simpa using hnot y hy,
    List.nil_append]
  exact List.filter_eq_self.2 fun z hz =>
    decide_eq_true (hcross last (List.mem_of_getLast? hlast) z hz)

/-- A page fits. -/
theorem fits_pageAfter (size : α → Nat) {count : Nat} (room : Nat) (hcount : 0 < count)
    (hsorted : items.Pairwise (key · < key ·)) (after : Option κ) :
    Fits key count items ⟨after, (pageAfter key size count room items after).1,
      (pageAfter key size count room items after).2⟩ := by
  rcases hfill : fill size count room 0 0 (itemsAfter key items after) with ⟨page, rest⟩
  have happend : page ++ rest = itemsAfter key items after := by
    have happend := fill_append size count room 0 0 (itemsAfter key items after)
    rwa [hfill] at happend
  have hlength : page.length ≤ count := by
    have hle := length_fill_le size count room 0 (itemsAfter key items after)
      (Nat.zero_le count) hcount
    rwa [hfill, Nat.zero_add] at hle
  have hall : (page ++ rest).Pairwise (key · < key ·) := happend ▸ hsorted.filter _
  simp only [pageAfter, hfill]
  refine ⟨hlength, (List.pairwise_append.1 hall).1, fun x hx => ?_, ?_⟩
  · have hmem : x ∈ itemsAfter key items after := happend ▸ List.mem_append_left rest hx
    exact (List.mem_filter.1 hmem).2
  · cases rest with
    | nil => exact .inl ⟨by rw [← happend, List.append_nil], rfl⟩
    | cons z zs =>
      refine .inr ⟨fun hempty => ?_, fun heq => ?_, rfl⟩
      · have hne : itemsAfter key items after ≠ [] := by
          rw [← happend]
          exact List.append_ne_nil_of_right_ne_nil _ (List.cons_ne_nil _ _)
        have hfirst := fill_ne_nil size count room hne
        rw [hfill] at hfirst
        exact hfirst hempty
      · have hlen := congrArg List.length (heq.trans happend.symm)
        simp at hlen

/-- The pages of an ordered list, read from a cursor on. The induction is on how many items come
    after the cursor. -/
theorem exists_walk {size : α → Nat} {count room : Nat} (hcount : 0 < count)
    (hsorted : items.Pairwise (key · < key ·))
    (hpage : ∀ after, page after = .ok (pageAfter key size count room items after))
    (after : Option κ) :
    ∃ windows, Walk page after windows ∧
      windows.flatMap Window.items = itemsAfter key items after ∧
        ∀ w ∈ windows, Fits key count items w := by
  induction hn : (itemsAfter key items after).length using Nat.strong_induction_on
    generalizing after with
  | _ n ih =>
    have hfits := fits_pageAfter size room hcount hsorted after
    have hpage' := hpage after
    rcases hwindow : pageAfter key size count room items after with ⟨ys, next⟩
    rw [hwindow] at hfits hpage'
    rcases hfits.next_eq with ⟨hall, hnext⟩ | ⟨hne, hmore, hnext⟩
    · obtain rfl : next = none := hnext
      refine ⟨_, .last hpage', ?_, fun w hw => ?_⟩
      · rw [List.flatMap_singleton]
        exact hall
      · obtain rfl := List.mem_singleton.1 hw
        exact hfits
    · change ys ≠ [] at hne
      change next = ys.getLast?.map key at hnext
      have hlast := List.getLast?_eq_some_getLast hne
      generalize ys.getLast hne = last at hlast
      obtain rfl : next = some (key last) := by rw [hnext, hlast, Option.map_some]
      -- The items of the page and the others.
      have happend := fill_append size count room 0 0 (itemsAfter key items after)
      have hys : (fill size count room 0 0 (itemsAfter key items after)).1 = ys :=
        congrArg Prod.fst hwindow
      rw [hys] at happend
      have hrest := itemsAfter_last hsorted happend.symm hlast
      have hlt : (itemsAfter key items (some (key last))).length < n := by
        have hpos := List.length_pos_of_ne_nil hne
        rw [hrest, ← hn]
        conv_rhs => rw [← happend]
        rw [List.length_append]
        omega
      obtain ⟨windows, hwalk, hitems, hall⟩ := ih _ hlt _ rfl
      refine ⟨_, .more hpage' hwalk, ?_, fun w hw => ?_⟩
      · rw [List.flatMap_cons, hitems, hrest]
        exact happend
      · rcases List.mem_cons.1 hw with rfl | hw
        · exact hfits
        · exact hall w hw

end Paging
