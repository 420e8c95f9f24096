import Mosh.Library.Paging
import Mosh.Plus.Pull
import Mosh.Plus.Visibility

/-!
# When devices stop asking

A device does not ask another one for its purchases while the digest of that one is its own
(`sync_digest`). The digest is a hash of all pages that a device would send, one after the other.

* `syncPages`, `syncDigest`: the pages of a device in one text, and its hash;
* `SameSync`: two devices would send the same;
* `digest_sound`: devices with one digest would send the same, unless the hash collides;
* `Pulled`: all pages of a device that does nothing else, merged by another one;
* `pulled_quiet`: two devices that pull from each other, and once more, would send the same.
-/

namespace Mosh.Plus

open Checked Run

variable {Key Json : Type} [DecidableEq Json]

namespace PlusRuntime

section Digest

variable (c : DevicesCrypto Key Json) (s : PlusRuntime Key)

/-- The JSON of the pages after a cursor. -/
def syncPages : Nat → Option String → Except String String
  | 0, _ => .ok ""
  | fuel + 1, after => do
    match ← s.exportSync c after with
    | none => return ""
    | some json =>
      let page ← getOr "invalid PLUS sync page" (c.parsePage json)
      match page.next with
      | none => return json
      | some next => return json ++ (← syncPages fuel (some next))

/-- Every page but the last has four orders, so there is a page more than orders at most. -/
def syncDigest (sha256 : String → String) : Except String String := do
  let text ← s.syncPages c (s.state.mainnet.orders.size + 1) none
  return sha256 text

end Digest

/-- What a device sends of an order. -/
def exported (m : MainnetState) (id : String) : Option Item :=
  m.orders[id]?.map fun order =>
    ⟨order, m.orderWriters[id]?.getD "", m.prepared[id]?, m.certificates[id]?⟩

/-- What a page says besides orders. -/
@[ext]
structure Head where
  series : Option PlusSeries
  committed : Bool
  visibility : Visibility

/-- What a device sends besides orders. -/
def head (x : Shared) : Head where
  series := if x.bootstrap.registered then x.series else none
  committed := x.bootstrap.committed
  visibility := x.visibility

def pageHead (page : Page) : Head := ⟨page.series, page.committed, page.visibility⟩

/-- Two devices would send the same pages. -/
structure SameSync (s t : PlusRuntime Key) : Prop where
  account : s.state.accountId = t.state.accountId
  issuer : s.issuer.mainnetKeyId = t.issuer.mainnetKeyId
  head : head s.state.shared = head t.state.shared
  orders : ∀ id, exported s.state.mainnet id = exported t.state.mainnet id

/-! ## Digests -/

section Sound

omit [DecidableEq Json]

variable {c : DevicesCrypto Key Json} {s t : PlusRuntime Key} {after : Option String} {id : String}

theorem itemsAfter_orders (s : PlusRuntime Key) (after : Option String) :
    s.exportItems after =
      ((Paging.itemsAfter Prod.fst s.state.mainnet.orders.toList after).take 4).map fun row =>
        ⟨row.2, s.state.mainnet.orderWriters[row.1]?.getD "", s.state.mainnet.prepared[row.1]?,
          s.state.mainnet.certificates[row.1]?⟩ := rfl

/-- An item of a page is what the device sends of its order. -/
theorem exported_of_mem (hkeyed : Keyed s.state.mainnet) {item : Item}
    (h : item ∈ s.exportItems after) :
    exported s.state.mainnet item.order.id = some item ∧ after.all (· < item.order.id) = true := by
  rw [itemsAfter_orders, List.mem_map] at h
  obtain ⟨⟨id, order⟩, hrow, rfl⟩ := h
  obtain ⟨hrow, hafter⟩ := List.mem_filter.1 (List.mem_of_mem_take hrow)
  have horder := Std.ExtTreeMap.mem_toList_iff_getElem?_eq_some.1 hrow
  obtain rfl := hkeyed id order horder
  refine ⟨?_, hafter⟩
  rw [exported, horder, Option.map_some]

theorem mem_of_exported (hkeyed : Keyed s.state.mainnet) {item : Item} (issuer : String)
    (h : exported s.state.mainnet id = some item) (hafter : after.all (· < id) = true)
    (hnext : (s.exportPage issuer after).next.all (id ≤ ·) = true) :
    item ∈ s.exportItems after := by
  obtain ⟨order, horder, rfl⟩ := Option.map_eq_some_iff.1 h
  exact mem_exportItems hkeyed horder hafter hnext

/-- What comes after the cursor of a page that has one is four orders less. -/
theorem length_itemsAfter_next (hkeyed : Keyed s.state.mainnet) {issuer next : String}
    (hnext : (s.exportPage issuer after).next = some next) :
    (Paging.itemsAfter Prod.fst s.state.mainnet.orders.toList (some next)).length + 4 =
      (Paging.itemsAfter Prod.fst s.state.mainnet.orders.toList after).length := by
  rw [exportPage] at hnext
  dsimp only at hnext
  split at hnext
  next hlength =>
    rw [itemsAfter_orders, List.length_map] at hlength
    rw [itemsAfter_orders, List.getLast?_map, Option.map_map] at hnext
    obtain ⟨⟨id, order⟩, hlast, rfl⟩ := Option.map_eq_some_iff.1 hnext
    obtain rfl := hkeyed id order (Std.ExtTreeMap.mem_toList_iff_getElem?_eq_some.1
      (List.mem_filter.1 (List.mem_of_mem_take (List.mem_of_getLast? hlast))).1)
    have hrest : Paging.itemsAfter Prod.fst s.state.mainnet.orders.toList (some order.id) =
        (Paging.itemsAfter Prod.fst s.state.mainnet.orders.toList after).drop 4 :=
      Paging.itemsAfter_last (pairwise_orders s.state.mainnet) (List.take_append_drop 4 _).symm
        hlast
    change (Paging.itemsAfter Prod.fst s.state.mainnet.orders.toList
      (some order.id)).length + 4 = _
    rw [hrest, List.length_drop]
    rw [List.length_take] at hlength
    omega
  · cases hnext

/-- The JSON of a page tells where it ends. -/
def Delimited (c : DevicesCrypto Key Json) : Prop :=
  ∀ p q a b x y, c.encodePage p = some a → c.encodePage q = some b → a ++ x = b ++ y → a = b

theorem SameSync.exportItems (h : SameSync s t) (after : Option String) :
    s.exportItems after = t.exportItems after := by
  have horders : s.state.mainnet.orders = t.state.mainnet.orders := by
    refine Std.ExtTreeMap.ext_getElem? fun id => ?_
    have hid := congrArg (Option.map Item.order) (h.orders id)
    simpa only [exported, Option.map_map, Function.comp_def, Option.map_id'] using hid
  rw [itemsAfter_orders, itemsAfter_orders, horders]
  refine List.map_congr_left ?_
  rintro ⟨id, order⟩ hrow
  have horder := Std.ExtTreeMap.mem_toList_iff_getElem?_eq_some.1
    (List.mem_filter.1 (List.mem_of_mem_take hrow)).1
  have hid := h.orders id
  rw [exported, exported, horders, horder, Option.map_some, Option.map_some] at hid
  exact Option.some.inj hid

theorem SameSync.exportPage (h : SameSync s t) (issuer : String) (after : Option String) :
    s.exportPage issuer after = t.exportPage issuer after := by
  obtain ⟨hseries, hcommitted, hvisibility⟩ := Head.ext_iff.1 h.head
  obtain ⟨hcounter, hwriter, hvisible⟩ := Visibility.mk.inj hvisibility
  dsimp only [PlusRuntime.head, LocalState.shared] at hseries hcommitted
  simp only [PlusRuntime.exportPage, h.account, hseries, hcommitted, hcounter, hwriter, hvisible,
    h.exportItems after]

theorem SameSync.exportSync (h : SameSync s t) (after : Option String) :
    s.exportSync c after = t.exportSync c after := by
  rw [PlusRuntime.exportSync, PlusRuntime.exportSync, h.issuer]
  simp only [h.exportPage]

/-- Devices that would send the same have one digest. -/
theorem SameSync.syncDigest (h : SameSync s t) (sha256 : String → String) :
    s.syncDigest c sha256 = t.syncDigest c sha256 := by
  have hpages : ∀ fuel after, s.syncPages c fuel after = t.syncPages c fuel after := by
    intro fuel
    induction fuel with
    | zero => exact fun _ => rfl
    | succ fuel ih =>
      intro after
      simp only [syncPages, h.exportSync, ih]
  have horders : s.state.mainnet.orders = t.state.mainnet.orders := by
    refine Std.ExtTreeMap.ext_getElem? fun id => ?_
    have hid := congrArg (Option.map Item.order) (h.orders id)
    simpa only [exported, Option.map_map, Function.comp_def, Option.map_id'] using hid
  rw [PlusRuntime.syncDigest, PlusRuntime.syncDigest, hpages, horders]

theorem exportSync_eq_some {json : String} (h : s.exportSync c after = .ok (some json)) :
    ∃ issuer, s.issuer.mainnetKeyId = some issuer ∧
      c.encodePage (s.exportPage issuer after) = some json := by
  rw [exportSync] at h
  split at h
  · cases h
  next issuer hissuer =>
    simp only [bind_eq_ok, getOr_eq_ok] at h
    obtain ⟨text, htext, -, -, h⟩ := h
    obtain rfl := Option.some.inj (Except.ok.inj h)
    exact ⟨issuer, hissuer, htext⟩

/-- The pages of a device: the one after the cursor, and the pages after that. -/
theorem syncPages_eq_ok (hpages : Devices.PagesRead c) {issuer : String}
    (hissuer : s.issuer.mainnetKeyId = some issuer) {fuel : Nat} {text : String}
    (h : s.syncPages c (fuel + 1) after = .ok text) :
    ∃ json, c.encodePage (s.exportPage issuer after) = some json ∧
      match (s.exportPage issuer after).next with
      | none => text = json
      | some next => ∃ rest, s.syncPages c fuel (some next) = .ok rest ∧ text = json ++ rest := by
  rw [syncPages, bind_eq_ok] at h
  obtain ⟨result, hexport, h⟩ := h
  cases result with
  | none =>
    rw [exportSync, hissuer] at hexport
    simp only [bind_eq_ok] at hexport
    obtain ⟨_, -, -, -, hexport⟩ := hexport
    cases hexport
  | some json =>
    obtain ⟨issuer', hissuer', hjson⟩ := exportSync_eq_some hexport
    obtain rfl := Option.some.inj (hissuer.symm.trans hissuer')
    refine ⟨json, hjson, ?_⟩
    simp only [bind_eq_ok, getOr_eq_ok] at h
    obtain ⟨page, hpage, h⟩ := h
    obtain rfl := Option.some.inj ((hpages _ _ hjson).symm.trans hpage)
    split at h
    · exact (Except.ok.inj h).symm
    · obtain ⟨rest, hrest, h⟩ := bind_eq_ok.1 h
      exact ⟨rest, hrest, (Except.ok.inj h).symm⟩

/-- What comes after a cursor up to the next one is on the page. -/
theorem exported_of_exportItems (hs : Keyed s.state.mainnet) (ht : Keyed t.state.mainnet)
    (hitems : s.exportItems after = t.exportItems after) {issuer : String}
    (hafter : after.all (· < id) = true)
    (hnext : (s.exportPage issuer after).next.all (id ≤ ·) = true) {item : Item}
    (h : exported s.state.mainnet id = some item) : exported t.state.mainnet id = some item := by
  have hmem := mem_of_exported hs issuer h hafter hnext
  obtain ⟨order, horder, heq⟩ := Option.map_eq_some_iff.1 h
  obtain rfl : item.order.id = id := by
    rw [← heq]
    exact hs id order horder
  exact (exported_of_mem ht (hitems ▸ hmem)).1

/-- Devices that send the same text from a cursor on send the same orders after it. The induction
    is on the pages that the first one sends. -/
theorem exported_of_syncPages (hpages : Devices.PagesRead c) (hdelimited : Delimited c)
    (hs : Keyed s.state.mainnet) (ht : Keyed t.state.mainnet) {issuer issuer' : String}
    (hissuer : s.issuer.mainnetKeyId = some issuer)
    (hissuer' : t.issuer.mainnetKeyId = some issuer') {fuel fuel' : Nat} {text : String}
    (hfuel : (Paging.itemsAfter Prod.fst s.state.mainnet.orders.toList after).length < fuel)
    (hfuel' : (Paging.itemsAfter Prod.fst t.state.mainnet.orders.toList after).length < fuel')
    (h : s.syncPages c fuel after = .ok text) (h' : t.syncPages c fuel' after = .ok text) :
    s.exportPage issuer after = t.exportPage issuer' after ∧
      ∀ id, after.all (· < id) = true →
        exported s.state.mainnet id = exported t.state.mainnet id := by
  induction fuel generalizing after fuel' text with
  | zero => exact absurd hfuel (Nat.not_lt_zero _)
  | succ fuel ih =>
    obtain _ | fuel' := fuel'
    · exact absurd hfuel' (Nat.not_lt_zero _)
    obtain ⟨json, hjson, hrest⟩ := syncPages_eq_ok hpages hissuer h
    obtain ⟨json', hjson', hrest'⟩ := syncPages_eq_ok hpages hissuer' h'
    -- the first pages are the same
    have htext : ∃ x, text = json ++ x := by
      split at hrest
      · exact ⟨"", by rw [hrest, String.append_empty]⟩
      · exact hrest.imp fun _ => And.right
    have htext' : ∃ x, text = json' ++ x := by
      split at hrest'
      · exact ⟨"", by rw [hrest', String.append_empty]⟩
      · exact hrest'.imp fun _ => And.right
    obtain ⟨x, hx⟩ := htext
    obtain ⟨x', hx'⟩ := htext'
    obtain rfl := hdelimited _ _ _ _ x x' hjson hjson' (hx ▸ hx')
    have hpage : s.exportPage issuer after = t.exportPage issuer' after :=
      Option.some.inj ((hpages _ _ hjson).symm.trans (hpages _ _ hjson'))
    refine ⟨hpage, fun id hafter => ?_⟩
    have hitems : s.exportItems after = t.exportItems after := congrArg Page.items hpage
    have hsame : (s.exportPage issuer after).next.all (id ≤ ·) = true →
        exported s.state.mainnet id = exported t.state.mainnet id := fun hnext =>
      Option.ext fun item => ⟨exported_of_exportItems hs ht hitems hafter hnext,
        exported_of_exportItems ht hs hitems.symm hafter (hpage ▸ hnext)⟩
    rcases hnext : (s.exportPage issuer after).next with _ | next
    · exact hsame (hnext ▸ rfl)
    · have hlength := length_itemsAfter_next hs hnext
      have hlength' := length_itemsAfter_next ht (hpage ▸ hnext)
      rw [hnext] at hrest
      rw [← hpage, hnext] at hrest'
      obtain ⟨rest, hrest, hcat⟩ := hrest
      obtain ⟨rest', hrest', hcat'⟩ := hrest'
      obtain rfl := (String.append_right_inj json).1 (hcat.symm.trans hcat')
      by_cases hid : id ≤ next
      · exact hsame (by rw [hnext]; exact decide_eq_true hid)
      · exact (ih (by omega) (by omega) hrest hrest').2 id (decide_eq_true (not_le.1 hid))

theorem length_itemsAfter_none (s : PlusRuntime Key) :
    (Paging.itemsAfter Prod.fst s.state.mainnet.orders.toList none).length =
      s.state.mainnet.orders.size := by
  rw [Paging.itemsAfter, List.filter_eq_self.2, Std.ExtTreeMap.length_toList]
  exact fun _ _ => rfl

/-- The loop has come to its end. -/
theorem syncPages_of_le (hpages : Devices.PagesRead c) (hs : Keyed s.state.mainnet)
    {fuel fuel' : Nat}
    (hfuel : (Paging.itemsAfter Prod.fst s.state.mainnet.orders.toList after).length < fuel)
    (hle : fuel ≤ fuel') : s.syncPages c fuel' after = s.syncPages c fuel after := by
  induction fuel generalizing after fuel' with
  | zero => exact absurd hfuel (Nat.not_lt_zero _)
  | succ fuel ih =>
    obtain ⟨fuel', rfl⟩ : ∃ n, fuel' = n + 1 := ⟨fuel' - 1, by omega⟩
    rw [syncPages, syncPages]
    rcases hexport : s.exportSync c after with e | result
    · rfl
    cases result with
    | none => rfl
    | some json =>
      obtain ⟨issuer, -, hjson⟩ := exportSync_eq_some hexport
      change getOr _ (c.parsePage json) >>= _ = getOr _ (c.parsePage json) >>= _
      rw [hpages _ _ hjson]
      change (match (s.exportPage issuer after).next with | none => _ | some next => _) =
        match (s.exportPage issuer after).next with | none => _ | some next => _
      rcases hnext : (s.exportPage issuer after).next with _ | next
      · rfl
      · have hlength := length_itemsAfter_next hs hnext
        dsimp only
        rw [ih (by omega) (by omega)]

/-- Devices that have one digest would send the same, or two texts have one hash. -/
theorem digest_sound (hpages : Devices.PagesRead c) (hdelimited : Delimited c)
    (hs : Keyed s.state.mainnet) (ht : Keyed t.state.mainnet) {issuer issuer' : String}
    (hissuer : s.issuer.mainnetKeyId = some issuer)
    (hissuer' : t.issuer.mainnetKeyId = some issuer') {sha256 : String → String} {digest : String}
    (h : s.syncDigest c sha256 = .ok digest) (h' : t.syncDigest c sha256 = .ok digest) :
    SameSync s t ∨ ∃ x y, x ≠ y ∧ sha256 x = sha256 y := by
  rw [syncDigest, bind_eq_ok] at h h'
  obtain ⟨text, htext, h⟩ := h
  obtain ⟨text', htext', h'⟩ := h'
  obtain rfl := Except.ok.inj h
  have hsame : sha256 text' = sha256 text := Except.ok.inj h'
  by_cases heq : text = text'
  · subst heq
    obtain ⟨hpage, hitems⟩ := exported_of_syncPages hpages hdelimited hs ht hissuer hissuer'
      (by rw [length_itemsAfter_none]; exact Nat.lt_succ_self _)
      (by rw [length_itemsAfter_none]; exact Nat.lt_succ_self _) htext htext'
    refine .inl ⟨congrArg Page.account hpage, ?_, congrArg pageHead hpage,
      fun id => hitems id rfl⟩
    rw [hissuer, hissuer']
    exact congrArg (fun page => some page.issuer) hpage
  · exact .inr ⟨text, text', heq, hsame.symm⟩

end Sound

/-! ## What is merged of an order -/

/-- What a device has under an id. -/
@[ext]
structure Held where
  order : Option Order
  writer : Option String
  prepared : Option PreparedIssuance
  certificate : Option Certificate

def held (m : MainnetState) (id : String) : Held :=
  ⟨m.orders[id]?, m.orderWriters[id]?, m.prepared[id]?, m.certificates[id]?⟩

namespace Held

/-- What is sent of it. -/
def item (a : Held) : Option Item :=
  a.order.map fun order => ⟨order, a.writer.getD "", a.prepared, a.certificate⟩

/-- What becomes of it when an item of another device is merged. -/
def merge (a : Held) (i : Item) : Held :=
  if a.order.any fun old => i.order.status < old.status then a
  else ⟨some i.order, a.writer.or (some i.writer), i.prepared.or a.prepared,
    i.certificate.or a.certificate⟩

/-- The item names the device that has written the order. -/
structure Accepts (a : Held) (i : Item) : Prop where
  named : i.writer ≠ ""
  writer : a.order.isSome = true → a.writer.all (· = i.writer) = true

/-- What a device has after it has pulled from another one. -/
def Drawn (a b a' : Held) : Prop :=
  match b.item with
  | none => a' = a
  | some i => a.Accepts i ∧ a' = a.merge i

theorem merge_of_behind {a : Held} {i : Item} {old : Order} (h : a.order = some old)
    (hlt : i.order.status < old.status) : a.merge i = a := by
  rw [merge, if_pos]
  rw [h]
  exact decide_eq_true hlt

theorem merge_of_le {a : Held} {i : Item}
    (h : ∀ old, a.order = some old → old.status ≤ i.order.status) :
    a.merge i = ⟨some i.order, a.writer.or (some i.writer), i.prepared.or a.prepared,
      i.certificate.or a.certificate⟩ := by
  rw [merge, if_neg]
  rw [Option.any_eq_true]
  rintro ⟨old, hold, hlt⟩
  exact absurd (of_decide_eq_true hlt) (not_lt.2 (h old hold))

theorem item_of_order {a : Held} {order : Order} (h : a.order = some order) :
    a.item = some ⟨order, a.writer.getD "", a.prepared, a.certificate⟩ := by
  rw [item, h, Option.map_some]

/-- The other device is not further on then. -/
theorem Drawn.le {a b a' : Held} (h : Drawn a b a') {old : Order} (hold : b.order = some old) :
    ∃ new, a'.order = some new ∧ old.status ≤ new.status := by
  rw [Drawn, item_of_order hold] at h
  obtain ⟨-, rfl⟩ := h
  by_cases hbehind : ∃ own, a.order = some own ∧ old.status < own.status
  · obtain ⟨own, hown, hlt⟩ := hbehind
    exact ⟨own, by rw [merge_of_behind hown hlt, hown], hlt.le⟩
  · refine ⟨old, ?_, le_rfl⟩
    rw [merge_of_le fun own hown => not_lt.1 fun hlt => hbehind ⟨own, hown, hlt⟩]

theorem or_or_left {α : Type} (x y : Option α) : (x.or y).or x = x.or y := by
  cases x <;> cases y <;> rfl

/-- Two devices that pull from each other, and once more, have the same. -/
theorem Drawn.settled {a b a' b' a'' : Held} (h : Drawn a b a') (h' : Drawn b a' b')
    (h'' : Drawn a' b' a'') : a''.item = b'.item := by
  rcases horder : a'.order with _ | order
  · -- neither has the order
    have hb : b.order = none := by
      by_contra hsome
      obtain ⟨old, hold⟩ := Option.ne_none_iff_exists'.1 hsome
      obtain ⟨new, hnew, -⟩ := h.le hold
      rw [horder] at hnew
      cases hnew
    rw [Drawn, item, horder, Option.map_none] at h'
    subst h'
    rw [Drawn, item, hb, Option.map_none] at h''
    rw [h'', item, horder, item, hb]
    rfl
  · have hle : ∀ old, b.order = some old → old.status ≤ order.status := by
      intro old hold
      obtain ⟨new, hnew, hle⟩ := h.le hold
      rwa [← Option.some.inj (horder.symm.trans hnew)] at hle
    obtain ⟨_, writer, prepared, certificate⟩ := a'
    obtain rfl := horder
    obtain ⟨hnamed, rfl⟩ := h'
    rw [merge_of_le hle] at h'' ⊢
    obtain ⟨haccepts, rfl⟩ := h''
    rw [merge_of_le fun old hold => (congrArg Order.status (Option.some.inj hold)).ge]
    -- the writer that the other device has is the own one
    rcases writer with _ | writer
    · exact absurd rfl hnamed.named
    · have hsame := haccepts.writer rfl
      rw [Option.all_some, decide_eq_true_eq] at hsame
      dsimp only [item, Option.map_some] at hsame ⊢
      rw [or_or_left, or_or_left, ← hsame]
      rfl

end Held

/-! ## What is merged of the rest -/

namespace Head

variable {a b a' b' a'' : Head}

/-- What a device says after it has merged what another one says. -/
structure Joined (a b a' : Head) : Prop where
  series : (b.series = none ∧ b.committed = false ∧ a'.series = a.series ∧
      a'.committed = a.committed) ∨
    ∃ x, b.series = some x ∧ a'.series = some x ∧ a'.committed = (a.committed || b.committed)
  visibility : a'.visibility = a.visibility.later b.visibility
  agree : a.visibility.stamp = b.visibility.stamp → a.visibility = b.visibility

theorem Joined.le (h : Joined a b a') : b.visibility.stamp ≤ a'.visibility.stamp := by
  rw [h.visibility, Visibility.stamp_later]
  exact le_max_right _ _

/-- What is not later changes nothing. -/
theorem Joined.visibility_eq (h : Joined a b a')
    (hle : b.visibility.stamp ≤ a.visibility.stamp) : a'.visibility = a.visibility := by
  rw [h.visibility, Visibility.later, if_neg (not_lt.2 hle)]

/-- What another device has said already changes nothing. -/
theorem Joined.again (h : Joined a b a') (h' : Joined a' b a'') : a'' = a' := by
  obtain ⟨hnone, hfalse, -, -⟩ | ⟨x, hx, hseries, hcommitted⟩ := h.series
  · obtain ⟨-, -, hseries, hcommitted⟩ | ⟨x, hx, -, -⟩ := h'.series
    · exact Head.ext hseries hcommitted (h'.visibility_eq h.le)
    · cases hnone.symm.trans hx
  · obtain ⟨hnone, -, -, -⟩ | ⟨x', hx', hseries', hcommitted'⟩ := h'.series
    · cases hnone.symm.trans hx
    · obtain rfl := Option.some.inj (hx.symm.trans hx')
      refine Head.ext (hseries'.trans hseries.symm) ?_ (h'.visibility_eq h.le)
      rw [hcommitted', hcommitted, Bool.or_assoc, Bool.or_self]

/-- Two devices that pull from each other say the same. -/
theorem Joined.back (h : Joined a b a') (h' : Joined b a' b') : b' = a' := by
  have hvisibility : b'.visibility = a'.visibility := by
    rw [h'.visibility, Visibility.later]
    split
    · rfl
    · next hlt => exact h'.agree (le_antisymm h.le (not_lt.1 hlt))
  obtain ⟨hb, hfalse, hs, hc⟩ | ⟨x, hb, hs, hc⟩ := h.series
  · obtain ⟨ha', hfalse', hs', hc'⟩ | ⟨y, ha', hs', hc'⟩ := h'.series
    · exact Head.ext (hs'.trans (hb.trans ha'.symm)) (hc'.trans (hfalse.trans hfalse'.symm))
        hvisibility
    · refine Head.ext (hs'.trans ha'.symm) ?_ hvisibility
      rw [hc', hfalse, Bool.false_or]
  · obtain ⟨ha', -, -, -⟩ | ⟨y, ha', hs', hc'⟩ := h'.series
    · cases ha'.symm.trans hs
    · refine Head.ext (hs'.trans ha'.symm) ?_ hvisibility
      rw [hc', hc, Bool.or_left_comm, Bool.or_self]

theorem Joined.self (h : Joined a a a') : a' = a := by
  obtain ⟨-, -, hseries, hcommitted⟩ | ⟨x, hx, hseries, hcommitted⟩ := h.series
  · exact Head.ext hseries hcommitted (h.visibility_eq le_rfl)
  · refine Head.ext (hseries.trans hx.symm) ?_ (h.visibility_eq le_rfl)
    rw [hcommitted, Bool.or_self]

end Head

section Merging

variable {c : DevicesCrypto Key Json} {s s' : PlusRuntime Key} {m m' : MainnetState} {id : String}
  {item : Item} {items : List Item}

theorem getElem?_insertIfNew (m : Std.ExtTreeMap String String compare) (k v : String) :
    (m.insertIfNew k v)[k]? = m[k]?.or (some v) := by
  rw [Std.ExtTreeMap.getElem?_insertIfNew]
  rcases h : m[k]? with _ | w
  · have hnot : k ∉ m := fun hmem => by
      rw [Std.ExtTreeMap.mem_iff_isSome_getElem?, h] at hmem
      cases hmem
    rw [if_pos ⟨Std.ReflCmp.compare_self, hnot⟩]
    rfl
  · rw [if_neg fun hnot => hnot.2 (Std.ExtTreeMap.mem_iff_isSome_getElem?.2 (h ▸ rfl))]
    rfl

omit [DecidableEq Json] in
/-- An item changes what there is under the id of its order only. -/
theorem mergeSyncItem_held (h : s.mergeSyncItem c.toPlusCrypto m item = .ok m') :
    (held m item.order.id).Accepts item ∧
      ∀ id, held m' id =
        if item.order.id = id then (held m id).merge item else held m id := by
  simp only [mergeSyncItem, bind_eq_ok, check_eq_ok, Bool.and_eq_true, decide_eq_true_eq] at h
  obtain ⟨-, -, -, ⟨⟨⟨hnamed, -⟩, -⟩, -⟩, -, hconflict, h⟩ := h
  refine ⟨⟨hnamed, fun hsome => ?_⟩, fun id => ?_⟩
  · obtain ⟨old, hold⟩ := Option.isSome_iff_exists.1 hsome
    have hold : m.orders[item.order.id]? = some old := hold
    rw [hold, Option.all_some, Bool.and_eq_true] at hconflict
    exact hconflict.2
  · split at h
    · next hbehind =>
      obtain rfl := Except.ok.inj h
      split
      · next hid =>
        subst hid
        exact (if_pos hbehind).symm
      · rfl
    next hbehind =>
      simp only [bind_eq_ok] at h
      obtain ⟨-, -, certificates, hcertificates, prepared, hprepared, h⟩ := h
      obtain rfl := Except.ok.inj h
      have hcertificate : certificates[id]? = if item.order.id = id then
          item.certificate.or m.certificates[id]? else m.certificates[id]? := by
        rw [mergeSyncCertificate] at hcertificates
        split at hcertificates
        · next hnone =>
          rw [← Except.ok.inj hcertificates, hnone, Option.none_or, ite_self]
        · next certificate hsome =>
          simp only [bind_eq_ok] at hcertificates
          obtain ⟨-, -, -, -, hcertificates⟩ := hcertificates
          rw [← Except.ok.inj hcertificates, Std.ExtTreeMap.getElem?_insert, hsome,
            Option.some_or]
          simp only [Std.compare_eq_iff_eq]
      have hprepare : prepared[id]? = if item.order.id = id then
          item.prepared.or m.prepared[id]? else m.prepared[id]? := by
        rw [mergeSyncPrepared] at hprepared
        split at hprepared
        · next hnone =>
          rw [← Except.ok.inj hprepared, hnone, Option.none_or, ite_self]
        · next certificate hsome =>
          simp only [bind_eq_ok] at hprepared
          obtain ⟨-, -, hprepared⟩ := hprepared
          rw [← Except.ok.inj hprepared, Std.ExtTreeMap.getElem?_insert, hsome, Option.some_or]
          simp only [Std.compare_eq_iff_eq]
      split
      · next hid =>
        subst hid
        rw [if_pos rfl] at hcertificate hprepare
        have hmerged : (held m item.order.id).merge item = ⟨some item.order,
            m.orderWriters[item.order.id]?.or (some item.writer),
            item.prepared.or m.prepared[item.order.id]?,
            item.certificate.or m.certificates[item.order.id]?⟩ := if_neg hbehind
        rw [hmerged]
        refine Held.ext ?_ ?_ hprepare hcertificate
        · exact Std.ExtTreeMap.getElem?_insert_self
        · exact getElem?_insertIfNew _ _ _
      · next hid =>
        rw [if_neg hid] at hcertificate hprepare
        have hne : ¬compare item.order.id id = .eq := fun heq => hid (Std.compare_eq_iff_eq.1 heq)
        refine Held.ext ?_ ?_ hprepare hcertificate
        · exact (Std.ExtTreeMap.getElem?_insert).trans (if_neg hne)
        · exact (Std.ExtTreeMap.getElem?_insertIfNew).trans (if_neg fun h => hne h.1)

omit [DecidableEq Json] in
/-- The items of a page are merged one by one, each with its own order. -/
theorem mergeSyncItems_held (hids : items.Pairwise (·.order.id ≠ ·.order.id))
    (h : items.foldlM (s.mergeSyncItem c.toPlusCrypto) m = .ok m') (id : String) :
    (∀ item ∈ items, item.order.id = id → (held m id).Accepts item ∧
      held m' id = (held m id).merge item) ∧
    ((∀ item ∈ items, item.order.id ≠ id) → held m' id = held m id) := by
  induction items generalizing m with
  | nil =>
    obtain rfl := Except.ok.inj h
    exact ⟨fun _ h => absurd h List.not_mem_nil, fun _ => rfl⟩
  | cons item items ih =>
    rw [List.foldlM_cons, bind_eq_ok] at h
    obtain ⟨mid, hitem, h⟩ := h
    obtain ⟨hne, hids⟩ := List.pairwise_cons.1 hids
    obtain ⟨haccepts, hmid⟩ := mergeSyncItem_held hitem
    obtain ⟨hmem, hnot⟩ := ih hids h
    refine ⟨fun other hother hid => ?_, fun hnone => ?_⟩
    · rcases List.mem_cons.1 hother with rfl | hother
      · subst hid
        refine ⟨haccepts, ?_⟩
        rw [hnot fun i hi => (hne i hi).symm, hmid, if_pos rfl]
      · have hunchanged : held mid id = held m id := by
          rw [hmid, if_neg fun heq => hne other hother (heq.trans hid.symm)]
        rw [← hunchanged]
        exact hmem other hother hid
    · rw [hnot fun i hi => hnone i (List.mem_cons_of_mem _ hi), hmid,
        if_neg (hnone item List.mem_cons_self)]

theorem held_eq_of (horders : m'.orders = m.orders) (hwriters : m'.orderWriters = m.orderWriters)
    (hprepared : m'.prepared = m.prepared) (hcertificates : m'.certificates = m.certificates)
    (id : String) : held m' id = held m id := by
  rw [held, held, horders, hwriters, hprepared, hcertificates]

omit [DecidableEq Json] in
/-- A series that is merged is the registered one then, and nothing else of what is sent
    changes. -/
theorem mergeSyncSeries_head {series : Option PlusSeries} {committed : Bool}
    {refused : Option String} {next : LocalState}
    (h : s.mergeSyncSeries c.toPlusCrypto series committed refused = .ok next) :
    next.accountId = s.state.accountId ∧ (∀ id, held next.mainnet id = held s.state.mainnet id) ∧
      next.shared.visibility = s.state.shared.visibility ∧
      ((series = none ∧ committed = false ∧
          (head next.shared).series = (head s.state.shared).series ∧
          (head next.shared).committed = (head s.state.shared).committed) ∨
        ∃ x, series = some x ∧ (head next.shared).series = some x ∧
          (head next.shared).committed = ((head s.state.shared).committed || committed)) := by
  cases series with
  | none =>
    rw [mergeSyncSeries] at h
    split at h
    · cases h
    · next hcommitted =>
      obtain rfl := Except.ok.inj h
      exact ⟨rfl, fun _ => rfl, rfl, .inl ⟨rfl, Bool.eq_false_iff.2 hcommitted, rfl, rfl⟩⟩
  | some x =>
    rw [mergeSyncSeries] at h
    split at h
    · cases h
    split at h
    · split at h <;> cases h
    · obtain rfl := Except.ok.inj h
      exact ⟨rfl, fun _ => rfl, rfl, .inr ⟨x, rfl, rfl, rfl⟩⟩

theorem mergeVisibility_held {next next' : LocalState} {page : Page}
    (h : mergeVisibility next page = .ok next') :
    (∀ id, held next'.mainnet id = held next.mainnet id) ∧
      (next.shared.visibility.stamp = page.visibility.stamp →
        next.shared.visibility = page.visibility) := by
  rw [mergeVisibility] at h
  dsimp only at h
  split at h
  · next hlt =>
    obtain rfl := Except.ok.inj h
    exact ⟨fun _ => rfl, fun heq => absurd heq hlt.ne⟩
  next hle =>
    split at h
    · cases h
    · next hsame =>
      obtain rfl := Except.ok.inj h
      refine ⟨fun _ => rfl, fun heq => ?_⟩
      obtain ⟨hcounter, hwriter⟩ := Prod.mk.inj (toLex.injective heq)
      by_contra hne
      refine hsame ⟨toLex.injective heq, fun hvisible => hne ?_⟩
      exact Visibility.mk.injEq _ _ _ _ _ _ ▸ ⟨hcounter, hwriter, hvisible⟩

/-- What a page that is merged leaves. -/
theorem mergeSync_merged {json : String} {refused next : Option String}
    (h : s.mergeSync c.toPlusCrypto json refused = (.ok next, s')) :
    ∃ page, c.parsePage json = some page ∧ page.next = next ∧
      page.account = s.state.accountId ∧ s.issuer.mainnetKeyId = some page.issuer ∧
      s'.state.accountId = s.state.accountId ∧ s'.issuer = s.issuer ∧
      (head s.state.shared).Joined (pageHead page) (head s'.state.shared) ∧
      (page.items.Pairwise (·.order.id ≠ ·.order.id) → ∀ id,
        (∀ item ∈ page.items, item.order.id = id → (held s.state.mainnet id).Accepts item ∧
          held s'.state.mainnet id = (held s.state.mainnet id).merge item) ∧
        ((∀ item ∈ page.items, item.order.id ≠ id) →
          held s'.state.mainnet id = held s.state.mainnet id)) := by
  rw [mergeSync] at h
  split at h
  · cases h
  split at h
  · cases h
  next page hpage =>
    split at h
    · cases h
    next hown =>
      simp only [not_or, not_not] at hown
      rcases hseries : s.mergeSyncSeries c.toPlusCrypto page.series page.committed refused with
        ⟨e, s₁⟩ | mid
      · rw [hseries] at h
        cases h
      rw [hseries] at h
      dsimp only at h
      split at h
      · cases h
      next s₁ hsaved =>
        obtain ⟨hnext, hs⟩ := Prod.mk.inj h
        obtain rfl : s₁ = s' := hs
        obtain ⟨merged, hmerged, hsave⟩ := bind_eq_ok.1 hsaved
        obtain ⟨haccount', hshared⟩ := shared_mergeSyncPage hmerged
        simp only [mergeSyncPage, bind_eq_ok] at hmerged
        obtain ⟨shown, hvisibility, mainnet, hitems, -, -, hmerged⟩ := hmerged
        obtain ⟨haccount, hheld, hsame, hregistered⟩ := mergeSyncSeries_head hseries
        obtain ⟨hheld', hagree⟩ := mergeVisibility_held hvisibility
        have hmainnet : mainnet = merged.mainnet := by rw [← Except.ok.inj hmerged]
        have hstart : ∀ id, held shown.mainnet id = held s.state.mainnet id := fun id =>
          (hheld' id).trans (hheld id)
        have hstate := state_save hsave
        refine ⟨page, hpage, Except.ok.inj hnext, hown.1, hown.2.1, ?_, ?_, ⟨?_, ?_, ?_⟩,
          fun hids id => ?_⟩
        · rw [hstate]
          exact haccount'.trans haccount
        · obtain ⟨bytes, -, rfl⟩ := save_eq_ok hsave
          rfl
        · rw [hstate, hshared]
          exact hregistered
        · rw [hstate, hshared]
          exact congrArg (·.later page.visibility) hsame
        · change s.state.shared.visibility.stamp = _ → s.state.shared.visibility = _
          rw [← hsame]
          exact hagree
        · rw [hstate, ← hstart, ← hmainnet]
          exact mergeSyncItems_held hids hitems id

/-! ## Pulling from a device that does nothing else -/

/-- All pages of a device, each asked for after the cursor of the page before, merged by another
    one. -/
inductive Pulled (c : DevicesCrypto Key Json) (t : PlusRuntime Key) :
    Option String → PlusRuntime Key → PlusRuntime Key → Prop
  | last {after : Option String} {s s' : PlusRuntime Key} {json : String}
      {refused : Option String} :
      t.exportSync c after = .ok (some json) →
      s.mergeSync c.toPlusCrypto json refused = (.ok none, s') → Pulled c t after s s'
  | more {after : Option String} {s s' s'' : PlusRuntime Key} {json next : String}
      {refused : Option String} :
      t.exportSync c after = .ok (some json) →
      s.mergeSync c.toPlusCrypto json refused = (.ok (some next), s') →
      Pulled c t (some next) s' s'' → Pulled c t after s s''

variable {t : PlusRuntime Key} {after : Option String}

/-- The orders of a page are different ones. -/
theorem pairwise_exportItems (ht : Keyed t.state.mainnet) (after : Option String) :
    (t.exportItems after).Pairwise (·.order.id < ·.order.id) := by
  rw [itemsAfter_orders, List.pairwise_map]
  have hrows := ((pairwise_orders t.state.mainnet).filter
    fun row => after.all (· < row.1)).sublist (List.take_sublist 4 _)
  have hkey : ∀ row ∈ (Paging.itemsAfter Prod.fst t.state.mainnet.orders.toList after).take 4,
      row.2.id = row.1 := fun row hrow =>
    ht row.1 row.2 (Std.ExtTreeMap.mem_toList_iff_getElem?_eq_some.1
      (List.mem_filter.1 (List.mem_of_mem_take hrow)).1)
  refine hrows.imp_of_mem fun {a b} ha hb hlt => ?_
  rw [hkey a ha, hkey b hb]
  exact hlt

/-- The cursor of a page is that of its last item. -/
theorem next_exportPage (ht : Keyed t.state.mainnet) {issuer next : String}
    (hnext : (t.exportPage issuer after).next = some next) :
    after.all (· < next) = true ∧ ∀ item ∈ t.exportItems after, item.order.id ≤ next := by
  rw [exportPage] at hnext
  dsimp only at hnext
  split at hnext
  · obtain ⟨last, hlast, rfl⟩ := Option.map_eq_some_iff.1 hnext
    refine ⟨(exported_of_mem ht (List.mem_of_getLast? hlast)).2, fun item hitem => ?_⟩
    obtain ⟨init, hinit⟩ := List.getLast?_eq_some_iff.1 hlast
    have hpairwise := pairwise_exportItems ht after
    rw [hinit] at hpairwise hitem
    obtain hitem | hitem := List.mem_append.1 hitem
    · exact ((List.pairwise_append.1 hpairwise).2.2 item hitem last
        (List.mem_singleton_self _)).le
    · rw [List.mem_singleton.1 hitem]
  · cases hnext

/-- What a device has after it has pulled the orders from one cursor up to another one. -/
structure Taken (after upto : Option String) (t s s' : PlusRuntime Key) : Prop where
  account : s'.state.accountId = s.state.accountId ∧ t.state.accountId = s.state.accountId
  issuer : s'.issuer = s.issuer ∧ t.issuer.mainnetKeyId = s.issuer.mainnetKeyId
  head : (head s.state.shared).Joined (head t.state.shared) (head s'.state.shared)
  drawn : ∀ id, after.all (· < id) = true → upto.all (id ≤ ·) = true →
    (held s.state.mainnet id).Drawn (held t.state.mainnet id) (held s'.state.mainnet id)
  others : ∀ id, ¬(after.all (· < id) = true ∧ upto.all (id ≤ ·) = true) →
    held s'.state.mainnet id = held s.state.mainnet id

theorem taken_page (hpages : Devices.PagesRead c) (ht : Keyed t.state.mainnet)
    {refused next : Option String} {json : String}
    (hexport : t.exportSync c after = .ok (some json))
    (hmerge : s.mergeSync c.toPlusCrypto json refused = (.ok next, s')) :
    Taken after next t s s' ∧ next.all (fun next => after.all (· < next)) = true := by
  obtain ⟨issuer, hissuer, hjson⟩ := exportSync_eq_some hexport
  obtain ⟨page, hpage, hnext, haccount, hissuer', haccount', hissuer'', hhead, hitems⟩ :=
    mergeSync_merged hmerge
  obtain rfl := Option.some.inj ((hpages _ _ hjson).symm.trans hpage)
  have hitems := hitems ((pairwise_exportItems ht after).imp fun h => h.ne)
  have hbounds : ∀ item ∈ t.exportItems after,
      after.all (· < item.order.id) = true ∧ next.all (item.order.id ≤ ·) = true := by
    intro item hitem
    refine ⟨(exported_of_mem ht hitem).2, ?_⟩
    rcases hn : next with _ | n
    · rfl
    · exact decide_eq_true ((next_exportPage ht (hnext.trans hn)).2 item hitem)
  refine ⟨⟨⟨haccount', haccount⟩, ⟨hissuer'', hissuer.trans hissuer'.symm⟩, hhead,
    fun id hafter hupto => ?_, fun id hid => ?_⟩, ?_⟩
  · rw [Held.Drawn]
    split
    · next hnone =>
      refine (hitems id).2 fun item hitem hid => ?_
      subst hid
      cases hnone.symm.trans (exported_of_mem ht hitem).1
    · next item hsome =>
      have hmem : item ∈ t.exportItems after :=
        mem_of_exported ht issuer hsome hafter (by rwa [hnext])
      refine (hitems id).1 item hmem ?_
      obtain ⟨order, horder, heq⟩ := Option.map_eq_some_iff.1 hsome
      rw [← heq]
      exact ht id order horder
  · refine (hitems id).2 fun item hitem heq => hid ?_
    subst heq
    exact hbounds item hitem
  · rcases hn : next with _ | n
    · rfl
    · exact (next_exportPage ht (hnext.trans hn)).1

theorem taken_pulled (hpages : Devices.PagesRead c) (ht : Keyed t.state.mainnet)
    (h : Pulled c t after s s') : Taken after none t s s' := by
  induction h with
  | last hexport hmerge => exact (taken_page hpages ht hexport hmerge).1
  | @more after s s' s'' json next refused hexport hmerge hpulled ih =>
    obtain ⟨hfirst, hnext⟩ := taken_page hpages ht hexport hmerge
    have hnext : after.all (· < next) = true := hnext
    refine ⟨⟨ih.account.1.trans hfirst.account.1, hfirst.account.2⟩,
      ⟨ih.issuer.1.trans hfirst.issuer.1, hfirst.issuer.2⟩,
      (hfirst.head.again ih.head) ▸ hfirst.head, fun id hafter _ => ?_, fun id hid => ?_⟩
    · by_cases hle : id ≤ next
      · -- the order is on this page, and the others do not come back to it
        rw [ih.others id fun hlt => absurd (of_decide_eq_true hlt.1) (not_lt.2 hle)]
        exact hfirst.drawn id hafter (decide_eq_true hle)
      · rw [← hfirst.others id fun h => hle (of_decide_eq_true h.2)]
        exact ih.drawn id (decide_eq_true (not_le.1 hle)) rfl
    · have hnot : ¬after.all (· < id) = true := fun hafter => hid ⟨hafter, rfl⟩
      rw [ih.others id, hfirst.others id fun h => hnot h.1]
      intro hlt
      refine hnot ?_
      cases after with
      | none => rfl
      | some k => exact decide_eq_true ((of_decide_eq_true hnext).trans
          (of_decide_eq_true hlt.1))

theorem keyed_pulled (hs : Keyed s.state.mainnet) (h : Pulled c t after s s') :
    Keyed s'.state.mainnet := by
  induction h with
  | last _ hmerge => exact (mergeSync_onward hmerge).choose_spec.2.2.2.2 hs
  | more _ hmerge _ ih => exact ih ((mergeSync_onward hmerge).choose_spec.2.2.2.2 hs)

/-- Two devices that pull from each other, and once more, would send the same. -/
theorem pulled_quiet (hpages : Devices.PagesRead c) {s t s' t' s'' : PlusRuntime Key}
    (hs : Keyed s.state.mainnet) (ht : Keyed t.state.mainnet)
    (h : Pulled c t none s s') (h' : Pulled c s' none t t') (h'' : Pulled c t' none s' s'') :
    SameSync s'' t' := by
  have hs' := keyed_pulled hs h
  have hfirst := taken_pulled hpages ht h
  have hsecond := taken_pulled hpages hs' h'
  have hthird := taken_pulled hpages (keyed_pulled ht h') h''
  refine ⟨?_, ?_, ?_, fun id => ?_⟩
  · exact hthird.account.1.trans hthird.account.2.symm
  · rw [hthird.issuer.1, hthird.issuer.2]
  · have hback := hfirst.head.back hsecond.head
    have hself := hthird.head
    rw [hback] at hself ⊢
    exact hself.self
  · exact (hfirst.drawn id rfl rfl).settled (hsecond.drawn id rfl rfl) (hthird.drawn id rfl rfl)

end Merging


end PlusRuntime

namespace Devices

variable {c : DevicesCrypto Key Json} {w w' : Devices Key} {account : String}

/-- Every device has its orders under their ids, and the issuer of the account. -/
structure Keyed (c : DevicesCrypto Key Json) (account : String) (issuer : Issuer Key)
    (w : Devices Key) : Prop where
  known : Known c account w
  issuer : ∀ id, (w.device id).issuer = issuer
  keyed : ∀ id, PlusRuntime.Keyed (w.device id).state.mainnet

theorem Keyed.step (hreads : PlusRuntime.Reads c) {issuer : Issuer Key}
    (h : Keyed c account issuer w) (step : Step) : Keyed c account issuer (w.step c step) := by
  cases step with
  | deed id deed =>
    obtain ⟨-, -, hstored⟩ := h.known id
    have hafter := PlusRuntime.perform_spec hreads hstored deed
    have hself : PlusRuntime.Keyed ((w.device id).perform c deed).state.mainnet := by
      obtain ⟨call, rfl⟩ | hsame := hafter.purchases
      · exact PlusRuntime.keyed_run (h.keyed id) call
      · exact fun k order ho => h.keyed id k order (hsame.orders ▸ ho)
    refine ⟨(h.known.deed hreads id deed).1, fun other => ?_, fun other => ?_⟩
    all_goals
      rw [device_deed]
      by_cases hid : other = id
    · rw [hid, Function.update_self]
      exact hafter.issuer.trans (h.issuer id)
    · rw [Function.update_of_ne hid]
      exact h.issuer other
    · rw [hid, Function.update_self]
      exact hself
    · rw [Function.update_of_ne hid]
      exact h.keyed other
  | sendPage id after =>
    obtain heq | ⟨_, text, -, heq⟩ := step_sendPage (c := c) (w := w) id after
    · rw [heq]
      exact h
    · rw [heq]
      exact ⟨h.known, h.issuer, h.keyed⟩
  | sendSaved id =>
    rw [Devices.step]
    split
    · exact ⟨h.known, h.issuer, h.keyed⟩
    · exact h

theorem keyed_runs (hreads : PlusRuntime.Reads c) {issuer : Issuer Key}
    (h : Keyed c account issuer w) {steps : List Step}
    (hrun : Runs (Devices.step c) Sent w steps w') : Keyed c account issuer w' :=
  hrun.invariant (P := Keyed c account issuer) (fun _ step _ hv => hv.step hreads step) h

omit [DecidableEq Json] in
theorem keyed_start {issuer : Issuer Key} : Keyed c account issuer (start account issuer) where
  known := known_start
  issuer _ := rfl
  keyed id := ((stocked_start (c := c)).stocked id).keyed

/-- A device that does not ask another one has nothing to ask for.

    Take any run, and a digest that a device has at some point of it, which another one remembers.
    If that one has this digest itself later on, it sends exactly what the first one sent then, or
    the hash has a collision. -/
theorem digest_agreed (c : DevicesCrypto Key Json) (hreads : PlusRuntime.Reads c)
    (hpages : PagesRead c) (hdelimited : PlusRuntime.Delimited c) (sha256 : String → String)
    (account : String) (issuer : Issuer Key) (hissuer : issuer.mainnetKeyId.isSome = true)
    (steps more : List Step) (w w' : Devices Key)
    (hrun : Runs (Devices.step c) Sent (start account issuer) steps w)
    (hmore : Runs (Devices.step c) Sent w more w') (a b digest : String)
    (hsaved : (w.device b).syncDigest c sha256 = .ok digest)
    (hown : (w'.device a).syncDigest c sha256 = .ok digest) :
    (w.device b).SameSync (w'.device a) ∨ ∃ x y, x ≠ y ∧ sha256 x = sha256 y := by
  have hw := keyed_runs hreads keyed_start hrun
  have hw' := keyed_runs hreads hw hmore
  obtain ⟨key, hkey⟩ := Option.isSome_iff_exists.1 hissuer
  exact PlusRuntime.digest_sound hpages hdelimited (hw.keyed b) (hw'.keyed a)
    (by rw [hw.issuer, hkey]) (by rw [hw'.issuer, hkey]) hsaved hown

/-- Two devices come to rest.

    After any run, a device that pulls all pages of another one, is pulled from by it, and pulls
    once more sends the same as the other one and has the same digest, if nothing else happens in
    between. -/
theorem pulls_settle (c : DevicesCrypto Key Json) (hreads : PlusRuntime.Reads c)
    (hpages : PagesRead c) (account : String) (issuer : Issuer Key) (steps : List Step)
    (w : Devices Key) (hrun : Runs (Devices.step c) Sent (start account issuer) steps w)
    (a b : String) (a₁ b₁ a₂ : PlusRuntime Key)
    (hfirst : PlusRuntime.Pulled c (w.device b) none (w.device a) a₁)
    (hback : PlusRuntime.Pulled c a₁ none (w.device b) b₁)
    (hagain : PlusRuntime.Pulled c b₁ none a₁ a₂) :
    a₂.SameSync b₁ ∧ ∀ sha256, a₂.syncDigest c sha256 = b₁.syncDigest c sha256 := by
  have hw := keyed_runs hreads keyed_start hrun
  have hsame := PlusRuntime.pulled_quiet hpages (hw.keyed a) (hw.keyed b) hfirst hback hagain
  exact ⟨hsame, hsame.syncDigest⟩

/-! ### The order, pulled and pulled back -/

theorem delimited_pullCrypto : PlusRuntime.Delimited pullCrypto := by
  intro p q a b x y hp hq _
  have hp : (if p = paidPage then some pageText else none) = some a := hp
  have hq : (if q = paidPage then some pageText else none) = some b := hq
  split_ifs at hp hq
  exact Option.some.inj (hp.symm.trans hq)

theorem issuer_noDevices (id : String) :
    (noDevices.device id).issuer.mainnetKeyId = some "issuer" := rfl

variable {s : PlusRuntime Unit}

/-- A device with the order sends the page of it. -/
theorem exportSync_paid (hstate : s.state = paidState)
    (hissuer : s.issuer.mainnetKeyId = some "issuer") :
    s.exportSync pullCrypto none = .ok (some pageText) := by
  have hsame : s.SameSync (boughtDevices.device "desktop") := by
    rw [device_desktop]
    refine ⟨?_, hissuer.trans (issuer_noDevices "desktop").symm, ?_, fun id => ?_⟩
    all_goals rw [hstate]
  rw [hsame.exportSync, exportSync_desktop]

theorem syncDigest_paid (hstate : s.state = paidState)
    (hissuer : s.issuer.mainnetKeyId = some "issuer") (sha256 : String → String) :
    s.syncDigest pullCrypto sha256 = .ok (sha256 pageText) := by
  have hpages : s.syncPages pullCrypto (s.state.mainnet.orders.size + 1) none = .ok pageText := by
    rw [PlusRuntime.syncPages, exportSync_paid hstate hissuer]
    refine bind_eq_ok.2 ⟨_, rfl, bind_eq_ok.2 ⟨paidPage, getOr_eq_ok.2 parsePage_pageText, rfl⟩⟩
  exact bind_eq_ok.2 ⟨_, hpages, rfl⟩

/-- The order is stored over itself. -/
theorem mergeSyncItem_paid (hissuer : s.issuer.mainnetKeyId = some "issuer") :
    s.mergeSyncItem pullCrypto.toPlusCrypto paidState.mainnet ⟨paidOrder, "desktop", none, none⟩ =
      .ok paidState.mainnet := by
  have hold : paidState.mainnet.orders[paidOrder.id]? = some paidOrder := rfl
  have hwriter : paidState.mainnet.orderWriters[paidOrder.id]? = some "desktop" := rfl
  have horders : paidState.mainnet.orders.insert paidOrder.id paidOrder =
      paidState.mainnet.orders := Std.ExtTreeMap.toList_inj.1 rfl
  have hwriters : paidState.mainnet.orderWriters.insertIfNew paidOrder.id "desktop" =
      paidState.mainnet.orderWriters := Std.ExtTreeMap.toList_inj.1 rfl
  simp only [PlusRuntime.mergeSyncItem, bind_eq_ok, check_eq_ok, hold, hwriter]
  refine ⟨(), validate_paidOrder, (), ?_, (), ?_, ?_⟩
  · rw [hissuer]
    decide
  · decide
  · rw [if_neg (by decide)]
    simp only [bind_eq_ok, check_eq_ok]
    refine ⟨(), by decide, _, rfl, _, rfl, ?_⟩
    rw [horders, hwriters]
    rfl

theorem mergeSyncPage_paid (hissuer : s.issuer.mainnetKeyId = some "issuer") :
    s.mergeSyncPage pullCrypto.toPlusCrypto paidState paidPage = .ok paidState := by
  have hvisibility : PlusRuntime.mergeVisibility paidState paidPage = .ok paidState := by
    rw [PlusRuntime.mergeVisibility, if_neg (by decide), if_neg (by decide)]
  have hitems : paidPage.items.foldlM (s.mergeSyncItem pullCrypto.toPlusCrypto)
      paidState.mainnet = .ok paidState.mainnet := by
    rw [paidPage, List.foldlM_cons, mergeSyncItem_paid hissuer]
    rfl
  simp only [PlusRuntime.mergeSyncPage, bind_eq_ok, check_eq_ok]
  refine ⟨_, hvisibility, _, hitems, (), ?_, ?_⟩
  · rw [size_paidState]
    rfl
  · rw [show decide (0 < paidPage.counter) = false from rfl]
    rfl

theorem mergeSyncSeries_none (refused : Option String) :
    s.mergeSyncSeries pullCrypto.toPlusCrypto none false refused = .ok s.state := by
  rw [PlusRuntime.mergeSyncSeries, if_neg Bool.false_ne_true]

/-- A device that has the order. -/
def bought (s : PlusRuntime Unit) : PlusRuntime Unit :=
  { s with
    row := some (1 :: paidState.write)
    state := paidState }

theorem mergeSync_paid (hstate : s.state = paidState)
    (hissuer : s.issuer.mainnetKeyId = some "issuer") :
    s.mergeSync pullCrypto.toPlusCrypto pageText none = (.ok none, bought s) := by
  have hown : ¬(paidPage.account ≠ s.state.accountId ∨
      s.issuer.mainnetKeyId ≠ some paidPage.issuer ∨ 4 < paidPage.items.length ∨
        128 < paidPage.writer.utf8ByteSize) := by
    have haccount : paidPage.account = paidState.accountId := rfl
    rw [hstate, hissuer, haccount]
    simp [paidPage]
  have hpage : s.mergeSyncPage pullCrypto.toPlusCrypto s.state paidPage = .ok paidState := by
    rw [hstate]
    exact mergeSyncPage_paid hissuer
  rw [PlusRuntime.mergeSync_of_parts size_pageText parsePage_pageText hown
    (mergeSyncSeries_none none) hpage save_paidState]
  rfl

theorem mergeSync_phone_bought : (noDevices.device "phone").mergeSync pullCrypto.toPlusCrypto
    pageText none = (.ok none, bought (noDevices.device "phone")) := by
  rw [PlusRuntime.mergeSync_of_parts size_pageText parsePage_pageText own_paidPage
    mergeSyncSeries_phone mergeSyncPage_phone save_paidState]
  rfl

theorem exportSync_bought (hissuer : s.issuer.mainnetKeyId = some "issuer") :
    (bought s).exportSync pullCrypto none = .ok (some pageText) :=
  exportSync_paid rfl hissuer

/-- The order is sent and merged, and both devices have one digest. -/
theorem digest_agreed_bought : (boughtDevices.device "desktop").SameSync
      (((boughtDevices.step pullCrypto (.sendPage "desktop" none)).step pullCrypto
        (.deed "phone" (.purchase (.mergeSync pageText none)))).device "phone") ∨
    ∃ x y : String, x ≠ y ∧ id x = id y := by
  have hbuy : Runs (Devices.step pullCrypto) Sent noDevices
      [.deed "desktop" (.purchase (.saveOrder orderText none))] boughtDevices :=
    .cons trivial (.nil _)
  have hsent : (boughtDevices.step pullCrypto (.sendPage "desktop" none)).Sent
      (.deed "phone" (.purchase (.mergeSync pageText none))) := by
    rw [Devices.step, exportSync_desktop]
    exact List.mem_cons_self
  have hmore : Runs (Devices.step pullCrypto) Sent boughtDevices [.sendPage "desktop" none,
      .deed "phone" (.purchase (.mergeSync pageText none))] _ :=
    .cons trivial (.cons hsent (.nil _))
  have hphone : ((boughtDevices.step pullCrypto (.sendPage "desktop" none)).step pullCrypto
      (.deed "phone" (.purchase (.mergeSync pageText none)))).device "phone" =
        bought (noDevices.device "phone") := by
    rw [device_deed, Function.update_self, device_sendPage, device_phone, PlusRuntime.perform,
      PlusRuntime.run, mergeSync_phone_bought]
  refine digest_agreed pullCrypto reads_pullCrypto pagesRead_pullCrypto delimited_pullCrypto id
    sampleAccount _ rfl _ _ boughtDevices _ hbuy hmore "phone" "desktop" pageText ?_ ?_
  · rw [device_desktop]
    exact syncDigest_paid rfl rfl id
  · rw [hphone]
    exact syncDigest_paid rfl rfl id

/-- The second device pulls the order, is pulled from, and pulls once more. -/
theorem pulls_settle_bought :
    (bought (bought (noDevices.device "phone"))).SameSync
        (bought (boughtDevices.device "desktop")) ∧
      ∀ sha256, (bought (bought (noDevices.device "phone"))).syncDigest pullCrypto sha256 =
        (bought (boughtDevices.device "desktop")).syncDigest pullCrypto sha256 := by
  have hbuy : Runs (Devices.step pullCrypto) Sent noDevices
      [.deed "desktop" (.purchase (.saveOrder orderText none))] boughtDevices :=
    .cons trivial (.nil _)
  have hdesktop : (boughtDevices.device "desktop").state = paidState := by rw [device_desktop]
  have hissuer : (boughtDevices.device "desktop").issuer.mainnetKeyId = some "issuer" := by
    rw [device_desktop]
    rfl
  have hphone : (boughtDevices.device "phone").mergeSync pullCrypto.toPlusCrypto pageText none =
      (.ok none, bought (noDevices.device "phone")) := by
    rw [device_phone]
    exact mergeSync_phone_bought
  exact pulls_settle pullCrypto reads_pullCrypto pagesRead_pullCrypto sampleAccount _ _
    boughtDevices hbuy "phone" "desktop" _ _ _ (.last exportSync_desktop hphone)
    (.last (exportSync_bought rfl) (mergeSync_paid hdesktop hissuer))
    (.last (exportSync_bought hissuer) (mergeSync_paid rfl rfl))

end Devices

end Mosh.Plus
