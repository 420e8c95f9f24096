import Mosh.Library.Paging
import Mosh.Plus.Devices

/-!
# Pulling the purchases of another device

A device asks another one for its purchases page by page, from the start to a page without a cursor,
and merges each page (`export_sync`, `merge_sync`). Between the pages both go on with what they do.

* `Order.Reached`, `Onward`: what merging keeps of the orders;
* `mem_exportItems`: what a page has between its cursor and the next one;
* `Pull`: the pages of another device, merged one after the other;
* `pull_covers`: after a pull a device has all orders of the other one, as far as they were.
-/

namespace Mosh.Plus

open Checked Run

variable {Key Json : Type} [DecidableEq Json]

/-- An order of the same offer, as far or further on. -/
structure Order.Reached (old new : Order) : Prop where
  offer : old.sameOffer new = true
  status : old.status ≤ new.status

theorem Order.Reached.rfl {o : Order} : o.Reached o := ⟨sameOffer_rfl, le_rfl⟩

theorem Order.Reached.trans {o o' o'' : Order} (h : o.Reached o') (h' : o'.Reached o'') :
    o.Reached o'' := ⟨sameOffer_trans h.offer h'.offer, h.status.trans h'.status⟩

namespace PlusRuntime

variable {c : PlusCrypto Key Json} {s s' : PlusRuntime Key} {m m' : MainnetState} {id : String}
  {item : Item} {items : List Item}

/-- No order falls behind, and nothing that belongs to one is lost. -/
structure Onward (m m' : MainnetState) : Prop where
  orders : ∀ (id : String) (old : Order), m.orders[id]? = some old →
    ∃ new, m'.orders[id]? = some new ∧ old.Reached new
  rest : KeepsRest m m'

theorem Onward.rfl : Onward m m := ⟨fun _ old h => ⟨old, h, .rfl⟩, .rfl⟩

theorem Onward.trans {m'' : MainnetState} (h : Onward m m') (h' : Onward m' m'') :
    Onward m m'' where
  orders id old hold := by
    obtain ⟨mid, hmid, hreached⟩ := h.orders id old hold
    obtain ⟨new, hnew, hreached'⟩ := h'.orders id mid hmid
    exact ⟨new, hnew, hreached.trans hreached'⟩
  rest := h.rest.trans h'.rest

theorem Onward.of_grows (h : m.Grows m') : Onward m m' where
  orders id old hold := (h.orders id old hold).imp fun _ => And.imp_right fun h =>
    ⟨h.offer, h.status⟩
  rest := ⟨h.prepared, h.certificates, h.writers⟩

/-- An order is stored under its id. -/
def Keyed (m : MainnetState) : Prop :=
  ∀ (id : String) (order : Order), m.orders[id]? = some order → order.id = id

theorem Keyed.insert (h : Keyed m) (order : Order)
    (horders : m'.orders = m.orders.insert order.id order) : Keyed m' := by
  intro k stored hstored
  rw [horders, Std.ExtTreeMap.getElem?_insert] at hstored
  split at hstored
  · next heq =>
    rw [← Option.some.inj hstored]
    exact Std.compare_eq_iff_eq.1 heq
  · exact h k stored hstored

/-! ## Merging a page -/

/-- An order is there as far as it was elsewhere, and if it is not further on, so are the
    certificate and what was prepared for it. -/
def Has (m : MainnetState) (order : Order) (certified prepared : Prop) : Prop :=
  ∃ new, m.orders[order.id]? = some new ∧ order.Reached new ∧ (new.status = order.status →
    (certified → order.id ∈ m.certificates) ∧ (prepared → order.id ∈ m.prepared))

theorem Has.onward {order : Order} {certified prepared : Prop}
    (h : Has m order certified prepared) (hm : Onward m m') : Has m' order certified prepared := by
  obtain ⟨mid, hmid, hreached, hrest⟩ := h
  obtain ⟨new, hnew, hreached'⟩ := hm.orders _ mid hmid
  refine ⟨new, hnew, hreached.trans hreached', fun heq => ?_⟩
  -- a status that is as it came was so before
  obtain ⟨hcertified, hprepared⟩ := hrest
    (le_antisymm (hreached'.status.trans_eq heq) hreached.status)
  exact ⟨fun h => hm.rest.certificates _ (hcertified h),
    fun h => hm.rest.prepared _ (hprepared h)⟩

/-- What there is of an order as far as it came later, there is of it as far as it was. -/
theorem Has.of_reached {old order : Order} {certified certified' prepared prepared' : Prop}
    (h : Has m order certified prepared) (hreached : old.Reached order)
    (hcertified : certified' → certified) (hprepared : prepared' → prepared) :
    Has m old certified' prepared' := by
  obtain ⟨new, hnew, hreached', hrest⟩ := h
  have hid : old.id = order.id := congrArg PlusOrder.id (Order.sameOffer_iff.1 hreached.offer).1
  refine ⟨new, hid ▸ hnew, hreached.trans hreached', fun heq => ?_⟩
  obtain ⟨hcertified', hprepared'⟩ := hrest
    (le_antisymm (heq.trans_le hreached.status) hreached'.status)
  exact ⟨fun h => hid ▸ hcertified' (hcertified h), fun h => hid ▸ hprepared' (hprepared h)⟩

/-- What an item leaves of its order. -/
def Arrived (item : Item) (m : MainnetState) : Prop :=
  Has m item.order (item.certificate.isSome = true) (item.prepared.isSome = true)

theorem mergeSyncItem_onward (h : s.mergeSyncItem c m item = .ok m') :
    Onward m m' ∧ Arrived item m' ∧ (Keyed m → Keyed m') := by
  obtain ⟨rfl, stored, hstored, hoffer, hbehind⟩ |
    ⟨horders, hkeeps, hagrees, hcertificate, hprepared⟩ := mergeSyncItem_eq_ok h
  · exact ⟨.rfl, ⟨stored, hstored, ⟨hoffer, hbehind.le⟩, fun heq => absurd heq hbehind.ne'⟩,
      fun h => h⟩
  · refine ⟨⟨fun k old hold => ?_, hkeeps⟩, ⟨item.order, ?_, .rfl, fun _ => ⟨hcertificate,
      hprepared⟩⟩, fun hkeyed => hkeyed.insert _ horders⟩
    · rw [horders, Std.ExtTreeMap.getElem?_insert]
      split
      · next heq =>
        obtain rfl := Std.compare_eq_iff_eq.1 heq
        obtain ⟨hsame, hle⟩ := hagrees old hold
        exact ⟨item.order, rfl, hsame.offer, hle⟩
      · exact ⟨old, hold, .rfl⟩
    · rw [horders, Std.ExtTreeMap.getElem?_insert_self]

theorem mergeSyncItems_onward (h : items.foldlM (s.mergeSyncItem c) m = .ok m') :
    Onward m m' ∧ (∀ item ∈ items, Arrived item m') ∧ (Keyed m → Keyed m') := by
  induction items generalizing m with
  | nil =>
    obtain rfl := Except.ok.inj h
    exact ⟨.rfl, fun _ h => absurd h List.not_mem_nil, fun h => h⟩
  | cons item items ih =>
    rw [List.foldlM_cons, bind_eq_ok] at h
    obtain ⟨mid, hitem, h⟩ := h
    obtain ⟨hfirst, harrived, hkeyed⟩ := mergeSyncItem_onward hitem
    obtain ⟨hrest, hall, hkeyed'⟩ := ih h
    exact ⟨hfirst.trans hrest, List.forall_mem_cons.2 ⟨Has.onward harrived hrest, hall⟩,
      fun h => hkeyed' (hkeyed h)⟩

/-- What a page that is merged leaves of the purchases. -/
theorem mergeSync_onward {json : String} {refused next : Option String}
    (h : s.mergeSync c json refused = (.ok next, s')) : ∃ page, c.parsePage json = some page ∧
      page.next = next ∧ Onward s.state.mainnet s'.state.mainnet ∧
        (∀ item ∈ page.items, Arrived item s'.state.mainnet) ∧
          (Keyed s.state.mainnet → Keyed s'.state.mainnet) := by
  rw [mergeSync] at h
  split at h
  · cases h
  split at h
  · cases h
  next page hpage =>
    split at h
    · cases h
    obtain ⟨mid, hseries, -, horders, hkeeps⟩ | ⟨e, s₁, hseries, -⟩ :=
      mergeSyncSeries_cases (c := c) (s := s) page.series page.committed refused
    · rw [hseries] at h
      dsimp only at h
      split at h
      · cases h
      next hsaved =>
        obtain ⟨hnext, rfl⟩ := Prod.mk.inj h
        obtain ⟨merged, hmerged, hsave⟩ := bind_eq_ok.1 hsaved
        simp only [mergeSyncPage, bind_eq_ok] at hmerged
        obtain ⟨shown, hvisibility, mainnet, hitems, -, -, hmerged⟩ := hmerged
        obtain ⟨horders', hkeeps'⟩ := mergeVisibility_eq_ok hvisibility
        obtain ⟨honward, harrived, hkeyed⟩ := mergeSyncItems_onward hitems
        rw [state_save hsave, ← Except.ok.inj hmerged]
        have hstart : shown.mainnet.orders = s.state.mainnet.orders := horders'.trans horders
        refine ⟨page, hpage, Except.ok.inj hnext, Onward.trans ⟨fun k old hold => ?_,
          hkeeps.trans hkeeps'⟩ honward, harrived, fun h => hkeyed fun k order ho => ?_⟩
        · exact ⟨old, hstart ▸ hold, .rfl⟩
        · exact h k order (hstart ▸ ho)
    · rw [hseries] at h
      cases h

/-! ## Sending a page -/

theorem pairwise_orders (m : MainnetState) : m.orders.toList.Pairwise (·.1 < ·.1) :=
  Std.ExtTreeMap.ordered_keys_toList.imp fun h => compare_lt_iff_lt.1 h

/-- A page has all orders between its cursor and the next one, with what belongs to them. -/
theorem mem_exportItems (hkeyed : Keyed s.state.mainnet) {order : Order}
    (horder : s.state.mainnet.orders[id]? = some order) {issuer : String} {after : Option String}
    (hafter : after.all (· < id) = true)
    (hnext : (s.exportPage issuer after).next.all (id ≤ ·) = true) :
    ⟨order, s.state.mainnet.orderWriters[id]?.getD "", s.state.mainnet.prepared[id]?,
      s.state.mainnet.certificates[id]?⟩ ∈ s.exportItems after := by
  set rows := s.state.mainnet.orders.toList.filter fun row => after.all (· < row.1) with hrows
  set itemOf : String × Order → Item := fun row => ⟨row.2,
    s.state.mainnet.orderWriters[row.1]?.getD "", s.state.mainnet.prepared[row.1]?,
    s.state.mainnet.certificates[row.1]?⟩ with hitemOf
  have hitems : s.exportItems after = (rows.take 4).map itemOf := rfl
  have hmem : (id, order) ∈ rows := by
    rw [hrows, List.mem_filter]
    exact ⟨Std.ExtTreeMap.mem_toList_iff_getElem?_eq_some.2 horder, hafter⟩
  rw [hitems]
  refine List.mem_map.2 ⟨(id, order), ?_, rfl⟩
  rw [← List.take_append_drop 4 rows, List.mem_append] at hmem
  refine hmem.resolve_right fun hdrop => ?_
  -- there is more than the page, so it is full, and its last id does not reach what is missing
  have hlength : (rows.take 4).length = 4 := by
    have hlong := List.length_pos_of_mem hdrop
    rw [List.length_drop] at hlong
    rw [List.length_take]
    omega
  have hne : rows.take 4 ≠ [] := by
    rw [← List.length_pos_iff_ne_nil, hlength]
    decide
  have hlast := List.getLast_mem hne
  have hkey : ((rows.take 4).getLast hne).2.id = ((rows.take 4).getLast hne).1 :=
    hkeyed _ _ (Std.ExtTreeMap.mem_toList_iff_getElem?_eq_some.1
      (List.mem_filter.1 (List.mem_of_mem_take hlast)).1)
  have hpairwise : (rows.take 4 ++ rows.drop 4).Pairwise (·.1 < ·.1) := by
    rw [List.take_append_drop]
    exact (pairwise_orders _).filter _
  have hcursor : (s.exportPage issuer after).next = some ((rows.take 4).getLast hne).1 := by
    rw [exportPage]
    dsimp only
    rw [hitems, List.length_map, if_pos hlength, List.getLast?_map,
      List.getLast?_eq_some_getLast hne, Option.map_some, Option.map_some, ← hkey]
  rw [hcursor, Option.all_some, decide_eq_true_eq] at hnext
  exact absurd ((List.pairwise_append.1 hpairwise).2.2 _ hlast _ hdrop) (not_lt.2 hnext)

/-! ## All calls -/

/-- What the purchases of a device are like. -/
structure Stocked (s : PlusRuntime Key) : Prop where
  keyed : Keyed s.state.mainnet
  size : s.state.mainnet.orders.size ≤ 512

/-- A wallet is not behind what is stored. -/
def NotBehind (c : PlusCrypto Key Json) (s : PlusRuntime Key) : Call → Prop
  | .saveRecoveryStatus json now refused => Spares c s (.saveRecoveryStatus json now refused)
  | _ => True

theorem mergeSync_result (json : String) (refused : Option String) :
    Onward s.state.mainnet (s.mergeSync c json refused).2.state.mainnet ∧
      (Keyed s.state.mainnet → Keyed (s.mergeSync c json refused).2.state.mainnet) := by
  rcases hmerge : s.mergeSync c json refused with ⟨e | next, s'⟩
  · obtain rfl | hsave := mergeSync_error hmerge
    · exact ⟨.rfl, fun h => h⟩
    · rw [state_save hsave]
      exact ⟨⟨fun _ old h => ⟨old, h, .rfl⟩, fun _ h => h, fun _ h => h, fun _ h => h⟩,
        fun h => h⟩
  · obtain ⟨-, -, -, honward, -, hkeyed⟩ := mergeSync_onward hmerge
    exact ⟨honward, hkeyed⟩

theorem keyed_run (hkeyed : Keyed s.state.mainnet) (call : Call) :
    Keyed (s.run c call).2.state.mainnet := by
  have houtcome : ∀ x : Except String (PlusRuntime Key),
      (∀ s', x = .ok s' → Keyed s'.state.mainnet) → Keyed (s.outcome x).2.state.mainnet := by
    rintro (e | s') hx
    · exact hkeyed
    · exact hx s' rfl
  cases call with
  | saveOrder json refused =>
    refine houtcome _ fun s' h => ?_
    simp only [saveMainnetOrder, bind_eq_ok] at h
    obtain ⟨-, -, order, -, -, -, -, -, order', -, -, -, intent, -, hsave⟩ := h
    rw [state_save hsave]
    exact hkeyed.insert order' rfl
  | mergeSync json refused => exact (mergeSync_result json refused).2 hkeyed
  | saveRecoveryStatus json now refused =>
    refine houtcome _ fun s' h => ?_
    simp only [saveRecoveryStatus, bind_eq_ok] at h
    obtain ⟨-, -, status, -, recovery, -, -, -, mainnet, horders, -, -, recovery', -, hsave⟩ := h
    rw [state_save hsave]
    have hall : Keyed mainnet := foldlM_invariant horders (R := Keyed)
      (fun order _ m m' hm h => by
        simp only [mergeRecoveredOrder, bind_eq_ok] at h
        obtain ⟨-, -, -, -, -, -, recovery, -, h⟩ := h
        obtain rfl := Except.ok.inj h
        exact hm.insert { order with
          accessToken := m.orders[order.id]?.bind (·.accessToken) } rfl) hkeyed
    exact hall
  | prepareOrderIssuance id random refused =>
    refine houtcome _ fun s' h => ?_
    rcases hprepare : s.prepareOrderIssuance c id random refused with e | ⟨blind, next⟩
    · rw [hprepare] at h
      cases h
    · rw [hprepare] at h
      obtain rfl := Except.ok.inj h
      intro k order ho
      rw [(grows_prepareOrderIssuance hprepare).2] at ho
      exact hkeyed k order ho
  | completeOrderIssuance id reply now refused =>
    refine houtcome _ fun s' h => ?_
    simp only [completeOrderIssuance, bind_eq_ok, getOr_eq_ok] at h
    obtain ⟨prepared, -, certificate, -, order, horder, hsave⟩ := h
    rw [state_save hsave]
    obtain rfl := hkeyed id order horder
    exact hkeyed.insert { order with status := .issued } rfl

theorem onward_run (hs : Stocked s) {call : Call} (hcall : NotBehind c s call) :
    Onward s.state.mainnet (s.run c call).2.state.mainnet ∧ Stocked (s.run c call).2 := by
  obtain ⟨hforward, -, hsize⟩ := grows_run (c := c) hs.size call
  refine ⟨?_, keyed_run hs.keyed call, hsize⟩
  cases call with
  | mergeSync json refused => exact (mergeSync_result json refused).1
  | saveRecoveryStatus json now refused => exact .of_grows (hforward hcall)
  | _ => exact .of_grows (hforward trivial)

end PlusRuntime

namespace Devices

variable {c : DevicesCrypto Key Json} {w w' : Devices Key} {account : String}

/-- A step in which no wallet is behind. -/
def Forwards (c : DevicesCrypto Key Json) (w : Devices Key) (step : Step) : Prop :=
  w.Sent step ∧ ∀ id call, step = .deed id (.purchase call) →
    (w.device id).NotBehind c.toPlusCrypto call

/-- What is known of all devices. -/
structure Stocked (c : DevicesCrypto Key Json) (account : String) (w : Devices Key) : Prop where
  known : Known c account w
  stocked : ∀ id, (w.device id).Stocked

/-- The purchases of all devices go on. -/
def Onward (w w' : Devices Key) : Prop :=
  ∀ id, PlusRuntime.Onward (w.device id).state.mainnet (w'.device id).state.mainnet

theorem onward_step (hreads : PlusRuntime.Reads c) (h : Stocked c account w) {step : Step}
    (hcall : ∀ id call, step = .deed id (.purchase call) →
      (w.device id).NotBehind c.toPlusCrypto call) :
    Onward w (w.step c step) ∧ Stocked c account (w.step c step) := by
  cases step with
  | deed id deed =>
    obtain ⟨-, -, hstored⟩ := h.known id
    have hafter := PlusRuntime.perform_spec hreads hstored deed
    have hself : PlusRuntime.Onward (w.device id).state.mainnet
        ((w.device id).perform c deed).state.mainnet ∧ ((w.device id).perform c deed).Stocked := by
      obtain ⟨call, rfl⟩ | hsame := hafter.purchases
      · exact PlusRuntime.onward_run (h.stocked id) (hcall id call rfl)
      · refine ⟨⟨fun k old hold => ⟨old, hsame.orders ▸ hold, .rfl⟩, ?_, ?_, ?_⟩, ?_, ?_⟩
        · exact fun k hk => hsame.prepared ▸ hk
        · exact fun k hk => hsame.certificates ▸ hk
        · exact fun k hk => hsame.writers ▸ hk
        · exact fun k order ho => (h.stocked id).keyed k order (hsame.orders ▸ ho)
        · exact hsame.orders ▸ (h.stocked id).size
    have hall : ∀ P : String → PlusRuntime Key → Prop, P id ((w.device id).perform c deed) →
        (∀ other, P other (w.device other)) → ∀ other, P other
          ((w.step c (.deed id deed)).device other) := by
      intro P hx hw other
      rw [device_deed]
      by_cases hid : other = id
      · rw [hid, Function.update_self]
        exact hx
      · rw [Function.update_of_ne hid]
        exact hw other
    exact ⟨hall (fun other s' => PlusRuntime.Onward (w.device other).state.mainnet
      s'.state.mainnet) hself.1 fun _ => .rfl, (h.known.deed hreads id deed).1,
        hall (fun _ s' => s'.Stocked) hself.2 h.stocked⟩
  | sendPage id after =>
    obtain heq | ⟨issuer, text, -, heq⟩ := step_sendPage (c := c) (w := w) id after
    · rw [heq]
      exact ⟨fun _ => .rfl, h⟩
    · rw [heq]
      exact ⟨fun _ => .rfl, h.known, h.stocked⟩
  | sendSaved id =>
    rw [Devices.step]
    split
    · exact ⟨fun _ => .rfl, h.known, h.stocked⟩
    · exact ⟨fun _ => .rfl, h⟩

theorem onward_runs (hreads : PlusRuntime.Reads c) (h : Stocked c account w) {steps : List Step}
    (hrun : Runs (Devices.step c) (Forwards c) w steps w') :
    Onward w w' ∧ Stocked c account w' := by
  refine hrun.invariant (P := fun v => Onward w v ∧ Stocked c account v)
    (fun v step hstep hv => ?_) ⟨fun _ => .rfl, h⟩
  obtain ⟨honward, hstocked⟩ := hv
  obtain ⟨honward', hstocked'⟩ := onward_step hreads hstocked hstep.2
  exact ⟨fun id => (honward id).trans (honward' id), hstocked'⟩

omit [DecidableEq Json] in
theorem stocked_start {issuer : Issuer Key} : Stocked c account (start account issuer) where
  known := known_start
  stocked _ := {
    keyed := fun k order h => by
      rw [start, Std.ExtTreeMap.getElem?_empty] at h
      cases h
    size := Nat.zero_le _ }

/-- Pages of a device, each asked for after the cursor of the page before and merged by another
    device, up to one without a cursor. Anything in which no wallet is behind happens before each
    page is sent and before it is merged. -/
inductive Pull (c : DevicesCrypto Key Json) (a b : String) :
    Option String → Devices Key → Devices Key → Prop
  | last {after : Option String} {w w₁ w₂ : Devices Key} {steps steps' : List Step} {json : String}
      {refused : Option String} :
      Runs (Devices.step c) (Forwards c) w steps w₁ →
      (w₁.device a).exportSync c after = .ok (some json) →
      Runs (Devices.step c) (Forwards c) (w₁.step c (.sendPage a after)) steps' w₂ →
      ((w₂.device b).mergeSync c.toPlusCrypto json refused).1 = .ok none →
      Pull c a b after w (w₂.step c (.deed b (.purchase (.mergeSync json refused))))
  | more {after : Option String} {next json : String} {w w₁ w₂ w₃ : Devices Key}
      {steps steps' : List Step} {refused : Option String} :
      Runs (Devices.step c) (Forwards c) w steps w₁ →
      (w₁.device a).exportSync c after = .ok (some json) →
      Runs (Devices.step c) (Forwards c) (w₁.step c (.sendPage a after)) steps' w₂ →
      ((w₂.device b).mergeSync c.toPlusCrypto json refused).1 = .ok (some next) →
      Pull c a b (some next) (w₂.step c (.deed b (.purchase (.mergeSync json refused)))) w₃ →
      Pull c a b after w w₃

/-- What a page brings. -/
theorem has_page (hreads : PlusRuntime.Reads c) (hpages : PagesRead c) {a b : String}
    {after next : Option String} {w₁ w₂ : Devices Key} {steps steps' : List Step} {json : String}
    {refused : Option String} (h : Stocked c account w)
    (hrun : Runs (Devices.step c) (Forwards c) w steps w₁)
    (hexport : (w₁.device a).exportSync c after = .ok (some json))
    (hrun' : Runs (Devices.step c) (Forwards c) (w₁.step c (.sendPage a after)) steps' w₂)
    (hmerge : ((w₂.device b).mergeSync c.toPlusCrypto json refused).1 = .ok next) :
    Onward w (w₂.step c (.deed b (.purchase (.mergeSync json refused)))) ∧
      Stocked c account (w₂.step c (.deed b (.purchase (.mergeSync json refused)))) ∧
      ∀ id old, (w.device a).state.mainnet.orders[id]? = some old → after.all (· < id) = true →
        next.all (id ≤ ·) = true →
          PlusRuntime.Has ((w₂.step c (.deed b (.purchase
            (.mergeSync json refused)))).device b).state.mainnet old
              (id ∈ (w.device a).state.mainnet.certificates)
              (id ∈ (w.device a).state.mainnet.prepared) := by
  obtain ⟨honward₁, hstocked₁⟩ := onward_runs hreads h hrun
  have hsend : Onward w₁ (w₁.step c (.sendPage a after)) ∧
      Stocked c account (w₁.step c (.sendPage a after)) := onward_step hreads hstocked₁ nofun
  obtain ⟨honward₂, hstocked₂⟩ := onward_runs hreads hsend.2 hrun'
  set w₃ := w₂.step c (.deed b (.purchase (.mergeSync json refused))) with hw₃
  have hmerged : Onward w₂ w₃ ∧ Stocked c account w₃ :=
    onward_step hreads hstocked₂ fun id call heq => by
      obtain ⟨-, hdeed⟩ := Step.deed.inj heq
      rw [← Deed.purchase.inj hdeed]
      trivial
  refine ⟨fun id => (((honward₁ id).trans (hsend.1 id)).trans (honward₂ id)).trans (hmerged.1 id),
    hmerged.2, fun id old hold hafter hnext => ?_⟩
  -- what the page says of the order when it is sent
  obtain ⟨order, horder, hreached⟩ := (honward₁ a).orders id old hold
  rw [PlusRuntime.exportSync] at hexport
  split at hexport
  · cases hexport
  next issuer _ =>
    simp only [bind_eq_ok, getOr_eq_ok] at hexport
    obtain ⟨text, htext, -, -, hexport⟩ := hexport
    obtain rfl := Option.some.inj (Except.ok.inj hexport)
    rcases hresult : (w₂.device b).mergeSync c.toPlusCrypto text refused with ⟨result, s'⟩
    rw [hresult] at hmerge
    obtain rfl : result = .ok next := hmerge
    obtain ⟨page, hpage, hcursor, -, harrived, -⟩ := PlusRuntime.mergeSync_onward hresult
    obtain rfl := Option.some.inj ((hpages _ _ htext).symm.trans hpage)
    have hitem := PlusRuntime.mem_exportItems (hstocked₁.stocked a).keyed horder hafter
      (hcursor ▸ hnext)
    have hdevice : w₃.device b = s' := by
      rw [hw₃, device_deed, Function.update_self]
      exact congrArg Prod.snd hresult
    rw [hdevice]
    refine PlusRuntime.Has.of_reached (harrived _ hitem) hreached (fun hid => ?_) fun hid => ?_
    · exact Std.ExtTreeMap.mem_iff_isSome_getElem?.1 ((honward₁ a).rest.certificates id hid)
    · exact Std.ExtTreeMap.mem_iff_isSome_getElem?.1 ((honward₁ a).rest.prepared id hid)

theorem has_pull (hreads : PlusRuntime.Reads c) (hpages : PagesRead c) {a b : String}
    {after : Option String} (h : Stocked c account w) (hpull : Pull c a b after w w') :
    Onward w w' ∧ Stocked c account w' ∧ ∀ id old,
      (w.device a).state.mainnet.orders[id]? = some old → after.all (· < id) = true →
        PlusRuntime.Has (w'.device b).state.mainnet old
          (id ∈ (w.device a).state.mainnet.certificates)
          (id ∈ (w.device a).state.mainnet.prepared) := by
  induction hpull with
  | last hrun hexport hrun' hmerge =>
    obtain ⟨honward, hstocked, hhas⟩ := has_page hreads hpages h hrun hexport hrun' hmerge
    exact ⟨honward, hstocked, fun id old hold hafter => hhas id old hold hafter rfl⟩
  | @more after next json w w₁ w₂ w₃ steps steps' refused hrun hexport hrun' hmerge hpull ih =>
    obtain ⟨honward, hstocked, hhas⟩ := has_page hreads hpages h hrun hexport hrun' hmerge
    obtain ⟨honward', hstocked', hhas'⟩ := ih hstocked
    refine ⟨fun id => (honward id).trans (honward' id), hstocked', fun id old hold hafter => ?_⟩
    by_cases hid : id ≤ next
    · exact (hhas id old hold hafter (decide_eq_true hid)).onward (honward' b)
    · -- the order comes after the cursor
      obtain ⟨order, horder, hreached⟩ := (honward a).orders id old hold
      exact (hhas' id order horder (decide_eq_true (not_le.1 hid))).of_reached hreached
        ((honward a).rest.certificates id) ((honward a).rest.prepared id)

end Devices

/-! ### An order that is pulled -/

/-- The order is stored, and nothing else is bought. -/
def LocalState.bought (state : LocalState) : Bool :=
  state.mainnet.orders.toList = [("order", paidOrder)] &&
    state.mainnet.orderWriters.toList = [("order", "desktop")] &&
      LocalState.unbought { state with mainnet := { state.mainnet with
        orders := ∅
        orderWriters := ∅ } }

def LocalState.buy (state : LocalState) : LocalState :=
  { state with mainnet := { state.mainnet with
    orders := (∅ : Std.ExtTreeMap String Order compare).insert "order" paidOrder
    orderWriters := (∅ : Std.ExtTreeMap String String compare).insert "order" "desktop" } }

/-- Cryptography for devices that may have bought one thing. -/
def pullCrypto : DevicesCrypto Unit String where
  toPlusCrypto := { plusCrypto with
    encodeState := fun state =>
      if state.unbought then some (0 :: state.write)
      else if state.bought then some (1 :: state.write) else none }
  rootDevice := devicesCrypto.rootDevice
  seriesDigest := devicesCrypto.seriesDigest
  encodePage page := if page = paidPage then some pageText else none
  decodeState
    | 0 :: bytes => LocalState.read bytes
    | 1 :: bytes => (LocalState.read bytes).map (·.buy)
    | _ => none
  parseOffer _ := none

theorem LocalState.read_bought {state : LocalState} (h : state.bought = true) :
    (LocalState.read state.write).map (·.buy) = some state := by
  simp only [bought, Bool.and_eq_true, decide_eq_true_eq] at h
  obtain ⟨⟨horders, hwriters⟩, hrest⟩ := h
  have hread := LocalState.read_write hrest
  have horders' : state.mainnet.orders = (∅ : Std.ExtTreeMap String Order compare).insert "order"
      paidOrder := Std.ExtTreeMap.toList_inj.1 (horders.trans rfl)
  have hwriters' : state.mainnet.orderWriters =
      (∅ : Std.ExtTreeMap String String compare).insert "order" "desktop" :=
    Std.ExtTreeMap.toList_inj.1 (hwriters.trans rfl)
  change (LocalState.read (LocalState.write { state with mainnet := { state.mainnet with
    orders := ∅
    orderWriters := ∅ } })).map (·.buy) = _
  rw [hread, Option.map_some, LocalState.buy]
  dsimp only
  rw [← horders', ← hwriters']

theorem reads_pullCrypto : PlusRuntime.Reads pullCrypto := by
  intro state bytes h
  have h : (if state.unbought then some (0 :: state.write)
    else if state.bought then some (1 :: state.write) else none) = some bytes := h
  split_ifs at h with hunbought hbought
  · obtain rfl := Option.some.inj h
    exact LocalState.read_write hunbought
  · obtain rfl := Option.some.inj h
    exact LocalState.read_bought hbought

theorem pagesRead_pullCrypto : Devices.PagesRead pullCrypto := by
  intro page text h
  have h : (if page = paidPage then some pageText else none) = some text := h
  split_ifs at h with hpage
  obtain rfl := Option.some.inj h
  rw [hpage]
  simp only [pullCrypto, plusCrypto, if_true]

theorem validate_paidOrder : paidOrder.validate pullCrypto.toPlusCrypto = .ok () := by
  have hcosts : paidOrder.toPlusOrder.Costs 1000000 :=
    ⟨by decide +kernel, by decide, by norm_num, by decide, by decide, by decide +kernel⟩
  have hparse : pullCrypto.parsePaymentUrl paidOrder.paymentUri =
      some ⟨"solana", "wallet", none, [("amount", "1"), ("reference", "ref"),
        ("spl-token", "EPjFWdd5AufqSSqeM2qN1xzybapC8G4wEGGkZwyTDt1v")]⟩ := by
    simp only [pullCrypto, plusCrypto, if_true]
  rw [Order.validate, validate_eq_ok.2 ⟨1000000, _, hcosts, hparse,
    ⟨rfl, rfl, rfl, rfl, rfl⟩, by decide +kernel⟩]
  rfl

/-- A page that passes every check is merged. -/
theorem PlusRuntime.mergeSync_of_parts {c : PlusCrypto Key Json} {s s' : PlusRuntime Key}
    {json : String} {page : Page} {mid merged : LocalState} {refused : Option String}
    (hsize : json.utf8ByteSize ≤ 24000) (hpage : c.parsePage json = some page)
    (hown : ¬(page.account ≠ s.state.accountId ∨ s.issuer.mainnetKeyId ≠ some page.issuer ∨
      4 < page.items.length ∨ 128 < page.writer.utf8ByteSize))
    (hseries : s.mergeSyncSeries c page.series page.committed refused = .ok mid)
    (hmerged : s.mergeSyncPage c mid page = .ok merged)
    (hsave : s.save c merged refused = .ok s') :
    s.mergeSync c json refused = (.ok page.next, s') := by
  rw [PlusRuntime.mergeSync, if_neg (Nat.not_lt.2 hsize), hpage]
  dsimp only
  rw [if_neg hown, hseries]
  dsimp only
  rw [bind_eq_ok.2 ⟨_, hmerged, hsave⟩]

namespace Devices

/-- The state of a device that has the order. -/
def paidState : LocalState := LocalState.buy { accountId := sampleAccount }

theorem save_paidState {s : PlusRuntime Unit} :
    s.save pullCrypto.toPlusCrypto paidState none = .ok { s with
      row := some (1 :: paidState.write)
      state := paidState } := by
  have hbought : paidState.bought = true := by
    simp only [LocalState.bought, Bool.and_eq_true, decide_eq_true_eq]
    exact ⟨⟨rfl, rfl⟩, rfl⟩
  have hencode : pullCrypto.encodeState paidState = some (1 :: paidState.write) := by
    simp only [pullCrypto, hbought, if_true]
    exact if_neg (by decide)
  rw [PlusRuntime.save, hencode]
  rfl

/-- The first device has bought the order. -/
def boughtDevices : Devices Unit :=
  noDevices.step pullCrypto (.deed "desktop" (.purchase (.saveOrder orderText none)))

theorem insertIfNew_writer :
    (∅ : Std.ExtTreeMap String String compare).insertIfNew "order" "desktop" =
      (∅ : Std.ExtTreeMap String String compare).insert "order" "desktop" :=
  Std.ExtTreeMap.toList_inj.1 rfl

theorem size_orderText : orderText.utf8ByteSize ≤ 16384 := by decide +kernel

theorem saveMainnetOrder_desktop :
    (noDevices.device "desktop").saveMainnetOrder pullCrypto.toPlusCrypto orderText none =
      .ok { noDevices.device "desktop" with
        row := some (1 :: paidState.write)
        state := paidState } := by
  have hparse : pullCrypto.parseOrder orderText = some paidOrder := by
    simp only [pullCrypto, plusCrypto, if_true]
  have haccept : (noDevices.device "desktop").acceptOrder paidOrder = .ok paidOrder := rfl
  have hanswer : (noDevices.device "desktop").answerIntent pullCrypto.toPlusCrypto paidOrder =
    .ok none := rfl
  simp only [PlusRuntime.saveMainnetOrder, bind_eq_ok, check_eq_ok, getOr_eq_ok, hparse]
  refine ⟨(), decide_eq_true size_orderText, paidOrder, rfl, (), validate_paidOrder, (), ?_,
    paidOrder, haccept, (), ?_, none, hanswer, ?_⟩
  · decide
  · decide
  · have hnext : { (noDevices.device "desktop").state with
        mainnet := { (noDevices.device "desktop").state.mainnet with
          checkoutIntent := none
          orderWriters := (noDevices.device "desktop").state.mainnet.orderWriters.insertIfNew
            paidOrder.id (noDevices.device "desktop").writer
          orders := (noDevices.device "desktop").state.mainnet.orders.insert paidOrder.id
            paidOrder } } = paidState := by
      rw [show (noDevices.device "desktop").state.mainnet.orderWriters.insertIfNew
        paidOrder.id (noDevices.device "desktop").writer = _ from insertIfNew_writer]
      rfl
    rw [hnext]
    exact save_paidState

theorem device_desktop : boughtDevices.device "desktop" = { noDevices.device "desktop" with
    row := some (1 :: paidState.write)
    state := paidState } := by
  rw [boughtDevices, device_deed, Function.update_self, PlusRuntime.perform, PlusRuntime.run,
    saveMainnetOrder_desktop, PlusRuntime.outcome]

theorem device_phone : boughtDevices.device "phone" = noDevices.device "phone" := by
  rw [boughtDevices, device_deed, Function.update_of_ne (by decide)]

theorem size_pageText : pageText.utf8ByteSize ≤ 24000 := by decide +kernel

theorem exportSync_desktop :
    (boughtDevices.device "desktop").exportSync pullCrypto none = .ok (some pageText) := by
  have hpage : PlusRuntime.exportPage { noDevices.device "desktop" with
      row := some (1 :: paidState.write)
      state := paidState } "issuer" none = paidPage := rfl
  have hencode : pullCrypto.encodePage paidPage = some pageText := by
    simp only [pullCrypto, if_true]
  rw [device_desktop]
  change getOr "PLUS sync encoding failed" (pullCrypto.encodePage (PlusRuntime.exportPage
    { noDevices.device "desktop" with
      row := some (1 :: paidState.write)
      state := paidState } "issuer" none)) >>= _ = _
  rw [hpage, hencode]
  refine bind_eq_ok.2 ⟨pageText, rfl, ?_⟩
  rw [check, if_pos (decide_eq_true size_pageText)]
  rfl

theorem mergeSyncItem_phone : (noDevices.device "phone").mergeSyncItem pullCrypto.toPlusCrypto {}
    ⟨paidOrder, "desktop", none, none⟩ = .ok paidState.mainnet := by
  have hnone : ({} : MainnetState).orders[paidOrder.id]? = none := Std.ExtTreeMap.getElem?_empty
  simp only [PlusRuntime.mergeSyncItem, bind_eq_ok, check_eq_ok, hnone]
  refine ⟨(), validate_paidOrder, (), by decide, (), rfl, ?_⟩
  simp only [Option.any_none, Bool.false_eq_true, if_false, bind_eq_ok, check_eq_ok]
  refine ⟨(), rfl, ∅, rfl, ∅, rfl, ?_⟩
  rw [show (∅ : Std.ExtTreeMap String String compare).insertIfNew paidOrder.id "desktop" = _ from
    insertIfNew_writer]
  rfl

theorem mergeSyncSeries_phone : (noDevices.device "phone").mergeSyncSeries pullCrypto.toPlusCrypto
    none false none = .ok { accountId := sampleAccount } := by
  rw [PlusRuntime.mergeSyncSeries, if_neg Bool.false_ne_true]
  rfl

theorem mergeVisibility_phone :
    PlusRuntime.mergeVisibility { accountId := sampleAccount } paidPage =
      .ok { accountId := sampleAccount } := by
  rw [PlusRuntime.mergeVisibility, if_neg (by decide), if_neg (by decide)]

theorem mergeSyncItems_phone : paidPage.items.foldlM ((noDevices.device "phone").mergeSyncItem
    pullCrypto.toPlusCrypto) {} = .ok paidState.mainnet := by
  rw [paidPage, List.foldlM_cons, mergeSyncItem_phone]
  rfl

theorem size_paidState : paidState.mainnet.orders.size = 1 := rfl

theorem mergeSyncPage_phone : (noDevices.device "phone").mergeSyncPage pullCrypto.toPlusCrypto
    { accountId := sampleAccount } paidPage = .ok paidState := by
  simp only [PlusRuntime.mergeSyncPage, bind_eq_ok, check_eq_ok]
  refine ⟨_, mergeVisibility_phone, _, mergeSyncItems_phone, (), ?_, ?_⟩
  · rw [size_paidState]
    rfl
  · rw [show decide (0 < paidPage.counter) = false from rfl]
    rfl

theorem device_noDevices : (noDevices.device "phone").state = { accountId := sampleAccount } ∧
    (noDevices.device "phone").issuer.mainnetKeyId = some "issuer" := ⟨rfl, rfl⟩

theorem parsePage_pageText : pullCrypto.parsePage pageText = some paidPage := by
  simp only [pullCrypto, plusCrypto, if_true]

theorem own_paidPage : ¬(paidPage.account ≠ (noDevices.device "phone").state.accountId ∨
    (noDevices.device "phone").issuer.mainnetKeyId ≠ some paidPage.issuer ∨
    4 < paidPage.items.length ∨ 128 < paidPage.writer.utf8ByteSize) := by
  rw [device_noDevices.1, device_noDevices.2]
  simp [paidPage]

theorem mergeSync_phone : ((noDevices.device "phone").mergeSync pullCrypto.toPlusCrypto
    pageText none).1 = .ok none := by
  rw [PlusRuntime.mergeSync_of_parts size_pageText parsePage_pageText own_paidPage
    mergeSyncSeries_phone mergeSyncPage_phone save_paidState]
  rfl

theorem device_sendPage : (boughtDevices.step pullCrypto (.sendPage "desktop" none)).device =
    boughtDevices.device := by
  rw [Devices.step, exportSync_desktop]

/-- The first device sends the page, which the second one merges. -/
theorem pull_boughtDevices : Pull pullCrypto "desktop" "phone" none boughtDevices
    ((boughtDevices.step pullCrypto (.sendPage "desktop" none)).step pullCrypto
      (.deed "phone" (.purchase (.mergeSync pageText none)))) := by
  refine .last (.nil _) exportSync_desktop (.nil _) ?_
  rw [device_sendPage, device_phone]
  exact mergeSync_phone

end Devices

end Mosh.Plus
