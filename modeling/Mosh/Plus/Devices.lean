import Mosh.Library.Format
import Mosh.Library.Run
import Mosh.Plus.Bootstrap
import Mosh.Plus.Forward

/-!
# The devices of an account

The devices of an account send each other pages and say what they have saved
(`device_link/runtime/plus.rs`), and the calls of the user come between. What is sent may be lost,
repeated or arrive late, the store may refuse a write, and a device may start again.

* `Deed`, `perform`: what a device does;
* `Shared`, `Change`, `perform_spec`: what a deed does to what the devices share;
* `Devices`, `step`, `Sent`: the devices, with what has ever been sent.
-/

namespace Mosh.Plus

open Checked Run

variable {Key Json : Type} [DecidableEq Json] (c : DevicesCrypto Key Json)

/-! ## What a device does -/

/-- What a device does, each with what the store answers to the write. -/
inductive Deed
  | reconcile (roster : String) (members : List String) (refused : Option String)
  | prepareSeries (random : List UInt8) (refused : Option String)
  | confirmSeriesRegistered (id : String) (refused : Option String)
  | acknowledgeSync (device digest : String) (refused : Option String)
  | purchase (call : PlusRuntime.Call)
  | cancelCheckout (refused : Option String)
  | prepareCheckout (asset : String) (random : List UInt8) (refused : Option String)
  | bindCheckoutOffer (json : String) (refused : Option String)
  | saveSchedule (id : String) (reservedUntilMs : Nat) (refused : Option String)
  | setVisible (visible : Bool) (refused : Option String)
  | prepareRecovery (now : Nat) (random : List UInt8) (refused : Option String)
  | reopen

namespace PlusRuntime

variable (s : PlusRuntime Key)

/-- The device link knows the roster, and its first device is the one with the account's key. -/
def reloadPlus (roster : String) (members : List String) (refused : Option String) :
    Except String (PlusRuntime Key) := do
  let initializer ← getOr "invalid account" (c.rootDevice s.state.accountId)
  s.reconcilePlusRoster c roster initializer members refused

def perform : Deed → PlusRuntime Key
  | .reconcile roster members refused => (s.outcome (s.reloadPlus c roster members refused)).2
  | .prepareSeries random refused => (s.outcome ((s.prepareSeries c random refused).map (·.2))).2
  | .confirmSeriesRegistered id refused => (s.outcome (s.confirmSeriesRegistered c id refused)).2
  | .acknowledgeSync device digest refused =>
    (s.outcome (s.acknowledgeSync c device digest refused)).2
  | .purchase call => (s.run c.toPlusCrypto call).2
  | .cancelCheckout refused => (s.outcome (s.cancelCheckout c refused)).2
  | .prepareCheckout asset random refused =>
    (s.outcome ((s.prepareCheckout c asset random refused).map (·.2))).2
  | .bindCheckoutOffer json refused =>
    (s.outcome ((s.bindCheckoutOffer c json refused).map (·.2))).2
  | .saveSchedule id reservedUntilMs refused =>
    (s.outcome (s.saveSchedule c id reservedUntilMs refused)).2
  | .setVisible visible refused => (s.outcome (s.setMainnetVisible c visible refused)).2
  | .prepareRecovery now random refused => (s.outcome (s.prepareRecovery c now random refused)).2
  | .reopen => (s.outcome (openMainnet c s.row s.state.accountId s.issuer s.writer)).2

end PlusRuntime

/-! ## What the devices share -/

/-- The setting of the user that others see what the account has. The later one is shown, and of
    two at once the one of the later writer. -/
structure Visibility where
  counter : Nat
  writer : String
  visible : Bool

/-- When the setting was made, and where. -/
def Visibility.stamp (v : Visibility) : Lex (Nat × String) := toLex (v.counter, v.writer)

structure Shared where
  series : Option PlusSeries
  bootstrap : Bootstrap
  visibility : Visibility

def LocalState.shared (state : LocalState) : Shared :=
  ⟨state.mainnet.series, state.mainnet.bootstrap,
    state.mainnet.visibilityCounter, state.mainnet.visibilityWriter, state.visible⟩

def Page.visibility (page : Page) : Visibility := ⟨page.counter, page.writer, page.visible⟩

/-- The later of two settings. -/
def Visibility.later (v w : Visibility) : Visibility := if v.stamp < w.stamp then w else v

namespace Shared

variable (x : Shared)

/-- A bootstrap that takes the series of a page. -/
def mergeSeries (writer : String) (page : Page) : Shared :=
  match page.series with
  | none => x
  | some series => { x with
    series := some series
    bootstrap := { x.bootstrap with
      registered := true
      committed := x.bootstrap.committed || page.committed
      acknowledgements := x.bootstrap.acknowledgements.insert writer } }

end Shared

/-- What a deed does to what the devices share. -/
inductive Change (s : PlusRuntime Key) : Deed → Shared → Prop
  | none {deed : Deed} : Change s deed s.state.shared
  | reconcile {roster root : String} {members : List String} {refused : Option String}
      {known : Std.ExtTreeSet String compare} :
      c.rootDevice s.state.accountId = some root →
      (∀ id ∈ known, id ∈ s.state.shared.bootstrap.acknowledgements ∨
        s.state.shared.bootstrap.registered = true ∧ id = s.writer) →
      Change s (.reconcile roster members refused) { s.state.shared with
        bootstrap := Bootstrap.commitIfSaved { s.state.shared.bootstrap with
          roster := roster
          initializer := root
          members := members
          acknowledgements := known } }
  | prepareSeries {random : List UInt8} {refused : Option String} {series : PlusSeries} :
      s.canInitializeSeries = true → s.state.shared.series = .none →
      Change s (.prepareSeries random refused) { s.state.shared with series := some series }
  | confirmSeriesRegistered {id : String} {refused : Option String} {series : PlusSeries} :
      s.canInitializeSeries = true → s.state.shared.series = some series →
      Change s (.confirmSeriesRegistered id refused) { s.state.shared with
        bootstrap := Bootstrap.commitIfSaved { s.state.shared.bootstrap with
          registered := true
          acknowledgements := s.state.shared.bootstrap.acknowledgements.insert s.writer } }
  | acknowledgeSync {device digest : String} {refused : Option String} :
      s.state.shared.bootstrap.registered = true → s.seriesDigest c = .ok digest →
      Change s (.acknowledgeSync device digest refused) { s.state.shared with
        bootstrap := Bootstrap.commitIfSaved { s.state.shared.bootstrap with
          acknowledgements := s.state.shared.bootstrap.acknowledgements.insert device } }
  | merge {json : String} {refused : Option String} {page : Page} :
      c.parsePage json = some page →
      (page.series = .none → page.committed = false) →
      (∀ series ∈ page.series, ∀ old ∈ s.state.shared.series, old = series) →
      Change s (.purchase (.mergeSync json refused)) { s.state.shared.mergeSeries s.writer page with
        visibility := s.state.shared.visibility.later page.visibility }
  | conflict {json : String} {refused : Option String} {page : Page} {series old : PlusSeries} :
      c.parsePage json = some page → page.series = some series → s.state.shared.series = some old →
      old ≠ series →
      Change s (.purchase (.mergeSync json refused)) { s.state.shared with
        bootstrap := { s.state.shared.bootstrap with conflict := true } }
  | setVisible {visible : Bool} {refused : Option String} :
      s.state.shared.visibility.visible ≠ visible →
      Change s (.setVisible visible refused) { s.state.shared with
        visibility := ⟨s.state.shared.visibility.counter + 1, s.writer, visible⟩ }

namespace PlusRuntime

variable {c} {s s' : PlusRuntime Key} {deed : Deed}

/-- The row of a device is its state. -/
structure Stored (c : DevicesCrypto Key Json) (s : PlusRuntime Key) : Prop where
  read : ∀ bytes ∈ s.row, c.decodeState bytes = some s.state
  empty : s.row = none → s.state = { accountId := s.state.accountId }

/-- The purchases are as they were. -/
structure SamePurchases (m m' : MainnetState) : Prop where
  orders : m'.orders = m.orders
  prepared : m'.prepared = m.prepared
  certificates : m'.certificates = m.certificates
  writers : m'.orderWriters = m.orderWriters

/-- What a deed leaves of a device. -/
structure After (c : DevicesCrypto Key Json) (s : PlusRuntime Key) (deed : Deed)
    (s' : PlusRuntime Key) : Prop where
  writer : s'.writer = s.writer
  issuer : s'.issuer = s.issuer
  account : s'.state.accountId = s.state.accountId
  stored : Stored c s → Stored c s'
  change : Change c s deed s'.state.shared
  purchases : (∃ call, deed = .purchase call) ∨ SamePurchases s.state.mainnet s'.state.mainnet

omit [DecidableEq Json] in
theorem After.rfl : After c s deed s :=
  ⟨.refl _, .refl _, .refl _, id, .none, .inr ⟨.refl _, .refl _, .refl _, .refl _⟩⟩

omit [DecidableEq Json] in
theorem after_outcome {x : Except String (PlusRuntime Key)}
    (h : ∀ s', x = .ok s' → After c s deed s') : After c s deed (s.outcome x).2 := by
  rcases x with e | s'
  · exact .rfl
  · exact h s' (.refl _)

omit [DecidableEq Json] in
theorem after_outcome_map {α : Type} {x : Except String (α × PlusRuntime Key)}
    (h : ∀ a s', x = .ok (a, s') → After c s deed s') :
    After c s deed (s.outcome (x.map (·.2))).2 := by
  rcases x with e | ⟨a, s'⟩
  · exact .rfl
  · exact h a s' (.refl _)

/-- The JSON of a state is read as that state. -/
def Reads (c : DevicesCrypto Key Json) : Prop :=
  ∀ state bytes, c.encodeState state = some bytes → c.decodeState bytes = some state

theorem after_save (hreads : Reads c) {next : LocalState} {refused : Option String}
    (h : s.save c.toPlusCrypto next refused = .ok s') (hnext : next.accountId = s.state.accountId)
    (hchange : Change c s deed next.shared)
    (hpurchases : (∃ call, deed = .purchase call) ∨
      SamePurchases s.state.mainnet next.mainnet) : After c s deed s' := by
  obtain ⟨bytes, hbytes, rfl⟩ := save_eq_ok h
  refine ⟨.refl _, .refl _, hnext, fun _ => ⟨fun b hb => ?_, nofun⟩, hchange, hpurchases⟩
  rw [← Option.some.inj hb]
  exact hreads _ _ hbytes

/-! ### Each deed -/

theorem after_reconcile (hreads : Reads c) {roster : String} {members : List String}
    {refused : Option String} (h : s.reloadPlus c roster members refused = .ok s') :
    After c s (.reconcile roster members refused) s' := by
  simp only [reloadPlus, bind_eq_ok, getOr_eq_ok] at h
  obtain ⟨root, hroot, h⟩ := h
  rw [reconcilePlusRoster] at h
  dsimp only at h
  split at h
  · exact Except.ok.inj h ▸ .rfl
  split at h
  · cases h
  split at h
  · exact Except.ok.inj h ▸ .rfl
  · refine after_save hreads h (.refl _) (.reconcile hroot fun id hid => ?_)
      (.inr ⟨rfl, rfl, rfl, rfl⟩)
    dsimp only [LocalState.shared]
    split at hid
    · next hregistered =>
      obtain hid | hid := Std.ExtTreeSet.mem_insert.1 hid
      · exact .inr ⟨hregistered, (Std.compare_eq_iff_eq.1 hid).symm⟩
      · split at hid
        · exact .inl hid
        · exact absurd hid Std.ExtTreeSet.not_mem_empty
    · split at hid
      · exact .inl hid
      · exact absurd hid Std.ExtTreeSet.not_mem_empty

theorem after_prepareSeries (hreads : Reads c) {random : List UInt8} {refused : Option String}
    {series : PlusSeries} (h : s.prepareSeries c random refused = .ok (series, s')) :
    After c s (.prepareSeries random refused) s' := by
  simp only [prepareSeries, bind_eq_ok, check_eq_ok] at h
  obtain ⟨-, hroot, h⟩ := h
  split at h
  · obtain ⟨-, rfl⟩ := Prod.mk.inj (Except.ok.inj h)
    exact .rfl
  next hnone =>
    simp only [saveSeries, bind_eq_ok] at h
    obtain ⟨next, ⟨-, -, -, -, hsave⟩, drawn, -, h⟩ := h
    obtain ⟨-, rfl⟩ := Prod.mk.inj (Except.ok.inj h)
    exact after_save hreads hsave (.refl _) (.prepareSeries hroot hnone) (.inr ⟨rfl, rfl, rfl, rfl⟩)

theorem after_confirmSeriesRegistered (hreads : Reads c) {id : String} {refused : Option String}
    (h : s.confirmSeriesRegistered c id refused = .ok s') :
    After c s (.confirmSeriesRegistered id refused) s' := by
  simp only [confirmSeriesRegistered, bind_eq_ok, check_eq_ok, Bool.and_eq_true] at h
  obtain ⟨-, ⟨hroot, hseries⟩, hsave⟩ := h
  rcases hknown : s.state.mainnet.series with _ | series
  · rw [hknown] at hseries
    cases hseries
  · exact after_save hreads hsave (.refl _) (.confirmSeriesRegistered hroot hknown)
      (.inr ⟨rfl, rfl, rfl, rfl⟩)

theorem after_acknowledgeSync (hreads : Reads c) {device digest : String} {refused : Option String}
    (h : s.acknowledgeSync c device digest refused = .ok s') :
    After c s (.acknowledgeSync device digest refused) s' := by
  rw [acknowledgeSync] at h
  split at h
  · exact Except.ok.inj h ▸ .rfl
  next hready =>
    obtain ⟨own, hown, h⟩ := bind_eq_ok.1 h
    split at h
    · exact Except.ok.inj h ▸ .rfl
    next hnew =>
      simp only [Bool.or_eq_true, not_or, Bool.not_eq_true, Bool.not_eq_false',
        decide_eq_true_eq, not_not] at hready hnew
      exact after_save hreads h (.refl _) (.acknowledgeSync hready.1 (hnew.1 ▸ hown))
        (.inr ⟨rfl, rfl, rfl, rfl⟩)

/-- The calls that leave alone what the devices share. -/
theorem after_quiet (hreads : Reads c) {next : LocalState} {refused : Option String}
    (h : s.save c.toPlusCrypto next refused = .ok s') (hnext : next.accountId = s.state.accountId)
    (hshared : next.shared = s.state.shared)
    (hpurchases : (∃ call, deed = .purchase call) ∨
      SamePurchases s.state.mainnet next.mainnet) : After c s deed s' :=
  after_save hreads h hnext (hshared ▸ .none) hpurchases

theorem after_setVisible (hreads : Reads c) {visible : Bool} {refused : Option String}
    (h : s.setMainnetVisible c visible refused = .ok s') :
    After c s (.setVisible visible refused) s' := by
  simp only [setMainnetVisible, bind_eq_ok] at h
  obtain ⟨-, -, hsave⟩ := h
  by_cases hv : s.state.visible = visible
  · rw [if_pos hv, ← hv] at hsave
    exact after_save hreads hsave (.refl _) .none (.inr ⟨rfl, rfl, rfl, rfl⟩)
  · rw [if_neg hv] at hsave
    exact after_save hreads hsave (.refl _) (.setVisible hv) (.inr ⟨rfl, rfl, rfl, rfl⟩)

omit [DecidableEq Json] in
/-- Recovered orders leave alone what the devices share. -/
theorem shared_mergeRecoveredOrders {now : Nat} {orders : List Order} {m m' : MainnetState}
    (h : orders.foldlM (s.mergeRecoveredOrder c.toPlusCrypto now) m = .ok m') :
    { s.state with mainnet := m' }.shared = { s.state with mainnet := m }.shared := by
  refine foldlM_invariant h
    (R := fun m' => { s.state with mainnet := m' }.shared = { s.state with mainnet := m }.shared)
    (fun order _ m₁ m₂ hm h => ?_) rfl
  simp only [mergeRecoveredOrder, bind_eq_ok] at h
  obtain ⟨-, -, -, -, -, -, recovery, -, h⟩ := h
  obtain rfl := Except.ok.inj h
  exact hm

omit [DecidableEq Json] in
theorem shared_mergeSyncItems {items : List Item} {next : LocalState} {m : MainnetState}
    (h : items.foldlM (s.mergeSyncItem c.toPlusCrypto) next.mainnet = .ok m) :
    { next with mainnet := m }.shared = next.shared := by
  refine foldlM_invariant h (R := fun m => { next with mainnet := m }.shared = next.shared)
    (fun item _ m₁ m₂ hm h => ?_) rfl
  simp only [mergeSyncItem, bind_eq_ok] at h
  obtain ⟨-, -, -, -, -, -, h⟩ := h
  split at h
  · exact Except.ok.inj h ▸ hm
  · simp only [bind_eq_ok] at h
    obtain ⟨-, -, certificates, -, prepared, -, h⟩ := h
    obtain rfl := Except.ok.inj h
    exact hm

omit [DecidableEq Json] in
/-- A page leaves the later setting. -/
theorem shared_mergeSyncPage {next next' : LocalState} {page : Page}
    (h : s.mergeSyncPage c.toPlusCrypto next page = .ok next') :
    next'.accountId = next.accountId ∧ next'.shared = { next.shared with
      visibility := next.shared.visibility.later page.visibility } := by
  simp only [mergeSyncPage, bind_eq_ok] at h
  obtain ⟨mid, hvisibility, mainnet, hitems, -, -, h⟩ := h
  obtain rfl := Except.ok.inj h
  have hshared := shared_mergeSyncItems hitems
  rw [mergeVisibility] at hvisibility
  dsimp only at hvisibility
  split at hvisibility
  · next hlater =>
    have hlater : next.shared.visibility.stamp < page.visibility.stamp := hlater
    obtain rfl := Except.ok.inj hvisibility
    refine ⟨rfl, hshared.trans ?_⟩
    rw [Visibility.later, if_pos hlater]
    rfl
  next hlater =>
    have hlater : ¬ next.shared.visibility.stamp < page.visibility.stamp := hlater
    split at hvisibility
    · cases hvisibility
    · obtain rfl := Except.ok.inj hvisibility
      refine ⟨rfl, hshared.trans ?_⟩
      rw [Visibility.later, if_neg hlater]

theorem after_mergeSync (hreads : Reads c) {json : String} {refused : Option String} :
    After c s (.purchase (.mergeSync json refused))
      (s.mergeSync c.toPlusCrypto json refused).2 := by
  rw [mergeSync]
  split
  · exact .rfl
  split
  · exact .rfl
  next page hpage =>
    split
    · exact .rfl
    -- the series first: it is merged, or there is none, or it ends the call
    rcases hseries : page.series with _ | series
    · rw [mergeSyncSeries]
      split_ifs with hcommitted
      · exact .rfl
      dsimp only
      split
      · exact .rfl
      next hsaved =>
        obtain ⟨merged, hmerged, hsave⟩ := bind_eq_ok.1 hsaved
        obtain ⟨haccount, hshared⟩ := shared_mergeSyncPage hmerged
        refine after_save hreads hsave haccount (hshared ▸ ?_) (.inl ⟨_, rfl⟩)
        have hchange : Change c s (.purchase (.mergeSync json refused)) _ := .merge hpage
          (fun _ => Bool.eq_false_of_not_eq_true hcommitted) (by simp [hseries])
        rwa [Shared.mergeSeries, hseries] at hchange
    · rw [mergeSyncSeries]
      split_ifs with hinvalid hconflict
      · exact .rfl
      · rcases hsave : s.save c.toPlusCrypto _ refused with e | s'
        · exact .rfl
        · rcases hknown : s.state.mainnet.series with _ | old
          · rw [hknown] at hconflict
            cases hconflict
          · refine after_save hreads hsave rfl (.conflict hpage hseries hknown ?_)
              (.inl ⟨_, rfl⟩)
            rw [hknown] at hconflict
            exact of_decide_eq_true hconflict
      · dsimp only
        split
        · exact .rfl
        next hsaved =>
          obtain ⟨merged, hmerged, hsave⟩ := bind_eq_ok.1 hsaved
          obtain ⟨haccount, hshared⟩ := shared_mergeSyncPage hmerged
          refine after_save hreads hsave haccount (hshared ▸ ?_) (.inl ⟨_, rfl⟩)
          have hagree : ∀ new ∈ page.series, ∀ old ∈ s.state.shared.series, old = new := by
            intro new hnew old hold
            obtain rfl := Option.some.inj (hseries.symm.trans hnew)
            by_contra hne
            refine hconflict ?_
            rw [show s.state.mainnet.series = some old from hold]
            exact decide_eq_true hne
          have hchange : Change c s (.purchase (.mergeSync json refused)) _ := .merge hpage
            (by simp [hseries]) hagree
          rwa [Shared.mergeSeries, hseries] at hchange

omit [DecidableEq Json] in
/-- A device that starts again is as it was. -/
theorem openMainnet_eq_ok (hs : Stored c s)
    (h : openMainnet c s.row s.state.accountId s.issuer s.writer = .ok s') : s' = s := by
  simp only [openMainnet, bind_eq_ok] at h
  obtain ⟨-, -, state, hstate, -, -, h⟩ := h
  have heq : state.getD { accountId := s.state.accountId } = s.state := by
    rcases hrow : s.row with _ | bytes
    · rw [hrow] at hstate
      obtain rfl := Except.ok.inj hstate
      exact (hs.empty hrow).symm
    · rw [hrow, LocalState.load, hs.read bytes hrow] at hstate
      obtain rfl := Except.ok.inj hstate
      rfl
  rw [heq, if_pos rfl] at h
  exact (Except.ok.inj h).symm

theorem perform_spec (hreads : Reads c) (hs : Stored c s) (deed : Deed) :
    After c s deed (s.perform c deed) := by
  cases deed with
  | reconcile roster members refused => exact after_outcome fun _ => after_reconcile hreads
  | prepareSeries random refused => exact after_outcome_map fun _ _ => after_prepareSeries hreads
  | confirmSeriesRegistered id refused =>
    exact after_outcome fun _ => after_confirmSeriesRegistered hreads
  | acknowledgeSync device digest refused =>
    exact after_outcome fun _ => after_acknowledgeSync hreads
  | purchase call =>
    cases call with
    | saveOrder json refused =>
      refine after_outcome fun s' h => ?_
      simp only [saveMainnetOrder, bind_eq_ok] at h
      obtain ⟨-, -, order, -, -, -, -, -, order', -, -, -, intent, -, hsave⟩ := h
      exact after_quiet hreads hsave rfl rfl (.inl ⟨_, rfl⟩)
    | mergeSync json refused => exact after_mergeSync hreads
    | saveRecoveryStatus json now refused =>
      refine after_outcome fun s' h => ?_
      simp only [saveRecoveryStatus, bind_eq_ok] at h
      obtain ⟨-, -, status, -, recovery, -, -, -, mainnet, horders, -, -, recovery', -, hsave⟩ := h
      have hshared := shared_mergeRecoveredOrders horders
      exact after_quiet hreads hsave rfl hshared (.inl ⟨_, rfl⟩)
    | prepareOrderIssuance id random refused =>
      refine after_outcome_map fun blind s' h => ?_
      rw [prepareOrderIssuance] at h
      split at h
      · obtain ⟨-, rfl⟩ := Prod.mk.inj (Except.ok.inj h)
        exact .rfl
      · simp only [bind_eq_ok] at h
        obtain ⟨-, -, order, -, -, -, key, -, start, -, last, -, -, -, prepared, -, next, hsave,
          h⟩ := h
        obtain ⟨-, rfl⟩ := Prod.mk.inj (Except.ok.inj h)
        exact after_quiet hreads hsave rfl rfl (.inl ⟨_, rfl⟩)
    | completeOrderIssuance id reply now refused =>
      refine after_outcome fun s' h => ?_
      simp only [completeOrderIssuance, bind_eq_ok] at h
      obtain ⟨prepared, -, certificate, -, order, -, hsave⟩ := h
      exact after_quiet hreads hsave rfl rfl (.inl ⟨_, rfl⟩)
  | cancelCheckout refused =>
    refine after_outcome fun s' h => ?_
    simp only [cancelCheckout, bind_eq_ok] at h
    obtain ⟨-, -, hsave⟩ := h
    exact after_quiet hreads hsave rfl rfl (.inr ⟨rfl, rfl, rfl, rfl⟩)
  | prepareCheckout asset random refused =>
    refine after_outcome_map fun intent s' h => ?_
    simp only [prepareCheckout, bind_eq_ok] at h
    obtain ⟨-, -, h⟩ := h
    split at h
    · obtain ⟨-, -, h⟩ := bind_eq_ok.1 h
      obtain ⟨-, rfl⟩ := Prod.mk.inj (Except.ok.inj h)
      exact .rfl
    · obtain ⟨next, hsave, h⟩ := bind_eq_ok.1 h
      obtain ⟨-, rfl⟩ := Prod.mk.inj (Except.ok.inj h)
      exact after_quiet hreads hsave rfl rfl (.inr ⟨rfl, rfl, rfl, rfl⟩)
  | bindCheckoutOffer json refused =>
    refine after_outcome_map fun intent s' h => ?_
    simp only [bindCheckoutOffer, bind_eq_ok] at h
    obtain ⟨-, -, offer, -, intent', -, -, -, -, -, next, hsave, h⟩ := h
    obtain ⟨-, rfl⟩ := Prod.mk.inj (Except.ok.inj h)
    exact after_quiet hreads hsave rfl rfl (.inr ⟨rfl, rfl, rfl, rfl⟩)
  | saveSchedule id reservedUntilMs refused =>
    refine after_outcome fun s' h => ?_
    simp only [saveSchedule, bind_eq_ok] at h
    obtain ⟨-, -, hsave⟩ := h
    exact after_quiet hreads hsave rfl rfl (.inr ⟨rfl, rfl, rfl, rfl⟩)
  | setVisible visible refused => exact after_outcome fun _ => after_setVisible hreads
  | prepareRecovery now random refused =>
    refine after_outcome fun s' h => ?_
    simp only [prepareRecovery, bind_eq_ok] at h
    obtain ⟨-, -, h⟩ := h
    split at h
    · exact Except.ok.inj h ▸ .rfl
    · obtain ⟨-, -, hsave⟩ := bind_eq_ok.1 h
      exact after_quiet hreads hsave rfl rfl (.inr ⟨rfl, rfl, rfl, rfl⟩)
  | reopen =>
    refine after_outcome fun s' h => ?_
    rw [openMainnet_eq_ok hs h]
    exact .rfl

end PlusRuntime

/-! ## The devices -/

/-- The devices of an account, with what they ever sent, and the members of the rosters that they
    were given. -/
structure Devices (Key : Type) where
  device : String → PlusRuntime Key
  pages : List String
  saved : List (String × String)
  rosters : List (List String)

namespace Devices

/-- A device does something, answers a request with a page, or says what it has saved. -/
inductive Step
  | deed (id : String) (deed : Deed)
  | sendPage (id : String) (after : Option String)
  | sendSaved (id : String)

/-- No device has bought or seen anything. -/
def start (account : String) (issuer : Issuer Key) : Devices Key where
  device id := ⟨none, issuer, { accountId := account }, id⟩
  pages := []
  saved := []
  rosters := []

variable (w : Devices Key)

def shared (id : String) : Shared := (w.device id).state.shared

def step : Step → Devices Key
  | .deed id deed => { w with
    device := Function.update w.device id ((w.device id).perform c deed)
    rosters := match deed with
      | .reconcile _ members _ => members :: w.rosters
      | _ => w.rosters }
  | .sendPage id after =>
    match (w.device id).exportSync c after with
    | .ok (some page) => { w with pages := page :: w.pages }
    | _ => w
  | .sendSaved id =>
    match (w.device id).seriesDigest c with
    | .ok digest => { w with saved := (id, digest) :: w.saved }
    | .error _ => w

/-- The devices know who sends them something, and only what was sent arrives. -/
def Sent (w : Devices Key) : Step → Prop
  | .deed _ (.purchase (.mergeSync json _)) => json ∈ w.pages
  | .deed _ (.acknowledgeSync device digest _) => (device, digest) ∈ w.saved
  | _ => True

/-- What is known of every device: its id, its account, and that its row is its state. -/
def Known (c : DevicesCrypto Key Json) (account : String) (w : Devices Key) : Prop :=
  ∀ id, (w.device id).writer = id ∧ (w.device id).state.accountId = account ∧
    (w.device id).Stored c

variable {c} {w} {account : String}

theorem device_deed (id : String) (deed : Deed) : (w.step c (.deed id deed)).device =
    Function.update w.device id ((w.device id).perform c deed) := rfl

omit [DecidableEq Json] in
theorem known_start {issuer : Issuer Key} : Known c account (start account issuer) :=
  fun _ => ⟨rfl, rfl, nofun, fun _ => rfl⟩

/-- A deed changes what its device shares. -/
theorem Known.deed (hreads : PlusRuntime.Reads c) (h : Known c account w) (id : String)
    (deed : Deed) : Known c account (w.step c (.deed id deed)) ∧
      ∃ x, Change c (w.device id) deed x ∧
        (w.step c (.deed id deed)).shared = Function.update w.shared id x := by
  obtain ⟨hwriter, haccount, hstored⟩ := h id
  have hafter := PlusRuntime.perform_spec hreads hstored deed
  refine ⟨fun other => ?_, _, hafter.change, funext fun other => ?_⟩
  · rw [device_deed]
    by_cases hid : other = id
    · rw [hid, Function.update_self]
      exact ⟨hafter.writer.trans hwriter, hafter.account.trans haccount, hafter.stored hstored⟩
    · rw [Function.update_of_ne hid]
      exact h other
  · rw [shared, device_deed]
    by_cases hid : other = id
    · rw [hid, Function.update_self, Function.update_self]
    · rw [Function.update_of_ne hid, Function.update_of_ne hid]
      rfl

/-- The JSON of a page is read as that page. -/
def PagesRead (c : DevicesCrypto Key Json) : Prop :=
  ∀ page text, c.encodePage page = some text → c.parsePage text = some page

/-- A page that is sent is a page of the device as it is. -/
theorem step_sendPage (id : String) (after : Option String) :
    w.step c (.sendPage id after) = w ∨ ∃ issuer page,
      c.encodePage ((w.device id).exportPage issuer after) = some page ∧
        w.step c (.sendPage id after) = { w with pages := page :: w.pages } := by
  rw [step]
  split
  · next page hpage =>
    rw [PlusRuntime.exportSync] at hpage
    split at hpage
    · cases hpage
    next issuer _ =>
      simp only [bind_eq_ok, getOr_eq_ok] at hpage
      obtain ⟨json, hjson, -, -, hpage⟩ := hpage
      obtain rfl := Option.some.inj (Except.ok.inj hpage)
      exact .inr ⟨issuer, _, hjson, rfl⟩
  · exact .inl rfl

end Devices

/-! ### Two devices -/

namespace Text

theorem bool_toNat (b : Bool) : some (b.toNat == 1) = some b := by cases b <;> rfl

def bool : Format Bool := Format.nat.through Bool.toNat (fun n => some (n == 1)) bool_toNat

def series : Format (Option PlusSeries) :=
  ((Format.text.pair Format.text).through (fun x : PlusSeries => (x.id, x.accessToken))
    (fun (id, token) => some ⟨id, token⟩) fun _ => rfl).option

def acknowledgements : Format (Std.ExtTreeSet String compare) :=
  Format.text.list.through (·.toList) (fun ids => some (.ofList ids)) fun acks =>
    congrArg some (Std.ExtTreeSet.ext_mem fun id => by
      rw [Std.ExtTreeSet.mem_ofList, List.contains_iff_mem, Std.ExtTreeSet.mem_toList])

def bootstrap : Format Bootstrap :=
  (Format.text.pair (Format.text.pair (Format.text.list.pair (bool.pair (bool.pair (bool.pair
    acknowledgements)))))).through
      (fun b => (b.roster, b.initializer, b.members, b.registered, b.committed, b.conflict,
        b.acknowledgements))
      (fun (roster, initializer, members, registered, committed, conflict, acks) =>
        some ⟨roster, initializer, members, registered, committed, conflict, acks⟩) fun _ => rfl

/-- What a record has before anything is bought. -/
def unbought : Format (String × Bool × Bool × Option PlusSeries × Bootstrap × Nat × String) :=
  Format.text.pair (bool.pair (bool.pair (series.pair (bootstrap.pair
    (Format.number.pair Format.text)))))

/-- A page without orders. -/
def emptyPage : Format
    (String × String × Option PlusSeries × Bool × Nat × String × Bool × Option String) :=
  Format.text.pair (Format.text.pair (series.pair (bool.pair (Format.number.pair
    (Format.text.pair (bool.pair Format.text.option))))))

end Text

namespace LocalState

/-- Nothing is bought. -/
def unbought (state : LocalState) : Bool :=
  state.mainnet.orders.isEmpty && state.mainnet.prepared.isEmpty &&
    state.mainnet.certificates.isEmpty && state.mainnet.orderWriters.isEmpty &&
      state.mainnet.checkoutIntent.isNone && state.mainnet.reservedUntilMs.isNone &&
        state.mainnet.recovery.isNone

def write (state : LocalState) : List UInt8 :=
  Text.unbought.encode (state.accountId, state.visible, state.everVisible, state.mainnet.series,
    state.mainnet.bootstrap, state.mainnet.visibilityCounter, state.mainnet.visibilityWriter)

def read (bytes : List UInt8) : Option LocalState :=
  (Text.unbought.decode bytes).map
    fun (accountId, visible, everVisible, series, bootstrap, counter, writer) =>
      ⟨accountId, visible, everVisible, {
        series := series
        bootstrap := bootstrap
        visibilityCounter := counter
        visibilityWriter := writer }⟩

theorem read_write {state : LocalState} (h : state.unbought = true) :
    read state.write = some state := by
  rw [read, write, Format.decode_encode, Option.map_some]
  obtain ⟨accountId, visible, everVisible, mainnet⟩ := state
  cases mainnet
  simp only [unbought, Bool.and_eq_true, Std.ExtTreeMap.isEmpty_iff, Option.isNone_iff_eq_none] at h
  obtain ⟨⟨⟨⟨⟨⟨rfl, rfl⟩, rfl⟩, rfl⟩, rfl⟩, rfl⟩, rfl⟩ := h
  rfl

end LocalState

namespace Page

def print (page : Page) : String :=
  Text.emptyPage.print (page.account, page.issuer, page.series, page.committed, page.counter,
    page.writer, page.visible, page.next)

def parse (text : String) : Option Page :=
  (Text.emptyPage.parse text).map
    fun (account, issuer, series, committed, counter, writer, visible, next) =>
      ⟨account, issuer, series, committed, counter, writer, visible, [], next⟩

theorem parse_print {page : Page} (h : page.items = []) : parse page.print = some page := by
  rw [parse, print, Format.parse_print, Option.map_some]
  obtain ⟨account, issuer, series, committed, counter, writer, visible, items, next⟩ := page
  obtain rfl : items = [] := h
  rfl

end Page

/-- Cryptography for devices that have bought nothing. -/
def devicesCrypto : DevicesCrypto Unit String where
  toPlusCrypto := { plusCrypto with
    parsePage := Page.parse
    encodeState := fun state => if state.unbought then some state.write else none }
  rootDevice account := if account = sampleAccount then some "desktop" else none
  seriesDigest x := some ((Text.series.pair (Text.bool.pair Format.text)).print x)
  encodePage page := if page.items.isEmpty then some page.print else none
  decodeState := LocalState.read
  parseOffer _ := none

theorem reads_devicesCrypto : PlusRuntime.Reads devicesCrypto := by
  intro state bytes h
  have h : (if state.unbought then some state.write else none) = some bytes := h
  split_ifs at h with hunbought
  obtain rfl := Option.some.inj h
  exact LocalState.read_write hunbought

theorem pagesRead_devicesCrypto : Devices.PagesRead devicesCrypto := by
  intro page text h
  have h : (if page.items.isEmpty then some page.print else none) = some text := h
  split_ifs at h with hempty
  obtain rfl := Option.some.inj h
  have hparse : devicesCrypto.parsePage = Page.parse := rfl
  rw [hparse]
  exact Page.parse_print (List.isEmpty_iff.1 hempty)

namespace Devices

/-- The devices of an account, of which nothing is known. -/
def noDevices : Devices Unit := start sampleAccount ⟨(), some "issuer"⟩

/-- The first device draws a series and registers it, the user shows what the account has, and a
    second device is linked, which knows nothing of this yet. -/
def seriesDrawn : List Step :=
  [.deed "desktop" (.reconcile "first" ["desktop"] none),
    .deed "desktop" (.prepareSeries (List.replicate 56 7) none),
    .deed "desktop" (.confirmSeriesRegistered (Hex.encode (List.replicate 24 7)) none),
    .deed "desktop" (.setVisible true none),
    .deed "desktop" (.reconcile "second" ["desktop", "phone"] none),
    .deed "phone" (.reconcile "second" ["desktop", "phone"] none)]

def drawnDevices : Devices Unit := seriesDrawn.foldl (Devices.step devicesCrypto) noDevices

theorem runs_drawnDevices :
    Runs (Devices.step devicesCrypto) Sent noDevices seriesDrawn drawnDevices := by
  rw [drawnDevices, seriesDrawn]
  simp only [List.foldl_cons, List.foldl_nil]
  exact .cons trivial (.cons trivial (.cons trivial (.cons trivial (.cons trivial (.cons trivial
    (.nil _))))))

end Devices

end Mosh.Plus
