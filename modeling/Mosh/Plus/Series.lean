import Mosh.Plus.Devices

/-!
# One renewal series for all devices

Over every run of the devices of an account, with whatever loss, repetition and order of what they
send, and with refused writes and restarts:

* `Agreed`: what holds of all devices, what they sent and what they were given;
* `series_agreed`: the devices that have a series have the same, what a device has acknowledged it
  has, and a device is ready to pay only after all devices of a roster had the series.
-/

namespace Mosh.Plus

open Checked Run

variable {Key Json : Type} [DecidableEq Json] {c : DevicesCrypto Key Json}

namespace Bootstrap

/-- Nothing but the commitment changes. -/
theorem committed_commitIfSaved (b : Bootstrap) : b.commitIfSaved.committed = true ↔
    b.committed = true ∨ b.registered = true ∧ b.members ≠ [] ∧
      ∀ id ∈ b.members, id ∈ b.acknowledgements := by
  simp [commitIfSaved, Std.ExtTreeSet.contains_iff_mem, and_assoc]

end Bootstrap

namespace Devices

variable {w w' : Devices Key} {account : String}

/-- A device has a series, and knows that it is registered. -/
def Has (w : Devices Key) (id : String) (series : PlusSeries) : Prop :=
  (w.shared id).series = some series ∧ (w.shared id).bootstrap.registered = true

/-- All devices of a roster that was given have a series. -/
def Everywhere (w : Devices Key) (series : PlusSeries) : Prop :=
  ∃ members ∈ w.rosters, members ≠ [] ∧ ∀ id ∈ members, w.Has id series

/-- What the devices agree on. -/
structure Agreed (c : DevicesCrypto Key Json) (account : String) (w : Devices Key) : Prop where
  members : ∀ id, (w.shared id).bootstrap.members = [] ∨
    (w.shared id).bootstrap.members ∈ w.rosters ∧
      c.rootDevice account = some (w.shared id).bootstrap.initializer
  root : ∀ id series, (w.shared id).series = some series →
    ∃ root, c.rootDevice account = some root ∧ (w.shared root).series = some series
  conflict : ∀ id, (w.shared id).bootstrap.conflict = false
  registered : ∀ id, (w.shared id).bootstrap.registered = true →
    ∃ series, (w.shared id).series = some series
  acknowledged : ∀ id, ∀ other ∈ (w.shared id).bootstrap.acknowledgements,
    ∃ series, w.Has id series ∧ w.Has other series
  committed : ∀ id, (w.shared id).bootstrap.committed = true →
    ∃ series, w.Has id series ∧ w.Everywhere series
  pages : ∀ text ∈ w.pages, ∃ page, c.parsePage text = some page ∧
    (∀ series ∈ page.series, ∃ id, w.Has id series) ∧
      (page.committed = true → ∃ series ∈ page.series, w.Everywhere series)
  saved : ∀ p ∈ w.saved, ∃ series registered roster,
    c.seriesDigest (series, registered, roster) = some p.2 ∧
      (registered = true → ∃ x, series = some x ∧ w.Has p.1 x)

/-- What a device has, it keeps, and a roster that was given stays given. -/
structure Later (w w' : Devices Key) : Prop where
  series : ∀ id series, (w.shared id).series = some series → (w'.shared id).series = some series
  registered : ∀ id, (w.shared id).bootstrap.registered = true →
    (w'.shared id).bootstrap.registered = true
  rosters : ∀ members ∈ w.rosters, members ∈ w'.rosters

namespace Later

theorem rfl : Later w w := ⟨fun _ _ => id, fun _ => id, fun _ => id⟩

theorem has (h : Later w w') {id : String} {series : PlusSeries} (hhas : w.Has id series) :
    w'.Has id series := ⟨h.series id series hhas.1, h.registered id hhas.2⟩

theorem everywhere (h : Later w w') {series : PlusSeries} (heverywhere : w.Everywhere series) :
    w'.Everywhere series := by
  obtain ⟨members, hmembers, hne, hall⟩ := heverywhere
  exact ⟨members, h.rosters members hmembers, hne, fun id hid => h.has (hall id hid)⟩

end Later

omit [DecidableEq Json] in
/-- What is sent stays true. -/
theorem Agreed.sent (h : Agreed c account w) (hlater : Later w w') (hpages : w'.pages = w.pages)
    (hsaved : w'.saved = w.saved) :
    (∀ text ∈ w'.pages, ∃ page, c.parsePage text = some page ∧
      (∀ series ∈ page.series, ∃ id, w'.Has id series) ∧
        (page.committed = true → ∃ series ∈ page.series, w'.Everywhere series)) ∧
      ∀ p ∈ w'.saved, ∃ series registered roster,
        c.seriesDigest (series, registered, roster) = some p.2 ∧
          (registered = true → ∃ x, series = some x ∧ w'.Has p.1 x) := by
  rw [hpages, hsaved]
  constructor
  · intro text htext
    obtain ⟨page, hparse, hseries, hcommitted⟩ := h.pages text htext
    exact ⟨page, hparse, fun series hs => (hseries series hs).imp fun _ => hlater.has,
      fun hc => (hcommitted hc).imp fun _ => And.imp_right hlater.everywhere⟩
  · intro p hp
    obtain ⟨series, registered, roster, hdigest, hhas⟩ := h.saved p hp
    exact ⟨series, registered, roster, hdigest,
      fun hr => (hhas hr).imp fun _ => And.imp_right hlater.has⟩

omit [DecidableEq Json] in
/-- The device that takes a step is the only one that has to be looked at. -/
theorem Agreed.update (h : Agreed c account w) {id : String} {x : Shared}
    (hshared : w'.shared = Function.update w.shared id x) (hpages : w'.pages = w.pages)
    (hsaved : w'.saved = w.saved) (hrosters : ∀ members ∈ w.rosters, members ∈ w'.rosters)
    (hseries : ∀ series, (w.shared id).series = some series → x.series = some series)
    (hregistered : (w.shared id).bootstrap.registered = true → x.bootstrap.registered = true)
    (hmembers : x.bootstrap.members = [] ∨ x.bootstrap.members ∈ w'.rosters ∧
      c.rootDevice account = some x.bootstrap.initializer)
    (hroot : ∀ series, x.series = some series → c.rootDevice account = some id ∨
      ∃ other, (w.shared other).series = some series)
    (hconflict : x.bootstrap.conflict = false)
    (hheld : x.bootstrap.registered = true → ∃ series, x.series = some series)
    (hacknowledged : Later w w' → ∀ other ∈ x.bootstrap.acknowledgements,
      ∃ series, w'.Has id series ∧ w'.Has other series)
    (hcommitted : Later w w' → x.bootstrap.committed = true →
      (w.shared id).bootstrap.committed = true ∨
      (∃ series, w'.Has id series ∧ w'.Everywhere series) ∨ x.bootstrap.registered = true ∧
        x.bootstrap.members ≠ [] ∧ ∀ m ∈ x.bootstrap.members, m ∈ x.bootstrap.acknowledgements) :
    Later w w' ∧ Agreed c account w' := by
  have hself : w'.shared id = x := by rw [hshared, Function.update_self]
  have hothers : ∀ other, other ≠ id → w'.shared other = w.shared other := fun other hne => by
    rw [hshared, Function.update_of_ne hne]
  -- every device is the one that took the step, or as it was
  have hall : ∀ P : String → Shared → Prop, P id x → (∀ other, P other (w.shared other)) →
      ∀ other, P other (w'.shared other) := by
    intro P hx hw other
    by_cases hid : other = id
    · rw [hid, hself]
      exact hx
    · rw [hothers other hid]
      exact hw other
  have hlater : Later w w' := by
    refine ⟨hall (fun other y => ∀ series, (w.shared other).series = some series →
      y.series = some series) hseries fun _ _ h => h, hall (fun other y =>
        (w.shared other).bootstrap.registered = true → y.bootstrap.registered = true) hregistered
          fun _ h => h, hrosters⟩
  obtain ⟨hpages', hsaved'⟩ := h.sent hlater hpages hsaved
  refine ⟨hlater, ?_, ?_, ?_, ?_, ?_, ?_, hpages', hsaved'⟩
  · exact hall (fun _ y => y.bootstrap.members = [] ∨ y.bootstrap.members ∈ w'.rosters ∧
      c.rootDevice account = some y.bootstrap.initializer) hmembers
        fun other => (h.members other).imp_right (And.imp_left (hrosters _))
  · have hold : ∀ other series, (w.shared other).series = some series →
        ∃ root, c.rootDevice account = some root ∧ (w'.shared root).series = some series :=
      fun other series hs => (h.root other series hs).imp fun root => And.imp_right
        (hlater.series root series)
    refine hall (fun _ y => ∀ series, y.series = some series →
      ∃ root, c.rootDevice account = some root ∧ (w'.shared root).series = some series)
        (fun series hs => ?_) hold
    obtain hroot | ⟨other, hother⟩ := hroot series hs
    · exact ⟨id, hroot, hself ▸ hs⟩
    · exact hold other series hother
  · exact hall (fun _ y => y.bootstrap.conflict = false) hconflict h.conflict
  · exact hall (fun _ y => y.bootstrap.registered = true → ∃ series, y.series = some series) hheld
      h.registered
  · refine hall (fun i y => ∀ other ∈ y.bootstrap.acknowledgements,
      ∃ series, w'.Has i series ∧ w'.Has other series) (hacknowledged hlater)
      fun i other hother => ?_
    exact (h.acknowledged i other hother).imp fun series => And.imp hlater.has hlater.has
  · have hold : ∀ i, (w.shared i).bootstrap.committed = true →
        ∃ series, w'.Has i series ∧ w'.Everywhere series := fun i hi =>
      (h.committed i hi).imp fun series => And.imp hlater.has hlater.everywhere
    refine hall (fun i y => y.bootstrap.committed = true → ∃ series, w'.Has i series ∧
      w'.Everywhere series) (fun hx => ?_) hold
    obtain hx | hx | ⟨hregistered', hne, hmem⟩ := hcommitted hlater hx
    · exact hold id hx
    · exact hx
    · -- all members have acknowledged the series of this device
      obtain ⟨series, hs⟩ := hheld hregistered'
      have hhas : w'.Has id series := ⟨hself ▸ hs, hself ▸ hregistered'⟩
      refine ⟨series, hhas, _, (hmembers.resolve_left hne).1, hne, fun m hm => ?_⟩
      obtain ⟨series', hid, hother⟩ := hacknowledged hlater m (hmem m hm)
      obtain rfl := Option.some.inj (hid.1.symm.trans hhas.1)
      exact hother

/-- The hash tells a series, its registration and the roster. -/
def Collisionless (c : DevicesCrypto Key Json) : Prop :=
  ∀ x y digest, c.seriesDigest x = some digest → c.seriesDigest y = some digest → x = y

omit [DecidableEq Json] in
theorem root_of_canInitializeSeries (hknown : Known c account w) (h : Agreed c account w)
    {id : String} (hroot : (w.device id).canInitializeSeries = true) :
    c.rootDevice account = some id := by
  simp only [PlusRuntime.canInitializeSeries, Bool.and_eq_true, decide_eq_true_eq] at hroot
  obtain ⟨⟨hwriter, hmem⟩, -⟩ := hroot
  obtain hempty | ⟨-, hinitializer⟩ := h.members id
  · have hempty : (w.device id).state.mainnet.bootstrap.members = [] := hempty
    rw [hempty] at hmem
    cases hmem
  · rw [hinitializer]
    exact congrArg some (hwriter.symm.trans (hknown id).1)

theorem mem_rosters_deed {id : String} {deed : Deed} :
    ∀ members ∈ w.rosters, members ∈ (w.step c (.deed id deed)).rosters := by
  intro members hmem
  cases deed with
  | reconcile => exact List.mem_cons_of_mem _ hmem
  | _ => exact hmem

theorem Agreed.deed (hreads : PlusRuntime.Reads c) (hdigest : Collisionless c)
    (hknown : Known c account w) (h : Agreed c account w) {id : String} {deed : Deed}
    (hsent : w.Sent (.deed id deed)) :
    Later w (w.step c (.deed id deed)) ∧ Agreed c account (w.step c (.deed id deed)) := by
  obtain ⟨-, x, hchange, hshared⟩ := hknown.deed hreads id deed
  obtain ⟨hwriter, haccount, -⟩ := hknown id
  set w' := w.step c (.deed id deed)
  have hrosters : ∀ members ∈ w.rosters, members ∈ w'.rosters := mem_rosters_deed
  have hmembers := (h.members id).imp_right (And.imp_left (hrosters _))
  have hacknowledged : Later w w' → ∀ other ∈ (w.shared id).bootstrap.acknowledgements,
      ∃ series, w'.Has id series ∧ w'.Has other series := fun hlater other hother =>
    (h.acknowledged id other hother).imp fun series => And.imp hlater.has hlater.has
  have hself : w'.shared id = x := by rw [hshared, Function.update_self]
  -- what a device that has the series may acknowledge
  have hown : (∃ series, x.series = some series) → x.bootstrap.registered = true →
      ∃ series, w'.Has id series ∧ w'.Has id series := fun ⟨series, hs⟩ hr =>
    ⟨series, ⟨hself ▸ hs, hself ▸ hr⟩, hself ▸ hs, hself ▸ hr⟩
  have hinsert : ∀ {acks : Std.ExtTreeSet String compare} {new other : String},
      other ∈ acks.insert new → other ∈ acks ∨ other = new := fun hother =>
    (Std.ExtTreeSet.mem_insert.1 hother).elim (fun heq => .inr (Std.compare_eq_iff_eq.1 heq).symm)
      .inl
  cases hchange with
  | none =>
    exact h.update hshared rfl rfl hrosters (fun _ h => h) (fun h => h) hmembers
      (fun series hs => .inr ⟨id, hs⟩) (h.conflict id) (h.registered id) hacknowledged
        fun _ => .inl
  | reconcile hroot hknown =>
    refine h.update hshared rfl rfl hrosters (fun _ h => h) (fun h => h)
      (.inr ⟨List.mem_cons_self, haccount ▸ hroot⟩) (fun series hs => .inr ⟨id, hs⟩) (h.conflict id)
        (h.registered id) (fun hlater other hother => ?_) fun _ hc => ?_
    · obtain hother | ⟨hregistered, rfl⟩ := hknown other hother
      · exact hacknowledged hlater other hother
      · rw [hwriter]
        exact hown (h.registered id hregistered) hregistered
    · exact ((Bootstrap.committed_commitIfSaved _).1 hc).imp_right .inr
  | prepareSeries hroot hnone =>
    refine h.update hshared rfl rfl hrosters (fun series hs => ?_) (fun h => h) hmembers
      (fun _ _ => .inl (root_of_canInitializeSeries hknown h hroot)) (h.conflict id)
        (fun _ => ⟨_, rfl⟩) hacknowledged fun _ => .inl
    exact absurd (hnone.symm.trans hs) nofun
  | confirmSeriesRegistered hroot hseries =>
    refine h.update hshared rfl rfl hrosters (fun _ h => h) (fun _ => rfl) hmembers
      (fun series hs => .inr ⟨id, hs⟩) (h.conflict id) (fun _ => ⟨_, hseries⟩)
        (fun hlater other hother => ?_) fun _ hc => ?_
    · obtain hother | rfl := hinsert hother
      · exact hacknowledged hlater other hother
      · rw [hwriter]
        exact hown ⟨_, hseries⟩ rfl
    · exact ((Bootstrap.committed_commitIfSaved _).1 hc).imp_right .inr
  | acknowledgeSync hregistered hdigest' =>
    refine h.update hshared rfl rfl hrosters (fun _ h => h) (fun h => h) hmembers
      (fun series hs => .inr ⟨id, hs⟩) (h.conflict id) (h.registered id)
        (fun hlater other hother => ?_) fun _ hc => ?_
    · obtain hother | rfl := hinsert hother
      · exact hacknowledged hlater other hother
      · -- what was sent has the hash of what this device has
        obtain ⟨series, registered, roster, hsent', hhas⟩ := h.saved _ hsent
        obtain ⟨rfl, hrest⟩ := Prod.mk.inj (hdigest _ _ _ hsent' (getOr_eq_ok.1 hdigest'))
        obtain ⟨y, hy, hhas⟩ := hhas ((Prod.mk.inj hrest).1.trans hregistered)
        exact ⟨y, hlater.has ⟨hy, hregistered⟩, hlater.has hhas⟩
    · exact ((Bootstrap.committed_commitIfSaved _).1 hc).imp_right .inr
  | merge hparse hcommitted hagree =>
    obtain ⟨page, hparse', hseries, hall⟩ := h.pages _ hsent
    obtain rfl := Option.some.inj (hparse'.symm.trans hparse)
    rcases hnew : page.series with _ | series
    · -- there is no series in the page
      rw [Shared.mergeSeries, hnew] at hshared
      exact h.update hshared rfl rfl hrosters (fun _ h => h) (fun h => h) hmembers
        (fun series hs => .inr ⟨id, hs⟩) (h.conflict id) (h.registered id) hacknowledged
          fun _ => .inl
    · rw [Shared.mergeSeries, hnew] at hshared hself hown
      refine h.update hshared rfl rfl hrosters (fun old hold => ?_) (fun _ => rfl) hmembers
        (fun series' hs => ?_) (h.conflict id) (fun _ => ⟨series, rfl⟩)
        (fun hlater other hother => ?_)
          fun hlater hc => ?_
      · rw [hagree series hnew old hold]
      · rw [← Option.some.inj hs]
        exact .inr ((hseries series hnew).imp fun _ => And.left)
      · obtain hother | rfl := hinsert hother
        · exact hacknowledged hlater other hother
        · rw [hwriter]
          exact hown ⟨series, rfl⟩ rfl
      · obtain hc | hc := Bool.or_eq_true_iff.1 hc
        · exact .inl hc
        · obtain ⟨series', hseries', heverywhere⟩ := hall hc
          obtain rfl := Option.some.inj (hnew.symm.trans hseries')
          exact .inr (.inl ⟨series, ⟨hself ▸ rfl, hself ▸ rfl⟩, hlater.everywhere heverywhere⟩)
  | conflict hparse hseries hknown hne =>
    -- the series of the page is the one of the account
    obtain ⟨page, hparse', hpage, -⟩ := h.pages _ hsent
    obtain rfl := Option.some.inj (hparse'.symm.trans hparse)
    obtain ⟨other, hother, -⟩ := hpage _ hseries
    obtain ⟨root, hroot, hs⟩ := h.root other _ hother
    obtain ⟨root', hroot', hs'⟩ := h.root id _ hknown
    obtain rfl := Option.some.inj (hroot.symm.trans hroot')
    exact absurd (Option.some.inj (hs'.symm.trans hs)) hne
  | setVisible hne =>
    exact h.update hshared rfl rfl hrosters (fun _ h => h) (fun h => h) hmembers
      (fun series hs => .inr ⟨id, hs⟩) (h.conflict id) (h.registered id) hacknowledged
        fun _ => .inl

/-- What is sent says what its device has. -/
theorem Agreed.send (hpages : PagesRead c) (hknown : Known c account w) (h : Agreed c account w)
    {step : Step} (hstep : ∀ id deed, step ≠ .deed id deed) :
    Later w (w.step c step) ∧ Known c account (w.step c step) ∧
      Agreed c account (w.step c step) := by
  cases step with
  | deed id deed => exact absurd rfl (hstep id deed)
  | sendPage id after =>
    obtain heq | ⟨issuer, text, htext, heq⟩ := step_sendPage (c := c) (w := w) id after
    · rw [heq]
      exact ⟨.rfl, hknown, h⟩
    · rw [heq]
      refine ⟨⟨fun _ _ h => h, fun _ h => h, fun _ h => h⟩, hknown, h.members, h.root, h.conflict,
        h.registered, h.acknowledged, h.committed, List.forall_mem_cons.2 ⟨?_, h.pages⟩, h.saved⟩
      refine ⟨_, hpages _ _ htext, fun series hs => ⟨id, ?_⟩, fun hc => ?_⟩
      · simp only [PlusRuntime.exportPage, Option.mem_def] at hs
        split_ifs at hs with hregistered
        exact ⟨hs, hregistered⟩
      · obtain ⟨series, hhas, heverywhere⟩ := h.committed id hc
        exact ⟨series, (if_pos hhas.2).trans hhas.1, heverywhere⟩
  | sendSaved id =>
    rw [Devices.step]
    split
    · next digest hdigest =>
      refine ⟨⟨fun _ _ h => h, fun _ h => h, fun _ h => h⟩, hknown, h.members, h.root, h.conflict,
        h.registered, h.acknowledged, h.committed, h.pages, List.forall_mem_cons.2 ⟨?_, h.saved⟩⟩
      exact ⟨_, _, _, getOr_eq_ok.1 hdigest, fun hregistered =>
        (h.registered id hregistered).imp fun series hs => ⟨hs, hs, hregistered⟩⟩
    · exact ⟨.rfl, hknown, h⟩

omit [DecidableEq Json] in
theorem agreed_start {issuer : Issuer Key} : Agreed c account (start account issuer) where
  members _ := .inl rfl
  root _ _ := nofun
  conflict _ := rfl
  registered _ := nofun
  acknowledged _ _ h := absurd h Std.ExtTreeSet.not_mem_empty
  committed _ := nofun
  pages _ := nofun
  saved _ := nofun

theorem Agreed.step (hreads : PlusRuntime.Reads c) (hpages : PagesRead c)
    (hdigest : Collisionless c) (hknown : Known c account w) (h : Agreed c account w) {step : Step}
    (hsent : w.Sent step) : Later w (w.step c step) ∧ Known c account (w.step c step) ∧
      Agreed c account (w.step c step) := by
  cases step with
  | deed id deed =>
    obtain ⟨hlater, hagreed⟩ := h.deed hreads hdigest hknown hsent
    exact ⟨hlater, (hknown.deed hreads id deed).1, hagreed⟩
  | sendPage id after => exact h.send hpages hknown nofun
  | sendSaved id => exact h.send hpages hknown nofun

theorem agreed_run (hreads : PlusRuntime.Reads c) (hpages : PagesRead c)
    (hdigest : Collisionless c) (hknown : Known c account w) (h : Agreed c account w)
    {steps : List Step} (hrun : Runs (Devices.step c) Sent w steps w') :
    Later w w' ∧ Known c account w' ∧ Agreed c account w' := by
  refine hrun.invariant (P := fun v => Later w v ∧ Known c account v ∧ Agreed c account v)
    (fun v step hsent hv => ?_) ⟨.rfl, hknown, h⟩
  obtain ⟨hlater, hknown, hagreed⟩ := hv
  obtain ⟨hlater', hnext⟩ := hagreed.step hreads hpages hdigest hknown hsent
  exact ⟨⟨fun id series hs => hlater'.series id series (hlater.series id series hs),
    fun id hr => hlater'.registered id (hlater.registered id hr),
    fun members hm => hlater'.rosters members (hlater.rosters members hm)⟩, hnext⟩

/-- The devices of an account have one renewal series.

    After any run, the devices that have a series have the same, none has seen a conflict, a device
    and all that it knows to have acknowledged have the series and know that it is registered, and
    a device that is ready to pay shares its series with all devices of a roster that some device
    was given. What a device has of this it keeps in every further run. -/
theorem series_agreed (c : DevicesCrypto Key Json) (hreads : PlusRuntime.Reads c)
    (hpages : PagesRead c) (hdigest : Collisionless c) (account : String) (issuer : Issuer Key)
    (steps : List Step) (w : Devices Key)
    (hrun : Runs (Devices.step c) Sent (start account issuer) steps w) :
    (∀ a b x y, (w.shared a).series = some x → (w.shared b).series = some y → x = y) ∧
    (∀ a, (w.shared a).bootstrap.conflict = false) ∧
    (∀ a, ∀ b ∈ (w.shared a).bootstrap.acknowledgements,
      ∃ series, w.Has a series ∧ w.Has b series) ∧
    (∀ a, (w.device a).checkoutReady = true → ∃ series, w.Has a series ∧
      ∃ members ∈ w.rosters, members ≠ [] ∧ ∀ b ∈ members, w.Has b series) ∧
    ∀ more w', Runs (Devices.step c) Sent w more w' →
      ∀ a series, w.Has a series → w'.Has a series := by
  obtain ⟨-, hknown, hagreed⟩ := agreed_run hreads hpages hdigest known_start agreed_start hrun
  refine ⟨fun a b x y hx hy => ?_, hagreed.conflict, hagreed.acknowledged, fun a ha => ?_,
    fun more w' hmore a series hs => ?_⟩
  · obtain ⟨root, hroot, hx⟩ := hagreed.root a x hx
    obtain ⟨root', hroot', hy⟩ := hagreed.root b y hy
    obtain rfl := Option.some.inj (hroot.symm.trans hroot')
    exact Option.some.inj (hx.symm.trans hy)
  · simp only [PlusRuntime.checkoutReady, Bool.and_eq_true] at ha
    exact hagreed.committed a ha.1.1.2
  · exact (agreed_run hreads hpages hdigest hknown hagreed hmore).1.has hs

theorem collisionless_devicesCrypto : Collisionless devicesCrypto := by
  intro x y digest hx hy
  have heq := congrArg (Text.series.pair (Text.bool.pair Format.text)).parse
    (Option.some.inj (hx.trans hy.symm))
  rw [Format.parse_print, Format.parse_print] at heq
  exact Option.some.inj heq

/-- The first device is ready to pay: the roster of itself alone was given before the one with the
    second device, which does not have the series yet. -/
theorem series_agreed_drawn : ∃ series, drawnDevices.Has "desktop" series ∧
    ∃ members ∈ drawnDevices.rosters, members ≠ [] ∧
      ∀ b ∈ members, drawnDevices.Has b series :=
  (series_agreed devicesCrypto reads_devicesCrypto pagesRead_devicesCrypto
    collisionless_devicesCrypto sampleAccount _ _ _ runs_drawnDevices).2.2.2.1 "desktop"
      (by decide +kernel)

end Devices

end Mosh.Plus
