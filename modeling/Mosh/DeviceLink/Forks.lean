import Mosh.DeviceLink.Notices

/-!
# Changes on several devices

The devices of an account change its roster, each on its own, and spread the change by notices.
A device goes on only to a roster that extends its own one, so two devices whose rosters do not
extend each other stay apart for good. This does not happen as long as whoever changes the
roster has the newest one (`Account.Sequential`).

* `Settled`: what holds of a linked installation, and `Settled.effect`, where its roster comes
  from;
* `rosters_comparable`: the rosters of all devices extend each other if no two changes overlap,
  and a device that is active on the newer one can go on to it;
* `rosters_split`: two changes at the same time split the account.
-/

namespace Mosh.DeviceLink

open Checked
open Run (Runs)

variable {Key Signature Seed : Type}

/-- An active device is the last one with its id. -/
theorem knownDevice_of_mem {r : RosterCrypto Key Signature} {roster : DeviceRoster}
    {devices : List DeviceDescriptor} {d : DeviceDescriptor} (h : roster.devices r = .ok devices)
    (hd : d ∈ devices) : roster.knownDevice r d.deviceId = .ok (some d) := by
  have hfind : (roster.reverse.find? (·.device.deviceId = d.deviceId)).map (·.device) = some d := by
    induction roster using List.reverseRecOn generalizing devices with
    | nil => cases h
    | append_singleton pre last ih =>
      have hsound := verifyDevices_sound (pre ++ [last]) devices h
      have hpre : d ∈ activeDevices pre → last.device.deviceId ≠ d.deviceId →
          ((pre ++ [last]).reverse.find? (·.device.deviceId = d.deviceId)).map (·.device) =
            some d := fun hmem hne => by
        obtain ⟨before, hbefore⟩ := hsound.pre pre (by rintro rfl; cases hmem) (List.prefix_append ..)
        rw [List.reverse_append, List.reverse_singleton, List.singleton_append, List.find?_cons,
          decide_eq_false hne]
        exact ih hbefore ((verifyDevices_sound pre before hbefore).active ▸ hmem)
      have hids := hsound.ids
      rw [hsound.active, activeDevices, List.foldl_append, ← activeDevices, List.foldl_cons,
        List.foldl_nil, change] at hd hids
      split at hd
      · obtain ⟨hmem, hne⟩ := List.mem_filter.1 hd
        exact hpre hmem (Ne.symm (of_decide_eq_true hne))
      · next hv =>
        rw [if_neg hv, List.map_append, List.nodup_append] at hids
        rcases List.mem_append.1 hd with hmem | hmem
        · -- An addition of a device with its id would make two of them.
          exact hpre hmem (Ne.symm (hids.2.2 _ (List.mem_map_of_mem hmem) _ (by simp)))
        · rw [List.mem_singleton.1 hmem]
          simp
  simp only [DeviceRoster.knownDevice, h]
  exact congrArg Except.ok hfind

namespace Installation

/-- The event changes the roster, if it does anything. -/
def Event.changes : Event Seed → Bool
  | .approve .. | .revoke .. => true
  | _ => false

/-- A linked installation does not join an account, and no other owner of its row goes on to a
    roster. -/
def Event.stays : Event Seed → Bool
  | .joinLink .. | .otherAdopt .. => false
  | _ => true

variable (c : IdentityCrypto Key Signature Seed)

/-- The event brings a notice with a roster. -/
def Brings (s : Installation Seed) (ev : Event Seed) (roster : DeviceRoster) : Prop :=
  ∃ env packet body notice sender, ev = .receive env packet ∧
    stripHead rosterNoticePrefix packet = some body ∧
    RosterNotice.open c.toLinkCrypto s.record.device.mossPeerId body = .ok (notice, sender) ∧
    notice.ack = false ∧ notice.roster = roster

/-- The installation is linked: nothing is pending, it joins nothing, and its row is the one that it
    knows. -/
structure Settled (peer : String) (s : Installation Seed) : Prop where
  kept : Kept c peer s
  synced : s.row = some s.identity.persisted
  pending : s.record.pending = none
  joins : ¬ s.Joins

/-- What an event makes of the roster: it stays, it is changed, or it goes on to that of a notice. -/
structure Advances (ev : Event Seed) (s s' : Installation Seed) : Prop where
  device : s'.record.device = s.record.device
  roster : s.record.roster <+: s'.record.roster
  origin : s'.record.roster = s.record.roster ∨ ev.changes = true ∨
    s.Brings c ev s'.record.roster

variable {c} {peer : String} {s s' : Installation Seed} {ev : Event Seed}

/-- The row is opened as what it is. -/
theorem Settled.reopen (h : Settled c peer s) {identity : DeviceIdentity Seed} {seed : Seed}
    (hopen : DeviceIdentity.open c s.row peer seed = .ok identity) : identity = s.identity := by
  obtain ⟨hrow, hparse, -, -⟩ := h.kept.reopen hopen
  have hpersisted : s.identity.persisted = identity.persisted :=
    Option.some.inj (h.synced.symm.trans hrow)
  have hrecord : s.record = identity.record :=
    Option.some.inj (h.kept.identity.symm.trans (hpersisted ▸ hparse))
  obtain ⟨persisted, record⟩ := identity
  change s.identity.persisted = persisted at hpersisted
  change s.identity.record = record at hrecord
  rw [← hpersisted, ← hrecord]

/-- A change of a linked installation keeps it linked. -/
theorem Settled.effect (hc : Readable c) (hd : Collisionless c) (h : Settled c peer s)
    (heffect : Effect c ev s s') (hstays : ev.stays = true) :
    Settled c peer s' ∧ Advances c ev s s' := by
  have hkept := h.kept.effect hc heffect
  have hsame : s'.record.device = s.record.device → s'.record.roster = s.record.roster →
      Advances c ev s s' := fun hdevice hroster => ⟨hdevice, hroster ▸ List.prefix_rfl, .inl hroster⟩
  have hjoin {e : Exchange} (he : s.exchange = some e) (hrole : e.role = .joining) : False :=
    h.joins ⟨e, he, hrole⟩
  cases heffect with
  | quiet | tabled | otherRead => exact ⟨⟨hkept, h.synced, h.pending, h.joins⟩, hsame rfl rfl⟩
  | otherAdopted _ _ _ _ _ hev => rw [hev] at hstays; cases hstays
  | reloaded seed identity _ hopen =>
    rw [h.kept.valid.peer] at hopen
    obtain rfl := h.reopen hopen
    exact ⟨⟨hkept, rfl, h.pending, h.joins⟩, hsame rfl rfl⟩
  | dropped | cancelled =>
    exact ⟨⟨hkept, h.synced, h.pending, not_joins_none rfl⟩, hsame rfl rfl⟩
  | failed => exact ⟨⟨hkept, rfl, rfl, not_joins_none rfl⟩, hsame rfl rfl⟩
  | delivered | acked | certified => exact ⟨⟨hkept, rfl, h.pending, h.joins⟩, hsame rfl rfl⟩
  | froze _ _ _ _ _ _ _ _ hrole =>
    exact ⟨⟨hkept, h.synced, h.pending, not_joins_authorizing rfl hrole⟩, hsame rfl rfl⟩
  | offered _ _ _ _ _ _ _ _ _ _ _ _ he hrole => exact (hjoin he hrole).elim
  | readied => exact ⟨⟨hkept, h.synced, h.pending, h.joins⟩, hsame rfl rfl⟩
  | joined _ _ _ _ _ _ _ _ _ _ _ _ _ _ he hrole => exact (hjoin he hrole).elim
  | adopted env packet body notice sender record bytes hev hstrip hopen hack hextends hrecord =>
    obtain ⟨hdevice, -, hpending⟩ := withRoster_fields hrecord
    have hroster : record.roster = notice.roster := withRoster_roster hrecord
    refine ⟨⟨hkept, rfl, ?_, h.joins⟩, ⟨hdevice, ?_, .inr (.inr ?_)⟩⟩
    · rw [← Option.not_isSome_iff_eq_none]
      intro hsome
      have := hpending hsome
      rw [h.pending] at this
      cases this
    · change s.record.roster <+: record.roster
      rw [hroster]
      exact (DeviceRoster.extends_eq_true.1 hextends).2
    · exact ⟨env, packet, body, notice, sender, hev, hstrip, hopen, hack, hroster.symm⟩
  | begun => exact ⟨⟨hkept, h.synced, h.pending, not_joins_authorizing rfl rfl⟩, hsame rfl rfl⟩
  | prepared _ _ _ _ hev => rw [hev] at hstays; cases hstays
  | renamed _ _ _ _ _ _ hev => rw [hev] at hstays; cases hstays
  | asked _ _ _ _ _ hev => rw [hev] at hstays; cases hstays
  | granted env code e base joining offerHash rosterHash roster sealed bytes hev _ _ _ _ hoffer _
      hown hextend =>
    obtain ⟨-, entry, -, -, hroster, -⟩ := extend_eq_ok hextend
    obtain rfl := hd base s.record.roster offerHash hoffer hown
    refine ⟨⟨hkept, rfl, h.pending, not_joins_none rfl⟩, ⟨rfl, ?_, .inr (.inl ?_)⟩⟩
    · change s.record.roster <+: roster
      exact hroster ▸ List.prefix_append ..
    · rw [hev]
      rfl
  | removed env target roster devices bytes hev _ _ hrevoke =>
    obtain ⟨-, -, -, entry, -, -, -, -, hroster, -⟩ := revoke_eq_ok hrevoke
    refine ⟨⟨hkept, rfl, h.pending, h.joins⟩, ⟨rfl, ?_, .inr (.inl ?_)⟩⟩
    · change s.record.roster <+: roster
      exact hroster ▸ List.prefix_append ..
    · rw [hev]
      rfl
  | restarted env seed identity resumed _ hopen hresumed =>
    rw [h.kept.own] at hopen
    obtain rfl := h.reopen hopen
    have hnone : resumed = none := by
      rcases resumed_cases hresumed with ⟨-, hnone⟩ | ⟨p, e, message, hpending, -⟩
      · exact hnone
      · cases h.pending.symm.trans hpending
    subst hnone
    exact ⟨⟨hkept, rfl, h.pending, not_joins_none rfl⟩, hsame rfl rfl⟩

/-- An event keeps a linked installation linked. -/
theorem Settled.step (hc : Readable c) (hd : Collisionless c) (h : Settled c peer s)
    (hstays : ev.stays = true) :
    Settled c peer (Installation.step c s ev) ∧ Advances c ev s (Installation.step c s ev) := by
  refine (step_effects s ev).invariant (P := fun t => Settled c peer t ∧ Advances c ev s t)
    (fun t t' heffect ht => ?_) ⟨h, rfl, List.prefix_rfl, .inl rfl⟩
  obtain ⟨hsettled, hadvances⟩ := ht
  obtain ⟨hsettled', hdevice, hroster, horigin⟩ := hsettled.effect hc hd heffect hstays
  refine ⟨hsettled', hdevice.trans hadvances.device, hadvances.roster.trans hroster, ?_⟩
  rcases horigin with hsame | hchanges | hbrings
  · exact hsame ▸ hadvances.origin
  · exact .inr (.inl hchanges)
  · rw [Brings, hadvances.device] at hbrings
    exact .inr (.inr hbrings)

end Installation

open Installation

/-! ## An account -/

/-- The devices of an account, and the rosters that any of them had. -/
structure Account (ι Seed : Type) where
  installation : ι → Installation Seed
  had : List DeviceRoster

namespace Account

variable {ι : Type} [DecidableEq ι] (c : IdentityCrypto Key Signature Seed)

/-- The roster of a device. -/
def roster (w : Account ι Seed) (d : ι) : DeviceRoster := (w.installation d).record.roster

/-- Something happens at a device. -/
def step (w : Account ι Seed) (a : ι × Event Seed) : Account ι Seed :=
  let s := (w.installation a.1).step c a.2
  ⟨Function.update w.installation a.1 s, w.had ++ [s.record.roster]⟩

/-- What can happen to linked devices if no two changes overlap: a notice brings a roster that one
    of them had, and whoever changes the roster has the newest one. -/
structure Sequential (w : Account ι Seed) (a : ι × Event Seed) : Prop where
  stays : a.2.stays = true
  authentic : ∀ roster, (w.installation a.1).Brings c a.2 roster → roster ∈ w.had
  newest : a.2.changes = true → (w.installation a.1).step c a.2 ≠ w.installation a.1 →
    ∀ e, w.roster e <+: w.roster a.1

/-- The devices are linked, and all have one roster. -/
structure Linked (peer : ι → String) (roster : DeviceRoster) (w : Account ι Seed) : Prop where
  settled : ∀ d, Settled c (peer d) (w.installation d)
  same : ∀ d, w.roster d = roster
  had : ∀ r ∈ w.had, r = roster

/-- The rosters of all devices are parts of the newest one. -/
structure Agreed (peer : ι → String) (w : Account ι Seed) : Prop where
  settled : ∀ d, Settled c (peer d) (w.installation d)
  comparable : ∀ d e, w.roster d <+: w.roster e ∨ w.roster e <+: w.roster d
  /-- A roster that a device had is a part of one that a device has. -/
  had : ∀ r ∈ w.had, ∃ e, r <+: w.roster e

variable {c} {peer : ι → String} {roster : DeviceRoster} {w w₀ : Account ι Seed}
  {a : ι × Event Seed}

theorem Linked.agreed [Nonempty ι] (h : w.Linked c peer roster) : w.Agreed c peer where
  settled := h.settled
  comparable d e := .inl (by rw [h.same d, h.same e])
  had r hr := by
    obtain ⟨d⟩ := ‹Nonempty ι›
    exact ⟨d, by rw [h.had r hr, h.same d]⟩

theorem installation_step (w : Account ι Seed) (d : ι) (ev : Event Seed) (e : ι) :
    (w.step c (d, ev)).installation e =
      if e = d then (w.installation d).step c ev else w.installation e :=
  Function.update_apply ..

theorem roster_step (w : Account ι Seed) (d : ι) (ev : Event Seed) (e : ι) :
    (w.step c (d, ev)).roster e =
      if e = d then ((w.installation d).step c ev).record.roster else w.roster e := by
  rw [Account.roster, installation_step]
  split <;> rfl

/-- A roster that one of the devices has, or a part of it, is comparable with all. -/
theorem Agreed.comparable_of_prefix (h : w.Agreed c peer) {r : DeviceRoster} {d : ι}
    (hr : r <+: w.roster d) (e : ι) : r <+: w.roster e ∨ w.roster e <+: r := by
  rcases h.comparable d e with hde | hed
  · exact .inl (hr.trans hde)
  · exact List.prefix_or_prefix_of_prefix hr hed

/-- Without overlapping changes the devices go on to agree. -/
theorem Agreed.step (hc : Readable c) (hd : Collisionless c) (h : w.Agreed c peer)
    (hseq : w.Sequential c a) : (w.step c a).Agreed c peer := by
  obtain ⟨d, ev⟩ := a
  obtain ⟨hsettled, hadvances⟩ := (h.settled d).step hc hd hseq.stays
  set s := (w.installation d).step c ev with hs
  -- The new roster is comparable with those of the other devices.
  have hnew : ∀ e, e ≠ d → s.record.roster <+: w.roster e ∨ w.roster e <+: s.record.roster := by
    intro e he
    rcases hadvances.origin with hsame | hchanges | hbrings
    · rw [hsame]
      exact h.comparable d e
    · by_cases hidle : s = w.installation d
      · rw [hidle]
        exact h.comparable d e
      · exact .inr ((hseq.newest hchanges hidle e).trans hadvances.roster)
    · obtain ⟨e', he'⟩ := h.had _ (hseq.authentic _ hbrings)
      exact h.comparable_of_prefix he' e
  have hgrows : ∀ e, w.roster e <+: (w.step c (d, ev)).roster e := by
    intro e
    rw [roster_step]
    split
    · next heq =>
      subst heq
      exact hadvances.roster
    · exact List.prefix_rfl
  refine ⟨fun e => ?_, fun e e' => ?_, fun r hr => ?_⟩
  · rw [installation_step]
    split
    · next he =>
      subst he
      exact hsettled
    · exact h.settled e
  · rw [roster_step, roster_step]
    split <;> split
    · exact .inl List.prefix_rfl
    · next he' => exact hnew e' he'
    · next he _ => exact (hnew e he).symm
    · exact h.comparable e e'
  · rcases List.mem_append.1 hr with hr | hr
    · obtain ⟨e, he⟩ := h.had r hr
      exact ⟨e, he.trans (hgrows e)⟩
    · refine ⟨d, ?_⟩
      rw [List.mem_singleton.1 hr, roster_step, if_pos rfl]

/-- A device that is active on a roster that extends its own one goes on to it, unless the write is
    refused. -/
theorem Agreed.adopts (h : w.Agreed c peer) {d e : ι}
    (hextends : (w.roster e).extends c.toRosterCrypto (w.roster d) = .ok true)
    {devices : List DeviceDescriptor}
    (hdevices : (w.roster e).devices c.toRosterCrypto = .ok devices)
    (hactive : (w.installation d).record.device ∈ devices) :
    ∀ bytes, c.recordJson { (w.installation d).record with roster := w.roster e } = some bytes →
      (w.installation d).identity.adoptRoster c (w.installation d).row false (w.roster e) =
        .ok (⟨bytes, { (w.installation d).record with roster := w.roster e }⟩, some bytes) := by
  intro bytes hbytes
  have hwith : (w.installation d).record.withRoster c (w.roster e) =
      .ok { (w.installation d).record with roster := w.roster e } :=
    withRoster_eq_ok.2 ⟨devices, hdevices, .inl ⟨hactive, rfl⟩⟩
  have hw : Writable c false (w.installation d).identity (w.installation d).row
      { (w.installation d).record with roster := w.roster e } bytes :=
    ⟨rfl, (h.settled d).synced, knownDevice_of_mem hdevices hactive, hbytes⟩
  exact adoptRoster_eq_ok.2 ⟨hextends, _, bytes, hwith, hw, rfl, rfl⟩

end Account

open Account

/-- If no two changes overlap, then of the rosters of any two devices one extends the other, and a
    device that is active on the longer one can go on to it. -/
theorem rosters_comparable {c : IdentityCrypto Key Signature Seed} (hc : Readable c)
    (hd : Collisionless c) {ι : Type} [DecidableEq ι] {peer : ι → String} {roster : DeviceRoster}
    {w₀ w : Account ι Seed} (h₀ : w₀.Linked c peer roster) {events : List (ι × Event Seed)}
    (hrun : Runs (Account.step c) (Sequential c) w₀ events w) (d e : ι) :
    ((w.roster d).extends c.toRosterCrypto (w.roster e) = .ok true ∨
      (w.roster e).extends c.toRosterCrypto (w.roster d) = .ok true) ∧
    ((w.roster e).extends c.toRosterCrypto (w.roster d) = .ok true →
      ∀ devices, (w.roster e).devices c.toRosterCrypto = .ok devices →
        (w.installation d).record.device ∈ devices →
        ∀ bytes, c.recordJson { (w.installation d).record with roster := w.roster e } = some bytes →
          (w.installation d).identity.adoptRoster c (w.installation d).row false (w.roster e) =
            .ok (⟨bytes, { (w.installation d).record with roster := w.roster e }⟩, some bytes)) := by
  have : Nonempty ι := ⟨d⟩
  have h : w.Agreed c peer := hrun.invariant (fun _ _ hseq h => h.step hc hd hseq) h₀.agreed
  have hverified (f : ι) : ∃ devices, (w.roster f).devices c.toRosterCrypto = .ok devices :=
    (h.settled f).kept.valid.verified
  refine ⟨?_, fun hextends devices hdevices hactive => h.adopts hextends hdevices hactive⟩
  rcases h.comparable d e with hde | hed
  · exact .inr (DeviceRoster.extends_eq_true.2 ⟨hverified e, hde⟩)
  · exact .inl (DeviceRoster.extends_eq_true.2 ⟨hverified d, hed⟩)

/-! ### Two devices -/

def linkedRecord (hash : Bytes → Bytes) (b : UInt8) (roster : DeviceRoster) :
    LocalIdentity UInt8 :=
  ⟨b, sampleDevice hash b, roster, none, none, none, none, [], []⟩

/-- An installation that is linked, with a roster. -/
def linkedInstallation (hash : Bytes → Bytes) (b : UInt8) (roster : DeviceRoster) :
    Installation UInt8 where
  peer := samplePeer b
  row := some (Text.record.packed (linkedRecord hash b roster))
  tables := noTables
  identity := ⟨Text.record.packed (linkedRecord hash b roster), linkedRecord hash b roster⟩
  exchange := none
  phase := .idle
  error := none
  other := none
  sent := []
  signed := []

theorem settled_linkedInstallation {hash : Bytes → Bytes} {b : UInt8} {roster : DeviceRoster}
    (hvalid : ((linkedRecord hash b roster).validate (linkCrypto hash) (samplePeer b)).isOk = true) :
    Settled (linkCrypto hash) (samplePeer b) (linkedInstallation hash b roster) := by
  have hok : (linkedRecord hash b roster).validate (linkCrypto hash) (samplePeer b) = .ok () := by
    rcases h : (linkedRecord hash b roster).validate (linkCrypto hash) (samplePeer b) with e | u
    · rw [h] at hvalid
      cases hvalid
    · rfl
  have hread := linkCrypto_readable hash (linkedRecord hash b roster) _ rfl
  exact ⟨⟨rfl, hread, validate_eq_ok.1 hok,
    ⟨_, _, rfl, hread, validate_eq_ok.1 hok, .refl _⟩, by rintro _ ⟨⟩, .of_none rfl⟩,
    rfl, rfl, not_joins_none rfl⟩

/-- The first two installations, linked, with a roster. -/
def linkedAccount (hash : Bytes → Bytes) (roster : DeviceRoster) : Account Bool UInt8 where
  installation d := linkedInstallation hash (if d then 1 else 2) roster
  had := []

/-- The peer ids of the two. -/
def linkedPeer (d : Bool) : String := samplePeer (if d then 1 else 2)

theorem linked_linkedAccount {hash : Bytes → Bytes} {roster : DeviceRoster}
    (h : [1, 2].all (fun b => ((linkedRecord hash b roster).validate (linkCrypto hash)
      (samplePeer b)).isOk) = true) :
    (linkedAccount hash roster).Linked (linkCrypto hash) linkedPeer roster := by
  rw [List.all_eq_true] at h
  refine ⟨fun d => ?_, fun _ => rfl, by rintro _ ⟨⟩⟩
  cases d
  · exact settled_linkedInstallation (h 2 (by simp))
  · exact settled_linkedInstallation (h 1 (by simp))

set_option maxRecDepth 100000 in
/-- The first one removes the second one. -/
theorem rosters_comparable_removed :
    let w := (linkedAccount sampleHash (samplePair sampleHash)).step (linkCrypto sampleHash)
      (true, .revoke (sampleEnv 1) (sampleDevice sampleHash 2).deviceId)
    (w.roster true).extends (linkCrypto sampleHash).toRosterCrypto (w.roster false) = .ok true ∨
      (w.roster false).extends (linkCrypto sampleHash).toRosterCrypto (w.roster true) = .ok true := by
  have hlinked : (linkedAccount sampleHash (samplePair sampleHash)).Linked (linkCrypto sampleHash)
      linkedPeer (samplePair sampleHash) := linked_linkedAccount (by decide +kernel)
  have hseq : (linkedAccount sampleHash (samplePair sampleHash)).Sequential (linkCrypto sampleHash)
      (true, .revoke (sampleEnv 1) (sampleDevice sampleHash 2).deviceId) := by
    refine ⟨rfl, ?_, fun _ _ _ => List.prefix_rfl⟩
    rintro roster ⟨_, _, _, _, _, ⟨⟩, _⟩
  exact (rosters_comparable (linkCrypto_readable sampleHash)
    (linkCrypto_collisionless sampleHash_injective) hlinked (.single hseq) true false).1

/-- Each of the first two installations removes the third one, and neither knows of the other. -/
def bothRemove : List (Bool × Event UInt8) :=
  [true, false].map fun d => (d, .revoke (sampleEnv 1) (sampleDevice checksum 3).deviceId)

set_option maxRecDepth 100000 in
/-- Both devices stay active, and neither roster extends the other one. -/
theorem rosters_split :
    ¬ ∀ (w₀ w : Account Bool UInt8) (roster : DeviceRoster) (events : List (Bool × Event UInt8)),
      w₀.Linked (linkCrypto checksum) linkedPeer roster →
      Runs (Account.step (linkCrypto checksum)) (fun w a => a.2.stays = true ∧
        ∀ roster, (w.installation a.1).Brings (linkCrypto checksum) a.2 roster → roster ∈ w.had)
        w₀ events w →
      ∀ d e, (∀ f g, f = d ∨ f = e → g = d ∨ g = e →
          ((w.roster f).devices (linkCrypto checksum).toRosterCrypto).toOption.any
            ((w.installation g).record.device ∈ ·) = true) →
        (w.roster d).extends (linkCrypto checksum).toRosterCrypto (w.roster e) = .ok true ∨
          (w.roster e).extends (linkCrypto checksum).toRosterCrypto (w.roster d) = .ok true := by
  intro hclaim
  set w₀ := linkedAccount checksum (sampleTriple checksum) with hw₀
  have hlinked : w₀.Linked (linkCrypto checksum) linkedPeer (sampleTriple checksum) :=
    linked_linkedAccount (by decide +kernel)
  have hguard (w : Account Bool UInt8) (d : Bool) (env : Env) (target : String) :
      (Event.revoke env target : Event UInt8).stays = true ∧
        ∀ roster, (w.installation d).Brings (linkCrypto checksum) (.revoke env target) roster →
          roster ∈ w.had := by
    refine ⟨rfl, ?_⟩
    rintro roster ⟨_, _, _, _, _, ⟨⟩, _⟩
  have hevaluated : (let w := bothRemove.foldl (Account.step (linkCrypto checksum)) w₀
      ([true, false].all fun f => [true, false].all fun g =>
        ((w.roster f).devices (linkCrypto checksum).toRosterCrypto).toOption.any
          ((w.installation g).record.device ∈ ·)) &&
      [true, false].all fun f =>
        ((w.roster f).extends (linkCrypto checksum).toRosterCrypto (w.roster (!f))).toOption =
          some false) = true := by
    decide +kernel
  simp only [Bool.and_eq_true, List.all_eq_true, decide_eq_true_eq] at hevaluated
  obtain ⟨hactive, hsplit⟩ := hevaluated
  have hall (f : Bool) : f ∈ [true, false] := by cases f <;> simp
  rcases hclaim w₀ _ _ bothRemove hlinked (.cons (hguard _ _ _ _) (.cons (hguard _ _ _ _) (.nil _)))
    true false (fun f g _ _ => hactive f (hall f) g (hall g)) with h | h
  · have := hsplit true (hall true)
    change ((bothRemove.foldl (Account.step (linkCrypto checksum)) w₀).roster true).extends
      (linkCrypto checksum).toRosterCrypto
      ((bothRemove.foldl (Account.step (linkCrypto checksum)) w₀).roster false) = .ok true at h
    rw [Bool.not_true, h] at this
    cases this
  · have := hsplit false (hall false)
    change ((bothRemove.foldl (Account.step (linkCrypto checksum)) w₀).roster false).extends
      (linkCrypto checksum).toRosterCrypto
      ((bothRemove.foldl (Account.step (linkCrypto checksum)) w₀).roster true) = .ok true at h
    rw [Bool.not_false, h] at this
    cases this

end Mosh.DeviceLink
