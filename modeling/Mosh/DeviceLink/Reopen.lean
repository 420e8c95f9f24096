import Mosh.DeviceLink.Effects
import Mosh.DeviceLink.Plain
import Mosh.Library.Run

/-!
# The saved identity of an installation

The record of an installation is checked as a whole when it is read (`LocalIdentity.validate`),
and only in part when it is written (`DeviceIdentity.update`). A record that is written in the
middle of a link, while the roster may be changed by another owner of the row, still has to
be one that can be read at the next start. The roster of a record is not to fall back either:
each one that is stored extends the one before it, unless the installation leaves its account.

* `Valid`: what is checked of a record;
* `Kept`: what holds of an installation at any time, and `Kept.effect` that every change keeps
  it;
* `identity_reopens`: the row can be opened after every run, a write that is refused changes
  nothing, and the rosters extend each other;
* `rename_replaces_roster`: an installation that starts to join leaves its roster behind.
-/

namespace Mosh.DeviceLink

open Checked
open Run (Runs)

variable {Key Signature Seed : Type} (c : IdentityCrypto Key Signature Seed)

/-! ## Records that can be read -/

/-- The checks of a pending join, one by one. -/
structure ValidPending (record : LocalIdentity Seed) (pending : PendingJoin) : Prop where
  qr : pending.qr.validateStored c.toLinkCrypto = .ok ()
  joining : pending.joiningDevice = record.device
  current : pending.qr.isCurrent = true → pending.joining.isSome ∧
    pending.qr.device = pending.trusted
  removal : record.checkAfterRemoval c pending.base = .ok ()
  delivery : record.delivery = none
  base : ∃ devices, pending.base.devices c.toRosterCrypto = .ok devices ∧
    pending.trusted ∈ devices ∧ LocalIdentity.free devices record.device = true

/-- What is checked of a record when it is read. -/
structure Valid (peer : String) (record : LocalIdentity Seed) : Prop where
  certificate : ∀ certificate ∈ record.accountCertificate, certificate.verify c = .ok () ∧
    certificate.root = record.roster.userId ∧
    certificate.subject = record.device.signingPublicKey
  peer : record.device.mossPeerId = peer
  key : keyHex c.toLinkCrypto record.seed = record.device.signingPublicKey
  known : record.roster.knownDevice c.toRosterCrypto record.device.deviceId =
    .ok (some record.device)
  pending : ∀ pending ∈ record.pending, ValidPending c record pending
  delivery : ∀ delivery ∈ record.delivery, record.checkDelivery c delivery = .ok ()
  receipt : ∀ receipt ∈ record.receipt, receipt.qr.validateStored c.toLinkCrypto = .ok ()

variable {c} {record stored : LocalIdentity Seed} {peer : String}

theorem checkPending_eq_ok {pending : PendingJoin} {u : Unit} :
    record.checkPending c pending = .ok u ↔ ValidPending c record pending := by
  simp only [LocalIdentity.checkPending, bind_eq_ok, check_eq_ok, decide_eq_true_eq]
  constructor
  · rintro ⟨devices, hdevices, ⟨⟩, hqr, ⟨⟩, hjoining, ⟨⟩, hcurrent, ⟨⟩, hremoval, hrest⟩
    simp only [Bool.and_eq_true, decide_eq_true_eq, Option.isNone_iff_eq_none] at hrest
    refine ⟨hqr, hjoining, fun h => ?_, hremoval, hrest.1.1, devices, hdevices, hrest.1.2, hrest.2⟩
    simpa [h] using hcurrent
  · rintro ⟨hqr, hjoining, hcurrent, hremoval, hdelivery, devices, hdevices, htrusted, hfree⟩
    refine ⟨devices, hdevices, (), hqr, (), hjoining, (), ?_, (), hremoval, ?_⟩
    · cases h : pending.qr.isCurrent with
      | false => rfl
      | true => simpa using hcurrent h
    · simp [hdelivery, htrusted, hfree]

theorem checkSome_eq_ok {α : Type} {x : Option α} {f : α → Except DeviceLinkError Unit} {u : Unit} :
    LocalIdentity.checkSome x f = .ok u ↔ ∀ a ∈ x, f a = .ok () := by
  rcases x with - | a <;> simp [LocalIdentity.checkSome]

theorem validate_eq_ok : record.validate c peer = .ok () ↔ Valid c peer record := by
  simp only [LocalIdentity.validate, bind_eq_ok, check_eq_ok, decide_eq_true_eq, checkSome_eq_ok,
    LocalIdentity.checkCertificate, checkPending_eq_ok]
  constructor
  · rintro ⟨⟨⟩, hcertificate, ⟨⟩, ⟨hpeer, hkey⟩, known, hknown, ⟨⟩, rfl, ⟨⟩, hpending, ⟨⟩,
      hdelivery, hreceipt⟩
    refine ⟨fun x hx => ?_, hpeer, hkey, hknown, hpending, hdelivery, hreceipt⟩
    obtain ⟨⟨⟩, hverify, hrest⟩ := hcertificate x hx
    exact ⟨hverify, hrest⟩
  · intro h
    exact ⟨(), fun x hx => ⟨(), (h.certificate x hx).1, (h.certificate x hx).2⟩, (),
      ⟨h.peer, h.key⟩, _, h.known, (), rfl, (), h.pending, (), h.delivery, h.receipt⟩

/-- What is read from a row is valid, and what is valid is read. -/
theorem open_eq_ok {bytes : Bytes} {seed : Seed} {identity : DeviceIdentity Seed} :
    DeviceIdentity.open c (some bytes) peer seed = .ok identity ↔
      identity.persisted = bytes ∧ c.parseRecord bytes = some identity.record ∧
        Valid c peer identity.record := by
  simp only [DeviceIdentity.open, bind_eq_ok, getOr_eq_ok, ← validate_eq_ok]
  constructor
  · rintro ⟨persisted, hpersisted, record, hrecord, ⟨⟩, hvalid, heq⟩
    cases hpersisted
    cases heq
    exact ⟨rfl, hrecord, hvalid⟩
  · rintro ⟨rfl, hrecord, hvalid⟩
    exact ⟨_, rfl, _, hrecord, (), hvalid, rfl⟩

/-! ## Rosters -/

theorem knownDevice_verified {r : RosterCrypto Key Signature} {roster : DeviceRoster} {id : String}
    {known : Option DeviceDescriptor} (h : roster.knownDevice r id = .ok known) :
    ∃ devices, roster.devices r = .ok devices := by
  simp only [DeviceRoster.knownDevice, bind_eq_ok] at h
  obtain ⟨devices, hdevices, -⟩ := h
  exact ⟨devices, hdevices⟩

theorem ne_nil_of_verified {r : RosterCrypto Key Signature} {roster : DeviceRoster}
    {devices : List DeviceDescriptor} (h : roster.devices r = .ok devices) : roster ≠ [] := by
  rintro rfl
  cases h

/-- A roster that extends another one is of the same account. -/
theorem userId_of_extends {base roster : DeviceRoster} (hne : base ≠ []) (h : base <+: roster) :
    roster.userId = base.userId := by
  obtain ⟨rest, rfl⟩ := h
  obtain ⟨entry, entries, rfl⟩ := List.exists_cons_of_ne_nil hne
  rfl

theorem withEntry_eq_ok {l : LinkCrypto Key Signature Seed} {roster next : DeviceRoster}
    {entry : Authorization} :
    roster.withEntry l entry = .ok next ↔ next = roster ++ [entry] ∧
      ∃ devices, DeviceRoster.devices l.toRosterCrypto next = .ok devices := by
  simp only [DeviceRoster.withEntry, bind_eq_ok]
  constructor
  · rintro ⟨devices, hdevices, heq⟩
    cases heq
    exact ⟨rfl, devices, hdevices⟩
  · rintro ⟨rfl, devices, hdevices⟩
    exact ⟨devices, hdevices, rfl⟩

theorem extend_eq_ok {l : LinkCrypto Key Signature Seed} {roster next : DeviceRoster}
    {device : DeviceDescriptor} {seed : Seed} (h : roster.extend l device seed = .ok next) :
    ∃ parent entry, digest l.toRosterCrypto roster = .ok parent ∧
      Authorization.signed l rosterVersion (some parent)
        (deviceId l.toRosterCrypto (l.verifyingKey seed)) device seed = .ok entry ∧
      next = roster ++ [entry] ∧
      ∃ devices, DeviceRoster.devices l.toRosterCrypto next = .ok devices := by
  simp only [DeviceRoster.extend, bind_eq_ok, withEntry_eq_ok] at h
  obtain ⟨parent, hparent, entry, hentry, hnext⟩ := h
  exact ⟨parent, entry, hparent, hentry, hnext⟩

theorem revoke_eq_ok {l : LinkCrypto Key Signature Seed} {roster next : DeviceRoster}
    {target : String} {seed : Seed} (h : roster.revoke l target seed = .ok next) :
    ∃ devices device parent entry, roster.devices l.toRosterCrypto = .ok devices ∧
      devices.find? (·.deviceId = target) = some device ∧
      digest l.toRosterCrypto roster = .ok parent ∧
      Authorization.signed l removalVersion (some parent)
        (deviceId l.toRosterCrypto (l.verifyingKey seed)) device seed = .ok entry ∧
      next = roster ++ [entry] ∧
      ∃ devices, DeviceRoster.devices l.toRosterCrypto next = .ok devices := by
  simp only [DeviceRoster.revoke, bind_eq_ok, getOr_eq_ok, withEntry_eq_ok] at h
  obtain ⟨devices, hdevices, device, hdevice, parent, hparent, entry, hentry, hnext⟩ := h
  exact ⟨devices, device, parent, entry, hdevices, hdevice, hparent, hentry, hnext⟩

theorem sealPacket_validateStored {l : LinkCrypto Key Signature Seed} {qr : PairingQr} {seed : Seed}
    {message : LinkMessage} {nonce sealed : Bytes}
    (h : sealPacket l qr seed message nonce = .ok sealed) : qr.validateStored l = .ok () := by
  simp only [sealPacket, bind_eq_ok, signingBytes] at h
  obtain ⟨bytes, ⟨⟨⟩, hqr, -⟩, -⟩ := h
  exact hqr

theorem revoked_eq_ok {r : LocalIdentity Seed} {b : Bool} :
    r.revoked c = .ok b ↔ ∃ devices, r.roster.devices c.toRosterCrypto = .ok devices ∧
      b = decide (r.device ∉ devices) := by
  simp only [LocalIdentity.revoked, bind_eq_ok]
  constructor
  · rintro ⟨devices, hdevices, heq⟩
    exact ⟨devices, hdevices, (Except.ok.inj heq).symm⟩
  · rintro ⟨devices, hdevices, rfl⟩
    exact ⟨devices, hdevices, rfl⟩

theorem checkAfterRemoval_eq_ok {r : LocalIdentity Seed} {roster : DeviceRoster} :
    r.checkAfterRemoval c roster = .ok () ↔ ∃ revoked, r.revoked c = .ok revoked ∧
      (revoked = true → roster.extends c.toRosterCrypto r.roster = .ok true) := by
  simp only [LocalIdentity.checkAfterRemoval, bind_eq_ok]
  constructor
  · rintro ⟨revoked, hrevoked, h⟩
    refine ⟨revoked, hrevoked, fun hr => ?_⟩
    subst hr
    obtain ⟨b, hb, hcheck⟩ := bind_eq_ok.1 h
    rwa [check_eq_ok.1 hcheck] at hb
  · rintro ⟨revoked, hrevoked, h⟩
    refine ⟨revoked, hrevoked, ?_⟩
    cases revoked with
    | false => rfl
    | true =>
      rw [h rfl]
      rfl

theorem withRoster_eq_ok {r r' : LocalIdentity Seed} {roster : DeviceRoster} :
    r.withRoster c roster = .ok r' ↔ ∃ devices, roster.devices c.toRosterCrypto = .ok devices ∧
      ((r.device ∈ devices ∧ r' = { r with roster := roster }) ∨
        (r.device ∉ devices ∧ r' = { r with
          roster := roster
          delivery := none
          receipt := none
          pending := none
          rosterDelivery := [] })) := by
  simp only [LocalIdentity.withRoster, bind_eq_ok]
  constructor
  · rintro ⟨devices, hdevices, h⟩
    refine ⟨devices, hdevices, ?_⟩
    split at h
    · next hmem => exact .inl ⟨hmem, (Except.ok.inj h).symm⟩
    · next hmem => exact .inr ⟨hmem, (Except.ok.inj h).symm⟩
  · rintro ⟨devices, hdevices, ⟨hmem, rfl⟩ | ⟨hmem, rfl⟩⟩
    · exact ⟨devices, hdevices, by rw [if_pos hmem]; rfl⟩
    · exact ⟨devices, hdevices, by rw [if_neg hmem]; rfl⟩

/-! ## Going on to another roster -/

/-- A record that came from another one by going on to rosters that extend its own one. -/
structure Behind (record stored : LocalIdentity Seed) : Prop where
  seed : stored.seed = record.seed
  device : stored.device = record.device
  certificate : stored.accountCertificate = record.accountCertificate
  roster : record.roster <+: stored.roster
  pending : stored.pending = record.pending ∨ stored.pending = none
  delivery : stored.delivery = record.delivery ∨ stored.delivery = none

theorem Behind.refl (record : LocalIdentity Seed) : Behind record record :=
  ⟨rfl, rfl, rfl, List.prefix_rfl, .inl rfl, .inl rfl⟩

theorem Behind.withRoster {r : LocalIdentity Seed} {roster : DeviceRoster}
    (hb : Behind record r) (hextends : roster.extends c.toRosterCrypto r.roster = .ok true)
    (h : r.withRoster c roster = .ok stored) : Behind record stored := by
  have hpre : r.roster <+: roster := (DeviceRoster.extends_eq_true.1 hextends).2
  obtain ⟨devices, -, ⟨-, rfl⟩ | ⟨-, rfl⟩⟩ := withRoster_eq_ok.1 h
  · exact ⟨hb.seed, hb.device, hb.certificate, hb.roster.trans hpre, hb.pending, hb.delivery⟩
  · exact ⟨hb.seed, hb.device, hb.certificate, hb.roster.trans hpre, .inr rfl, .inr rfl⟩

theorem Valid.verified (h : Valid c peer record) :
    ∃ devices, record.roster.devices c.toRosterCrypto = .ok devices :=
  knownDevice_verified h.known

theorem Valid.ne_nil (h : Valid c peer record) : record.roster ≠ [] := by
  obtain ⟨devices, hdevices⟩ := h.verified
  exact ne_nil_of_verified hdevices

/-- A record that goes on to another roster stays valid: a pending join is given up if the
    installation is removed by it. -/
theorem Valid.withRoster {roster : DeviceRoster} (h : Valid c peer record)
    (hextends : roster.extends c.toRosterCrypto record.roster = .ok true)
    (hstored : record.withRoster c roster = .ok stored)
    (hknown : stored.roster.knownDevice c.toRosterCrypto stored.device.deviceId =
      .ok (some stored.device)) : Valid c peer stored := by
  have huser : roster.userId = record.roster.userId :=
    userId_of_extends h.ne_nil (DeviceRoster.extends_eq_true.1 hextends).2
  obtain ⟨devices, hdevices, ⟨hmem, rfl⟩ | ⟨-, rfl⟩⟩ := withRoster_eq_ok.1 hstored
  · refine ⟨fun x hx => ?_, h.peer, h.key, hknown, fun p hp => ?_, h.delivery, h.receipt⟩
    · obtain ⟨hverify, hroot, hsubject⟩ := h.certificate x hx
      exact ⟨hverify, hroot.trans huser.symm, hsubject⟩
    · have hvalid := h.pending p hp
      refine ⟨hvalid.qr, hvalid.joining, hvalid.current, ?_, hvalid.delivery, hvalid.base⟩
      refine checkAfterRemoval_eq_ok.2 ⟨false, revoked_eq_ok.2 ⟨devices, hdevices, ?_⟩, nofun⟩
      exact (decide_eq_false (not_not.2 hmem)).symm
  · refine ⟨fun x hx => ?_, h.peer, h.key, hknown, nofun, nofun, nofun⟩
    obtain ⟨hverify, hroot, hsubject⟩ := h.certificate x hx
    exact ⟨hverify, hroot.trans huser.symm, hsubject⟩

theorem Valid.certificate_of_extends {roster : DeviceRoster} (h : Valid c peer record)
    (hpre : record.roster <+: roster) {certificate : AccountCertificate}
    (hcertificate : certificate ∈ record.accountCertificate) :
    certificate.verify c = .ok () ∧ certificate.root = roster.userId ∧
      certificate.subject = record.device.signingPublicKey := by
  obtain ⟨hverify, hroot, hsubject⟩ := h.certificate certificate hcertificate
  exact ⟨hverify, hroot.trans (userId_of_extends h.ne_nil hpre).symm, hsubject⟩

theorem Valid.consume {e : Exchange} {now : Nat} (h : Valid c peer record) :
    Valid c peer ({ record with pending := none }.consume e.qr now) :=
  ⟨h.certificate, h.peer, h.key, h.known, nofun, h.delivery, h.receipt⟩

/-! ## What holds at any time -/

namespace Installation

variable (c) in
/-- An exchange fits the record: whoever authorizes shows the own descriptor and offers a roster
    that the own one extends, and whoever joins is the installation itself. -/
structure Fits (record : LocalIdentity Seed) (e : Exchange) : Prop where
  delivery : record.delivery = none
  authorizing : e.role = .authorizing → record.pending = none ∧ e.qr.isCurrent = true ∧
    e.qr.device = record.device ∧ (∀ base ∈ e.base, base ≠ [] ∧ base <+: record.roster) ∧
    ∀ joining ∈ e.joining, joining.validate c.toRosterCrypto = .ok ()
  joining : e.role = .joining → e.joining = some record.device

variable (c) in
/-- Where a link stands. -/
structure Linking (record : LocalIdentity Seed) (exchange : Option Exchange)
    (phase : DeviceLinkPhase) : Prop where
  fits : ∀ e ∈ exchange, Fits c record e
  pending : record.pending.isSome → ∃ e ∈ exchange, e.role = .joining
  phase : phase = .delivering ∨ phase = .linked → exchange = none

variable (c) in
/-- What holds of an installation at any time. -/
structure Kept (peer : String) (s : Installation Seed) : Prop where
  own : s.peer = peer
  identity : c.parseRecord s.identity.persisted = some s.record
  valid : Valid c peer s.record
  row : ∃ bytes stored, s.row = some bytes ∧ c.parseRecord bytes = some stored ∧
    Valid c peer stored ∧ Behind s.record stored
  other : ∀ other ∈ s.other, c.parseRecord other.persisted = some other.record
  link : Linking c s.record s.exchange s.phase

variable (c) in
/-- What is written can be read. -/
def Readable : Prop := ∀ record bytes, c.recordJson record = some bytes →
  c.parseRecord bytes = some record

variable {s s' : Installation Seed} {ev : Event Seed} {bytes : Bytes} {e : Exchange}
  {exchange : Option Exchange} {phase : DeviceLinkPhase}

theorem Fits.behind (h : Fits c record e) (hb : Behind record stored) : Fits c stored e := by
  refine ⟨?_, fun hrole => ?_, fun hrole => ?_⟩
  · rcases hb.delivery with heq | heq
    · exact heq.trans h.delivery
    · exact heq
  · obtain ⟨hpending, hcurrent, hdevice, hbase, hjoining⟩ := h.authorizing hrole
    refine ⟨?_, hcurrent, hdevice.trans hb.device.symm, fun base hmem => ?_, hjoining⟩
    · rcases hb.pending with heq | heq
      · exact heq.trans hpending
      · exact heq
    · exact ⟨(hbase base hmem).1, (hbase base hmem).2.trans hb.roster⟩
  · rw [hb.device]
    exact h.joining hrole

theorem Linking.behind (h : Linking c record exchange phase) (hb : Behind record stored) :
    Linking c stored exchange phase := by
  refine ⟨fun e he => (h.fits e he).behind hb, fun hpending => ?_, h.phase⟩
  rcases hb.pending with heq | heq
  · exact h.pending (heq ▸ hpending)
  · rw [heq] at hpending
    cases hpending

/-- Without an exchange nothing is pending. -/
theorem Linking.pending_eq_none (h : Linking c record none phase) : record.pending = none := by
  rcases hpending : record.pending with - | p
  · rfl
  · obtain ⟨e, he, -⟩ := h.pending (by rw [hpending]; rfl)
    cases he

theorem Linking.of_none (hpending : record.pending = none) : Linking c record none phase := by
  refine ⟨nofun, fun h => ?_, fun _ => rfl⟩
  rw [hpending] at h
  cases h

theorem Kept.holds (h : Kept c peer s) (hrow : s.row = some bytes) :
    ∃ stored, c.parseRecord bytes = some stored ∧ Valid c peer stored ∧ Behind s.record stored := by
  obtain ⟨bytes', stored, hrow', hrest⟩ := h.row
  obtain rfl := Option.some.inj (hrow'.symm.trans hrow)
  exact ⟨stored, hrest⟩

/-- A valid record is written, with what fits it of the link. -/
theorem Kept.saved (h : Kept c peer s) (hc : Readable c)
    {refused : Bool}
    (hw : Writable c refused s.identity s.row record bytes) (hvalid : Valid c peer record)
    (hpeer : s'.peer = s.peer) (hidentity : s'.identity = ⟨bytes, record⟩)
    (hrow : s'.row = some bytes) (hother : s'.other = s.other)
    (hlink : Linking c record s'.exchange s'.phase) : Kept c peer s' := by
  have hread := hc record bytes hw.bytes
  have hrecord : s'.record = record := by rw [Installation.record, hidentity]
  refine ⟨hpeer.trans h.own, ?_, hrecord ▸ hvalid, ⟨bytes, record, hrow, hread, hvalid, ?_⟩,
    hother ▸ h.other, hrecord ▸ hlink⟩
  · rw [hrecord, hidentity, hread]
  · rw [hrecord]
    exact .refl record

/-- The record is the one that was read from the row. -/
theorem Kept.read {identity : DeviceIdentity Seed} (h : Kept c peer s)
    (hidentity : c.parseRecord identity.persisted = some identity.record)
    (hrow : s.row = some identity.persisted) :
    Valid c peer identity.record ∧ Behind s.record identity.record := by
  obtain ⟨stored, hstored, hvalid, hbehind⟩ := h.holds hrow
  obtain rfl := Option.some.inj (hidentity.symm.trans hstored)
  exact ⟨hvalid, hbehind⟩

/-- The row can be read, and then it is what memory is behind of. -/
theorem Kept.reopen {identity : DeviceIdentity Seed} {seed : Seed} (h : Kept c peer s)
    (hopen : DeviceIdentity.open c s.row peer seed = .ok identity) :
    s.row = some identity.persisted ∧ c.parseRecord identity.persisted = some identity.record ∧
      Valid c peer identity.record ∧ Behind s.record identity.record := by
  obtain ⟨bytes, stored, hrow, hstored, hvalid, hbehind⟩ := h.row
  rw [hrow] at hopen
  obtain ⟨rfl, hparse, -⟩ := open_eq_ok.1 hopen
  obtain rfl := Option.some.inj (hparse.symm.trans hstored)
  exact ⟨hrow, hstored, hvalid, hbehind⟩

theorem Kept.opens (h : Kept c peer s) (seed : Seed) :
    ∃ identity, DeviceIdentity.open c s.row peer seed = .ok identity := by
  obtain ⟨bytes, stored, hrow, hstored, hvalid, -⟩ := h.row
  exact ⟨⟨bytes, stored⟩, by rw [hrow]; exact open_eq_ok.2 ⟨rfl, hstored, hvalid⟩⟩

/-! ## What every change keeps -/

theorem Exchange.resume_eq_ok {p : PendingJoin} {nonce : Bytes} {message : LinkMessage}
    (h : Exchange.resume c record p nonce = .ok (e, message)) :
    e.qr = p.qr ∧ e.joining = some p.joiningDevice ∧ e.role = .joining ∧
      e.trusted = some p.trusted ∧ e.base = some p.base ∧
      ∃ offerHash, digest c.toRosterCrypto p.base = .ok offerHash ∧ message = .ready offerHash := by
  simp only [Exchange.resume, bind_eq_ok] at h
  obtain ⟨offerHash, hhash, packet, -, heq⟩ := h
  cases heq
  exact ⟨rfl, rfl, rfl, rfl, rfl, offerHash, hhash, rfl⟩

/-- What is resumed at the start is the pending join. -/
theorem resumed_cases {resumed : Option (Exchange × LinkMessage)} {nonce : Bytes}
    (h : record.pending.elim (.ok none)
      (fun p => (Exchange.resume c record p nonce).map some) = .ok resumed) :
    (record.pending = none ∧ resumed = none) ∨
      ∃ p e message, record.pending = some p ∧ resumed = some (e, message) ∧
        Exchange.resume c record p nonce = .ok (e, message) := by
  rcases hp : record.pending with - | p
  · rw [hp] at h
    exact .inl ⟨rfl, (Except.ok.inj h).symm⟩
  · rw [hp, Option.elim_some] at h
    right
    cases hresume : Exchange.resume c record p nonce with
    | error error =>
      rw [hresume] at h
      cases h
    | ok x =>
      rw [hresume] at h
      obtain rfl := Except.ok.inj h
      exact ⟨p, x.1, x.2, rfl, rfl, hresume⟩

theorem Linking.resumed {resumed : Option (Exchange × LinkMessage)} {nonce : Bytes}
    (hvalid : Valid c peer record)
    (h : record.pending.elim (.ok none)
      (fun p => (Exchange.resume c record p nonce).map some) = .ok resumed) :
    Linking c record (resumed.map (·.1))
      (if record.delivery.isSome then .delivering
        else if resumed.isSome then .awaitingConfirmation else .idle) := by
  obtain ⟨hpending, rfl⟩ | ⟨p, e, message, hpending, rfl, hresume⟩ := resumed_cases h
  · exact .of_none hpending
  · have hp := hvalid.pending p hpending
    obtain ⟨-, hjoining, hrole, -⟩ := Exchange.resume_eq_ok hresume
    refine ⟨fun e' he' => ?_, fun _ => ⟨e, rfl, hrole⟩, fun hphase => ?_⟩
    · obtain rfl := Option.some.inj he'
      refine ⟨hp.delivery, fun h => ?_, fun _ => by rw [hjoining, hp.joining]⟩
      rw [hrole] at h
      cases h
    · rw [hp.delivery] at hphase
      rcases hphase with hphase | hphase <;> cases hphase

/-- What an exchange of a joining installation leaves pending. -/
theorem Kept.validPending (h : Kept c peer s) {signer : String} {roster : DeviceRoster}
    {trusted : DeviceDescriptor} {joining : Option DeviceDescriptor} {message : LinkMessage}
    {nonce sealed : Bytes} (he : s.exchange = some e) (hrole : e.role = .joining)
    (hcheck : e.checkOffer c signer roster trusted joining = .ok ())
    (hremoval : s.record.checkAfterRemoval c roster = .ok ())
    (hsealed : sealPacket c.toLinkCrypto e.qr s.record.seed message nonce = .ok sealed) :
    ValidPending c s.record ⟨e.qr, e.joining, trusted, roster⟩ := by
  have hfits := h.link.fits e he
  simp only [Exchange.checkOffer, bind_eq_ok, getOr_eq_ok, check_eq_ok, decide_eq_true_eq] at hcheck
  obtain ⟨devices, hdevices, candidate, hcandidate, pinned, hpinned, ⟨⟩,
    ⟨-, rfl, -, htrusted, hfree⟩, -⟩ := hcheck
  obtain rfl : s.record.device = candidate :=
    Option.some.inj ((hfits.joining hrole).symm.trans hcandidate)
  refine ⟨sealPacket_validateStored hsealed, ?_, fun hcurrent => ⟨?_, ?_⟩, hremoval,
    hfits.delivery, devices, hdevices, htrusted, hfree⟩
  · rw [PendingJoin.joiningDevice, hcandidate]
    rfl
  · rw [hcandidate]
    rfl
  · rw [Exchange.pinned, if_pos hcurrent] at hpinned
    exact Except.ok.inj hpinned

/-- Every change keeps the row such that it can be read. -/
theorem Kept.effect (hc : Readable c) (heffect : Effect c ev s s') (h : Kept c peer s) :
    Kept c peer s' := by
  have hlink := h.link
  cases heffect with
  | quiet sent error phase hphase =>
    refine ⟨h.own, h.identity, h.valid, h.row, h.other, hlink.fits, hlink.pending, ?_⟩
    rintro hphase'
    rcases hphase with rfl | ⟨rfl, hdelivery⟩
    · exact hlink.phase hphase'
    · rcases he : s.exchange with - | e
      · rfl
      · rw [(hlink.fits e he).delivery] at hdelivery
        cases hdelivery
  | tabled tables => exact ⟨h.own, h.identity, h.valid, h.row, h.other, hlink⟩
  | otherRead seed other hev hother =>
    refine ⟨h.own, h.identity, h.valid, h.row, fun o ho => ?_, hlink⟩
    obtain ⟨seed', hopen⟩ := hother o ho
    rw [h.own] at hopen
    exact (h.reopen hopen).2.1
  | otherAdopted env roster identity record bytes hev hother hextends hrecord hw =>
    obtain ⟨hvalid, hbehind⟩ := h.read (h.other identity hother) hw.row
    have hread := hc record bytes hw.bytes
    refine ⟨h.own, h.identity, h.valid, ⟨bytes, record, rfl, hread,
      hvalid.withRoster hextends hrecord hw.known, hbehind.withRoster hextends hrecord⟩, ?_, hlink⟩
    rintro o ⟨⟩
    exact hread
  | reloaded seed identity hev hopen =>
    rw [h.valid.peer] at hopen
    obtain ⟨hrow, hread, hvalid, hbehind⟩ := h.reopen hopen
    exact ⟨h.own, hread, hvalid, ⟨_, identity.record, rfl, hread, hvalid, .refl _⟩, h.other,
      hlink.behind hbehind⟩
  | dropped hrevoked hwhy =>
    refine ⟨h.own, h.identity, h.valid, h.row, h.other, .of_none ?_⟩
    rcases he : s.exchange with - | e
    · rw [he] at hlink
      exact hlink.pending_eq_none
    · rw [he] at hwhy
      rcases hwhy with hrole | hloses | hphase
      · exact ((hlink.fits e he).authorizing (by simpa using hrole)).1
      · have hloses : e.role = .joining ∧ e.base.isSome ∧ s.record.pending.isNone := by
          rw [losesPendingJoin, he] at hloses
          simpa [and_assoc] using hloses
        simpa using hloses.2.2
      · exact absurd (hlink.phase hphase) (by rw [he]; rintro (h | h) <;> cases h)
  | failed e kind now bytes signed sent he hwhy hsigned hw =>
    exact h.saved hc hw h.valid.consume rfl rfl rfl rfl (.of_none rfl)
  | cancelled env hev he =>
    rw [he] at hlink
    exact ⟨h.own, h.identity, h.valid, h.row, h.other, .of_none hlink.pending_eq_none⟩
  | delivered env packet d bytes hev hd hopen hw =>
    have he : s.exchange = none := by
      rcases he : s.exchange with - | e
      · rfl
      · rw [(hlink.fits e he).delivery] at hd
        cases hd
    rw [he] at hlink
    refine h.saved hc hw ?_ rfl rfl rfl rfl ?_
    · refine ⟨h.valid.certificate, h.valid.peer, h.valid.key, h.valid.known, ?_,
        fun d hd => (by cases hd), h.valid.receipt⟩
      intro p hp
      rw [show s.record.pending = none from hlink.pending_eq_none] at hp
      cases hp
    · change Linking c _ s.exchange _
      rw [he]
      exact .of_none hlink.pending_eq_none
  | froze env packet e device devices sealed hev he hrole hopen hdevice hrevoked hjoining hdevices
      hfree hsealed =>
    obtain ⟨hpending, hcurrent, hqr, -⟩ := (hlink.fits e he).authorizing hrole
    refine ⟨h.own, h.identity, h.valid, h.row, h.other, fun e' he' => ?_, ?_, ?_⟩
    · obtain rfl := Option.some.inj he'
      refine ⟨(hlink.fits e he).delivery, fun _ => ⟨hpending, hcurrent, hqr, ?_, ?_⟩, fun h => ?_⟩
      · rintro base ⟨⟩
        exact ⟨h.valid.ne_nil, List.prefix_rfl⟩
      · rintro joining ⟨⟩
        exact hdevice
      · rw [show e.role = .joining from h] at hrole
        cases hrole
    · intro hsome
      rw [show s.record.pending = none from hpending] at hsome
      cases hsome
    · rintro (h | h) <;> cases h
  | offered env packet e signer roster trusted joining offerHash sealed identity row hev he hrole
      hopen hcheck hremoval hhash hsealed hsave =>
    have hfits := hlink.fits e he
    have hlinked : ∀ record : LocalIdentity Seed, record.delivery = none →
        record.device = s.record.device → Linking c record (some { e with
          packet := some sealed
          trusted := some trusted
          base := some roster }) .awaitingConfirmation := by
      intro record hdelivery hdevice
      refine ⟨fun e' he' => ?_, fun _ => ⟨_, rfl, hrole⟩, ?_⟩
      · obtain rfl := Option.some.inj he'
        refine ⟨hdelivery, fun h => ?_, fun _ => ?_⟩
        · rw [show e.role = .authorizing from h] at hrole
          cases hrole
        · rw [hdevice]
          exact hfits.joining hrole
      · rintro (h | h) <;> cases h
    rcases hsave with ⟨-, rfl, rfl⟩ | ⟨-, bytes, rfl, rfl, hw⟩
    · exact ⟨h.own, h.identity, h.valid, h.row, h.other, hlinked s.record hfits.delivery rfl⟩
    · refine h.saved hc hw ?_ rfl rfl rfl rfl (hlinked _ hfits.delivery rfl)
      refine ⟨h.valid.certificate, h.valid.peer, h.valid.key, h.valid.known, ?_, h.valid.delivery,
        h.valid.receipt⟩
      rintro p ⟨⟩
      have hp := h.validPending he hrole hcheck hremoval hsealed
      exact ⟨hp.qr, hp.joining, hp.current, hp.removal, hp.delivery, hp.base⟩
  | readied env packet e joining base offerHash hev he hrole =>
    refine ⟨h.own, h.identity, h.valid, h.row, h.other, hlink.fits, hlink.pending, ?_⟩
    rintro (h | h) <;> cases h
  | joined env packet e roster trusted joining base hash adopted canJoin sealed bytes sent hev he
      hrole hopen htrusted hbase hjoining hadds hhash hadopted hremoval hcan hor hsealed hw =>
    have hdelivery := (hlink.fits e he).delivery
    refine h.saved hc hw ?_ rfl rfl rfl rfl (.of_none rfl)
    refine ⟨fun x hx => (by cases hx), h.valid.peer, h.valid.key, hw.known, fun p hp => (by cases hp),
      ?_, ?_⟩
    · exact h.valid.delivery
    · rintro receipt ⟨⟩
      exact sealPacket_validateStored hsealed
  | acked env packet body notice sender hash bytes hev hstrip hopen hack hreceived hown hw =>
    refine h.saved hc hw ?_ rfl rfl rfl rfl ⟨?_, hlink.pending, hlink.phase⟩
    · refine ⟨h.valid.certificate, h.valid.peer, h.valid.key, h.valid.known, ?_, h.valid.delivery,
        h.valid.receipt⟩
      intro p hp
      have hp := h.valid.pending p hp
      exact ⟨hp.qr, hp.joining, hp.current, hp.removal, hp.delivery, hp.base⟩
    · intro e he
      have hfits := hlink.fits e he
      exact ⟨hfits.delivery, hfits.authorizing, hfits.joining⟩
  | adopted env packet body notice sender record bytes hev hstrip hopen hack hextends hrecord hw =>
    exact h.saved hc hw (h.valid.withRoster hextends hrecord hw.known) rfl rfl rfl rfl
      (hlink.behind ((Behind.refl _).withRoster hextends hrecord))
  | certified env sender certificate bytes hev hverify hroot hsubject hw =>
    refine h.saved hc hw ?_ rfl rfl rfl rfl ⟨?_, hlink.pending, hlink.phase⟩
    · refine ⟨?_, h.valid.peer, h.valid.key, h.valid.known, ?_, h.valid.delivery, h.valid.receipt⟩
      · rintro x ⟨⟩
        exact ⟨hverify, hroot, hsubject⟩
      · intro p hp
        have hp := h.valid.pending p hp
        exact ⟨hp.qr, hp.joining, hp.current, hp.removal, hp.delivery, hp.base⟩
    · intro e he
      have hfits := hlink.fits e he
      exact ⟨hfits.delivery, hfits.authorizing, hfits.joining⟩
  | begun now id secret hev he hdelivery hrevoked =>
    rw [he] at hlink
    refine ⟨h.own, h.identity, h.valid, h.row, h.other, fun e' he' => ?_, ?_, ?_⟩
    · obtain rfl := Option.some.inj he'
      exact ⟨hdelivery, fun _ => ⟨hlink.pending_eq_none, rfl, rfl, fun base h => (by cases h),
        fun joining h => (by cases h)⟩, fun h => (by cases h)⟩
    · intro hsome
      rw [show s.record.pending = none from hlink.pending_eq_none] at hsome
      cases hsome
    · rintro (h | h) <;> cases h
  | prepared env uri typed bytes hev he hdelivery hrevoked hw =>
    refine h.saved hc hw ?_ rfl rfl rfl rfl ?_
    · exact ⟨h.valid.certificate, h.valid.peer, h.valid.key, h.valid.known, nofun,
        h.valid.delivery, h.valid.receipt⟩
    · change Linking c _ s.exchange _
      rw [he]
      exact .of_none rfl
  | renamed env uri typed name roster bytes hev he hdelivery hrevoked hcan hgenesis hw =>
    refine h.saved hc hw ?_ rfl rfl rfl rfl ?_
    · refine ⟨fun x hx => (by cases hx), h.valid.peer, h.valid.key, hw.known, fun p hp => (by cases hp),
        fun d hd => ?_, h.valid.receipt⟩
      rw [show s.record.delivery = none from hdelivery] at hd
      cases hd
    · change Linking c _ s.exchange _
      rw [he]
      exact .of_none rfl
  | asked env uri typed qr sealed hev he hdelivery hpending hqr =>
    refine ⟨h.own, h.identity, h.valid, h.row, h.other, fun e' he' => ?_, ?_, ?_⟩
    · obtain rfl := Option.some.inj he'
      exact ⟨hdelivery, fun h => (by cases h), fun _ => rfl⟩
    · intro hsome
      rw [show s.record.pending = none from hpending] at hsome
      cases hsome
    · rintro (h | h) <;> cases h
  | granted env code e base joining offerHash rosterHash roster sealed bytes hev he hrole hbase
      hjoining hoffer hcode hown hextend hsealed hhash hw =>
    obtain ⟨hpending, hcurrent, hqr, hbases, hjoinings⟩ := (hlink.fits e he).authorizing hrole
    replace hpending : s.identity.record.pending = none := hpending
    obtain ⟨hne, hpre⟩ := hbases base hbase
    obtain ⟨parent, entry, -, -, rfl, -⟩ := extend_eq_ok hextend
    refine h.saved hc hw ?_ rfl rfl rfl rfl (.of_none hpending)
    refine ⟨fun x hx => ?_, h.valid.peer, h.valid.key, hw.known, fun p hp => ?_, ?_, h.valid.receipt⟩
    · obtain ⟨hverify, hroot, hsubject⟩ := h.valid.certificate x hx
      refine ⟨hverify, ?_, hsubject⟩
      rw [hroot, userId_of_extends hne hpre]
      exact (userId_of_extends hne (List.prefix_append base [entry])).symm
    · replace hp : p ∈ s.identity.record.pending := hp
      rw [hpending] at hp
      cases hp
    · rintro d ⟨⟩
      simp only [LocalIdentity.checkDelivery, bind_eq_ok, check_eq_ok]
      refine ⟨(), sealPacket_validateStored hsealed, (), ?_, hjoinings joining hjoining⟩
      have hqr' : e.qr.device = s.identity.record.device := hqr
      simp [LocalIdentity.consume, hqr']
  | removed env target roster devices bytes hev he hdelivery hrevoke hdevices hw =>
    rw [he] at hlink
    obtain ⟨-, -, -, entry, -, -, -, -, rfl, -⟩ := revoke_eq_ok hrevoke
    refine h.saved hc hw ?_ rfl rfl rfl rfl ?_
    · refine ⟨fun x hx => h.valid.certificate_of_extends (List.prefix_append _ _) hx, h.valid.peer, h.valid.key,
        hw.known, fun p hp => ?_, h.valid.delivery, h.valid.receipt⟩
      rw [show s.record.pending = none from hlink.pending_eq_none] at hp
      cases hp
    · change Linking c _ s.exchange _
      rw [he]
      exact .of_none hlink.pending_eq_none
  | restarted env seed identity resumed hev hopen hresumed =>
    rw [h.own] at hopen
    obtain ⟨hrow, hread, hvalid, hbehind⟩ := h.reopen hopen
    exact ⟨h.own, hread, hvalid, ⟨_, identity.record, rfl, hread, hvalid, .refl _⟩,
      fun o ho => (by cases ho),
      .resumed hvalid hresumed⟩

theorem Kept.step (hc : Readable c) (h : Kept c peer s) (ev : Event Seed) :
    Kept c peer (s.step c ev) :=
  (step_effects s ev).invariant (fun _ _ heffect hs => hs.effect hc heffect) h

/-! ## The rosters that are stored -/

variable (c) in
/-- No two rosters have a digest in common. -/
def Collisionless : Prop := ∀ (r r' : DeviceRoster) (hash : String),
  digest c.toRosterCrypto r = .ok hash → digest c.toRosterCrypto r' = .ok hash → r = r'

variable (c) in
/-- The record that the next start would find. -/
def storedRecord (s : Installation Seed) : Option (LocalIdentity Seed) := s.row.bind c.parseRecord

variable (c) in
/-- The installation may leave its account for another one: it is not removed, the only active
    device, and has neither conversations nor purchases. -/
def Free (s : Installation Seed) (record : LocalIdentity Seed) : Prop :=
  record.revoked c = .ok false ∧ record.canJoin c s.tables = .ok true

variable (c) in
/-- The stored roster is extended, or the installation that stored it is free. -/
def Progress (s s' : Installation Seed) : Prop :=
  ∀ record ∈ s.storedRecord c, ∀ record' ∈ s'.storedRecord c,
    record.roster <+: record'.roster ∨ s.Free c record

theorem storedRecord_eq_some : s.storedRecord c = some stored ↔
    ∃ bytes, s.row = some bytes ∧ c.parseRecord bytes = some stored := Option.bind_eq_some_iff

theorem Progress.of_row (h : s'.row = s.row) : Progress c s s' := by
  intro record hrecord record' hrecord'
  rw [storedRecord, h, ← storedRecord] at hrecord'
  obtain rfl := Option.some.inj (hrecord.symm.trans hrecord')
  exact .inl List.prefix_rfl

/-- What is written over the record that was read. -/
theorem Kept.progress_saved (h : Kept c peer s) (hc : Readable c)
    {refused : Bool}
    (hw : Writable c refused s.identity s.row record bytes) (hrow : s'.row = some bytes)
    (hroster : s.record.roster <+: record.roster ∨ s.Free c s.record) : Progress c s s' := by
  intro stored hstored record' hrecord'
  obtain rfl : s.record = stored := by
    obtain ⟨b, hb, hparse⟩ := storedRecord_eq_some.1 hstored
    obtain rfl := Option.some.inj (hw.row.symm.trans hb)
    exact Option.some.inj (h.identity.symm.trans hparse)
  obtain rfl : record = record' := by
    obtain ⟨b, hb, hparse⟩ := storedRecord_eq_some.1 hrecord'
    obtain rfl := Option.some.inj (hrow.symm.trans hb)
    exact Option.some.inj ((hc record _ hw.bytes).symm.trans hparse)
  exact hroster

theorem withRoster_roster {r : LocalIdentity Seed} {roster : DeviceRoster}
    (h : r.withRoster c roster = .ok record) : record.roster = roster := by
  obtain ⟨devices, -, ⟨-, rfl⟩ | ⟨-, rfl⟩⟩ := withRoster_eq_ok.1 h <;> rfl

/-- A removed installation goes on only to a roster that extends its own one, and any other one only
    if it is free or has the roster already. -/
theorem joined_roster (hd : Collisionless c) {roster : DeviceRoster} {hash : String}
    {adopted canJoin : Bool} (hhash : digest c.toRosterCrypto roster = .ok hash)
    (hadopted : s.alreadyAdopted c e hash = .ok adopted)
    (hremoval : s.record.checkAfterRemoval c roster = .ok ())
    (hcan : s.record.canJoin c s.tables = .ok canJoin) (hor : (canJoin || adopted) = true) :
    s.record.roster <+: roster ∨ s.Free c s.record := by
  obtain ⟨revoked, hrevoked, hextends⟩ := checkAfterRemoval_eq_ok.1 hremoval
  cases revoked with
  | true => exact .inl (DeviceRoster.extends_eq_true.1 (hextends rfl)).2
  | false =>
    cases canJoin with
    | true => exact .inr ⟨hrevoked, hcan⟩
    | false =>
      left
      rw [alreadyAdopted] at hadopted
      split at hadopted
      · simp only [bind_eq_ok] at hadopted
        obtain ⟨own, hown, heq⟩ := hadopted
        have hsame : hash = own := by
          have := Except.ok.inj heq
          rw [Bool.false_or] at hor
          exact of_decide_eq_true (this.trans hor)
        rw [hd roster s.record.roster own (hsame ▸ hhash) hown]
      · rw [← Except.ok.inj hadopted] at hor
        cases hor

/-- Every change extends the stored roster, unless the installation is free to leave its account. -/
theorem Kept.progress (hc : Readable c) (hd : Collisionless c) (heffect : Effect c ev s s')
    (h : Kept c peer s) : Progress c s s' := by
  cases heffect with
  | quiet => exact .of_row rfl
  | tabled => exact .of_row rfl
  | otherRead => exact .of_row rfl
  | otherAdopted env roster identity record bytes hev hother hextends hrecord hw =>
    intro stored hstored record' hrecord'
    left
    obtain rfl : identity.record = stored := by
      obtain ⟨b, hb, hparse⟩ := storedRecord_eq_some.1 hstored
      obtain rfl := Option.some.inj (hw.row.symm.trans hb)
      exact Option.some.inj ((h.other identity hother).symm.trans hparse)
    obtain rfl : record = record' :=
      Option.some.inj ((hc record bytes hw.bytes).symm.trans hrecord')
    rw [withRoster_roster hrecord]
    exact (DeviceRoster.extends_eq_true.1 hextends).2
  | reloaded seed identity hev hopen =>
    rw [h.valid.peer] at hopen
    exact .of_row (h.reopen hopen).1.symm
  | dropped => exact .of_row rfl
  | failed e kind now bytes signed sent he hwhy hsigned hw =>
    exact h.progress_saved hc hw rfl (.inl List.prefix_rfl)
  | cancelled => exact .of_row rfl
  | delivered env packet d bytes hev hd hopen hw =>
    exact h.progress_saved hc hw rfl (.inl List.prefix_rfl)
  | froze => exact .of_row rfl
  | offered env packet e signer roster trusted joining offerHash sealed identity row hev he hrole
      hopen hcheck hremoval hhash hsealed hsave =>
    rcases hsave with ⟨-, rfl, rfl⟩ | ⟨-, bytes, rfl, rfl, hw⟩
    · exact .of_row rfl
    · exact h.progress_saved hc hw rfl (.inl List.prefix_rfl)
  | readied => exact .of_row rfl
  | joined env packet e roster trusted joining base hash adopted canJoin sealed bytes sent hev he
      hrole hopen htrusted hbase hjoining hadds hhash hadopted hremoval hcan hor hsealed hw =>
    exact h.progress_saved hc hw rfl (joined_roster hd hhash hadopted hremoval hcan hor)
  | acked env packet body notice sender hash bytes hev hstrip hopen hack hreceived hown hw =>
    exact h.progress_saved hc hw rfl (.inl List.prefix_rfl)
  | adopted env packet body notice sender record bytes hev hstrip hopen hack hextends hrecord hw =>
    refine h.progress_saved hc hw rfl (.inl ?_)
    rw [withRoster_roster hrecord]
    exact (DeviceRoster.extends_eq_true.1 hextends).2
  | certified env sender certificate bytes hev hverify hroot hsubject hw =>
    exact h.progress_saved hc hw rfl (.inl List.prefix_rfl)
  | begun => exact .of_row rfl
  | prepared env uri typed bytes hev he hdelivery hrevoked hw =>
    exact h.progress_saved hc hw rfl (.inl List.prefix_rfl)
  | renamed env uri typed name roster bytes hev he hdelivery hrevoked hcan hgenesis hw =>
    exact h.progress_saved hc hw rfl (.inr ⟨hrevoked, hcan⟩)
  | asked => exact .of_row rfl
  | granted env code e base joining offerHash rosterHash roster sealed bytes hev he hrole hbase
      hjoining hoffer hcode hown hextend hsealed hhash hw =>
    obtain ⟨parent, entry, -, -, rfl, -⟩ := extend_eq_ok hextend
    refine h.progress_saved hc hw rfl (.inl ?_)
    rw [hd s.record.roster base offerHash hown hoffer]
    exact List.prefix_append base [entry]
  | removed env target roster devices bytes hev he hdelivery hrevoke hdevices hw =>
    obtain ⟨-, -, -, entry, -, -, -, -, rfl, -⟩ := revoke_eq_ok hrevoke
    exact h.progress_saved hc hw rfl (.inl (List.prefix_append _ _))
  | restarted env seed identity resumed hev hopen hresumed =>
    rw [h.own] at hopen
    exact .of_row (h.reopen hopen).1.symm

theorem Progress.of_left {t : Installation Seed} (hrow : t.row = s.row) (htables : t.tables = s.tables)
    (h : Progress c t s') : Progress c s s' := by
  intro record hrecord record' hrecord'
  rw [storedRecord, ← hrow, ← storedRecord] at hrecord
  rw [Free, ← htables]
  exact h record hrecord record' hrecord'

theorem Progress.of_right {t : Installation Seed} (hrow : s'.row = t.row) (h : Progress c s t) :
    Progress c s s' := by
  intro record hrecord record' hrecord'
  rw [storedRecord, hrow, ← storedRecord] at hrecord'
  exact h record hrecord record' hrecord'

/-- What the start of the process is, before it ends an exchange. -/
theorem start_cases {env : Env} {row : Option Bytes} {tables : Tables} {seed : Seed}
    {sent : List (String × Bytes)} {signed : List (PairingQr × LinkMessage)}
    (h : start c env peer row tables seed sent signed = .ok s') :
    ∃ t, Kept c peer t ∧ t.tables = tables ∧ (∀ bytes, row = some bytes → t.row = some bytes) ∧
      (s' = t ∨ Effect c (.restart env seed) t s') := by
  simp only [start, bind_eq_ok] at h
  obtain ⟨identity, hopen, resumed, hresumed, h⟩ := h
  have hread : c.parseRecord identity.persisted = some identity.record ∧
      Valid c peer identity.record := by
    simp only [DeviceIdentity.open, bind_eq_ok, getOr_eq_ok] at hopen
    obtain ⟨persisted, -, record, hrecord, ⟨⟩, hvalid, heq⟩ := hopen
    cases heq
    exact ⟨hrecord, validate_eq_ok.1 hvalid⟩
  refine ⟨_, ⟨rfl, hread.1, hread.2, ⟨_, identity.record, rfl, hread.1, hread.2, .refl _⟩,
    (fun other hother => by cases hother), Linking.resumed hread.2 hresumed⟩, rfl,
    fun bytes hrow => ?_,
    expire_effect rfl (fun e he => .expiredAtStart he) (fun e he => .ineligibleAtStart he) h⟩
  rw [hrow] at hopen
  rw [← (open_eq_ok.1 hopen).1]

theorem start_kept (hc : Readable c) {env : Env} {row : Option Bytes} {tables : Tables} {seed : Seed}
    {sent : List (String × Bytes)} {signed : List (PairingQr × LinkMessage)}
    (h : start c env peer row tables seed sent signed = .ok s') : Kept c peer s' := by
  obtain ⟨t, ht, -, -, rfl | heffect⟩ := start_cases h
  · exact ht
  · exact ht.effect hc heffect

/-- Every event extends the stored roster, unless the installation is free to leave its account. -/
theorem Kept.step_progress (hc : Readable c) (hd : Collisionless c) (h : Kept c peer s)
    (ev : Event Seed) : Progress c s (s.step c ev) := by
  by_cases hev : ∃ env seed, ev = .restart env seed
  · obtain ⟨env, seed, rfl⟩ := hev
    change Progress c s (s.outcome _).1
    unfold outcome
    split
    · exact .of_row rfl
    next s₁ hstart =>
      rw [h.own] at hstart
      obtain ⟨t, ht, htables, hrow, hcase⟩ := start_cases hstart
      obtain ⟨bytes, -, hbytes, -⟩ := h.row
      have hsame : t.row = s.row := (hrow bytes hbytes).trans hbytes.symm
      rcases hcase with rfl | heffect
      · exact .of_row hsame
      · exact (ht.progress hc hd heffect).of_left hsame htables
  · obtain ⟨t, ht, hrow⟩ := step_writes (s := s) (c := c) fun env seed heq => hev ⟨env, seed, heq⟩
    rcases ht with rfl | heffect
    · exact .of_row hrow
    · exact (h.progress hc hd heffect).of_right hrow

/-! ## Writes that do not happen -/

/-- The row is not the one that was read by the owner that is to write it. -/
def Conflicts (s : Installation Seed) : Event Seed → Prop
  | .otherAdopt _ _ => ∀ other ∈ s.other, s.row ≠ some other.persisted
  | _ => s.row ≠ some s.identity.persisted

theorem Conflicts.own (h : s.Conflicts ev) (hev : ∀ env roster, ev ≠ .otherAdopt env roster) :
    s.row ≠ some s.identity.persisted := by
  cases ev with
  | otherAdopt env roster => exact absurd rfl (hev env roster)
  | _ => exact h

/-- Neither the identity nor the row is changed. -/
structure Untouched (s s' : Installation Seed) : Prop where
  identity : s'.identity = s.identity
  row : s'.row = s.row

/-- A change writes nothing if its write is refused or in conflict. -/
theorem untouched_effect (heffect : Effect c ev s s')
    (hreload : ∀ seed, ev ≠ .reload seed) (hrestart : ∀ env seed, ev ≠ .restart env seed)
    (h : ev.refuses = true ∨ s.Conflicts ev) :
    Untouched s s' ∧ (ev.refuses = true ∨ s'.Conflicts ev) := by
  have hno : ∀ {identity record bytes}, Writable c ev.refuses identity s.row record bytes →
      s.row ≠ some identity.persisted → False := fun hw hne => hne hw.row
  have hwritten : ∀ {record bytes}, Writable c ev.refuses s.identity s.row record bytes →
      (∀ env roster, ev ≠ .otherAdopt env roster) → False := by
    intro record bytes hw hev
    rcases h with hrefused | hconflict
    · rw [hw.accepted] at hrefused
      cases hrefused
    · exact hno hw (hconflict.own hev)
  have hsame : ∀ t : Installation Seed, t.identity = s.identity → t.row = s.row →
      t.other = s.other → Untouched s t ∧ (ev.refuses = true ∨ t.Conflicts ev) := by
    intro t hidentity hrow hother
    refine ⟨⟨hidentity, hrow⟩, h.imp_right fun hconflict => ?_⟩
    cases ev with
    | otherAdopt env roster =>
      change ∀ other ∈ t.other, t.row ≠ some other.persisted
      rw [hother, hrow]
      exact hconflict
    | _ =>
      change t.row ≠ some t.identity.persisted
      rw [hidentity, hrow]
      exact hconflict
  cases heffect with
  | quiet => exact hsame _ rfl rfl rfl
  | tabled => exact hsame _ rfl rfl rfl
  | otherRead seed other hev hother =>
    subst hev
    exact ⟨⟨rfl, rfl⟩, h⟩
  | otherAdopted env roster identity record bytes hev hother hextends hrecord hw =>
    exfalso
    rcases h with hrefused | hconflict
    · rw [hw.accepted] at hrefused
      cases hrefused
    · subst hev
      exact hconflict identity hother hw.row
  | reloaded seed identity hev => exact absurd hev (hreload seed)
  | dropped => exact hsame _ rfl rfl rfl
  | failed e kind now bytes signed sent he hwhy hsigned hw =>
    refine (hwritten hw fun env roster hev => ?_).elim
    rw [hev] at hwhy
    cases hwhy
  | cancelled => exact hsame _ rfl rfl rfl
  | delivered env packet d bytes hev hd hopen hw => exact (hwritten hw (hev ▸ nofun)).elim
  | froze => exact hsame _ rfl rfl rfl
  | offered env packet e signer roster trusted joining offerHash sealed identity row hev he hrole
      hopen hcheck hremoval hhash hsealed hsave =>
    rcases hsave with ⟨-, rfl, rfl⟩ | ⟨-, bytes, rfl, rfl, hw⟩
    · exact hsame _ rfl rfl rfl
    · exact (hwritten hw (hev ▸ nofun)).elim
  | readied => exact hsame _ rfl rfl rfl
  | joined env packet e roster trusted joining base hash adopted canJoin sealed bytes sent hev he
      hrole hopen htrusted hbase hjoining hadds hhash hadopted hremoval hcan hor hsealed hw =>
    exact (hwritten hw (hev ▸ nofun)).elim
  | acked env packet body notice sender hash bytes hev hstrip hopen hack hreceived hown hw =>
    exact (hwritten hw (hev ▸ nofun)).elim
  | adopted env packet body notice sender record bytes hev hstrip hopen hack hextends hrecord hw =>
    exact (hwritten hw (hev ▸ nofun)).elim
  | certified env sender certificate bytes hev hverify hroot hsubject hw =>
    exact (hwritten hw (hev ▸ nofun)).elim
  | begun => exact hsame _ rfl rfl rfl
  | prepared env uri typed bytes hev he hdelivery hrevoked hw =>
    exact (hwritten hw (hev ▸ nofun)).elim
  | renamed env uri typed name roster bytes hev he hdelivery hrevoked hcan hgenesis hw =>
    exact (hwritten hw (hev ▸ nofun)).elim
  | asked => exact hsame _ rfl rfl rfl
  | granted env code e base joining offerHash rosterHash roster sealed bytes hev he hrole hbase
      hjoining hoffer hcode hown hextend hsealed hhash hw =>
    exact (hwritten hw (hev ▸ nofun)).elim
  | removed env target roster devices bytes hev he hdelivery hrevoke hdevices hw =>
    exact (hwritten hw (hev ▸ nofun)).elim
  | restarted env seed identity resumed hev => exact absurd hev (hrestart env seed)

theorem untouched_step (hreload : ∀ seed, ev ≠ .reload seed)
    (hrestart : ∀ env seed, ev ≠ .restart env seed)
    (h : ev.refuses = true ∨ s.Conflicts ev) : Untouched s (s.step c ev) := by
  refine (Effects.invariant (P := fun t => Untouched s t ∧ (ev.refuses = true ∨ t.Conflicts ev))
    (fun t t' heffect ht => ?_) (step_effects s ev) ⟨⟨rfl, rfl⟩, h⟩).1
  obtain ⟨huntouched, hstill⟩ := untouched_effect heffect hreload hrestart ht.2
  exact ⟨⟨huntouched.identity.trans ht.1.identity, huntouched.row.trans ht.1.row⟩, hstill⟩

/-! ## Runs -/

variable (c) in
/-- The installation is removed on the roster that it has stored. -/
def StoresRemoval (s : Installation Seed) : Prop :=
  ∃ record ∈ s.storedRecord c, record.revoked c = .ok true

theorem Kept.run (hc : Readable c) {evs : List (Event Seed)} (h : Kept c peer s) :
    Kept c peer (evs.foldl (Installation.step c) s) := by
  induction evs generalizing s with
  | nil => exact h
  | cons ev evs ih => exact ih (h.step hc ev)

theorem Kept.stores (h : Kept c peer s) : ∃ record, s.storedRecord c = some record := by
  obtain ⟨bytes, stored, hrow, hstored, -⟩ := h.row
  exact ⟨stored, storedRecord_eq_some.2 ⟨bytes, hrow, hstored⟩⟩

/-- As long as the installation is removed on its stored roster, that is only extended. -/
theorem Kept.removal_extended (hc : Readable c) (hd : Collisionless c) (h : Kept c peer s)
    {evs : List (Event Seed)} (hrun : Runs (Installation.step c) (fun t _ => t.StoresRemoval c) s evs s') :
    ∀ record ∈ s.storedRecord c, ∀ record' ∈ s'.storedRecord c,
      record.roster <+: record'.roster := by
  induction hrun with
  | nil t =>
    intro record hrecord record' hrecord'
    obtain rfl := Option.some.inj (hrecord.symm.trans hrecord')
    exact List.prefix_rfl
  | @cons t u ev evs hremoval _ ih =>
    intro record hrecord record' hrecord'
    obtain ⟨stored, hstored⟩ := (h.step hc ev).stores
    refine List.IsPrefix.trans ?_ (ih (h.step hc ev) stored hstored record' hrecord')
    rcases h.step_progress hc hd ev record hrecord stored hstored with hpre | hfree
    · exact hpre
    · -- a removed installation is not free to leave its account
      obtain ⟨record₀, hrecord₀, hrevoked⟩ := hremoval
      obtain rfl := Option.some.inj (hrecord.symm.trans hrecord₀)
      rw [hfree.1] at hrevoked
      cases hrevoked

end Installation

open Installation

def noTables : Tables := ⟨false, 0, 0, 0, 0⟩

/-- A call at a time, with nothing refused. -/
def sampleEnv (now : Nat) : Env := ⟨now, List.replicate 12 0, false⟩

/-- An installation that is started for the first time. -/
def sampleStart (hash : Bytes → Bytes) (b : UInt8) :
    Except DeviceLinkError (Installation UInt8) :=
  start (linkCrypto hash) (sampleEnv 0) (samplePeer b) none noTables b [] []

/-- A packet for the QR of the first installation. -/
def samplePacket (hash : Bytes → Bytes) (b : UInt8) (message : LinkMessage) : Bytes :=
  ((sealPacket (linkCrypto hash).toLinkCrypto (sampleQr hash 0 1) b message
    (List.replicate 12 0)).toOption).getD []

/-- The digest of a roster. -/
def sampleDigest (hash : Bytes → Bytes) (roster : DeviceRoster) : String :=
  ((digest (linkCrypto hash).toRosterCrypto roster).toOption).getD ""

/-- The rosters of the first installation: its own one, and with the second one. -/
def sampleRoster (hash : Bytes → Bytes) : DeviceRoster :=
  ((DeviceRoster.genesis (linkCrypto hash).toLinkCrypto (sampleDevice hash 1) 1).toOption).getD []

def samplePair (hash : Bytes → Bytes) : DeviceRoster :=
  (((sampleRoster hash).extend (linkCrypto hash).toLinkCrypto (sampleDevice hash 2) 1).toOption).getD
    []

def sampleCode (hash : Bytes → Bytes) : String :=
  (((sampleQr hash 0 1).code (linkCrypto hash).toLinkCrypto (sampleDigest hash (sampleRoster hash))
    (sampleDevice hash 1) (sampleDevice hash 2)).toOption).getD ""

/-- The first installation links the second one. -/
def sampleLink (hash : Bytes → Bytes) : List (Event UInt8) :=
  [.beginLink 0 (List.replicate 16 1) (List.replicate 32 7),
    .receive (sampleEnv 1) (samplePacket hash 2 (.join (sampleDevice hash 2))),
    .receive (sampleEnv 2) (samplePacket hash 2 (.ready (sampleDigest hash (sampleRoster hash)))),
    .approve (sampleEnv 3) (sampleCode hash)]

/-- It is answered, and removes the second installation. -/
def sampleRemoval (hash : Bytes → Bytes) : List (Event UInt8) :=
  [.receive (sampleEnv 4) (samplePacket hash 2 (.ack (sampleDigest hash (samplePair hash)))),
    .revoke (sampleEnv 5) (sampleDevice hash 2).deviceId]

/-- How many entries the stored roster has at first, and after each of some events. -/
def storedLengths (hash : Bytes → Bytes) (evs : List (Event UInt8)) : List Nat :=
  match sampleStart hash 1 with
  | .error _ => []
  | .ok s => (evs.scanl (step (linkCrypto hash)) s).map fun t =>
    ((t.storedRecord (linkCrypto hash)).map (·.roster.length)).getD 0

end Mosh.DeviceLink
