import Mosh.DeviceLink.Runtime

/-!
# What an event does to an installation

Every event is made of at most a few changes of the installation, each of which is listed here
with what was checked before it. What is shown of the runs of installations is shown for these
changes, one after the other.

* `Effect`: a single change;
* `step_effects`: every event is a sequence of changes.
-/

namespace Mosh.DeviceLink

open Checked Relation

variable {Key Signature Seed : Type} (c : IdentityCrypto Key Signature Seed)

namespace Installation

/-- The record can be written in the place of the one that was read. -/
structure Writable (refused : Bool) (identity : DeviceIdentity Seed) (row : Option Bytes)
    (record : LocalIdentity Seed) (bytes : Bytes) : Prop where
  accepted : refused = false
  row : row = some identity.persisted
  known : record.roster.knownDevice c.toRosterCrypto record.device.deviceId = .ok (some record.device)
  bytes : c.recordJson record = some bytes

/-- The installation with another record, in memory and in the store. -/
def saved (s : Installation Seed) (record : LocalIdentity Seed) (bytes : Bytes) :
    Installation Seed :=
  { s with
    identity := ⟨bytes, record⟩
    row := some bytes }

/-- Why an exchange is ended as a failure. -/
inductive Fails (s : Installation Seed) (e : Exchange) : Event Seed → Prop
  | expired {env : Env} (h : e.qr.expiresAt ≤ env.now) : Fails s e (.expire env)
  | expiredAtStart {env : Env} {seed : Seed} (h : e.qr.expiresAt ≤ env.now) :
      Fails s e (.restart env seed)
  | ineligible {env : Env} (h : s.ineligible c e = .ok true) : Fails s e (.expire env)
  | ineligibleAtStart {env : Env} {seed : Seed} (h : s.ineligible c e = .ok true) :
      Fails s e (.restart env seed)
  | rejected {env : Env} {packet : Bytes} {signer : String}
      (hopen : openPacket c.toLinkCrypto e.qr packet = .ok (signer, .rejected))
      (hsigner : match e.role with
        | .authorizing => ∃ joining, e.joining = some joining ∧ signer = joining.signingPublicKey
        | .joining => ∃ trusted, e.trusted = some trusted ∧ signer = trusted.signingPublicKey) :
      Fails s e (.receive env packet)
  | cancelled {env : Env} (h : s.record.delivery = none) : Fails s e (.cancel env)

/-- A change of an installation in an event. -/
inductive Effect (ev : Event Seed) (s : Installation Seed) : Installation Seed → Prop
  /-- Something is sent, or displayed. -/
  | quiet (sent : List (String × Bytes)) (error : Option DeviceLinkErrorKind)
      (phase : DeviceLinkPhase)
      (hphase : phase = s.phase ∨ phase = .delivering ∧ s.record.delivery.isSome) :
      Effect ev s { s with
        sent := sent
        error := error
        phase := phase }
  | tabled (tables : Tables) (hev : ev = .tables tables) : Effect ev s { s with tables := tables }
  | otherRead (seed : Seed) (other : Option (DeviceIdentity Seed)) (hev : ev = .otherOpen seed)
      (h : ∀ identity ∈ other, ∃ seed, DeviceIdentity.open c s.row s.peer seed = .ok identity) :
      Effect ev s { s with other := other }
  | otherAdopted (env : Env) (roster : DeviceRoster) (identity : DeviceIdentity Seed)
      (record : LocalIdentity Seed) (bytes : Bytes) (hev : ev = .otherAdopt env roster)
      (hother : s.other = some identity)
      (hextends : roster.extends c.toRosterCrypto identity.record.roster = .ok true)
      (hrecord : identity.record.withRoster c roster = .ok record)
      (hw : Writable c ev.refuses identity s.row record bytes) :
      Effect ev s { s with
        other := some ⟨bytes, record⟩
        row := some bytes }
  | reloaded (seed : Seed) (identity : DeviceIdentity Seed) (hev : ev = .reload seed)
      (h : DeviceIdentity.open c s.row s.record.device.mossPeerId seed = .ok identity) :
      Effect ev s { s with
        identity := identity
        row := some identity.persisted }
  /-- A removed installation does not go on. -/
  | dropped (hrevoked : s.record.revoked c = .ok true)
      (hwhy : s.exchange.any (·.role = .authorizing) = true ∨ s.losesPendingJoin = true ∨
        s.phase = .delivering ∨ s.phase = .linked) :
      Effect ev s { s with
        exchange := none
        phase := .idle
        error := none }
  | failed (e : Exchange) (kind : DeviceLinkErrorKind) (now : Nat) (bytes : Bytes)
      (signed : List (PairingQr × LinkMessage)) (sent : List (String × Bytes))
      (he : s.exchange = some e) (hwhy : Fails c s e ev)
      (hsigned : signed = s.signed ∨ signed = s.signed ++ [(e.qr, .rejected)])
      (hw : Writable c ev.refuses s.identity s.row
        ({ s.record with pending := none }.consume e.qr now) bytes) :
      Effect ev s { s.saved ({ s.record with pending := none }.consume e.qr now) bytes with
        exchange := none
        phase := .failed
        error := some kind
        signed := signed
        sent := sent }
  | cancelled (env : Env) (hev : ev = .cancel env) (he : s.exchange = none) :
      Effect ev s { s with
        exchange := none
        phase := .failed
        error := some .rejected }
  | delivered (env : Env) (packet : Bytes) (d : LinkDelivery) (bytes : Bytes)
      (hev : ev = .receive env packet) (hd : s.record.delivery = some d)
      (hopen : openPacket c.toLinkCrypto d.qr packet =
        .ok (d.joiningDevice.signingPublicKey, .ack d.rosterHash))
      (hw : Writable c ev.refuses s.identity s.row { s.record with delivery := none } bytes) :
      Effect ev s { s.saved { s.record with delivery := none } bytes with
        phase := .linked
        error := none }
  /-- The first candidate is taken, and offered the roster. -/
  | froze (env : Env) (packet : Bytes) (e : Exchange) (device : DeviceDescriptor)
      (devices : List DeviceDescriptor) (sealed : Bytes) (hev : ev = .receive env packet)
      (he : s.exchange = some e) (hrole : e.role = .authorizing)
      (hopen : openPacket c.toLinkCrypto e.qr packet =
        .ok (device.signingPublicKey, .join device))
      (hvalid : device.validate c.toRosterCrypto = .ok ())
      (hrevoked : s.record.revoked c = .ok false) (hjoining : e.joining = none)
      (hdevices : s.record.roster.devices c.toRosterCrypto = .ok devices)
      (hfree : LocalIdentity.free devices device = true)
      (hsealed : sealPacket c.toLinkCrypto e.qr s.record.seed
        (.offer s.record.roster s.record.device (some device)) env.nonce = .ok sealed) :
      Effect ev s { s with
        exchange := some { e with
          joining := some device
          base := some s.record.roster
          packet := some sealed }
        phase := .connecting
        signed := s.signed ++ [(e.qr, .offer s.record.roster s.record.device (some device))] }
  /-- The roster that is offered is noted, the first time also in the store. -/
  | offered (env : Env) (packet : Bytes) (e : Exchange) (signer : String) (roster : DeviceRoster)
      (trusted : DeviceDescriptor) (joining : Option DeviceDescriptor) (offerHash : String)
      (sealed : Bytes) (identity : DeviceIdentity Seed) (row : Option Bytes)
      (hev : ev = .receive env packet) (he : s.exchange = some e) (hrole : e.role = .joining)
      (hopen : openPacket c.toLinkCrypto e.qr packet = .ok (signer, .offer roster trusted joining))
      (hcheck : e.checkOffer c signer roster trusted joining = .ok ())
      (hremoval : s.record.checkAfterRemoval c roster = .ok ())
      (hhash : digest c.toRosterCrypto roster = .ok offerHash)
      (hsealed : sealPacket c.toLinkCrypto e.qr s.record.seed (.ready offerHash) env.nonce =
        .ok sealed)
      (hsave : (e.base.isSome ∧ identity = s.identity ∧ row = s.row) ∨
        (e.base = none ∧ ∃ bytes, row = some bytes ∧ identity = ⟨bytes,
            { s.record with pending := some ⟨e.qr, e.joining, trusted, roster⟩ }⟩ ∧
          Writable c ev.refuses s.identity s.row
            { s.record with pending := some ⟨e.qr, e.joining, trusted, roster⟩ } bytes)) :
      Effect ev s { s with
        identity := identity
        row := row
        exchange := some { e with
          packet := some sealed
          trusted := some trusted
          base := some roster }
        phase := .awaitingConfirmation
        error := none
        signed := s.signed ++ [(e.qr, .ready offerHash)] }
  | readied (env : Env) (packet : Bytes) (e : Exchange) (joining : DeviceDescriptor)
      (base : DeviceRoster) (offerHash : String) (hev : ev = .receive env packet)
      (he : s.exchange = some e) (hrole : e.role = .authorizing)
      (hopen : openPacket c.toLinkCrypto e.qr packet =
        .ok (joining.signingPublicKey, .ready offerHash))
      (hjoining : e.joining = some joining) (hbase : e.base = some base)
      (hhash : digest c.toRosterCrypto base = .ok offerHash) :
      Effect ev s { s with
        phase := .awaitingApproval
        error := none }
  /-- The approval is taken over. -/
  | joined (env : Env) (packet : Bytes) (e : Exchange) (roster : DeviceRoster)
      (trusted joining : DeviceDescriptor) (base : DeviceRoster) (hash : String)
      (adopted canJoin : Bool) (sealed bytes : Bytes) (sent : List (String × Bytes))
      (hev : ev = .receive env packet) (he : s.exchange = some e) (hrole : e.role = .joining)
      (hopen : openPacket c.toLinkCrypto e.qr packet =
        .ok (trusted.signingPublicKey, .approved roster))
      (htrusted : e.trusted = some trusted) (hbase : e.base = some base)
      (hjoining : e.joining = some joining)
      (hadds : roster.verifiesAddition c.toRosterCrypto base joining trusted.deviceId = .ok ())
      (hhash : digest c.toRosterCrypto roster = .ok hash)
      (hadopted : s.alreadyAdopted c e hash = .ok adopted)
      (hremoval : s.record.checkAfterRemoval c roster = .ok ())
      (hcan : s.record.canJoin c s.tables = .ok canJoin) (hor : (canJoin || adopted) = true)
      (hsealed : sealPacket c.toLinkCrypto e.qr s.record.seed (.ack hash) env.nonce = .ok sealed)
      (hw : Writable c ev.refuses s.identity s.row { s.record.consume e.qr env.now with
        roster := roster
        accountCertificate := none
        pending := none
        receipt := some ⟨e.qr, trusted, hash, sealed⟩ } bytes) :
      Effect ev s { s.saved { s.record.consume e.qr env.now with
          roster := roster
          accountCertificate := none
          pending := none
          receipt := some ⟨e.qr, trusted, hash, sealed⟩ } bytes with
        exchange := none
        phase := .linked
        error := none
        sent := sent
        signed := s.signed ++ [(e.qr, .ack hash)] }
  | acked (env : Env) (packet body : Bytes) (notice : RosterNotice) (sender : DeviceDescriptor)
      (hash : String) (bytes : Bytes) (hev : ev = .receive env packet)
      (hstrip : stripHead rosterNoticePrefix packet = some body)
      (hopen : RosterNotice.open c.toLinkCrypto s.record.device.mossPeerId body =
        .ok (notice, sender))
      (hack : notice.ack = true) (hreceived : digest c.toRosterCrypto notice.roster = .ok hash)
      (hown : digest c.toRosterCrypto s.record.roster = .ok hash)
      (hw : Writable c ev.refuses s.identity s.row { s.record with
        rosterDelivery :=
          s.record.rosterDelivery.filter (·.deviceId ≠ sender.deviceId) } bytes) :
      Effect ev s (s.saved { s.record with
        rosterDelivery := s.record.rosterDelivery.filter (·.deviceId ≠ sender.deviceId) } bytes)
  | adopted (env : Env) (packet body : Bytes) (notice : RosterNotice) (sender : DeviceDescriptor)
      (record : LocalIdentity Seed) (bytes : Bytes) (hev : ev = .receive env packet)
      (hstrip : stripHead rosterNoticePrefix packet = some body)
      (hopen : RosterNotice.open c.toLinkCrypto s.record.device.mossPeerId body =
        .ok (notice, sender))
      (hack : notice.ack = false)
      (hextends : notice.roster.extends c.toRosterCrypto s.record.roster = .ok true)
      (hrecord : s.record.withRoster c notice.roster = .ok record)
      (hw : Writable c ev.refuses s.identity s.row record bytes) :
      Effect ev s (s.saved record bytes)
  | certified (env : Env) (sender : DeviceDescriptor) (certificate : AccountCertificate)
      (bytes : Bytes) (hev : ev = .receiveCertificate env sender certificate)
      (hverify : certificate.verify c = .ok ())
      (hroot : certificate.root = s.record.roster.userId)
      (hsubject : certificate.subject = s.record.device.signingPublicKey)
      (hw : Writable c ev.refuses s.identity s.row
        { s.record with accountCertificate := some certificate } bytes) :
      Effect ev s (s.saved { s.record with accountCertificate := some certificate } bytes)
  | begun (now : Nat) (id secret : Bytes) (hev : ev = .beginLink now id secret)
      (he : s.exchange = none) (hdelivery : s.record.delivery = none)
      (hrevoked : s.record.revoked c = .ok false) :
      Effect ev s { s with
        exchange := some {
          qr := .new c.toLinkCrypto s.record.device now id secret
          joining := none
          role := .authorizing
          trusted := some s.record.device
          base := none
          packet := none }
        phase := .showingQr
        error := none }
  /-- A removed installation gets ready to join again. -/
  | prepared (env : Env) (uri typed : String) (bytes : Bytes) (hev : ev = .joinLink env uri typed)
      (he : s.exchange = none) (hdelivery : s.record.delivery = none)
      (hrevoked : s.record.revoked c = .ok true)
      (hw : Writable c ev.refuses s.identity s.row { s.record with pending := none } bytes) :
      Effect ev s (s.saved { s.record with pending := none } bytes)
  /-- An installation gets ready to join another account, under a name. -/
  | renamed (env : Env) (uri typed name : String) (roster : DeviceRoster) (bytes : Bytes)
      (hev : ev = .joinLink env uri typed) (he : s.exchange = none)
      (hdelivery : s.record.delivery = none) (hrevoked : s.record.revoked c = .ok false)
      (hcan : s.record.canJoin c s.tables = .ok true)
      (hgenesis : DeviceRoster.genesis c.toLinkCrypto { s.record.device with name := name }
        s.record.seed = .ok roster)
      (hw : Writable c ev.refuses s.identity s.row { s.record with
        device := { s.record.device with name := name }
        roster := roster
        accountCertificate := none
        pending := none } bytes) :
      Effect ev s (s.saved { s.record with
        device := { s.record.device with name := name }
        roster := roster
        accountCertificate := none
        pending := none } bytes)
  /-- The request to join is made. -/
  | asked (env : Env) (uri typed : String) (qr : PairingQr) (sealed : Bytes)
      (hev : ev = .joinLink env uri typed) (he : s.exchange = none)
      (hdelivery : s.record.delivery = none) (hpending : s.record.pending = none)
      (hqr : PairingQr.parse c.toLinkCrypto uri env.now = .ok qr) :
      Effect ev s { s with
        exchange := some {
          qr := qr
          joining := some s.record.device
          role := .joining
          trusted := some qr.device
          base := none
          packet := some sealed }
        phase := .connecting
        error := none
        signed := s.signed ++ [(qr, .join s.record.device)] }
  /-- The candidate is added to the roster. -/
  | granted (env : Env) (code : String) (e : Exchange) (base : DeviceRoster)
      (joining : DeviceDescriptor) (offerHash rosterHash : String) (roster : DeviceRoster)
      (sealed bytes : Bytes) (hev : ev = .approve env code) (he : s.exchange = some e)
      (hrole : e.role = .authorizing) (hbase : e.base = some base)
      (hjoining : e.joining = some joining)
      (hoffer : digest c.toRosterCrypto base = .ok offerHash)
      (hcode : e.qr.code c.toLinkCrypto offerHash s.record.device joining =
        .ok (normalizeCode code))
      (hown : digest c.toRosterCrypto s.record.roster = .ok offerHash)
      (hextend : base.extend c.toLinkCrypto joining s.record.seed = .ok roster)
      (hsealed : sealPacket c.toLinkCrypto e.qr s.record.seed (.approved roster) env.nonce =
        .ok sealed)
      (hhash : digest c.toRosterCrypto roster = .ok rosterHash)
      (hw : Writable c ev.refuses s.identity s.row ({ s.record with
        delivery := some ⟨e.qr, some joining, sealed, rosterHash⟩
        roster := roster }.consume e.qr env.now) bytes) :
      Effect ev s { s.saved ({ s.record with
          delivery := some ⟨e.qr, some joining, sealed, rosterHash⟩
          roster := roster }.consume e.qr env.now) bytes with
        exchange := none
        phase := .delivering
        error := none
        signed := s.signed ++ [(e.qr, .approved roster)] }
  | removed (env : Env) (target : String) (roster : DeviceRoster)
      (devices : List DeviceDescriptor) (bytes : Bytes) (hev : ev = .revoke env target)
      (he : s.exchange = none) (hdelivery : s.record.delivery = none)
      (hrevoke : s.record.roster.revoke c.toLinkCrypto target s.record.seed = .ok roster)
      (hdevices : s.record.roster.devices c.toRosterCrypto = .ok devices)
      (hw : Writable c ev.refuses s.identity s.row { s.record with
        rosterDelivery := devices.filter (·.deviceId ≠ s.record.device.deviceId)
        roster := roster } bytes) :
      Effect ev s (s.saved { s.record with
        rosterDelivery := devices.filter (·.deviceId ≠ s.record.device.deviceId)
        roster := roster } bytes)
  /-- The process starts again; a join that was offered a roster goes on. -/
  | restarted (env : Env) (seed : Seed) (identity : DeviceIdentity Seed)
      (resumed : Option (Exchange × LinkMessage)) (hev : ev = .restart env seed)
      (hopen : DeviceIdentity.open c s.row s.peer seed = .ok identity)
      (hresumed : identity.record.pending.elim (.ok none) (fun pending =>
        (Exchange.resume c identity.record pending env.nonce).map some) = .ok resumed) :
      Effect ev s { s with
        row := some identity.persisted
        identity := identity
        exchange := resumed.map (·.1)
        phase :=
          if identity.record.delivery.isSome then .delivering
          else if resumed.isSome then .awaitingConfirmation
          else .idle
        error := none
        other := none
        signed := s.signed ++ (resumed.map fun x => (x.1.qr, x.2)).toList }

/-- Changes one after the other. -/
abbrev Effects (ev : Event Seed) : Installation Seed → Installation Seed → Prop :=
  ReflTransGen (Effect c ev)

variable {c} {ev : Event Seed} {s s' : Installation Seed} {env : Env}

/-! ## Writing the row -/

theorem update_eq_ok {identity identity' : DeviceIdentity Seed} {row row' : Option Bytes}
    {refused : Bool} {record : LocalIdentity Seed} :
    identity.update c row refused record = .ok (identity', row') ↔
      ∃ bytes, Writable c refused identity row record bytes ∧
        identity' = ⟨bytes, record⟩ ∧ row' = some bytes := by
  simp only [DeviceIdentity.update, bind_eq_ok, check_eq_ok, getOr_eq_ok, decide_eq_true_eq]
  constructor
  · rintro ⟨known, hknown, ⟨⟩, rfl, bytes, hbytes, ⟨⟩, hrefused, ⟨⟩, hrow, heq⟩
    cases heq
    exact ⟨bytes, ⟨by simpa using hrefused, hrow, hknown, hbytes⟩, rfl, rfl⟩
  · rintro ⟨bytes, hw, rfl, rfl⟩
    exact ⟨_, hw.known, (), rfl, bytes, hw.bytes, (), by simp [hw.accepted], (), hw.row, rfl⟩

theorem save_eq_ok {record : LocalIdentity Seed} :
    s.save c env record = .ok s' ↔ ∃ bytes,
      Writable c env.refused s.identity s.row record bytes ∧ s' = s.saved record bytes := by
  simp only [save, bind_eq_ok]
  constructor
  · rintro ⟨⟨identity, row⟩, hupdate, heq⟩
    obtain ⟨bytes, hw, rfl, rfl⟩ := update_eq_ok.1 hupdate
    cases heq
    exact ⟨bytes, hw, rfl⟩
  · rintro ⟨bytes, hw, rfl⟩
    exact ⟨_, update_eq_ok.2 ⟨bytes, hw, rfl, rfl⟩, rfl⟩

theorem adoptRoster_eq_ok {identity identity' : DeviceIdentity Seed} {row row' : Option Bytes}
    {refused : Bool} {roster : DeviceRoster} :
    identity.adoptRoster c row refused roster = .ok (identity', row') ↔
      roster.extends c.toRosterCrypto identity.record.roster = .ok true ∧
        ∃ record bytes, identity.record.withRoster c roster = .ok record ∧
          Writable c refused identity row record bytes ∧
          identity' = ⟨bytes, record⟩ ∧ row' = some bytes := by
  simp only [DeviceIdentity.adoptRoster, bind_eq_ok, check_eq_ok, update_eq_ok]
  constructor
  · rintro ⟨⟨⟩, ⟨b, hextends, rfl⟩, record, hrecord, bytes, hrest⟩
    exact ⟨hextends, record, bytes, hrecord, hrest⟩
  · rintro ⟨hextends, record, bytes, hrecord, hrest⟩
    exact ⟨(), ⟨true, hextends, rfl⟩, record, hrecord, bytes, hrest⟩

/-! ## One call after the other -/

theorem quiet_sent (sent : List (String × Bytes)) : Effect c ev s { s with sent := sent } :=
  .quiet sent s.error s.phase (.inl rfl)

theorem fail_effect {e : Exchange} {kind : DeviceLinkErrorKind} (hev : ev.refuses = env.refused)
    (he : s.exchange = some e) (hwhy : Fails c s e ev) (h : s.fail c env kind = .ok s') : Effect c ev s s' := by
  simp only [fail, he, bind_eq_ok, save_eq_ok] at h
  obtain ⟨s₁, ⟨bytes, hw, rfl⟩, heq⟩ := h
  cases heq
  exact .failed e kind env.now bytes s.signed s.sent he hwhy (.inl rfl) (hev ▸ hw)

theorem reject_effect {e : Exchange} {kind : DeviceLinkErrorKind}
    (hev : ev.refuses = env.refused) (he : s.exchange = some e) (hwhy : Fails c s e ev) (h : s.reject c env kind = .ok s') : Effect c ev s s' := by
  rw [reject, he, Option.bind_some] at h
  rcases hpeer : e.peer with - | peer
  · rw [hpeer] at h
    exact fail_effect hev he hwhy h
  · simp only [hpeer, Option.map_some, bind_eq_ok, fail, he, save_eq_ok] at h
    obtain ⟨packet, -, s₁, ⟨s₂, ⟨bytes, hw, rfl⟩, heq⟩, heq'⟩ := h
    cases heq
    cases heq'
    exact .failed e kind env.now bytes _ _ he hwhy (.inr rfl) (hev ▸ hw)

theorem cancel_effect (h : s.cancel c env = .ok s') : Effect c (.cancel env) s s' := by
  simp only [cancel, bind_eq_ok, check_eq_ok, Option.isNone_iff_eq_none] at h
  obtain ⟨⟨⟩, hdelivery, h⟩ := h
  rcases he : s.exchange with - | e
  · rw [reject, he] at h
    simp only [Option.bind_none, fail, he] at h
    cases h
    exact .cancelled env rfl he
  · exact reject_effect rfl he (.cancelled hdelivery) h

theorem reload_effect {seed : Seed} (h : s.reload c seed = .ok s') :
    Effect c (.reload seed) s s' := by
  simp only [reload, bind_eq_ok] at h
  obtain ⟨identity, hopen, heq⟩ := h
  cases heq
  exact .reloaded seed identity rfl hopen

theorem reconcileRemoval_effect (h : s.reconcileRemoval c = .ok s') :
    s' = s ∨ Effect c ev s s' := by
  simp only [reconcileRemoval, bind_eq_ok] at h
  obtain ⟨revoked, hrevoked, h⟩ := h
  split at h
  · next hwhy =>
    cases h
    simp only [Bool.and_eq_true, Bool.or_eq_true, decide_eq_true_eq, or_assoc] at hwhy
    obtain ⟨rfl, hwhy⟩ := hwhy
    exact .inr (.dropped hrevoked hwhy)
  · cases h
    exact .inl rfl

/-- What the end of an exchange that went on for too long is. -/
theorem expire_effect (hev : ev.refuses = env.refused)
    (hexpired : ∀ e : Exchange, e.qr.expiresAt ≤ env.now → Fails c s e ev)
    (hineligible : ∀ e : Exchange, s.ineligible c e = .ok true → Fails c s e ev)
    (h : s.expire c env = .ok s') : s' = s ∨ Effect c ev s s' := by
  rw [expire] at h
  split at h
  · cases h
    exact .inl rfl
  next e he =>
    split at h
    · next hnow => exact .inr (fail_effect hev he (hexpired e hnow) h)
    · obtain ⟨ineligible, hi, h⟩ := bind_eq_ok.1 h
      cases ineligible with
      | true => exact .inr (reject_effect hev he (hineligible e hi) h)
      | false =>
        cases h
        exact .inl rfl

theorem foldl_notify (recipients : List DeviceDescriptor) (s : Installation Seed) :
    ∃ sent, recipients.foldl (notify c) s = { s with sent := sent } := by
  induction recipients generalizing s with
  | nil => exact ⟨s.sent, rfl⟩
  | cons recipient rest ih =>
    rw [List.foldl_cons, notify]
    split
    · next packet _ =>
      obtain ⟨sent, hsent⟩ := ih (s.send recipient.mossPeerId packet)
      exact ⟨sent, hsent⟩
    · exact ih s

theorem retryRoster_effect : Effect c ev s (s.retryRoster c) := by
  rw [retryRoster]
  split
  · obtain ⟨sent, hsent⟩ := foldl_notify (c := c) s.record.rosterDelivery s
    rw [hsent]
    exact quiet_sent sent
  · exact quiet_sent s.sent

theorem retryExchange_effect (out late : Bool) : Effect c ev s (s.retryExchange out late) := by
  rw [retryExchange]
  split
  · exact quiet_sent s.sent
  · exact .quiet _ _ s.phase (.inl rfl)

theorem retryDelivery_effect (out late : Bool) : Effect c ev s (s.retryDelivery out late) := by
  rw [retryDelivery]
  split
  · exact quiet_sent s.sent
  next d hd =>
    refine .quiet _ _ _ ?_
    cases out with
    | true => exact .inl rfl
    | false => exact .inr ⟨rfl, by rw [hd]; rfl⟩

/-! ## Packets -/

variable {packet : Bytes}

theorem receiveDelivery_effect (h : s.receiveDelivery c env packet = .ok (some s')) :
    Effect c (.receive env packet) s s' := by
  rw [receiveDelivery] at h
  split at h
  · cases h
  next d hd =>
    split at h
    · next signer rosterHash hopen =>
      simp only [bind_eq_ok, check_eq_ok, decide_eq_true_eq, save_eq_ok] at h
      obtain ⟨⟨⟩, ⟨rfl, rfl⟩, s₁, ⟨bytes, hw, rfl⟩, heq⟩ := h
      cases heq
      exact .delivered env packet d bytes rfl hd hopen hw
    · cases h

theorem receiveReceipt_effect (h : s.receiveReceipt c packet = .ok (some s')) :
    Effect c ev s s' := by
  rw [receiveReceipt] at h
  split at h
  · cases h
  next r hr =>
    split at h
    · simp only [bind_eq_ok] at h
      obtain ⟨⟨⟩, -, hash, -, ⟨⟩, -, heq⟩ := h
      cases heq
      exact quiet_sent _
    · cases h

variable {e : Exchange} {signer : String}

theorem join_effect {device : DeviceDescriptor} (he : s.exchange = some e)
    (hrole : e.role = .authorizing)
    (hopen : openPacket c.toLinkCrypto e.qr packet = .ok (signer, .join device))
    (h : s.join c env e signer device = .ok s') :
    s' = s ∨ Effect c (.receive env packet) s s' := by
  simp only [join, bind_eq_ok, check_eq_ok, decide_eq_true_eq] at h
  obtain ⟨⟨⟩, hvalid, ⟨⟩, rfl, revoked, hrevoked, ⟨⟩, hnot, h⟩ := h
  obtain rfl : revoked = false := by simpa using hnot
  split at h
  · simp only [bind_eq_ok] at h
    obtain ⟨⟨⟩, -, heq⟩ := h
    cases heq
    exact .inl rfl
  · next hjoining =>
    simp only [bind_eq_ok, check_eq_ok] at h
    obtain ⟨devices, hdevices, ⟨⟩, hfree, sealed, hsealed, heq⟩ := h
    cases heq
    exact .inr (.froze env packet e device devices sealed rfl he hrole hopen hvalid hrevoked
      hjoining hdevices hfree hsealed)

theorem offer_effect {roster : DeviceRoster} {trusted : DeviceDescriptor}
    {joining : Option DeviceDescriptor} (he : s.exchange = some e) (hrole : e.role = .joining)
    (hopen : openPacket c.toLinkCrypto e.qr packet = .ok (signer, .offer roster trusted joining))
    (h : s.offer c env e signer roster trusted joining = .ok s') :
    Effect c (.receive env packet) s s' := by
  simp only [offer, bind_eq_ok, notePending] at h
  obtain ⟨⟨⟩, hcheck, ⟨⟩, hremoval, offerHash, hhash, sealed, hsealed, s₁, hs₁, heq⟩ := h
  cases heq
  rcases hbase : e.base with - | base
  · simp only [hbase, Option.isSome_none, Bool.false_eq_true, if_false, save_eq_ok] at hs₁
    obtain ⟨bytes, hw, rfl⟩ := hs₁
    exact .offered env packet e signer roster trusted joining offerHash sealed _ _ rfl he hrole
      hopen hcheck hremoval hhash hsealed (.inr ⟨hbase, bytes, rfl, rfl, hw⟩)
  · simp only [hbase, Option.isSome_some, if_true] at hs₁
    cases hs₁
    exact .offered env packet e signer roster trusted joining offerHash sealed s.identity s.row
      rfl he hrole hopen hcheck hremoval hhash hsealed (.inl ⟨by rw [hbase]; rfl, rfl, rfl⟩)

theorem ready_effect {offerHash : String} (he : s.exchange = some e)
    (hrole : e.role = .authorizing)
    (hopen : openPacket c.toLinkCrypto e.qr packet = .ok (signer, .ready offerHash))
    (h : s.ready c e signer offerHash = .ok s') : Effect c (.receive env packet) s s' := by
  simp only [ready, bind_eq_ok, check_eq_ok, getOr_eq_ok, decide_eq_true_eq] at h
  obtain ⟨joining, hjoining, base, hbase, ⟨⟩, rfl, expected, hexpected, ⟨⟩, rfl, heq⟩ := h
  cases heq
  exact .readied env packet e joining base offerHash rfl he hrole hopen hjoining hbase hexpected

theorem approved_effect {roster : DeviceRoster} (he : s.exchange = some e)
    (hrole : e.role = .joining)
    (hopen : openPacket c.toLinkCrypto e.qr packet = .ok (signer, .approved roster))
    (h : s.approved c env e signer roster = .ok s') : Effect c (.receive env packet) s s' := by
  simp only [approved, bind_eq_ok, check_eq_ok, getOr_eq_ok, decide_eq_true_eq, save_eq_ok] at h
  obtain ⟨trusted, htrusted, ⟨⟩, rfl, base, hbase, joining, hjoining, ⟨⟩, hadds, hash, hhash,
    adopted, hadopted, ⟨⟩, hremoval, canJoin, hcan, ⟨⟩, hor, sealed, hsealed, s₁,
    ⟨bytes, hw, rfl⟩, heq⟩ := h
  cases heq
  exact .joined env packet e roster trusted joining base hash adopted canJoin sealed bytes _ rfl
    he hrole hopen htrusted hbase hjoining hadds hhash hadopted hremoval hcan hor hsealed hw

theorem rejected_effect (he : s.exchange = some e)
    (hopen : openPacket c.toLinkCrypto e.qr packet = .ok (signer, .rejected))
    (h : s.rejected c env e signer = .ok s') : s' = s ∨ Effect c (.receive env packet) s s' := by
  rw [rejected] at h
  split at h
  · next hrole =>
    split at h
    · cases h
      exact .inl rfl
    next joining hjoining =>
      split at h
      · next hsigner =>
        refine .inr (fail_effect rfl he (.rejected hopen ?_) h)
        rw [hrole]
        exact ⟨joining, hjoining, hsigner⟩
      · cases h
        exact .inl rfl
  · next hrole =>
    simp only [bind_eq_ok, getOr_eq_ok] at h
    obtain ⟨trusted, htrusted, h⟩ := h
    split at h
    · next hsigner =>
      refine .inr (fail_effect rfl he (.rejected hopen ?_) h)
      rw [hrole]
      exact ⟨trusted, htrusted, hsigner⟩
    · cases h
      exact .inl rfl

theorem receiveLink_effect (he : s.exchange = some e)
    (h : s.receiveLink c env e packet = .ok s') :
    s' = s ∨ Effect c (.receive env packet) s s' := by
  simp only [receiveLink, bind_eq_ok] at h
  obtain ⟨⟨signer, message⟩, hopen, h⟩ := h
  rcases hrole : e.role with - | -
  · rw [hrole] at h
    cases message with
    | join device => exact join_effect he hrole hopen h
    | ready offerHash => exact .inr (ready_effect he hrole hopen h)
    | rejected => exact rejected_effect he hopen h
    | offer roster trusted joining => exact .inl (Except.ok.inj h).symm
    | approved roster => exact .inl (Except.ok.inj h).symm
    | ack rosterHash => exact .inl (Except.ok.inj h).symm
  · rw [hrole] at h
    cases message with
    | offer roster trusted joining => exact .inr (offer_effect he hrole hopen h)
    | approved roster => exact .inr (approved_effect he hrole hopen h)
    | rejected => exact rejected_effect he hopen h
    | join device => exact .inl (Except.ok.inj h).symm
    | ready offerHash => exact .inl (Except.ok.inj h).symm
    | ack rosterHash => exact .inl (Except.ok.inj h).symm

theorem rosterAck_effect {body : Bytes} {notice : RosterNotice} {sender : DeviceDescriptor}
    (hstrip : stripHead rosterNoticePrefix packet = some body)
    (hopen : RosterNotice.open c.toLinkCrypto s.record.device.mossPeerId body =
      .ok (notice, sender)) (hack : notice.ack = true)
    (h : s.rosterAck c env notice sender = .ok s') : Effect c (.receive env packet) s s' := by
  simp only [rosterAck, bind_eq_ok, check_eq_ok, decide_eq_true_eq, save_eq_ok] at h
  obtain ⟨received, hreceived, own, hown, ⟨⟩, rfl, bytes, hw, rfl⟩ := h
  exact .acked env packet body notice sender received bytes rfl hstrip hopen hack hreceived hown hw

theorem adoptNotice_effect {body : Bytes} {notice : RosterNotice} {sender : DeviceDescriptor}
    (hstrip : stripHead rosterNoticePrefix packet = some body)
    (hopen : RosterNotice.open c.toLinkCrypto s.record.device.mossPeerId body =
      .ok (notice, sender)) (hack : notice.ack = false)
    (h : s.adoptNotice c env notice sender = .ok s') :
    s' = s ∨ Effect c (.receive env packet) s s' := by
  simp only [adoptNotice, bind_eq_ok] at h
  obtain ⟨devices, -, ⟨⟩, -, received, -, own, -, h⟩ := h
  split at h
  · cases h
    exact .inl rfl
  · simp only [bind_eq_ok] at h
    obtain ⟨⟨identity, row⟩, hadopt, heq⟩ := h
    obtain ⟨hextends, record, bytes, hrecord, hw, rfl, rfl⟩ := adoptRoster_eq_ok.1 hadopt
    cases heq
    exact .inr (.adopted env packet body notice sender record bytes rfl hstrip hopen hack hextends
      hrecord hw)

theorem Effects.of_or (h : s' = s ∨ Effect c ev s s') : Effects c ev s s' := by
  rcases h with rfl | h
  · exact .refl
  · exact .single h

theorem outcome_effects {x : Except DeviceLinkError (Installation Seed)}
    (h : ∀ s', x = .ok s' → Effects c ev s s') : Effects c ev s (s.outcome x).1 := by
  unfold outcome
  split
  · exact .refl
  · exact h _ rfl

theorem receiveRoster_effects {body : Bytes}
    (hstrip : stripHead rosterNoticePrefix packet = some body) :
    Effects c (.receive env packet) s (s.receiveRoster c env body).1 := by
  rw [receiveRoster]
  split
  · exact .refl
  next notice sender hopen =>
    split
    · next hack =>
      exact outcome_effects fun s' h => .single (rosterAck_effect hstrip hopen hack h)
    · next hack =>
      split
      · exact .refl
      next s₁ hadopt =>
        have h₁ : Effects c (.receive env packet) s s₁ := .of_or
          (adoptNotice_effect hstrip hopen (Bool.not_eq_true _ ▸ hack) hadopt)
        split
        · exact h₁
        next s₂ hreconcile =>
          have h₂ : Effects c (.receive env packet) s₁ s₂ :=
            .of_or (reconcileRemoval_effect hreconcile)
          refine (h₁.trans h₂).trans (outcome_effects fun s' h => .single ?_)
          simp only [acknowledge, bind_eq_ok] at h
          obtain ⟨ack, -, heq⟩ := h
          cases heq
          exact quiet_sent _

theorem receive_effects : Effects c (.receive env packet) s (s.receive c env packet).1 := by
  rw [receive]
  split
  · exact .refl
  split
  · next body hstrip => exact receiveRoster_effects hstrip
  split
  · exact .refl
  · next s₁ h => exact .single (receiveDelivery_effect h)
  split
  · exact .refl
  · next s₁ h => exact .single (receiveReceipt_effect h)
  split
  · exact .refl
  next e he => exact outcome_effects fun s' h => .of_or (receiveLink_effect he h)

/-! ## Calls -/

theorem ensureIdle_eq_ok {u : Unit} :
    s.ensureIdle = .ok u ↔ s.exchange = none ∧ s.record.delivery = none := by
  simp [ensureIdle]

theorem receiveCertificate_effect {sender : DeviceDescriptor} {certificate : AccountCertificate}
    (h : s.receiveCertificate c env sender certificate = .ok s') :
    s' = s ∨ Effect c (.receiveCertificate env sender certificate) s s' := by
  simp only [receiveCertificate, bind_eq_ok, check_eq_ok, decide_eq_true_eq] at h
  obtain ⟨⟨⟩, hverify, ⟨⟩, ⟨hroot, hsubject, -⟩, own, -, h⟩ := h
  split at h
  · obtain ⟨bytes, hw, rfl⟩ := save_eq_ok.1 h
    exact .inr (.certified env sender certificate bytes rfl hverify hroot hsubject hw)
  · cases h
    exact .inl rfl

theorem beginLink_effect {now : Nat} {id secret : Bytes}
    (h : s.beginLink c now id secret = .ok s') : Effect c (.beginLink now id secret) s s' := by
  simp only [beginLink, bind_eq_ok, check_eq_ok, ensureIdle_eq_ok] at h
  obtain ⟨⟨⟩, ⟨he, hdelivery⟩, revoked, hrevoked, ⟨⟩, hnot, heq⟩ := h
  cases heq
  obtain rfl : revoked = false := by simpa using hnot
  exact .begun now id secret rfl he hdelivery hrevoked

theorem prepareJoin_effect {uri typed : String} {qr : PairingQr}
    (h : s.prepareJoin c env uri typed = .ok (qr, s')) :
    Effect c (.joinLink env uri typed) s s' ∧ s'.exchange = none ∧ s'.record.delivery = none ∧
      s'.record.pending = none ∧ PairingQr.parse c.toLinkCrypto uri env.now = .ok qr := by
  simp only [prepareJoin, bind_eq_ok, check_eq_ok, ensureIdle_eq_ok] at h
  obtain ⟨⟨⟩, ⟨he, hdelivery⟩, can, hcan, ⟨⟩, rfl, qr', hqr, ⟨⟩, -, s₁, hname, heq⟩ := h
  cases heq
  simp only [prepareJoinName, bind_eq_ok] at hname
  obtain ⟨revoked, hrevoked, name, -, hname⟩ := hname
  cases revoked with
  | true =>
    obtain ⟨bytes, hw, rfl⟩ := save_eq_ok.1 hname
    exact ⟨.prepared env uri typed bytes rfl he hdelivery hrevoked hw, he, hdelivery, rfl, hqr⟩
  | false =>
    simp only [Bool.false_eq_true, if_false, bind_eq_ok, save_eq_ok] at hname
    obtain ⟨roster, hgenesis, bytes, hw, rfl⟩ := hname
    exact ⟨.renamed env uri typed name roster bytes rfl he hdelivery hrevoked hcan hgenesis hw,
      he, hdelivery, rfl, hqr⟩

theorem joinLink_effects {uri typed : String} :
    Effects c (.joinLink env uri typed) s (s.joinLink c env uri typed).1 := by
  rw [joinLink]
  split
  · exact .refl
  next qr s₁ h =>
    obtain ⟨heffect, he, hdelivery, hpending, hqr⟩ := prepareJoin_effect h
    simp only
    split
    · exact .single heffect
    next packet _ =>
      exact .tail (.single heffect)
        (.asked env uri typed qr packet rfl he hdelivery hpending hqr)

theorem approve_effect {code : String} (h : s.approve c env code = .ok s') :
    Effect c (.approve env code) s s' := by
  simp only [approve, bind_eq_ok, check_eq_ok, getOr_eq_ok, decide_eq_true_eq, save_eq_ok] at h
  obtain ⟨e, he, ⟨⟩, ⟨hrole, -⟩, base, hbase, joining, hjoining, offerHash, hoffer, expected, hcode,
    ⟨⟩, rfl, own, hown, ⟨⟩, rfl, roster, hextend, sealed, hsealed, rosterHash, hhash, s₁,
    ⟨bytes, hw, rfl⟩, heq⟩ := h
  cases heq
  exact .granted env code e base joining offerHash rosterHash roster sealed bytes rfl he hrole hbase
    hjoining hoffer hcode hown hextend hsealed hhash hw

theorem revoke_effect {target : String} (h : s.revoke c env target = .ok s') :
    Effect c (.revoke env target) s s' := by
  simp only [revoke, bind_eq_ok, ensureIdle_eq_ok, save_eq_ok] at h
  obtain ⟨⟨⟩, ⟨he, hdelivery⟩, roster, hrevoke, devices, hdevices, bytes, hw, rfl⟩ := h
  exact .removed env target roster devices bytes rfl he hdelivery hrevoke hdevices hw

theorem restart_effects {seed : Seed}
    (h : start c env s.peer s.row s.tables seed s.sent s.signed = .ok s') :
    Effects c (.restart env seed) s s' := by
  simp only [start, bind_eq_ok] at h
  obtain ⟨identity, hopen, resumed, hresumed, h⟩ := h
  refine .trans (.single (.restarted env seed identity resumed rfl hopen hresumed)) ?_
  exact Effects.of_or <| expire_effect rfl (fun e he => .expiredAtStart he) (fun e he => .ineligibleAtStart he) h

theorem adoptOwnRemoval_effect {roster : DeviceRoster}
    (h : s.adoptOwnRemoval c env roster = .ok s') :
    s' = s ∨ Effect c (.otherAdopt env roster) s s' := by
  simp only [adoptOwnRemoval, bind_eq_ok, getOr_eq_ok] at h
  obtain ⟨identity, hother, h⟩ := h
  split at h
  · cases h
    exact .inl rfl
  · simp only [bind_eq_ok] at h
    obtain ⟨known, -, h⟩ := h
    split at h
    · cases h
      exact .inl rfl
    · simp only [bind_eq_ok] at h
      obtain ⟨⟨identity', row⟩, hadopt, heq⟩ := h
      obtain ⟨hextends, record, bytes, hrecord, hw, rfl, rfl⟩ := adoptRoster_eq_ok.1 hadopt
      cases heq
      exact .inr (.otherAdopted env roster identity record bytes rfl hother hextends hrecord hw)

/-- Every event is a sequence of changes. -/
theorem step_effects (s : Installation Seed) (ev : Event Seed) : Effects c ev s (s.step c ev) := by
  cases ev with
  | reload seed => exact outcome_effects fun s' h => .single (reload_effect h)
  | reconcileRemoval => exact outcome_effects fun s' h => .of_or (reconcileRemoval_effect h)
  | expire env =>
    exact outcome_effects fun s' h =>
      .of_or (expire_effect rfl (fun e he => .expired he) (fun e he => .ineligible he) h)
  | receive env packet => exact receive_effects
  | receiveCertificate env sender certificate =>
    exact outcome_effects fun s' h => .of_or (receiveCertificate_effect h)
  | retryExchange out late => exact .single (retryExchange_effect out late)
  | retryDelivery out late => exact .single (retryDelivery_effect out late)
  | retryRoster => exact .single retryRoster_effect
  | beginLink now id secret => exact outcome_effects fun s' h => .single (beginLink_effect h)
  | joinLink env uri typed => exact joinLink_effects
  | approve env code => exact outcome_effects fun s' h => .single (approve_effect h)
  | cancel env => exact outcome_effects fun s' h => .single (cancel_effect h)
  | revoke env target => exact outcome_effects fun s' h => .single (revoke_effect h)
  | restart env seed => exact outcome_effects fun s' h => restart_effects h
  | otherOpen seed =>
    refine .single (.otherRead seed _ rfl fun identity hidentity => ⟨seed, ?_⟩)
    cases hopen : DeviceIdentity.open c s.row s.peer seed with
    | error e =>
      rw [hopen] at hidentity
      cases hidentity
    | ok identity' =>
      rw [hopen] at hidentity
      cases hidentity
      rfl
  | otherAdopt env roster => exact outcome_effects fun s' h => .of_or (adoptOwnRemoval_effect h)
  | tables tables => exact .single (.tabled tables rfl)

/-! ## One write at most -/

theorem row_reconcileRemoval (h : s.reconcileRemoval c = .ok s') : s'.row = s.row := by
  simp only [reconcileRemoval, bind_eq_ok] at h
  obtain ⟨revoked, -, h⟩ := h
  split at h <;> cases h <;> rfl

variable (c ev) in
/-- The row is written by at most one change. -/
def Writes (s s' : Installation Seed) : Prop :=
  ∃ t, (t = s ∨ Effect c ev s t) ∧ s'.row = t.row

theorem Writes.refl (s : Installation Seed) : Writes c ev s s := ⟨s, .inl rfl, rfl⟩

theorem Writes.single (h : Effect c ev s s') : Writes c ev s s' := ⟨s', .inr h, rfl⟩

theorem Writes.outcome {x : Except DeviceLinkError (Installation Seed)}
    (h : ∀ s', x = .ok s' → s' = s ∨ Effect c ev s s') : Writes c ev s (s.outcome x).1 := by
  unfold Installation.outcome
  split
  · exact .refl s
  next s₁ => exact ⟨s₁, h s₁ rfl, rfl⟩

theorem receiveRoster_writes {body : Bytes}
    (hstrip : stripHead rosterNoticePrefix packet = some body) :
    Writes c (.receive env packet) s (s.receiveRoster c env body).1 := by
  rw [receiveRoster]
  split
  · exact .refl s
  next notice sender hopen =>
    split
    · next hack => exact .outcome fun s' h => .inr (rosterAck_effect hstrip hopen hack h)
    · next hack =>
      split
      · exact .refl s
      next s₁ hadopt =>
        refine ⟨s₁, adoptNotice_effect hstrip hopen (Bool.not_eq_true _ ▸ hack) hadopt, ?_⟩
        split
        · rfl
        next s₂ hreconcile =>
          have hrow : s₂.row = s₁.row := row_reconcileRemoval hreconcile
          unfold Installation.outcome
          split
          · exact hrow
          next s₃ hacknowledge =>
            simp only [acknowledge, bind_eq_ok] at hacknowledge
            obtain ⟨ack, -, heq⟩ := hacknowledge
            cases heq
            exact hrow

theorem receive_writes : Writes c (.receive env packet) s (s.receive c env packet).1 := by
  rw [receive]
  split
  · exact .refl s
  split
  · next body hstrip => exact receiveRoster_writes hstrip
  split
  · exact .refl s
  · next s₁ h => exact .single (receiveDelivery_effect h)
  split
  · exact .refl s
  · next s₁ h => exact .single (receiveReceipt_effect h)
  split
  · exact .refl s
  next e he => exact .outcome fun s' h => receiveLink_effect he h

theorem joinLink_writes {uri typed : String} :
    Writes c (.joinLink env uri typed) s (s.joinLink c env uri typed).1 := by
  rw [joinLink]
  split
  · exact .refl s
  next qr s₁ h =>
    refine ⟨s₁, .inr (prepareJoin_effect h).1, ?_⟩
    simp only
    split <;> rfl

/-- Every event but a start of the process writes the row at most once. -/
theorem step_writes (hev : ∀ env seed, ev ≠ .restart env seed) : Writes c ev s (s.step c ev) := by
  cases ev with
  | reload seed => exact .outcome fun s' h => .inr (reload_effect h)
  | reconcileRemoval => exact .outcome fun s' h => reconcileRemoval_effect h
  | expire env =>
    exact .outcome fun s' h =>
      expire_effect rfl (fun e he => .expired he) (fun e he => .ineligible he) h
  | receive env packet => exact receive_writes
  | receiveCertificate env sender certificate =>
    exact .outcome fun s' h => receiveCertificate_effect h
  | retryExchange out late => exact .single (retryExchange_effect out late)
  | retryDelivery out late => exact .single (retryDelivery_effect out late)
  | retryRoster => exact .single retryRoster_effect
  | beginLink now id secret => exact .outcome fun s' h => .inr (beginLink_effect h)
  | joinLink env uri typed => exact joinLink_writes
  | approve env code => exact .outcome fun s' h => .inr (approve_effect h)
  | cancel env => exact .outcome fun s' h => .inr (cancel_effect h)
  | revoke env target => exact .outcome fun s' h => .inr (revoke_effect h)
  | restart env seed => exact absurd rfl (hev env seed)
  | otherOpen seed => exact ⟨s, .inl rfl, rfl⟩
  | otherAdopt env roster => exact .outcome fun s' h => adoptOwnRemoval_effect h
  | tables tables => exact .single (.tabled tables rfl)

/-- What every change keeps, every event keeps. -/
theorem Effects.invariant {P : Installation Seed → Prop}
    (hP : ∀ s s', Effect c ev s s' → P s → P s') (h : Effects c ev s s') (hs : P s) : P s' := by
  induction h with
  | refl => exact hs
  | tail _ heffect ih => exact hP _ _ heffect ih

end Installation

end Mosh.DeviceLink
