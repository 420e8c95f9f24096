import Mosh.DeviceLink.Reopen

/-!
# Who is told of a removal

A removal is spread by notices. The devices that are to be told stand in the stored record
until they acknowledge the roster. A removal writes the list anew, with the devices that were
active before it, so that a device that was removed earlier and was not reached yet is not
told any more.

* `Told`: what a change does to the list;
* `Telling`: a step after which the list still has everyone who was to be told;
* `removal_told`: while all steps are such, a device stays in the list until it acknowledges a
  roster with the removal;
* `second_removal_forgets`: after another removal a device is not in the list any more.
-/

namespace Mosh.DeviceLink

open Checked
open Run (Runs)

variable {Key Signature Seed : Type}

/-! ## The devices of a roster -/

section

variable {r : RosterCrypto Key Signature} {entries : List Authorization}
  {devices : List DeviceDescriptor}

theorem validate_of_verifyEntry {index : Nat} {entry : Authorization}
    {devices' : List DeviceDescriptor}
    (h : verifyEntry r entries index entry devices = .ok devices') :
    entry.device.validate r = .ok () := by
  rw [verifyEntry] at h
  split at h
  · cases h
  · next hvalid => exact hvalid

/-- The devices of all entries of an accepted roster are well formed. -/
theorem validate_of_entry (h : verifyDevices r entries = .ok devices) :
    ∀ entry ∈ entries, entry.device.validate r = .ok () := by
  induction entries using List.reverseRecOn generalizing devices with
  | nil => nofun
  | append_singleton pre last ih =>
    intro entry hmem
    by_cases hpre : pre = []
    · subst hpre
      rw [List.nil_append, List.mem_singleton] at hmem
      subst hmem
      rw [verifyDevices, List.nil_append, if_neg (by simp), verifyLoop] at h
      split at h
      · cases h
      next hentry => exact validate_of_verifyEntry hentry
    · obtain ⟨before, hbefore, hentry⟩ := verifyDevices_concat hpre h
      rcases List.mem_append.1 hmem with hmem | hmem
      · exact ih hbefore entry hmem
      · rw [List.mem_singleton.1 hmem]
        exact validate_of_verifyEntry hentry

/-- An active device is that of an entry. -/
theorem mem_activeDevices {d : DeviceDescriptor} (h : d ∈ activeDevices entries) :
    ∃ entry ∈ entries, entry.device = d := by
  induction entries using List.reverseRecOn with
  | nil => cases h
  | append_singleton pre last ih =>
    rw [activeDevices, List.foldl_append, ← activeDevices, List.foldl_cons, List.foldl_nil,
      change] at h
    have hpre : d ∈ activeDevices pre → ∃ entry ∈ pre ++ [last], entry.device = d := fun h => by
      obtain ⟨entry, hmem, heq⟩ := ih h
      exact ⟨entry, List.mem_append_left _ hmem, heq⟩
    split at h
    · exact hpre (List.mem_filter.1 h).1
    · rcases List.mem_append.1 h with h | h
      · exact hpre h
      · exact ⟨last, List.mem_append_right _ (List.mem_singleton_self _),
          (List.mem_singleton.1 h).symm⟩

theorem validate_of_mem {d : DeviceDescriptor} (h : verifyDevices r entries = .ok devices)
    (hd : d ∈ devices) : d.validate r = .ok () := by
  rw [(verifyDevices_sound entries devices h).active] at hd
  obtain ⟨entry, hmem, rfl⟩ := mem_activeDevices hd
  exact validate_of_entry h entry hmem

theorem validate_of_known {roster : DeviceRoster} {id : String} {d : DeviceDescriptor}
    (h : roster.knownDevice r id = .ok (some d)) : d.deviceId = id ∧ d.validate r = .ok () := by
  simp only [DeviceRoster.knownDevice, bind_eq_ok] at h
  obtain ⟨devices, hdevices, h⟩ := h
  obtain ⟨entry, hfind, rfl⟩ := Option.map_eq_some_iff.1 (Except.ok.inj h)
  have hid := List.find?_some hfind
  have hmem := List.mem_reverse.1 (List.mem_of_find?_eq_some hfind)
  exact ⟨by simpa using hid, validate_of_entry hdevices entry hmem⟩

/-- The id of a well-formed device is that of its key. -/
theorem key_of_validate {d : DeviceDescriptor} (h : d.validate r = .ok ()) :
    ∃ key, publicKey r d.signingPublicKey = .ok key ∧ d.deviceId = deviceId r key := by
  rw [DeviceDescriptor.validate] at h
  split at h
  · cases h
  · next key hkey =>
    refine ⟨key, hkey, ?_⟩
    by_contra hne
    rw [if_pos (by simp [hne])] at h
    cases h

end

namespace Installation

variable {c : IdentityCrypto Key Signature Seed} {s s' : Installation Seed} {ev : Event Seed}
  {peer : String} {record record' : LocalIdentity Seed} {bytes : Bytes} {d : DeviceDescriptor}
  {base : DeviceRoster}

/-! ## What is done to the list -/

variable (c) in
/-- The packet is an acknowledgement by the device, of the roster that the installation has and that
    extends the base. -/
structure Acknowledges (s : Installation Seed) (packet : Bytes) (d : DeviceDescriptor)
    (base : DeviceRoster) : Prop where
  notice : ∃ body notice sender, stripHead rosterNoticePrefix packet = some body ∧
    RosterNotice.open c.toLinkCrypto s.record.device.mossPeerId body = .ok (notice, sender) ∧
    notice.ack = true ∧ notice.roster = s.record.roster ∧ base <+: notice.roster ∧
    verifyText c.toLinkCrypto d.signingPublicKey (notice.bytes c.toLinkCrypto) notice.signature =
      .ok ()

variable (c) in
/-- What an event does to those who are to be told. -/
inductive Told (ev : Event Seed) (s : Installation Seed) (record record' : LocalIdentity Seed) : Prop
  | kept (hlist : record'.rosterDelivery = record.rosterDelivery)
      (hroster : record.roster <+: record'.roster)
  /-- The installation goes over to another account, or gets ready for it. -/
  | left (hlist : record'.rosterDelivery = record.rosterDelivery)
      (hwhy : (∃ env uri typed, ev = .joinLink env uri typed) ∨
        (∃ env packet, ev = .receive env packet) ∧ ∃ e ∈ s.exchange, e.role = .joining)
  | cleared (hrevoked : record'.revoked c = .ok true) (hlist : record'.rosterDelivery = [])
  | acked (env : Env) (packet body : Bytes) (notice : RosterNotice) (sender : DeviceDescriptor)
      (hev : ev = .receive env packet) (hstrip : stripHead rosterNoticePrefix packet = some body)
      (hopen : RosterNotice.open c.toLinkCrypto s.record.device.mossPeerId body =
        .ok (notice, sender))
      (hack : notice.ack = true) (hrecord : s.record = record)
      (hroster : notice.roster = record.roster) (hsame : record'.roster = record.roster)
      (hlist : record'.rosterDelivery =
        record.rosterDelivery.filter (·.deviceId ≠ sender.deviceId))
  | removed (env : Env) (target : String) (devices : List DeviceDescriptor)
      (hev : ev = .revoke env target) (hdevices : record.roster.devices c.toRosterCrypto = .ok devices)
      (hroster : record.roster <+: record'.roster)
      (hlist : record'.rosterDelivery = devices.filter (·.deviceId ≠ record.device.deviceId))

theorem Told.of_row (h : s'.row = s.row) :
    ∀ record ∈ s.storedRecord c, ∀ record' ∈ s'.storedRecord c, Told c ev s record record' := by
  intro record hrecord record' hrecord'
  rw [storedRecord, h, ← storedRecord] at hrecord'
  obtain rfl := Option.some.inj (hrecord.symm.trans hrecord')
  exact .kept rfl List.prefix_rfl

/-- The record that is written over is the one in memory. -/
theorem Kept.stored_of_writable (h : Kept c peer s) {refused : Bool}
    (hw : Writable c refused s.identity s.row record bytes) : s.storedRecord c = some s.record :=
  storedRecord_eq_some.2 ⟨_, hw.row, h.identity⟩

theorem stored_of_written (hc : Readable c) {refused : Bool} {identity : DeviceIdentity Seed}
    (hw : Writable c refused identity s.row record bytes) (hrow : s'.row = some bytes) :
    s'.storedRecord c = some record :=
  storedRecord_eq_some.2 ⟨_, hrow, hc record bytes hw.bytes⟩

theorem stored_saved (hc : Readable c) {refused : Bool} {identity : DeviceIdentity Seed}
    (hw : Writable c refused identity s.row record bytes) :
    (s.saved record bytes).storedRecord c = some record :=
  stored_of_written hc hw rfl

/-- What a write over the record in memory does. -/
theorem Kept.told_saved (h : Kept c peer s) (hc : Readable c) {refused : Bool}
    (hw : Writable c refused s.identity s.row record bytes) (hrow : s'.row = some bytes)
    (htold : Told c ev s s.record record) :
    ∀ stored ∈ s.storedRecord c, ∀ stored' ∈ s'.storedRecord c, Told c ev s stored stored' := by
  intro stored hstored stored' hstored'
  obtain rfl := Option.some.inj ((h.stored_of_writable hw).symm.trans hstored)
  obtain rfl := Option.some.inj ((stored_of_written hc hw hrow).symm.trans hstored')
  exact htold

theorem Told.withRoster {roster : DeviceRoster}
    (hextends : roster.extends c.toRosterCrypto record.roster = .ok true)
    (h : record.withRoster c roster = .ok record') : Told c ev s record record' := by
  obtain ⟨devices, hdevices, ⟨-, rfl⟩ | ⟨hmem, rfl⟩⟩ := withRoster_eq_ok.1 h
  · exact .kept rfl (DeviceRoster.extends_eq_true.1 hextends).2
  · exact .cleared (revoked_eq_ok.2 ⟨devices, hdevices, (decide_eq_true hmem).symm⟩) rfl

/-- What a change does to those who are to be told. -/
theorem Kept.told (hc : Readable c) (hd : Collisionless c) (heffect : Effect c ev s s')
    (h : Kept c peer s) :
    ∀ record ∈ s.storedRecord c, ∀ record' ∈ s'.storedRecord c, Told c ev s record record' := by
  cases heffect with
  | quiet => exact .of_row rfl
  | tabled => exact .of_row rfl
  | otherRead => exact .of_row rfl
  | otherAdopted env roster identity record bytes hev hother hextends hrecord hw =>
    intro stored hstored record' hrecord'
    obtain rfl : identity.record = stored := by
      obtain ⟨b, hb, hparse⟩ := storedRecord_eq_some.1 hstored
      obtain rfl := Option.some.inj (hw.row.symm.trans hb)
      exact Option.some.inj ((h.other identity hother).symm.trans hparse)
    obtain rfl : record = record' :=
      Option.some.inj ((hc record bytes hw.bytes).symm.trans hrecord')
    exact .withRoster hextends hrecord
  | reloaded seed identity hev hopen =>
    rw [h.valid.peer] at hopen
    exact .of_row (h.reopen hopen).1.symm
  | dropped => exact .of_row rfl
  | failed e kind now bytes signed sent he hwhy hsigned hw =>
    exact h.told_saved hc hw rfl (.kept rfl List.prefix_rfl)
  | cancelled => exact .of_row rfl
  | delivered env packet d bytes hev hd hopen hw =>
    exact h.told_saved hc hw rfl (.kept rfl List.prefix_rfl)
  | froze => exact .of_row rfl
  | offered env packet e signer roster trusted joining offerHash sealed identity row hev he hrole
      hopen hcheck hremoval hhash hsealed hsave =>
    rcases hsave with ⟨-, rfl, rfl⟩ | ⟨-, bytes, rfl, rfl, hw⟩
    · exact .of_row rfl
    · exact h.told_saved hc hw rfl (.kept rfl List.prefix_rfl)
  | readied => exact .of_row rfl
  | joined env packet e roster trusted joining base hash adopted canJoin sealed bytes sent hev he
      hrole hopen htrusted hbase hjoining hadds hhash hadopted hremoval hcan hor hsealed hw =>
    exact h.told_saved hc hw rfl (.left rfl (.inr ⟨⟨env, packet, hev⟩, e, he, hrole⟩))
  | acked env packet body notice sender hash bytes hev hstrip hopen hack hreceived hown hw =>
    exact h.told_saved hc hw rfl (.acked env packet body notice sender hev hstrip hopen hack rfl
      (hd _ _ hash hreceived hown) rfl rfl)
  | adopted env packet body notice sender record bytes hev hstrip hopen hack hextends hrecord hw =>
    exact h.told_saved hc hw rfl (.withRoster hextends hrecord)
  | certified env sender certificate bytes hev hverify hroot hsubject hw =>
    exact h.told_saved hc hw rfl (.kept rfl List.prefix_rfl)
  | begun => exact .of_row rfl
  | prepared env uri typed bytes hev he hdelivery hrevoked hw =>
    exact h.told_saved hc hw rfl (.kept rfl List.prefix_rfl)
  | renamed env uri typed name roster bytes hev he hdelivery hrevoked hcan hgenesis hw =>
    exact h.told_saved hc hw rfl (.left rfl (.inl ⟨env, uri, typed, hev⟩))
  | asked => exact .of_row rfl
  | granted env code e base joining offerHash rosterHash roster sealed bytes hev he hrole hbase
      hjoining hoffer hcode hown hextend hsealed hhash hw =>
    obtain ⟨parent, entry, -, -, rfl, -⟩ := extend_eq_ok hextend
    refine h.told_saved hc hw rfl (.kept rfl ?_)
    rw [hd s.record.roster base offerHash hown hoffer]
    exact List.prefix_append base [entry]
  | removed env target roster devices bytes hev he hdelivery hrevoke hdevices hw =>
    obtain ⟨-, -, -, entry, -, -, -, -, rfl, -⟩ := revoke_eq_ok hrevoke
    exact h.told_saved hc hw rfl
      (.removed env target devices hev hdevices (List.prefix_append _ _) rfl)
  | restarted env seed identity resumed hev hopen hresumed =>
    rw [h.own] at hopen
    exact .of_row (h.reopen hopen).1.symm

/-- What an event does to those who are to be told. -/
theorem Kept.told_step (hc : Readable c) (hd : Collisionless c) (h : Kept c peer s)
    (ev : Event Seed) : ∀ record ∈ s.storedRecord c, ∀ record' ∈ (s.step c ev).storedRecord c,
      Told c ev s record record' := by
  by_cases hev : ∃ env seed, ev = .restart env seed
  · obtain ⟨env, seed, rfl⟩ := hev
    change ∀ record ∈ s.storedRecord c, ∀ record' ∈ (s.outcome _).1.storedRecord c, _
    unfold outcome
    split
    · exact .of_row rfl
    next s₁ hstart =>
      rw [h.own] at hstart
      obtain ⟨t, ht, -, hrow, hcase⟩ := start_cases hstart
      obtain ⟨bytes, -, hbytes, -⟩ := h.row
      have hsame : t.row = s.row := (hrow bytes hbytes).trans hbytes.symm
      rcases hcase with rfl | heffect
      · exact .of_row hsame
      · intro record hrecord record' hrecord'
        rw [storedRecord, ← hsame, ← storedRecord] at hrecord
        -- nothing but the end of an exchange is written at the start
        cases ht.told hc hd heffect record hrecord record' hrecord' with
        | kept hlist hroster => exact .kept hlist hroster
        | left _ hwhy =>
          rcases hwhy with ⟨_, _, _, h⟩ | ⟨⟨_, _, h⟩, -⟩ <;> cases h
        | cleared hrevoked hlist => exact .cleared hrevoked hlist
        | acked _ _ _ _ _ h => cases h
        | removed _ _ _ h => cases h
  · obtain ⟨t, ht, hrow⟩ := step_writes (s := s) (c := c) fun env seed heq => hev ⟨env, seed, heq⟩
    intro record hrecord record' hrecord'
    rw [storedRecord, hrow, ← storedRecord] at hrecord'
    rcases ht with rfl | heffect
    · exact Told.of_row rfl record hrecord record' hrecord'
    · exact h.told hc hd heffect record hrecord record' hrecord'

/-! ## Nobody is to be told during a join -/

def Joins (s : Installation Seed) : Prop := ∃ e ∈ s.exchange, e.role = .joining

variable (c) in
/-- The installation itself is not to be told, and nobody is while it joins an account. -/
structure Lists (s : Installation Seed) : Prop where
  others : ∀ record ∈ s.storedRecord c, ∀ d ∈ record.rosterDelivery,
    d.deviceId ≠ record.device.deviceId
  joins : ∀ record ∈ s.storedRecord c, record.pending.isSome ∨ s.Joins →
    record.rosterDelivery = []

theorem Lists.of_row (h : Lists c s) (hrow : s'.row = s.row)
    (hjoins : s'.Joins → ∀ record ∈ s.storedRecord c, record.rosterDelivery = []) :
    Lists c s' := by
  have hsame : s'.storedRecord c = s.storedRecord c := by rw [storedRecord, hrow, storedRecord]
  refine ⟨hsame ▸ h.others, fun record hrecord hor => ?_⟩
  rw [hsame] at hrecord
  rcases hor with hpending | hnow
  · exact h.joins record hrecord (.inl hpending)
  · exact hjoins hnow record hrecord

/-- A record that keeps the list, or clears it, is written over the stored one. -/
theorem Lists.written (h : Lists c s) (hrecord : s.storedRecord c = some record)
    (hrecord' : s'.storedRecord c = some record')
    (hdevice : record'.device.deviceId = record.device.deviceId)
    (hlist : ∀ d ∈ record'.rosterDelivery, d ∈ record.rosterDelivery)
    (hjoins : record'.pending.isSome ∨ s'.Joins → record.pending.isSome ∨ s.Joins) :
    Lists c s' := by
  refine ⟨fun stored hstored d hd => ?_, fun stored hstored hor => ?_⟩
  · obtain rfl := Option.some.inj (hrecord'.symm.trans hstored)
    rw [hdevice]
    exact h.others record hrecord d (hlist d hd)
  · obtain rfl := Option.some.inj (hrecord'.symm.trans hstored)
    have hnil := h.joins record hrecord (hjoins hor)
    rw [List.eq_nil_iff_forall_not_mem]
    intro d hd
    exact List.not_mem_nil (hnil ▸ hlist d hd)

theorem not_joins_none (h : s.exchange = none) : ¬ s.Joins := by
  rintro ⟨e, he, -⟩
  rw [h] at he
  cases he

theorem not_joins_authorizing (h : s.exchange = some e') (hrole : e'.role = .authorizing) :
    ¬ s.Joins := by
  rintro ⟨e, he, hjoining⟩
  obtain rfl := Option.some.inj (h.symm.trans he)
  rw [hrole] at hjoining
  cases hjoining

/-- Going on to another roster gives up at most what was pending. -/
theorem withRoster_fields {roster : DeviceRoster} (h : record.withRoster c roster = .ok record') :
    record'.device = record.device ∧ (∀ d ∈ record'.rosterDelivery, d ∈ record.rosterDelivery) ∧
      (record'.pending.isSome → record.pending.isSome) := by
  obtain ⟨devices, -, ⟨-, rfl⟩ | ⟨-, rfl⟩⟩ := withRoster_eq_ok.1 h
  · exact ⟨rfl, fun _ hd => hd, id⟩
  · exact ⟨rfl, nofun, nofun⟩

theorem Lists.effect (hc : Readable c) (hk : Kept c peer s) (heffect : Effect c ev s s')
    (hjoin : (∃ env uri typed, ev = .joinLink env uri typed) →
      ∀ record ∈ s.storedRecord c, record.rosterDelivery = []) (h : Lists c s) : Lists c s' := by
  have hwritten : ∀ {record : LocalIdentity Seed} {bytes : Bytes} {t : Installation Seed},
      Writable c ev.refuses s.identity s.row record bytes → t.row = some bytes →
      record.device.deviceId = s.record.device.deviceId →
      (∀ d ∈ record.rosterDelivery, d ∈ s.record.rosterDelivery) →
      (record.pending.isSome ∨ t.Joins → s.record.pending.isSome ∨ s.Joins) → Lists c t :=
    fun hw hrow => h.written (hk.stored_of_writable hw) (stored_of_written hc hw hrow)
  cases heffect with
  | quiet => exact h.of_row rfl fun hj record hrecord => h.joins record hrecord (.inr hj)
  | tabled => exact h.of_row rfl fun hj record hrecord => h.joins record hrecord (.inr hj)
  | otherRead => exact h.of_row rfl fun hj record hrecord => h.joins record hrecord (.inr hj)
  | otherAdopted env roster identity record bytes hev hother hextends hrecord hw =>
    obtain ⟨hdevice, hlist, hpending⟩ := withRoster_fields hrecord
    have hstored : s.storedRecord c = some identity.record :=
      storedRecord_eq_some.2 ⟨_, hw.row, hk.other identity hother⟩
    exact h.written hstored (stored_of_written hc hw rfl) (by rw [hdevice]) hlist
      (Or.imp_left hpending)
  | reloaded seed identity hev hopen =>
    rw [hk.valid.peer] at hopen
    exact h.of_row (hk.reopen hopen).1.symm fun hj record hrecord =>
      h.joins record hrecord (.inr hj)
  | dropped => exact h.of_row rfl fun hj => absurd hj (not_joins_none rfl)
  | failed e kind now bytes signed sent he hwhy hsigned hw =>
    refine hwritten hw rfl rfl (fun _ hd => hd) fun hor => ?_
    rcases hor with hpending | hj
    · cases hpending
    · exact absurd hj (not_joins_none rfl)
  | cancelled => exact h.of_row rfl fun hj => absurd hj (not_joins_none rfl)
  | delivered env packet d bytes hev hd hopen hw =>
    exact hwritten hw rfl rfl (fun _ hd => hd) id
  | froze env packet e device devices sealed hev he hrole =>
    exact h.of_row rfl fun hj => absurd hj (not_joins_authorizing rfl hrole)
  | offered env packet e signer roster trusted joining offerHash sealed identity row hev he hrole
      hopen hcheck hremoval hhash hsealed hsave =>
    have hj : s.Joins := ⟨e, he, hrole⟩
    rcases hsave with ⟨-, rfl, rfl⟩ | ⟨-, bytes, rfl, rfl, hw⟩
    · exact h.of_row rfl fun _ record hrecord => h.joins record hrecord (.inr hj)
    · exact hwritten hw rfl rfl (fun _ hd => hd) fun _ => .inr hj
  | readied => exact h.of_row rfl fun hj record hrecord => h.joins record hrecord (.inr hj)
  | joined env packet e roster trusted joining base hash adopted canJoin sealed bytes sent hev he
      hrole hopen htrusted hbase hjoining hadds hhash hadopted hremoval hcan hor hsealed hw =>
    exact hwritten hw rfl rfl (fun _ hd => hd) fun _ => .inr ⟨e, he, hrole⟩
  | acked env packet body notice sender hash bytes hev hstrip hopen hack hreceived hown hw =>
    exact hwritten hw rfl rfl (fun _ hd => (List.mem_filter.1 hd).1) id
  | adopted env packet body notice sender record bytes hev hstrip hopen hack hextends hrecord hw =>
    obtain ⟨hdevice, hlist, hpending⟩ := withRoster_fields hrecord
    exact hwritten hw rfl (by rw [hdevice]) hlist (Or.imp_left hpending)
  | certified env sender certificate bytes hev hverify hroot hsubject hw =>
    exact hwritten hw rfl rfl (fun _ hd => hd) id
  | begun => exact h.of_row rfl fun hj => absurd hj (not_joins_authorizing rfl rfl)
  | prepared env uri typed bytes hev he hdelivery hrevoked hw =>
    refine hwritten hw rfl rfl (fun _ hd => hd) (Or.imp_left fun hpending => ?_)
    cases hpending
  | renamed env uri typed name roster bytes hev he hdelivery hrevoked hcan hgenesis hw =>
    refine hwritten hw rfl rfl (fun _ hd => hd) (Or.imp_left fun hpending => ?_)
    cases hpending
  | asked env uri typed qr sealed hev => exact h.of_row rfl fun _ => hjoin ⟨env, uri, typed, hev⟩
  | granted env code e base joining offerHash rosterHash roster sealed bytes hev he hrole hbase
      hjoining hoffer hcode hown hextend hsealed hhash hw =>
    exact hwritten hw rfl rfl (fun _ hd => hd)
      (Or.imp_right fun hj => absurd hj (not_joins_none rfl))
  | removed env target roster devices bytes hev he hdelivery hrevoke hdevices hw =>
    have hlink := hk.link
    rw [he] at hlink
    refine ⟨fun stored hstored d hd => ?_, fun stored hstored hor => ?_⟩
    · obtain rfl := Option.some.inj ((stored_of_written hc hw rfl).symm.trans hstored)
      exact of_decide_eq_true (List.mem_filter.1 hd).2
    · obtain rfl := Option.some.inj ((stored_of_written hc hw rfl).symm.trans hstored)
      rcases hor with hpending | hj
      · change s.record.pending.isSome at hpending
        rw [hlink.pending_eq_none] at hpending
        cases hpending
      · exact absurd hj (not_joins_none he)
  | restarted env seed identity resumed hev hopen hresumed =>
    rw [hk.own] at hopen
    obtain ⟨hrow, hread, -⟩ := hk.reopen hopen
    refine h.of_row hrow.symm fun hj record hrecord => ?_
    obtain rfl := Option.some.inj
      ((storedRecord_eq_some.2 ⟨_, hrow, hread⟩).symm.trans hrecord)
    obtain ⟨-, rfl⟩ | ⟨p, e, message, hpending, -, -⟩ := resumed_cases hresumed
    · exact absurd hj (not_joins_none rfl)
    · exact h.joins identity.record hrecord (.inl (by rw [hpending]; rfl))

/-- Nobody is to be told when the installation starts to join. -/
def JoinsFree (c : IdentityCrypto Key Signature Seed) (s : Installation Seed) (ev : Event Seed) :
    Prop :=
  (∃ env uri typed, ev = .joinLink env uri typed) →
    ∀ record ∈ s.storedRecord c, record.rosterDelivery = []

theorem JoinsFree.effect (hc : Readable c) (hd : Collisionless c) (hk : Kept c peer s)
    (heffect : Effect c ev s s') (h : JoinsFree c s ev) : JoinsFree c s' ev := by
  rintro ⟨env, uri, typed, rfl⟩ record' hrecord'
  obtain ⟨bytes, record, hrow, hrecord, -⟩ := hk.row
  have hstored : s.storedRecord c = some record := storedRecord_eq_some.2 ⟨bytes, hrow, hrecord⟩
  have hnil := h ⟨env, uri, typed, rfl⟩ record hstored
  cases hk.told hc hd heffect record hstored record' hrecord' with
  | kept hlist => rw [hlist, hnil]
  | left hlist => rw [hlist, hnil]
  | cleared _ hlist => exact hlist
  | acked _ _ _ _ _ hev => cases hev
  | removed _ _ _ hev => cases hev

theorem Lists.step (hc : Readable c) (hd : Collisionless c) (hk : Kept c peer s) (h : Lists c s)
    (hjoin : JoinsFree c s ev) : Lists c (Installation.step c s ev) := by
  refine ((step_effects s ev).invariant (P := fun t => Kept c peer t ∧ Lists c t ∧ JoinsFree c t ev)
    (fun t t' heffect ht => ?_) ⟨hk, h, hjoin⟩).2.1
  obtain ⟨hkt, hlt, hjt⟩ := ht
  exact ⟨hkt.effect hc heffect, hlt.effect hc hkt heffect hjt, hjt.effect hc hd hkt heffect⟩

/-- At the first start nothing is pending, and nobody is to be told. -/
theorem start_none (hc : Readable c) {env : Env} {tables : Tables} {seed : Seed}
    (hstart : start c env peer none tables seed [] [] = .ok s) :
    s.storedRecord c = some s.record ∧ s.record.rosterDelivery = [] ∧ s.record.pending = none ∧
      s.exchange = none := by
  simp only [start, DeviceIdentity.open, DeviceIdentity.readOrInitialize, bind_eq_ok,
    getOr_eq_ok] at hstart
  obtain ⟨identity, ⟨persisted, ⟨candidate, hcandidate, hjson⟩, record, hrecord, ⟨⟩, -, heq⟩,
    resumed, hresumed, hexpire⟩ := hstart
  cases heq
  obtain rfl := Option.some.inj ((hc candidate persisted hjson).symm.trans hrecord)
  simp only [DeviceIdentity.initial, bind_eq_ok] at hcandidate
  obtain ⟨roster, -, heq⟩ := hcandidate
  cases heq
  cases hresumed
  cases hexpire
  exact ⟨storedRecord_eq_some.2 ⟨persisted, rfl, hrecord⟩, rfl, rfl, rfl⟩

theorem lists_start {env : Env} {tables : Tables} {seed : Seed}
    (hc : Readable c) (hstart : start c env peer none tables seed [] [] = .ok s) : Lists c s := by
  obtain ⟨hstored, hlist, -, -⟩ := start_none hc hstart
  refine ⟨fun record hrecord d hd => ?_, fun record hrecord _ => ?_⟩
  · obtain rfl := Option.some.inj (hstored.symm.trans hrecord)
    rw [hlist] at hd
    cases hd
  · obtain rfl := Option.some.inj (hstored.symm.trans hrecord)
    exact hlist

/-! ## Steps after which everyone is still told -/

variable (c) in
/-- The installation is not removed by the step. When it removes a device, those who are still to
    be told of an earlier removal are active; and when it starts to join another account, nobody is
    to be told. A call that fails is as good as none. -/
structure Telling (s : Installation Seed) (ev : Event Seed) : Prop where
  active : ∀ record ∈ (s.step c ev).storedRecord c, record.revoked c = .ok false
  removal : s.step c ev ≠ s → (∃ env target, ev = .revoke env target) →
    ∀ record ∈ s.storedRecord c, ∀ devices, record.roster.devices c.toRosterCrypto = .ok devices →
      ∀ d ∈ record.rosterDelivery, d ∈ devices
  joins : s.step c ev ≠ s → JoinsFree c s ev

variable (c) in
/-- The device is to be told of a roster that extends the base. -/
def Owes (s : Installation Seed) (d : DeviceDescriptor) (base : DeviceRoster) : Prop :=
  ∃ record ∈ s.storedRecord c, d ∈ record.rosterDelivery ∧ base <+: record.roster

/-- No two keys have a device id in common. -/
def DistinctIds (r : RosterCrypto Key Signature) : Prop :=
  ∀ key key', deviceId r key = deviceId r key' → key = key'

/-- A notice that is acknowledged by someone with the id of a device is signed by that device. -/
theorem verifyText_of_id (hids : DistinctIds c.toRosterCrypto) {d sender : DeviceDescriptor}
    {body : Bytes} {recipient : String} {notice : RosterNotice}
    (hopen : RosterNotice.open c.toLinkCrypto recipient body = .ok (notice, sender))
    (hd : d.validate c.toRosterCrypto = .ok ()) (hid : d.deviceId = sender.deviceId) :
    verifyText c.toLinkCrypto d.signingPublicKey (notice.bytes c.toLinkCrypto) notice.signature =
      .ok () := by
  simp only [RosterNotice.open, bind_eq_ok, getOr_eq_ok] at hopen
  obtain ⟨-, -, notice', -, -, -, known, hknown, sender', rfl, ⟨⟩, hverify, heq⟩ := hopen
  cases heq
  obtain ⟨key, hkey, hkeyid⟩ := key_of_validate hd
  obtain ⟨key', hkey', hkeyid'⟩ := key_of_validate (validate_of_known hknown).2
  have hsame : key = key' := hids key key' (by rw [← hkeyid, ← hkeyid', hid])
  rw [verifyText, hkey, hsame, ← hkey', ← verifyText]
  exact hverify

/-- Whoever is in the list stays there, or acknowledges the roster of the installation. -/
theorem Kept.tells (hc : Readable c) (hd : Collisionless c) (hids : DistinctIds c.toRosterCrypto)
    (hk : Kept c peer s) (hl : Lists c s) (hvalid : d.validate c.toRosterCrypto = .ok ())
    (htelling : Telling c s ev) (h : Owes c s d base) :
    Owes c (s.step c ev) d base ∨
      ∃ env packet, ev = .receive env packet ∧ Acknowledges c s packet d base := by
  by_cases hsame : s.step c ev = s
  · exact .inl (hsame.symm ▸ h)
  obtain ⟨record, hrecord, hmem, hbase⟩ := h
  obtain ⟨record', hrecord'⟩ := (hk.step hc ev).stores
  have hne : record.rosterDelivery ≠ [] := List.ne_nil_of_mem hmem
  cases hk.told_step hc hd ev record hrecord record' hrecord' with
  | kept hlist hroster => exact .inl ⟨record', hrecord', hlist ▸ hmem, hbase.trans hroster⟩
  | left _ hwhy =>
    rcases hwhy with hjoin | ⟨-, hjoins⟩
    · exact absurd (htelling.joins hsame hjoin record hrecord) hne
    · exact absurd (hl.joins record hrecord (.inr hjoins)) hne
  | cleared hrevoked =>
    rw [htelling.active record' hrecord'] at hrevoked
    cases hrevoked
  | acked env packet body notice sender hev hstrip hopen hack hown hroster heq hlist =>
    by_cases hid : d.deviceId = sender.deviceId
    · right
      refine ⟨env, packet, hev, body, notice, sender, hstrip, hopen, hack, ?_, ?_,
        verifyText_of_id hids hopen hvalid hid⟩
      · rw [hown, hroster]
      · rw [hroster]
        exact hbase
    · left
      refine ⟨record', hrecord', ?_, heq ▸ hbase⟩
      rw [hlist]
      exact List.mem_filter.2 ⟨hmem, decide_eq_true hid⟩
  | removed env target devices hev hdevices hroster hlist =>
    left
    refine ⟨record', hrecord', ?_, hbase.trans hroster⟩
    rw [hlist]
    exact List.mem_filter.2
      ⟨htelling.removal hsame ⟨env, target, hev⟩ record hrecord devices hdevices d hmem,
        decide_eq_true (hl.others record hrecord d hmem)⟩

/-! ## Runs -/

variable (c) in
/-- Those who are to be told are well-formed devices. -/
def ListsValid (s : Installation Seed) : Prop :=
  ∀ record ∈ s.storedRecord c, ∀ d ∈ record.rosterDelivery, d.validate c.toRosterCrypto = .ok ()

theorem ListsValid.step (hc : Readable c) (hd : Collisionless c) (hk : Kept c peer s)
    (h : ListsValid c s) : ListsValid c (Installation.step c s ev) := by
  intro record' hrecord' d hmem
  obtain ⟨bytes, record, hrow, hrecord, -⟩ := hk.row
  have hstored : s.storedRecord c = some record := storedRecord_eq_some.2 ⟨bytes, hrow, hrecord⟩
  cases hk.told_step hc hd ev record hstored record' hrecord' with
  | kept hlist => exact h record hstored d (hlist ▸ hmem)
  | left hlist => exact h record hstored d (hlist ▸ hmem)
  | cleared _ hlist =>
    rw [hlist] at hmem
    cases hmem
  | acked _ _ _ _ _ _ _ _ _ _ _ _ hlist =>
    rw [hlist] at hmem
    exact h record hstored d (List.mem_filter.1 hmem).1
  | removed env target devices hev hdevices hroster hlist =>
    rw [hlist] at hmem
    exact validate_of_mem hdevices (List.mem_filter.1 hmem).1

/-- A packet drops nobody but who acknowledges with it. -/
theorem Kept.dropped (hc : Readable c) (hd : Collisionless c) (hids : DistinctIds c.toRosterCrypto)
    (hk : Kept c peer s) (hvalid : ListsValid c s) {env : Env} {packet : Bytes} :
    ∀ record ∈ s.storedRecord c,
      ∀ record' ∈ (Installation.step c s (.receive env packet)).storedRecord c,
        record'.revoked c = .ok false → ∀ d ∈ record.rosterDelivery, d ∉ record'.rosterDelivery →
          Acknowledges c s packet d record.roster := by
  intro record hrecord record' hrecord' hactive d hmem hdrop
  cases hk.told_step hc hd (.receive env packet) record hrecord record' hrecord' with
  | kept hlist => exact absurd (hlist ▸ hmem) hdrop
  | left hlist => exact absurd (hlist ▸ hmem) hdrop
  | cleared hrevoked =>
    rw [hactive] at hrevoked
    cases hrevoked
  | acked env packet body notice sender hev hstrip hopen hack hown hroster hsame hlist =>
    cases hev
    have hid : d.deviceId = sender.deviceId := by
      by_contra hne
      rw [hlist] at hdrop
      exact hdrop (List.mem_filter.2 ⟨hmem, decide_eq_true hne⟩)
    refine ⟨body, notice, sender, hstrip, hopen, hack, hown ▸ hroster, hroster ▸ List.prefix_rfl, ?_⟩
    exact verifyText_of_id hids hopen (hvalid record hrecord d hmem) hid
  | removed _ _ _ hev => cases hev

/-- What holds of an installation from its first start on, while it tells everyone. -/
structure Tells (c : IdentityCrypto Key Signature Seed) (peer : String) (s : Installation Seed) :
    Prop where
  keeps : Kept c peer s
  lists : Lists c s

/-- A call that fails is as good as none. -/
theorem Tells.step (hc : Readable c) (hd : Collisionless c) (h : Tells c peer s)
    (hjoin : Installation.step c s ev ≠ s → JoinsFree c s ev) :
    Tells c peer (Installation.step c s ev) := by
  by_cases hsame : Installation.step c s ev = s
  · rwa [hsame]
  · exact ⟨h.keeps.step hc ev, h.lists.step hc hd h.keeps (hjoin hsame)⟩

theorem Tells.run (hc : Readable c) (hd : Collisionless c) {evs : List (Event Seed)}
    (hrun : Runs (Installation.step c) (Telling c) s evs s') (h : Tells c peer s) :
    Tells c peer s' :=
  hrun.invariant (fun _ _ htelling ht => ht.step hc hd htelling.joins) h

theorem Tells.owes_run (hc : Readable c) (hd : Collisionless c)
    (hids : DistinctIds c.toRosterCrypto) (hvalid : d.validate c.toRosterCrypto = .ok ())
    {evs : List (Event Seed)} (hrun : Runs (Installation.step c) (Telling c) s evs s')
    (ht : Tells c peer s) (h : Owes c s d base) :
    Owes c s' d base ∨ ∃ before env packet after, evs = before ++ .receive env packet :: after ∧
      Acknowledges c (before.foldl (Installation.step c) s) packet d base := by
  induction hrun with
  | nil s => exact .inl h
  | @cons t u ev evs htelling _ ih =>
    rcases ht.keeps.tells hc hd hids ht.lists hvalid htelling h with hstill | ⟨env, packet, rfl, hack⟩
    · rcases ih (ht.step hc hd htelling.joins) hstill with hend | ⟨before, env, packet, after, rfl, hack⟩
      · exact .inl hend
      · exact .inr ⟨ev :: before, env, packet, after, rfl, hack⟩
    · exact .inr ⟨[], env, packet, evs, rfl, hack⟩

end Installation

open Installation

variable {c : IdentityCrypto Key Signature Seed} {peer : String}

/-- In a run from the first start on in which every removal finds those active who are still to be
    told of an earlier one, and in which the installation neither is removed nor leaves its account
    while there is anyone to be told, the devices that were active before a removal are to be told
    of it until they have acknowledged a roster with the removal. A packet drops nobody but the
    device that acknowledges with it, in any run. -/
theorem removal_told (hc : Readable c) (hd : Collisionless c) (hids : DistinctIds c.toRosterCrypto)
    {env env' : Env} {tables : Tables} {seed : Seed} {s t u v : Installation Seed}
    {evs evs' : List (Event Seed)} {target : String}
    (hstart : start c env peer none tables seed [] [] = .ok s)
    (hrun : Runs (step c) (Telling c) s evs t) (hrevoke : t.revoke c env' target = .ok u)
    (hrun' : Runs (step c) (Telling c) u evs' v) :
    (∀ devices, t.record.roster.devices c.toRosterCrypto = .ok devices →
      ∀ d ∈ devices, d.deviceId ≠ t.record.device.deviceId →
        Owes c v d u.record.roster ∨ ∃ before env packet after,
          evs' = before ++ .receive env packet :: after ∧
          Acknowledges c (before.foldl (step c) u) packet d u.record.roster) ∧
    ∀ (all : List (Event Seed)) env packet, ∀ record ∈ (all.foldl (step c) s).storedRecord c,
      ∀ record' ∈ ((all.foldl (step c) s).step c (.receive env packet)).storedRecord c,
        record'.revoked c = .ok false → ∀ d ∈ record.rosterDelivery, d ∉ record'.rosterDelivery →
          Acknowledges c (all.foldl (step c) s) packet d record.roster := by
  have hk := start_kept hc hstart
  refine ⟨fun devices hdevices d hmem hne => ?_, fun all env packet => ?_⟩
  · have ht : Tells c peer t := Tells.run hc hd hrun ⟨hk, lists_start hc hstart⟩
    have hstep : t.step c (.revoke env' target) = u := by
      change (t.outcome (t.revoke c env' target)).1 = u
      rw [hrevoke]
      rfl
    have hu : Tells c peer u := by
      rw [← hstep]
      exact ht.step hc hd fun _ ⟨_, _, _, h⟩ => by cases h
    refine hu.owes_run hc hd hids (validate_of_mem hdevices hmem) hrun' ?_
    simp only [revoke, bind_eq_ok] at hrevoke
    obtain ⟨⟨⟩, -, roster, -, devices', hdevices', hsave⟩ := hrevoke
    obtain rfl := Except.ok.inj (hdevices.symm.trans hdevices')
    obtain ⟨bytes, hw, rfl⟩ := save_eq_ok.1 hsave
    exact ⟨_, stored_saved hc hw, List.mem_filter.2 ⟨hmem, decide_eq_true hne⟩, List.prefix_rfl⟩
  · have hboth : Kept c peer (all.foldl (step c) s) ∧ ListsValid c (all.foldl (step c) s) := by
      have hall : Runs (step c) (fun _ _ => True) s all (all.foldl (step c) s) := .foldl s all
      refine hall.invariant (P := fun t => Kept c peer t ∧ ListsValid c t)
        (fun t ev _ ht => ⟨ht.1.step hc ev, ht.2.step hc hd ht.1⟩) ⟨hk, ?_⟩
      obtain ⟨hstored, hlist, -, -⟩ := start_none hc hstart
      intro record hrecord d hmem
      obtain rfl := Option.some.inj (hstored.symm.trans hrecord)
      rw [hlist] at hmem
      cases hmem
    exact hboth.1.dropped hc hd hids hboth.2

/-! ### A device that is forgotten -/

/-- A notice that an installation sends to the first one. -/
def sampleNotice (hash : Bytes → Bytes) (b : UInt8) (roster : DeviceRoster) : Bytes :=
  ((RosterNotice.sealed (linkCrypto hash).toLinkCrypto b (sampleDevice hash b).deviceId
    (samplePeer 1) roster false).toOption).getD []

/-- The roster after the second installation has added the third one. -/
def sampleTriple (hash : Bytes → Bytes) : DeviceRoster :=
  (((samplePair hash).extend (linkCrypto hash).toLinkCrypto (sampleDevice hash 3) 2).toOption).getD []

/-- Whether the second installation is to be told, at first and after each of some events. -/
def toldSecond (hash : Bytes → Bytes) (evs : List (Event UInt8)) : List Bool :=
  match sampleStart hash 1 with
  | .error _ => []
  | .ok s => (evs.scanl (step (linkCrypto hash)) s).map fun t =>
    (t.storedRecord (linkCrypto hash)).any fun record =>
      sampleDevice hash 2 ∈ record.rosterDelivery

/-- The first installation links the second one, which links the third one. Then the first one removes
    both, one after the other. -/
def sampleRemovals (hash : Bytes → Bytes) : List (Event UInt8) :=
  sampleLink hash ++
    [.receive (sampleEnv 4) (samplePacket hash 2 (.ack (sampleDigest hash (samplePair hash)))),
      .receive (sampleEnv 5) (sampleNotice hash 2 (sampleTriple hash)),
      .revoke (sampleEnv 6) (sampleDevice hash 2).deviceId,
      .revoke (sampleEnv 7) (sampleDevice hash 3).deviceId]

set_option maxRecDepth 100000 in
/-- After the second removal the installation that was removed first is not told any more, though it
    has acknowledged nothing since. -/
theorem second_removal_forgets : toldSecond checksum (sampleRemovals checksum) =
    [false, false, false, false, false, false, false, true, false] := by
  decide +kernel

theorem linkCrypto_distinctIds {hash : Bytes → Bytes} (hinj : Function.Injective hash) :
    DistinctIds (linkCrypto hash).toRosterCrypto := by
  intro key key' h
  exact List.append_cancel_left (hinj (hexText_inj h))

/-- A hash that is short for the keys and for the rosters of the first two installations. -/
def keysHash : Bytes → Bytes :=
  shortHash [deviceContext ++ List.replicate 32 1, deviceContext ++ List.replicate 32 2]

def pairHash : Bytes → Bytes :=
  shortHash [deviceContext ++ List.replicate 32 1, deviceContext ++ List.replicate 32 2,
    rosterContext ++ Text.roster.packed (sampleRoster keysHash)]

def sampleHash : Bytes → Bytes :=
  shortHash [deviceContext ++ List.replicate 32 1, deviceContext ++ List.replicate 32 2,
    rosterContext ++ Text.roster.packed (sampleRoster keysHash),
    rosterContext ++ Text.roster.packed (samplePair pairHash)]

theorem sampleHash_injective : Function.Injective sampleHash := shortHash_injective _

/-- The first installation takes over a roster with the second one. -/
def samplePaired (s : Installation UInt8) : Installation UInt8 :=
  s.step (linkCrypto sampleHash)
    (.receive (sampleEnv 1) (sampleNotice sampleHash 2 (samplePair sampleHash)))

/-- It removes the second one. -/
def sampleRemoved (s : Installation UInt8) : Except DeviceLinkError (Installation UInt8) :=
  (samplePaired s).revoke (linkCrypto sampleHash) (sampleEnv 2) (sampleDevice sampleHash 2).deviceId

set_option maxRecDepth 100000 in
theorem sampleRemoved_isOk : (sampleStart sampleHash 1).toOption.any (fun s =>
    (sampleRemoved s).isOk &&
      ((samplePaired s).storedRecord (linkCrypto sampleHash)).all fun record =>
        (record.revoked (linkCrypto sampleHash)).toOption = some false) = true := by
  decide +kernel

theorem eq_ok_of_toOption {α : Type} {x : Except DeviceLinkError α} {a : α}
    (h : x.toOption = some a) : x = .ok a := by
  rcases x with e | b
  · cases h
  · cases h
    rfl

/-- The second installation is to be told of its removal. -/
theorem removal_told_second : ∃ s u, sampleStart sampleHash 1 = .ok s ∧ sampleRemoved s = .ok u ∧
    ∀ devices,
      (samplePaired s).record.roster.devices (linkCrypto sampleHash).toRosterCrypto = .ok devices →
      ∀ d ∈ devices, d.deviceId ≠ (samplePaired s).record.device.deviceId →
        Owes (linkCrypto sampleHash) u d u.record.roster ∨ ∃ before env packet after,
          ([] : List (Event UInt8)) = before ++ .receive env packet :: after ∧
          Acknowledges (linkCrypto sampleHash) (before.foldl (step (linkCrypto sampleHash)) u)
            packet d u.record.roster := by
  obtain ⟨s, hs, h⟩ := (Option.any_eq_true _ _).1 sampleRemoved_isOk
  rw [Bool.and_eq_true] at h
  obtain ⟨hrevoke, hactive⟩ := h
  obtain ⟨u, hu⟩ : ∃ u, sampleRemoved s = .ok u := by
    rcases hx : sampleRemoved s with e | u
    · rw [hx] at hrevoke
      cases hrevoke
    · exact ⟨u, rfl⟩
  have hstart : start (linkCrypto sampleHash) (sampleEnv 0) (samplePeer 1) none noTables 1 [] [] =
      .ok s := eq_ok_of_toOption hs
  have htelling : Telling (linkCrypto sampleHash) s
      (.receive (sampleEnv 1) (sampleNotice sampleHash 2 (samplePair sampleHash))) := by
    refine ⟨fun record hrecord => ?_, (fun _ ⟨_, _, h⟩ => by cases h),
      fun _ ⟨_, _, _, h⟩ => by cases h⟩
    change (samplePaired s).storedRecord (linkCrypto sampleHash) = some record at hrecord
    rw [hrecord] at hactive
    exact eq_ok_of_toOption (of_decide_eq_true hactive)
  have hrun : Runs (step (linkCrypto sampleHash)) (Telling (linkCrypto sampleHash)) s
      [.receive (sampleEnv 1) (sampleNotice sampleHash 2 (samplePair sampleHash))]
      (samplePaired s) := .single htelling
  have hrevoked : (samplePaired s).revoke (linkCrypto sampleHash) (sampleEnv 2)
      (sampleDevice sampleHash 2).deviceId = .ok u := hu
  exact ⟨s, u, hstart, hu, (removal_told (linkCrypto_readable sampleHash)
    (linkCrypto_collisionless sampleHash_injective) (linkCrypto_distinctIds sampleHash_injective)
    hstart hrun hrevoked (.nil u)).1⟩

end Mosh.DeviceLink
