import Mathlib
import Mosh.Library.Checked

/-!
# The roster of an organization, in memory and on disk

An organization signs the list of its members, with a version that grows
(`org_roster.rs`). A session keeps the newest roster that it received, both in memory and in
the store (`org_runtime/session.rs`), and the groups of the organization read the one in
the store to remove whoever was revoked (`org_gate.rs`). A write that is refused is only
logged, and the roster is kept in memory all the same.

* `verify`: the checks of a received roster, in their order;
* `Session.absorbRosterBytes`: what a session does with bytes that claim to be one;
* `verify_newer`: what a version that is held adds to the checks;
* `Kept`: what holds of memory and store in every run;
* `stored_with_memory_iff`: the versions only grow, all that is held is signed, and when
  memory and store agree after a roster was received;
* `unsaved_roster_stays_unsaved`: a write that was refused once is not made up for.
-/

namespace Mosh.Org

open Checked

/-! ## Documents -/

abbrev Bytes := List UInt8

/-- A value of JSON. Of numbers only those that fit an unsigned word are told apart. -/
inductive Value
  | null
  | bool (b : Bool)
  | unsigned (n : Nat)
  | number (text : String)
  | string (s : String)
  | array (items : List Value)
  | object (fields : List (String × Value))

namespace Value

def asObject : Value → Option (List (String × Value))
  | .object fields => some fields
  | _ => none

def asStr : Value → Option String
  | .string s => some s
  | _ => none

def asU64 : Value → Option Nat
  | .unsigned n => some n
  | _ => none

end Value

structure RosterMember where
  mossPeerId : String
  name : String
  role : String
  deriving DecidableEq, Repr

structure Roster where
  orgPubkey : String
  orgName : String
  version : Nat
  members : List RosterMember
  deriving DecidableEq, Repr

inductive RosterError
  | json (text : String)
  | field (name : String)
  | signature
  | wrongOrg
  | rollback (stored received : Nat)
  deriving DecidableEq, Repr

/-- What is used of the libraries for JSON, for hexadecimal texts and for signatures. -/
structure RosterCodec (Key Signature : Type) where
  fromSlice : Bytes → Except String Value
  toVec : Value → Except String Bytes
  /-- Read the members, as `serde` does. -/
  membersFromValue : Value → Except String (List RosterMember)
  decodeHex : String → Option Bytes
  keyFromBytes : Bytes → Option Key
  signatureFromSlice : Bytes → Option Signature
  verifyStrict : Key → Bytes → Signature → Bool

variable {Key Signature : Type} (c : RosterCodec Key Signature)

/-! ## The checks of a roster -/

/-- A document without its signature. -/
def withoutSig (fields : List (String × Value)) : List (String × Value) :=
  fields.filter (·.1 ≠ "sig")

def canonicalBytes (doc : Value) : Except RosterError Bytes := (c.toVec doc).mapError .json

def decodeKey32 (hex64 : String) : Except RosterError Bytes := do
  let bytes ← getOr (.field "hex") (c.decodeHex hex64)
  check (.field "key length") (bytes.length = 32)
  return bytes

/-- What is read before the version is compared: the signature, the rest of the document and the
    version. -/
def readHeader (bytes : Bytes) (expectedOrgPubkey : String) :
    Except RosterError (String × List (String × Value) × Nat) := do
  let doc ← (c.fromSlice bytes).mapError .json
  let fields ← getOr (.field "document") doc.asObject
  let sigHex ← getOr (.field "sig") ((fields.lookup "sig").bind (·.asStr))
  let obj := withoutSig fields
  let orgPubkey ← getOr (.field "org_pubkey") ((obj.lookup "org_pubkey").bind (·.asStr))
  check .wrongOrg (orgPubkey = expectedOrgPubkey)
  let version ← getOr (.field "version") ((obj.lookup "version").bind (·.asU64))
  return (sigHex, obj, version)

/-- The signature over the rest of the document. -/
def checkSignature (orgPubkey sigHex : String) (obj : List (String × Value)) :
    Except RosterError Unit := do
  let raw ← decodeKey32 c orgPubkey
  let key ← getOr (.field "org_pubkey") (c.keyFromBytes raw)
  let sigBytes ← getOr (.field "sig") (c.decodeHex sigHex)
  let sig ← getOr (.field "sig") (c.signatureFromSlice sigBytes)
  let message ← canonicalBytes c (.object obj)
  check .signature (c.verifyStrict key message sig)

/-- What is read once the signature was found right. -/
def readMembers (orgPubkey : String) (version : Nat) (obj : List (String × Value)) :
    Except RosterError Roster := do
  let orgName ← getOr (.field "org_name") ((obj.lookup "org_name").bind (·.asStr))
  let value ← getOr (.field "members") (obj.lookup "members")
  let members ← (c.membersFromValue value).mapError .json
  check (.field "members: duplicate moss_peer_id") (members.map (·.mossPeerId)).Nodup
  return ⟨orgPubkey, orgName, version, members⟩

/-- Nothing that is not newer than the roster held. -/
def checkRollback (storedVersion : Option Nat) (version : Nat) : Except RosterError Unit :=
  match storedVersion with
  | none => .ok ()
  | some stored => check (.rollback stored version) (stored < version)

def verify (bytes : Bytes) (expectedOrgPubkey : String) (storedVersion : Option Nat) :
    Except RosterError Roster := do
  let (sigHex, obj, version) ← readHeader c bytes expectedOrgPubkey
  checkRollback storedVersion version
  checkSignature c expectedOrgPubkey sigHex obj
  readMembers c expectedOrgPubkey version obj

/-! ## The session -/

/-- The session of an organization, as far as its roster goes. -/
structure Session where
  orgPubkey : String
  roster : Option Roster
  rosterBytes : Option Bytes
  /-- The rosters that it sent to the members. -/
  published : List Bytes
  deriving DecidableEq

namespace Session

def publishRoster (s : Session) : Session :=
  match s.rosterBytes with
  | none => s
  | some bytes => { s with published := s.published ++ [bytes] }

/-- Take in bytes that claim to be a roster, with the row that is stored and whether a write to it
    is refused: the session and the row after it. -/
def absorbRosterBytes (s : Session) (stored : Option Bytes) (refused : Bool) (bytes : Bytes) :
    Session × Option Bytes :=
  match verify c bytes s.orgPubkey (s.roster.map (·.version)) with
  | .ok roster =>
    -- a refused write is only logged
    ({ s with
        roster := some roster
        rosterBytes := some bytes },
      if refused then stored else some bytes)
  | .error (.rollback held received) =>
    -- the sender is behind, unless it sent what is held already
    if received < held then (s.publishRoster, stored) else (s, stored)
  | .error _ => (s, stored)

end Session

/-- The roster that is read from the store: at the start of a session (`load_roster`), and by the
    groups of the organization (`org_roster_checked`). -/
def loadRoster (org : String) (stored : Option Bytes) : Option (Roster × Bytes) := do
  let bytes ← stored
  let roster ← (verify c bytes org none).toOption
  return (roster, bytes)

/-- A session for what is stored. -/
def buildSession (org : String) (stored : Option Bytes) : Session where
  orgPubkey := org
  roster := (loadRoster c org stored).map (·.1)
  rosterBytes := (loadRoster c org stored).map (·.2)
  published := []

/-- The session of one organization, and the row of its roster. -/
structure Device where
  session : Session
  stored : Option Bytes
  deriving DecidableEq

inductive Event
  /-- Receive bytes; a write to the store is refused or not. -/
  | absorb (bytes : Bytes) (refused : Bool)
  /-- The process starts again. -/
  | restart
  deriving DecidableEq

namespace Device

def step (d : Device) : Event → Device
  | .absorb bytes refused =>
    let next := d.session.absorbRosterBytes c d.stored refused bytes
    ⟨next.1, next.2⟩
  | .restart => ⟨buildSession c d.session.orgPubkey d.stored, d.stored⟩

/-- The device that joined the organization and went through some events. -/
def after (org : String) (events : List Event) : Device :=
  events.foldl (step c) ⟨buildSession c org none, none⟩

/-- The roster that the groups of the organization go by. -/
def storedRoster (d : Device) : Option Roster :=
  (loadRoster c d.session.orgPubkey d.stored).map (·.1)

end Device

/-! ## What the checks say -/

/-- The bytes are a document with a signature of the organization over the rest of it. -/
def SignedBy (org : String) (bytes : Bytes) : Prop :=
  ∃ (fields : List (String × Value)) (sigHex : String) (raw sigBytes message : Bytes) (key : Key)
    (sig : Signature),
    c.fromSlice bytes = .ok (.object fields) ∧ fields.lookup "sig" = some (.string sigHex) ∧
    c.decodeHex org = some raw ∧ c.keyFromBytes raw = some key ∧
    c.decodeHex sigHex = some sigBytes ∧ c.signatureFromSlice sigBytes = some sig ∧
    c.toVec (.object (withoutSig fields)) = .ok message ∧ c.verifyStrict key message sig = true

variable {c}

theorem Value.asObject_eq_some {v : Value} {fields : List (String × Value)} :
    v.asObject = some fields ↔ v = .object fields := by
  cases v <;> simp [asObject]

theorem Value.asStr_eq_some {v : Value} {s : String} : v.asStr = some s ↔ v = .string s := by
  cases v <;> simp [asStr]

theorem readHeader_eq_ok {bytes : Bytes} {org sigHex : String} {obj : List (String × Value)}
    {version : Nat} (h : readHeader c bytes org = .ok (sigHex, obj, version)) :
    ∃ fields, c.fromSlice bytes = .ok (.object fields) ∧
      fields.lookup "sig" = some (.string sigHex) ∧ obj = withoutSig fields := by
  simp only [readHeader, bind_eq_ok, mapError_eq_ok, getOr_eq_ok, Value.asObject_eq_some,
    check_eq_ok] at h
  obtain ⟨doc, hdoc, fields, rfl, sig, hsig, org', -, -, -, v, -, heq⟩ := h
  obtain ⟨value, hvalue, hstr⟩ := Option.bind_eq_some_iff.1 hsig
  obtain rfl := Value.asStr_eq_some.1 hstr
  cases heq
  exact ⟨fields, hdoc, hvalue, rfl⟩

theorem checkSignature_eq_ok {org sigHex : String} {obj : List (String × Value)} {u : Unit}
    (h : checkSignature c org sigHex obj = .ok u) :
    ∃ raw key sigBytes sig message, c.decodeHex org = some raw ∧ c.keyFromBytes raw = some key ∧
      c.decodeHex sigHex = some sigBytes ∧ c.signatureFromSlice sigBytes = some sig ∧
      c.toVec (.object obj) = .ok message ∧ c.verifyStrict key message sig = true := by
  simp only [checkSignature, decodeKey32, canonicalBytes, bind_eq_ok, mapError_eq_ok, getOr_eq_ok,
    check_eq_ok] at h
  obtain ⟨raw, ⟨raw', hraw, -, -, hpure⟩, key, hkey, sigBytes, hsigBytes, sig, hsig, message,
    hmessage, hverify⟩ := h
  cases hpure
  exact ⟨raw, key, sigBytes, sig, message, hraw, hkey, hsigBytes, hsig, hmessage, hverify⟩

theorem readMembers_version {org : String} {version : Nat} {obj : List (String × Value)}
    {r : Roster} (h : readMembers c org version obj = .ok r) : r.version = version := by
  simp only [readMembers, bind_eq_ok] at h
  obtain ⟨orgName, -, value, -, members, -, u, -, heq⟩ := h
  cases heq
  rfl

theorem verify_eq_ok {bytes : Bytes} {org : String} {held : Option Nat} {r : Roster} :
    verify c bytes org held = .ok r ↔
      ∃ sigHex obj, readHeader c bytes org = .ok (sigHex, obj, r.version) ∧
        checkRollback held r.version = .ok () ∧ checkSignature c org sigHex obj = .ok () ∧
        readMembers c org r.version obj = .ok r := by
  simp only [verify, bind_eq_ok]
  constructor
  · rintro ⟨⟨sigHex, obj, version⟩, hheader, ⟨⟩, hrollback, ⟨⟩, hsignature, hmembers⟩
    obtain rfl := readMembers_version hmembers
    exact ⟨sigHex, obj, hheader, hrollback, hsignature, hmembers⟩
  · rintro ⟨sigHex, obj, hheader, hrollback, hsignature, hmembers⟩
    exact ⟨_, hheader, (), hrollback, (), hsignature, hmembers⟩

/-- A roster that is accepted is signed by the organization. -/
theorem SignedBy.of_verify {bytes : Bytes} {org : String} {held : Option Nat} {r : Roster}
    (h : verify c bytes org held = .ok r) : SignedBy c org bytes := by
  obtain ⟨sigHex, obj, hheader, -, hsignature, -⟩ := verify_eq_ok.1 h
  obtain ⟨fields, hfields, hsig, rfl⟩ := readHeader_eq_ok hheader
  obtain ⟨raw, key, sigBytes, sig, message, hraw, hkey, hsigBytes, hsignature, hmessage, hverify⟩ :=
    checkSignature_eq_ok hsignature
  exact ⟨fields, sigHex, raw, sigBytes, message, key, sig, hfields, hsig, hraw, hkey, hsigBytes,
    hsignature, hmessage, hverify⟩

/-- With a version held, the roster also has to be newer. -/
theorem verify_newer {bytes : Bytes} {org : String} {held : Option Nat} {r : Roster} :
    verify c bytes org held = .ok r ↔
      verify c bytes org none = .ok r ∧ ∀ v ∈ held, v < r.version := by
  have hcheck : checkRollback held r.version = .ok () ↔ ∀ v ∈ held, v < r.version := by
    rcases held with - | v
    · simp [checkRollback]
    · simp [checkRollback]
  rw [verify_eq_ok, verify_eq_ok, ← hcheck]
  constructor
  · rintro ⟨sigHex, obj, hheader, hrollback, hrest⟩
    exact ⟨⟨sigHex, obj, hheader, rfl, hrest⟩, hrollback⟩
  · rintro ⟨⟨sigHex, obj, hheader, -, hrest⟩, hrollback⟩
    exact ⟨sigHex, obj, hheader, hrollback, hrest⟩

/-! ## What a step does -/

/-- The version that is held does not get older. -/
def NoOlder (old new : Option Roster) : Prop := ∀ r ∈ old, ∃ r' ∈ new, r.version ≤ r'.version

theorem NoOlder.refl (r : Option Roster) : NoOlder r r := fun r' hr => ⟨r', hr, le_rfl⟩

theorem NoOlder.trans {r₁ r₂ r₃ : Option Roster} (h₁ : NoOlder r₁ r₂) (h₂ : NoOlder r₂ r₃) :
    NoOlder r₁ r₃ := by
  intro r hr
  obtain ⟨r', hr', hle⟩ := h₁ r hr
  obtain ⟨r'', hr'', hle'⟩ := h₂ r' hr'
  exact ⟨r'', hr'', hle.trans hle'⟩

theorem Session.publishRoster_eq (s : Session) :
    ∃ published, s.publishRoster = { s with published := published } := by
  rw [publishRoster]
  split
  · exact ⟨s.published, rfl⟩
  · exact ⟨_, rfl⟩

/-- A session takes in a roster that is valid and newer than what it holds, or else keeps what it
    holds. -/
theorem Session.absorbRosterBytes_cases (s : Session) (stored : Option Bytes) (refused : Bool)
    (bytes : Bytes) :
    (∃ r, verify c bytes s.orgPubkey none = .ok r ∧ (∀ held ∈ s.roster, held.version < r.version) ∧
      s.absorbRosterBytes c stored refused bytes =
        ({ s with
            roster := some r
            rosterBytes := some bytes },
          if refused then stored else some bytes)) ∨
    (∃ published, s.absorbRosterBytes c stored refused bytes =
      ({ s with published := published }, stored)) := by
  rw [absorbRosterBytes]
  cases hv : verify c bytes s.orgPubkey (s.roster.map (·.version)) with
  | ok r =>
    obtain ⟨hr, hnewer⟩ := verify_newer.1 hv
    exact .inl ⟨r, hr, fun held hheld => hnewer _ (Option.mem_map_of_mem _ hheld), rfl⟩
  | error e =>
    right
    cases e with
    | rollback held received =>
      simp only
      by_cases hlt : received < held
      · obtain ⟨published, heq⟩ := s.publishRoster_eq
        exact ⟨published, by rw [if_pos hlt, heq]⟩
      · rw [if_neg hlt]
        exact ⟨s.published, rfl⟩
    | json text => exact ⟨s.published, rfl⟩
    | field name => exact ⟨s.published, rfl⟩
    | signature => exact ⟨s.published, rfl⟩
    | wrongOrg => exact ⟨s.published, rfl⟩

theorem loadRoster_eq_some {org : String} {stored : Option Bytes} {r : Roster} {bytes : Bytes} :
    loadRoster c org stored = some (r, bytes) ↔
      stored = some bytes ∧ verify c bytes org none = .ok r := by
  rcases stored with - | b
  · simp [loadRoster]
  · cases hv : verify c b org none with
    | error e =>
      simp only [loadRoster, Option.bind_eq_bind, Option.bind_some, hv, Except.toOption,
        Option.bind_none]
      constructor
      · intro h
        cases h
      · rintro ⟨hb, h⟩
        obtain rfl := Option.some.inj hb
        rw [hv] at h
        cases h
    | ok r' =>
      simp only [loadRoster, Option.bind_eq_bind, Option.bind_some, hv, Except.toOption]
      constructor
      · intro h
        cases h
        exact ⟨rfl, hv⟩
      · rintro ⟨hb, h⟩
        obtain rfl := Option.some.inj hb
        obtain rfl := Except.ok.inj (hv.symm.trans h)
        rfl

/-! ## What holds in every run -/

namespace Device

variable (c) in
/-- What is held was verified, and what is stored is no newer than what is held. -/
structure Kept (org : String) (d : Device) : Prop where
  orgPubkey : d.session.orgPubkey = org
  memory : ∀ r ∈ d.session.roster, ∃ bytes ∈ d.session.rosterBytes,
    verify c bytes org none = .ok r
  stored : ∀ bytes ∈ d.stored, ∃ r, verify c bytes org none = .ok r ∧
    ∃ held ∈ d.session.roster, r.version ≤ held.version

variable {org : String} {d : Device}

theorem storedRoster_eq_some {r : Roster} :
    d.storedRoster c = some r ↔
      ∃ bytes ∈ d.stored, verify c bytes d.session.orgPubkey none = .ok r := by
  rw [storedRoster, Option.map_eq_some_iff]
  constructor
  · rintro ⟨⟨r', bytes⟩, hload, rfl⟩
    exact ⟨bytes, loadRoster_eq_some.1 hload⟩
  · rintro ⟨bytes, hbytes⟩
    exact ⟨(r, bytes), loadRoster_eq_some.2 hbytes, rfl⟩

/-- After a start, memory holds what is stored. -/
theorem restart_agrees : (d.step c .restart).storedRoster c = (d.step c .restart).session.roster :=
  rfl

/-- Receiving bytes replaces the roster by a newer one, or leaves memory and store. -/
theorem absorb_cases (hd : Kept c org d) (bytes : Bytes) (refused : Bool) :
    (∃ r, verify c bytes org none = .ok r ∧ (∀ held ∈ d.session.roster, held.version < r.version) ∧
      (d.step c (.absorb bytes refused)).session.orgPubkey = org ∧
      (d.step c (.absorb bytes refused)).session.roster = some r ∧
      (d.step c (.absorb bytes refused)).session.rosterBytes = some bytes ∧
      (d.step c (.absorb bytes refused)).stored = if refused then d.stored else some bytes) ∨
    ((d.step c (.absorb bytes refused)).session.orgPubkey = org ∧
      (d.step c (.absorb bytes refused)).session.roster = d.session.roster ∧
      (d.step c (.absorb bytes refused)).session.rosterBytes = d.session.rosterBytes ∧
      (d.step c (.absorb bytes refused)).stored = d.stored) := by
  obtain ⟨r, hr, hnewer, heq⟩ | ⟨published, heq⟩ :=
    d.session.absorbRosterBytes_cases (c := c) d.stored refused bytes
  · left
    rw [hd.orgPubkey] at hr
    exact ⟨r, hr, hnewer, by simp [step, heq, hd.orgPubkey]⟩
  · right
    simp [step, heq, hd.orgPubkey]

/-- A newer roster is taken into memory. -/
theorem roster_absorb (hd : Kept c org d) {bytes : Bytes} {r : Roster}
    (hr : verify c bytes org none = .ok r)
    (hnewer : ∀ held ∈ d.session.roster, held.version < r.version) (refused : Bool) :
    (d.step c (.absorb bytes refused)).session.roster = some r := by
  have hverify : verify c bytes d.session.orgPubkey (d.session.roster.map (·.version)) = .ok r := by
    rw [hd.orgPubkey, verify_newer]
    refine ⟨hr, fun v hv => ?_⟩
    obtain ⟨held, hheld, rfl⟩ := Option.map_eq_some_iff.1 hv
    exact hnewer held hheld
  simp [step, Session.absorbRosterBytes, hverify]

theorem Kept.step (hd : Kept c org d) (e : Event) : Kept c org (d.step c e) := by
  cases e with
  | restart =>
    refine ⟨hd.orgPubkey, fun r hr => ?_, fun bytes hbytes => ?_⟩
    · obtain ⟨⟨r', bytes⟩, hload, rfl⟩ := Option.map_eq_some_iff.1 hr
      rw [hd.orgPubkey] at hload
      refine ⟨bytes, ?_, (loadRoster_eq_some.1 hload).2⟩
      exact Option.map_eq_some_iff.2 ⟨(r', bytes), by rw [hd.orgPubkey, hload], rfl⟩
    · obtain ⟨r, hr, -⟩ := hd.stored bytes hbytes
      refine ⟨r, hr, r, ?_, le_rfl⟩
      refine Option.map_eq_some_iff.2 ⟨(r, bytes), loadRoster_eq_some.2 ⟨hbytes, ?_⟩, rfl⟩
      rw [hd.orgPubkey, hr]
  | absorb bytes refused =>
    obtain ⟨r, hr, hnewer, horg, hroster, hbytes, hstored⟩ | ⟨horg, hroster, hbytes, hstored⟩ :=
      absorb_cases hd bytes refused
    · refine ⟨horg, fun r' hr' => ?_, fun b hb => ?_⟩
      · rw [hroster] at hr'
        obtain rfl := Option.some.inj hr'
        exact ⟨bytes, hbytes, hr⟩
      · rw [hroster]
        rw [hstored] at hb
        cases refused with
        | false =>
          obtain rfl := Option.some.inj hb
          exact ⟨r, hr, r, rfl, le_rfl⟩
        | true =>
          -- the row is the old one, which was no newer than what was held
          obtain ⟨r', hr', held, hheld, hle⟩ := hd.stored b hb
          exact ⟨r', hr', r, rfl, hle.trans (hnewer held hheld).le⟩
    · refine ⟨horg, fun r' hr' => ?_, fun b hb => ?_⟩
      · rw [hroster] at hr'
        rw [hbytes]
        exact hd.memory r' hr'
      · rw [hstored] at hb
        rw [hroster]
        exact hd.stored b hb

theorem Kept.foldl (hd : Kept c org d) (events : List Event) :
    Kept c org (events.foldl (Device.step c) d) := by
  induction events generalizing d with
  | nil => exact hd
  | cons e events ih => exact ih (hd.step e)

theorem kept_after (events : List Event) : Kept c org (after c org events) := by
  have hstart : Kept c org ⟨buildSession c org none, none⟩ := by
    refine ⟨rfl, fun r hr => ?_, fun b hb => ?_⟩
    · cases hr
    · cases hb
  exact hstart.foldl events

/-- Without a start in between, the roster in memory only gets newer. -/
theorem memory_noOlder (hd : Kept c org d) {events : List Event} (h : ∀ e ∈ events, e ≠ .restart) :
    NoOlder d.session.roster (events.foldl (Device.step c) d).session.roster := by
  induction events generalizing d with
  | nil => exact .refl _
  | cons e events ih =>
    refine NoOlder.trans ?_ (ih (hd.step e) fun e' he' => h e' (List.mem_cons_of_mem _ he'))
    cases e with
    | restart => exact absurd rfl (h _ List.mem_cons_self)
    | absorb bytes refused =>
      obtain ⟨r, -, hnewer, -, hroster, -⟩ | ⟨-, hroster, -⟩ := absorb_cases hd bytes refused
      · exact fun held hheld => ⟨r, hroster, (hnewer held hheld).le⟩
      · rw [hroster]
        exact .refl _

/-- The roster in the store only gets newer. -/
theorem stored_noOlder (hd : Kept c org d) (events : List Event) :
    NoOlder (d.storedRoster c) ((events.foldl (Device.step c) d).storedRoster c) := by
  induction events generalizing d with
  | nil => exact .refl _
  | cons e events ih =>
    refine NoOlder.trans ?_ (ih (hd.step e))
    cases e with
    | restart => exact .refl _
    | absorb bytes refused =>
      intro r hr
      obtain ⟨b, hb, hverify⟩ := storedRoster_eq_some.1 hr
      rw [hd.orgPubkey] at hverify
      obtain ⟨r', hr', hnewer, horg, -, -, hstored⟩ | ⟨horg, -, -, hstored⟩ :=
        absorb_cases hd bytes refused
      · cases refused with
        | false =>
          obtain ⟨r₀, hr₀, held, hheld, hle⟩ := hd.stored b hb
          rw [Except.ok.inj (hr₀.symm.trans hverify)] at hle
          refine ⟨r', storedRoster_eq_some.2 ⟨bytes, hstored, ?_⟩, hle.trans (hnewer held hheld).le⟩
          rw [horg, hr']
        | true =>
          refine ⟨r, storedRoster_eq_some.2 ⟨b, by rw [hstored]; exact hb, ?_⟩, le_rfl⟩
          rw [horg, hverify]
      · refine ⟨r, storedRoster_eq_some.2 ⟨b, by rw [hstored]; exact hb, ?_⟩, le_rfl⟩
        rw [horg, hverify]

/-! ## When memory and store agree -/

variable (c) in
/-- The roster in memory came in this run of the process, and its write was refused. -/
def Unsaved (org : String) (events : List Event) : Prop :=
  ∃ before bytes rest r, events = before ++ .absorb bytes true :: rest ∧
    (∀ e ∈ rest, e ≠ .restart) ∧ verify c bytes org none = .ok r ∧
    (∀ held ∈ (after c org before).session.roster, held.version < r.version) ∧
    (after c org events).session.roster = some r

theorem after_append (events rest : List Event) :
    after c org (events ++ rest) = rest.foldl (step c) (after c org events) := by
  rw [after, after, List.foldl_append]

theorem after_concat (events : List Event) (e : Event) :
    after c org (events ++ [e]) = (after c org events).step c e := after_append events [e]

/-- Memory is ahead of the store, by a roster of some version. -/
def Ahead (c : RosterCodec Key Signature) (v : Nat) (d : Device) : Prop :=
  ∃ r ∈ d.session.roster, v < r.version ∨
    v = r.version ∧ ∀ r' ∈ d.storedRoster c, r'.version < v

theorem Ahead.absorb (hd : Kept c org d) {v : Nat} (h : Ahead c v d) (bytes : Bytes)
    (refused : Bool) : Ahead c v (d.step c (.absorb bytes refused)) := by
  obtain ⟨r, hr, hv⟩ := h
  obtain ⟨r', -, hnewer, -, hroster, -⟩ | ⟨horg, hroster, -, hstored⟩ :=
    absorb_cases hd bytes refused
  · have hlt := hnewer r hr
    exact ⟨r', hroster, .inl (by omega)⟩
  · refine ⟨r, hroster ▸ hr, ?_⟩
    rw [storedRoster, horg, hstored]
    rw [storedRoster, hd.orgPubkey] at hv
    exact hv

theorem Ahead.foldl (hd : Kept c org d) {v : Nat} (h : Ahead c v d) {events : List Event}
    (hevents : ∀ e ∈ events, e ≠ .restart) : Ahead c v (events.foldl (step c) d) := by
  induction events generalizing d with
  | nil => exact h
  | cons e events ih =>
    refine ih (hd.step e) ?_ fun e' he' => hevents e' (List.mem_cons_of_mem _ he')
    cases e with
    | restart => exact absurd rfl (hevents _ List.mem_cons_self)
    | absorb bytes refused => exact h.absorb hd bytes refused

/-- A roster whose write was refused stays out of the store while it is the one in memory. -/
theorem Unsaved.ne {events : List Event} (h : Unsaved c org events) :
    (after c org events).storedRoster c ≠ (after c org events).session.roster := by
  obtain ⟨before, bytes, rest, r, rfl, hrest, hr, hnewer, hroster⟩ := h
  have hd : Kept c org (after c org before) := kept_after before
  have hahead : Ahead c r.version ((after c org before).step c (.absorb bytes true)) := by
    obtain ⟨r', hr', -, horg, hroster', -, hstored⟩ | ⟨-, hroster', -, -⟩ :=
      absorb_cases hd bytes true
    · obtain rfl := Except.ok.inj (hr.symm.trans hr')
      refine ⟨r, hroster', .inr ⟨rfl, fun r₀ hr₀ => ?_⟩⟩
      -- what is stored was no newer than what was held, which is older than the roster
      obtain ⟨b, hb, hverify⟩ := storedRoster_eq_some.1 hr₀
      rw [horg] at hverify
      rw [hstored] at hb
      obtain ⟨r₁, hr₁, held, hheld, hle⟩ := hd.stored b hb
      rw [Except.ok.inj (hr₁.symm.trans hverify)] at hle
      exact hle.trans_lt (hnewer held hheld)
    · -- a newer roster is not left aside
      rw [roster_absorb hd hr hnewer true] at hroster'
      exact absurd (hnewer r hroster'.symm) (lt_irrefl _)
  have hend := hahead.foldl (hd.step _) hrest
  rw [after_append] at hroster ⊢
  obtain ⟨r', hr', hv⟩ := hend
  rw [List.foldl_cons] at hroster ⊢
  obtain rfl := Option.some.inj (hroster.symm.trans hr')
  intro heq
  rcases hv with hlt | ⟨-, hstored⟩
  · exact lt_irrefl _ hlt
  · exact lt_irrefl _ (hstored r (heq.trans hroster))

/-- Where memory and store do not agree, a write was refused. -/
theorem Unsaved.of_ne {events : List Event}
    (h : (after c org events).storedRoster c ≠ (after c org events).session.roster) :
    Unsaved c org events := by
  induction events using List.reverseRecOn with
  | nil => exact absurd rfl h
  | append_singleton events e ih =>
    have hd : Kept c org (after c org events) := kept_after events
    rw [after_concat] at h
    cases e with
    | restart => exact absurd restart_agrees h
    | absorb bytes refused =>
      obtain ⟨r, hr, hnewer, horg, hroster, -, hstored⟩ | ⟨horg, hroster, -, hstored⟩ :=
        absorb_cases hd bytes refused
      · cases refused with
        | false =>
          refine absurd ?_ h
          rw [hroster, storedRoster_eq_some, horg]
          exact ⟨bytes, hstored, hr⟩
        | true =>
          exact ⟨events, bytes, [], r, rfl, nofun, hr, hnewer, by rw [after_concat, hroster]⟩
      · have hsame : (after c org events).storedRoster c ≠ (after c org events).session.roster := by
          rw [storedRoster, horg, hstored, hroster] at h
          rwa [storedRoster, hd.orgPubkey]
        obtain ⟨before, b, rest, r, rfl, hrest, hr, hnewer, hheld⟩ := ih hsame
        refine ⟨before, b, rest ++ [.absorb bytes refused], r, by simp, ?_, hr, hnewer, ?_⟩
        · intro e he
          rcases List.mem_append.1 he with he | he
          · exact hrest e he
          · rw [List.mem_singleton.1 he]
            nofun
        · rw [after_concat, hroster, hheld]

theorem agrees_iff {events : List Event} :
    (after c org events).storedRoster c = (after c org events).session.roster ↔
      ¬ Unsaved c org events :=
  ⟨fun h hu => hu.ne h, fun hu => by_contra fun h => hu (.of_ne h)⟩

end Device

/-- In every run the roster in memory only gets newer until the process ends, the one in the store
    only gets newer, and all that is held is signed by the organization. When the roster that is
    held is received, or a newer one, and the store accepts writes, then the groups of the
    organization go by the roster in memory after it exactly if the roster received is newer or
    the write of the one held had not been refused. -/
theorem stored_with_memory_iff (org : String) (events : List Event) :
    (∀ later : List Event, (∀ e ∈ later, e ≠ .restart) →
      NoOlder (Device.after c org events).session.roster
        (Device.after c org (events ++ later)).session.roster) ∧
    (∀ later : List Event, NoOlder ((Device.after c org events).storedRoster c)
      ((Device.after c org (events ++ later)).storedRoster c)) ∧
    (∀ r ∈ (Device.after c org events).session.roster,
      ∃ bytes ∈ (Device.after c org events).session.rosterBytes,
        verify c bytes org none = .ok r ∧ SignedBy c org bytes) ∧
    (∀ bytes ∈ (Device.after c org events).stored, SignedBy c org bytes) ∧
    ∀ bytes r, verify c bytes org none = .ok r →
      (Device.after c org events).session.roster = some r ∨
        (∀ held ∈ (Device.after c org events).session.roster, held.version < r.version) →
      ((Device.after c org (events ++ [.absorb bytes false])).storedRoster c =
          (Device.after c org (events ++ [.absorb bytes false])).session.roster ↔
        (∀ held ∈ (Device.after c org events).session.roster, held.version < r.version) ∨
          ¬ Device.Unsaved c org events) := by
  have hd : Device.Kept c org (Device.after c org events) := Device.kept_after events
  refine ⟨fun later hlater => ?_, fun later => ?_, fun r hr => ?_, fun bytes hbytes => ?_,
    fun bytes r hr hreceived => ?_⟩
  · rw [Device.after_append]
    exact Device.memory_noOlder hd hlater
  · rw [Device.after_append]
    exact Device.stored_noOlder hd later
  · obtain ⟨bytes, hbytes, hverify⟩ := hd.memory r hr
    exact ⟨bytes, hbytes, hverify, .of_verify hverify⟩
  · obtain ⟨r, hr, -⟩ := hd.stored bytes hbytes
    exact .of_verify hr
  · rw [Device.after_concat, ← Device.agrees_iff]
    obtain ⟨r', hr', hnewer, horg, hroster, -, hstored⟩ | ⟨horg, hroster, -, hstored⟩ :=
      Device.absorb_cases hd bytes false
    · obtain rfl := Except.ok.inj (hr.symm.trans hr')
      refine iff_of_true ?_ (.inl hnewer)
      rw [hroster, Device.storedRoster_eq_some, horg]
      exact ⟨bytes, hstored, hr⟩
    · -- nothing was done, so the roster was not newer
      have hnot : ¬ ∀ held ∈ (Device.after c org events).session.roster,
          held.version < r.version := by
        intro hnewer
        have hnew := Device.roster_absorb hd hr hnewer false
        rw [hroster] at hnew
        exact lt_irrefl _ (hnewer r hnew)
      rw [or_iff_right hnot, Device.storedRoster, horg, hstored, hroster, Device.storedRoster,
        hd.orgPubkey]

/-- Documents of two bytes, the version and what stands for the signature, to try the session on:
    the one right signature is `s`. -/
def sampleCodec : RosterCodec Bytes Bytes where
  fromSlice
    | [version, sig] => .ok (.object [("sig", .string (if sig = 0 then "s" else "x")),
        ("org_pubkey", .string "oooooooooooooooooooooooooooooooo"),
        ("version", .unsigned version.toNat), ("org_name", .string "Guild"),
        ("members", .array [])])
    | _ => .error "expected value"
  toVec _ := .ok []
  membersFromValue _ := .ok []
  decodeHex text := some (text.toList.map (·.toNat.toUInt8))
  keyFromBytes := some
  signatureFromSlice := some
  verifyStrict _ _ sig := sig = [115]

/-- The roster of the first version, sent again after it had been stored: the groups go by it. -/
theorem stored_with_memory_first :
    verify sampleCodec [1, 0] "oooooooooooooooooooooooooooooooo" none =
      .ok ⟨"oooooooooooooooooooooooooooooooo", "Guild", 1, []⟩ ∧
    ((Device.after sampleCodec "oooooooooooooooooooooooooooooooo"
        [.absorb [1, 0] false, .absorb [1, 0] false]).storedRoster sampleCodec =
      (Device.after sampleCodec "oooooooooooooooooooooooooooooooo"
        [.absorb [1, 0] false, .absorb [1, 0] false]).session.roster) := by
  have hfirst : verify sampleCodec [1, 0] "oooooooooooooooooooooooooooooooo" none =
      .ok ⟨"oooooooooooooooooooooooooooooooo", "Guild", 1, []⟩ := by decide +kernel
  refine ⟨hfirst, ?_⟩
  have h := (stored_with_memory_iff (c := sampleCodec) "oooooooooooooooooooooooooooooooo"
    [.absorb [1, 0] false]).2.2.2.2 [1, 0] _ hfirst (.inl (by decide +kernel))
  exact h.2 (.inr (Device.agrees_iff.1 (by decide +kernel)))

/-- The write of the first roster is refused. Receiving it again does not store it, though the store
    accepts writes, so the groups of the organization go by no roster at all. -/
theorem unsaved_roster_stays_unsaved :
    verify sampleCodec [1, 0] "oooooooooooooooooooooooooooooooo" none =
      .ok ⟨"oooooooooooooooooooooooooooooooo", "Guild", 1, []⟩ ∧
    (Device.after sampleCodec "oooooooooooooooooooooooooooooooo"
      [.absorb [1, 0] true]).session.roster =
        some ⟨"oooooooooooooooooooooooooooooooo", "Guild", 1, []⟩ ∧
    (Device.after sampleCodec "oooooooooooooooooooooooooooooooo"
      [.absorb [1, 0] true, .absorb [1, 0] false]).session.roster =
        some ⟨"oooooooooooooooooooooooooooooooo", "Guild", 1, []⟩ ∧
    (Device.after sampleCodec "oooooooooooooooooooooooooooooooo"
      [.absorb [1, 0] true, .absorb [1, 0] false]).storedRoster sampleCodec = none := by
  decide +kernel

end Mosh.Org
