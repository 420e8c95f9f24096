import Mosh.DeviceLink.Forks

/-!
# Linking a device

A device shows a QR, and another one joins with it. The joining device displays a code, which the
user types into the first one. Anyone may have seen the QR, and may send either device whatever it
can make; only the signature of a device is that device's own.

* `Display`, `Clashes`: what a code is displayed for, and when hashes of two links collide;
* `confirms_of_code`: one code is of one link, unless they do;
* `Pairs`, `Admits`: what holds of an installation that links devices, among others;
* `Parties`: installations, with the codes that they have displayed;
* `pairing_confirmed`: an approval is of the device whose code was typed, and a device joins only
  what was approved for it.
-/

namespace Mosh.DeviceLink

open Checked
open Run (Runs)

variable {Key Signature Seed : Type}

/-! ## Codes -/

/-- What a code is displayed for: the QR, the roster that is offered, who offers it, and who
    joins. -/
structure Display where
  qr : PairingQr
  base : DeviceRoster
  trusted : DeviceDescriptor
  joining : DeviceDescriptor

section Codes

variable (c : LinkCrypto Key Signature Seed)

/-- The parts of what the code of a current QR is a hash of, one after the other. -/
def codeInput (qrDigest : Bytes) (offerHash trustedKey : String) (device : Bytes) : Bytes :=
  codeContext ++ qrDigest ++ textBytes offerHash ++ textBytes trustedKey ++ device

/-- The digits of a hash that are displayed. -/
def shortened (hash : Bytes) : String :=
  (String.ofList ((c.hexEncode hash).toList.take codeHexChars)).toUpper

namespace Display

def code (x : Display) : Except DeviceLinkError String := do
  let offerHash ← digest c.toRosterCrypto x.base
  x.qr.code c offerHash x.trusted x.joining

/-- What the code is a hash of, for a current QR. -/
def input (x : Display) : Option Bytes := do
  let offer ← c.rosterJson x.base
  let qrJson ← c.qrJson x.qr
  let device ← c.descriptorJson x.joining
  return codeInput (c.sha256 qrJson) (c.hexEncode (c.sha256 (rosterContext ++ offer)))
    x.trusted.signingPublicKey device

/-- What the user confirms with a code. -/
def confirms (x : Display) : PairingQr × DeviceRoster × String × DeviceDescriptor :=
  (x.qr, x.base, x.trusted.signingPublicKey, x.joining)

/-- Two values, written out, have one hash. -/
def HashedAlike {α : Type} (write : α → Option Bytes) (a b : α) : Prop :=
  ∃ json json', write a = some json ∧ write b = some json' ∧ json ≠ json' ∧
    c.sha256 json = c.sha256 json'

/-- The hashes of two links collide: those of the QRs, of the offered rosters, or what is displayed
    of those of all. -/
inductive Clashes (x y : Display) : Prop
  | qr (h : HashedAlike c c.qrJson x.qr y.qr)
  | base (h : HashedAlike c (fun roster => (c.rosterJson roster).map (rosterContext ++ ·))
      x.base y.base)
  | code (input input' : Bytes) (hx : x.input c = some input) (hy : y.input c = some input')
      (hne : input ≠ input') (h : shortened c (c.sha256 input) = shortened c (c.sha256 input'))

end Display

/-- What a code covers is written in one way only: hashes are of one length, and so is the hex
    encoding of bytes of one length; JSON and hex tell all values apart. -/
structure Unambiguous : Prop where
  hash : ∀ bytes bytes', (c.sha256 bytes).length = (c.sha256 bytes').length
  hex : ∀ bytes bytes', bytes.length = bytes'.length →
    (textBytes (c.hexEncode bytes)).length = (textBytes (c.hexEncode bytes')).length
  encode : ∀ bytes bytes', c.hexEncode bytes = c.hexEncode bytes' → bytes = bytes'
  qr : ∀ qr qr' json, c.qrJson qr = some json → c.qrJson qr' = some json → qr = qr'
  device : ∀ d d' json, c.descriptorJson d = some json → c.descriptorJson d' = some json → d = d'
  roster : ∀ r r' json, c.rosterJson r = some json → c.rosterJson r' = some json → r = r'

variable {c}

theorem textBytes_inj {s t : String} (h : textBytes s = textBytes t) : s = t := by
  rw [← String.toByteArray_inj]
  exact ByteArray.ext (Array.toList_inj.1 h)

theorem digest_eq_ok {r : RosterCrypto Key Signature} {roster : DeviceRoster} {hash : String} :
    digest r roster = .ok hash ↔ ∃ json, r.rosterJson roster = some json ∧
      hash = r.hexEncode (r.sha256 (rosterContext ++ json)) := by
  rw [digest]
  rcases r.rosterJson roster with - | json
  · simp
  · simp [eq_comm]

/-- The key of a well-formed device is the hex encoding of 32 bytes. -/
theorem publicKey_bytes {r : RosterCrypto Key Signature} {hexKey : String} {key : Key}
    (h : publicKey r hexKey = .ok key) :
    ∃ bytes : Bytes, bytes.length = 32 ∧ r.hexEncode bytes = hexKey := by
  rw [publicKey] at h
  split at h
  · cases h
  · next bytes hdecode =>
    split at h
    · cases h
    · next hlength =>
      split at h
      · cases h
      · next key' hkey =>
        split at h
        · cases h
        · next hcanonical =>
          simp only [Bool.or_eq_true, decide_eq_true_eq, not_or, not_not] at hcanonical
          exact ⟨bytes, not_not.1 hlength, hcanonical.2⟩

namespace Display

theorem input_eq_some {x : Display} {input : Bytes} :
    x.input c = some input ↔ ∃ offer qrJson device, c.rosterJson x.base = some offer ∧
      c.qrJson x.qr = some qrJson ∧ c.descriptorJson x.joining = some device ∧
      codeInput (c.sha256 qrJson) (c.hexEncode (c.sha256 (rosterContext ++ offer)))
        x.trusted.signingPublicKey device = input := by
  simp [Display.input, Option.bind_eq_some_iff]

/-- The code of a current QR is a shortened hash of what it covers. -/
theorem code_eq_ok {x : Display} {code : String} (hcurrent : x.qr.isCurrent = true) :
    x.code c = .ok code ↔ ∃ input, x.input c = some input ∧
      shortened c (c.sha256 input) = code := by
  simp only [Display.code, PairingQr.code, PairingQr.digest, hcurrent, if_true, bind_eq_ok,
    digest_eq_ok, getOr_eq_ok, input_eq_some]
  constructor
  · rintro ⟨-, ⟨offer, hoffer, rfl⟩, -, ⟨qrJson, hqr, ⟨⟩⟩, device, hdevice, ⟨⟩⟩
    exact ⟨_, ⟨offer, qrJson, device, hoffer, hqr, hdevice, rfl⟩, rfl⟩
  · rintro ⟨-, ⟨offer, qrJson, device, hoffer, hqr, hdevice, rfl⟩, rfl⟩
    exact ⟨_, ⟨offer, hoffer, rfl⟩, _, ⟨qrJson, hqr, rfl⟩, device, hdevice, rfl⟩

/-- What is hashed tells its parts apart. -/
theorem codeInput_inj (hu : Unambiguous c)
    {qrJson qrJson' offer offer' key key' device device' : Bytes}
    (hkey : key.length = key'.length)
    (h : codeInput (c.sha256 qrJson) (c.hexEncode (c.sha256 offer)) (c.hexEncode key) device =
      codeInput (c.sha256 qrJson') (c.hexEncode (c.sha256 offer')) (c.hexEncode key') device') :
    c.sha256 qrJson = c.sha256 qrJson' ∧ c.sha256 offer = c.sha256 offer' ∧
      c.hexEncode key = c.hexEncode key' ∧ device = device' := by
  simp only [codeInput, List.append_assoc] at h
  obtain ⟨hqr, h⟩ := List.append_inj (List.append_cancel_left h) (hu.hash _ _)
  obtain ⟨hoffer, h⟩ := List.append_inj h (hu.hex _ _ (hu.hash _ _))
  obtain ⟨hkeys, hdevice⟩ := List.append_inj h (hu.hex _ _ hkey)
  exact ⟨hqr, hu.encode _ _ (textBytes_inj hoffer), textBytes_inj hkeys, hdevice⟩

/-- One code is of one link, as long as no hashes of the two agree. -/
theorem confirms_of_code (hu : Unambiguous c) {x y : Display} {code : String}
    (hx : x.code c = .ok code) (hy : y.code c = .ok code) (hxcurrent : x.qr.isCurrent = true)
    (hycurrent : y.qr.isCurrent = true) (hxvalid : x.trusted.validate c.toRosterCrypto = .ok ())
    (hyvalid : y.trusted.validate c.toRosterCrypto = .ok ()) :
    x.confirms = y.confirms ∨ Clashes c x y := by
  obtain ⟨input, hinput, hcode⟩ := (code_eq_ok hxcurrent).1 hx
  obtain ⟨input', hinput', hcode'⟩ := (code_eq_ok hycurrent).1 hy
  by_cases hsame : input = input'
  swap
  · exact .inr (.code _ _ hinput hinput' hsame (hcode.trans hcode'.symm))
  subst hsame
  obtain ⟨offer, qrJson, device, hoffer, hqr, hdevice, heq⟩ := input_eq_some.1 hinput
  obtain ⟨offer', qrJson', device', hoffer', hqr', hdevice', heq'⟩ := input_eq_some.1 hinput'
  obtain ⟨key, hkey, -⟩ := key_of_validate hxvalid
  obtain ⟨key', hkey', -⟩ := key_of_validate hyvalid
  obtain ⟨bytes, hlength, hxkey⟩ := publicKey_bytes hkey
  obtain ⟨bytes', hlength', hykey⟩ := publicKey_bytes hkey'
  -- all parts of the input are the same, and so are the values that they are written from
  rw [← heq', ← hxkey, ← hykey] at heq
  obtain ⟨hqrs, hbases, hkeys, rfl⟩ := codeInput_inj hu (hlength.trans hlength'.symm) heq
  by_cases hqrJson : qrJson = qrJson'
  swap
  · exact .inr (.qr ⟨qrJson, qrJson', hqr, hqr', hqrJson, hqrs⟩)
  by_cases hoffers : offer = offer'
  swap
  · exact .inr (.base ⟨_, _, congrArg _ hoffer, congrArg _ hoffer',
      fun h => hoffers (List.append_cancel_left h), hbases⟩)
  subst hqrJson hoffers
  left
  rw [confirms, confirms, hu.qr _ _ _ hqr hqr', hu.roster _ _ _ hoffer hoffer', ← hxkey, hkeys,
    hykey, hu.device _ _ _ hdevice hdevice']

end Display

end Codes

namespace Installation

variable (c : IdentityCrypto Key Signature Seed)

/-- What the code of the installation is for. -/
def display (s : Installation Seed) : Option Display :=
  match s.exchange with
  | some ⟨qr, some joining, .joining, some trusted, some base, _⟩ =>
    some ⟨qr, base, trusted, joining⟩
  | _ => none

theorem confirmationCode_eq (s : Installation Seed) :
    s.confirmationCode c = s.display.elim (.ok none) fun x => (x.code c.toLinkCrypto).map some := by
  rw [confirmationCode, display]
  rcases s.exchange with _ | ⟨qr, joining, role, trusted, base, packet⟩
  · rfl
  rcases joining with _ | joining <;> cases role <;> rcases trusted with _ | trusted <;>
    rcases base with _ | base <;> try rfl
  -- a code is displayed
  dsimp only [Option.elim_some, Display.code]
  rcases digest c.toRosterCrypto base with e | offerHash
  · rfl
  · change (qr.code c.toLinkCrypto offerHash trusted joining >>= fun code => .ok (some code)) =
      (qr.code c.toLinkCrypto offerHash trusted joining).map some
    rcases qr.code c.toLinkCrypto offerHash trusted joining with e | code <;> rfl

/-- A code is displayed for the exchange that goes on. -/
theorem display_eq_some {s : Installation Seed} {x : Display} (h : s.display = some x) :
    ∃ packet, s.exchange = some ⟨x.qr, some x.joining, .joining, some x.trusted, some x.base,
      packet⟩ := by
  rw [display] at h
  split at h
  · next heq =>
    obtain rfl := Option.some.inj h
    exact ⟨_, heq⟩
  · cases h

/-! ## What an installation signs -/

variable {ι : Type} (keys : ι → String) (shown : List (ι × Display))
  (signed : ι → List (PairingQr × LinkMessage))

/-- A QR that has been read. -/
def Scanned (qr : PairingQr) : Prop :=
  qr.isCurrent = true ∧ qr.device.validate c.toRosterCrypto = .ok ()

/-- An approval: the roster that was offered and the candidate, by the device that offers it, and
    the user has typed the code that some device displayed for just this. -/
def Approves (own : String) (qr : PairingQr) (roster : DeviceRoster) : Prop :=
  ∃ y entry, y.confirms = (qr, roster.dropLast, own, entry.device) ∧
    roster = roster.dropLast ++ [entry] ∧ entry.version = rosterVersion ∧
    ∃ j x, (j, x) ∈ shown ∧ (x.confirms = y.confirms ∨ x.Clashes c.toLinkCrypto y)

/-- A device joins what was approved for its own descriptor. -/
def JoinsApproved (own : String) (qr : PairingQr) (hash : String) : Prop :=
  ∃ base entry, digest c.toRosterCrypto (base ++ [entry]) = .ok hash ∧
    entry.version = rosterVersion ∧ entry.device.signingPublicKey = own ∧
    ∀ a, keys a = qr.device.signingPublicKey → (qr, .approved (base ++ [entry])) ∈ signed a

/-- What holds of an installation among others, as far as it links devices. -/
structure Pairs (peer own : String) (s : Installation Seed) : Prop where
  kept : Kept c peer s
  key : s.record.device.signingPublicKey = own
  joining : ∀ e ∈ s.exchange, e.role = .joining →
    Scanned c e.qr ∧ e.trusted = some e.qr.device
  pending : ∀ p ∈ s.record.pending, Scanned c p.qr ∧ p.trusted = p.qr.device
  approved : ∀ qr roster, (qr, .approved roster) ∈ s.signed → Approves c shown own qr roster
  acked : ∀ qr hash, (qr, .ack hash) ∈ s.signed → JoinsApproved c keys signed own qr hash
  /-- A QR that is shown has led to nothing yet. -/
  fresh : ∀ e ∈ s.exchange, e.role = .authorizing → ∀ qr roster,
    (qr, .approved roster) ∈ s.signed → qr.id ≠ e.qr.id
  unique : ∀ qr roster qr' roster', (qr, .approved roster) ∈ s.signed →
    (qr', .approved roster') ∈ s.signed → qr.id = qr'.id → (qr, roster) = (qr', roster')

/-- What the network and the user do. A packet that opens as signed by a device was signed by it,
    the user types a code that was displayed, and the id of a QR is drawn anew. -/
structure Admits (ev : Event Seed) (s : Installation Seed) : Prop where
  authentic : ∀ env packet, ev = .receive env packet → ∀ e ∈ s.exchange, ∀ a message,
    openPacket c.toLinkCrypto e.qr packet = .ok (keys a, message) → (e.qr, message) ∈ signed a
  confirmed : ∀ env code, ev = .approve env code → ∃ j x, (j, x) ∈ shown ∧
    x.code c.toLinkCrypto = .ok (normalizeCode code) ∧ Scanned c x.qr ∧ x.trusted = x.qr.device
  fresh : ∀ now id secret, ev = .beginLink now id secret → ∀ qr roster,
    (qr, .approved roster) ∈ s.signed → qr.id ≠ c.hexEncode id

variable {c keys shown signed} {peer own : String} {s s' : Installation Seed} {ev : Event Seed}

/-- Neither an approval nor the answer to one. -/
def Other (x : PairingQr × LinkMessage) : Prop :=
  (∀ roster, x.2 ≠ .approved roster) ∧ ∀ hash, x.2 ≠ .ack hash

/-- A change that signs neither an approval nor the answer to one. -/
theorem Pairs.of_signed (h : Pairs c keys shown signed peer own s) (hkept : Kept c peer s')
    (hkey : s'.record.device.signingPublicKey = s.record.device.signingPublicKey)
    (hjoining : ∀ e ∈ s'.exchange, e.role = .joining →
      Scanned c e.qr ∧ e.trusted = some e.qr.device)
    (hpending : ∀ p ∈ s'.record.pending, Scanned c p.qr ∧ p.trusted = p.qr.device)
    (hfresh : ∀ e ∈ s'.exchange, e.role = .authorizing → ∀ qr roster,
      (qr, .approved roster) ∈ s.signed → qr.id ≠ e.qr.id)
    (hsigned : ∀ x ∈ s'.signed, x ∈ s.signed ∨ Other x) :
    Pairs c keys shown signed peer own s' := by
  have happroved : ∀ qr roster, (qr, .approved roster) ∈ s'.signed →
      (qr, .approved roster) ∈ s.signed := fun qr roster hmem =>
    (hsigned _ hmem).resolve_right fun hother => hother.1 roster rfl
  have hacked : ∀ qr hash, (qr, .ack hash) ∈ s'.signed → (qr, .ack hash) ∈ s.signed :=
    fun qr hash hmem => (hsigned _ hmem).resolve_right fun hother => hother.2 hash rfl
  exact {
    kept := hkept
    key := hkey.trans h.key
    joining := hjoining
    pending := hpending
    approved := fun qr roster hmem => h.approved qr roster (happroved qr roster hmem)
    acked := fun qr hash hmem => h.acked qr hash (hacked qr hash hmem)
    fresh := fun e he hrole qr roster hmem => hfresh e he hrole qr roster
      (happroved qr roster hmem)
    unique := fun qr roster qr' roster' hmem hmem' => h.unique qr roster qr' roster'
      (happroved qr roster hmem) (happroved qr' roster' hmem') }

/-- A change that leaves or ends the exchange. -/
theorem Pairs.of_same (h : Pairs c keys shown signed peer own s) (hkept : Kept c peer s')
    (hdevice : s'.record.device.signingPublicKey = s.record.device.signingPublicKey)
    (hexchange : s'.exchange = s.exchange ∨ s'.exchange = none)
    (hpending : s'.record.pending = s.record.pending ∨ s'.record.pending = none)
    (hsigned : s'.signed = s.signed ∨ ∃ qr, s'.signed = s.signed ++ [(qr, .rejected)]) :
    Pairs c keys shown signed peer own s' := by
  have hexchange' : ∀ e ∈ s'.exchange, e ∈ s.exchange := by
    intro e he
    obtain heq | hnone := hexchange
    · exact heq ▸ he
    · rw [hnone] at he
      cases he
  refine h.of_signed hkept hdevice (fun e he => h.joining e (hexchange' e he)) (fun p hp => ?_)
    (fun e he => h.fresh e (hexchange' e he)) fun x hx => ?_
  · obtain heq | hnone := hpending
    · exact h.pending p (heq ▸ hp)
    · rw [hnone] at hp
      cases hp
  · obtain heq | ⟨qr, heq⟩ := hsigned
    · exact .inl (heq ▸ hx)
    · rw [heq] at hx
      obtain hx | hx := List.mem_append.1 hx
      · exact .inl hx
      · rw [List.mem_singleton.1 hx]
        exact .inr ⟨fun _ h => (by cases h), fun _ h => (by cases h)⟩

/-- One more message is signed. -/
theorem mem_or_other {l : List (PairingQr × LinkMessage)} {qr : PairingQr} {message : LinkMessage}
    (hother : Other (qr, message)) : ∀ x ∈ l ++ [(qr, message)], x ∈ l ∨ Other x := by
  intro x hx
  obtain hx | hx := List.mem_append.1 hx
  · exact .inl hx
  · rw [List.mem_singleton.1 hx]
    exact .inr hother

theorem trusted_of_checkOffer {e : Exchange} {signer : String} {roster : DeviceRoster}
    {trusted : DeviceDescriptor} {joining : Option DeviceDescriptor}
    (hcurrent : e.qr.isCurrent = true)
    (h : e.checkOffer c signer roster trusted joining = .ok ()) : trusted = e.qr.device := by
  simp only [Exchange.checkOffer, bind_eq_ok, getOr_eq_ok, check_eq_ok, decide_eq_true_eq] at h
  obtain ⟨devices, -, candidate, -, pinned, hpinned, -, ⟨-, rfl, -⟩, -⟩ := h
  rw [Exchange.pinned, if_pos hcurrent] at hpinned
  exact (Except.ok.inj hpinned).symm

theorem scanned_of_parse {uri : String} {now : Nat} {qr : PairingQr}
    (h : PairingQr.parse c.toLinkCrypto uri now = .ok qr) : Scanned c qr := by
  simp only [PairingQr.parse, PairingQr.validate, PairingQr.validateStored, bind_eq_ok,
    check_eq_ok, orError_eq_ok] at h
  obtain ⟨-, -, -, -, bytes, -, qr', -, -, ⟨-, hcurrent, ⟨⟩, ⟨-, -, hdevice⟩, -⟩, heq⟩ := h
  obtain rfl := Except.ok.inj heq
  exact ⟨hcurrent, hdevice⟩

theorem signed_eq_ok {l : LinkCrypto Key Signature Seed} {version : Nat} {parent : Option String}
    {signer : String} {device : DeviceDescriptor} {seed : Seed} {entry : Authorization}
    (h : Authorization.signed l version parent signer device seed = .ok entry) :
    entry.version = version ∧ entry.device = device := by
  rw [Authorization.signed, bind_eq_ok] at h
  obtain ⟨bytes, -, h⟩ := h
  obtain rfl := Except.ok.inj h
  exact ⟨rfl, rfl⟩

theorem verifiesAddition_last {r : RosterCrypto Key Signature} {roster base : DeviceRoster}
    {device : DeviceDescriptor} {signer : String}
    (h : roster.verifiesAddition r base device signer = .ok ()) :
    ∃ entry, roster = roster.dropLast ++ [entry] ∧ entry.version = rosterVersion ∧
      entry.device = device := by
  simp only [DeviceRoster.verifiesAddition, bind_eq_ok, getOr_eq_ok, check_eq_ok,
    decide_eq_true_eq] at h
  obtain ⟨devices, -, last, hlast, parent, -, expected, -, hversion, -, hdevice, -⟩ := h
  obtain ⟨init, rfl⟩ := List.getLast?_eq_some_iff.1 hlast
  exact ⟨last, by rw [List.dropLast_concat], hversion, hdevice⟩

theorem Pairs.effect (hc : Readable c) (hu : Unambiguous c.toLinkCrypto)
    (h : Pairs c keys shown signed peer own s)
    (hadmits : Admits c keys shown signed ev s) (heffect : Effect c ev s s') :
    Pairs c keys shown signed peer own s' := by
  have hkept := h.kept.effect hc heffect
  cases heffect with
  | quiet | tabled | otherRead | otherAdopted | readied | acked | certified | removed =>
    exact h.of_same hkept rfl (.inl rfl) (.inl rfl) (.inl rfl)
  | delivered => exact h.of_same hkept rfl (.inl rfl) (.inl rfl) (.inl rfl)
  | dropped | cancelled => exact h.of_same hkept rfl (.inr rfl) (.inl rfl) (.inl rfl)
  | reloaded seed identity _ hopen =>
    rw [h.kept.valid.peer] at hopen
    obtain ⟨-, -, -, hbehind⟩ := h.kept.reopen hopen
    exact h.of_same hkept (congrArg DeviceDescriptor.signingPublicKey hbehind.device) (.inl rfl)
      hbehind.pending (.inl rfl)
  | failed e kind now bytes sgn sent he hwhy hsigned =>
    exact h.of_same hkept rfl (.inr rfl) (.inr rfl) (hsigned.imp_right fun heq => ⟨e.qr, heq⟩)
  | adopted env packet body notice sender record bytes hev hstrip hopen hack hextends hrecord =>
    obtain ⟨hdevice, -, -⟩ := withRoster_fields hrecord
    refine h.of_same hkept (congrArg DeviceDescriptor.signingPublicKey hdevice) (.inl rfl) ?_
      (.inl rfl)
    obtain ⟨devices, -, ⟨-, rfl⟩ | ⟨-, rfl⟩⟩ := withRoster_eq_ok.1 hrecord
    · exact .inl rfl
    · exact .inr rfl
  | prepared | renamed => exact h.of_same hkept rfl (.inl rfl) (.inr rfl) (.inl rfl)
  | froze env packet e device devices sealed hev he hrole =>
    refine h.of_signed hkept rfl (fun e' he' hjoins => ?_) h.pending (fun e' he' _ => ?_)
      (mem_or_other ⟨fun _ h => (by cases h), fun _ h => (by cases h)⟩)
    · obtain rfl := Option.some.inj he'
      cases hrole.symm.trans hjoins
    · obtain rfl := Option.some.inj he'
      exact h.fresh e he hrole
  | offered env packet e signer roster trusted joining offerHash sealed identity row hev he hrole
      hopen hcheck hremoval hhash hsealed hsave =>
    obtain ⟨hcurrent, -⟩ := h.joining e he hrole
    have htrusted : trusted = e.qr.device := trusted_of_checkOffer hcurrent.1 hcheck
    obtain ⟨hkey, hpending⟩ : identity.record.device = s.record.device ∧
        ∀ p ∈ identity.record.pending, Scanned c p.qr ∧ p.trusted = p.qr.device := by
      obtain ⟨-, rfl, -⟩ | ⟨-, bytes, -, rfl, -⟩ := hsave
      · exact ⟨rfl, h.pending⟩
      · refine ⟨rfl, fun p hp => ?_⟩
        obtain rfl := Option.some.inj hp
        exact ⟨hcurrent, htrusted⟩
    refine h.of_signed hkept (congrArg DeviceDescriptor.signingPublicKey hkey)
      (fun e' he' _ => ?_) hpending (fun e' he' hauthorizes => ?_)
      (mem_or_other ⟨fun _ h => (by cases h), fun _ h => (by cases h)⟩)
    · obtain rfl := Option.some.inj he'
      exact ⟨hcurrent, congrArg some htrusted⟩
    · obtain rfl := Option.some.inj he'
      cases hrole.symm.trans hauthorizes
  | joined env packet e roster trusted joining base hash adopted canJoin sealed bytes sent hev he
      hrole hopen htrusted hbase hjoining hadds hhash =>
    obtain ⟨-, hdevice⟩ := h.joining e he hrole
    have hqr : trusted = e.qr.device := Option.some.inj (htrusted.symm.trans hdevice)
    have hown : joining = s.record.device :=
      Option.some.inj (hjoining.symm.trans ((h.kept.link.fits e he).joining hrole))
    refine ⟨hkept, h.key, fun _ he' => (by cases he'), fun _ hp => (by cases hp),
      fun qr roster' hmem => ?_, fun qr hash' hmem => ?_, fun _ he' => (by cases he'),
      fun qr roster qr' roster' hmem hmem' => ?_⟩
    · exact h.approved qr roster' ((List.mem_append.1 hmem).resolve_right fun h => by simp at h)
    · obtain hmem | hmem := List.mem_append.1 hmem
      · exact h.acked qr hash' hmem
      · obtain ⟨rfl, hmessage⟩ := Prod.mk.inj (List.mem_singleton.1 hmem)
        obtain rfl := LinkMessage.ack.inj hmessage
        obtain ⟨entry, hroster, hversion, hentry⟩ := verifiesAddition_last hadds
        refine ⟨roster.dropLast, entry, ?_, hversion, ?_, fun a ha => ?_⟩
        · rw [← hroster]
          exact hhash
        · rw [hentry, hown]
          exact h.key
        · rw [← hroster]
          refine hadmits.authentic env packet hev e he a _ ?_
          rw [ha, ← hqr]
          exact hopen
    · exact h.unique qr roster qr' roster'
        ((List.mem_append.1 hmem).resolve_right fun h => by simp at h)
        ((List.mem_append.1 hmem').resolve_right fun h => by simp at h)
  | begun now id secret hev he =>
    refine h.of_signed hkept rfl (fun e' he' hjoins => ?_) h.pending (fun e' he' _ => ?_)
      fun x hx => .inl hx
    · obtain rfl := Option.some.inj he'
      cases hjoins
    · obtain rfl := Option.some.inj he'
      exact hadmits.fresh now id secret hev
  | asked env uri typed qr sealed hev he hdelivery hpending hqr =>
    refine h.of_signed hkept rfl (fun e' he' _ => ?_) h.pending (fun e' he' hauthorizes => ?_)
      (mem_or_other ⟨fun _ h => (by cases h), fun _ h => (by cases h)⟩)
    · obtain rfl := Option.some.inj he'
      exact ⟨scanned_of_parse hqr, rfl⟩
    · obtain rfl := Option.some.inj he'
      cases hauthorizes
  | granted env code e base joining offerHash rosterHash roster sealed bytes hev he hrole hbase
      hjoining hoffer hcode hown hextend =>
    obtain ⟨parent, entry, -, hentry, hroster, -⟩ := extend_eq_ok hextend
    obtain ⟨hversion, hdevice⟩ := signed_eq_ok hentry
    obtain ⟨-, hcurrent, -⟩ := (h.kept.link.fits e he).authorizing hrole
    have hnew : Approves c shown own e.qr roster := by
      obtain ⟨j, x, hx, hxcode, ⟨hxcurrent, hxvalid⟩, hxtrusted⟩ := hadmits.confirmed env code hev
      -- the code that the installation expects is the one that was displayed
      have hycode : Display.code c.toLinkCrypto ⟨e.qr, base, s.record.device, joining⟩ =
          .ok (normalizeCode code) := by
        rw [Display.code, bind_eq_ok]
        exact ⟨offerHash, hoffer, hcode⟩
      have hroster' : roster.dropLast = base := by
        rw [hroster, List.dropLast_concat]
      refine ⟨⟨e.qr, base, s.record.device, joining⟩, entry, ?_, ?_, hversion, j, x, hx, ?_⟩
      · rw [hdevice, hroster', ← h.key]
        rfl
      · rw [hroster']
        exact hroster
      · exact Display.confirms_of_code hu hxcode hycode hxcurrent hcurrent (hxtrusted ▸ hxvalid)
          (validate_of_known h.kept.valid.known).2
    have hcases : ∀ qr roster', (qr, .approved roster') ∈ s.signed ++ [(e.qr, .approved roster)] →
        (qr, .approved roster') ∈ s.signed ∨ (qr, roster') = (e.qr, roster) := by
      intro qr roster' hmem
      obtain hmem | hmem := List.mem_append.1 hmem
      · exact .inl hmem
      · obtain ⟨rfl, hmessage⟩ := Prod.mk.inj (List.mem_singleton.1 hmem)
        exact .inr (congrArg (Prod.mk _) (LinkMessage.approved.inj hmessage))
    refine ⟨hkept, h.key, fun _ he' => (by cases he'), h.pending, fun qr roster' hmem => ?_,
      fun qr hash' hmem => ?_, fun _ he' => (by cases he'),
      fun qr roster₁ qr' roster₂ hmem hmem' hid => ?_⟩
    · obtain hmem | heq := hcases qr roster' hmem
      · exact h.approved qr roster' hmem
      · obtain ⟨rfl, rfl⟩ := Prod.mk.inj heq
        exact hnew
    · exact h.acked qr hash' ((List.mem_append.1 hmem).resolve_right fun h => by simp at h)
    · obtain hmem | heq := hcases qr roster₁ hmem
      · obtain hmem' | heq' := hcases qr' roster₂ hmem'
        · exact h.unique qr roster₁ qr' roster₂ hmem hmem' hid
        · obtain ⟨rfl, -⟩ := Prod.mk.inj heq'
          exact absurd hid (h.fresh e he hrole qr roster₁ hmem)
      · obtain hmem' | heq' := hcases qr' roster₂ hmem'
        · obtain ⟨rfl, -⟩ := Prod.mk.inj heq
          exact absurd hid.symm (h.fresh e he hrole qr' roster₂ hmem')
        · exact heq.trans heq'.symm
  | restarted env seed identity resumed hev hopen hresumed =>
    rw [h.kept.own] at hopen
    obtain ⟨-, -, -, hbehind⟩ := h.kept.reopen hopen
    have hpending : ∀ p ∈ identity.record.pending, Scanned c p.qr ∧ p.trusted = p.qr.device := by
      intro p hp
      obtain heq | hnone := hbehind.pending
      · exact h.pending p (heq ▸ hp)
      · rw [hnone] at hp
        cases hp
    obtain ⟨-, rfl⟩ | ⟨p, e, message, hp, rfl, hresume⟩ := resumed_cases hresumed
    · refine h.of_signed hkept (congrArg DeviceDescriptor.signingPublicKey hbehind.device)
        (fun _ he' => (by cases he')) hpending (fun _ he' => (by cases he')) fun x hx => ?_
      exact .inl (by simpa using hx)
    · obtain ⟨hqr, -, hrole, htrusted, -, offerHash, -, rfl⟩ := Exchange.resume_eq_ok hresume
      obtain ⟨hcurrent, hdevice⟩ := hpending p hp
      refine h.of_signed hkept (congrArg DeviceDescriptor.signingPublicKey hbehind.device)
        (fun e' he' _ => ?_) hpending (fun e' he' hauthorizes => ?_)
        (mem_or_other ⟨fun _ h => (by cases h), fun _ h => (by cases h)⟩)
      · obtain rfl := Option.some.inj he'
        rw [hqr, htrusted, hdevice]
        exact ⟨hcurrent, rfl⟩
      · obtain rfl := Option.some.inj he'
        cases hrole.symm.trans hauthorizes

/-! ## Events -/

/-- What is received goes to the exchange there is. -/
theorem qr_of_receive {env : Env} {packet : Bytes} (h : Effect c (.receive env packet) s s')
    {e' : Exchange} (he' : e' ∈ s'.exchange) : ∃ e ∈ s.exchange, e'.qr = e.qr := by
  cases h with
  | quiet | tabled | otherRead | otherAdopted | delivered | readied | acked | adopted | certified |
    removed | renamed | reloaded | prepared => exact ⟨e', he', rfl⟩
  | dropped | failed | cancelled | joined | granted => cases he'
  | froze _ _ e _ _ _ _ he => exact ⟨e, he, Option.some.inj he' ▸ rfl⟩
  | offered _ _ e _ _ _ _ _ _ _ _ _ he => exact ⟨e, he, Option.some.inj he' ▸ rfl⟩
  | begun now id secret hev => cases hev
  | asked env uri typed qr sealed hev => cases hev
  | restarted env seed identity resumed hev => cases hev

/-- Nothing is signed for a QR that is shown. -/
theorem signed_of_beginLink {now : Nat} {id secret : Bytes}
    (h : Effect c (.beginLink now id secret) s s') : s'.signed = s.signed := by
  cases h with
  | failed e kind now' bytes sgn sent he hwhy => cases hwhy
  | froze env packet e device devices sealed hev => cases hev
  | offered env packet e signer roster trusted joining offerHash sealed identity row hev =>
    cases hev
  | joined env packet e roster trusted joining base hash adopted canJoin sealed bytes sent hev =>
    cases hev
  | asked env uri typed qr sealed hev => cases hev
  | granted env code e base joining offerHash rosterHash roster sealed bytes hev => cases hev
  | restarted env seed identity resumed hev => cases hev
  | _ => rfl

/-- What is signed stays signed. -/
theorem signed_effect (h : Effect c ev s s') : ∀ x ∈ s.signed, x ∈ s'.signed := by
  intro x hx
  cases h with
  | failed e kind now bytes sgn sent he hwhy hsigned =>
    obtain rfl | rfl := hsigned
    · exact hx
    · exact List.mem_append_left _ hx
  | froze | offered | joined | asked | granted | restarted => exact List.mem_append_left _ hx
  | _ => exact hx

theorem signed_step (c : IdentityCrypto Key Signature Seed) (s : Installation Seed)
    (ev : Event Seed) : ∀ x ∈ s.signed, x ∈ (s.step c ev).signed :=
  (step_effects s ev).invariant (P := fun t => ∀ x ∈ s.signed, x ∈ t.signed)
    (fun _ _ heffect h x hx => signed_effect heffect x (h x hx)) fun _ hx => hx

theorem Admits.effect (h : Admits c keys shown signed ev s) (heffect : Effect c ev s s') :
    Admits c keys shown signed ev s' where
  authentic env packet hev e' he' := by
    subst hev
    obtain ⟨e, he, hqr⟩ := qr_of_receive heffect he'
    rw [hqr]
    exact h.authentic env packet rfl e he
  confirmed := h.confirmed
  fresh now id secret hev := by
    subst hev
    rw [signed_of_beginLink heffect]
    exact h.fresh now id secret rfl

theorem Pairs.step (hc : Readable c) (hu : Unambiguous c.toLinkCrypto)
    (h : Pairs c keys shown signed peer own s) (hadmits : Admits c keys shown signed ev s) :
    Pairs c keys shown signed peer own (s.step c ev) :=
  ((step_effects s ev).invariant
    (P := fun t => Pairs c keys shown signed peer own t ∧ Admits c keys shown signed ev t)
    (fun _ _ heffect ht => ⟨ht.1.effect hc hu ht.2 heffect, ht.2.effect heffect⟩)
    ⟨h, hadmits⟩).1

/-- What more is displayed and signed elsewhere does not matter. -/
theorem Pairs.mono (h : Pairs c keys shown signed peer own s) {shown' : List (ι × Display)}
    {signed' : ι → List (PairingQr × LinkMessage)} (hshown : ∀ x ∈ shown, x ∈ shown')
    (hsigned : ∀ a, ∀ x ∈ signed a, x ∈ signed' a) : Pairs c keys shown' signed' peer own s :=
  { h with
    approved := fun qr roster hmem => by
      obtain ⟨y, entry, hy, hroster, hversion, j, x, hx, hsame⟩ := h.approved qr roster hmem
      exact ⟨y, entry, hy, hroster, hversion, j, x, hshown _ hx, hsame⟩
    acked := fun qr hash hmem => by
      obtain ⟨base, entry, hhash, hversion, hkey, happroved⟩ := h.acked qr hash hmem
      exact ⟨base, entry, hhash, hversion, hkey, fun a ha => hsigned a _ (happroved a ha)⟩ }

/-- At the first start nothing has been signed. -/
theorem signed_start (hc : Readable c) {env : Env} {tables : Tables} {seed : Seed}
    (h : start c env peer none tables seed [] [] = .ok s) : s.signed = [] := by
  simp only [start, DeviceIdentity.open, DeviceIdentity.readOrInitialize, bind_eq_ok,
    getOr_eq_ok] at h
  obtain ⟨identity, ⟨persisted, ⟨candidate, hcandidate, hjson⟩, record, hrecord, ⟨⟩, -, heq⟩,
    resumed, hresumed, hexpire⟩ := h
  cases heq
  obtain rfl := Option.some.inj ((hc candidate persisted hjson).symm.trans hrecord)
  simp only [DeviceIdentity.initial, bind_eq_ok] at hcandidate
  obtain ⟨roster, -, heq⟩ := hcandidate
  cases heq
  cases hresumed
  cases hexpire
  rfl

end Installation

open Installation

/-! ## Installations that are linked -/

/-- Installations, and the codes that they have displayed, with what they were for. -/
structure Parties (ι Seed : Type) where
  installation : ι → Installation Seed
  shown : List (ι × Display)

namespace Parties

variable {ι : Type} [DecidableEq ι] (c : IdentityCrypto Key Signature Seed)

def signed (w : Parties ι Seed) (d : ι) : List (PairingQr × LinkMessage) :=
  (w.installation d).signed

/-- The key of an installation, as it is written. -/
def key (w : Parties ι Seed) (d : ι) : String := (w.installation d).record.device.signingPublicKey

/-- Something happens at an installation, which then displays its code. -/
def step (w : Parties ι Seed) (a : ι × Event Seed) : Parties ι Seed :=
  let s := (w.installation a.1).step c a.2
  ⟨Function.update w.installation a.1 s, w.shown ++ (s.display.map (a.1, ·)).toList⟩

/-- What the network, the users and chance may do. A packet that opens as signed by an
    installation, for the QR of the exchange, was signed by it; a user types a code only if an
    installation displays it; and a QR gets an id that no approval was given under. -/
structure Paired (w : Parties ι Seed) (a : ι × Event Seed) : Prop where
  authentic : ∀ env packet, a.2 = .receive env packet → ∀ e ∈ (w.installation a.1).exchange,
    ∀ d message, openPacket c.toLinkCrypto e.qr packet = .ok (w.key d, message) →
      (e.qr, message) ∈ w.signed d
  confirmed : ∀ env code, a.2 = .approve env code → ∃ j x, (j, x) ∈ w.shown ∧
    x.code c.toLinkCrypto = .ok (normalizeCode code)
  fresh : ∀ now id secret, a.2 = .beginLink now id secret → ∀ qr roster,
    (qr, .approved roster) ∈ w.signed a.1 → qr.id ≠ c.hexEncode id

/-- All installations link devices as they should, and display what they join with. -/
structure Pairing (peer keys : ι → String) (w : Parties ι Seed) : Prop where
  pairs : ∀ d, Pairs c keys w.shown w.signed (peer d) (keys d) (w.installation d)
  shown : ∀ j x, (j, x) ∈ w.shown → Scanned c x.qr ∧ x.trusted = x.qr.device ∧
    x.joining.signingPublicKey = keys j

variable {c} {peer keys : ι → String} {w w₀ : Parties ι Seed} {a : ι × Event Seed}

theorem signed_step (w : Parties ι Seed) (d : ι) :
    ∀ x ∈ w.signed d, x ∈ (w.step c a).signed d := by
  intro x hx
  change x ∈ (Function.update w.installation a.1 ((w.installation a.1).step c a.2) d).signed
  rw [Function.update_apply]
  split
  · next heq =>
    subst heq
    exact Installation.signed_step c _ _ x hx
  · exact hx

theorem Pairing.step (hc : Readable c) (hu : Unambiguous c.toLinkCrypto)
    (h : w.Pairing c peer keys) (hpaired : w.Paired c a) :
    (w.step c a).Pairing c peer keys := by
  obtain ⟨d, ev⟩ := a
  have hadmits : Admits c keys w.shown w.signed ev (w.installation d) := {
    authentic := fun env packet hev e he b message hopen =>
      hpaired.authentic env packet hev e he b message (by
        rw [Parties.key, (h.pairs b).key]
        exact hopen)
    confirmed := fun env code hev => by
      obtain ⟨j, x, hx, hcode⟩ := hpaired.confirmed env code hev
      obtain ⟨hscanned, htrusted, -⟩ := h.shown j x hx
      exact ⟨j, x, hx, hcode, hscanned, htrusted⟩
    fresh := hpaired.fresh }
  have hnew := (h.pairs d).step hc hu hadmits
  set s := (w.installation d).step c ev with hs
  refine ⟨fun e => ?_, fun j x hx => ?_⟩
  · have hinstallation : Pairs c keys w.shown w.signed (peer e) (keys e)
        (Function.update w.installation d s e) := by
      rw [Function.update_apply]
      split
      · next heq =>
        subst heq
        exact hnew
      · exact h.pairs e
    exact hinstallation.mono (fun x hx => List.mem_append_left _ hx) fun a => signed_step w a
  · obtain hx | hx := List.mem_append.1 hx
    · exact h.shown j x hx
    · obtain ⟨y, hy, heq⟩ := Option.map_eq_some_iff.1 (Option.mem_toList.1 hx)
      obtain ⟨rfl, rfl⟩ := Prod.mk.inj heq
      -- the code is displayed for the exchange, in which the installation itself joins
      obtain ⟨packet, he⟩ := display_eq_some hy
      obtain ⟨hscanned, htrusted⟩ := hnew.joining _ he rfl
      have hown := (hnew.kept.link.fits _ he).joining rfl
      refine ⟨hscanned, Option.some.inj htrusted, ?_⟩
      rw [Option.some.inj hown]
      exact hnew.key

theorem Pairing.run (hc : Readable c) (hu : Unambiguous c.toLinkCrypto)
    {events : List (ι × Event Seed)} (h : w₀.Pairing c peer keys)
    (hrun : Runs (Parties.step c) (Paired c) w₀ events w) : w.Pairing c peer keys := by
  induction hrun with
  | nil => exact h
  | cons hpaired _ ih => exact ih (h.step hc hu hpaired)

/-- Installations that have started for the first time. -/
structure Started (c : IdentityCrypto Key Signature Seed) (peer : ι → String)
    (w : Parties ι Seed) : Prop where
  start : ∀ d, ∃ env tables seed,
    start c env (peer d) none tables seed [] [] = .ok (w.installation d)
  shown : w.shown = []

omit [DecidableEq ι] in
theorem Started.pairing (hc : Readable c) (h : w.Started c peer) : w.Pairing c peer w.key where
  pairs d := by
    obtain ⟨env, tables, seed, hstart⟩ := h.start d
    obtain ⟨-, -, hpending, hexchange⟩ := start_none hc hstart
    have hsigned := signed_start hc hstart
    refine ⟨start_kept hc hstart, rfl, fun e he => ?_, fun p hp => ?_, fun qr roster hmem => ?_,
      fun qr hash hmem => ?_, fun e he => ?_, fun qr roster qr' roster' hmem => ?_⟩
    · cases hexchange ▸ he
    · cases hpending ▸ hp
    · cases hsigned ▸ hmem
    · cases hsigned ▸ hmem
    · cases hexchange ▸ he
    · cases hsigned ▸ hmem
  shown j x hx := by
    rw [h.shown] at hx
    cases hx

end Parties

open Parties

/-- The encoding of text of hex digits has a byte for each. -/
theorem length_textBytes_hexText (bytes : Bytes) :
    (textBytes (hexText bytes)).length = 2 * bytes.length := by
  have hdigit : ∀ n : Nat, n < 16 → (String.utf8EncodeChar (hexDigit n)).length = 1 := by decide
  have hbytes : textBytes (hexText bytes) = (bytes.flatMap fun b =>
      [hexDigit (b.toNat / 16), hexDigit (b.toNat % 16)]).flatMap String.utf8EncodeChar := by
    simp [textBytes, hexText, List.utf8Encode]
  rw [hbytes]
  clear hbytes
  induction bytes with
  | nil => rfl
  | cons b bytes ih =>
    have hb := b.toNat_lt
    rw [List.flatMap_cons, List.flatMap_append, List.length_append, ih, List.length_cons]
    simp only [List.flatMap_cons, List.flatMap_nil, List.append_nil, List.length_append]
    rw [hdigit _ (by omega), hdigit _ (by omega)]
    omega

theorem linkCrypto_unambiguous : Unambiguous (linkCrypto checksum).toLinkCrypto where
  hash _ _ := rfl
  hex bytes bytes' h := by
    change (textBytes (hexText bytes)).length = (textBytes (hexText bytes')).length
    rw [length_textBytes_hexText, length_textBytes_hexText, h]
  encode _ _ := hexText_inj
  qr _ _ _ h h' := Text.qr.packed_inj (Option.some.inj (h.trans h'.symm))
  device _ _ _ h h' := Text.descriptor.packed_inj (Option.some.inj (h.trans h'.symm))
  roster _ _ _ h h' := Text.roster.packed_inj (Option.some.inj (h.trans h'.symm))

namespace Parties

/-- Whether the network, the users and chance may do it. -/
def mayDo (w : Parties Bool UInt8) (a : Bool × Event UInt8) : Bool :=
  match a.2 with
  | .receive _ packet => (w.installation a.1).exchange.all fun e =>
      (openPacket (linkCrypto checksum).toLinkCrypto e.qr packet).toOption.all fun opened =>
        [true, false].all fun d => opened.1 = w.key d → (e.qr, opened.2) ∈ w.signed d
  | .approve _ code => w.shown.any fun x =>
      (x.2.code (linkCrypto checksum).toLinkCrypto).toOption = some (normalizeCode code)
  | .beginLink _ id _ => (w.signed a.1).all fun x => x.1.id ≠ (linkCrypto checksum).hexEncode id
  | _ => true

theorem paired_of_mayDo {w : Parties Bool UInt8} {a : Bool × Event UInt8} (h : w.mayDo a = true) :
    w.Paired (linkCrypto checksum) a where
  authentic env packet hev e he d message hopen := by
    rw [mayDo, hev] at h
    have hall := Option.all_eq_true _ _ |>.1 h e he
    rw [hopen] at hall
    have hd := List.all_eq_true.1 hall d (by cases d <;> simp)
    exact of_decide_eq_true hd rfl
  confirmed env code hev := by
    rw [mayDo, hev] at h
    obtain ⟨x, hx, hcode⟩ := List.any_eq_true.1 h
    exact ⟨x.1, x.2, hx, eq_ok_of_toOption (of_decide_eq_true hcode)⟩
  fresh now id secret hev qr roster hmem := by
    rw [mayDo, hev] at h
    exact of_decide_eq_true (List.all_eq_true.1 h _ hmem)

/-- Whether they may do one thing after the other. -/
def mayDoAll (w : Parties Bool UInt8) : List (Bool × Event UInt8) → Bool
  | [] => true
  | a :: events => w.mayDo a && (w.step (linkCrypto checksum) a).mayDoAll events

theorem runs_of_mayDoAll {w : Parties Bool UInt8} {events : List (Bool × Event UInt8)}
    (h : w.mayDoAll events = true) :
    Runs (Parties.step (linkCrypto checksum)) (Paired (linkCrypto checksum)) w events
      (events.foldl (Parties.step (linkCrypto checksum)) w) := by
  induction events generalizing w with
  | nil => exact .nil w
  | cons a events ih =>
    obtain ⟨ha, hevents⟩ := Bool.and_eq_true_iff.1 h
    exact .cons (paired_of_mayDo ha) (ih hevents)

end Parties

/-- The first installation links the second one, and each receives what the other one sends. -/
def samplePairing : List (Bool × Event UInt8) :=
  [(true, .beginLink 0 (List.replicate 16 1) (List.replicate 32 7)),
    (false, .joinLink (sampleEnv 1) (sampleUri 0 1) ""),
    (true, .receive (sampleEnv 2) (samplePacket checksum 2 (.join (sampleDevice checksum 2)))),
    (false, .receive (sampleEnv 3) (samplePacket checksum 1 (.offer (sampleRoster checksum)
      (sampleDevice checksum 1) (some (sampleDevice checksum 2))))),
    (true, .receive (sampleEnv 4) (samplePacket checksum 2
      (.ready (sampleDigest checksum (sampleRoster checksum))))),
    (true, .approve (sampleEnv 5) (sampleCode checksum)),
    (false, .receive (sampleEnv 6) (samplePacket checksum 1 (.approved (samplePair checksum))))]

/-- The two installations, before anything happens. -/
def startedParties (first second : Installation UInt8) : Parties Bool UInt8 where
  installation d := if d then first else second
  shown := []

/-- The two after all of it. -/
def pairedParties (first second : Installation UInt8) : Parties Bool UInt8 :=
  samplePairing.foldl (Parties.step (linkCrypto checksum)) (startedParties first second)

set_option maxRecDepth 100000 in
theorem samplePairing_happens : (sampleStart checksum 1).toOption.any (fun first =>
    (sampleStart checksum 2).toOption.any fun second =>
      (startedParties first second).mayDoAll samplePairing &&
      decide ((sampleQr checksum 0 1, .approved (samplePair checksum)) ∈
        (pairedParties first second).signed true) &&
      decide ((sampleQr checksum 0 1, .ack (sampleDigest checksum (samplePair checksum))) ∈
        (pairedParties first second).signed false)) = true := by
  decide +kernel

end Mosh.DeviceLink
