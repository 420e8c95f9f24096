import Mosh.DeviceLink.Identity
import Mosh.Library.Format

/-!
# Cryptography to try links on

A link that is looked at in detail needs cryptography that can be computed. Here a signature is
the key with a checksum of what it signs, an encrypted packet is the plain one with a checksum
of the secret, and every value is written field after field. The hash is a parameter: with a
checksum the texts stay short, and without any hash at all no two values are confused.

* `linkCrypto`: this cryptography, and `sampleDevice`, `sampleQr` what it makes of installations;
* `linkCrypto_readable`: a record that is written can be read;
* `linkCrypto_collisionless`: with a hash that tells all values apart, such as `shortHash`, every
  roster has a digest of its own.
-/

namespace Mosh.DeviceLink

namespace Text

def bool : Format Bool :=
  Format.number.through (fun b => if b then 1 else 0) (fun n => some (n ≠ 0)) fun b => by cases b <;> rfl

def descriptor : Format DeviceDescriptor :=
  (Format.word.pair (Format.word.pair (Format.word.pair Format.word))).through
    (fun d => (d.deviceId, d.signingPublicKey, d.mossPeerId, d.name))
    (fun (a, b, d, e) => some ⟨a, b, d, e⟩) fun _ => rfl

def authorization : Format Authorization :=
  (Format.number.pair (Format.word.option.pair (Format.word.pair (descriptor.pair
    Format.word)))).through
    (fun e => (e.version, e.parent, e.signer, e.device, e.signature))
    (fun (a, b, d, e, f) => some ⟨a, b, d, e, f⟩) fun _ => rfl

def roster : Format DeviceRoster := authorization.list

def qr : Format PairingQr :=
  (Format.number.pair (Format.word.pair (Format.number.pair (descriptor.pair Format.octets)))).through
    (fun q => (q.version, q.id, q.expiresAt, q.device, q.secret))
    (fun (a, b, d, e, f) => some ⟨a, b, d, e, f⟩) fun _ => rfl

/-- The kind of a message, and all that a message may have. -/
def messageFields : LinkMessage → Nat × DeviceRoster × Option DeviceDescriptor ×
    Option DeviceDescriptor × String
  | .join device => (0, [], some device, none, "")
  | .offer roster trusted joining => (1, roster, some trusted, joining, "")
  | .ready offerHash => (2, [], none, none, offerHash)
  | .approved roster => (3, roster, none, none, "")
  | .ack rosterHash => (4, [], none, none, rosterHash)
  | .rejected => (5, [], none, none, "")

def messageOf : Nat × DeviceRoster × Option DeviceDescriptor × Option DeviceDescriptor × String →
    Option LinkMessage
  | (0, _, some device, _, _) => some (.join device)
  | (1, roster, some trusted, joining, _) => some (.offer roster trusted joining)
  | (2, _, _, _, offerHash) => some (.ready offerHash)
  | (3, roster, _, _, _) => some (.approved roster)
  | (4, _, _, _, rosterHash) => some (.ack rosterHash)
  | (5, _, _, _, _) => some .rejected
  | _ => none

def message : Format LinkMessage :=
  (Format.number.pair (roster.pair (descriptor.option.pair (descriptor.option.pair
    Format.word)))).through messageFields messageOf fun m => by cases m <;> rfl

def signedMessage : Format SignedMessage :=
  (message.pair (Format.word.pair Format.word)).through
    (fun m => (m.message, m.signer, m.signature)) (fun (a, b, d) => some ⟨a, b, d⟩) fun _ => rfl

def notice : Format RosterNotice :=
  (roster.pair (Format.word.pair (Format.word.pair (bool.pair Format.word)))).through
    (fun n => (n.roster, n.sender, n.recipient, n.ack, n.signature))
    (fun (a, b, d, e, f) => some ⟨a, b, d, e, f⟩) fun _ => rfl

def delegation : Format Delegation :=
  (Format.word.pair Format.word).through (fun d => (d.key, d.signature))
    (fun (a, b) => some ⟨a, b⟩) fun _ => rfl

def certificate : Format AccountCertificate :=
  (Format.word.pair delegation.list).through (fun x => (x.root, x.delegations))
    (fun (a, b) => some ⟨a, b⟩) fun _ => rfl

def delivery : Format LinkDelivery :=
  (qr.pair (descriptor.option.pair (Format.octets.pair Format.word))).through
    (fun d => (d.qr, d.joining, d.packet, d.rosterHash))
    (fun (a, b, d, e) => some ⟨a, b, d, e⟩) fun _ => rfl

def receipt : Format LinkReceipt :=
  (qr.pair (descriptor.pair (Format.word.pair Format.octets))).through
    (fun r => (r.qr, r.trusted, r.rosterHash, r.packet))
    (fun (a, b, d, e) => some ⟨a, b, d, e⟩) fun _ => rfl

def pending : Format PendingJoin :=
  (qr.pair (descriptor.option.pair (descriptor.pair roster))).through
    (fun p => (p.qr, p.joining, p.trusted, p.base))
    (fun (a, b, d, e) => some ⟨a, b, d, e⟩) fun _ => rfl

def consumed : Format ConsumedRequest :=
  (Format.word.pair Format.number).through (fun r => (r.id, r.expiresAt))
    (fun (a, b) => some ⟨a, b⟩) fun _ => rfl

/-- The record of an installation whose seed is a byte, field after field. -/
def record : Format (LocalIdentity UInt8) :=
  (Format.octets.pair (descriptor.pair (roster.pair (certificate.option.pair (delivery.option.pair
    (receipt.option.pair (pending.option.pair (consumed.list.pair descriptor.list)))))))).through
    (fun r => ([r.seed], r.device, r.roster, r.accountCertificate, r.delivery, r.receipt, r.pending,
      r.consumed, r.rosterDelivery))
    (fun (a, b, d, e, f, g, i, j, k) => a.head?.map fun seed => ⟨seed, b, d, e, f, g, i, j, k⟩)
    fun _ => rfl

end Text

/-- The cryptography with a hash. The key of a seed consists of equal bytes. -/
def linkCryptoWith (hash : Bytes → Bytes) (parseQr : Bytes → Option PairingQr) :
    IdentityCrypto (List UInt8) (List UInt8) UInt8 where
  toRosterCrypto := { plainCrypto with
    sha256 := hash
    rosterJson := fun entries => some (Text.roster.packed entries) }
  verifyingKey b := List.replicate 32 b
  sign b bytes := List.replicate 32 b ++ checksum bytes
  signatureBytes := id
  verifyStrict key bytes signature := signature = key ++ checksum bytes
  encrypt secret _ bytes aad := some (checksum (secret ++ aad) ++ bytes)
  decrypt secret _ bytes aad := stripHead (checksum (secret ++ aad)) bytes
  decodeBase64Url text := some (Format.pack (Format.charsOf text))
  qrJson qr := some (Text.qr.packed qr)
  parseQr := parseQr
  descriptorJson d := some (Text.descriptor.packed d)
  messageJson m := some (Text.message.packed m)
  signedJson m := some (Text.signedMessage.packed m)
  parseSigned := Text.signedMessage.unpacked
  noticeContentJson content := some
    ((Text.roster.pair (Format.word.pair (Format.word.pair Text.bool))).packed content)
  noticeJson n := some (Text.notice.packed n)
  parseNotice := Text.notice.unpacked
  delegationJson content := some
    ((Format.word.pair (Text.delegation.list.pair Format.word)).packed content)
  recordJson r := some (Text.record.packed r)
  parseRecord := Text.record.unpacked

/-- The peer id of an installation. -/
def samplePeer (b : UInt8) : String := hexText (List.replicate 32 (b + 100))

def sampleDevice (hash : Bytes → Bytes) (b : UInt8) : DeviceDescriptor :=
  DeviceDescriptor.new (linkCryptoWith hash Text.qr.unpacked).toLinkCrypto b (samplePeer b)

/-- The QR that an installation shows at a time. -/
def sampleQr (hash : Bytes → Bytes) (now b : UInt8) : PairingQr :=
  .new (linkCryptoWith hash Text.qr.unpacked).toLinkCrypto (sampleDevice hash b) now.toNat
    (List.replicate 16 b) (List.replicate 32 7)

/-- The cryptography with a hash; two bytes are enough for the QR of an installation. -/
def linkCrypto (hash : Bytes → Bytes) : IdentityCrypto (List UInt8) (List UInt8) UInt8 :=
  linkCryptoWith hash fun
    | [now, b] => some (sampleQr hash now b)
    | bytes => Text.qr.unpacked bytes

/-- The link of the QR. -/
def sampleUri (now b : UInt8) : String :=
  qrPrefix ++ String.ofList [Char.ofNat now.toNat, Char.ofNat b.toNat]

/-- A record that is written can be read. -/
theorem linkCrypto_readable (hash : Bytes → Bytes) (record : LocalIdentity UInt8) (bytes : Bytes)
    (h : (linkCrypto hash).recordJson record = some bytes) :
    (linkCrypto hash).parseRecord bytes = some record := by
  have hencode : (linkCrypto hash).recordJson record = some (Text.record.packed record) := rfl
  have hparse : (linkCrypto hash).parseRecord = Text.record.unpacked := rfl
  rw [hencode, Option.some.injEq] at h
  rw [hparse, ← h, Format.unpacked_packed]

theorem hexDigit_inj {m n : Nat} (hm : m < 16) (hn : n < 16) (h : hexDigit m = hexDigit n) :
    m = n := by
  have hfin : ∀ a b : Fin 16, hexDigit a = hexDigit b → a = b := by decide
  exact congrArg Fin.val (hfin ⟨m, hm⟩ ⟨n, hn⟩ h)

theorem hexText_inj {bytes bytes' : Bytes} (h : hexText bytes = hexText bytes') :
    bytes = bytes' := by
  have hlist := String.ofList_injective h
  clear h
  induction bytes generalizing bytes' with
  | nil =>
    rcases bytes' with - | ⟨b, bytes'⟩
    · rfl
    · cases hlist
  | cons b bytes ih =>
    rcases bytes' with - | ⟨b', bytes'⟩
    · cases hlist
    · rw [List.flatMap_cons, List.flatMap_cons, List.cons_append, List.cons_append,
        List.cons_append, List.cons_append, List.nil_append, List.nil_append, List.cons.injEq,
        List.cons.injEq] at hlist
      obtain ⟨hhi, hlo, hrest⟩ := hlist
      have hb := b.toNat_lt
      have hb' := b'.toNat_lt
      have hhi := hexDigit_inj (by omega) (by omega) hhi
      have hlo := hexDigit_inj (by omega) (by omega) hlo
      rw [ih hrest, UInt8.toNat_inj.1 (by omega : b.toNat = b'.toNat)]

/-- With a hash that tells all values apart, every roster has a digest of its own. -/
theorem linkCrypto_collisionless {hash : Bytes → Bytes} (hinj : Function.Injective hash)
    (r r' : DeviceRoster) (text : String)
    (h : digest (linkCrypto hash).toRosterCrypto r = .ok text)
    (h' : digest (linkCrypto hash).toRosterCrypto r' = .ok text) : r = r' := by
  have heq : hexText (hash (rosterContext ++ Text.roster.packed r)) =
      hexText (hash (rosterContext ++ Text.roster.packed r')) := Except.ok.inj (h.trans h'.symm)
  exact Text.roster.packed_inj (List.append_cancel_left (hinj (hexText_inj heq)))

/-- A hash that is short for some values. -/
def shortHash (short : List Bytes) (bytes : Bytes) : Bytes :=
  match short.idxOf? bytes with
  | some i => List.replicate (i + 1) 1
  | none => 0 :: bytes

theorem shortHash_injective (short : List Bytes) : Function.Injective (shortHash short) := by
  intro a b h
  unfold shortHash at h
  have hat : ∀ {x : Bytes} {i : Nat}, short.idxOf? x = some i → short[i]? = some x := by
    intro x i hx
    obtain ⟨hlt, heq, -⟩ := List.idxOf?_eq_some_iff.1 hx
    rw [List.getElem?_eq_getElem hlt, heq]
  split at h
  · next i hi =>
    split at h
    · next j hj =>
      have hlen := congrArg List.length h
      rw [List.length_replicate, List.length_replicate, Nat.add_right_cancel_iff] at hlen
      subst hlen
      exact Option.some.inj ((hat hi).symm.trans (hat hj))
    · cases h
  · split at h
    · cases h
    · exact (List.cons.inj h).2

end Mosh.DeviceLink
