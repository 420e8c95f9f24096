import Mosh.Conversation.ChatNames
import Mosh.DeviceLink.Revocation
import Mosh.Library.Checked

/-!
# Pairing codes and packets

A device that is to be added to an account scans the QR of a device of it, and the two
exchange packets that are encrypted with the secret of the QR and signed by their sender
(`device_link/wire.rs`). The code that the new device displays (`device_link/qr.rs`) is a
hash of the QR, of the roster it was offered, of the device that offered it and of itself.

* `DeviceRoster.genesis`, `extend`, `revoke`: new rosters, which are verified at once;
* `PairingQr.code`: the code that is compared;
* `sealPacket`, `openPacket`: the packets of a link;
* `RosterNotice`: the packets by which a changed roster is spread.

What is used of libraries is the parameter `LinkCrypto`, of which nothing is assumed here.
-/

namespace Mosh.DeviceLink

open Checked

abbrev Bytes := List UInt8

/-! ## The data of a link -/

structure PairingQr where
  version : Nat
  id : String
  expiresAt : Nat
  device : DeviceDescriptor
  secret : Bytes
  deriving DecidableEq, Repr

inductive LinkMessage
  | join (device : DeviceDescriptor)
  | offer (roster : DeviceRoster) (trusted : DeviceDescriptor) (joining : Option DeviceDescriptor)
  | ready (offerHash : String)
  | approved (roster : DeviceRoster)
  | ack (rosterHash : String)
  | rejected
  deriving DecidableEq

structure SignedMessage where
  message : LinkMessage
  signer : String
  signature : String
  deriving DecidableEq

structure RosterNotice where
  roster : DeviceRoster
  sender : String
  recipient : String
  ack : Bool
  signature : String
  deriving DecidableEq

/-- What a link uses of libraries: signatures, AES-GCM, JSON and base64. -/
structure LinkCrypto (Key Signature Seed : Type) extends RosterCrypto Key Signature where
  verifyingKey : Seed → Key
  sign : Seed → Bytes → Signature
  signatureBytes : Signature → Bytes
  verifyStrict : Key → Bytes → Signature → Bool
  /-- Encrypt and decrypt under a secret, with a nonce and data that is authenticated too. -/
  encrypt : Bytes → Bytes → Bytes → Bytes → Option Bytes
  decrypt : Bytes → Bytes → Bytes → Bytes → Option Bytes
  decodeBase64Url : String → Option Bytes
  qrJson : PairingQr → Option Bytes
  parseQr : Bytes → Option PairingQr
  descriptorJson : DeviceDescriptor → Option Bytes
  messageJson : LinkMessage → Option Bytes
  signedJson : SignedMessage → Option Bytes
  parseSigned : Bytes → Option SignedMessage
  /-- What a notice signs, and the notice itself. -/
  noticeContentJson : DeviceRoster × String × String × Bool → Option Bytes
  noticeJson : RosterNotice → Option Bytes
  parseNotice : Bytes → Option RosterNotice

variable {Key Signature Seed : Type} (c : LinkCrypto Key Signature Seed)

/-- The key of a seed, as it is written. -/
def keyHex (seed : Seed) : String := c.hexEncode (c.keyBytes (c.verifyingKey seed))

/-! ## New rosters -/

def defaultDeviceName : String := "Desktop"

def DeviceDescriptor.new (seed : Seed) (peer : String) : DeviceDescriptor where
  deviceId := DeviceLink.deviceId c.toRosterCrypto (c.verifyingKey seed)
  signingPublicKey := keyHex c seed
  mossPeerId := peer
  name := defaultDeviceName

def Authorization.signed (version : Nat) (parent : Option String) (signer : String)
    (device : DeviceDescriptor) (seed : Seed) : Except DeviceLinkError Authorization := do
  let entry : Authorization := ⟨version, parent, signer, device, ""⟩
  let bytes ← entry.bytes c.toRosterCrypto
  return { entry with signature := c.hexEncode (c.signatureBytes (c.sign seed bytes)) }

namespace DeviceRoster

def genesis (device : DeviceDescriptor) (seed : Seed) : Except DeviceLinkError DeviceRoster := do
  let entry ← Authorization.signed c rosterVersion none device.deviceId device seed
  let roster : DeviceRoster := [entry]
  let _ ← roster.devices c.toRosterCrypto
  return roster

def withEntry (roster : DeviceRoster) (entry : Authorization) :
    Except DeviceLinkError DeviceRoster := do
  let next : DeviceRoster := roster ++ [entry]
  let _ ← next.devices c.toRosterCrypto
  return next

def extend (roster : DeviceRoster) (device : DeviceDescriptor) (seed : Seed) :
    Except DeviceLinkError DeviceRoster := do
  let parent ← digest c.toRosterCrypto roster
  let entry ← Authorization.signed c rosterVersion (some parent)
    (deviceId c.toRosterCrypto (c.verifyingKey seed)) device seed
  roster.withEntry c entry

def revoke (roster : DeviceRoster) (target : String) (seed : Seed) :
    Except DeviceLinkError DeviceRoster := do
  let devices ← roster.devices c.toRosterCrypto
  let device ← getOr invalid (devices.find? (·.deviceId = target))
  let parent ← digest c.toRosterCrypto roster
  let entry ← Authorization.signed c removalVersion (some parent)
    (deviceId c.toRosterCrypto (c.verifyingKey seed)) device seed
  roster.withEntry c entry

variable (r : RosterCrypto Key Signature)

/-- The last descriptor that the roster has of a device, active or not. -/
def knownDevice (roster : DeviceRoster) (id : String) :
    Except DeviceLinkError (Option DeviceDescriptor) := do
  let _ ← roster.devices r
  return (roster.reverse.find? (·.device.deviceId = id)).map (·.device)

/-- The roster is the base and the addition of the device by the signer. -/
def verifiesAddition (roster base : DeviceRoster) (device : DeviceDescriptor) (signer : String) :
    Except DeviceLinkError Unit := do
  let _ ← roster.devices r
  let last ← getOr invalid roster.getLast?
  let parent ← digest r roster.dropLast
  let expected ← digest r base
  check invalid (last.version = rosterVersion ∧ parent = expected ∧ last.device = device ∧
    last.signer = signer)

end DeviceRoster

/-! ## The QR and the code -/

def qrPrefix : String := "mosh://device-link/"

def qrVersion : Nat := 2

def qrLifetimeSeconds : Nat := 300

def maxQrBytes : Nat := 2048

def codeContext : Bytes := textBytes "mosh-device-code-v2\x00"

def legacyCodeContext : Bytes := textBytes "mosh-device-code-v1\x00"

def codeHexChars : Nat := 12

def invalidQr : DeviceLinkError := .new .invalidQr

namespace PairingQr

/-- A QR of the device, with what is drawn at random for its id and its secret. -/
def new (device : DeviceDescriptor) (now : Nat) (id secret : Bytes) : PairingQr where
  version := qrVersion
  id := c.hexEncode id
  expiresAt := now + qrLifetimeSeconds
  device := device
  secret := secret

def isCurrent (qr : PairingQr) : Bool := qr.version = qrVersion

def validateStored (qr : PairingQr) : Except DeviceLinkError Unit := do
  check invalidQr ((qr.version = 1 ∨ qr.version = qrVersion) ∧ qr.id.utf8ByteSize = 32 ∧
    (c.hexDecode qr.id).isSome ∧ qr.secret ≠ List.replicate 32 0)
  orError invalidQr (qr.device.validate c.toRosterCrypto)

def validate (qr : PairingQr) (now : Nat) : Except DeviceLinkError Unit := do
  check invalidQr qr.isCurrent
  qr.validateStored c
  check (.new .expired) (now < qr.expiresAt ∧ qr.expiresAt ≤ now + qrLifetimeSeconds)

def parse (uri : String) (now : Nat) : Except DeviceLinkError PairingQr := do
  check invalidQr (uri.utf8ByteSize ≤ maxQrBytes)
  let trimmed := Conversation.trim uri
  check invalidQr (qrPrefix.toList.isPrefixOf trimmed.toList)
  let bytes ← getOr invalidQr
    (c.decodeBase64Url (String.ofList (trimmed.toList.drop qrPrefix.length)))
  let qr ← getOr invalidQr (c.parseQr bytes)
  qr.validate c now
  return qr

def digest (qr : PairingQr) : Except DeviceLinkError Bytes := do
  let json ← getOr invalidQr (c.qrJson qr)
  return c.sha256 json

/-- The code that is compared: of the offered roster, of who offers it and of who joins. -/
def code (qr : PairingQr) (offerHash : String) (trusted joining : DeviceDescriptor) :
    Except DeviceLinkError String := do
  let qrDigest ← qr.digest c
  let device ← if qr.isCurrent then getOr invalidQr (c.descriptorJson joining) else .ok []
  let context := if qr.isCurrent then codeContext else legacyCodeContext
  let hash := c.sha256 (context ++ qrDigest ++ textBytes offerHash ++
    textBytes trusted.signingPublicKey ++ device)
  return (String.ofList ((c.hexEncode hash).toList.take codeHexChars)).toUpper

end PairingQr

/-! ## Packets -/

def wirePrefix : Bytes := textBytes "mosh-device-link-v2\x00"

def legacyWirePrefix : Bytes := textBytes "mosh-device-link-v1\x00"

def rosterNoticePrefix : Bytes := textBytes "mosh-device-roster-notice-v1\x00"

def maxPacketBytes : Nat := 64 * 1024

def signContext : Bytes := textBytes "mosh-device-packet-v2\x00"

def legacySignContext : Bytes := textBytes "mosh-device-packet-v1\x00"

def nonceBytes : Nat := 12

/-- The head of the packets of a link. -/
def packetHead (qr : PairingQr) : Bytes := if qr.isCurrent then wirePrefix else legacyWirePrefix

/-- What the sender of a message signs: the message, for the QR and in its own name. -/
def signingBytes (qr : PairingQr) (signer : String) (message : LinkMessage) :
    Except DeviceLinkError Bytes := do
  qr.validateStored c
  let qrDigest ← qr.digest c
  let json ← getOr invalid (c.messageJson message)
  let context := if qr.isCurrent then signContext else legacySignContext
  return context ++ qrDigest ++ textBytes signer ++ json

def sealPacket (qr : PairingQr) (seed : Seed) (message : LinkMessage) (nonce : Bytes) :
    Except DeviceLinkError Bytes := do
  let signer := keyHex c seed
  let bytes ← signingBytes c qr signer message
  let signed : SignedMessage := ⟨message, signer,
    c.hexEncode (c.signatureBytes (c.sign seed bytes))⟩
  let plaintext ← getOr invalid (c.signedJson signed)
  let aad ← qr.digest c
  let ciphertext ← getOr invalid (c.encrypt qr.secret nonce plaintext aad)
  let packet := packetHead qr ++ nonce ++ ciphertext
  check invalid (packet.length ≤ maxPacketBytes)
  return packet

/-- Bytes without their head. -/
def stripHead (head bytes : Bytes) : Option Bytes :=
  if head.isPrefixOf bytes then some (bytes.drop head.length) else none

/-- A signature of the key with the hex encoding, over bytes that have to be made first. -/
def verifyText (signer : String) (bytes : Except DeviceLinkError Bytes) (signature : String) :
    Except DeviceLinkError Unit := do
  let key ← publicKey c.toRosterCrypto signer
  let raw ← getOr invalid (c.hexDecode signature)
  let sig ← getOr invalid (c.signatureFromSlice raw)
  let bytes ← bytes
  check invalid (c.verifyStrict key bytes sig)

/-- Who signed a packet, and what it says. -/
def openPacket (qr : PairingQr) (packet : Bytes) : Except DeviceLinkError (String × LinkMessage) := do
  check invalid (packet.length ≤ maxPacketBytes)
  let body ← getOr invalid (stripHead (packetHead qr) packet)
  check invalid (nonceBytes < body.length)
  let aad ← qr.digest c
  let plaintext ← getOr invalid
    (c.decrypt qr.secret (body.take nonceBytes) (body.drop nonceBytes) aad)
  let signed ← getOr invalid (c.parseSigned plaintext)
  verifyText c signed.signer (signingBytes c qr signed.signer signed.message) signed.signature
  return (signed.signer, signed.message)

namespace RosterNotice

def bytes (notice : RosterNotice) : Except DeviceLinkError Bytes := do
  let json ← getOr invalid
    (c.noticeContentJson (notice.roster, notice.sender, notice.recipient, notice.ack))
  return rosterNoticePrefix ++ json

/-- A notice of the device, signed and written out. -/
def sealed (seed : Seed) (sender recipient : String) (roster : DeviceRoster) (ack : Bool) :
    Except DeviceLinkError Bytes := do
  let notice : RosterNotice := ⟨roster, sender, recipient, ack, ""⟩
  let content ← notice.bytes c
  let json ← getOr invalid (c.noticeJson
    { notice with signature := c.hexEncode (c.signatureBytes (c.sign seed content)) })
  let packet := rosterNoticePrefix ++ json
  check invalid (packet.length ≤ 64 * 1024)
  return packet

/-- Read a notice that follows its head, for a recipient, and check its signature: the notice and
    the device that sent it. -/
def «open» (recipient : String) (body : Bytes) :
    Except DeviceLinkError (RosterNotice × DeviceDescriptor) := do
  check invalid (body.length ≤ maxPacketBytes)
  let notice ← getOr invalid (c.parseNotice body)
  check invalid (notice.recipient = recipient)
  let known ← notice.roster.knownDevice c.toRosterCrypto notice.sender
  let sender ← getOr invalid known
  verifyText c sender.signingPublicKey (notice.bytes c) notice.signature
  return (notice, sender)

end RosterNotice

end Mosh.DeviceLink
