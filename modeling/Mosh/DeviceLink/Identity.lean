import Mosh.DeviceLink.Wire

/-!
# The identity of an installation

An installation keeps its key, its descriptor, the roster of its account and the state of its
links in one row of its store (`device_link/identity.rs`). The row is replaced only as a
whole, and only if it is still the one that was read, since another part of the program may
hold the identity as well.

* `LocalIdentity`: what the row says;
* `DeviceIdentity.open`, `validate`: reading the row, with everything that is checked;
* `DeviceIdentity.update`: replacing it;
* `DeviceIdentity.adoptRoster`: going on to a roster that extends the own one.
-/

namespace Mosh.DeviceLink

open Checked

variable {Key Signature Seed : Type}

/-! ## What is stored -/

structure Delegation where
  key : String
  signature : String
  deriving DecidableEq, Repr

structure AccountCertificate where
  root : String
  delegations : List Delegation
  deriving DecidableEq, Repr

structure LinkDelivery where
  qr : PairingQr
  joining : Option DeviceDescriptor
  packet : Bytes
  rosterHash : String
  deriving DecidableEq

structure LinkReceipt where
  qr : PairingQr
  trusted : DeviceDescriptor
  rosterHash : String
  packet : Bytes
  deriving DecidableEq

structure PendingJoin where
  qr : PairingQr
  joining : Option DeviceDescriptor
  trusted : DeviceDescriptor
  base : DeviceRoster
  deriving DecidableEq

def LinkDelivery.joiningDevice (d : LinkDelivery) : DeviceDescriptor := d.joining.getD d.qr.device

def PendingJoin.joiningDevice (p : PendingJoin) : DeviceDescriptor := p.joining.getD p.qr.device

structure ConsumedRequest where
  id : String
  expiresAt : Nat
  deriving DecidableEq, Repr

structure LocalIdentity (Seed : Type) where
  seed : Seed
  device : DeviceDescriptor
  roster : DeviceRoster
  accountCertificate : Option AccountCertificate
  delivery : Option LinkDelivery
  receipt : Option LinkReceipt
  pending : Option PendingJoin
  consumed : List ConsumedRequest
  rosterDelivery : List DeviceDescriptor
  deriving DecidableEq

namespace LocalIdentity

def isConsumed (record : LocalIdentity Seed) (qr : PairingQr) (now : Nat) : Bool :=
  record.consumed.any fun request => request.id = qr.id && now < request.expiresAt

/-- Remember the request of a QR until it expires. -/
def consume (record : LocalIdentity Seed) (qr : PairingQr) (now : Nat) : LocalIdentity Seed :=
  let kept := record.consumed.filter (now < ·.expiresAt)
  { record with
    consumed :=
      if now < qr.expiresAt ∧ ¬ { record with consumed := kept }.isConsumed qr now then
        kept ++ [⟨qr.id, qr.expiresAt⟩]
      else kept }

end LocalIdentity

/-- What an identity uses of libraries, beyond what a link does. -/
structure IdentityCrypto (Key Signature Seed : Type) extends LinkCrypto Key Signature Seed where
  delegationJson : String × List Delegation × String → Option Bytes
  recordJson : LocalIdentity Seed → Option Bytes
  parseRecord : Bytes → Option (LocalIdentity Seed)

variable (c : IdentityCrypto Key Signature Seed)

/-! ## Certificates -/

namespace AccountCertificate

def maxDelegations : Nat := 32

def subject (certificate : AccountCertificate) : String :=
  (certificate.delegations.getLast?.map (·.key)).getD certificate.root

def issuer (certificate : AccountCertificate) : Option String :=
  certificate.delegations.getLast?.map fun _ =>
    (certificate.delegations.dropLast.getLast?.map (·.key)).getD certificate.root

/-- Every key signs the next one, and no key occurs twice. -/
def verifyChain (root : String) (signer : Key) (before : List Delegation) :
    List Delegation → Except DeviceLinkError Unit
  | [] => .ok ()
  | delegation :: rest => do
    let next ← publicKey c.toRosterCrypto delegation.key
    check invalid (delegation.key ∉ root :: before.map (·.key))
    let raw ← getOr invalid (c.hexDecode delegation.signature)
    let json ← getOr invalid (c.delegationJson (root, before, delegation.key))
    let signature ← getOr invalid (c.signatureFromSlice raw)
    check invalid
      (c.verifyStrict signer (textBytes "mosh-account-delegation-v1\x00" ++ json) signature)
    verifyChain root next (before ++ [delegation]) rest

def verify (certificate : AccountCertificate) : Except DeviceLinkError Unit := do
  check invalid (certificate.delegations.length ≤ maxDelegations)
  let signer ← publicKey c.toRosterCrypto certificate.root
  verifyChain c certificate.root signer [] certificate.delegations

end AccountCertificate

/-! ## The identity -/

/-- The identity, as it was last read or written. -/
structure DeviceIdentity (Seed : Type) where
  persisted : Bytes
  record : LocalIdentity Seed
  deriving DecidableEq

/-- How many rows the other tables have that decide whether an installation may join. -/
structure Tables where
  hasPurchase : Bool
  sessions : Nat
  groups : Nat
  channels : Nat
  orgRecords : Nat
  deriving DecidableEq, Repr

def storageError : DeviceLinkError := .new .storage

namespace LocalIdentity

variable (record : LocalIdentity Seed)

/-- The installation is not an active device of its roster. -/
def revoked : Except DeviceLinkError Bool := do
  let devices ← record.roster.devices c.toRosterCrypto
  return record.device ∉ devices

def checkCertificate (certificate : AccountCertificate) : Except DeviceLinkError Unit := do
  certificate.verify c
  check invalid (certificate.root = record.roster.userId ∧
    certificate.subject = record.device.signingPublicKey)

/-- No other device of the account has the id or the peer id. -/
def free (devices : List DeviceDescriptor) (device : DeviceDescriptor) : Bool :=
  !devices.any fun d => d.deviceId = device.deviceId || d.mossPeerId = device.mossPeerId

/-- A removed installation goes on only to a roster that extends its own one. -/
def checkAfterRemoval (roster : DeviceRoster) : Except DeviceLinkError Unit := do
  let revoked ← record.revoked c
  if revoked then roster.extends c.toRosterCrypto record.roster >>= check invalid else .ok ()

def checkPending (pending : PendingJoin) : Except DeviceLinkError Unit := do
  let devices ← pending.base.devices c.toRosterCrypto
  pending.qr.validateStored c.toLinkCrypto
  check invalid (pending.joiningDevice = record.device)
  check invalid (!pending.qr.isCurrent ||
    (pending.joining.isSome && pending.qr.device = pending.trusted))
  record.checkAfterRemoval c pending.base
  check invalid (record.delivery.isNone && pending.trusted ∈ devices &&
    free devices record.device)

def checkDelivery (delivery : LinkDelivery) : Except DeviceLinkError Unit := do
  delivery.qr.validateStored c.toLinkCrypto
  check invalid (!delivery.qr.isCurrent ||
    (delivery.joining.isSome && delivery.qr.device = record.device))
  delivery.joiningDevice.validate c.toRosterCrypto

/-- Check something if it is there. -/
def checkSome {α : Type} (x : Option α) (f : α → Except DeviceLinkError Unit) :
    Except DeviceLinkError Unit :=
  x.elim (.ok ()) f

def validate (peer : String) : Except DeviceLinkError Unit := do
  checkSome record.accountCertificate (record.checkCertificate c)
  check invalid (record.device.mossPeerId = peer ∧
    keyHex c.toLinkCrypto record.seed = record.device.signingPublicKey)
  let known ← record.roster.knownDevice c.toRosterCrypto record.device.deviceId
  check invalid (known = some record.device)
  checkSome record.pending (record.checkPending c)
  checkSome record.delivery (record.checkDelivery c)
  checkSome record.receipt fun receipt => receipt.qr.validateStored c.toLinkCrypto

def canJoin (tables : Tables) : Except DeviceLinkError Bool := do
  if tables.hasPurchase then return false
  if ← record.revoked c then return true
  let devices ← record.roster.devices c.toRosterCrypto
  return devices.length = 1 ∧ tables.sessions = 0 ∧ tables.groups = 0 ∧ tables.channels = 0 ∧
    tables.orgRecords = 0

/-- The certificate of the account that the installation can show. -/
def certificate : Except DeviceLinkError (Option AccountCertificate) := do
  if ← record.revoked c then throw invalid
  if record.device.signingPublicKey = record.roster.userId then
    return some ⟨keyHex c.toLinkCrypto record.seed, []⟩
  return record.accountCertificate

/-- What is left of the record with a roster that extends the own one. -/
def withRoster (roster : DeviceRoster) : Except DeviceLinkError (LocalIdentity Seed) := do
  let devices ← roster.devices c.toRosterCrypto
  if record.device ∈ devices then return { record with roster := roster }
  return { record with
    roster := roster
    delivery := none
    receipt := none
    pending := none
    rosterDelivery := [] }

end LocalIdentity

namespace DeviceIdentity

/-- The record of an installation that was never started. -/
def initial (peer : String) (seed : Seed) : Except DeviceLinkError (LocalIdentity Seed) := do
  let device := DeviceDescriptor.new c.toLinkCrypto seed peer
  let roster ← DeviceRoster.genesis c.toLinkCrypto device seed
  return {
    seed := seed
    device := device
    roster := roster
    accountCertificate := none
    delivery := none
    receipt := none
    pending := none
    consumed := []
    rosterDelivery := [] }

/-- The row, or a first one with a key that is drawn. -/
def readOrInitialize (row : Option Bytes) (peer : String) (seed : Seed) :
    Except DeviceLinkError Bytes :=
  match row with
  | some bytes => .ok bytes
  | none => do
    let candidate ← initial c peer seed
    getOr storageError (c.recordJson candidate)

def «open» (row : Option Bytes) (peer : String) (seed : Seed) :
    Except DeviceLinkError (DeviceIdentity Seed) := do
  let persisted ← readOrInitialize c row peer seed
  let record ← getOr storageError (c.parseRecord persisted)
  record.validate c peer
  return ⟨persisted, record⟩

variable (identity : DeviceIdentity Seed)

/-- Replace the row by another record: the identity and the row after it. A write may be refused,
    and it is in conflict if the row is not the one that was read. -/
def update (row : Option Bytes) (refused : Bool) (record : LocalIdentity Seed) :
    Except DeviceLinkError (DeviceIdentity Seed × Option Bytes) := do
  let known ← record.roster.knownDevice c.toRosterCrypto record.device.deviceId
  check invalid (known = some record.device)
  let bytes ← getOr storageError (c.recordJson record)
  check storageError !refused
  check (.new .busy) (row = some identity.persisted)
  return (⟨bytes, record⟩, some bytes)

def adoptRoster (row : Option Bytes) (refused : Bool) (roster : DeviceRoster) :
    Except DeviceLinkError (DeviceIdentity Seed × Option Bytes) := do
  roster.extends c.toRosterCrypto identity.record.roster >>= check invalid
  let record ← identity.record.withRoster c roster
  identity.update c row refused record

end DeviceIdentity

end Mosh.DeviceLink
