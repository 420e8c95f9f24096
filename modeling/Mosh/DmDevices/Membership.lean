import Mosh.DmDevices.Topology

/-!
# The membership of a direct message

Besides its topology, a session keeps the rosters it has seen of removals that are still to be
carried out (*pinned* rosters, `devices/revocation/mod.rs`), and the signed evidence of every
commit that changed the leaves of the group: of an added client (`devices/recovery/epochs.rs`)
and of a removed one (`devices/revocation/evidence.rs`), each under the epoch it led to.

* `currentRoster_eq`: the roster that counts for a user, pinned or installed;
* `pinRoster_eq_ok`: what can be pinned: an extension of the current roster;
* `retainEpoch_eq_ok`, `retainRemoval_eq_ok`: what is retained.
-/

namespace Mosh.DmDevices

open DeviceLink Checked

/-! ## Evidence -/

/-- A device asks to join. -/
structure JoinRequest where
  requestId : String
  claim : IdentityClaim
  keyPackage : List UInt8
  deriving DecidableEq, Repr

/-- The own request of a device that joins. -/
structure PendingJoin where
  request : JoinRequest
  authorizerPeer : String
  groupId : List UInt8
  deriving DecidableEq, Repr

/-- The signature of the evidence of an admission. -/
structure EpochAuthorization where
  roster : DeviceRoster
  signature : String
  admittedAtMs : Option Nat
  deriving DecidableEq, Repr

/-- A client is admitted. -/
structure Admission where
  request : JoinRequest
  commit : List UInt8
  welcome : List UInt8
  tree : List UInt8
  topology : DmTopology
  groupId : List UInt8
  epoch : Nat
  recoveryAuthorization : Option EpochAuthorization
  deriving DecidableEq, Repr

/-- The peers that have not saved an admission yet. -/
structure AdmissionJournal where
  admission : Admission
  waiting : List String
  deriving DecidableEq, Repr

/-- The evidence of an admission, signed by the device that made it. -/
structure EpochRecord where
  authorDeviceId : String
  roster : DeviceRoster
  request : JoinRequest
  commit : List UInt8
  groupId : List UInt8
  epoch : Nat
  signature : String
  admittedAtMs : Option Nat
  deriving DecidableEq, Repr

/-- The evidence of a removal, signed by the device that made it. -/
structure RemovalRecord where
  sessionId : String
  author : String
  target : String
  roster : DeviceRoster
  commit : List UInt8
  groupId : List UInt8
  epoch : Nat
  signature : String
  deriving DecidableEq, Repr

/-- The peers that have not saved a removal yet. -/
structure RemovalJournal where
  evidence : RemovalRecord
  waiting : List String
  deriving DecidableEq, Repr

/-- What evidence uses of libraries, besides what claims do: the JSON of what is signed and
    hashed. -/
structure EvidenceCrypto (Key Signature : Type) extends ClaimCrypto Key Signature where
  epochJson : String × DeviceRoster × JoinRequest × List UInt8 × List UInt8 × Nat →
    Option (List UInt8)
  removalJson : String × String × String × DeviceRoster × List UInt8 × List UInt8 × Nat →
    Option (List UInt8)
  removalRecordJson : RemovalRecord → Option (List UInt8)

/-- This installation: its device, its roster and what it signs with its key. -/
structure DeviceIdentity where
  device : DeviceDescriptor
  roster : DeviceRoster
  sign : List UInt8 → String

/-- The big-endian bytes of a time. -/
def timeBytes (n : Nat) : List UInt8 :=
  (List.range 8).reverse.map fun i => UInt8.ofNat (n / 2 ^ (8 * i))

def removalContext : List UInt8 := textBytes "mosh-dm-removal-evidence-v1\x00"

section Code

variable {Key Signature : Type} (c : EvidenceCrypto Key Signature)

/-- This installation was removed from its account. -/
def DeviceIdentity.revoked (identity : DeviceIdentity) : Except PrivateDmRuntimeError Bool := do
  return identity.device ∉ (← orError invalid (identity.roster.devices c.toRosterCrypto))

namespace EpochRecord

/-- The bytes that are signed. -/
def bytes (record : EpochRecord) : Except PrivateDmRuntimeError (List UInt8) := do
  let context := match record.admittedAtMs with
    | some time => textBytes "mosh-dm-epoch-evidence-v2" ++ timeBytes time
    | none => textBytes "mosh-dm-epoch-evidence-v1"
  let json ← getOr invalid (c.epochJson (record.authorDeviceId, record.roster, record.request,
    record.commit, record.groupId, record.epoch))
  return context ++ json

/-- The evidence of an admission, not signed yet. -/
def unsigned (sender : DeviceDescriptor) (roster : DeviceRoster) (admission : Admission) :
    EpochRecord where
  authorDeviceId := sender.deviceId
  roster := roster
  request := admission.request
  commit := admission.commit
  groupId := admission.groupId
  epoch := admission.epoch
  signature := ""
  admittedAtMs := none

/-- The evidence of an admission of our own. -/
def create (identity : DeviceIdentity) (admission : Admission) (admittedAtMs : Nat) :
    Except PrivateDmRuntimeError EpochRecord := do
  let record := { unsigned identity.device identity.roster admission with
    admittedAtMs := some admittedAtMs }
  return { record with signature := identity.sign (← record.bytes c) }

/-- The author of the evidence, who signed it. -/
def author (record : EpochRecord) : Except PrivateDmRuntimeError DeviceDescriptor := do
  let devices ← orError invalid (record.roster.devices c.toRosterCrypto)
  let author ← getOr invalid (devices.find? fun d => d.deviceId = record.authorDeviceId)
  verify c.toClaimCrypto author.signingPublicKey record.signature (← record.bytes c)
  return author

/-- The evidence that comes with an admission. -/
def fromAdmission (sender : DeviceDescriptor) (roster : DeviceRoster) (admission : Admission) :
    Except PrivateDmRuntimeError (Option EpochRecord) := do
  match admission.recoveryAuthorization with
  | none => return none
  | some authorization =>
    check invalid (← orError invalid (roster.extends c.toRosterCrypto authorization.roster))
    let record := { unsigned sender authorization.roster admission with
      admittedAtMs := authorization.admittedAtMs
      signature := authorization.signature }
    check invalid (decide ((← record.author c) = sender))
    return some record

/-- What an admission carries of its evidence. -/
def authorization (record : EpochRecord) : EpochAuthorization where
  roster := record.roster
  signature := record.signature
  admittedAtMs := record.admittedAtMs

/-- The time at which the key package of the admission is validated, in seconds. -/
def validationTime (record : EpochRecord) (nowMs : Nat) :
    Except PrivateDmRuntimeError (Option Nat) := do
  match record.admittedAtMs with
  | none => return none
  | some time =>
    -- one hour is the allowance for the clocks of installations
    check invalid (decide (time ≠ 0) && decide (time ≤ min (nowMs + 3600000) (2 ^ 64 - 1)))
    return some (time / 1000)

end EpochRecord

namespace RemovalRecord

/-- The bytes that are signed. -/
def bytes (record : RemovalRecord) : Except PrivateDmRuntimeError (List UInt8) := do
  let json ← getOr invalid (c.removalJson (record.sessionId, record.author, record.target,
    record.roster, record.commit, record.groupId, record.epoch))
  return removalContext ++ json

/-- The hash of the evidence. -/
def digest (record : RemovalRecord) : Except PrivateDmRuntimeError String := do
  return c.hexEncode (c.sha256 (← getOr invalid (c.removalRecordJson record)))

end RemovalRecord

/-! ## Membership -/

/-- The device from which a session recovers, and its request. -/
structure RecoverySource where
  deviceId : String
  epoch : Nat
  requestId : String
  deriving DecidableEq, Repr

/-- The recovery of a session. -/
structure Recovery where
  round : Nat
  startedMs : Nat
  lastRxMs : Nat
  requiredEpoch : Nat
  source : Option RecoverySource
  deriving DecidableEq, Repr

/-- The source was heard of, and has reached an epoch at least. -/
def Recovery.sourceAt (recovery : Recovery) (epoch nowMs : Nat) : Recovery :=
  { recovery with
    lastRxMs := nowMs
    source := recovery.source.map fun source => { source with epoch := max source.epoch epoch } }

/-- The membership of a session. -/
structure DeviceMembership where
  topology : DmTopology
  joining : Option PendingJoin := none
  delivery : Option AdmissionJournal := none
  recovery : Option Recovery := none
  epochRecords : List EpochRecord := []
  removals : List RemovalJournal := []
  revoked : Bool := false
  pendingRosters : List DeviceRoster := []
  deriving DecidableEq, Repr

namespace EpochRecord

/-- The admission of which a record is the evidence. -/
def admission (record : EpochRecord) (membership : DeviceMembership) : Admission where
  request := record.request
  commit := record.commit
  welcome := []
  tree := []
  topology := membership.topology
  groupId := record.groupId
  epoch := record.epoch
  recoveryAuthorization := some record.authorization

end EpochRecord

namespace DeviceMembership

/-- The client with a device. -/
def deviceClient (m : DeviceMembership) (deviceId : String) : Option IdentityClaim :=
  m.topology.clients.find? fun client => client.deviceId = deviceId

/-- The pinned roster of a user. -/
def pending (m : DeviceMembership) (user : String) : Option DeviceRoster :=
  m.pendingRosters.find? fun roster => roster.userId = user

/-- The roster that counts for a user: the pinned one if it extends the installed one. -/
def currentRoster (m : DeviceMembership) (user : String) : Option DeviceRoster :=
  match m.pending user with
  | some pending =>
    if (m.topology.roster user).all fun roster => holds (pending.extends c.toRosterCrypto roster)
    then some pending else m.topology.roster user
  | none => m.topology.roster user

/-- A roster takes the place of the pinned one of its user. -/
def setPending (m : DeviceMembership) (roster : DeviceRoster) : DeviceMembership :=
  { m with
    pendingRosters := m.pendingRosters.filter (fun r => r.userId ≠ roster.userId) ++ [roster] }

/-- Pin a roster that extends the current one. -/
def pinRoster (m : DeviceMembership) (roster : DeviceRoster) :
    Except PrivateDmRuntimeError DeviceMembership := do
  match m.currentRoster c roster.userId with
  | some current =>
    if ← orError invalid (current.extends c.toRosterCrypto roster) then return m
    check invalid (← orError invalid (roster.extends c.toRosterCrypto current))
    return m.setPending roster
  | none => return m.setPending roster

/-- A roster removes something: since the installed one, or a client since it was admitted. -/
def removesClient (m : DeviceMembership) (roster : DeviceRoster) : Bool :=
  ((m.topology.roster roster.userId).any fun base =>
    holds (roster.hasRemovalSince c.toRosterCrypto base)) ||
  m.topology.clients.any fun client => decide (client.roster.userId = roster.userId) &&
    holds (roster.revokedSince c.toRosterCrypto client.roster client.deviceId)

/-- Pin a roster that removes something. -/
def observeRosterRemoval (m : DeviceMembership) (roster : DeviceRoster) :
    Except PrivateDmRuntimeError (DeviceMembership × Bool) := do
  if m.removesClient c roster then return (← m.pinRoster c roster, true)
  return (m, false)

/-- The device is an authorized one of a user: as a client, since its admission. -/
def authorized (m : DeviceMembership) (device : DeviceDescriptor) (user : String) : Bool :=
  !m.revoked && (m.currentRoster c user).any fun roster =>
    match m.deviceClient device.deviceId with
    | some client => holds (roster.authorizesAdmitted c.toRosterCrypto client.roster device)
    | none => (roster.devices c.toRosterCrypto).toOption.any (device ∈ ·)

/-- A client is not authorized any more. -/
def pendingRemoval (m : DeviceMembership) : Bool :=
  m.topology.clients.any fun client =>
    (client.device c.toClaimCrypto).toOption.any fun device =>
      !m.authorized c device client.roster.userId

/-- A device may be admitted with its claim: the sender and this installation are authorized, and
    no current roster speaks against it. -/
def authorizeCurrentAdmission (m : DeviceMembership) (identity : DeviceIdentity)
    (sender : DeviceDescriptor) (senderRoster : DeviceRoster) (claim : IdentityClaim) :
    Except PrivateDmRuntimeError Unit := do
  check invalid (!m.revoked && !(← identity.revoked c) &&
    m.authorized c sender senderRoster.userId)
  let own := if identity.roster.userId = claim.roster.userId then [identity.roster] else []
  for current in senderRoster :: ((m.currentRoster c claim.roster.userId).toList ++ own) do
    if ← orError invalid (current.extends c.toRosterCrypto claim.roster) then
      check invalid (← orError invalid (current.authorizesAdmitted c.toRosterCrypto claim.roster
        (← claim.device c.toClaimCrypto)))
    else check invalid (← orError invalid (claim.roster.extends c.toRosterCrypto current))

/-! ## Retaining evidence -/

/-- Retain the evidence of an admission. -/
def retainEpoch (m : DeviceMembership) (record : EpochRecord) :
    Except PrivateDmRuntimeError DeviceMembership := do
  check invalid (!m.removals.any fun journal => journal.evidence.epoch = record.epoch)
  match m.epochRecords.find? fun existing => existing.epoch = record.epoch with
  | some existing =>
    check invalid (decide (existing.commit = record.commit) &&
      decide (existing.groupId = record.groupId) &&
      decide (existing.authorDeviceId = record.authorDeviceId))
    return m
  | none => return { m with epochRecords := m.epochRecords ++ [record] }

/-- Retain the evidence of a removal. -/
def retainRemoval (m : DeviceMembership) (evidence : RemovalRecord) (localDevice : String) :
    Except PrivateDmRuntimeError DeviceMembership := do
  check invalid (!m.epochRecords.any fun record => record.epoch = evidence.epoch)
  match m.removals.find? fun journal => journal.evidence.epoch = evidence.epoch with
  | some existing =>
    check invalid (decide ((← existing.evidence.digest c) = (← evidence.digest c)))
    return m
  | none =>
    let others := m.topology.clients.filter fun client =>
      client.deviceId ≠ localDevice && client.deviceId ≠ evidence.author
    let waiting ← others.mapM fun client =>
      return (← client.device c.toClaimCrypto).mossPeerId
    return { m with removals := m.removals ++ [⟨evidence, waiting⟩] }

/-- Nothing waits for a removed device any more. -/
def forgetRemovedPeer (m : DeviceMembership) (target : String) :
    Except PrivateDmRuntimeError DeviceMembership := do
  let client ← getOr invalid (m.deviceClient target)
  let peer := (← client.device c.toClaimCrypto).mossPeerId
  let delivery := (m.delivery.filter fun journal =>
    journal.admission.request.claim.deviceId ≠ target).map fun journal =>
      { journal with waiting := journal.waiting.filter (· ≠ peer) }
  let removals := m.removals.map fun journal =>
    { journal with waiting := journal.waiting.filter (· ≠ peer) }
  let recovery := m.recovery.map fun recovery =>
    if recovery.source.any (·.deviceId = target) then
      { recovery with source := none, startedMs := 0 }
    else recovery
  return { m with delivery, removals, recovery }

/-- A newer epoch is needed: recover it. -/
def requireEpoch (m : DeviceMembership) (epoch current nowMs : Nat) : DeviceMembership :=
  let recovery := m.recovery.getD ⟨0, 0, nowMs, current, none⟩
  { m with
    recovery := some { recovery with
      requiredEpoch := max recovery.requiredEpoch epoch
      source := recovery.source.map fun source => { source with epoch := max source.epoch epoch } } }

/-! ## The next removal -/

/-- One turn of the loop of `nextLocalRemoval`: the client with the earlier removal is kept. -/
def earlierRemoval (identity : DeviceIdentity) (next : Option (IdentityClaim × DeviceRoster))
    (client : IdentityClaim) :
    Except PrivateDmRuntimeError (Option (IdentityClaim × DeviceRoster)) := do
  if client.roster.userId ≠ identity.roster.userId then return next
  match ← orError invalid
      (identity.roster.firstRemovalSince c.toRosterCrypto client.roster client.deviceId) with
  | none => return next
  | some roster =>
    if next.all fun (_, previous) => holds (previous.extends c.toRosterCrypto roster) then
      return some (client, roster)
    else return next

/-- The client that this installation is to remove next, and the roster that ends with its
    removal: the first one in the order of the roster, if this installation signed it. -/
def nextLocalRemoval (m : DeviceMembership) (identity : DeviceIdentity) :
    Except PrivateDmRuntimeError (Option (IdentityClaim × DeviceRoster)) := do
  let next ← m.topology.clients.foldlM (earlierRemoval c identity) none
  match next with
  | none => return none
  | some (target, roster) =>
    let author ← orError invalid (roster.removalAuthor c.toRosterCrypto target.deviceId)
    return if author = some identity.device.deviceId then next else none

end DeviceMembership

/-- The peers that wait for an admission. -/
def AdmissionJournal.new (admission : Admission) (localDevice : String) :
    Except PrivateDmRuntimeError AdmissionJournal := do
  let devices ← admission.topology.clients.mapM fun client => client.device c.toClaimCrypto
  let others := devices.filter fun device => device.deviceId ≠ localDevice
  return ⟨admission, others.map (·.mossPeerId)⟩

end Code

end Mosh.DmDevices
