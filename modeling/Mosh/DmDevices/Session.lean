import Mosh.DmDevices.Membership
import Mosh.Library.Run

/-!
# Sessions with several devices

What a session does with its devices (`private_dm_runtime/devices`): it accepts the claims of
its clients and makes its own, admits devices and applies the admissions of others, carries out
removals and applies those of others, and recovers the commits it has missed. A commit is staged
on a copy of the MLS state, and installed together with the membership once both are saved;
claims are noted in place.

The MLS implementation is third-party code: a session is modelled over any implementation of the
operations that it calls (`OpenMls`). So are the transport and the store, of which a call only
sees the answers (`Host`).

`PrivateDmSession.step` is the session after any one of these calls.
-/

namespace Mosh.DmDevices

open DeviceLink Checked

/-! ## MLS -/

/-- A leaf of a group. -/
structure Member where
  index : Nat
  signatureKey : List UInt8
  deriving DecidableEq, Repr

/-- What comes with an added member. -/
structure AddOutcome where
  commitBytes : List UInt8
  welcomeBytes : List UInt8
  treeBytes : List UInt8
  deriving DecidableEq, Repr

/-- The operations of an MLS implementation on the state of a member. -/
structure OpenMls (σ : Type) where
  /-- The epoch and the id of the group; `none` before it exists. -/
  epoch : σ → Option Nat
  groupId : σ → Option (List UInt8)
  members : σ → List Member
  ownLeafIndex : σ → Nat
  signerPublic : σ → List UInt8
  /-- A copy of the state, from its snapshot. -/
  restore : σ → Except PrivateDmRuntimeError σ
  /-- Process a message: the state after it, the leaf of its sender and, if it is one of an
      application, its text. -/
  processMessage : σ → List UInt8 →
    σ × Except PrivateDmRuntimeError (Option Nat × Option (List UInt8))
  addMembers : σ → List UInt8 → Except PrivateDmRuntimeError (σ × AddOutcome)
  removeLeaves : σ → List Nat → Except PrivateDmRuntimeError (σ × List UInt8)
  /-- Validate a commit, at a time if one is given, and merge it: the leaf of its sender and the
      state after it. -/
  stageCommit : Option Nat → σ → List UInt8 → Except PrivateDmRuntimeError (Option Nat × σ)
  joinWelcome : σ → List UInt8 → List UInt8 → Except PrivateDmRuntimeError σ
  /-- Join the group of an invitation, whose owner is pinned. -/
  joinWelcomePinned : σ → List UInt8 → List UInt8 → Except PrivateDmRuntimeError σ
  /-- The credential and the signature key of a key package, validated at a time if one is
      given. -/
  keyPackage : Option Nat → List UInt8 → Except PrivateDmRuntimeError (String × List UInt8)

/-- What a session uses of libraries. -/
structure DmCrypto (Key Signature σ : Type) extends EvidenceCrypto Key Signature where
  mls : OpenMls σ
  /-- A claim from its JSON. -/
  decodeClaim : List UInt8 → Except PrivateDmRuntimeError IdentityClaim

/-- The answers of the store and of the transport to a call, and the time. -/
structure Host where
  nowMs : Nat
  /-- There is a store, and what it says to a write. -/
  store : Option (Except PrivateDmRuntimeError Unit)
  /-- What the transport says to a packet. -/
  send : Except PrivateDmRuntimeError Unit
  /-- If this installation could save a removal of its own account. -/
  adopt : Except PrivateDmRuntimeError Unit

/-- A session. -/
structure PrivateDmSession (σ : Type) where
  sessionId : String
  /-- The name that this installation shows. -/
  deviceId : String
  crypto : σ
  peerJoined : Bool := false
  membership : Option DeviceMembership := none

/-- The evidence of an admission, as the answer to a pull. -/
structure RecoveryEpoch where
  round : Nat
  requestId : String
  evidence : EpochRecord
  deriving DecidableEq, Repr

/-- The evidence of a removal, as the answer to a pull. -/
structure RecoveryRemoval where
  round : Nat
  requestId : String
  evidence : RemovalRecord
  deriving DecidableEq, Repr

/-- A device asks for what it has missed since its epoch. -/
structure RecoveryPull where
  round : Nat
  epoch : Nat
  sessionId : String
  requestId : String
  deriving DecidableEq, Repr

/-- The answer to a pull: the next commit, or messages if no commit is missing. -/
inductive RecoveryAnswer
  | epoch (response : RecoveryEpoch)
  | removal (response : RecoveryRemoval)
  | batch
  deriving DecidableEq, Repr

/-- The next number, if it fits into 64 bits. -/
def checkedSucc (n : Nat) : Option Nat := if n + 1 < 2 ^ 64 then some (n + 1) else none

def maxRequestIdBytes : Nat := 128

section Code

variable {Key Signature σ : Type} (c : DmCrypto Key Signature σ)

namespace DmCrypto

/-- The signature keys of the members. -/
def memberSigners (x : σ) : List String :=
  (c.mls.members x).map fun member => c.hexEncode member.signatureKey

/-- The own signature key. -/
def ownSigner (x : σ) : String := c.hexEncode (c.mls.signerPublic x)

/-- The text of a message of an application, with the key of the leaf that sent it. -/
def decryptWithSigner (x : σ) (ciphertext : List UInt8) :
    σ × Except PrivateDmRuntimeError (List UInt8 × List UInt8) :=
  let (x, processed) := c.mls.processMessage x ciphertext
  (x, do
    let (sender, body) ← processed
    let index ← getOr .notReady sender
    let member ← getOr .notReady ((c.mls.members x).find? (·.index = index))
    return (← getOr (.openMls "expected application message") body, member.signatureKey))

/-- Process a commit, of a given signer if one is expected. -/
def processCommit (time : Option Nat) (x : σ) (commit : List UInt8) (expected : Option String) :
    Except PrivateDmRuntimeError σ := do
  let candidate ← c.mls.restore x
  let (sender, next) ← c.mls.stageCommit time candidate commit
  let index ← getOr .notReady sender
  let author ← getOr .notReady ((c.mls.members candidate).find? (·.index = index))
  check .notReady (expected.all (· = c.hexEncode author.signatureKey))
  return next

/-- Remove the leaf of a signer, other than our own. -/
def removeMemberBySigner (x : σ) (signer : String) :
    Except PrivateDmRuntimeError (σ × List UInt8) := do
  let target ← getOr .notReady ((c.mls.members x).find? fun member =>
    c.hexEncode member.signatureKey = signer && member.index ≠ c.mls.ownLeafIndex x)
  c.mls.removeLeaves x [target.index]

end DmCrypto

namespace PrivateDmSession

variable (s : PrivateDmSession σ)

/-- The session that a packet is for is this one. -/
def sessionRef (id : String) : Except PrivateDmRuntimeError Unit :=
  check .missingSession (decide (id = s.sessionId))

/-- The epoch after the one of the session. -/
def nextEpoch : Option Nat := (c.mls.epoch s.crypto).bind checkedSucc

/-- The session with another MLS state and membership. A new epoch is a new handshake. -/
def installed (crypto : σ) (membership : DeviceMembership) : PrivateDmSession σ :=
  { s with
    crypto := crypto
    membership := some membership
    peerJoined := s.peerJoined || decide (c.mls.epoch s.crypto ≠ c.mls.epoch crypto) }

/-- Install a staged commit with its membership, once both are saved. -/
def installDeviceTransition (host : Host) (crypto : σ) (membership : DeviceMembership) :
    PrivateDmSession σ × Except PrivateDmRuntimeError Unit :=
  match (do ← getOr invalid host.store) with
  | .error e => (s, .error e)
  | .ok () => (s.installed c crypto membership, .ok ())

/-- Save and install what was staged, if anything was, and go on. -/
def transition (host : Host)
    (staged : Except PrivateDmRuntimeError (Option (σ × DeviceMembership)))
    (after : Except PrivateDmRuntimeError Unit) :
    PrivateDmSession σ × Except PrivateDmRuntimeError Unit :=
  match staged with
  | .error e => (s, .error e)
  | .ok none => (s, after)
  | .ok (some (crypto, next)) =>
    match s.installDeviceTransition c host crypto next with
    | (s, .error e) => (s, .error e)
    | (s, .ok ()) => (s, after)

/-- Save a membership in place. -/
def saveRecoveryMembership (host : Host) (next : DeviceMembership) :
    PrivateDmSession σ × Except PrivateDmRuntimeError Unit :=
  match (do ← getOr invalid host.store) with
  | .error e => (s, .error e)
  | .ok () => ({ s with membership := some next }, .ok ())

/-! ## Claims -/

/-- A claim of this installation. -/
def ownClaim (identity : DeviceIdentity) (roster : DeviceRoster) :
    Except PrivateDmRuntimeError IdentityClaim := do
  let newer ← orError invalid (roster.extends c.toRosterCrypto identity.roster)
  let older ← orError invalid (identity.roster.extends c.toRosterCrypto roster)
  check invalid ((newer || older) &&
    decide (identity.device ∈ (← orError invalid (identity.roster.devices c.toRosterCrypto))) &&
    decide (identity.device ∈ (← orError invalid (roster.devices c.toRosterCrypto))))
  let claim : IdentityClaim :=
    ⟨s.sessionId, roster, identity.device.deviceId, c.ownSigner s.crypto, s.deviceId, ""⟩
  return { claim with signature := identity.sign (← claim.bytes c.toClaimCrypto) }

/-- The claim that this installation makes now. While a removal is outstanding, it is one with
    the installed roster. -/
def currentDeviceClaim (identity : DeviceIdentity) :
    Except PrivateDmRuntimeError IdentityClaim := do
  let current := s.membership.bind fun m => m.topology.roster identity.roster.userId
  let pending := s.membership.any fun m =>
    m.pendingRemoval c.toEvidenceCrypto ||
    (current.any fun roster => holds (identity.roster.hasRemovalSince c.toRosterCrypto roster)) ||
    m.topology.clients.any fun client =>
      decide (client.roster.userId = identity.roster.userId) &&
      holds (identity.roster.revokedSince c.toRosterCrypto client.roster client.deviceId)
  match current with
  | none => s.ownClaim c identity identity.roster
  | some roster =>
    if pending then s.ownClaim c identity roster
    else if ← orError invalid (roster.extends c.toRosterCrypto identity.roster) then
      s.ownClaim c identity roster
    else s.ownClaim c identity identity.roster

/-- A claim is added to the topology in place. -/
def addClaim (m : DeviceMembership) (claim : IdentityClaim) :
    PrivateDmSession σ × Except PrivateDmRuntimeError Unit :=
  let (topology, added) := m.topology.addClient c.toClaimCrypto claim
  ({ s with membership := some { m with topology } }, added)

/-- The membership, or a new one with the own user alone. -/
def startMembership (identity : DeviceIdentity) : DeviceMembership :=
  s.membership.getD { topology := ⟨identity.roster.userId, [], []⟩ }

/-- The roster of a claim is not that of the one before. -/
def claimChanged (m : DeviceMembership) (claim : IdentityClaim) :
    Except PrivateDmRuntimeError Bool := do
  let old ← (m.topology.client claim.mlsSigner).mapM fun old =>
    orError invalid (digest c.toRosterCrypto old.roster)
  return decide (old ≠ some (← orError invalid (digest c.toRosterCrypto claim.roster)))

/-- Make the own claim, if its roster has changed. -/
def refreshDeviceIdentity (identity : DeviceIdentity) :
    PrivateDmSession σ × Except PrivateDmRuntimeError Unit :=
  if s.membership.any (·.revoked) then (s, .ok ())
  else
    match s.currentDeviceClaim c identity with
    | .error e => (s, .error e)
    | .ok claim =>
      let m := s.startMembership identity
      let s := { s with membership := some m }
      if m.topology.ownUserId ≠ identity.roster.userId then (s, .error invalid)
      else
        match claimChanged c m claim with
        | .error e => (s, .error e)
        | .ok false => (s, .ok ())
        | .ok true => s.addClaim c m claim

/-- The checks of a claim before its roster is looked at. -/
def checkClaim (body signer : List UInt8) :
    Except PrivateDmRuntimeError (IdentityClaim × DeviceMembership) := do
  let claim ← c.decodeClaim body
  claim.verify c.toClaimCrypto s.sessionId
  check invalid (decide (claim.mlsSigner = c.hexEncode signer))
  let m ← getOr invalid s.membership
  match m.topology.client claim.mlsSigner with
  | some existing => check invalid (decide (existing.roster.userId = claim.roster.userId))
  | none =>
    check invalid (decide ((c.mls.members s.crypto).length = initialClients) &&
      decide (claim.roster.userId ≠ m.topology.ownUserId))
  return (claim, m)

/-- The device of a claim is authorized, if a roster of its user is known. -/
def checkKnown (m : DeviceMembership) (claim : IdentityClaim) :
    Except PrivateDmRuntimeError Unit := do
  let device ← claim.device c.toClaimCrypto
  check invalid ((m.currentRoster c.toEvidenceCrypto claim.roster.userId).isNone ||
    m.authorized c.toEvidenceCrypto device claim.roster.userId)

/-- A claim of a known client, or the first one of the counterpart: its roster is pinned if it
    removes something, and otherwise the claim is added. -/
def acceptClaim (body signer : List UInt8) :
    PrivateDmSession σ × Except PrivateDmRuntimeError Unit :=
  match s.checkClaim c body signer with
  | .error e => (s, .error e)
  | .ok (claim, m) =>
    match m.observeRosterRemoval c.toEvidenceCrypto claim.roster with
    | .error e => (s, .error e)
    | .ok (next, true) => ({ s with membership := some next }, .ok ())
    | .ok (m, false) =>
      match checkKnown c m claim with
      | .error e => (s, .error e)
      | .ok () =>
        match s.addClaim c m claim with
        | (s, .error e) => (s, .error e)
        | (s, .ok ()) =>
          -- another user's claim proves that the counterpart is there
          let proves := decide (claim.roster.userId ≠ m.topology.ownUserId) &&
            (c.mls.epoch s.crypto).isSome
          ({ s with peerJoined := s.peerJoined || proves }, .ok ())

/-- A claim that comes encrypted. -/
def acceptIdentityClaim (ciphertext : Except PrivateDmRuntimeError (List UInt8)) :
    PrivateDmSession σ × Except PrivateDmRuntimeError Unit :=
  match ciphertext with
  | .error e => (s, .error e)
  | .ok ciphertext =>
    match c.decryptWithSigner s.crypto ciphertext with
    | (crypto, .error e) => ({ s with crypto }, .error e)
    | (crypto, .ok (body, signer)) => { s with crypto }.acceptClaim c body signer

/-! ## Admissions -/

/-- A request to join is well formed, and its key package is that of the claim. -/
def verifyRequest (time : Option Nat) (request : JoinRequest) :
    Except PrivateDmRuntimeError Unit := do
  request.claim.verify c.toClaimCrypto request.claim.sessionId
  let (identity, signer) ← c.mls.keyPackage time request.keyPackage
  check invalid (!request.requestId.isEmpty &&
    decide (request.requestId.utf8ByteSize ≤ maxRequestIdBytes) &&
    decide (identity = request.claim.deviceId) &&
    decide (c.hexEncode signer = request.claim.mlsSigner))

/-- The sender may admit a device: it is a client of the same account. -/
def verifyAuthorizer (m : DeviceMembership) (sender : DeviceDescriptor) (roster : DeviceRoster)
    (admission : Admission) : Except PrivateDmRuntimeError Unit := do
  let author ← getOr invalid (m.deviceClient sender.deviceId)
  let base ← getOr invalid (m.topology.roster roster.userId)
  let claim := admission.request.claim
  check invalid (decide (author.roster.userId = claim.roster.userId) &&
    decide (roster.userId = author.roster.userId))
  check invalid (← orError invalid (roster.extends c.toRosterCrypto base))
  check invalid (← orError invalid (claim.roster.extends c.toRosterCrypto base))
  check invalid (decide (sender ∈ (← orError invalid (claim.roster.devices c.toRosterCrypto))))

/-- The MLS state after an admission: the own one of a device that joins, or the next commit of
    the group. -/
def admissionCrypto (time : Option Nat) (joining : Option PendingJoin) (copy : σ) (admission : Admission) :
    Except PrivateDmRuntimeError σ :=
  match joining with
  | some join => do
    check invalid (decide (join.request.requestId = admission.request.requestId) &&
      decide (join.request.keyPackage = admission.request.keyPackage) &&
      decide (join.groupId = admission.groupId))
    c.mls.joinWelcome copy admission.welcome admission.tree
  | none => do
    check invalid (decide ((c.mls.epoch copy).bind checkedSucc = some admission.epoch) &&
      decide (c.mls.groupId copy = some admission.groupId))
    c.processCommit time copy admission.commit none

/-- Stage an admission. -/
def stageAdmission (time : Option Nat) (admission : Admission) :
    Except PrivateDmRuntimeError (σ × DeviceMembership) := do
  let m ← getOr invalid s.membership
  let copy ← c.mls.restore s.crypto
  let crypto ← admissionCrypto c time m.joining copy admission
  let (topology, added) := m.topology.addClient c.toClaimCrypto admission.request.claim
  added
  topology.validate c.toClaimCrypto s.sessionId (c.memberSigners crypto)
  check invalid (decide (c.mls.epoch crypto = some admission.epoch) &&
    decide (c.mls.groupId crypto = some admission.groupId))
  return (crypto, { m with topology, joining := none })

/-- Admit a device of the own account that asks to join. -/
def stageJoin (host : Host) (identity : DeviceIdentity) (sender : DeviceDescriptor)
    (request : JoinRequest) :
    Except PrivateDmRuntimeError (Option (σ × DeviceMembership)) := do
  s.sessionRef request.claim.sessionId
  let m ← getOr invalid s.membership
  verifyRequest c none request
  check invalid (decide (sender.deviceId = request.claim.deviceId))
  check invalid (decide ((← orError invalid (digest c.toRosterCrypto request.claim.roster)) =
    (← orError invalid (digest c.toRosterCrypto identity.roster))))
  check invalid (decide (identity.roster.userId = m.topology.ownUserId))
  if (m.topology.client request.claim.mlsSigner).isSome || m.delivery.isSome then return none
  m.topology.validate c.toClaimCrypto s.sessionId (c.memberSigners s.crypto)
  let copy ← c.mls.restore s.crypto
  let (crypto, outcome) ← c.mls.addMembers copy request.keyPackage
  let (topology, added) := m.topology.addClient c.toClaimCrypto request.claim
  added
  topology.validate c.toClaimCrypto s.sessionId (c.memberSigners crypto)
  let groupId ← getOr invalid (c.mls.groupId crypto)
  let epoch ← getOr invalid (c.mls.epoch crypto)
  let admission : Admission := ⟨request, outcome.commitBytes, outcome.welcomeBytes,
    outcome.treeBytes, topology, groupId, epoch, none⟩
  let evidence ← EpochRecord.create c.toEvidenceCrypto identity admission host.nowMs
  let next ← { m with topology }.retainEpoch evidence
  let journal ← AdmissionJournal.new c.toEvidenceCrypto
    { admission with recoveryAuthorization := some evidence.authorization }
    identity.device.deviceId
  return some (crypto, { next with delivery := some journal })

/-- Answer a device of the own account that asks to join. -/
def authorizeDeviceJoin (host : Host) (identity : DeviceIdentity) (sender : DeviceDescriptor)
    (request : JoinRequest) : PrivateDmSession σ × Except PrivateDmRuntimeError Unit :=
  s.transition c host (s.stageJoin c host identity sender request) (.ok ())

/-- Stage an admission that a device sends; one that was applied is only acknowledged. -/
def stageReceivedAdmission (identity : DeviceIdentity) (sender : DeviceDescriptor)
    (senderRoster : DeviceRoster) (admission : Admission) :
    Except PrivateDmRuntimeError (Option (σ × DeviceMembership)) := do
  s.sessionRef admission.request.claim.sessionId
  let m ← getOr invalid s.membership
  verifyAuthorizer c m sender senderRoster admission
  m.authorizeCurrentAdmission c.toEvidenceCrypto identity sender senderRoster
    admission.request.claim
  verifyRequest c none admission.request
  let evidence ← EpochRecord.fromAdmission c.toEvidenceCrypto sender senderRoster admission
  if m.joining.isNone && decide (c.mls.epoch s.crypto = some admission.epoch) &&
      (m.topology.client admission.request.claim.mlsSigner).isSome then return none
  let (crypto, next) ← s.stageAdmission c none admission
  match evidence with
  | some evidence => return some (crypto, ← next.retainEpoch evidence)
  | none => return some (crypto, next)

/-- Apply an admission. -/
def applyDeviceAdmission (host : Host) (identity : DeviceIdentity) (sender : DeviceDescriptor)
    (senderRoster : DeviceRoster) (admission : Admission) :
    PrivateDmSession σ × Except PrivateDmRuntimeError Unit :=
  s.transition c host (s.stageReceivedAdmission c identity sender senderRoster admission) host.send

/-- One counterpart has saved the admission for its user, and the joining device its own. -/
def accepted (journal : AdmissionJournal) : Except PrivateDmRuntimeError Bool := do
  let claim := journal.admission.request.claim
  let joining ← claim.device c.toClaimCrypto
  if joining.mossPeerId ∈ journal.waiting then return false
  journal.admission.topology.clients.foldlM (fun found client => do
    if found || decide (client.roster.userId = claim.roster.userId) then return found
    return decide ((← client.device c.toClaimCrypto).mossPeerId ∉ journal.waiting)) false

/-- A device has saved the admission. -/
def acknowledgeDeviceAdmission (host : Host) (sender : DeviceDescriptor) (roster : DeviceRoster)
    (id request : String) (epoch : Nat) :
    PrivateDmSession σ × Except PrivateDmRuntimeError Unit :=
  s.transition c host (do
    s.sessionRef id
    let m ← getOr invalid s.membership
    let base ← getOr invalid (m.topology.roster roster.userId)
    check invalid (← orError invalid (roster.extends c.toRosterCrypto base))
    check invalid (m.deviceClient sender.deviceId).isSome
    match m.delivery with
    | none => return none
    | some journal =>
      check invalid (decide (journal.admission.request.requestId = request) &&
        decide (journal.admission.epoch = epoch))
      let journal := { journal with waiting := journal.waiting.filter (· ≠ sender.mossPeerId) }
      let delivery := if ← accepted c journal then none else some journal
      return some (← c.mls.restore s.crypto, { m with delivery })) (.ok ())

/-! ## Relays -/

/-- A commit is outstanding: a removal, or one that recovery needs. -/
def awaitingDeviceEpoch : Bool :=
  s.membership.any fun m => m.pendingRemoval c.toEvidenceCrypto ||
    m.recovery.any fun recovery =>
      (c.mls.epoch s.crypto).all fun epoch => epoch < recovery.requiredEpoch

/-- The sender is an authorized client, other than this one. -/
def authorizeRecoveryDevice (sender : DeviceDescriptor) (roster : DeviceRoster) :
    Except PrivateDmRuntimeError Unit := do
  let m ← getOr invalid s.membership
  m.topology.validate c.toClaimCrypto s.sessionId (c.memberSigners s.crypto)
  let client ← getOr invalid (m.deviceClient sender.deviceId)
  let current ← getOr invalid (m.topology.roster roster.userId)
  check invalid (m.joining.isNone && m.authorized c.toEvidenceCrypto sender roster.userId &&
    s.peerJoined && decide (client.mlsSigner ≠ c.ownSigner s.crypto))
  check invalid (decide ((← client.device c.toClaimCrypto) = sender) &&
    decide (sender ∈ (← orError invalid (current.devices c.toRosterCrypto))))
  let newer ← orError invalid (roster.extends c.toRosterCrypto current)
  let older ← orError invalid (current.extends c.toRosterCrypto roster)
  check invalid (newer || older)

/-- The sender is in the current roster of a user. -/
def authorizeRosterRelay (sender : DeviceDescriptor) (roster : DeviceRoster) :
    Except PrivateDmRuntimeError Unit := do
  let m ← getOr invalid s.membership
  m.topology.validate c.toClaimCrypto s.sessionId (c.memberSigners s.crypto)
  let current ← getOr invalid (m.currentRoster c.toEvidenceCrypto roster.userId)
  let effective ←
    if ← orError invalid (roster.extends c.toRosterCrypto current) then pure roster
    else do
      check invalid (← orError invalid (current.extends c.toRosterCrypto roster))
      pure current
  check invalid (!m.revoked && m.joining.isNone && s.peerJoined &&
    decide (sender ∈ (← orError invalid (effective.devices c.toRosterCrypto))))

/-- The sender may relay a commit that was missed. -/
def authorizeEpochRelay (sender : DeviceDescriptor) (roster : DeviceRoster) :
    Except PrivateDmRuntimeError Unit :=
  match s.authorizeRecoveryDevice c sender roster with
  | .ok () => .ok ()
  | .error _ => do
    check invalid (s.awaitingDeviceEpoch c)
    s.authorizeRosterRelay c sender roster

/-- The sender may relay a removal. -/
def authorizeRemovalRelay (sender : DeviceDescriptor) (roster : DeviceRoster) :
    Except PrivateDmRuntimeError Unit := do
  let m ← getOr invalid s.membership
  let client ← getOr invalid (m.deviceClient sender.deviceId)
  let current ← getOr invalid (m.topology.roster roster.userId)
  check invalid (m.authorized c.toEvidenceCrypto sender roster.userId &&
    decide ((← client.device c.toClaimCrypto) = sender))
  let older ← orError invalid (current.extends c.toRosterCrypto roster)
  let newer ← orError invalid (roster.extends c.toRosterCrypto current)
  check invalid (older || newer)

end PrivateDmSession

/-! ## Removals -/

namespace RemovalRecord

variable (record : RemovalRecord) (s : PrivateDmSession σ)

/-- The evidence of a removal of our own. -/
def create (identity : DeviceIdentity) (session target : String) (roster : DeviceRoster)
    (crypto : σ) (commit : List UInt8) : Except PrivateDmRuntimeError RemovalRecord := do
  let groupId ← getOr invalid (c.mls.groupId crypto)
  let epoch ← getOr invalid (c.mls.epoch crypto)
  let record : RemovalRecord :=
    ⟨session, identity.device.deviceId, target, roster, commit, groupId, epoch, ""⟩
  return { record with signature := identity.sign (← record.bytes c.toEvidenceCrypto) }

/-- The removal is for the session and its group, extends a roster, and is signed. -/
def verifyContext (author : DeviceDescriptor) (base : DeviceRoster) :
    Except PrivateDmRuntimeError Unit := do
  let groupId ← getOr invalid (c.mls.groupId s.crypto)
  check invalid (decide (record.sessionId = s.sessionId) && decide (record.groupId = groupId))
  orError invalid
    (record.roster.verifiesRemovalExtension c.toRosterCrypto base record.target record.author)
  DmDevices.verify c.toClaimCrypto author.signingPublicKey record.signature
    (← record.bytes c.toEvidenceCrypto)

/-- The author is an active client. -/
def verifyAuthor : Except PrivateDmRuntimeError IdentityClaim := do
  let m ← getOr invalid s.membership
  let author ← getOr invalid (m.deviceClient record.author)
  let base ← getOr invalid (m.topology.roster author.roster.userId)
  let device ← author.device c.toClaimCrypto
  check invalid (decide (device ∈ (← orError invalid (base.devices c.toRosterCrypto))))
  record.verifyContext c s device base
  return author

/-- A removal that is ahead is signed by a device of its own roster. -/
def verifyHint : Except PrivateDmRuntimeError Unit := do
  let m ← getOr invalid s.membership
  let base ← getOr invalid (m.topology.roster record.roster.userId)
  let devices ← orError invalid (record.roster.devices c.toRosterCrypto)
  let author ← getOr invalid (devices.find? fun device => device.deviceId = record.author)
  record.verifyContext c s author base

/-- The removal is one of a client, by a client of the same account: the leaf of its author. -/
def verify : Except PrivateDmRuntimeError String := do
  let author ← record.verifyAuthor c s
  let m ← getOr invalid s.membership
  let target ← getOr invalid (m.deviceClient record.target)
  let base ← getOr invalid (m.topology.roster author.roster.userId)
  check invalid (decide (target.roster.userId = author.roster.userId))
  orError invalid (record.roster.verifiesRemoval c.toRosterCrypto base record.target record.author)
  return author.mlsSigner

end RemovalRecord

namespace PrivateDmSession

variable (s : PrivateDmSession σ)

/-- The membership after a removal. -/
def nextMembership (evidence : RemovalRecord) (crypto : σ) (localDevice : String) :
    Except PrivateDmRuntimeError DeviceMembership := do
  let m ← getOr invalid s.membership
  let next ← m.forgetRemovedPeer c.toEvidenceCrypto evidence.target
  let clients := next.topology.clients.filter fun client => client.deviceId ≠ evidence.target
  let topology ← { next.topology with clients }.updateRoster c.toClaimCrypto evidence.roster
  topology.validate c.toClaimCrypto s.sessionId (c.memberSigners crypto)
  check invalid (decide (c.mls.epoch crypto = some evidence.epoch) &&
    decide (c.mls.groupId crypto = some evidence.groupId))
  let next ← { next with topology }.retainRemoval c.toEvidenceCrypto evidence localDevice
  return { next with
    recovery := next.recovery.map fun recovery =>
      { recovery with requiredEpoch := max recovery.requiredEpoch evidence.epoch } }

/-- Stage the next removal that this installation has to carry out. -/
def stageOwnRemoval (identity : DeviceIdentity) :
    Except PrivateDmRuntimeError (Option (σ × DeviceMembership)) := do
  if ← identity.revoked c.toEvidenceCrypto then return none
  match s.membership with
  | none => return none
  | some m =>
    if m.joining.isSome || !s.peerJoined then return none
    match ← m.nextLocalRemoval c.toEvidenceCrypto identity with
    | none => return none
    | some (target, roster) =>
      let copy ← c.mls.restore s.crypto
      let (crypto, commit) ← c.removeMemberBySigner copy target.mlsSigner
      let evidence ←
        RemovalRecord.create c identity s.sessionId target.deviceId roster crypto commit
      return some (crypto, ← s.nextMembership c evidence crypto identity.device.deviceId)

/-- Carry out the next removal. -/
def originateRemoval (host : Host) (identity : DeviceIdentity) :
    PrivateDmSession σ × Except PrivateDmRuntimeError Unit :=
  s.transition c host (s.stageOwnRemoval c identity) (.ok ())

/-- The own roster has changed: this installation may be revoked, or a newer roster is pinned. -/
def noteRosterRevocation (identity : DeviceIdentity) :
    PrivateDmSession σ × Except PrivateDmRuntimeError Unit :=
  match s.membership with
  | none => (s, .ok ())
  | some m =>
    let obsolete := (m.topology.client (c.ownSigner s.crypto)).any fun client =>
      holds (identity.roster.revokedSince c.toRosterCrypto client.roster client.deviceId)
    let next : Except PrivateDmRuntimeError DeviceMembership := do
      if (← identity.revoked c.toEvidenceCrypto) || obsolete then
        return { m with revoked := true }
      match m.currentRoster c.toEvidenceCrypto identity.roster.userId with
      | none => return m.setPending identity.roster
      | some known =>
        if (digest c.toRosterCrypto known).toOption =
            (digest c.toRosterCrypto identity.roster).toOption then return m
        if ← orError invalid (identity.roster.extends c.toRosterCrypto known) then
          return m.setPending identity.roster
        return m
    match next with
    | .error e => (s, .error e)
    | .ok next => ({ s with membership := some next }, .ok ())

/-- Stage a removal: the next commit of the group, by its author. -/
def stageRemoval (evidence : RemovalRecord) (localDevice : String) :
    Except PrivateDmRuntimeError (σ × DeviceMembership) := do
  let author ← evidence.verify c s
  check invalid (decide (s.nextEpoch c = some evidence.epoch))
  let copy ← c.mls.restore s.crypto
  let crypto ← c.processCommit none copy evidence.commit (some author)
  return (crypto, ← s.nextMembership c evidence crypto localDevice)

/-- A removal that is ahead of the session is a hint: its roster is pinned, and the commits that
    are missing are recovered. -/
def bootstrapFutureRemoval (host : Host) (sender : DeviceDescriptor) (roster : DeviceRoster)
    (evidence : RemovalRecord) : Except PrivateDmRuntimeError (Option DeviceMembership) := do
  let _ ← getOr invalid host.store
  s.sessionRef evidence.sessionId
  let epoch ← getOr invalid (c.mls.epoch s.crypto)
  if evidence.epoch ≤ (← getOr invalid (checkedSucc epoch)) then return none
  s.authorizeRosterRelay c sender roster
  evidence.verifyHint c s
  let m ← getOr invalid s.membership
  let next ← m.pinRoster c.toEvidenceCrypto evidence.roster
  return some (next.requireEpoch evidence.epoch epoch host.nowMs)

/-- Stage a removal that a device sends; one that was applied is only acknowledged. -/
def stageReceivedRemoval (identity : DeviceIdentity) (sender : DeviceDescriptor)
    (roster : DeviceRoster) (evidence : RemovalRecord) :
    Except PrivateDmRuntimeError (Option (σ × DeviceMembership)) := do
  s.sessionRef evidence.sessionId
  s.authorizeRemovalRelay c sender roster
  let m ← getOr invalid s.membership
  match m.removals.find? fun journal => journal.evidence.epoch = evidence.epoch with
  | some existing =>
    check invalid (decide ((← existing.evidence.digest c.toEvidenceCrypto) =
      (← evidence.digest c.toEvidenceCrypto)))
    return none
  | none => return some (← s.stageRemoval c evidence identity.device.deviceId)

/-- Apply a removal. -/
def receiveRemoval (host : Host) (identity : DeviceIdentity) (sender : DeviceDescriptor)
    (roster : DeviceRoster) (evidence : RemovalRecord) :
    PrivateDmSession σ × Except PrivateDmRuntimeError Unit :=
  match s.bootstrapFutureRemoval c host sender roster evidence with
  | .error e => (s, .error e)
  | .ok (some next) =>
    match s.saveRecoveryMembership host next with
    | (s, .error e) => (s, .error e)
    | (s, .ok ()) => (s, .error invalid)
  | .ok none =>
    s.transition c host (s.stageReceivedRemoval c identity sender roster evidence)
      (do host.adopt; host.send)

/-- A device has saved a removal. -/
def acknowledgeRemoval (host : Host) (sender : DeviceDescriptor) (roster : DeviceRoster)
    (id : String) (epoch : Nat) (digest : String) :
    PrivateDmSession σ × Except PrivateDmRuntimeError Unit :=
  let next : Except PrivateDmRuntimeError DeviceMembership := do
    s.sessionRef id
    s.authorizeRemovalRelay c sender roster
    let m ← getOr invalid s.membership
    let journal ← getOr invalid (m.removals.find? fun journal => journal.evidence.epoch = epoch)
    check invalid (decide ((← journal.evidence.digest c.toEvidenceCrypto) = digest))
    -- the journal that was found is the first one of the epoch
    let settle (journal : RemovalJournal) : RemovalJournal :=
      { journal with waiting := journal.waiting.filter (· ≠ sender.mossPeerId) }
    let index := m.removals.findIdx fun journal => journal.evidence.epoch = epoch
    return { m with removals := m.removals.modify index settle }
  match next with
  | .error e => (s, .error e)
  | .ok next => s.saveRecoveryMembership host next

/-! ## Recovery -/

/-- The source answers the request of this session. -/
def fromSource (recovery : Recovery) (sender : DeviceDescriptor) (round : Nat)
    (requestId : String) : Except PrivateDmRuntimeError Unit := do
  let source ← getOr invalid recovery.source
  check invalid (decide (source.deviceId = sender.deviceId) && decide (recovery.round = round) &&
    decide (source.requestId = requestId))

/-- Stage the evidence of an admission that was missed. -/
def stageRecoveryEpoch (host : Host) (sender : DeviceDescriptor) (roster : DeviceRoster)
    (response : RecoveryEpoch) :
    Except PrivateDmRuntimeError (Option (σ × DeviceMembership)) := do
  let evidence := response.evidence
  s.sessionRef evidence.request.claim.sessionId
  s.authorizeEpochRelay c sender roster
  let m ← getOr invalid s.membership
  let recovery ← getOr invalid m.recovery
  fromSource recovery sender response.round response.requestId
  check invalid (decide (s.nextEpoch c = some evidence.epoch) &&
    decide (c.mls.groupId s.crypto = some evidence.groupId))
  let author ← evidence.author c.toEvidenceCrypto
  let admission := evidence.admission m
  verifyAuthorizer c m author evidence.roster admission
  let time ← evidence.validationTime host.nowMs
  verifyRequest c time admission.request
  let (crypto, next) ← s.stageAdmission c time admission
  let next ← next.retainEpoch evidence
  let recovery ← getOr invalid next.recovery
  let _ ← getOr invalid recovery.source
  let recovery := { recovery with requiredEpoch := max recovery.requiredEpoch admission.epoch }
  return some (crypto,
    { next with recovery := some (recovery.sourceAt admission.epoch host.nowMs) })

/-- Apply the evidence of an admission that was missed. -/
def receiveRecoveryEpoch (host : Host) (sender : DeviceDescriptor) (roster : DeviceRoster)
    (response : RecoveryEpoch) : PrivateDmSession σ × Except PrivateDmRuntimeError Unit :=
  s.transition c host (s.stageRecoveryEpoch c host sender roster response) (.ok ())

/-- Stage the evidence of a removal that was missed. -/
def stageRecoveryRemoval (host : Host) (identity : DeviceIdentity) (sender : DeviceDescriptor)
    (roster : DeviceRoster) (response : RecoveryRemoval) :
    Except PrivateDmRuntimeError (Option (σ × DeviceMembership)) := do
  s.sessionRef response.evidence.sessionId
  s.authorizeRemovalRelay c sender roster
  let m ← getOr invalid s.membership
  let recovery ← getOr invalid m.recovery
  fromSource recovery sender response.round response.requestId
  let (crypto, next) ← s.stageRemoval c response.evidence identity.device.deviceId
  let recovery ← getOr invalid next.recovery
  let _ ← getOr invalid recovery.source
  return some (crypto,
    { next with recovery := some (recovery.sourceAt response.evidence.epoch host.nowMs) })

/-- Apply the evidence of a removal that was missed. -/
def receiveRecoveryRemoval (host : Host) (identity : DeviceIdentity) (sender : DeviceDescriptor)
    (roster : DeviceRoster) (response : RecoveryRemoval) :
    PrivateDmSession σ × Except PrivateDmRuntimeError Unit :=
  s.transition c host (s.stageRecoveryRemoval c host identity sender roster response)
    (do host.adopt; host.send)

/-- The evidence of the commit that follows on the epoch of a pull. -/
def recoveryEpochPacket (pull : RecoveryPull) : Except PrivateDmRuntimeError RecoveryAnswer := do
  let m ← getOr invalid s.membership
  let epoch ← getOr invalid (checkedSucc pull.epoch)
  match m.epochRecords.find? fun record => record.epoch = epoch with
  | some record => return .epoch ⟨pull.round, pull.requestId, record⟩
  | none =>
    let removal ← getOr invalid (m.removals.find? fun journal => journal.evidence.epoch = epoch)
    return .removal ⟨pull.round, pull.requestId, removal.evidence⟩

/-- Answer a pull. -/
def receiveRecoveryPull (sender : DeviceDescriptor) (roster : DeviceRoster)
    (pull : RecoveryPull) : Except PrivateDmRuntimeError RecoveryAnswer := do
  s.sessionRef pull.sessionId
  s.authorizeRecoveryDevice c sender roster
  if pull.epoch < (← getOr invalid (c.mls.epoch s.crypto)) then s.recoveryEpochPacket pull
  else do
    check invalid (!s.awaitingDeviceEpoch c)
    return .batch

/-! ## The first counterpart -/

/-- Admit the counterpart of an invitation, once. -/
def answerKeyPackage (host : Host) (package : List UInt8) :
    PrivateDmSession σ × Except PrivateDmRuntimeError Unit :=
  if s.peerJoined then (s, host.send)
  else
    match c.mls.addMembers s.crypto package with
    | .error e => (s, .error e)
    | .ok (crypto, _) =>
      match host.store with
      | some (.error e) =>
        match c.mls.restore s.crypto with
        | .error e => ({ s with crypto, peerJoined := true }, .error e)
        | .ok crypto => ({ s with crypto, peerJoined := false }, .error e)
      | _ => ({ s with crypto, peerJoined := true }, host.send)

/-- Join the group of an invitation, once. -/
def acceptWelcome (welcome tree : List UInt8) :
    PrivateDmSession σ × Except PrivateDmRuntimeError Unit :=
  if s.membership.any (·.joining.isSome) || s.peerJoined then (s, .ok ())
  else
    match c.mls.joinWelcomePinned s.crypto welcome tree with
    | .error e => (s, .error e)
    | .ok crypto => ({ s with crypto, peerJoined := true }, .ok ())

end PrivateDmSession

/-! ## Calls -/

/-- The calls that a session takes for its devices and for the first counterpart. -/
inductive DeviceCall
  | acceptIdentityClaim (ciphertext : Except PrivateDmRuntimeError (List UInt8))
  | refreshDeviceIdentity (identity : DeviceIdentity)
  | noteRosterRevocation (identity : DeviceIdentity)
  | authorizeDeviceJoin (host : Host) (identity : DeviceIdentity) (sender : DeviceDescriptor)
      (request : JoinRequest)
  | applyDeviceAdmission (host : Host) (identity : DeviceIdentity) (sender : DeviceDescriptor)
      (senderRoster : DeviceRoster) (admission : Admission)
  | acknowledgeDeviceAdmission (host : Host) (sender : DeviceDescriptor) (roster : DeviceRoster)
      (id request : String) (epoch : Nat)
  | originateRemoval (host : Host) (identity : DeviceIdentity)
  | receiveRemoval (host : Host) (identity : DeviceIdentity) (sender : DeviceDescriptor)
      (roster : DeviceRoster) (evidence : RemovalRecord)
  | acknowledgeRemoval (host : Host) (sender : DeviceDescriptor) (roster : DeviceRoster)
      (id : String) (epoch : Nat) (digest : String)
  | receiveRecoveryEpoch (host : Host) (sender : DeviceDescriptor) (roster : DeviceRoster)
      (response : RecoveryEpoch)
  | receiveRecoveryRemoval (host : Host) (identity : DeviceIdentity) (sender : DeviceDescriptor)
      (roster : DeviceRoster) (response : RecoveryRemoval)
  | answerKeyPackage (host : Host) (package : List UInt8)
  | acceptWelcome (welcome tree : List UInt8)

/-- The session after a call, and what the call returns. -/
def PrivateDmSession.call (s : PrivateDmSession σ) :
    DeviceCall → PrivateDmSession σ × Except PrivateDmRuntimeError Unit
  | .acceptIdentityClaim ciphertext => s.acceptIdentityClaim c ciphertext
  | .refreshDeviceIdentity identity => s.refreshDeviceIdentity c identity
  | .noteRosterRevocation identity => s.noteRosterRevocation c identity
  | .authorizeDeviceJoin host identity sender request =>
    s.authorizeDeviceJoin c host identity sender request
  | .applyDeviceAdmission host identity sender senderRoster admission =>
    s.applyDeviceAdmission c host identity sender senderRoster admission
  | .acknowledgeDeviceAdmission host sender roster id request epoch =>
    s.acknowledgeDeviceAdmission c host sender roster id request epoch
  | .originateRemoval host identity => s.originateRemoval c host identity
  | .receiveRemoval host identity sender roster evidence =>
    s.receiveRemoval c host identity sender roster evidence
  | .acknowledgeRemoval host sender roster id epoch digest =>
    s.acknowledgeRemoval c host sender roster id epoch digest
  | .receiveRecoveryEpoch host sender roster response =>
    s.receiveRecoveryEpoch c host sender roster response
  | .receiveRecoveryRemoval host identity sender roster response =>
    s.receiveRecoveryRemoval c host identity sender roster response
  | .answerKeyPackage host package => s.answerKeyPackage c host package
  | .acceptWelcome welcome tree => s.acceptWelcome c welcome tree

/-- The session after a call. -/
def PrivateDmSession.step (s : PrivateDmSession σ) (l : DeviceCall) : PrivateDmSession σ :=
  (s.call c l).1

end Code

end Mosh.DmDevices
