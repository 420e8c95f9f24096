import Mosh.DeviceLink.Identity

/-!
# The runtime of device links

An installation links another one to its account, is linked to the account of another one,
removes devices and spreads the changed roster (`device_link/runtime`). A call of the runtime
first services it: it reads its row again, ends what has expired, takes in the packets that
came and sends again what was not answered. The pieces of that are events of their own here,
and so are the calls without it, so that the runs of this model contain those of the program
with any interleaving of its calls, of packets and of another owner of the row.

* `Exchange`: a link that goes on;
* `Installation`: an installation with its store, and what it signed and sent;
* `Installation.receive`: what it does with a packet;
* `Installation.step`: all that can happen to it.
-/

namespace Mosh.DeviceLink

open Checked

variable {Key Signature Seed : Type} (c : IdentityCrypto Key Signature Seed)

inductive DeviceLinkPhase
  | idle | showingQr | connecting | awaitingApproval | awaitingConfirmation | delivering | linked
  | failed
  deriving DecidableEq, Repr

inductive DeviceLinkRole
  | authorizing | joining
  deriving DecidableEq, Repr

/-! ## Exchanges -/

structure Exchange where
  qr : PairingQr
  joining : Option DeviceDescriptor
  role : DeviceLinkRole
  trusted : Option DeviceDescriptor
  base : Option DeviceRoster
  packet : Option Bytes
  deriving DecidableEq

namespace Exchange

/-- The approval was adopted with a notice before it came itself. -/
def awaitsAdoptedApproval (e : Exchange) (record : LocalIdentity Seed) : Bool :=
  record.pending.any fun pending => pending.qr.id = e.qr.id &&
    (record.roster.verifiesAddition c.toRosterCrypto pending.base pending.joiningDevice
      pending.trusted.deviceId).toOption.isSome

/-- The device that the QR names, or the one that offered before. -/
def pinned (e : Exchange) : Except DeviceLinkError DeviceDescriptor :=
  if e.qr.isCurrent then .ok e.qr.device else getOr invalid e.trusted

/-- The roster that is offered again is the one that was offered before. -/
def checkBase (e : Exchange) (roster : DeviceRoster) : Except DeviceLinkError Unit :=
  match e.base with
  | none => .ok ()
  | some base => do
    let expected ← digest c.toRosterCrypto base
    let received ← digest c.toRosterCrypto roster
    check invalid (expected = received)

def checkOffer (e : Exchange) (signer : String) (roster : DeviceRoster)
    (trusted : DeviceDescriptor) (joining : Option DeviceDescriptor) :
    Except DeviceLinkError Unit := do
  let devices ← roster.devices c.toRosterCrypto
  let candidate ← getOr invalid e.joining
  let pinned ← e.pinned
  let offered := joining.or (if e.qr.isCurrent then none else some e.qr.device)
  check invalid (signer = trusted.signingPublicKey ∧ trusted = pinned ∧ offered = some candidate ∧
    trusted ∈ devices ∧ LocalIdentity.free devices candidate)
  check invalid (∀ known ∈ e.trusted, known = trusted)
  e.checkBase c roster

def peer (e : Exchange) : Option String :=
  match e.role with
  | .authorizing => e.joining.map (·.mossPeerId)
  | .joining => e.trusted.map (·.mossPeerId)

/-- Go on with a join after a restart. -/
def resume (record : LocalIdentity Seed) (pending : PendingJoin) (nonce : Bytes) :
    Except DeviceLinkError (Exchange × LinkMessage) := do
  let offerHash ← digest c.toRosterCrypto pending.base
  let message := LinkMessage.ready offerHash
  let packet ← sealPacket c.toLinkCrypto pending.qr record.seed message nonce
  return ({
    qr := pending.qr
    joining := some pending.joiningDevice
    role := .joining
    trusted := some pending.trusted
    base := some pending.base
    packet := some packet }, message)

end Exchange

/-! ## Installations -/

/-- What a call finds: the time, a nonce that is drawn, and whether a write is refused. -/
structure Env where
  now : Nat
  nonce : Bytes
  refused : Bool
  deriving DecidableEq

/-- An installation. Beyond the fields of the runtime there is its store, the identity as another
    owner of the row has read it, and what the installation sent and put its signature under. -/
structure Installation (Seed : Type) where
  peer : String
  row : Option Bytes
  tables : Tables
  identity : DeviceIdentity Seed
  exchange : Option Exchange
  phase : DeviceLinkPhase
  error : Option DeviceLinkErrorKind
  other : Option (DeviceIdentity Seed)
  sent : List (String × Bytes)
  signed : List (PairingQr × LinkMessage)
  deriving DecidableEq

namespace Installation

variable (s : Installation Seed)

abbrev record : LocalIdentity Seed := s.identity.record

def send (peer : String) (packet : Bytes) : Installation Seed :=
  { s with sent := s.sent ++ [(peer, packet)] }

/-- The record of what was signed. -/
def notesSigned (qr : PairingQr) (message : LinkMessage) : Installation Seed :=
  { s with signed := s.signed ++ [(qr, message)] }

/-- Replace the record. -/
def save (env : Env) (record : LocalIdentity Seed) : Except DeviceLinkError (Installation Seed) := do
  let (identity, row) ← s.identity.update c s.row env.refused record
  return { s with
    identity := identity
    row := row }

def ensureIdle : Except DeviceLinkError Unit :=
  check (.new .busy) (s.exchange.isNone && s.record.delivery.isNone)

/-- End the exchange, and remember its request. -/
def fail (env : Env) (kind : DeviceLinkErrorKind) : Except DeviceLinkError (Installation Seed) := do
  let s ← match s.exchange with
    | none => .ok s
    | some e => s.save c env ({ s.record with pending := none }.consume e.qr env.now)
  return { s with
    exchange := none
    phase := .failed
    error := some kind }

/-- End the exchange, and tell the other device. -/
def reject (env : Env) (kind : DeviceLinkErrorKind) :
    Except DeviceLinkError (Installation Seed) := do
  match s.exchange.bind fun e => e.peer.map (·, e.qr) with
  | none => s.fail c env kind
  | some (peer, qr) =>
    let packet ← sealPacket c.toLinkCrypto qr s.record.seed .rejected env.nonce
    let s ← s.fail c env kind
    return (s.notesSigned qr .rejected).send peer packet

/-! ## Service -/

/-- Read the row again. -/
def reload (seed : Seed) : Except DeviceLinkError (Installation Seed) := do
  let identity ← DeviceIdentity.open c s.row s.record.device.mossPeerId seed
  return { s with
    identity := identity
    row := some identity.persisted }

def losesPendingJoin : Bool :=
  s.exchange.any fun e => e.role = .joining && e.base.isSome && s.record.pending.isNone

def reconcileRemoval : Except DeviceLinkError (Installation Seed) := do
  if (← s.record.revoked c) && (s.exchange.any (·.role = .authorizing) || s.losesPendingJoin ||
      s.phase = .delivering || s.phase = .linked) then
    return { s with
      exchange := none
      phase := .idle
      error := none }
  return s

/-- The installation may no longer join, and has not adopted the approval. -/
def ineligible (e : Exchange) : Except DeviceLinkError Bool :=
  if e.role = .joining then do
    let canJoin ← s.record.canJoin c s.tables
    return !canJoin && !e.awaitsAdoptedApproval c s.record
  else .ok false

def expire (env : Env) : Except DeviceLinkError (Installation Seed) :=
  match s.exchange with
  | none => .ok s
  | some e =>
    if e.qr.expiresAt ≤ env.now then s.fail c env .expired
    else do
      let ineligible ← s.ineligible c e
      if ineligible then s.reject c env .ineligible else return s

/-- Send the packet of the exchange again, which goes out or not; the answer is long due or not. -/
def retryExchange (out late : Bool) : Installation Seed :=
  match s.exchange.bind fun e => e.peer.bind fun peer => e.packet.map (peer, ·) with
  | none => s
  | some (peer, packet) =>
    { s.send peer packet with
      error := if late then some .connectionLost else if out then none else s.error }

def retryDelivery (out late : Bool) : Installation Seed :=
  match s.record.delivery with
  | none => s
  | some delivery =>
    { s.send delivery.joiningDevice.mossPeerId delivery.packet with
      error := if late then some .connectionLost else s.error
      phase := if out then s.phase else .delivering }

/-- Send the roster to a device. -/
def notify (recipient : DeviceDescriptor) : Installation Seed :=
  match RosterNotice.sealed c.toLinkCrypto s.record.seed s.record.device.deviceId
      recipient.mossPeerId s.record.roster false with
  | .ok packet => s.send recipient.mossPeerId packet
  | .error _ => s

/-- Send the roster to those who have not acknowledged it. -/
def retryRoster : Installation Seed :=
  if (s.record.revoked c).toOption = some false then s.record.rosterDelivery.foldl (notify c) s
  else s

/-! ## The packets of a link -/

def receiveDelivery (env : Env) (packet : Bytes) :
    Except DeviceLinkError (Option (Installation Seed)) :=
  match s.record.delivery with
  | none => .ok none
  | some d =>
    match openPacket c.toLinkCrypto d.qr packet with
    | .ok (signer, .ack rosterHash) => do
      check invalid (signer = d.joiningDevice.signingPublicKey ∧ rosterHash = d.rosterHash)
      let s ← s.save c env { s.record with delivery := none }
      return some { s with
        phase := .linked
        error := none }
    | _ => .ok none

def receiveReceipt (packet : Bytes) : Except DeviceLinkError (Option (Installation Seed)) :=
  match s.record.receipt with
  | none => .ok none
  | some r =>
    match openPacket c.toLinkCrypto r.qr packet with
    | .ok (signer, .approved roster) => do
      check invalid (signer = r.trusted.signingPublicKey)
      let rosterHash ← digest c.toRosterCrypto roster
      check invalid (rosterHash = r.rosterHash)
      return some (s.send r.trusted.mossPeerId r.packet)
    | _ => .ok none

def join (env : Env) (e : Exchange) (signer : String) (device : DeviceDescriptor) :
    Except DeviceLinkError (Installation Seed) := do
  device.validate c.toRosterCrypto
  check invalid (signer = device.signingPublicKey)
  check invalid !(← s.record.revoked c)
  match e.joining with
  | some frozen =>
    check invalid (frozen = device)
    return s
  | none =>
    let devices ← s.record.roster.devices c.toRosterCrypto
    check invalid (LocalIdentity.free devices device)
    let message := LinkMessage.offer s.record.roster s.record.device (some device)
    let packet ← sealPacket c.toLinkCrypto e.qr s.record.seed message env.nonce
    return { s.notesSigned e.qr message with
      exchange := some { e with
        joining := some device
        base := some s.record.roster
        packet := some packet }
      phase := .connecting }

/-- Keep the first offer in the store. -/
def notePending (env : Env) (e : Exchange) (trusted : DeviceDescriptor) (roster : DeviceRoster) :
    Except DeviceLinkError (Installation Seed) :=
  if e.base.isSome then .ok s
  else s.save c env { s.record with pending := some ⟨e.qr, e.joining, trusted, roster⟩ }

def offer (env : Env) (e : Exchange) (signer : String) (roster : DeviceRoster)
    (trusted : DeviceDescriptor) (joining : Option DeviceDescriptor) :
    Except DeviceLinkError (Installation Seed) := do
  e.checkOffer c signer roster trusted joining
  s.record.checkAfterRemoval c roster
  let offerHash ← digest c.toRosterCrypto roster
  let message := LinkMessage.ready offerHash
  let packet ← sealPacket c.toLinkCrypto e.qr s.record.seed message env.nonce
  let s ← s.notePending c env e trusted roster
  return { s.notesSigned e.qr message with
    exchange := some { e with
      packet := some packet
      trusted := some trusted
      base := some roster }
    phase := .awaitingConfirmation
    error := none }

def ready (e : Exchange) (signer offerHash : String) :
    Except DeviceLinkError (Installation Seed) := do
  let joining ← getOr invalid e.joining
  let base ← getOr invalid e.base
  check invalid (signer = joining.signingPublicKey)
  let expected ← digest c.toRosterCrypto base
  check invalid (offerHash = expected)
  return { s with
    phase := .awaitingApproval
    error := none }

/-- The roster with the hash is the own one already, since its notice came first. -/
def alreadyAdopted (e : Exchange) (hash : String) : Except DeviceLinkError Bool :=
  if e.awaitsAdoptedApproval c s.record then do
    let own ← digest c.toRosterCrypto s.record.roster
    return hash = own
  else .ok false

def approved (env : Env) (e : Exchange) (signer : String) (roster : DeviceRoster) :
    Except DeviceLinkError (Installation Seed) := do
  let trusted ← getOr invalid e.trusted
  check invalid (signer = trusted.signingPublicKey)
  let base ← getOr invalid e.base
  let joining ← getOr invalid e.joining
  roster.verifiesAddition c.toRosterCrypto base joining trusted.deviceId
  let hash ← digest c.toRosterCrypto roster
  let alreadyAdopted ← s.alreadyAdopted c e hash
  s.record.checkAfterRemoval c roster
  let canJoin ← s.record.canJoin c s.tables
  check invalid (canJoin || alreadyAdopted)
  let message := LinkMessage.ack hash
  let packet ← sealPacket c.toLinkCrypto e.qr s.record.seed message env.nonce
  let s ← s.save c env { s.record.consume e.qr env.now with
    roster := roster
    accountCertificate := none
    pending := none
    receipt := some ⟨e.qr, trusted, hash, packet⟩ }
  return { (s.notesSigned e.qr message).send trusted.mossPeerId packet with
    exchange := none
    phase := .linked
    error := none }

def rejected (env : Env) (e : Exchange) (signer : String) :
    Except DeviceLinkError (Installation Seed) := do
  match e.role with
  | .authorizing =>
    match e.joining with
    | none => return s
    | some joining =>
      if signer = joining.signingPublicKey then s.fail c env .rejected else return s
  | .joining =>
    let trusted ← getOr invalid e.trusted
    if signer = trusted.signingPublicKey then s.fail c env .rejected else return s

/-- A packet of the exchange that goes on. -/
def receiveLink (env : Env) (e : Exchange) (packet : Bytes) :
    Except DeviceLinkError (Installation Seed) := do
  let (signer, message) ← openPacket c.toLinkCrypto e.qr packet
  match e.role, message with
  | .authorizing, .join device => s.join c env e signer device
  | .joining, .offer roster trusted joining => s.offer c env e signer roster trusted joining
  | .authorizing, .ready offerHash => s.ready c e signer offerHash
  | .joining, .approved roster => s.approved c env e signer roster
  | _, .rejected => s.rejected c env e signer
  | _, _ => return s

/-! ## Notices -/

/-- Someone has the roster that is the own one. -/
def rosterAck (env : Env) (notice : RosterNotice) (sender : DeviceDescriptor) :
    Except DeviceLinkError (Installation Seed) := do
  let received ← digest c.toRosterCrypto notice.roster
  let own ← digest c.toRosterCrypto s.record.roster
  check invalid (received = own)
  s.save c env { s.record with
    rosterDelivery := s.record.rosterDelivery.filter (·.deviceId ≠ sender.deviceId) }

/-- Go on to the roster of a notice. -/
def adoptNotice (env : Env) (notice : RosterNotice) (sender : DeviceDescriptor) :
    Except DeviceLinkError (Installation Seed) := do
  let devices ← notice.roster.devices c.toRosterCrypto
  check invalid (sender ∈ devices)
  let received ← digest c.toRosterCrypto notice.roster
  let own ← digest c.toRosterCrypto s.record.roster
  if received = own then return s
  else
    let (identity, row) ← s.identity.adoptRoster c s.row env.refused notice.roster
    return { s with
      identity := identity
      row := row }

/-- Acknowledge the roster of a notice. -/
def acknowledge (notice : RosterNotice) (sender : DeviceDescriptor) :
    Except DeviceLinkError (Installation Seed) := do
  let ack ← RosterNotice.sealed c.toLinkCrypto s.record.seed s.record.device.deviceId
    sender.mossPeerId notice.roster true
  return s.send sender.mossPeerId ack

/-- What came of a part of a call that leaves the installation as it was if it fails. -/
def outcome (x : Except DeviceLinkError (Installation Seed)) :
    Installation Seed × Except DeviceLinkError Unit :=
  match x with
  | .error e => (s, .error e)
  | .ok s => (s, .ok ())

def receiveRoster (env : Env) (body : Bytes) : Installation Seed × Except DeviceLinkError Unit :=
  match RosterNotice.open c.toLinkCrypto s.record.device.mossPeerId body with
  | .error e => (s, .error e)
  | .ok (notice, sender) =>
    if notice.ack then s.outcome (s.rosterAck c env notice sender)
    else
      match s.adoptNotice c env notice sender with
      | .error e => (s, .error e)
      | .ok s =>
        -- what was adopted stays, whatever fails after it
        match s.reconcileRemoval c with
        | .error e => (s, .error e)
        | .ok s => s.outcome (s.acknowledge c notice sender)

/-- The head of the packets that synchronize names, deletions and purchases. -/
def namesHead : Bytes := textBytes "mosh-chat-names-v2\x00"

def receive (env : Env) (packet : Bytes) : Installation Seed × Except DeviceLinkError Unit :=
  if namesHead.isPrefixOf packet then (s, .ok ())
  else
    match stripHead rosterNoticePrefix packet with
    | some body => s.receiveRoster c env body
    | none =>
      match s.receiveDelivery c env packet with
      | .error e => (s, .error e)
      | .ok (some s) => (s, .ok ())
      | .ok none =>
        match s.receiveReceipt c packet with
        | .error e => (s, .error e)
        | .ok (some s) => (s, .ok ())
        | .ok none =>
          match s.exchange with
          | none => (s, .ok ())
          | some e => s.outcome (s.receiveLink c env e packet)

/-- A certificate of the account from another device. -/
def receiveCertificate (env : Env) (sender : DeviceDescriptor) (certificate : AccountCertificate) :
    Except DeviceLinkError (Installation Seed) := do
  certificate.verify c
  check invalid (certificate.root = s.record.roster.userId ∧
    certificate.subject = s.record.device.signingPublicKey ∧
    certificate.issuer = some sender.signingPublicKey)
  if (← s.record.certificate c).isNone then
    s.save c env { s.record with accountCertificate := some certificate }
  else return s

/-! ## Calls -/

def beginLink (now : Nat) (id secret : Bytes) : Except DeviceLinkError (Installation Seed) := do
  s.ensureIdle
  check invalid !(← s.record.revoked c)
  return { s with
    exchange := some {
      qr := .new c.toLinkCrypto s.record.device now id secret
      joining := none
      role := .authorizing
      trusted := some s.record.device
      base := none
      packet := none }
    phase := .showingQr
    error := none }

def joinName (current typed : String) (revoked : Bool) : Except DeviceLinkError String := do
  let typed := Conversation.trim typed
  let name := if revoked || typed.isEmpty then current else typed
  check invalidQr (!name.isEmpty && name.length ≤ maxNameChars && !name.toList.any isControl)
  return name

def prepareJoinName (env : Env) (typed : String) :
    Except DeviceLinkError (Installation Seed) := do
  let revoked ← s.record.revoked c
  let name ← joinName s.record.device.name typed revoked
  if revoked then s.save c env { s.record with pending := none }
  else
    let device := { s.record.device with name := name }
    let roster ← DeviceRoster.genesis c.toLinkCrypto device s.record.seed
    s.save c env { s.record with
      device := device
      roster := roster
      accountCertificate := none
      pending := none }

/-- What is checked before anything is written. -/
def prepareJoin (env : Env) (uri typed : String) :
    Except DeviceLinkError (PairingQr × Installation Seed) := do
  s.ensureIdle
  check (.new .ineligible) (← s.record.canJoin c s.tables)
  let qr ← PairingQr.parse c.toLinkCrypto uri env.now
  check invalidQr (!s.record.isConsumed qr env.now &&
    qr.device.deviceId ≠ s.record.device.deviceId &&
    qr.device.mossPeerId ≠ s.record.device.mossPeerId)
  let s ← s.prepareJoinName c env typed
  return (qr, s)

def joinLink (env : Env) (uri typed : String) : Installation Seed × Except DeviceLinkError Unit :=
  match s.prepareJoin c env uri typed with
  | .error e => (s, .error e)
  | .ok (qr, s) =>
    let message := LinkMessage.join s.record.device
    -- the new name and roster stay, also if the request cannot be sealed
    match sealPacket c.toLinkCrypto qr s.record.seed message env.nonce with
    | .error e => (s, .error e)
    | .ok packet =>
      ({ s.notesSigned qr message with
          exchange := some {
            qr := qr
            joining := some s.record.device
            role := .joining
            trusted := some qr.device
            base := none
            packet := some packet }
          phase := .connecting
          error := none }, .ok ())

/-- A code, as it is compared. -/
def normalizeCode (code : String) : String := (Conversation.trim code).toUpper

def approve (env : Env) (code : String) : Except DeviceLinkError (Installation Seed) := do
  let e ← getOr invalid s.exchange
  check invalid (e.role = .authorizing ∧ s.phase = .awaitingApproval)
  let base ← getOr invalid e.base
  let joining ← getOr invalid e.joining
  let offerHash ← digest c.toRosterCrypto base
  let expected ← e.qr.code c.toLinkCrypto offerHash s.record.device joining
  check (.new .codeMismatch) (normalizeCode code = expected)
  let own ← digest c.toRosterCrypto s.record.roster
  check invalid (offerHash = own)
  let roster ← base.extend c.toLinkCrypto joining s.record.seed
  let message := LinkMessage.approved roster
  let packet ← sealPacket c.toLinkCrypto e.qr s.record.seed message env.nonce
  let rosterHash ← digest c.toRosterCrypto roster
  let s ← s.save c env ({ s.record with
    delivery := some ⟨e.qr, some joining, packet, rosterHash⟩
    roster := roster }.consume e.qr env.now)
  return { s.notesSigned e.qr message with
    exchange := none
    phase := .delivering
    error := none }

def cancel (env : Env) : Except DeviceLinkError (Installation Seed) := do
  check (.new .busy) s.record.delivery.isNone
  s.reject c env .rejected

def revoke (env : Env) (deviceId : String) : Except DeviceLinkError (Installation Seed) := do
  s.ensureIdle
  let roster ← s.record.roster.revoke c.toLinkCrypto deviceId s.record.seed
  let devices ← s.record.roster.devices c.toRosterCrypto
  s.save c env { s.record with
    rosterDelivery := devices.filter (·.deviceId ≠ s.record.device.deviceId)
    roster := roster }

/-- The code that an installation displays. -/
def confirmationCode : Except DeviceLinkError (Option String) :=
  match s.exchange with
  | some ⟨qr, some joining, .joining, some trusted, some base, _⟩ => do
    let offerHash ← digest c.toRosterCrypto base
    let code ← qr.code c.toLinkCrypto offerHash trusted joining
    return some code
  | _ => .ok none

/-! ## The start of the process -/

/-- Start with what the store has. -/
def start (env : Env) (peer : String) (row : Option Bytes) (tables : Tables) (seed : Seed)
    (sent : List (String × Bytes)) (signed : List (PairingQr × LinkMessage)) :
    Except DeviceLinkError (Installation Seed) := do
  let identity ← DeviceIdentity.open c row peer seed
  let resumed ← identity.record.pending.elim (.ok none) fun pending =>
    (Exchange.resume c identity.record pending env.nonce).map some
  let s : Installation Seed := {
    peer := peer
    row := some identity.persisted
    tables := tables
    identity := identity
    exchange := resumed.map (·.1)
    phase :=
      if identity.record.delivery.isSome then .delivering
      else if resumed.isSome then .awaitingConfirmation
      else .idle
    error := none
    other := none
    sent := sent
    signed := signed ++ (resumed.map fun x => (x.1.qr, x.2)).toList }
  s.expire c env

/-! ## Events -/

/-- What the runtime of the direct messages does with evidence of a removal. -/
def adoptOwnRemoval (env : Env) (roster : DeviceRoster) :
    Except DeviceLinkError (Installation Seed) := do
  let identity ← getOr storageError s.other
  if roster.userId ≠ identity.record.roster.userId then return s
  else
    let known ← identity.record.roster.extends c.toRosterCrypto roster
    if known then return s
    else
      let (identity, row) ← identity.adoptRoster c s.row env.refused roster
      return { s with
        other := some identity
        row := row }

inductive Event (Seed : Type)
  | reload (seed : Seed)
  | reconcileRemoval
  | expire (env : Env)
  | receive (env : Env) (packet : Bytes)
  | receiveCertificate (env : Env) (sender : DeviceDescriptor) (certificate : AccountCertificate)
  | retryExchange (out late : Bool)
  | retryDelivery (out late : Bool)
  | retryRoster
  | beginLink (now : Nat) (id secret : Bytes)
  | joinLink (env : Env) (uri typed : String)
  | approve (env : Env) (code : String)
  | cancel (env : Env)
  | revoke (env : Env) (deviceId : String)
  /-- The process ends and starts again. -/
  | restart (env : Env) (seed : Seed)
  /-- Another owner of the row reads it, and goes on to another roster. -/
  | otherOpen (seed : Seed)
  | otherAdopt (env : Env) (roster : DeviceRoster)
  /-- Conversations and purchases come and go. -/
  | tables (tables : Tables)
  deriving DecidableEq

/-- A write is refused in the event. -/
def Event.refuses : Event Seed → Bool
  | .expire env | .receive env _ | .receiveCertificate env _ _ | .joinLink env _ _ | .approve env _
  | .cancel env | .revoke env _ | .restart env _ | .otherAdopt env _ => env.refused
  | _ => false

def step (s : Installation Seed) : Event Seed → Installation Seed
  | .reload seed => (s.outcome (s.reload c seed)).1
  | .reconcileRemoval => (s.outcome (s.reconcileRemoval c)).1
  | .expire env => (s.outcome (s.expire c env)).1
  | .receive env packet => (s.receive c env packet).1
  | .receiveCertificate env sender certificate =>
    (s.outcome (s.receiveCertificate c env sender certificate)).1
  | .retryExchange out late => s.retryExchange out late
  | .retryDelivery out late => s.retryDelivery out late
  | .retryRoster => s.retryRoster c
  | .beginLink now id secret => (s.outcome (s.beginLink c now id secret)).1
  | .joinLink env uri typed => (s.joinLink c env uri typed).1
  | .approve env code => (s.outcome (s.approve c env code)).1
  | .cancel env => (s.outcome (s.cancel c env)).1
  | .revoke env deviceId => (s.outcome (s.revoke c env deviceId)).1
  | .restart env seed => (s.outcome (start c env s.peer s.row s.tables seed s.sent s.signed)).1
  | .otherOpen seed => { s with other := (DeviceIdentity.open c s.row s.peer seed).toOption }
  | .otherAdopt env roster => (s.outcome (s.adoptOwnRemoval c env roster)).1
  | .tables tables => { s with tables := tables }

end Installation

end Mosh.DeviceLink
