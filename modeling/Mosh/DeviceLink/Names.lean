import Mosh.Conversation.NamePages
import Mosh.DeviceLink.Runtime

/-!
# Names between the devices of an account

The devices of an account pull the names of chats from each other (`device_link/runtime/names.rs`).
A device asks every other one for the pages of its register, one after the other, under an id for
each request and the digest of its roster, and merges the pages that answer. An installation that
is new to the account writes no names before it has pulled the pages of all other devices once.

* `syncNames`: the requests to the other devices;
* `receiveNames`: a packet from one of them;
* `renameChat`, `resetChatName`: what the user does;
* `step`: all that happens to the names of an installation.
-/

namespace Mosh.DeviceLink

open Checked
open Conversation

/-! ## Packets -/

structure NamePageRequest where
  requestId : Bytes
  rosterHash : String
  after : Option String
  deriving DecidableEq, Repr

/-- The messages of account synchronization. Those about deletions, purchases and certificates
    that arrive are for other parts of the runtime. -/
inductive NameMessage
  | request (after : Option String) (requestId : Bytes)
  | batch (records : List NameRecord) (next : Option String) (requestId : Bytes)
  | saved (digest : String)
  | certificateRequest
  | other
  deriving DecidableEq, Repr

def NamePageRequest.message (request : NamePageRequest) : NameMessage :=
  .request request.after request.requestId

structure NamePacket where
  user : String
  sender : String
  recipient : String
  rosterHash : String
  message : NameMessage
  signature : String
  deriving DecidableEq, Repr

/-- What the names use of libraries, beyond what an identity does: JSON, and the hash of it. -/
structure NamesCrypto (Key Signature Seed : Type) extends IdentityCrypto Key Signature Seed where
  codec : NamesCodec
  entriesDigest : Std.ExtTreeMap String NameRecord compare → String
  packetContentJson : String × String × String × String × NameMessage → Option Bytes
  packetJson : NamePacket → Option Bytes
  parsePacket : Bytes → Option NamePacket

variable {Key Signature Seed : Type} (c : NamesCrypto Key Signature Seed)

namespace NamePacket

def signingInput (packet : NamePacket) : Except DeviceLinkError Bytes := do
  let json ← getOr invalid (c.packetContentJson
    (packet.user, packet.sender, packet.recipient, packet.rosterHash, packet.message))
  return Installation.namesHead ++ json

/-- A message for another device of the roster, signed and written out. -/
def sealed (identity : LocalIdentity Seed) (recipient : String) (message : NameMessage) :
    Except DeviceLinkError Bytes := do
  let revoked ← identity.revoked c.toIdentityCrypto
  let devices ← identity.roster.devices c.toRosterCrypto
  check invalid (!revoked && devices.any (·.deviceId = recipient))
  let rosterHash ← DeviceLink.digest c.toRosterCrypto identity.roster
  let packet : NamePacket :=
    ⟨identity.roster.userId, identity.device.deviceId, recipient, rosterHash, message, ""⟩
  let input ← packet.signingInput c
  let json ← getOr invalid (c.packetJson { packet with
    signature := c.hexEncode (c.signatureBytes (c.sign identity.seed input)) })
  let bytes := Installation.namesHead ++ json
  check invalid (bytes.length ≤ maxPacketBytes)
  return bytes

/-- The other device of the roster that sent a packet, and what it says. -/
def «open» (identity : LocalIdentity Seed) (bytes : Bytes) :
    Except DeviceLinkError (DeviceDescriptor × NameMessage) := do
  check invalid (bytes.length ≤ maxPacketBytes)
  let revoked ← identity.revoked c.toIdentityCrypto
  check invalid !revoked
  let body ← getOr invalid (stripHead Installation.namesHead bytes)
  let packet ← getOr invalid (c.parsePacket body)
  let rosterHash ← DeviceLink.digest c.toRosterCrypto identity.roster
  check invalid (packet.user = identity.roster.userId ∧
    packet.recipient = identity.device.deviceId ∧ packet.rosterHash = rosterHash)
  let devices ← identity.roster.devices c.toRosterCrypto
  let sender ← getOr invalid
    (devices.find? fun d => d.deviceId = packet.sender ∧ d.deviceId ≠ packet.recipient)
  verifyText c.toLinkCrypto sender.signingPublicKey (packet.signingInput c) packet.signature
  return (sender, packet.message)

end NamePacket

/-! ## The runtime -/

/-- A page that was merged: the user whose names it holds, the device that sent it, and the request
    that it answered. -/
structure MergedPage where
  user : String
  sender : String
  request : NamePageRequest
  records : List NameRecord
  next : Option String
  deriving DecidableEq, Repr

/-- The part of an installation that has to do with names: its identity as it is at the moment, its
    names, and what it knows of the other devices. Beyond the fields of the runtime there is what it
    sent, and the pages that it has ever merged. -/
structure NamesRuntime (Seed : Type) where
  identity : LocalIdentity Seed
  names : ChatNames
  peerDigests : Std.ExtTreeMap String String compare
  initialPulls : Std.ExtTreeMap String String compare
  pendingPages : Std.ExtTreeMap String NamePageRequest compare
  sent : List (String × Bytes)
  merged : List MergedPage

/-- What a round of requests finds: whether it is due, the ids that are drawn, by devices, and
    whether names can be read. -/
structure Round where
  due : Bool
  ids : String → Bytes
  read : Option String

structure ChatNameSnapshot where
  entries : List (String × String)
  pending : Bool
  canRename : Bool
  deriving DecidableEq, Repr

/-- An error of a device link, as an error of names. -/
def DeviceLinkError.forNames (e : DeviceLinkError) : ChatNameError :=
  ⟨match e.kind with
    | .storage => .storage
    | .invalidRoster => .unauthorized
    | _ => .unavailable, e.message⟩

/-- The error of a merge, as an error of a device link. -/
def mergeError (e : ChatNameError) : DeviceLinkError :=
  if e.kind = .storage then storageError else invalid

namespace NamesRuntime

variable (s : NamesRuntime Seed)

/-- The id of the device itself. -/
abbrev own : String := s.identity.device.deviceId

/-- The user that the roster belongs to. -/
abbrev user : String := s.identity.roster.userId

/-- Names and maps of an installation that starts. -/
def start (identity : LocalIdentity Seed) (rows : Std.ExtTreeMap String (List UInt8) compare)
    (read : Option String) : Except ChatNameError (NamesRuntime Seed) := do
  let names ← ChatNames.open c.codec rows identity.roster.userId identity.device.deviceId read
  return ⟨identity, names, ∅, ∅, ∅, [], []⟩

def sendNames (device : DeviceDescriptor) (message : NameMessage) : NamesRuntime Seed :=
  match NamePacket.sealed c s.identity device.deviceId message with
  | .error _ => s
  | .ok packet => { s with sent := s.sent ++ [(device.mossPeerId, packet)] }

def digest : String := c.entriesDigest s.names.register.entries

/-- The names of another user take the place of those of the last one. -/
def reloadNames (read : Option String) : Except DeviceLinkError (NamesRuntime Seed) :=
  if s.names.user = s.user then .ok s
  else
    match ChatNames.open c.codec s.names.rows s.user s.own read with
    | .error _ => .error storageError
    | .ok names => .ok { s with
        names := names
        peerDigests := ∅
        initialPulls := ∅
        pendingPages := ∅ }

/-- The request to a device: the one that is outstanding, unless the roster has changed. -/
def pageRequest (rosterHash : String) (id : Bytes) (device : DeviceDescriptor) : NamePageRequest :=
  match s.pendingPages[device.deviceId]? with
  | none => ⟨id, rosterHash, none⟩
  | some page => if page.rosterHash ≠ rosterHash then ⟨id, rosterHash, none⟩ else page

/-- The turn of a round for a device. -/
def pullFrom (needsCertificate : Bool) (digest rosterHash : String) (ids : String → Bytes)
    (s : NamesRuntime Seed) (device : DeviceDescriptor) : NamesRuntime Seed :=
  if device.deviceId = s.own then s
  else
    let s := if needsCertificate then s.sendNames c device .certificateRequest else s
    if !s.names.register.initialSyncComplete || s.peerDigests[device.deviceId]? ≠ some digest then
      let page := s.pageRequest rosterHash (ids device.deviceId) device
      { s with pendingPages := s.pendingPages.insert device.deviceId page }.sendNames c device
        page.message
    else s

/-- A round of requests to the other devices. -/
def syncNames (round : Round) : Except DeviceLinkError Unit × NamesRuntime Seed :=
  match s.reloadNames c round.read with
  | .error e => (.error e, s)
  | .ok s =>
    match s.identity.revoked c.toIdentityCrypto with
    | .error e => (.error e, s)
    | .ok revoked =>
      if revoked || !round.due then (.ok (), s)
      else
        let turns : Except DeviceLinkError (NamesRuntime Seed) := do
          let rosterHash ← DeviceLink.digest c.toRosterCrypto s.identity.roster
          let certificate ← s.identity.certificate c.toIdentityCrypto
          let devices ← s.identity.roster.devices c.toRosterCrypto
          return devices.foldl (pullFrom c certificate.isNone (s.digest c) rosterHash round.ids) s
        match turns with
        | .error e => (.error e, s)
        | .ok s => (.ok (), s)

/-- The pages of all other devices have been pulled with the last page of this one. -/
def completes (sender : DeviceDescriptor) (rosterHash : String) (lastPage : Bool) :
    Except DeviceLinkError Bool := do
  if !lastPage then return false
  let devices ← s.identity.roster.devices c.toRosterCrypto
  return devices.all fun device => device.deviceId = s.own || device.deviceId = sender.deviceId ||
    s.initialPulls[device.deviceId]? = some rosterHash

def mergeNamePage (sender : DeviceDescriptor) (records : List NameRecord) (lastPage : Bool)
    (write : Option String) : Except DeviceLinkError (NamesRuntime Seed) := do
  let rosterHash ← DeviceLink.digest c.toRosterCrypto s.identity.roster
  let complete ← s.completes c sender rosterHash lastPage
  match s.names.merge c.codec records complete write with
  | (.error e, _) => throw (mergeError e)
  | (.ok _, names) =>
    if names.register.initialSyncComplete then return { s with
      names := names
      initialPulls := ∅ }
    else if lastPage then return { s with
      names := names
      initialPulls := s.initialPulls.insert sender.deviceId rosterHash }
    else return { s with names := names }

def receiveNamePage (sender : DeviceDescriptor) (records : List NameRecord) (next : Option String)
    (requestId : Bytes) (id : Bytes) (write : Option String) :
    Except DeviceLinkError (NamesRuntime Seed) := do
  let rosterHash ← DeviceLink.digest c.toRosterCrypto s.identity.roster
  match s.pendingPages[sender.deviceId]? with
  | none => return s
  | some page =>
    if page.requestId ≠ requestId ∨ page.rosterHash ≠ rosterHash then return s
    else
      let s ← s.mergeNamePage c sender records next.isNone write
      let answered : MergedPage := ⟨s.names.user, sender.deviceId, page, records, next⟩
      let s := { s with merged := s.merged ++ [answered] }
      match next with
      | some after =>
        let page : NamePageRequest := ⟨id, rosterHash, some after⟩
        let s := { s with pendingPages := s.pendingPages.insert sender.deviceId page }
        return s.sendNames c sender page.message
      | none =>
        let s := { s with pendingPages := s.pendingPages.erase sender.deviceId }
        return s.sendNames c sender (.saved (s.digest c))

def replyNamePage (sender : DeviceDescriptor) (after : Option String) (requestId : Bytes) :
    NamesRuntime Seed :=
  -- A restarting initiator can stop pulling without a reciprocal loop.
  let s := if after.isNone then s.sendNames c sender (.saved (s.digest c)) else s
  let records := s.names.page after
  s.sendNames c sender (.batch records (ChatNames.nextCursor records) requestId)

/-- A packet arrives. What it does to the names is kept only if it does not fail. -/
def receiveNames (packet : Bytes) (id : Bytes) (read write : Option String) :
    Except DeviceLinkError Unit × NamesRuntime Seed :=
  if Installation.namesHead.isPrefixOf packet then
    match s.reloadNames c read with
    | .error e => (.error e, s)
    | .ok s =>
      match NamePacket.open c s.identity packet with
      | .error e => (.error e, s)
      | .ok (sender, .request after requestId) => (.ok (), s.replyNamePage c sender after requestId)
      | .ok (sender, .batch records next requestId) =>
        if records.length ≤ 16 then
          match s.receiveNamePage c sender records next requestId id write with
          | .error e => (.error e, s)
          | .ok s => (.ok (), s)
        else (.ok (), s)
      | .ok (sender, .saved digest) =>
        (.ok (), { s with peerDigests := s.peerDigests.insert sender.deviceId digest })
      | .ok (_, _) => (.ok (), s)
  else (.ok (), s)

/-! ## Writing names -/

def requireActiveNameWriter : Except ChatNameError Unit := do
  let revoked ← (s.identity.revoked c.toIdentityCrypto).mapError (·.forNames)
  check ⟨.unauthorized, "device no longer belongs to this user"⟩ !revoked
  if !s.names.register.initialSyncComplete then
    let devices ← (s.identity.roster.devices c.toRosterCrypto).mapError (·.forNames)
    check ⟨.unavailable, "chat names are still synchronizing; try again in a moment"⟩
      (devices.length ≤ 1)

def currentNamesSnapshot : Except ChatNameError ChatNameSnapshot := do
  let devices ← (s.identity.roster.devices c.toRosterCrypto).mapError (·.forNames)
  return {
    entries := s.names.register.entries.toList.filterMap fun row =>
      row.2.name.map fun name => (row.2.key, name)
    pending := devices.any fun device => device.deviceId ≠ s.own ∧
      (!s.names.register.initialSyncComplete ||
        s.peerDigests[device.deviceId]? ≠ some (s.digest c))
    canRename := (s.requireActiveNameWriter c).isOk }

/-- A write to the names, after the round of requests that ends the service of the runtime. -/
def writeName (set : ChatNames → Except ChatNameError Unit × ChatNames) (round : Round) :
    Except ChatNameError ChatNameSnapshot × NamesRuntime Seed :=
  match s.syncNames c round with
  | (.error e, s) => (.error e.forNames, s)
  | (.ok (), s) =>
    match s.requireActiveNameWriter c with
    | .error e => (.error e, s)
    | .ok () =>
      match set s.names with
      | (.error e, names) => (.error e, { s with names := names })
      | (.ok (), names) =>
        let s := { s with names := names }
        (s.currentNamesSnapshot c, s)

def renameChat (key name : String) (round : Round) (write : Option String) :
    Except ChatNameError ChatNameSnapshot × NamesRuntime Seed :=
  s.writeName c (fun names => names.rename c.codec key name write) round

def resetChatName (key : String) (round : Round) (write : Option String) :
    Except ChatNameError ChatNameSnapshot × NamesRuntime Seed :=
  s.writeName c (fun names => names.reset c.codec key write) round

/-! ## All that happens -/

/-- What happens to the names of an installation. A change of the identity comes from the parts of
    the runtime that add and remove devices. -/
inductive Happening (Seed : Type)
  | identity (identity : LocalIdentity Seed)
  | reload (read : Option String)
  | sync (round : Round)
  | receive (packet id : Bytes) (read write : Option String)
  | rename (key name : String) (round : Round) (write : Option String)
  | reset (key : String) (round : Round) (write : Option String)
  | restart (read : Option String)

def step (s : NamesRuntime Seed) : Happening Seed → NamesRuntime Seed
  | .identity identity => { s with identity := identity }
  | .reload read => (s.reloadNames c read).toOption.getD s
  | .sync round => (s.syncNames c round).2
  | .receive packet id read write => (s.receiveNames c packet id read write).2
  | .rename key name round write => (s.renameChat c key name round write).2
  | .reset key round write => (s.resetChatName c key round write).2
  | .restart read =>
    match start c s.identity s.names.rows read with
    | .error _ => s -- the installation did not start, and is started again
    | .ok started => { started with
        sent := s.sent
        merged := s.merged }

end NamesRuntime

end Mosh.DeviceLink
