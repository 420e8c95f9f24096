import Mosh.Conversation.Outbound
import Mosh.Deletion.Journal
import Mosh.Deletion.Target
import Mosh.DmDevices.Membership

/-!
# The texts of a direct message

What a session of a direct message does with its texts (`private_dm_runtime/data.rs`,
`control.rs`, `resend.rs`, `outbox.rs`, `devices/receipts.rs`). A text is filed, admitted
to the history and queued; a turn of the outbox encrypts and publishes what is queued. A
text that was published is published again, encrypted anew, until its receipt comes. The
receiver keeps one row of it, and answers every copy with a receipt.

With linked devices a text has several receivers. The receipt of the contact settles it as
delivered, and its attempt stays until every other device of the session has sent one.

MLS, JSON and the transport are parameters: `TextCrypto` is what the session uses of the
libraries, and `Host` is what the world answers during a step. A frame stands for its JSON.
-/

namespace Mosh.PrivateDm

open Std (ExtTreeMap)
open Conversation Deletion DmDevices
open DeviceLink (textBytes)

/-! ## Frames -/

/-- The signature of a device under a text. -/
structure DeviceSignature where
  deviceId : String
  signature : String
  deriving DecidableEq, Repr

/-- A text on the data channel. -/
structure DataEnvelope (C : Type) where
  origin : Option MessageOrigin
  deviceSignature : Option DeviceSignature
  sessionId : String
  participantId : String
  fromDevice : String
  messageId : Option String
  sentAtMs : Option Nat
  ciphertext : C
  resend : Option Nat
  deriving DecidableEq, Repr

/-- The frames about texts: the texts, and their receipts on the control channel. -/
inductive Frame (C : Type)
  | data (envelope : DataEnvelope C)
  | deliveryAck (sessionId participantId : String) (ackCiphertext : C)
  deriving DecidableEq, Repr

/-- What the session uses of libraries. A plaintext is a text, and a signer its hex. -/
structure TextCrypto (Key Signature σ C : Type) extends EvidenceCrypto Key Signature where
  deletion : DeletionCrypto
  encrypt : σ → String → Except String (C × σ)
  /-- The plaintext, the leaf that signed it, and the state that has consumed the ciphertext. -/
  decrypt : σ → C → Except String (String × String × σ)
  isReady : σ → Bool
  signerPublic : σ → String
  signSenderProof : σ → List UInt8 → Except String String
  ciphertextBytes : C → Nat
  textJson : String × String × String × Option String × Option Nat × C × String →
    Option (List UInt8)
  /-- The JSON of a frame. -/
  payload : Frame C → List UInt8
  outbox : OutboxCodec ChatMessage

/-- The errors of texts. -/
inductive TextError
  | device (error : PrivateDmRuntimeError)
  | missingMessage (id : String)
  | codec (message : String)
  | crypto (message : String)
  | moss (message : String)
  | persistence (message : String)
  | payloadTooLarge
  | bodyTooLarge
  deriving DecidableEq, Repr

/-- What a text that is too large fails with. -/
def payloadTooLarge : String := "message metadata exceeds the network payload limit"

/-- Why the transport refuses a frame. -/
inductive PublishError
  | noPeers (message : String)
  | refused (message : String)
  deriving DecidableEq, Repr

/-- The writes of a send, in the order in which a turn of the outbox makes them. -/
inductive Write
  | queued | failed | beforePublish | tooLarge | published
  deriving DecidableEq, Repr

/-- What the world answers during a step: the clock, the random part of an id, the proof of the
    account, whether this device is authorized, the transport, and the storage. -/
structure Host (C : Type) where
  now : Nat
  occurrence : String
  ownership : Except String (Option String)
  authorized : Except PrivateDmRuntimeError Unit
  publish : Frame C → Except PublishError Unit
  persistAdmission : String → Option String
  persistSend : String → Write → Option String

def autoResendMs : Nat := 15000

def autoResendMax : Nat := 10

def maxPublishBytes : Nat := 65536

def maxTextChars : Nat := 4096

def seenFrameCap : Nat := 4096

def readHistoryKeep : Nat := 512

def textFits (body : String) : Bool := body.length ≤ maxTextChars

/-! ## Sessions -/

/-- The membership of the devices, with the receipts that are still expected and the messages that
    the contact has. -/
structure DeviceMembership extends DmDevices.DeviceMembership where
  receiptTargets : ExtTreeMap String (List String) compare := ∅
  deliveredIds : List String := []

/-- There are linked devices. -/
def DeviceMembership.live (m : DeviceMembership) : Bool :=
  (initialClients < m.topology.clients.length || !m.removals.isEmpty || m.recovery.isSome) &&
    m.joining.isNone

inductive DmSessionState
  | pending | handshaking | connected
  deriving DecidableEq, Repr

/-- What moves the state of a session. -/
inductive SessionEvent
  | handshakeFrame | authenticatedFrame | counterpartLost
  deriving DecidableEq, Repr

def nextState : DmSessionState → SessionEvent → DmSessionState
  | .pending, .handshakeFrame => .handshaking
  | _, .authenticatedFrame => .connected
  | .connected, .counterpartLost => .handshaking
  | other, _ => other

/-- A session. The last two fields are not in the program: they record the frames that the session
    handed to the transport, and the ids it gave to texts. -/
structure PrivateDmSession (σ C : Type) where
  sessionId : String
  participantId : String
  /-- The display name of this side. -/
  deviceId : String
  state : DmSessionState
  peerJoined : Bool
  peerDisplayName : Option String
  crypto : σ
  membership : Option DeviceMembership
  deviceSigner : Option (List UInt8 → String)
  messages : MessageLog ChatMessage
  seen : List String
  outboundAttempts : ExtTreeMap String OutboundAttempt compare
  dirtyOutbound : List String
  sent : List (Frame C)
  filed : List String

namespace PrivateDmSession

variable {Key Signature σ C : Type} (c : TextCrypto Key Signature σ C) (h : Host C)
  (s : PrivateDmSession σ C)

def devicesLive : Bool := s.membership.any (·.live)

/-- The log and the attempts, borrowed for a step of a send. -/
def outbox : Outbox ChatMessage := ⟨s.messages, s.outboundAttempts⟩

/-- The log and the attempts after the step. -/
def withOutbox (o : Outbox ChatMessage) : PrivateDmSession σ C :=
  { s with messages := o.log, outboundAttempts := o.attempts }

/-- A step of a send. -/
def inOutbox {α : Type} (step : Outbox ChatMessage → Except String α × Outbox ChatMessage) :
    Except TextError α × PrivateDmSession σ C :=
  ((step s.outbox).1.mapError .codec, s.withOutbox (step s.outbox).2)

/-- Changes the attempt of a message, if there is one. -/
def updateAttempt (id : String) (change : OutboundAttempt → OutboundAttempt) :
    PrivateDmSession σ C :=
  { s with outboundAttempts := s.outboundAttempts.alter id (Option.map change) }

/-! ### Devices -/

/-- The name of the signer of a frame, and whether it is one of our own devices. -/
def deviceAuthor (signer : String) : Except PrivateDmRuntimeError (String × Bool) :=
  match s.membership with
  | none => .error invalid
  | some m =>
    match m.topology.client signer with
    | none => .error invalid
    | some client =>
      let own := m.topology.own signer
      .ok (if own then s.deviceId else s.peerDisplayName.getD client.displayName, own)

/-- What a device signs of a text. -/
def signingBytes (envelope : DataEnvelope C) (device : String) :
    Except PrivateDmRuntimeError (List UInt8) :=
  match c.textJson (envelope.sessionId, envelope.participantId, envelope.fromDevice,
      envelope.messageId, envelope.sentAtMs, envelope.ciphertext, device) with
  | none => .error invalid
  | some json => .ok (textBytes "mosh-dm-text-v1\x00" ++ json)

def signDeviceText (envelope : DataEnvelope C) :
    Except PrivateDmRuntimeError (DataEnvelope C) :=
  if !s.devicesLive then .ok envelope
  else
    match s.membership.bind (·.topology.client (c.signerPublic s.crypto)), s.deviceSigner with
    | some client, some sign => do
      let bytes ← signingBytes c envelope client.deviceId
      return { envelope with deviceSignature := some ⟨client.deviceId, sign bytes⟩ }
    | _, _ => .error invalid

/-- The leaf whose device signed a text. -/
def verifyDeviceText (envelope : DataEnvelope C) :
    Except PrivateDmRuntimeError (Option String) :=
  if !s.devicesLive then .ok none
  else
    match envelope.deviceSignature, s.membership with
    | some proof, some m => do
      let client ← Checked.getOr invalid
        (m.topology.clients.find? fun client => client.deviceId = proof.deviceId)
      let device ← client.device c.toClaimCrypto
      DmDevices.verify c.toClaimCrypto device.signingPublicKey proof.signature
        (← signingBytes c envelope proof.deviceId)
      return some client.mlsSigner
    | _, _ => .error invalid

/-- The other devices of the session have yet to send a receipt for a message. -/
def trackDeviceReceipts (id : String) : PrivateDmSession σ C :=
  if !s.devicesLive then s
  else
    let own := c.signerPublic s.crypto
    { s with
      membership := s.membership.map fun m =>
        { m with
          receiptTargets := m.receiptTargets.alter id fun
            | some targets => some targets
            | none => some ((m.topology.clients.filter (·.mlsSigner ≠ own)).map (·.mlsSigner)) } }

/-- The outbox may take a turn, as far as the devices are concerned. -/
def deviceOutboxReady : Bool :=
  if s.membership.any fun m => m.revoked || m.pendingRemoval c.toEvidenceCrypto then false
  else
    !s.devicesLive || (s.state = .connected && s.membership.any (·.delivery.isNone))

/-! ### Frames go out -/

/-- A frame is handed to the transport. Nobody misses a control frame that finds no peers. -/
def routeSend (frame : Frame C) : Except TextError Unit × PrivateDmSession σ C :=
  if maxPublishBytes < (c.payload frame).length then (.error .payloadTooLarge, s)
  else
    let s := { s with sent := s.sent ++ [frame] }
    match h.publish frame, frame with
    | .ok (), _ => (.ok (), s)
    | .error (.noPeers _), .deliveryAck .. => (.ok (), s)
    | .error (.noPeers message), _ => (.error (.moss message), s)
    | .error (.refused message), _ => (.error (.moss message), s)

/-- A receipt, as far as it goes: it is lost if it cannot be encrypted or sent. -/
def sendDeliveryAck (id : String) : PrivateDmSession σ C :=
  match c.encrypt s.crypto id with
  | .error _ => s
  | .ok (ciphertext, crypto) =>
    (routeSend c h { s with crypto } (.deliveryAck s.sessionId s.participantId ciphertext)).2

/-! ### Texts go out -/

/-- The text of a queued message. An erased one is read from its attempt. -/
def queuedBody (id : String) : Except TextError String :=
  match s.messages.row id with
  | none => .error (.missingMessage id)
  | some message =>
    if ConversationMessage.isErased message then
      .ok (((s.outboundAttempts[id]?.bind fun a => c.outbox.parse a.messageJson).map (·.body)).getD
        message.body)
    else .ok message.body

/-- A text is encrypted and published. -/
def publishText (id : String) (resend : Option Nat) :
    Except TextError Unit × PrivateDmSession σ C :=
  match s.queuedBody c id with
  | .error e => (.error e, s)
  | .ok body =>
    match s.outboundAttempts[id]? with
    | none => (.error (.missingMessage id), s)
    | some attempt =>
      match c.encrypt s.crypto body with
      | .error e => (.error (.crypto e), s)
      | .ok (ciphertext, crypto) =>
        let s := { s with crypto }
        let envelope : DataEnvelope C :=
          { origin := (s.messages.row id).bind origin
            deviceSignature := none
            sessionId := s.sessionId
            participantId := s.participantId
            fromDevice := s.deviceId
            messageId := some id
            sentAtMs := some attempt.sentAtMs
            ciphertext
            resend }
        match s.signDeviceText c envelope with
        | .error e => (.error (.device e), s)
        | .ok envelope =>
          match routeSend c h (s.trackDeviceReceipts c id) (.data envelope) with
          | (.error e, s) => (.error e, s)
          | (.ok (), s) =>
            (.ok (), s.updateAttempt id fun attempt =>
              { attempt with
                publishPayloadB64 := c.outbox.encode (c.payload (.data envelope))
                ciphertextBytes := c.ciphertextBytes ciphertext })

/-- A queued text is published. -/
def publishQueued (id : String) : Except TextError Unit × PrivateDmSession σ C :=
  match s.publishText c h id none with
  | (.error e, s) => (.error e, s)
  | (.ok (), s) =>
    let (result, s) := s.inOutbox fun o => o.settle c.outbox h.now id (.ok ()) .retain
    (result.map fun _ => (), s)

/-- A row of the message is not delivered. -/
def undelivered (id : String) : Bool :=
  s.messages.messages.any fun m =>
    m.messageId = some id && m.delivery.deliveryStatus ≠ some .delivered

/-- A text that is published no more, as its attempts are used up, is queued again. -/
def resumeSend (id : String) : PrivateDmSession σ C :=
  match s.inOutbox fun o => o.activateQueue c.outbox id with
  | (.error _, s) => s
  | (.ok (), s) =>
    let s := s.updateAttempt id fun attempt => { attempt with autoResends := 0 }
    { s with dirtyOutbound := s.dirtyOutbound ++ [id] }

/-- The texts that are published no more. -/
def exhaustedSends : List String :=
  (s.outboundAttempts.toList.filter fun (id, attempt) =>
    attempt.deliveryStatus = .sent && autoResendMax ≤ attempt.autoResends &&
      s.undelivered id).map (·.1)

/-- A reconnection or a new receipt of the contact permits another round. -/
def resumeExhaustedSends : PrivateDmSession σ C :=
  s.exhaustedSends.foldl (resumeSend c) s

/-- The attempts of delivered texts end when they are used up. -/
def finishDeviceResends : List String × PrivateDmSession σ C :=
  if !s.devicesLive then ([], s)
  else
    let done := (s.outboundAttempts.toList.filter fun (id, attempt) =>
      autoResendMax ≤ attempt.autoResends && s.messages.messages.any fun m =>
        m.messageId = some id && m.delivery.deliveryStatus = some .delivered).map (·.1)
    (done, done.foldl (fun s id =>
      { s with
        outboundAttempts := s.outboundAttempts.erase id
        membership := s.membership.map fun m =>
          { m with receiptTargets := m.receiptTargets.erase id } }) s)

/-- A text is published again. Only a frame that the transport takes counts. -/
def resendText (id : String) (autoResends : Nat) : PrivateDmSession σ C :=
  let s := s.updateAttempt id fun attempt => { attempt with lastSendMs := h.now }
  match s.publishText c h id (some (autoResends + 1)) with
  | (.error _, s) => s
  | (.ok (), s) =>
    s.updateAttempt id fun attempt => { attempt with autoResends := attempt.autoResends + 1 }

/-- The texts whose receipts are overdue are published again. -/
def pumpUnackedResends : PrivateDmSession σ C :=
  if !s.peerJoined || !s.deviceOutboxReady c then s
  else
    let due := s.outboundAttempts.toList.filter fun (_, attempt) =>
      attempt.deliveryStatus = .sent && attempt.autoResends < autoResendMax &&
        autoResendMs ≤ h.now - attempt.lastSendMs
    due.foldl (fun s (id, attempt) => s.resendText c h id attempt.autoResends)
      s.finishDeviceResends.2

def canEncryptForPeer : Bool := s.peerJoined && c.isReady s.crypto

/-- The queued texts in the order in which they were written. -/
def queuedInOrder : List String :=
  let queued := (s.outboundAttempts.toList.filter fun (_, attempt) =>
    attempt.deliveryStatus = .queued).map fun (id, attempt) => (attempt.sentAtMs, id)
  (queued.insertionSort fun a b => a.1 < b.1 ∨ a.1 = b.1 ∧ a.2 ≤ b.2).map (·.2)

/-- The queued texts are published in turn, up to the first one that is refused. A text that is too
    large fails, and the turn goes on. -/
def deliverTexts (s : PrivateDmSession σ C) : List String →
    Except TextError Unit × PrivateDmSession σ C
  | [] => (.ok (), s)
  | id :: rest =>
    match h.persistSend id .beforePublish with
    | some e => (.error (.persistence e), s)
    | none =>
      match s.publishQueued c h id with
      | (.error .payloadTooLarge, s) =>
        match s.inOutbox fun o =>
            o.settle c.outbox h.now id (.error payloadTooLarge) .retain with
        | (.error e, s) => (.error e, s)
        | (.ok _, s) =>
          match h.persistSend id .tooLarge with
          | some e => (.error (.persistence e), s)
          | none => deliverTexts s rest
      | (.error _, s) => (.ok (), s)
      | (.ok (), s) =>
        match h.persistSend id .published with
        | some _ => (.ok (), s)
        | none => deliverTexts s rest

/-- A turn of the outbox. -/
def deliverQueued : Except TextError Unit × PrivateDmSession σ C :=
  if !s.canEncryptForPeer c || !s.deviceOutboxReady c then (.ok (), s)
  else deliverTexts c h s s.queuedInOrder

/-- A filed text is written to the history, and queued. -/
def admitQueued (id : String) : Except TextError Unit × PrivateDmSession σ C :=
  match h.persistAdmission id with
  | some e =>
    match s.inOutbox fun o => o.settle c.outbox h.now id (.error e) .retain with
    | (.error e, s) => (.error e, s)
    | (.ok _, s) => (.error (.persistence e), s)
  | none => s.inOutbox fun o => o.activateQueue c.outbox id

/-- The proof that this side wrote a text. -/
def signOrigin (id body : String) : Except String MessageOrigin := do
  let origin : MessageOrigin :=
    { conversation := "dm:" ++ s.sessionId
      id
      contentHash := c.deletion.sha256 (textBytes body)
      author := c.signerPublic s.crypto
      signature := ""
      ownership := ← h.ownership }
  return { origin with
    signature := ← c.signSenderProof s.crypto (← origin.signingInput c.deletion) }

/-- A text gets an id and a proof, and goes into the log as pending. -/
def fileText (body : String) : Except TextError String × PrivateDmSession σ C :=
  match h.authorized with
  | .error e => (.error (.device e), s)
  | .ok () =>
    let (message, log) := s.messages.stamp h.now h.occurrence { fromDevice := s.deviceId, body }
    let s := { s with messages := log }
    let id := message.messageId.getD ""
    match s.signOrigin c h id message.body with
    | .error e => (.error (.codec e), s)
    | .ok origin =>
      let message := { message with metadata := some { origin := some origin, isOwn := some true } }
      let s := { s with filed := s.filed ++ [id] }
      match s.inOutbox fun o => o.open c.outbox h.now message s.sessionId [] 0 with
      | (.error e, s) => (.error e, s)
      | (.ok prepared, s) => (.ok prepared.messageId, s)

/-- What is left of `send_message` once the frames that came have been taken in. -/
def sendMessage (body : String) : Except TextError String × PrivateDmSession σ C :=
  if !textFits body then (.error .bodyTooLarge, s)
  else
    match s.fileText c h body with
    | (.error e, s) => (.error e, s)
    | (.ok id, s) =>
      match s.admitQueued c h id with
      | (.error e, s) => (.error e, s)
      | (.ok (), s) => (.ok id, (s.deliverQueued c h).2)

/-- What is left of `retry_message` once the frames that came have been taken in. -/
def retryMessage (id : String) : Except TextError Unit × PrivateDmSession σ C :=
  match s.outboundAttempts[id]? with
  | none => (.error (.missingMessage id), s)
  | some attempt =>
    if attempt.deliveryStatus = .queued ∨ attempt.deliveryStatus = .pending then (.ok (), s)
    else
      match s.queuedBody c id with
      | .error e => (.error e, s)
      | .ok body =>
        if !textFits body then (.error .bodyTooLarge, s)
        else
          match s.inOutbox fun o => o.reopen c.outbox id with
          | (.error e, s) => (.error e, s)
          | (.ok _, s) =>
            match s.admitQueued c h id with
            | (.error e, s) => (.error e, s)
            | (.ok (), s) => (.ok (), (s.deliverQueued c h).2)

/-! ### Frames come in -/

/-- The name of the contact, from a frame. -/
def notePeerName (fromDevice : String) : PrivateDmSession σ C :=
  if fromDevice.isEmpty ∨ fromDevice = s.deviceId then s
  else { s with peerDisplayName := some fromDevice }

/-- A frame was decrypted: the contact is there. -/
def noteAuthenticatedFrame (fromDevice : String) : PrivateDmSession σ C :=
  let s := s.notePeerName fromDevice
  if c.isReady s.crypto then
    let before := s.state
    let s := { s with peerJoined := true, state := nextState before .authenticatedFrame }
    if before ≠ .connected then s.resumeExhaustedSends c else s
  else s

/-- A row of another name carries the id. -/
def hasInboundMessage (id : String) : Bool :=
  s.messages.messages.any fun existing =>
    existing.fromDevice ≠ s.deviceId && existing.messageId = some id

/-- The contact is known to have a message. -/
def peerDelivered (id : String) : Bool := s.membership.any (id ∈ ·.deliveredIds)

/-- A proof of the author fits its text. -/
def verifyOrigin (origin : MessageOrigin) (id body : String) : Except String Unit := do
  if origin.conversation ≠ "dm:" ++ s.sessionId ∨ origin.id ≠ id ∨
      origin.contentHash ≠ c.deletion.sha256 (textBytes body) then
    throw "message origin mismatch"
  origin.verifySignature c.deletion

/-- The checks on a decrypted text before its ciphertext counts as consumed. -/
def validateText (envelope : DataEnvelope C) (expectedSigner : Option String)
    (body signer : String) : Except String Unit := do
  if let some origin := envelope.origin then
    s.verifyOrigin c origin (envelope.messageId.getD "") body
    if origin.author ≠ signer then throw "DM origin signer mismatch"
  if expectedSigner.any (· ≠ signer) then throw "DM device signer mismatch"

/-- A decrypted text goes into the log, unless it is there, and is answered with a receipt. -/
def keepText (envelope : DataEnvelope C) (body author : String) (own : Bool) :
    PrivateDmSession σ C :=
  let status : MessageDeliveryStatus :=
    if envelope.messageId.any s.peerDelivered then .delivered else .sent
  let (message, log) := s.messages.stamp h.now h.occurrence
    { metadata := some { origin := envelope.origin, isOwn := some own }
      fromDevice := author
      body
      messageId := envelope.messageId
      sentAtMs := envelope.sentAtMs
      delivery := { deliveryStatus := if own then some status else none } }
  let s := { s with messages := log }
  if s.messages.holdsCopyOf message then s
  else
    let s := { s with messages := s.messages.push message }
    match envelope.messageId with
    | none => s
    | some id => s.sendDeliveryAck c h id

/-- A text comes in. -/
def handleData (envelope : DataEnvelope C) : Except TextError Unit × PrivateDmSession σ C :=
  if envelope.sessionId ≠ s.sessionId ∨ envelope.participantId = s.participantId then (.ok (), s)
  else
    match s.verifyDeviceText c envelope with
    | .error e => (.error (.device e), s)
    | .ok expectedSigner =>
      -- A message that is known is answered before its ciphertext is looked at.
      let known := fun id => s.hasInboundMessage id ||
        (s.devicesLive && s.messages.messages.any (·.messageId = some id))
      match envelope.messageId.filter known with
      | some id => (.ok (), s.sendDeliveryAck c h id)
      | none =>
        match c.decrypt s.crypto envelope.ciphertext with
        | .error e => (.error (.crypto e), s)
        | .ok (body, signer, crypto) =>
          match s.validateText c envelope expectedSigner body signer with
          | .error e => (.error (.crypto e), s)
          | .ok () =>
            let s := { s with crypto }
            let author :=
              if s.devicesLive then s.deviceAuthor signer else .ok (envelope.fromDevice, false)
            match author with
            | .error e => (.error (.device e), s)
            | .ok (author, own) =>
              let s := if own then s else s.noteAuthenticatedFrame c author
              (.ok (), s.keepText c h envelope body author own)

/-- Our own row of a message. -/
def isOwnRow (id : String) (m : ChatMessage) : Bool :=
  m.messageId = some id && m.fromDevice = s.deviceId

/-- The receipts that are still expected for a message after one of them came. -/
def remainingTargets (membership : DeviceMembership) (id signer : String) :
    ExtTreeMap String (List String) compare :=
  membership.receiptTargets.alter id (Option.map (·.filter (· ≠ signer)))

/-- The last receipt that was expected for a message came. -/
def receiptsDone (membership : DeviceMembership) (id signer : String) : Bool :=
  (remainingTargets membership id signer)[id]?.any (·.isEmpty)

/-- A receipt of a device is noted. That of the contact settles the message, and its attempt ends
    with the last receipt that is expected. -/
def noteDeviceReceipt (membership : DeviceMembership) (id signer : String) (own : Bool) :
    Except TextError Unit × PrivateDmSession σ C :=
  let deliveredIds :=
    if !own && id ∉ membership.deliveredIds then
      let ids := membership.deliveredIds ++ [id]
      ids.drop (ids.length - readHistoryKeep)
    else membership.deliveredIds
  let targets := remainingTargets membership id signer
  let done := receiptsDone membership id signer
  let receiptTargets := if done then targets.erase id else targets
  let s := { s with membership := some { membership with deliveredIds, receiptTargets } }
  let retryCount := (s.outboundAttempts[id]?.map (·.retryCount)).getD 0
  let (log, marked) :=
    if !own && s.messages.messages.any (s.isOwnRow id) then
      s.messages.markDelivery id .delivered none retryCount
    else (s.messages, .ok ())
  let s := { s with messages := log }
  match marked with
  | .error e => (.error (.codec e), s)
  | .ok () =>
    (.ok (), { s with
      outboundAttempts := if done then s.outboundAttempts.erase id else s.outboundAttempts
      dirtyOutbound := s.dirtyOutbound ++ [id] })

/-- A receipt of a device. One of the contact shows that it is there. -/
def acceptDeviceReceipt (id signer : String) : Except TextError Unit × PrivateDmSession σ C :=
  match s.deviceAuthor signer, s.membership with
  | .error e, _ => (.error (.device e), s)
  | .ok _, none => (.error (.device invalid), s)
  | .ok (author, own), some membership =>
    let newContactDelivery := !own && s.outboundAttempts[id]?.isSome &&
      s.messages.messages.any fun m =>
        s.isOwnRow id m && m.delivery.deliveryStatus ≠ some .delivered
    match s.noteDeviceReceipt membership id signer own with
    | (.error e, s) => (.error e, s)
    | (.ok (), s) =>
      let s := if own then s else s.noteAuthenticatedFrame c author
      (.ok (), if newContactDelivery then s.resumeExhaustedSends c else s)

/-- A receipt comes in. -/
def acceptDeliveryAck (ackCiphertext : C) : Except TextError Unit × PrivateDmSession σ C :=
  match c.decrypt s.crypto ackCiphertext with
  | .error _ => (.ok (), s)
  | .ok (id, signer, crypto) =>
    let s := { s with crypto }
    if s.devicesLive then s.acceptDeviceReceipt c id signer
    else
      let s := s.noteAuthenticatedFrame c ""
      match s.outboundAttempts[id]? with
      | none => (.ok (), s)
      | some attempt =>
        let s := { s with outboundAttempts := s.outboundAttempts.erase id }
        match s.messages.markDelivery id .delivered none attempt.retryCount with
        | (log, .error e) => (.error (.codec e), { s with messages := log })
        | (log, .ok ()) =>
          let s := { s with messages := log, dirtyOutbound := s.dirtyOutbound ++ [id] }
          (.ok (), s.resumeExhaustedSends c)

/-- A text that came before, byte by byte. The oldest of the noted ones is forgotten. -/
def seenBefore (envelope : DataEnvelope C) : Bool × PrivateDmSession σ C :=
  let key := "mls-data/" ++ s.sessionId ++ ":" ++ c.deletion.sha256 (c.payload (.data envelope))
  if key ∈ s.seen then (true, s)
  else
    let seen := s.seen ++ [key]
    (false, { s with seen := if seenFrameCap < seen.length then seen.tail else seen })

/-- A frame comes in. -/
def handleMossMessage (frame : Frame C) : Except TextError Unit × PrivateDmSession σ C :=
  match h.authorized, frame with
  | .error e, _ => (.error (.device e), s)
  | .ok (), .deliveryAck sessionId participantId ackCiphertext =>
    if sessionId = s.sessionId ∧ participantId ≠ s.participantId then
      s.acceptDeliveryAck c ackCiphertext
    else (.ok (), s)
  | .ok (), .data envelope =>
    let (seen, s) := if s.devicesLive then (false, s) else s.seenBefore c envelope
    if seen then (.ok (), s) else s.handleData c h envelope

/-! ### Steps -/

/-- What happens to a session: a text is sent or retried, the service ticks, a frame about a text
    comes, another frame of the contact is decrypted, the contact is lost, the state of the group
    moves on for another reason, or the devices of the session change, with or without a new
    epoch. -/
inductive Event (σ C : Type)
  | send (body : String)
  | retry (id : String)
  | tick
  | receive (frame : Frame C)
  | authenticated (crypto : σ) (fromDevice : String)
  | lost
  | ratchet (crypto : σ)
  | transition (crypto : σ) (membership : DeviceMembership) (epochChanged : Bool)

/-- The devices of the session change. In a new epoch every text is due again. -/
def installDeviceTransition (crypto : σ) (membership : DeviceMembership) (epochChanged : Bool) :
    PrivateDmSession σ C :=
  let s := { s with crypto, membership := some membership }
  if epochChanged then
    { s with
      outboundAttempts := s.outboundAttempts.map fun _ attempt => { attempt with lastSendMs := 0 }
      peerJoined := true
      state := .handshaking
      seen := [] }
  else s

/-- The session after an event. -/
def step : Event σ C → PrivateDmSession σ C
  | .send body => (s.sendMessage c h body).2
  | .retry id => (s.retryMessage c h id).2
  | .tick => ((s.pumpUnackedResends c h).deliverQueued c h).2
  | .receive frame => (s.handleMossMessage c h frame).2
  | .authenticated crypto fromDevice => noteAuthenticatedFrame c { s with crypto } fromDevice
  | .lost => { s with state := nextState s.state .counterpartLost }
  | .ratchet crypto => { s with crypto }
  | .transition crypto membership epochChanged =>
    s.installDeviceTransition crypto membership epochChanged

end PrivateDmSession

/-! ## A sample -/

/-- A group of two: who this side is, how many ciphertexts it made, and which ones it opened. -/
structure SampleGroup where
  alice : Bool
  made : Nat := 0
  opened : List (Bool × Nat × String) := []
  deriving DecidableEq, Repr

/-- A ciphertext names its author, its number and its plaintext. It is opened once, and by the
    other side. -/
def sampleCrypto : TextCrypto (List UInt8) (List UInt8) SampleGroup (Bool × Nat × String) where
  toRosterCrypto := DeviceLink.plainCrypto
  claimJson _ := none
  epochJson _ := none
  removalJson _ := none
  removalRecordJson _ := none
  deletion :=
    { Deletion.plainCrypto with
      sha256 := fun bytes =>
        String.ofList ((Deletion.plainCrypto.sha256 bytes).toList.leftpad 64 '0') }
  encrypt g text := .ok ((g.alice, g.made, text), { g with made := g.made + 1 })
  decrypt g x :=
    if x.1 = g.alice ∨ x ∈ g.opened then .error "secret deleted to preserve forward secrecy"
    else .ok (x.2.2, if x.1 then "aa" else "bb", { g with opened := x :: g.opened })
  isReady _ := true
  signerPublic g := if g.alice then "aa" else "bb"
  signSenderProof g input := .ok (Deletion.sign (if g.alice then "aa" else "bb") input)
  ciphertextBytes x := x.2.2.length
  textJson _ := some []
  payload
    | .data envelope => textBytes (envelope.participantId ++ toString envelope.ciphertext.2.1)
    | .deliveryAck _ participantId x => textBytes (participantId ++ toString x.2.1)
  outbox := Outbox.plainCodec

/-- The clock and the random part of an id; everything else goes well. -/
def sampleHost (now : Nat) (occurrence : String) : Host (Bool × Nat × String) where
  now := now
  occurrence := occurrence
  ownership := .ok none
  authorized := .ok ()
  publish _ := .ok ()
  persistAdmission _ := none
  persistSend _ _ := none

/-- One side of a new direct message, under a name. -/
def sampleSession (alice : Bool) (name : String) :
    PrivateDmSession SampleGroup (Bool × Nat × String) where
  sessionId := "dm"
  participantId := if alice then "alice" else "bob"
  deviceId := name
  state := .connected
  peerJoined := true
  peerDisplayName := none
  crypto := { alice }
  membership := none
  deviceSigner := none
  messages := {}
  seen := []
  outboundAttempts := ∅
  dirtyOutbound := []
  sent := []
  filed := []

end Mosh.PrivateDm
