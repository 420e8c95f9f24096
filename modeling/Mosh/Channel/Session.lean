import Mosh.Conversation.ChatNames
import Mosh.Conversation.Outbound
import Mosh.Deletion.Journal
import Mosh.Deletion.Target
import Mosh.Library.Checked
import Mosh.Library.Recent

/-!
# Public channels

A channel is a room that everyone can join who knows its name (`channel_runtime`). Texts go over
one topic of the room, files and the rest over another one, and nothing of it is encrypted: whoever
listens can send a frame again, change it or make one up. A message has the signature of its author
for the channel, its id and its content (`MessageOrigin`), and a text without a signature is taken
too, for clients that do not sign yet.

* `normalizeName`: the name of a channel;
* `decodeChannelMessage`, `handleMessage`: what becomes of a frame;
* `send`, `attach`: a message of one's own;
* `drainInbound`: the frames of all channels, in the order in which they came.
-/

namespace Mosh.Channel

open Checked
open Conversation ConversationMessage Deletion
open DeviceLink (textBytes)

abbrev Bytes := List UInt8

inductive ChannelRuntimeError
  | deletion (error : String)
  | moss (error : String)
  | codec (error : String)
  | persistence (error : String)
  | invalidName (name : String)
  | bodyTooLarge
  | missingChannel (name : String)
  | duplicateChannel (name : String)
  | attachment (error : String)
  /-- A message is missing in the log, or cannot be written. -/
  | log (error : String)
  deriving DecidableEq, Repr

/-! ## Names -/

def topicPrefix : String := "public-channel/"

def blobPrefix : String := "channel-blob/"

def meshPrefix : String := "channel/"

def maxNameLen : Nat := 64

def normalizeName (raw : String) : Except ChannelRuntimeError String :=
  let trimmed := String.ofList
    (((Conversation.trim raw).toList.dropWhile (· = '#')).dropWhile (· = '@'))
  if trimmed.isEmpty || maxNameLen < trimmed.utf8ByteSize then .error (.invalidName raw)
  else
    let normalized := trimmed.toLower
    if normalized.toList.all fun ch => ch.isAlphanum || ch = '-' || ch = '_' then .ok normalized
    else .error (.invalidName raw)

/-- A text without its head. -/
def stripPrefix (head text : String) : Option String :=
  if head.toList.isPrefixOf text.toList then
    some (String.ofList (text.toList.drop head.toList.length))
  else none

/-- The channel that a topic belongs to. -/
def channelOf (topic : String) : Option String :=
  (stripPrefix topicPrefix topic).or (stripPrefix blobPrefix topic)

/-! ## Sessions -/

/-- The manifest of a file, with the proof of its origin. -/
structure AttachmentOffer where
  attachmentId : String
  manifest : AttachmentManifest
  origin : Option MessageOrigin
  deriving DecidableEq, Repr

/-- What goes over the topic for files. -/
inductive ChannelBlobEnvelope
  | history
  | manifest (fromDevice fromFingerprint : String) (offer : AttachmentOffer)
  | other

/-- What channels use of libraries, besides hashes and proofs: keys, and JSON. -/
structure ChannelCrypto (Seed : Type) extends DeletionCrypto where
  keyHex : Seed → String
  sign : Seed → Bytes → String
  messageJson : ChannelMessage → Except String Bytes
  parseMessage : Bytes → Except String ChannelMessage
  parseBlob : Bytes → Except String ChannelBlobEnvelope
  /-- What the id of a text without one is a hash of: the channel, the time, the author's device
      and key, and the text. -/
  legacyJson : String × Option Nat × String × String × String → Except String Bytes

/-- What a call finds: the clock, a random id, whether the key can be read, what the store says of
    the accounts, and what the transfers do with a manifest. -/
structure Env where
  now : Nat
  occurrence : String
  signer : Except String Unit
  ownership : Except String (Option String)
  own : Except String OwnAccounts
  accepted : Finset String
  acceptOffer : AttachmentOffer → Except String (Option AttachmentDescriptor)

def seenFrameCap : Nat := 4096

structure ChannelSession (Seed : Type) where
  name : String
  displayName : String
  /-- The key of the node. -/
  node : Seed
  deviceFingerprint : String
  messages : MessageLog ChannelMessage := {}
  /-- The keys of the frames that came last. -/
  seen : List String := []
  outboundAttempts : Std.ExtTreeMap String OutboundAttempt compare := ∅

variable {Seed : Type} (c : ChannelCrypto Seed)

end Mosh.Channel

namespace Mosh.Deletion

open Channel Checked

/-- A proof is for a message of the conversation, with the id and the content. -/
def MessageOrigin.verify (c : DeletionCrypto) (origin : MessageOrigin) (conversation id : String)
    (content : Bytes) : Except String Unit := do
  check "message origin mismatch" (origin.conversation = conversation ∧ origin.id = id ∧
    origin.contentHash = c.sha256 content)
  origin.verifySignature c

/-- The proof of a message, signed. -/
def MessageOrigin.signed {Seed : Type} (c : ChannelCrypto Seed) (conversation id : String)
    (content : Bytes) (seed : Seed) (ownership : Option String) : Except String MessageOrigin := do
  let origin : MessageOrigin := ⟨conversation, id, c.sha256 content, c.keyHex seed, "", ownership⟩
  return { origin with signature := c.sign seed (← origin.signingInput c.toDeletionCrypto) }

/-- The message is of an account of the device. -/
def DeletionAuthority.isAuthor (c : DeletionCrypto) (authority : DeletionAuthority)
    (origin : MessageOrigin) : Bool :=
  authority.sameAccount authority.localActor.key origin.author ||
    Deletion.sameAccount c authority.localActor.key authority.localActor.ownership origin.author
      origin.ownership

end Mosh.Deletion

namespace Mosh.Channel

open Checked
open Conversation ConversationMessage Deletion
open DeviceLink (textBytes)

variable {Seed : Type} (c : ChannelCrypto Seed) (codec : OutboxCodec ChannelMessage) (env : Env)

def maxTextChars : Nat := 4096

def textFits (body : String) : Bool := body.length ≤ maxTextChars

namespace ChannelSession

variable (s : ChannelSession Seed)

def topic : String := topicPrefix ++ s.name

def blobTopic : String := blobPrefix ++ s.name

/-- What proofs of the channel are for. -/
def context : String := "channel:" ++ s.name

/-! ### Frames -/

/-- Records a frame, and says whether it had been recorded. -/
def seenBefore (channel : String) (payload : Bytes) : Bool × ChannelSession Seed :=
  let key := channel ++ ":" ++ c.sha256 payload
  if key ∈ s.seen then (true, s)
  else (false, { s with seen := Recent.push seenFrameCap key s.seen })

def deletionAuthority : Except ChannelRuntimeError DeletionAuthority := do
  env.signer.mapError .moss
  let own ← env.own.mapError .deletion
  let ownership ← env.ownership.mapError .deletion
  return {
    localActor := ⟨c.keyHex s.node, s.displayName, 0, ownership⟩
    members := ∅
    admins := ∅
    accepted := env.accepted
    accounts := fun _ => none
    own := own
    publicChannel := true }

/-- Notes whether a message whose proof is verified is one's own. -/
def setVerifiedOwnership (message : ChannelMessage) : Except ChannelRuntimeError ChannelMessage :=
  match message.metadata.bind fun data => data.origin.map (data, ·) with
  | none => .ok message
  | some (data, origin) => do
    let authority ← s.deletionAuthority c env
    return { message with metadata := some { data with
      isOwn := some (authority.isAuthor c.toDeletionCrypto origin) } }

/-- A text without a proof and an id gets the hash of its content as its id. -/
def prepareLegacyMessage (message : ChannelMessage) : Except ChannelRuntimeError ChannelMessage :=
  if (origin message).isNone && (message.messageId.getD "").isEmpty then do
    let json ← (c.legacyJson (s.name, message.sentAtMs, message.fromDevice,
      message.fromFingerprint, message.body)).mapError .codec
    return { message with messageId := some ("legacy-" ++ c.sha256 json) }
  else .ok message

/-- The proof of a text, which has to be of its author. -/
def verifyOrigin (envelope : ChannelMessage) (origin : MessageOrigin) :
    Except ChannelRuntimeError Unit := do
  (origin.verify c.toDeletionCrypto s.context (envelope.messageId.getD "")
    (textBytes envelope.body)).mapError .codec
  -- the key of a proof that is verified is written in digits, which `to_lowercase` leaves to ASCII
  check (.codec "channel origin author mismatch")
    (origin.author = envelope.fromFingerprint.toLower)

/-- A text with its proof, if it is verified, and without other metadata. -/
def withOrigin (envelope : ChannelMessage) : Except ChannelRuntimeError ChannelMessage :=
  match origin envelope with
  | none => .ok { envelope with metadata := none }
  | some origin => do
    s.verifyOrigin c envelope origin
    return { envelope with metadata := some { origin := some origin } }

def decodeChannelMessage (payload : Bytes) : Except ChannelRuntimeError ChannelMessage := do
  let envelope ← (c.parseMessage payload).mapError .codec
  check .bodyTooLarge (textFits envelope.body)
  let envelope ← s.withOrigin c envelope
  let envelope ← s.setVerifiedOwnership c env envelope
  s.prepareLegacyMessage c envelope

/-- The proof of a file, which has to be of its sender. -/
def verifyOffer (fromFingerprint : String) (offer : AttachmentOffer) (origin : MessageOrigin) :
    Except ChannelRuntimeError Unit := do
  (origin.verify c.toDeletionCrypto s.context offer.attachmentId offer.manifest.bytes).mapError
    .codec
  check (.codec "channel attachment signer mismatch") (origin.author = fromFingerprint.toLower)

def acceptIncomingManifest (fromDevice fromFingerprint : String) (offer : AttachmentOffer) :
    Except ChannelRuntimeError (ChannelSession Seed) := do
  offer.origin.elim (.ok ()) fun origin => s.verifyOffer c fromFingerprint offer origin
  let isOwn ← offer.origin.elim (.ok none) fun origin => do
    let authority ← s.deletionAuthority c env
    return some (authority.isAuthor c.toDeletionCrypto origin)
  let accepted ← (env.acceptOffer offer).mapError .attachment
  return accepted.elim s fun descriptor => { s with
    messages := s.messages.pushStamped env.now env.occurrence {
      metadata := offer.origin.map fun origin => { origin := some origin, isOwn := isOwn }
      fromDevice := fromDevice
      fromFingerprint := fromFingerprint
      body := ""
      messageId := offer.origin.map (·.id)
      attachment := some descriptor } }

/-- The session after a call that can fail, and its error. -/
def attempt (result : Except ChannelRuntimeError (ChannelSession Seed)) :
    ChannelSession Seed × Except ChannelRuntimeError Unit :=
  match result with
  | .error e => (s, .error e)
  | .ok s => (s, .ok ())

def handleBlob (payload : Bytes) : ChannelSession Seed × Except ChannelRuntimeError Unit :=
  match c.parseBlob payload with
  | .error e => (s, .error (.codec e))
  | .ok .history => (s, .ok ())
  | .ok envelope =>
    match s.seenBefore c s.blobTopic payload with
    | (true, s) => (s, .ok ())
    | (false, s) =>
      match envelope with
      | .manifest fromDevice fromFingerprint offer =>
        if fromFingerprint = s.deviceFingerprint then (s, .ok ())
        else s.attempt (s.acceptIncomingManifest c env fromDevice fromFingerprint offer)
      | _ => (s, .ok ())

/-- A text that is decoded goes into the log, once. -/
def pushOnce (envelope : ChannelMessage) : ChannelSession Seed × Except ChannelRuntimeError Unit :=
  if s.messages.messages.any (·.messageId = envelope.messageId) then
    -- an id cannot refer to messages of two authors
    if s.messages.holdsCopyOf envelope then (s, .ok ())
    else (s, .error (.codec "conflicting channel occurrence"))
  else if envelope.fromFingerprint = s.deviceFingerprint then (s, .ok ())
  else ({ s with messages := s.messages.pushStamped env.now env.occurrence envelope }, .ok ())

def handleText (payload : Bytes) : ChannelSession Seed × Except ChannelRuntimeError Unit :=
  match s.decodeChannelMessage c env payload with
  | .error e => (s, .error e)
  | .ok envelope => s.pushOnce env envelope

def handleMessage (channel : String) (payload : Bytes) :
    ChannelSession Seed × Except ChannelRuntimeError Unit :=
  if channel = s.blobTopic then s.handleBlob c env payload
  else
    match s.seenBefore c channel payload with
    | (true, s) => (s, .ok ())
    | (false, s) => if channel = s.topic then s.handleText c env payload else (s, .ok ())

/-! ### Sends -/

/-- What a message is without its delivery, which only its sender knows. -/
def publishableMessage (message : ChannelMessage) : ChannelMessage :=
  { message with delivery := {} }

def outbox : Outbox ChannelMessage := ⟨s.messages, s.outboundAttempts⟩

def withOutbox (o : Outbox ChannelMessage) : ChannelSession Seed :=
  { s with
    messages := o.log
    outboundAttempts := o.attempts }

def signOrigin (id : String) (content : Bytes) : Except ChannelRuntimeError MessageOrigin := do
  env.signer.mapError .moss
  let ownership ← env.ownership.mapError .codec
  (MessageOrigin.signed c s.context id content s.node ownership).mapError .codec

/-- Publishes what is prepared, unless it cannot be saved. -/
def publishPrepared (persisted published : Except String Unit) (prepared : Prepared) :
    ChannelSession Seed × Except ChannelRuntimeError Settled :=
  match persisted with
  | .error e =>
    match s.outbox.settle codec env.now prepared.messageId (.error e) .retain with
    | (.error e', o) => (s.withOutbox o, .error (.log e'))
    | (.ok _, o) => (s.withOutbox o, .error (.persistence e))
  | .ok () =>
    match s.outbox.settle codec env.now prepared.messageId published .forget with
    | (.error e', o) => (s.withOutbox o, .error (.log e'))
    | (.ok settled, o) => (s.withOutbox o, .ok settled)

/-- Sends a text. The store and the transport take it or not; what is signed is said too. -/
def send (body : String) (persisted published : Except String Unit) :
    ChannelSession Seed × Except ChannelRuntimeError Settled × List (MessageOrigin × Bytes) :=
  if !textFits body then (s, .error .bodyTooLarge, [])
  else
    let (message, log) := s.messages.stamp env.now env.occurrence {
      fromDevice := s.displayName
      fromFingerprint := s.deviceFingerprint
      body := body : ChannelMessage }
    let s := { s with messages := log }
    match s.signOrigin c env (message.messageId.getD "") (textBytes body) with
    | .error e => (s, .error e, [])
    | .ok origin =>
      let message := { message with metadata := some { origin := some origin } }
      match c.messageJson (publishableMessage message) with
      | .error e => (s, .error (.codec e), [(origin, textBytes body)])
      | .ok payload =>
        match s.outbox.open codec env.now message s.name payload payload.length with
        | (.error e, o) => (s.withOutbox o, .error (.log e), [(origin, textBytes body)])
        | (.ok prepared, o) =>
          let (s, result) := (s.withOutbox o).publishPrepared codec env persisted published prepared
          (s, result, [(origin, textBytes body)])

/-- Sends a text again. -/
def retryMessage (id : String) (persisted published : Except String Unit) :
    ChannelSession Seed × Except ChannelRuntimeError Settled :=
  match s.outbox.reopen codec id with
  | (.error e, o) => (s.withOutbox o, .error (.log e))
  | (.ok prepared, o) => (s.withOutbox o).publishPrepared codec env persisted published prepared

/-- Sends a file, whose manifest the transport takes or not. -/
def attach (id : String) (manifest : AttachmentManifest) (descriptor : AttachmentDescriptor)
    (published : Except String Unit) :
    ChannelSession Seed × Except ChannelRuntimeError Unit × List (MessageOrigin × Bytes) :=
  match s.signOrigin c env id manifest.bytes with
  | .error e => (s, .error e, [])
  | .ok origin =>
    match published with
    | .error e => (s, .error (.moss e), [(origin, manifest.bytes)])
    | .ok () =>
      ({ s with
        messages := s.messages.pushStamped env.now env.occurrence {
          metadata := some { origin := some origin, isOwn := some true }
          fromDevice := s.displayName
          fromFingerprint := s.deviceFingerprint
          body := ""
          messageId := some id
          attachment := some descriptor } }, .ok (), [(origin, manifest.bytes)])

end ChannelSession

end Mosh.Channel
