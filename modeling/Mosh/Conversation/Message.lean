import Mosh.Deletion.Record

/-!
# Messages

Direct messages, group messages and channel messages carry different data, and a
conversation does the same things with all of them (`ConversationMessage` in
`conversation/message_log.rs`): it gives a message an id and a time, notes what
became of its send, and erases it. The class also says what these do not touch: the
id and the metadata of a message survive its erasure and its delivery. The three kinds
of messages are also `LawfulMessage`s: no content is left of a message that is erased,
and who sent it and when stays.
-/

namespace Mosh.Conversation

open Deletion

/-- What became of a send. -/
inductive MessageDeliveryStatus
  | pending | queued | sent | delivered | failed
  deriving DecidableEq, Repr

/-- The delivery of a message. -/
structure MessageDeliveryMeta where
  deliveryStatus : Option MessageDeliveryStatus := none
  deliveryError : Option String := none
  retryable : Option Bool := none
  retryCount : Option Nat := none
  deriving DecidableEq, Repr

/-- How a send went: a failed one is the only one that can be retried. -/
def deliveryMeta (status : MessageDeliveryStatus) (error : Option String) (retryCount : Nat) :
    MessageDeliveryMeta where
  deliveryStatus := some status
  deliveryError := error
  retryable := some (status = .failed)
  retryCount := some retryCount

/-- A recording. -/
structure VoiceMeta where
  durationMs : Nat
  peaksB64 : String
  deriving DecidableEq, Repr

/-- The file of a message. -/
structure AttachmentDescriptor where
  attachmentId : String
  contentHash : String
  fileName : String
  mime : String
  totalSize : Nat
  thumbnailB64 : Option String
  voice : Option VoiceMeta
  deriving DecidableEq, Repr

/-- The manifest of a file, as the bytes of its JSON without the proof of its origin. -/
structure AttachmentManifest where
  bytes : List UInt8
  deriving DecidableEq, Repr

/-- What a conversation needs from a message. -/
class ConversationMessage (M : Type) where
  metadata : M → Option MessageMetadata
  setMetadata : M → Option MessageMetadata → M
  eraseContent : M → M
  isService : M → Bool := fun _ => false
  callId : M → Option String := fun _ => none
  messageId : M → Option String
  setMessageId : M → String → M
  sentAtMs : M → Option Nat
  setSentAtMs : M → Nat → M
  body : M → String
  author : M → String
  attachment : M → Option AttachmentDescriptor
  setDelivery : M → MessageDeliveryMeta → M
  deliveryStatus : M → Option MessageDeliveryStatus
  metadata_setMetadata : ∀ m d, metadata (setMetadata m d) = d := by intros; rfl
  messageId_setMetadata : ∀ m d, messageId (setMetadata m d) = messageId m := by intros; rfl
  setMetadata_setMetadata : ∀ m d e, setMetadata (setMetadata m d) e = setMetadata m e := by
    intros; rfl
  setMetadata_eraseContent : ∀ m d,
    setMetadata (eraseContent m) d = eraseContent (setMetadata m d) := by intros; rfl
  metadata_eraseContent : ∀ m, metadata (eraseContent m) = metadata m := by intros; rfl
  messageId_eraseContent : ∀ m, messageId (eraseContent m) = messageId m := by intros; rfl
  metadata_setDelivery : ∀ m d, metadata (setDelivery m d) = metadata m := by intros; rfl
  messageId_setDelivery : ∀ m d, messageId (setDelivery m d) = messageId m := by intros; rfl

namespace ConversationMessage

attribute [simp] metadata_setMetadata messageId_setMetadata metadata_eraseContent
  messageId_eraseContent metadata_setDelivery messageId_setDelivery

variable {M : Type} [ConversationMessage M]

/-- The marker of a message, if it is erased. -/
def deletion (m : M) : Option DeletionMarker := (metadata m).bind (·.deletion)

/-- The message carries a deletion marker. -/
def isErased (m : M) : Bool := (deletion m).isSome

@[simp]
theorem isErased_setDelivery (m : M) (d : MessageDeliveryMeta) :
    isErased (setDelivery m d) = isErased m := by
  rw [isErased, isErased, deletion, deletion, metadata_setDelivery]

end ConversationMessage

open ConversationMessage

/-- The end of a call. -/
structure CallEvent where
  kind : String
  durationMs : Nat
  callId : String
  deriving DecidableEq, Repr

/-- A direct message. -/
structure ChatMessage where
  metadata : Option MessageMetadata := none
  fromDevice : String
  body : String
  messageId : Option String := none
  sentAtMs : Option Nat := none
  attachment : Option AttachmentDescriptor := none
  callEvent : Option CallEvent := none
  delivery : MessageDeliveryMeta := {}
  read : Option Bool := none
  deriving DecidableEq, Repr

instance : ConversationMessage ChatMessage where
  metadata := (·.metadata)
  setMetadata m metadata := { m with metadata }
  eraseContent m := { m with body := "", attachment := none, callEvent := none, delivery := {} }
  isService m := m.callEvent.isSome
  callId m := m.callEvent.map (·.callId)
  messageId := (·.messageId)
  setMessageId m id := { m with messageId := some id }
  sentAtMs := (·.sentAtMs)
  setSentAtMs m sentAtMs := { m with sentAtMs := some sentAtMs }
  body := (·.body)
  author := (·.fromDevice)
  attachment := (·.attachment)
  setDelivery m delivery := { m with delivery }
  deliveryStatus := (·.delivery.deliveryStatus)

/-- A message in a group. A group also notes its new names as messages. -/
structure GroupMessage where
  metadata : Option MessageMetadata := none
  fromDevice : String
  fromFingerprint : String
  body : String
  messageId : Option String := none
  sentAtMs : Option Nat := none
  attachment : Option AttachmentDescriptor := none
  delivery : MessageDeliveryMeta := {}
  nameChange : Option String := none
  deriving DecidableEq, Repr

instance : ConversationMessage GroupMessage where
  metadata := (·.metadata)
  setMetadata m metadata := { m with metadata }
  eraseContent m := { m with body := "", attachment := none, nameChange := none, delivery := {} }
  isService m := m.nameChange.isSome
  messageId := (·.messageId)
  setMessageId m id := { m with messageId := some id }
  sentAtMs := (·.sentAtMs)
  setSentAtMs m sentAtMs := { m with sentAtMs := some sentAtMs }
  body := (·.body)
  author := (·.fromFingerprint)
  attachment := (·.attachment)
  setDelivery m delivery := { m with delivery }
  deliveryStatus := (·.delivery.deliveryStatus)

/-- A message in a public channel. -/
structure ChannelMessage where
  metadata : Option MessageMetadata := none
  fromDevice : String
  fromFingerprint : String
  body : String
  messageId : Option String := none
  sentAtMs : Option Nat := none
  attachment : Option AttachmentDescriptor := none
  delivery : MessageDeliveryMeta := {}
  deriving DecidableEq, Repr

instance : ConversationMessage ChannelMessage where
  metadata := (·.metadata)
  setMetadata m metadata := { m with metadata }
  eraseContent m := { m with body := "", attachment := none, delivery := {} }
  messageId := (·.messageId)
  setMessageId m id := { m with messageId := some id }
  sentAtMs := (·.sentAtMs)
  setSentAtMs m sentAtMs := { m with sentAtMs := some sentAtMs }
  body := (·.body)
  author := (·.fromFingerprint)
  attachment := (·.attachment)
  setDelivery m delivery := { m with delivery }
  deliveryStatus := (·.delivery.deliveryStatus)

/-! ## What erasing a message leaves -/

/-- Erasing a message empties it, and what is not content stays. -/
class LawfulMessage (M : Type) [ConversationMessage M] : Prop where
  body_eraseContent : ∀ m : M, body (eraseContent m) = "" := by intros; rfl
  attachment_eraseContent : ∀ m : M, attachment (eraseContent m) = none := by intros; rfl
  callId_eraseContent : ∀ m : M, callId (eraseContent m) = none := by intros; rfl
  isService_eraseContent : ∀ m : M, isService (eraseContent m) = false := by intros; rfl
  author_eraseContent : ∀ m : M, author (eraseContent m) = author m := by intros; rfl
  sentAtMs_eraseContent : ∀ m : M, sentAtMs (eraseContent m) = sentAtMs m := by intros; rfl
  attachment_setMetadata : ∀ (m : M) d, attachment (setMetadata m d) = attachment m := by
    intros; rfl
  author_setMetadata : ∀ (m : M) d, author (setMetadata m d) = author m := by intros; rfl
  sentAtMs_setMetadata : ∀ (m : M) d, sentAtMs (setMetadata m d) = sentAtMs m := by intros; rfl

attribute [simp] LawfulMessage.body_eraseContent LawfulMessage.attachment_eraseContent
  LawfulMessage.callId_eraseContent LawfulMessage.isService_eraseContent
  LawfulMessage.author_eraseContent LawfulMessage.sentAtMs_eraseContent
  LawfulMessage.attachment_setMetadata LawfulMessage.author_setMetadata
  LawfulMessage.sentAtMs_setMetadata

instance : LawfulMessage ChatMessage where

instance : LawfulMessage GroupMessage where

instance : LawfulMessage ChannelMessage where

end Mosh.Conversation
