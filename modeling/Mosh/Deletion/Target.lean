import Mosh.Conversation.MessageLog
import Mosh.Deletion.Shared

/-!
# What a deletion is aimed at

A deletion names its message by a key (`message_deletion/target.rs`): the hash of the
proof of its origin, or of what identifies it otherwise. Copies of a message on the
devices of an account that carry no proof are found by a personal alias
(`message_deletion/correlation.rs`). A row of the stored history is looked up with
the key and the alias that are computed from the row
(`persistence/deletion_guard.rs`).

* `target_erase`, `historyTarget_erase`: an erased message keeps its key, in memory
  and on disk.
-/

namespace Mosh.Deletion

open Conversation ConversationMessage
open Conversation.MessageLog (StoredMessage)
open DeviceLink (textBytes)

/-- What is hashed to a key. -/
inductive TargetValue
  | attachment (context attachmentId contentHash : String)
  | manifest (context manifestHash : String)
  /-- A file of which only this device knows. -/
  | localFile (context : String) (messageId : Option String) (sentAtMs : Option Nat)
      (author : String) (attachment : AttachmentDescriptor)
  | call (context callId : String)
  | service (context : String) (messageId : Option String)
  | text (context : String) (id : Option String) (sentAt : Option Nat) (author contentHash : String)
  deriving DecidableEq, Repr

/-- What keys use of libraries, besides signatures and hashes: the JSON of what is hashed. -/
structure TargetCrypto extends DeletionCrypto where
  targetJson : TargetValue → Except String (List UInt8)

/-- The files of a conversation: the manifest of an attachment, if it is known. -/
structure Transfer where
  manifestFor : String → Option AttachmentManifest

variable {M : Type} [ConversationMessage M] (c : TargetCrypto)

/-- The key of a value. -/
def TargetValue.key (value : TargetValue) : Except String String := do
  return c.sha256 (← c.targetJson value)

/-- The proof of the origin of a message. -/
def origin (m : M) : Option MessageOrigin := (metadata m).bind (·.origin)

/-- The context is that of a public channel. -/
def isChannel (context : String) : Bool := "channel:".toList.isPrefixOf context.toList

/-! ## In memory -/

/-- The alias of a text message. -/
def textKey (context : String) (m : M) : Except String (Option String) :=
  if (attachment m).isSome || (callId m).isSome || isService m then .ok none
  else if isErased m && (origin m).isNone then .ok ((metadata m).bind (·.deletionKey))
  else do
    let contentHash := ((origin m).map (·.contentHash)).getD (c.sha256 (textBytes (body m)))
    let key ← (TargetValue.text context (messageId m) (sentAtMs m) (author m) contentHash).key c
    return some key

/-- What identifies the file of a message, and if only this device can tell. -/
def attachmentTarget (context : String) (m : M) (transfer : Transfer)
    (attachment : AttachmentDescriptor) : TargetValue × Bool :=
  if !isChannel context then
    (.attachment context attachment.attachmentId attachment.contentHash, false)
  else
    match transfer.manifestFor attachment.attachmentId with
    | some manifest => (.manifest context (c.sha256 manifest.bytes), false)
    | none => (.localFile context (messageId m) (sentAtMs m) (author m) attachment, true)

/-- The key of a message, and if only this device can tell. -/
def target (context : String) (m : M) (transfer : Transfer) : Except String (String × Bool) :=
  match (metadata m).bind (·.deletionKey) with
  | some key => .ok (key, (metadata m).any (·.localOnly))
  | none =>
    match origin m with
    | some origin => do return (← origin.key c.toDeletionCrypto, false)
    | none =>
      match attachment m with
      | some attachment => do
        let (value, localOnly) := attachmentTarget c context m transfer attachment
        return (← value.key c, localOnly)
      | none =>
        match callId m with
        | some callId => do return (← (TargetValue.call context callId).key c, false)
        | none =>
          if isService m && (messageId m).isSome then do
            return (← (TargetValue.service context (messageId m)).key c, false)
          else do
            let some key ← textKey c context m | throw "missing text target"
            return (key, true)

/-- The personal alias of a message. -/
def messageKey (context : String) (m : M) (transfer : Transfer) :
    Except String (Option String) :=
  match (metadata m).bind (·.personalCorrelation) with
  | some key => .ok (some key)
  | none =>
    if (attachment m).isSome then do
      let (key, localOnly) ← target c context (setMetadata m none) transfer
      return if localOnly then none else some key
    else textKey c context m

/-! ## On disk -/

/-- The proof of the origin of a stored message, if it holds. -/
def verifiedOrigin (context : String) (m : M) : Option MessageOrigin :=
  (origin m).filter fun origin =>
    origin.conversation = context && (origin.verifySignature c.toDeletionCrypto).isOk

/-- The alias of a stored file. -/
def historyAttachmentKey (context : String) (attachment : AttachmentDescriptor)
    (manifest : Option AttachmentManifest) : Option String :=
  if isChannel context then do
    let manifest ← manifest
    ((TargetValue.manifest context (c.sha256 manifest.bytes)).key c).toOption
  else
    ((TargetValue.attachment context attachment.attachmentId attachment.contentHash).key c).toOption

/-- The alias of a stored text message. -/
def historyTextKey (context : String) (m : M) : Option String :=
  if (attachment m).isSome || (callId m).isSome || isService m then none
  else if (verifiedOrigin c context m).isNone && isErased m then (metadata m).bind (·.deletionKey)
  else
    let contentHash :=
      ((verifiedOrigin c context m).map (·.contentHash)).getD (c.sha256 (textBytes (body m)))
    ((TargetValue.text context (messageId m) (sentAtMs m) (author m) contentHash).key c).toOption

/-- The personal alias of a stored message. -/
def historyMessageKey (context : String) (row : StoredMessage M) : Option String :=
  match isErased row.message, (metadata row.message).bind (·.personalCorrelation) with
  | true, some key => some key
  | _, _ =>
    match attachment row.message with
    | some attachment => historyAttachmentKey c context attachment row.attachmentManifest
    | none => historyTextKey c context row.message

/-- The key of a stored message that carries it or a proof. -/
def historyTarget (context : String) (m : M) : Option String :=
  match (metadata m).bind (·.deletionKey) with
  | some key => some key
  | none => (verifiedOrigin c context m).bind fun origin => (origin.key c.toDeletionCrypto).toOption

/-! ## Erasing a message -/

/-- The metadata of a message after it is erased: the marker, the key, and the alias if it is not
    the key. -/
def erasedMetadata (m : M) (marker : DeletionMarker) (key : String) (correlation : Option String)
    (localOnly : Bool) : MessageMetadata :=
  { (metadata m).getD {} with
    personalCorrelation := correlation.filter (· ≠ key)
    deletionKey := some key
    localOnly := localOnly
    deletion := some marker
    canDeleteForEveryone := false }

/-- What is left of a message. -/
def erase (m : M) (marker : DeletionMarker) (key : String) (correlation : Option String)
    (localOnly : Bool) : M :=
  eraseContent (setMetadata m (some (erasedMetadata m marker key correlation localOnly)))

variable {c} {m : M} {marker : DeletionMarker} {key : String} {correlation : Option String}
  {localOnly : Bool}

@[simp]
theorem metadata_erase : metadata (erase m marker key correlation localOnly) =
    some (erasedMetadata m marker key correlation localOnly) := by
  rw [erase, metadata_eraseContent, metadata_setMetadata]

@[simp]
theorem messageId_erase : messageId (erase m marker key correlation localOnly) = messageId m := by
  rw [erase, messageId_eraseContent, messageId_setMetadata]

@[simp]
theorem deletion_erase : deletion (erase m marker key correlation localOnly) = some marker := by
  rw [deletion, metadata_erase]
  rfl

/-- An erased message keeps its key. -/
theorem target_erase (context : String) (transfer : Transfer) :
    target c context (erase m marker key correlation localOnly) transfer =
      .ok (key, localOnly) := by
  rw [target, metadata_erase]
  rfl

/-- An erased message keeps its key on disk. -/
theorem historyTarget_erase (context : String) :
    historyTarget c context (erase m marker key correlation localOnly) = some key := by
  rw [historyTarget, metadata_erase]
  rfl

end Mosh.Deletion
