import Mosh.Attachment.Runtime

/-!
# Slots

What the user sees of a file (`conversation/attachments.rs`): who offered it, whether
the user asked for it, where it was saved, and whether its download failed or was
cancelled. The bytes are with the `AttachmentRuntime`; a call that concerns both
changes both.
-/

namespace Mosh.Attachment

open Conversation (AttachmentDescriptor)

/-- Which way a file goes. -/
inductive AttachmentDirection
  | outgoing | incoming
  deriving DecidableEq, Repr

/-- What the user is shown. -/
inductive AttachmentState
  | available | offered | downloading | failed | cancelled
  deriving DecidableEq, Repr

/-- The text of an error of the transfers. -/
def AttachmentRuntimeError.toText : AttachmentRuntimeError → String
  | .tooLarge size => "attachment of " ++ size.repr ++ " bytes exceeds the " ++
      maxAttachmentSize.repr ++ "-byte limit"
  | .empty => "attachment is empty"
  | .crypto error => "attachment crypto: " ++ error
  | .unknownTransfer id => "unknown attachment transfer: " ++ id
  | .duplicateTransfer id => "attachment transfer already registered: " ++ id
  | .manifestMismatch detail => "attachment manifest invalid: " ++ detail
  | .codec error => "attachment codec: " ++ error

/-- Why a call about a slot fails. -/
inductive SlotError
  | missing (id : String)
  | notIncoming
  | transfer (error : String)
  deriving DecidableEq, Repr

/-- A file of the conversation. -/
structure AttachmentSlot where
  descriptor : AttachmentDescriptor
  direction : AttachmentDirection
  localPath : Option String
  downloadRequested : Bool := false
  failed : Bool := false
  cancelled : Bool := false
  deriving DecidableEq, Repr

/-- What the user is shown of a file. -/
def AttachmentSlot.state (slot : AttachmentSlot) : AttachmentState :=
  if slot.cancelled then .cancelled
  else if slot.failed then .failed
  else if slot.localPath.isSome then .available
  else if slot.downloadRequested then .downloading
  else .offered

/-- The file of a manifest. -/
def descriptorOf (manifest : AttachmentManifest) : AttachmentDescriptor where
  attachmentId := manifest.attachmentId
  contentHash := manifest.contentHash
  fileName := manifest.fileName
  mime := manifest.mime
  totalSize := manifest.totalSize
  thumbnailB64 := manifest.thumbnailB64
  voice := manifest.voice

/-- All files of the conversation. -/
structure AttachmentSlots where
  slots : Std.ExtTreeMap String AttachmentSlot compare := ∅

namespace AttachmentSlots

def contains (s : AttachmentSlots) (id : String) : Bool := id ∈ s.slots

/-- A file that is saved here. -/
def cachedDescriptor (s : AttachmentSlots) (id : String) : Option AttachmentDescriptor :=
  (s.slots[id]?.filter (·.localPath.isSome)).map (·.descriptor)

/-- A new file, or an old one anew. -/
def insert (s : AttachmentSlots) (descriptor : AttachmentDescriptor)
    (direction : AttachmentDirection) (localPath : Option String) : AttachmentSlots where
  slots := s.slots.insert descriptor.attachmentId { descriptor, direction, localPath }

/-- Somebody offers a file. -/
def offer (s : AttachmentSlots) (descriptor : AttachmentDescriptor) : AttachmentSlots :=
  s.insert descriptor .incoming none

/-- A file that is saved here is known again. -/
def restore (s : AttachmentSlots) (descriptor : AttachmentDescriptor)
    (direction : AttachmentDirection) (localPath : String) : AttachmentSlots :=
  if s.contains descriptor.attachmentId then s else s.insert descriptor direction (some localPath)

def forget (s : AttachmentSlots) (id : String) : AttachmentSlots := ⟨s.slots.erase id⟩

/-- The name under which a file is saved. -/
def fileName (s : AttachmentSlots) (id : String) : String :=
  (s.slots[id]?.map (·.descriptor.fileName)).getD "file"

/-- Updates a slot. -/
def modify (s : AttachmentSlots) (id : String) (f : AttachmentSlot → AttachmentSlot) :
    AttachmentSlots :=
  ⟨s.slots.alter id (Option.map f)⟩

/-- The file is saved. -/
def completeDownload (s : AttachmentSlots) (id localPath : String) : AttachmentSlots :=
  s.modify id fun slot => { slot with localPath := some localPath, failed := false }

/-- The download failed. -/
def fail (s : AttachmentSlots) (id : String) : AttachmentSlots :=
  s.modify id fun slot => { slot with failed := true }

/-- The user asks for a file. -/
def startDownload (s : AttachmentSlots) (id : String) (attachments : AttachmentRuntime) :
    Except SlotError Unit × AttachmentSlots × AttachmentRuntime :=
  match s.slots[id]? with
  | none => (.error (.missing id), s, attachments)
  | some slot =>
    if slot.direction ≠ .incoming then (.error .notIncoming, s, attachments)
    else
      match attachments.startDownload id with
      | (.error error, attachments) => (.error (.transfer error.toText), s, attachments)
      | (.ok (), attachments) =>
        (.ok (), s.modify id fun slot =>
          { slot with downloadRequested := true, failed := false, cancelled := false }, attachments)

/-- The user cancels a transfer. -/
def cancel (s : AttachmentSlots) (id : String) (attachments : AttachmentRuntime) :
    Except SlotError Unit × AttachmentSlots × AttachmentRuntime :=
  match s.slots[id]? with
  | none => (.error (.missing id), s, attachments)
  | some _ =>
    (.ok (), s.modify id fun slot => { slot with cancelled := true, downloadRequested := false },
      attachments.cancel id)

/-- A file that was sent is sent on. -/
def resumeSent (s : AttachmentSlots) (id : String) : AttachmentSlots :=
  s.modify id fun slot =>
    if slot.direction = .outgoing then { slot with cancelled := false, failed := false } else slot

/-- Somebody else offered the file. -/
def incoming (s : AttachmentSlots) (id : String) : Bool :=
  s.slots[id]?.any (·.direction = .incoming)

/-- The file takes chunks. -/
def expectsChunks (s : AttachmentSlots) (id : String) : Bool :=
  s.slots[id]?.any fun slot =>
    slot.downloadRequested && !slot.cancelled && !slot.failed && slot.localPath.isNone

end AttachmentSlots

/-- The file awaits chunks: the user asked for it, and it is neither saved nor failed nor
    cancelled. -/
def AttachmentSlot.awaitsChunks (slot : AttachmentSlot) : Bool :=
  slot.direction = .incoming && slot.downloadRequested && !slot.failed && slot.localPath.isNone &&
    !slot.cancelled

/-- The files that await chunks, recordings first. -/
def AttachmentSlots.awaitingChunks (s : AttachmentSlots) : List String :=
  let ids := (s.slots.toList.filter (·.2.awaitsChunks)).map fun row =>
    (row.2.descriptor.voice.isNone, row.1)
  (ids.mergeSort fun a b => compareLex (compareOn Prod.fst) (compareOn Prod.snd) a b |>.isLE).map
    Prod.snd

/-- An update changes one slot. -/
theorem AttachmentSlots.getElem?_modify (s : AttachmentSlots) (id k : String)
    (f : AttachmentSlot → AttachmentSlot) :
    (s.modify id f).slots[k]? = if id = k then s.slots[id]?.map f else s.slots[k]? :=
  Table.getElem?_alter s.slots id k (Option.map f)

end Mosh.Attachment
