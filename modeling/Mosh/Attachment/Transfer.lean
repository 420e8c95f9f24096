import Mosh.Attachment.Slots

/-!
# The files of a conversation

A conversation keeps the slots of its files, their transfers and the files on disk
together (`conversation/transfer.rs` and its parts). It takes offers in, with small
previews that it downloads by itself, a few at a time and again after a while when
they fail; it downloads what the user asks for, within what the system and the user
admitted; it saves chunks in batches, so that a restart can go on with them; and it
writes a file out when its last chunk has arrived.

The disk, the database, the clock and the system are in the `World` of a call: each of
them can refuse at any point.
-/

namespace Mosh.Attachment

open Conversation (AttachmentDescriptor)

/-! ## The world of a call -/

inductive UserTransferDirection
  | upload | download
  deriving DecidableEq, Repr

inductive UserTransferState
  | prepared | running | paused | waitingReceiver | waitingExecution | complete | failed | cancelled
  deriving DecidableEq, Repr

/-- What the system, the disk and the database answer during a call. The batches of chunks are
    saved in any order. -/
structure World where
  now : Nat
  managedExecution : Bool
  automaticDownloadsAllowed : Bool
  granted : String → Bool
  retain : String → String → Except String Unit
  pathFor : String → String → Except String String
  writeBlob : String → String → List UInt8 → Except String String
  cachedValid : AttachmentDescriptor → Bool
  readBlob : AttachmentDescriptor → Nat → Nat → Option (List UInt8)
  saveUserTransferChunks : String → List ChunkFrame → Except String Unit
  userTransfer : String → Except String (Option (UserTransferDirection × UserTransferState))
  setUserTransferState : String → UserTransferState → Except String Unit
  bindUserTransfer : String → AttachmentManifest → Except String Unit
  removeUserTransfer : String → Except String Unit
  order : List (String × List ChunkFrame) → List (String × List ChunkFrame)
  order_perm : ∀ batches, (order batches).Perm batches

/-! ## The state -/

/-- The user admitted a transfer. -/
structure Admission where
  id : String
  direction : UserTransferDirection
  state : UserTransferState
  deriving DecidableEq, Repr

/-- The transfers that the user admitted, and the chunks that are not saved yet. -/
structure Execution where
  admissions : Std.ExtTreeMap String Admission compare := ∅
  error : Option String := none
  checkpoints : Std.ExtTreeMap String (List ChunkFrame) compare := ∅

/-- All files of a conversation. -/
structure Transfer where
  execution : Option Execution := none
  runtime : AttachmentRuntime := {}
  slots : AttachmentSlots := {}
  restoredOutgoing : Std.ExtTreeMap String AttachmentManifest compare := ∅
  leases : Std.ExtTreeMap String (String × String) compare := ∅
  previews : Std.ExtTreeMap String AttachmentManifest compare := ∅
  pendingPreviews : List String := []
  previewRetryAfter : Std.ExtTreeMap String Nat compare := ∅

/-- Why a call fails. -/
inductive TransferError
  | bytes (error : String)
  | slot (error : SlotError)
  deriving DecidableEq, Repr

/-- A text without its end. -/
def stripSuffix (text suffix : String) : Option String :=
  if suffix.toList <:+ text.toList then
    some (String.ofList (text.toList.take (text.length - suffix.length)))
  else none

/-- The preview of a file is a file of its own. -/
def previewId (parent : String) : String := parent ++ "/preview"

def maxActivePreviews : Nat := 4

/-- In milliseconds. -/
def previewRetryDelay : Nat := 5000

def maxMiniatureBase64 : Nat := 2048

def maxPreviewBytes : Nat := 128 * 1024

def previewFileName : String := "preview.jpg"

variable (c : ChunkCrypto) (w : World)

namespace Transfer

/-! ## What is allowed -/

def holds (tr : Transfer) (id : String) : Bool := tr.slots.contains id

/-- The file is the preview of one. -/
def isPreview (tr : Transfer) (id : String) : Bool :=
  (stripSuffix id "/preview").any (· ∈ tr.previews)

/-- The system lets the transfer run. -/
def executionAllowed (tr : Transfer) (id : String) : Bool :=
  if !w.managedExecution || w.automaticDownloadsAllowed then true
  else
    match tr.execution with
    | none => false
    | some context =>
      if context.error.isSome then false
      else
        match context.admissions[(stripSuffix id "/preview").getD id]? with
        | none => false
        | some admission => w.granted admission.id

def mayDownload (tr : Transfer) (id : String) : Bool :=
  if tr.isPreview id then w.automaticDownloadsAllowed else tr.executionAllowed w id

/-- The user admitted the download. -/
def requireDownloadAdmission (tr : Transfer) (id : String) : Except TransferError Unit :=
  if tr.isPreview id || !w.managedExecution then .ok ()
  else
    match tr.execution with
    | none => .error (.bytes "transfer storage unavailable")
    | some context =>
      match context.error with
      | some error => .error (.bytes error)
      | none =>
        match context.admissions[id]? with
        | none => .error (.bytes "user transfer admission missing")
        | some admission =>
          match w.userTransfer admission.id with
          | .error error => .error (.bytes error)
          | .ok none => .error (.bytes "user transfer admission missing")
          | .ok (some (direction, state)) =>
            if direction ≠ .download ∨ state = .cancelled then
              .error (.bytes "download admission is not active")
            else .ok ()

/-! ## Offers -/

/-- Keeps a file on disk, and tells whether it was not kept before. -/
def retainLease (tr : Transfer) (descriptor : AttachmentDescriptor) :
    Except TransferError Bool × Transfer :=
  if descriptor.attachmentId ∈ tr.leases then (.ok false, tr)
  else
    match w.retain descriptor.contentHash descriptor.fileName with
    | .error error => (.error (.bytes error), tr)
    | .ok () =>
      let lease := (descriptor.contentHash, descriptor.fileName)
      (.ok true, { tr with leases := tr.leases.insert descriptor.attachmentId lease })

/-- Does not keep the file on disk any more. -/
def releaseLease (tr : Transfer) (id : String) : Transfer := { tr with leases := tr.leases.erase id }

/-- Does something while the file on disk is kept, and lets go of it if that fails. -/
def withLease {α : Type} (tr : Transfer) (descriptor : AttachmentDescriptor)
    (operation : Transfer → Except TransferError α × Transfer) : Except TransferError α × Transfer :=
  match tr.retainLease w descriptor with
  | (.error error, tr) => (.error error, tr)
  | (.ok retained, tr) =>
    match operation tr with
    | (.error error, tr) =>
      (.error error, if retained then tr.releaseLease descriptor.attachmentId else tr)
    | (.ok result, tr) => (.ok result, tr)

/-- Takes the manifest of a file in. -/
def acceptManifest (tr : Transfer) (manifest : AttachmentManifest) :
    Except TransferError (Option AttachmentDescriptor) × Transfer :=
  if tr.holds manifest.attachmentId then (.ok none, tr)
  else
    let descriptor := descriptorOf manifest
    let register (tr : Transfer) : Except TransferError Unit × Transfer :=
      let (result, runtime) := tr.runtime.registerIncoming c manifest
      (result.mapError fun e => .bytes e.toText, { tr with runtime })
    match tr.withLease w descriptor register with
    | (.error error, tr) => (.error error, tr)
    | (.ok (), tr) => (.ok (some descriptor), { tr with slots := tr.slots.offer descriptor })

/-- The crypto of a file, for its history row. -/
def manifestFor (tr : Transfer) (id : String) : Option AttachmentManifest :=
  tr.restoredOutgoing[id]?.or (tr.runtime.manifestOf id)

/-- A file that is on disk is known again. -/
def restoreCached (tr : Transfer) (descriptor : AttachmentDescriptor)
    (direction : AttachmentDirection) : Transfer :=
  let tr := (tr.retainLease w descriptor).2
  if !w.cachedValid descriptor then tr
  else
    match w.pathFor descriptor.contentHash descriptor.fileName with
    | .error _ => tr
    | .ok path => { tr with slots := tr.slots.restore descriptor direction path }

/-- A file of the history is known again: from disk, or else as an offer. -/
def restoreStored (tr : Transfer) (descriptor : AttachmentDescriptor)
    (direction : AttachmentDirection) (manifest : Option AttachmentManifest) : Transfer :=
  if tr.holds descriptor.attachmentId then tr
  else
    let manifest := manifest.filter fun value =>
      value.attachmentId = descriptor.attachmentId && value.contentHash = descriptor.contentHash &&
        value.fileName = descriptor.fileName && value.mime = descriptor.mime &&
        value.totalSize = descriptor.totalSize
    let tr := tr.restoreCached w descriptor direction
    if tr.holds descriptor.attachmentId then
      match direction, manifest with
      | .outgoing, some manifest =>
        { tr with restoredOutgoing := tr.restoredOutgoing.insert descriptor.attachmentId manifest }
      | _, _ => tr
    else
      match direction, manifest with
      | .incoming, some manifest => (tr.acceptManifest c w manifest).2
      | _, _ => tr

/-- The file is not admitted any more. -/
def forgetExecution (tr : Transfer) (id : String) : Transfer :=
  match tr.execution with
  | none => tr
  | some context =>
    match context.admissions[id]? with
    | none => tr
    | some admission =>
      let context := { context with admissions := context.admissions.erase id }
      match w.removeUserTransfer admission.id with
      | .ok () => { tr with execution := some context }
      | .error error => { tr with execution := some { context with error := some error } }

theorem previews_forgetExecution (tr : Transfer) (id : String) :
    (tr.forgetExecution w id).previews = tr.previews := by
  rw [forgetExecution]
  repeat' split
  all_goals rfl

/-- Forgets a file, and its preview before it. -/
def forget (tr : Transfer) (id : String) : Transfer :=
  let tr := tr.forgetExecution w id
  let tr :=
    match h : tr.previews[id]? with
    | none => tr
    | some preview =>
      forget
        { tr with
          previews := tr.previews.erase id
          pendingPreviews := tr.pendingPreviews.filter (· ≠ preview.attachmentId)
          previewRetryAfter := tr.previewRetryAfter.erase preview.attachmentId }
        preview.attachmentId
  releaseLease
    { tr with
      runtime := tr.runtime.forget id
      restoredOutgoing := tr.restoredOutgoing.erase id
      slots := tr.slots.forget id }
    id
termination_by tr.previews.size
decreasing_by
  exact (Table.size_erase_lt h).trans_eq (congrArg _ (previews_forgetExecution w _ id))

end Transfer

/-- An offer: a file, and perhaps a preview of it. -/
structure AttachmentOffer where
  manifest : AttachmentManifest
  previewManifest : Option AttachmentManifest
  deriving DecidableEq, Repr

/-- The preview of an offer fits to its file. -/
def AttachmentOffer.validatePreview (offer : AttachmentOffer) : Except String Unit :=
  match offer.previewManifest with
  | none => .ok ()
  | some preview =>
    let miniature := offer.manifest.thumbnailB64.getD ""
    match c.decode miniature with
    | none => .error "invalid miniature base64"
    | some jpeg =>
      if ¬ ("image/".toList <+: offer.manifest.mime.toList ∨
            "video/".toList <+: offer.manifest.mime.toList) ∨
          miniature.isEmpty ∨ maxMiniatureBase64 < miniature.utf8ByteSize ∨
          ¬ [0xff, 0xd8, 0xff] <+: jpeg ∨
          preview.attachmentId ≠ previewId offer.manifest.attachmentId ∨
          preview.fileName ≠ previewFileName ∨ preview.mime ≠ "image/jpeg" ∨
          preview.totalSize = 0 ∨ maxPreviewBytes < preview.totalSize ∨
          preview.chunkSize ≠ chunkSizeDefault ∨
          preview.chunkCount ≠ divCeil preview.totalSize chunkSizeDefault ∨
          preview.fromFingerprint ≠ offer.manifest.fromFingerprint ∨
          preview.thumbnailB64.isSome ∨ preview.voice.isSome then
        .error "invalid attachment preview descriptor"
      else .ok ()

namespace Transfer

/-- Takes the preview of a file in: from disk, or it is downloaded next. -/
def installPreview (tr : Transfer) (parent : String) (manifest : AttachmentManifest)
    (direction : AttachmentDirection) : Except TransferError Unit × Transfer :=
  if parent ∈ tr.previews then (.ok (), tr)
  else
    let descriptor := descriptorOf manifest
    if w.cachedValid descriptor then
      let tr := tr.restoreStored c w descriptor direction (some manifest)
      (.ok (), { tr with previews := tr.previews.insert parent manifest })
    else if direction ≠ .incoming then (.ok (), tr)
    else
      match tr.acceptManifest c w manifest with
      | (.error error, tr) => (.error error, tr)
      | (.ok _, tr) =>
        (.ok (),
          { tr with
            pendingPreviews := manifest.attachmentId :: tr.pendingPreviews
            previews := tr.previews.insert parent manifest })

/-- Takes an offer in. -/
def acceptOffer (tr : Transfer) (offer : AttachmentOffer) :
    Except TransferError (Option AttachmentDescriptor) × Transfer :=
  match offer.validatePreview c with
  | .error error => (.error (.bytes error), tr)
  | .ok () =>
    match tr.acceptManifest c w offer.manifest with
    | (.error error, tr) => (.error error, tr)
    | (.ok none, tr) => (.ok none, tr)
    | (.ok (some descriptor), tr) =>
      match offer.previewManifest with
      | none => (.ok (some descriptor), tr)
      | some preview =>
        match tr.installPreview c w offer.manifest.attachmentId preview .incoming with
        | (.error error, tr) => (.error error, tr.forget w offer.manifest.attachmentId)
        | (.ok (), tr) => (.ok (some descriptor), tr)

/-! ## Saving chunks -/

/-- The first of some batches that cannot be saved, and why. -/
def firstUnsaved (admissions : Std.ExtTreeMap String Admission compare) :
    List (String × List ChunkFrame) → Option (String × String)
  | [] => none
  | (attachment, frames) :: rest =>
    match admissions[attachment]? with
    | none => firstUnsaved admissions rest
    | some admission =>
      match w.saveUserTransferChunks admission.id frames with
      | .ok () => firstUnsaved admissions rest
      | .error error => some (attachment, error)

/-- Saves all batches. The first one that cannot be saved fails its file. -/
def flushCheckpoints (tr : Transfer) : Except TransferError Unit × Transfer :=
  match tr.execution with
  | none => (.ok (), tr)
  | some context =>
    let taken := { context with checkpoints := ∅ }
    match firstUnsaved w context.admissions (w.order context.checkpoints.toList) with
    | none => (.ok (), { tr with execution := some taken })
    | some (attachment, error) =>
      (.error (.bytes error),
        { tr with
          slots := tr.slots.fail attachment
          runtime := tr.runtime.failIncoming attachment
          execution := some { taken with error := some error } })

/-- Puts a chunk to its batch, and saves all batches when it is long. -/
def checkpointFrame (tr : Transfer) (frame : ChunkFrame) : Except TransferError Unit × Transfer :=
  match tr.execution with
  | none => (.ok (), tr)
  | some context =>
    if frame.attachmentId ∉ context.admissions then (.ok (), tr)
    else
      let batch := (context.checkpoints[frame.attachmentId]?).getD [] ++ [frame]
      let tr := { tr with execution := some { context with
        checkpoints := context.checkpoints.insert frame.attachmentId batch } }
      if 64 ≤ batch.length then tr.flushCheckpoints w else (.ok (), tr)

/-! ## Chunks -/

/-- A preview that failed is downloaded again after a while. -/
def retryPreview (tr : Transfer) (id : String) : Transfer :=
  if tr.isPreview id ∧ id ∉ tr.previewRetryAfter then
    let runtime :=
      match tr.runtime.manifestOf id with
      | none => tr.runtime
      | some manifest => ((tr.runtime.forget id).registerIncoming c manifest).2
    { tr with
      runtime
      previewRetryAfter := tr.previewRetryAfter.insert id (w.now + previewRetryDelay)
      pendingPreviews := tr.pendingPreviews ++ [id] }
  else tr

/-- Writes a file out. -/
def writeFile (tr : Transfer) (id fileName contentHash : String) (bytes : List UInt8) :
    Except TransferError Unit × Transfer :=
  match w.writeBlob contentHash fileName bytes with
  | .ok path => (.ok (), { tr with slots := tr.slots.completeDownload id path })
  | .error error =>
    let tr := { tr with slots := tr.slots.fail id }
    if tr.isPreview id then (.ok (), tr.retryPreview c w id)
    else (.error (.bytes error), { tr with runtime := tr.runtime.failIncoming id })

/-- All chunks of a file have arrived. -/
def completeFile (tr : Transfer) (frame : ChunkFrame) (fileName contentHash : String)
    (bytes : List UInt8) : Except TransferError Unit × Transfer :=
  match tr.checkpointFrame w frame with
  | (.error error, tr) => (.error error, tr)
  | (.ok (), tr) =>
    match tr.flushCheckpoints w with
    | (.error error, tr) => (.error error, tr)
    | (.ok (), tr) => tr.writeFile c w frame.attachmentId fileName contentHash bytes

/-- A chunk arrives. -/
def ingest (tr : Transfer) (frame : ChunkFrame) : Except TransferError Unit × Transfer :=
  if !tr.slots.expectsChunks frame.attachmentId || !tr.mayDownload w frame.attachmentId then
    (.ok (), tr)
  else
    let fileName := tr.slots.fileName frame.attachmentId
    match tr.runtime.ingestChunk c frame with
    | (.ok (.complete _ contentHash bytes), runtime) =>
      completeFile c w { tr with runtime } frame fileName contentHash bytes
    | (.ok (.progress ..), runtime) => checkpointFrame w { tr with runtime } frame
    | (.ok _, runtime) => (.ok (), { tr with runtime })
    | (.error _, runtime) =>
      let tr := { tr with runtime, slots := tr.slots.fail frame.attachmentId }
      (.ok (), tr.retryPreview c w frame.attachmentId)

/-! ## Downloads -/

/-- The user asks for a file. -/
def startDownload (tr : Transfer) (id : String) : Except TransferError Unit × Transfer :=
  match tr.requireDownloadAdmission w id with
  | .error error => (.error error, tr)
  | .ok () =>
    let (result, slots, runtime) := tr.slots.startDownload id tr.runtime
    (result.mapError .slot, { tr with slots, runtime })

/-- The admitted transfer is cancelled. -/
def cancelExecution (tr : Transfer) (id : String) : Except TransferError Unit :=
  match tr.execution.bind (·.admissions[id]?) with
  | none => .ok ()
  | some admission => (w.setUserTransferState admission.id .cancelled).mapError .bytes

/-- The user cancels a transfer. -/
def cancel (tr : Transfer) (id : String) : Except TransferError Unit × Transfer :=
  match tr.flushCheckpoints w with
  | (.error error, tr) => (.error error, tr)
  | (.ok (), tr) =>
    match tr.cancelExecution w id with
    | .error error => (.error error, tr)
    | .ok () =>
      let (result, slots, runtime) := tr.slots.cancel id tr.runtime
      (result.mapError .slot, { tr with slots, runtime })

/-- The user admits a transfer. -/
def bindUserAdmission (tr : Transfer) (id : String) (manifest : AttachmentManifest) :
    Except TransferError Unit × Transfer :=
  match tr.execution with
  | none => (.error (.bytes "transfer storage unavailable"), tr)
  | some context =>
    match w.bindUserTransfer id manifest, w.userTransfer id with
    | .error error, _ => (.error (.bytes error), tr)
    | .ok (), .error error => (.error (.bytes error), tr)
    | .ok (), .ok none => (.error (.bytes "transfer admission missing"), tr)
    | .ok (), .ok (some (direction, state)) =>
      (.ok (), { tr with execution := some { context with
        error := none
        admissions := context.admissions.insert manifest.attachmentId ⟨id, direction, state⟩ } })

/-- The user admits the transfer of a file. -/
def bindDownloadAdmission (tr : Transfer) (attachmentId id : String) :
    Except TransferError Unit × Transfer :=
  match tr.manifestFor attachmentId with
  | none => (.error (.bytes "unknown attachment manifest"), tr)
  | some manifest =>
    match tr.bindUserAdmission w id manifest with
    | (.error error, tr) => (.error error, tr)
    | (.ok (), tr) =>
      if tr.slots.incoming attachmentId then (.ok (), tr)
      else
        (.ok (),
          { tr with
            slots := tr.slots.resumeSent attachmentId
            runtime := tr.runtime.resumeOutgoing attachmentId })

/-! ## Previews and requests -/

/-- The loop over the previews that wait. -/
def scheduleLoop : Nat → Nat → Transfer → Transfer
  | 0, _, tr => tr
  | waiting + 1, available, tr =>
    match tr.pendingPreviews with
    | [] => tr
    | id :: rest =>
      let tr := { tr with pendingPreviews := rest }
      if !tr.isPreview id then scheduleLoop waiting available tr
      else if available = 0 || (tr.previewRetryAfter[id]?).any (w.now < ·) then
        scheduleLoop waiting available { tr with pendingPreviews := rest ++ [id] }
      else
        match tr.startDownload w id with
        | (.ok (), tr) =>
          scheduleLoop waiting (available - 1)
            { tr with previewRetryAfter := tr.previewRetryAfter.erase id }
        | (.error _, tr) => scheduleLoop waiting available tr

/-- Downloads previews, a few at a time. -/
def schedulePreviews (tr : Transfer) : Transfer :=
  if !w.automaticDownloadsAllowed then tr
  else
    let active := (tr.slots.slots.toList.filter fun row =>
      tr.isPreview row.2.descriptor.attachmentId && row.2.state = .downloading).length
    scheduleLoop w tr.pendingPreviews.length (maxActivePreviews - active) tr

/-- Recordings come first, then previews. -/
def requestPriority (tr : Transfer) (id : String) : Nat :=
  if (tr.runtime.manifestOf id).any (·.voice.isSome) then 0 else if tr.isPreview id then 1 else 2

/-- The loop over the files that await chunks: each gets its share of what can be asked for. -/
def requestLoop : List String → AttachmentRuntime → List ChunkRequest × AttachmentRuntime
  | [], runtime => ([], runtime)
  | id :: rest, runtime =>
    let budget := divCeil (runtime.availableRequestSlotsAt w.now) (rest.length + 1)
    let (request, runtime) := runtime.nextChunkRequestWithBudgetAt id w.now budget
    let (requests, runtime) := requestLoop rest runtime
    (request.toList ++ requests, runtime)

/-- Asks for chunks. -/
def nextRequests (tr : Transfer) : List ChunkRequest × Transfer :=
  match tr.flushCheckpoints w with
  | (.error _, tr) => ([], tr)
  | (.ok (), tr) =>
    let tr := tr.schedulePreviews w
    let awaiting := (tr.slots.awaitingChunks.filter (tr.mayDownload w)).mergeSort
      fun a b => tr.requestPriority a ≤ tr.requestPriority b
    let (requests, runtime) := requestLoop w awaiting tr.runtime
    (requests, { tr with runtime })

/-- Playback asks for a range of bytes. -/
def streamRange (tr : Transfer) (id : String) (start stop : Nat) : StreamRange × Transfer :=
  if w.managedExecution && (tr.slots.cachedDescriptor id).isNone &&
      (!tr.slots.expectsChunks id || !tr.mayDownload w id) then
    (.unknown, tr)
  else
    let (_, slots, runtime) := tr.slots.startDownload id tr.runtime
    let (range, runtime) := runtime.streamRange id start stop
    let tr := { tr with slots, runtime }
    if range ≠ .unknown then (range, tr)
    else
      match tr.slots.cachedDescriptor id with
      | none => (.unknown, tr)
      | some descriptor =>
        let start := min start descriptor.totalSize
        let stop := max (min stop descriptor.totalSize) start
        match w.readBlob descriptor start stop with
        | none => (.unknown, tr)
        | some bytes => (.ready bytes descriptor.totalSize descriptor.mime, tr)

end Transfer

/-! ## Calls -/

/-- A call. -/
inductive TransferCall
  | acceptManifest (manifest : AttachmentManifest)
  | acceptOffer (offer : AttachmentOffer)
  | bindDownloadAdmission (attachmentId id : String)
  | startDownload (id : String)
  | cancel (id : String)
  | ingest (frame : ChunkFrame)
  | nextRequests
  | streamRange (id : String) (start stop : Nat)
  | schedulePreviews

/-- One call, in its world. Whether it fails or not, the state goes on. -/
def Transfer.step (tr : Transfer) : World × TransferCall → Transfer
  | (w, .acceptManifest manifest) => (tr.acceptManifest c w manifest).2
  | (w, .acceptOffer offer) => (tr.acceptOffer c w offer).2
  | (w, .bindDownloadAdmission attachmentId id) => (tr.bindDownloadAdmission w attachmentId id).2
  | (w, .startDownload id) => (tr.startDownload w id).2
  | (w, .cancel id) => (tr.cancel w id).2
  | (w, .ingest frame) => (tr.ingest c w frame).2
  | (w, .nextRequests) => (tr.nextRequests w).2
  | (w, .streamRange id start stop) => (tr.streamRange w id start stop).2
  | (w, .schedulePreviews) => tr.schedulePreviews w

end Mosh.Attachment
