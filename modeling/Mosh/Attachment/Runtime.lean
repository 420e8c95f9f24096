import Mosh.Conversation.Message
import Mosh.Library.Table

/-!
# Files in chunks

A file is sent in chunks (`attachment_runtime.rs`): the sender seals it under a key of
its own and publishes a manifest, the receiver asks for chunks by their indices, in
batches, and again when they do not arrive, and the sender answers with encrypted
chunks. When the last chunk has arrived the receiver puts the file together and
compares it with the hash of the manifest. Playback asks for ranges of bytes, and puts
the chunks that are missing there first.

* `sameData_nextChunkRequest`: asking for chunks keeps the chunks and the state of every
  transfer.
-/

namespace Mosh.Attachment

open Conversation (VoiceMeta)
open Deletion (MessageOrigin)

/-! ## Manifests, requests and chunks -/

def attachmentKeyLen : Nat := 32

def attachmentNoncePrefixLen : Nat := 4

def chunkSizeDefault : Nat := 4 * 1024

def maxAttachmentSize : Nat := 50 * 1024 * 1024

def maxThumbnailB64 : Nat := 32 * 1024

def requestWindowBytes : Nat := 2 * 1024 * 1024

def maxRequestBatch : Nat := 256

/-- In milliseconds. -/
def chunkRequestTimeout : Nat := 10000

/-- How many chunks of a size are asked for at once. -/
def requestBatch (chunkSize : Nat) : Nat :=
  max 1 (min (requestWindowBytes / max chunkSize 1) maxRequestBatch)

/-- Why an operation on a file fails. -/
inductive AttachmentRuntimeError
  | tooLarge (size : Nat)
  | empty
  | crypto (error : String)
  | unknownTransfer (id : String)
  | duplicateTransfer (id : String)
  | manifestMismatch (detail : String)
  | codec (error : String)
  deriving DecidableEq, Repr

/-- What a file is, and the key of its chunks. -/
structure AttachmentManifest where
  origin : Option MessageOrigin
  attachmentId : String
  contentHash : String
  fileName : String
  mime : String
  totalSize : Nat
  chunkSize : Nat
  chunkCount : Nat
  keyB64 : String
  noncePrefixB64 : String
  thumbnailB64 : Option String
  voice : Option VoiceMeta
  fromFingerprint : String
  deriving DecidableEq, Repr

/-- A file that is to be sent. -/
structure OutgoingAttachment where
  attachmentId : String
  fileName : String
  mime : String
  fromFingerprint : String
  bytes : List UInt8
  thumbnailB64 : Option String
  voice : Option VoiceMeta

/-- The receiver asks for chunks. -/
structure ChunkRequest where
  attachmentId : String
  chunkIndices : List Nat
  deriving DecidableEq, Repr

/-- A chunk, encrypted. -/
structure ChunkFrame where
  attachmentId : String
  chunkIndex : Nat
  ciphertextB64 : String
  deriving DecidableEq, Repr

/-- How far a transfer is. -/
inductive TransferState
  | active | complete | cancelled | failed
  deriving DecidableEq, Repr

/-- What a chunk did. -/
inductive ChunkOutcome
  | progress (completedChunks chunkCount : Nat)
  | complete (attachmentId contentHash : String) (bytes : List UInt8)
  | duplicate
  | unknown
  deriving DecidableEq, Repr

/-- The answer to playback. -/
inductive StreamRange
  | ready (bytes : List UInt8) (totalSize : Nat) (mime : String)
  | pending (totalSize : Nat)
  | unknown
  deriving DecidableEq, Repr

/-- What files use of libraries: base64, hashes and the encryption of chunks. -/
structure ChunkCrypto where
  encode : List UInt8 → String
  decode : String → Option (List UInt8)
  sha256Hex : List UInt8 → String
  encryptChunk : Vector UInt8 attachmentKeyLen → Vector UInt8 attachmentNoncePrefixLen → Nat →
    List UInt8 → Except String (List UInt8)
  decryptChunk : Vector UInt8 attachmentKeyLen → Vector UInt8 attachmentNoncePrefixLen → Nat →
    List UInt8 → Except String (List UInt8)

/-! ## Transfers -/

/-- A file that is sent. -/
structure OutgoingTransfer where
  manifest : AttachmentManifest
  plaintext : List UInt8
  key : Vector UInt8 attachmentKeyLen
  noncePrefix : Vector UInt8 attachmentNoncePrefixLen
  servedChunks : Std.ExtTreeMap Nat Nat compare
  state : TransferState

/-- A file that is received. Chunks that were asked for a short while ago are in flight, and
    those that playback waits for come first. -/
structure IncomingTransfer where
  manifest : AttachmentManifest
  key : Vector UInt8 attachmentKeyLen
  noncePrefix : Vector UInt8 attachmentNoncePrefixLen
  chunks : Std.ExtTreeMap Nat (List UInt8) compare
  state : TransferState
  downloadStarted : Bool
  requestCursor : Nat
  requestedAt : Std.ExtTreeMap Nat Nat compare
  priorityChunk : Option Nat

/-- All transfers. -/
structure AttachmentRuntime where
  outgoing : Std.ExtTreeMap String OutgoingTransfer compare := ∅
  incoming : Std.ExtTreeMap String IncomingTransfer compare := ∅

variable (c : ChunkCrypto)

/-- Base64 of as many bytes as there have to be. -/
def decodeFixed (n : Nat) (encoded : String) : Option (Vector UInt8 n) :=
  (c.decode encoded).bind fun bytes =>
    if h : bytes.length = n then some ⟨bytes.toArray, h⟩ else none

/-- The key of the chunks. -/
def manifestKeys (manifest : AttachmentManifest) : Except AttachmentRuntimeError
    (Vector UInt8 attachmentKeyLen × Vector UInt8 attachmentNoncePrefixLen) :=
  match decodeFixed c attachmentKeyLen manifest.keyB64 with
  | none => .error (.manifestMismatch "key")
  | some key =>
    match decodeFixed c attachmentNoncePrefixLen manifest.noncePrefixB64 with
    | none => .error (.manifestMismatch "nonce prefix")
    | some noncePrefix => .ok (key, noncePrefix)

/-- The bytes of a chunk. -/
def chunkSlice (plaintext : List UInt8) (index chunkSize : Nat) : Option (List UInt8) :=
  let start := index * chunkSize
  if 2 ^ 64 ≤ start then none
  else if plaintext.length ≤ start then none
  else some ((plaintext.drop start).take chunkSize)

/-- Division that rounds up. -/
def divCeil (a b : Nat) : Nat := (a + b - 1) / b

namespace AttachmentRuntime

/-! ## Sending -/

/-- Seals a file, with a fresh key, and publishes its manifest. -/
def prepareOutgoing (runtime : AttachmentRuntime) (request : OutgoingAttachment)
    (key : Vector UInt8 attachmentKeyLen) (noncePrefix : Vector UInt8 attachmentNoncePrefixLen) :
    Except AttachmentRuntimeError AttachmentManifest × AttachmentRuntime :=
  let totalSize := request.bytes.length
  if request.bytes.isEmpty then (.error .empty, runtime)
  else if maxAttachmentSize < totalSize then (.error (.tooLarge totalSize), runtime)
  else if request.attachmentId ∈ runtime.outgoing then
    (.error (.duplicateTransfer request.attachmentId), runtime)
  else
    let manifest : AttachmentManifest :=
      { origin := none
        attachmentId := request.attachmentId
        contentHash := c.sha256Hex request.bytes
        fileName := request.fileName
        mime := request.mime
        totalSize := totalSize
        chunkSize := chunkSizeDefault
        chunkCount := divCeil totalSize chunkSizeDefault
        keyB64 := c.encode key.toList
        noncePrefixB64 := c.encode noncePrefix.toList
        thumbnailB64 := request.thumbnailB64.filter (·.utf8ByteSize ≤ maxThumbnailB64)
        voice := request.voice
        fromFingerprint := request.fromFingerprint }
    let transfer : OutgoingTransfer :=
      ⟨manifest, request.bytes, key, noncePrefix, ∅, .active⟩
    (.ok manifest, { runtime with
      outgoing := runtime.outgoing.insert request.attachmentId transfer })

/-- The loop over the chunks of a request. A chunk counts as served when it is encrypted. -/
def serveLoop (attachmentId : String) : List Nat → OutgoingTransfer →
    Except AttachmentRuntimeError (List ChunkFrame) × OutgoingTransfer
  | [], transfer => (.ok [], transfer)
  | index :: rest, transfer =>
    match chunkSlice transfer.plaintext index transfer.manifest.chunkSize with
    | none => serveLoop attachmentId rest transfer
    | some slice =>
      match c.encryptChunk transfer.key transfer.noncePrefix index slice with
      | .error error => (.error (.crypto error), transfer)
      | .ok ciphertext =>
        let served := (transfer.servedChunks[index]?).getD 0 + 1
        let (frames, transfer) := serveLoop attachmentId rest
          { transfer with servedChunks := transfer.servedChunks.insert index served }
        (frames.map (⟨attachmentId, index, c.encode ciphertext⟩ :: ·), transfer)

/-- The chunks that answer a request. -/
def serveChunks (runtime : AttachmentRuntime) (request : ChunkRequest) :
    Except AttachmentRuntimeError (List ChunkFrame) × AttachmentRuntime :=
  match runtime.outgoing[request.attachmentId]? with
  | none => (.error (.unknownTransfer request.attachmentId), runtime)
  | some transfer =>
    if transfer.state ≠ .active then (.ok [], runtime)
    else
      let indices := request.chunkIndices.take (requestBatch transfer.manifest.chunkSize)
      let (frames, transfer) := serveLoop c request.attachmentId indices transfer
      (frames, { runtime with
        outgoing := runtime.outgoing.insert request.attachmentId transfer })

/-- The sender goes on with a file. -/
def resumeOutgoing (runtime : AttachmentRuntime) (id : String) : AttachmentRuntime :=
  match runtime.outgoing[id]? with
  | none => runtime
  | some transfer =>
    { runtime with outgoing := runtime.outgoing.insert id { transfer with state := .active } }

/-! ## Receiving -/

/-- Takes a manifest in, if it is not known and its numbers are right. -/
def registerIncoming (runtime : AttachmentRuntime) (manifest : AttachmentManifest) :
    Except AttachmentRuntimeError Unit × AttachmentRuntime :=
  if manifest.attachmentId ∈ runtime.incoming then
    (.error (.duplicateTransfer manifest.attachmentId), runtime)
  else
    match manifestKeys c manifest with
    | .error e => (.error e, runtime)
    | .ok (key, noncePrefix) =>
      if manifest.totalSize = 0 ∨ manifest.chunkSize = 0 ∨
          maxAttachmentSize < manifest.totalSize then
        (.error (.manifestMismatch "size or chunk_size"), runtime)
      else if divCeil manifest.totalSize manifest.chunkSize ≠ manifest.chunkCount then
        (.error (.manifestMismatch "chunk_count"), runtime)
      else
        let transfer : IncomingTransfer :=
          ⟨manifest, key, noncePrefix, ∅, .active, false, 0, ∅, none⟩
        (.ok (), { runtime with
          incoming := runtime.incoming.insert manifest.attachmentId transfer })

/-- A transfer that was cancelled or failed starts again. A failed one forgets its chunks. -/
def restart (transfer : IncomingTransfer) : IncomingTransfer :=
  let transfer :=
    if transfer.state = .cancelled ∨ transfer.state = .failed then
      { transfer with
        chunks := if transfer.state = .failed then ∅ else transfer.chunks
        state := .active
        requestedAt := ∅
        requestCursor := 0
        priorityChunk := none }
    else transfer
  { transfer with downloadStarted := true }

/-- The user asked for a file. -/
def startDownload (runtime : AttachmentRuntime) (id : String) :
    Except AttachmentRuntimeError Unit × AttachmentRuntime :=
  match runtime.incoming[id]? with
  | none => (.error (.unknownTransfer id), runtime)
  | some transfer => (.ok (), { runtime with incoming := runtime.incoming.insert id (restart transfer) })

/-- Puts the chunks of a transfer together. -/
def complete (transfer : IncomingTransfer) (id : String) :
    Except AttachmentRuntimeError ChunkOutcome × IncomingTransfer :=
  let assembled := (transfer.chunks.toList.map (·.2)).flatten
  if assembled.length ≠ transfer.manifest.totalSize then
    (.error (.manifestMismatch ("size " ++ assembled.length.repr ++ " != " ++
      transfer.manifest.totalSize.repr)), { transfer with state := .failed })
  else
    let actualHash := c.sha256Hex assembled
    if actualHash ≠ transfer.manifest.contentHash then
      (.error (.manifestMismatch ("content hash " ++ actualHash ++ " != " ++
        transfer.manifest.contentHash)), { transfer with state := .failed })
    else (.ok (.complete id actualHash assembled), { transfer with state := .complete })

/-- A chunk comes to a transfer. -/
def ingest (transfer : IncomingTransfer) (frame : ChunkFrame) :
    Except AttachmentRuntimeError ChunkOutcome × IncomingTransfer :=
  if transfer.state ≠ .active then (.ok .duplicate, transfer)
  else if transfer.manifest.chunkCount ≤ frame.chunkIndex then (.ok .unknown, transfer)
  else if frame.chunkIndex ∈ transfer.chunks then (.ok .duplicate, transfer)
  else
    match c.decode frame.ciphertextB64 with
    | none => (.error (.codec "chunk base64"), transfer)
    | some ciphertext =>
      match c.decryptChunk transfer.key transfer.noncePrefix frame.chunkIndex ciphertext with
      | .error error => (.error (.crypto error), transfer)
      | .ok plaintext =>
        let start := frame.chunkIndex * transfer.manifest.chunkSize
        let expected := min transfer.manifest.chunkSize (transfer.manifest.totalSize - start)
        if plaintext.length ≠ expected then
          (.error (.manifestMismatch "chunk length"), { transfer with state := .failed })
        else
          let transfer :=
            { transfer with chunks := transfer.chunks.insert frame.chunkIndex plaintext }
          if transfer.chunks.size ≠ transfer.manifest.chunkCount then
            (.ok (.progress transfer.chunks.size transfer.manifest.chunkCount), transfer)
          else complete c transfer frame.attachmentId

/-- A chunk arrives. -/
def ingestChunk (runtime : AttachmentRuntime) (frame : ChunkFrame) :
    Except AttachmentRuntimeError ChunkOutcome × AttachmentRuntime :=
  match runtime.incoming[frame.attachmentId]? with
  | none => (.ok .unknown, runtime)
  | some transfer =>
    let (result, transfer) := ingest c transfer frame
    (result, { runtime with incoming := runtime.incoming.insert frame.attachmentId transfer })

/-- The state after a cancellation. -/
def cancelled (state : TransferState) : TransferState :=
  if state = .active then .cancelled else state

/-- Cancels the transfers of a file. -/
def cancel (runtime : AttachmentRuntime) (id : String) : AttachmentRuntime where
  outgoing := runtime.outgoing.alter id
    (Option.map fun transfer => { transfer with state := cancelled transfer.state })
  incoming := runtime.incoming.alter id
    (Option.map fun transfer => { transfer with state := cancelled transfer.state })

/-- The file could not be saved. -/
def failIncoming (runtime : AttachmentRuntime) (id : String) : AttachmentRuntime :=
  { runtime with incoming :=
      runtime.incoming.alter id (Option.map fun transfer => { transfer with state := .failed }) }

/-- Forgets the transfers of a file. -/
def forget (runtime : AttachmentRuntime) (id : String) : AttachmentRuntime where
  outgoing := runtime.outgoing.erase id
  incoming := runtime.incoming.erase id

/-- The manifest of a file. -/
def manifestOf (runtime : AttachmentRuntime) (id : String) : Option AttachmentManifest :=
  (runtime.outgoing[id]?.map (·.manifest)).or (runtime.incoming[id]?.map (·.manifest))

/-! ## Asking for chunks -/

/-- The chunk was asked for a short while ago. -/
def inFlight (transfer : IncomingTransfer) (now index : Nat) : Bool :=
  (transfer.requestedAt[index]?).any fun sent => now - sent < chunkRequestTimeout

/-- The chunk is missing and not in flight. -/
def wanted (transfer : IncomingTransfer) (now index : Nat) : Bool :=
  index ∉ transfer.chunks && !inFlight transfer now index

/-- How many more chunks can be asked for, of all files. -/
def availableRequestSlotsAt (runtime : AttachmentRuntime) (now : Nat) : Nat :=
  let transfers := (runtime.incoming.toList.map (·.2)).filter fun transfer =>
    transfer.downloadStarted && transfer.state = .active
  maxRequestBatch - (transfers.map fun transfer =>
    (transfer.requestedAt.toList.filter fun row =>
      row.1 ∉ transfer.chunks && now - row.2 < chunkRequestTimeout).length).sum

/-- The chunks that are asked for in order: first those that were asked for before and did not
    arrive, and else the next ones. -/
def sequentialIndices (transfer : IncomingTransfer) (now batch : Nat) :
    List Nat × IncomingTransfer :=
  let gaps := ((List.range transfer.requestCursor).filter (wanted transfer now)).take batch
  if !gaps.isEmpty then (gaps, transfer)
  else
    let stop := min (transfer.requestCursor + batch) transfer.manifest.chunkCount
    let indices := (List.range' transfer.requestCursor (stop - transfer.requestCursor)).filter
      (wanted transfer now)
    (indices, { transfer with requestCursor := stop })

/-- The chunks to ask for. Those that playback waits for come first, until all chunks from there
    on have arrived. -/
def requestIndices (transfer : IncomingTransfer) (now batch : Nat) : List Nat × IncomingTransfer :=
  match transfer.priorityChunk with
  | none => sequentialIndices transfer now batch
  | some priority =>
    let rest := List.range' priority (transfer.manifest.chunkCount - priority)
    let indices := (rest.filter (wanted transfer now)).take batch
    let transfer :=
      if rest.all (· ∈ transfer.chunks) then { transfer with priorityChunk := none } else transfer
    if !indices.isEmpty then (indices, transfer) else sequentialIndices transfer now batch

/-- Asks for chunks of a file, within a budget. -/
def nextChunkRequestWithBudgetAt (runtime : AttachmentRuntime) (id : String) (now budget : Nat) :
    Option ChunkRequest × AttachmentRuntime :=
  let budget := min budget (runtime.availableRequestSlotsAt now)
  match runtime.incoming[id]? with
  | none => (none, runtime)
  | some transfer =>
    if budget = 0 ∨ !transfer.downloadStarted ∨ transfer.state ≠ .active then (none, runtime)
    else
      let (indices, transfer) := requestIndices transfer now
        (min budget (requestBatch transfer.manifest.chunkSize))
      if indices.isEmpty then
        (none, { runtime with incoming := runtime.incoming.insert id transfer })
      else
        let requestedAt := indices.foldl (fun requested index => requested.insert index now)
          transfer.requestedAt
        (some ⟨id, indices⟩, { runtime with
          incoming := runtime.incoming.insert id { transfer with requestedAt } })

/-- What asking for chunks does not touch: a transfer keeps its chunks and its state, and stays
    started. -/
structure SameData (t t' : IncomingTransfer) : Prop where
  manifest : t'.manifest = t.manifest
  key : t'.key = t.key
  noncePrefix : t'.noncePrefix = t.noncePrefix
  chunks : t'.chunks = t.chunks
  state : t'.state = t.state
  started : t.downloadStarted = true → t'.downloadStarted = true

theorem SameData.refl (t : IncomingTransfer) : SameData t t :=
  ⟨rfl, rfl, rfl, rfl, rfl, fun h => h⟩

theorem SameData.trans {t t' t'' : IncomingTransfer} (h : SameData t t') (h' : SameData t' t'') :
    SameData t t'' :=
  ⟨h'.manifest.trans h.manifest, h'.key.trans h.key, h'.noncePrefix.trans h.noncePrefix,
    h'.chunks.trans h.chunks, h'.state.trans h.state, fun hstarted => h'.started (h.started hstarted)⟩

theorem sameData_sequentialIndices (t : IncomingTransfer) (now batch : Nat) :
    SameData t (sequentialIndices t now batch).2 := by
  rw [sequentialIndices]
  dsimp only
  split
  · exact .refl t
  · exact ⟨rfl, rfl, rfl, rfl, rfl, fun h => h⟩

theorem sameData_requestIndices (t : IncomingTransfer) (now batch : Nat) :
    SameData t (requestIndices t now batch).2 := by
  rw [requestIndices]
  split
  · exact sameData_sequentialIndices t now batch
  next priority _ =>
    have hpriority : SameData t (if (List.range' priority (t.manifest.chunkCount - priority)).all
        (· ∈ t.chunks) then { t with priorityChunk := none } else t) := by
      split
      · exact ⟨rfl, rfl, rfl, rfl, rfl, fun h => h⟩
      · exact .refl t
    dsimp only
    split
    · exact hpriority
    · exact hpriority.trans (sameData_sequentialIndices _ now batch)

/-- Asking for chunks keeps the data of all transfers. -/
theorem sameData_nextChunkRequest (runtime : AttachmentRuntime) (k id : String) (now budget : Nat) :
    Option.Rel SameData runtime.incoming[id]?
      (runtime.nextChunkRequestWithBudgetAt k now budget).2.incoming[id]? := by
  have hrefl : Option.Rel SameData runtime.incoming[id]? runtime.incoming[id]? := by
    cases runtime.incoming[id]? with
    | none => exact .none
    | some t => exact .some (.refl t)
  have hinsert : ∀ {t₁ t₂ : IncomingTransfer}, runtime.incoming[k]? = some t₁ → SameData t₁ t₂ →
      Option.Rel SameData runtime.incoming[id]? (runtime.incoming.insert k t₂)[id]? := by
    intro t₁ t₂ hk hsame
    rw [Table.getElem?_insert]
    by_cases hid : k = id
    · rw [if_pos hid, ← hid, hk]
      exact .some hsame
    · rw [if_neg hid]
      exact hrefl
  rw [nextChunkRequestWithBudgetAt]
  dsimp only
  split
  · exact hrefl
  next t₁ hk =>
    have hsame := sameData_requestIndices t₁ now
      (min (min budget (runtime.availableRequestSlotsAt now)) (requestBatch t₁.manifest.chunkSize))
    split
    · exact hrefl
    · split
      · exact hinsert hk hsame
      · exact hinsert hk
          ⟨hsame.manifest, hsame.key, hsame.noncePrefix, hsame.chunks, hsame.state, hsame.started⟩

/-! ## Playback -/

/-- The bytes of a range of a transfer, if they have arrived, or else the chunk to ask for. -/
def readRange (transfer : IncomingTransfer) (start stop : Nat) : StreamRange × Option Nat :=
  let total := transfer.manifest.totalSize
  if total = 0 ∨ total ≤ start then (.ready [] total transfer.manifest.mime, none)
  else
    let stop := max (min stop total) start
    let chunk := transfer.manifest.chunkSize
    let first := start / chunk
    let last := if start < stop then (stop - 1) / chunk else first
    let indices := List.range' first (last + 1 - first)
    match indices.find? (· ∉ transfer.chunks) with
    | some index => (.pending total, some index)
    | none =>
      let assembled := (indices.map fun index => (transfer.chunks[index]?).getD []).flatten
      let offset := start - first * chunk
      let bytes := (assembled.drop offset).take
        (min (offset + (stop - start)) assembled.length - offset)
      (.ready bytes total transfer.manifest.mime, none)

/-- Playback asks for a range of bytes. -/
def streamRange (runtime : AttachmentRuntime) (id : String) (start stop : Nat) :
    StreamRange × AttachmentRuntime :=
  match runtime.incoming[id]? with
  | none => (.unknown, runtime)
  | some transfer =>
    let transfer := { transfer with downloadStarted := true }
    let (range, missing) := readRange transfer start stop
    let transfer :=
      { transfer with priorityChunk := missing.or transfer.priorityChunk }
    (range, { runtime with incoming := runtime.incoming.insert id transfer })

end AttachmentRuntime

end Mosh.Attachment
