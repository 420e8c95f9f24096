import Mosh.Attachment.Runtime
import Mosh.Library.Run

/-!
# A file arrives

A sender and a receiver of a file, with a network between them that loses, repeats
and reorders chunks as it likes. The receiver asks for chunks and plays the file while
it arrives, cancels the download and starts it again.

* `flatten_chunks`: the chunks of a file, one after the other, are the file;
* `transfer_reproduces`: however the chunks are asked for and delivered, the receiver
  completes the file at most once, when all chunks have arrived, and with the bytes
  that were sent; and no chunk of the sender makes the transfer fail.

Of the encryption of chunks and of base64 it is assumed that they can be undone
(`ChunkLaws`).
-/

namespace Mosh.Attachment

open AttachmentRuntime

/-! ## Chunks of a file -/

/-- The first chunks of a list, one after the other, are its start. -/
theorem flatMap_range_take {α : Type} (l : List α) (k n : Nat) :
    (List.range n).flatMap (fun i => (l.drop (i * k)).take k) = l.take (n * k) := by
  induction n with
  | zero => simp
  | succ n ih =>
    rw [List.range_succ, List.flatMap_append, ih, List.flatMap_singleton, Nat.succ_mul,
      List.take_add]

/-- There are as many chunks as it takes. -/
theorem lt_divCeil_iff {a b i : Nat} (hb : 0 < b) : i < divCeil a b ↔ i * b < a := by
  rw [divCeil, Nat.lt_iff_add_one_le, Nat.le_div_iff_mul_le hb, Nat.succ_mul]
  omega

/-- The chunks of a file that is not too large. -/
theorem chunkSlice_eq_some {plaintext slice : List UInt8} {index chunkSize : Nat}
    (h : chunkSlice plaintext index chunkSize = some slice) :
    index * chunkSize < plaintext.length ∧
      slice = (plaintext.drop (index * chunkSize)).take chunkSize := by
  rw [chunkSlice] at h
  split at h
  · cases h
  · split at h
    · cases h
    · next hlt => exact ⟨not_le.1 hlt, (Option.some.inj h).symm⟩

/-- A list of numbers below `n`, in order and as many, is `0, …, n - 1`. -/
theorem eq_range_of_sorted {l : List Nat} {n : Nat} (hsorted : l.Pairwise (· < ·))
    (hlt : ∀ i ∈ l, i < n) (hlen : l.length = n) : l = List.range n := by
  have hsub : l ⊆ List.range n := fun i hi => List.mem_range.2 (hlt i hi)
  have hnodup : l.Nodup := hsorted.imp fun h => h.ne
  have hperm : l.Perm (List.range n) :=
    (hnodup.subperm hsub).perm_of_length_le (by rw [List.length_range, hlen])
  exact hperm.eq_of_pairwise (fun a b _ _ hab hba => (lt_asymm hab hba).elim) hsorted
    List.pairwise_lt_range

section Chunks

variable {chunks : Std.ExtTreeMap Nat (List UInt8) compare} {plaintext : List UInt8}
  {chunkSize : Nat}

/-- The chunks of a file are bytes of it, at their places. -/
theorem chunk_row (hsize : 0 < chunkSize) (hchunks : ∀ (i : Nat) (b : List UInt8),
      chunks[i]? = some b → chunkSlice plaintext i chunkSize = some b) (row : Nat × List UInt8)
    (hrow : row ∈ chunks.toList) : row.1 < divCeil plaintext.length chunkSize ∧
      row.2 = (plaintext.drop (row.1 * chunkSize)).take chunkSize := by
  obtain ⟨hlt, heq⟩ := chunkSlice_eq_some
    (hchunks row.1 row.2 (Std.ExtTreeMap.mem_toList_iff_getElem?_eq_some.1 hrow))
  exact ⟨(lt_divCeil_iff hsize).2 hlt, heq⟩

/-- The keys of a table of chunks are in order. -/
theorem pairwise_keys (chunks : Std.ExtTreeMap Nat (List UInt8) compare) :
    (chunks.toList.map (·.1)).Pairwise (· < ·) :=
  List.pairwise_map.2 (Std.ExtTreeMap.ordered_keys_toList.imp fun h => Nat.compare_eq_lt.1 h)

/-- If there are as many chunks as it takes, they are all there. -/
theorem keys_of_full (hsize : 0 < chunkSize) (hchunks : ∀ (i : Nat) (b : List UInt8),
      chunks[i]? = some b → chunkSlice plaintext i chunkSize = some b)
    (hcount : chunks.size = divCeil plaintext.length chunkSize) :
    chunks.toList.map (·.1) = List.range (divCeil plaintext.length chunkSize) := by
  refine eq_range_of_sorted (pairwise_keys chunks) ?_ ?_
  · intro i hi
    obtain ⟨row, hrow, rfl⟩ := List.mem_map.1 hi
    exact (chunk_row hsize hchunks row hrow).1
  · rw [List.length_map, Std.ExtTreeMap.length_toList, hcount]

/-- If all chunks are there, there are as many as it takes. -/
theorem size_of_full (hsize : 0 < chunkSize) (hchunks : ∀ (i : Nat) (b : List UInt8),
      chunks[i]? = some b → chunkSlice plaintext i chunkSize = some b)
    (hall : ∀ i < divCeil plaintext.length chunkSize, i ∈ chunks) :
    chunks.size = divCeil plaintext.length chunkSize := by
  have hperm : (chunks.toList.map (·.1)).Perm
      (List.range (divCeil plaintext.length chunkSize)) := by
    refine (List.perm_ext_iff_of_nodup ((pairwise_keys chunks).imp fun h => h.ne)
      List.nodup_range).2 fun i => ?_
    rw [List.mem_range]
    constructor
    · intro hi
      obtain ⟨row, hrow, rfl⟩ := List.mem_map.1 hi
      exact (chunk_row hsize hchunks row hrow).1
    · intro hi
      have hmem := hall i hi
      refine List.mem_map.2 ⟨(i, chunks[i]), Std.ExtTreeMap.mem_toList_iff_getElem?_eq_some.2 ?_,
        rfl⟩
      exact Std.ExtTreeMap.getElem?_eq_some_getElem hmem
  have hlen := hperm.length_eq
  rwa [List.length_map, Std.ExtTreeMap.length_toList, List.length_range] at hlen

/-- The chunks of a file, one after the other, are the file. -/
theorem flatten_chunks (hsize : 0 < chunkSize) (hchunks : ∀ (i : Nat) (b : List UInt8),
      chunks[i]? = some b → chunkSlice plaintext i chunkSize = some b)
    (hcount : chunks.size = divCeil plaintext.length chunkSize) :
    (chunks.toList.map (·.2)).flatten = plaintext := by
  have hvalues : chunks.toList.map (·.2) =
      (chunks.toList.map (·.1)).map fun i => (plaintext.drop (i * chunkSize)).take chunkSize := by
    rw [List.map_map]
    exact List.map_congr_left fun row hrow => (chunk_row hsize hchunks row hrow).2
  have hcover : plaintext.length ≤ divCeil plaintext.length chunkSize * chunkSize := by
    by_contra hlt
    exact absurd ((lt_divCeil_iff hsize).2 (not_le.1 hlt)) (lt_irrefl _)
  rw [hvalues, keys_of_full hsize hchunks hcount, ← List.flatMap_def, flatMap_range_take,
    List.take_of_length_le hcover]

end Chunks

/-! ## The network -/

/-- Base64 and the encryption of chunks can be undone. -/
structure ChunkLaws (c : ChunkCrypto) : Prop where
  decode_encode : ∀ bytes, c.decode (c.encode bytes) = some bytes
  decrypt_encrypt : ∀ key noncePrefix index bytes ciphertext,
    c.encryptChunk key noncePrefix index bytes = .ok ciphertext →
      c.decryptChunk key noncePrefix index ciphertext = .ok bytes

/-- The two sides, the chunks that were sent, and those that were delivered with what they did. -/
structure Net where
  sender : AttachmentRuntime
  receiver : AttachmentRuntime
  wire : List ChunkFrame := []
  delivered : List (ChunkFrame × Except AttachmentRuntimeError ChunkOutcome) := []

/-- What happens: the receiver asks for chunks, starts or cancels a download, or plays a file; the
    sender answers a request, cancels or goes on with a file; a chunk is delivered. -/
inductive Event
  | request (id : String) (now budget : Nat)
  | startDownload (id : String)
  | cancel (id : String)
  | stream (id : String) (start stop : Nat)
  | serve (request : ChunkRequest)
  | cancelSending (id : String)
  | resumeSending (id : String)
  | deliver (frame : ChunkFrame)

variable (c : ChunkCrypto)

/-- One step of the two sides and the network. -/
def Net.step (net : Net) : Event → Net
  | .request id now budget =>
    { net with receiver := (net.receiver.nextChunkRequestWithBudgetAt id now budget).2 }
  | .startDownload id => { net with receiver := (net.receiver.startDownload id).2 }
  | .cancel id => { net with receiver := net.receiver.cancel id }
  | .stream id start stop => { net with receiver := (net.receiver.streamRange id start stop).2 }
  | .serve request =>
    let (frames, sender) := net.sender.serveChunks c request
    { net with sender, wire := net.wire ++ frames.toOption.getD [] }
  | .cancelSending id => { net with sender := net.sender.cancel id }
  | .resumeSending id => { net with sender := net.sender.resumeOutgoing id }
  | .deliver frame =>
    let (result, receiver) := net.receiver.ingestChunk c frame
    { net with receiver, delivered := net.delivered ++ [(frame, result)] }

/-- The chunks of the file that are delivered are ones that were sent, any number of times and in
    any order. Those of other files can be anything. -/
def Carried (id : String) (net : Net) : Event → Prop
  | .deliver frame => frame ∈ net.wire ∨ frame.attachmentId ≠ id
  | _ => True

/-- A chunk, and what it did when it was delivered. -/
abbrev Delivery : Type := ChunkFrame × Except AttachmentRuntimeError ChunkOutcome

/-- The delivery completed the file. -/
def Completes (id : String) (d : Delivery) : Bool :=
  d.1.attachmentId = id &&
    match d.2 with
    | .ok (.complete ..) => true
    | _ => false

/-- All chunks of a file were among the deliveries. -/
def AllArrived (id : String) (chunkCount : Nat) (delivered : List Delivery) : Prop :=
  ∀ i < chunkCount, ∃ d ∈ delivered, d.1.attachmentId = id ∧ d.1.chunkIndex = i

/-! ## What an operation does to a transfer -/

/-- What the step does to the transfer of a file: nothing but bookkeeping, or a start, or a
    cancellation, or the arrival of a chunk of the file. -/
theorem step_incoming {net : Net} {id : String} {t : IncomingTransfer}
    (ht : net.receiver.incoming[id]? = some t) (event : Event) :
    ∃ t', (net.step c event).receiver.incoming[id]? = some t' ∧
      (SameData t t' ∨ (event = .startDownload id ∧ t' = restart t) ∨
        (event = .cancel id ∧ t' = { t with state := cancelled t.state }) ∨
        ∃ frame, event = .deliver frame ∧ frame.attachmentId = id ∧ t' = (ingest c t frame).2) := by
  have hinsert : ∀ {k : String} {t₁ t₂ : IncomingTransfer}, net.receiver.incoming[k]? = some t₁ →
      ∃ t', (net.receiver.incoming.insert k t₂)[id]? = some t' ∧
        (k = id ∧ t₁ = t ∧ t' = t₂ ∨ k ≠ id ∧ t' = t) := by
    intro k t₁ t₂ hk
    rw [Table.getElem?_insert]
    by_cases hid : k = id
    · subst hid
      exact ⟨t₂, by rw [if_pos rfl], .inl ⟨rfl, Option.some.inj (hk.symm.trans ht), rfl⟩⟩
    · exact ⟨t, by rw [if_neg hid, ht], .inr ⟨hid, rfl⟩⟩
  cases event with
  | request k now budget =>
    have hrel := sameData_nextChunkRequest net.receiver k id now budget
    rw [ht] at hrel
    rw [Net.step]
    generalize (net.receiver.nextChunkRequestWithBudgetAt k now budget).2.incoming[id]? = o at hrel ⊢
    cases hrel with
    | some hsame => exact ⟨_, rfl, .inl hsame⟩
  | startDownload k =>
    rw [Net.step, startDownload]
    split
    · exact ⟨t, ht, .inl (.refl t)⟩
    next t₁ hk =>
      obtain ⟨t', hlookup, ⟨rfl, rfl, rfl⟩ | ⟨-, rfl⟩⟩ := hinsert hk
      · exact ⟨_, hlookup, .inr (.inl ⟨rfl, rfl⟩)⟩
      · exact ⟨_, hlookup, .inl (.refl _)⟩
  | cancel k =>
    by_cases hid : k = id
    · subst hid
      refine ⟨{ t with state := cancelled t.state }, ?_, .inr (.inr (.inl ⟨rfl, rfl⟩))⟩
      rw [Net.step, cancel, Table.getElem?_alter, if_pos rfl, ht, Option.map_some]
    · refine ⟨t, ?_, .inl (.refl t)⟩
      rw [Net.step, cancel, Table.getElem?_alter, if_neg hid, ht]
  | stream k start stop =>
    rw [Net.step, streamRange]
    split
    · exact ⟨t, ht, .inl (.refl t)⟩
    next t₁ hk =>
      obtain ⟨t', hlookup, ⟨rfl, rfl, rfl⟩ | ⟨-, rfl⟩⟩ := hinsert hk
      · exact ⟨_, hlookup, .inl ⟨rfl, rfl, rfl, rfl, rfl, fun _ => rfl⟩⟩
      · exact ⟨_, hlookup, .inl (.refl _)⟩
  | serve request => exact ⟨t, ht, .inl (.refl t)⟩
  | cancelSending k => exact ⟨t, ht, .inl (.refl t)⟩
  | resumeSending k => exact ⟨t, ht, .inl (.refl t)⟩
  | deliver frame =>
    have hstep : (net.step c (.deliver frame)).receiver = (net.receiver.ingestChunk c frame).2 :=
      rfl
    rw [hstep, ingestChunk]
    split
    · exact ⟨t, ht, .inl (.refl t)⟩
    next t₁ hk =>
      obtain ⟨t', hlookup, ⟨hid, rfl, rfl⟩ | ⟨-, rfl⟩⟩ := hinsert hk
      · exact ⟨_, hlookup, .inr (.inr (.inr ⟨frame, rfl, hid, rfl⟩))⟩
      · exact ⟨_, hlookup, .inl (.refl _)⟩

/-! ## The sender -/

/-- The file that a sender sends. -/
structure Sends (o : OutgoingTransfer) (manifest : AttachmentManifest) (bytes : List UInt8)
    (key : Vector UInt8 attachmentKeyLen) (noncePrefix : Vector UInt8 attachmentNoncePrefixLen) :
    Prop where
  manifest : o.manifest = manifest
  plaintext : o.plaintext = bytes
  key : o.key = key
  noncePrefix : o.noncePrefix = noncePrefix

/-- The frame carries a chunk of the file. -/
def Genuine (manifest : AttachmentManifest) (bytes : List UInt8)
    (key : Vector UInt8 attachmentKeyLen) (noncePrefix : Vector UInt8 attachmentNoncePrefixLen)
    (frame : ChunkFrame) : Prop :=
  ∃ slice ciphertext, chunkSlice bytes frame.chunkIndex manifest.chunkSize = some slice ∧
    c.encryptChunk key noncePrefix frame.chunkIndex slice = .ok ciphertext ∧
    frame.ciphertextB64 = c.encode ciphertext

variable {c} {manifest : AttachmentManifest} {bytes : List UInt8}
  {key : Vector UInt8 attachmentKeyLen} {noncePrefix : Vector UInt8 attachmentNoncePrefixLen}
  {id : String} {net : Net}

/-- The sender keeps its file, and answers with its chunks. -/
theorem serveLoop_spec {indices : List Nat} {o : OutgoingTransfer}
    (ho : Sends o manifest bytes key noncePrefix) :
    Sends (serveLoop c id indices o).2 manifest bytes key noncePrefix ∧
      ∀ frames, (serveLoop c id indices o).1 = .ok frames → ∀ frame ∈ frames,
        frame.attachmentId = id ∧ Genuine c manifest bytes key noncePrefix frame := by
  induction indices generalizing o with
  | nil =>
    refine ⟨ho, fun frames h frame hframe => ?_⟩
    rw [← Except.ok.inj h] at hframe
    cases hframe
  | cons index rest ih =>
    rw [serveLoop]
    split
    · exact ih ho
    next slice hslice =>
      split
      · exact ⟨ho, fun frames h => by cases h⟩
      next ciphertext hcipher =>
        obtain ⟨hsends, hframes⟩ := ih (o := { o with
          servedChunks := o.servedChunks.insert index ((o.servedChunks[index]?).getD 0 + 1) })
          ⟨ho.manifest, ho.plaintext, ho.key, ho.noncePrefix⟩
        refine ⟨hsends, fun frames h frame hframe => ?_⟩
        dsimp only at h
        cases hothers : (serveLoop c id rest { o with
          servedChunks := o.servedChunks.insert index ((o.servedChunks[index]?).getD 0 + 1) }).1 with
        | error e =>
          rw [hothers] at h
          cases h
        | ok others =>
        rw [hothers] at h
        obtain rfl := Except.ok.inj h
        obtain rfl | hframe := List.mem_cons.1 hframe
        · refine ⟨rfl, slice, ciphertext, ?_, ?_, rfl⟩
          · rw [← ho.plaintext, ← ho.manifest]
            exact hslice
          · rw [← ho.key, ← ho.noncePrefix]
            exact hcipher
        · exact hframes others hothers frame hframe

/-- A file of the sender is updated. -/
theorem sends_insert {outgoing : Std.ExtTreeMap String OutgoingTransfer compare} {k : String}
    {o o' : OutgoingTransfer} (ho : outgoing[id]? = some o)
    (hsends : Sends o manifest bytes key noncePrefix)
    (hnew : k = id → Sends o' manifest bytes key noncePrefix) :
    ∃ o'', (outgoing.insert k o')[id]? = some o'' ∧ Sends o'' manifest bytes key noncePrefix := by
  rw [Table.getElem?_insert]
  by_cases hid : k = id
  · exact ⟨o', if_pos hid, hnew hid⟩
  · exact ⟨o, by rw [if_neg hid, ho], hsends⟩

/-- The sender answers requests for the file with its chunks. -/
theorem serveChunks_spec {runtime : AttachmentRuntime} {o : OutgoingTransfer}
    (ho : runtime.outgoing[id]? = some o) (hsends : Sends o manifest bytes key noncePrefix)
    (request : ChunkRequest) :
    (∃ o', (runtime.serveChunks c request).2.outgoing[id]? = some o' ∧
      Sends o' manifest bytes key noncePrefix) ∧
    ∀ frames, (runtime.serveChunks c request).1 = .ok frames → ∀ frame ∈ frames,
      frame.attachmentId = id → Genuine c manifest bytes key noncePrefix frame := by
  rw [serveChunks]
  split
  · exact ⟨⟨o, ho, hsends⟩, fun frames h => by cases h⟩
  next o₁ hk =>
  split
  · refine ⟨⟨o, ho, hsends⟩, fun frames h frame hframe => ?_⟩
    rw [← Except.ok.inj h] at hframe
    cases hframe
  · have hsame : request.attachmentId = id → Sends o₁ manifest bytes key noncePrefix := by
      intro heq
      rw [heq, ho] at hk
      exact Option.some.inj hk ▸ hsends
    refine ⟨sends_insert ho hsends fun heq => (serveLoop_spec (hsame heq)).1, ?_⟩
    intro frames h frame hframe hid
    -- Every frame of the answer has the id of the request.
    have hown : frame.attachmentId = request.attachmentId :=
      ((serveLoop_spec ⟨rfl, rfl, rfl, rfl⟩).2 frames h frame hframe).1
    exact ((serveLoop_spec (hsame (hown.symm.trans hid))).2 frames h frame hframe).2

/-! ## The receiver -/

/-- The manifest describes the file. -/
structure Describes (c : ChunkCrypto) (manifest : AttachmentManifest) (bytes : List UInt8) :
    Prop where
  chunkSize : 0 < manifest.chunkSize
  totalSize : manifest.totalSize = bytes.length
  chunkCount : manifest.chunkCount = divCeil bytes.length manifest.chunkSize
  contentHash : manifest.contentHash = c.sha256Hex bytes

/-- The transfer holds chunks of the file, and has not failed. -/
structure Receives (t : IncomingTransfer) (m : AttachmentManifest) (bytes : List UInt8)
    (key : Vector UInt8 attachmentKeyLen) (noncePrefix : Vector UInt8 attachmentNoncePrefixLen) :
    Prop where
  manifest : t.manifest = m
  key : t.key = key
  noncePrefix : t.noncePrefix = noncePrefix
  chunks : ∀ (i : Nat) (b : List UInt8), t.chunks[i]? = some b →
    chunkSlice bytes i m.chunkSize = some b
  state : t.state ≠ .failed

variable {t : IncomingTransfer} {frame : ChunkFrame}

/-- A chunk of the file is put to the others. -/
theorem insert_chunk {index : Nat} {slice : List UInt8}
    (ht : Receives t manifest bytes key noncePrefix)
    (hslice : chunkSlice bytes index manifest.chunkSize = some slice) (i : Nat) (b : List UInt8)
    (hb : (t.chunks.insert index slice)[i]? = some b) :
    chunkSlice bytes i manifest.chunkSize = some b := by
  rw [Table.getElem?_insert] at hb
  split at hb
  · next hi => rw [← hi, hslice, hb]
  · exact ht.chunks i b hb

/-- What a chunk of the file does: nothing, or it is put to the others, and completes the file if
    it is the last one. -/
theorem ingest_genuine (hc : ChunkLaws c) (hm : Describes c manifest bytes)
    (ht : Receives t manifest bytes key noncePrefix)
    (hframe : Genuine c manifest bytes key noncePrefix frame) :
    ((ingest c t frame).2 = t ∧ ((ingest c t frame).1 = .ok .duplicate ∨
        (ingest c t frame).1 = .ok .unknown) ∧
      ¬ (t.state = .active ∧ frame.chunkIndex ∉ t.chunks)) ∨
    t.state = .active ∧ frame.chunkIndex ∉ t.chunks ∧
      ∃ slice, chunkSlice bytes frame.chunkIndex manifest.chunkSize = some slice ∧
        if (t.chunks.insert frame.chunkIndex slice).size = manifest.chunkCount then
          ingest c t frame = (.ok (.complete frame.attachmentId manifest.contentHash bytes),
            { t with chunks := t.chunks.insert frame.chunkIndex slice, state := .complete })
        else
          ingest c t frame = (.ok (.progress (t.chunks.insert frame.chunkIndex slice).size
            manifest.chunkCount), { t with chunks := t.chunks.insert frame.chunkIndex slice }) := by
  obtain ⟨slice, ciphertext, hslice, hencrypt, htext⟩ := hframe
  obtain ⟨hlt, hbytes⟩ := chunkSlice_eq_some hslice
  rw [ingest]
  split
  · next hstate => exact .inl ⟨rfl, .inl rfl, fun h => hstate h.1⟩
  next hstate =>
  split
  · next hindex =>
    rw [ht.manifest, hm.chunkCount] at hindex
    exact absurd ((lt_divCeil_iff hm.chunkSize).2 hlt) (not_lt.2 hindex)
  split
  · next hmem => exact .inl ⟨rfl, .inl rfl, fun h => h.2 hmem⟩
  next hmem =>
  refine .inr ⟨not_not.1 hstate, hmem, slice, hslice, ?_⟩
  rw [htext, hc.decode_encode]
  dsimp only
  rw [ht.key, ht.noncePrefix, hc.decrypt_encrypt _ _ _ _ _ hencrypt]
  dsimp only
  have hlength : slice.length = min t.manifest.chunkSize
      (t.manifest.totalSize - frame.chunkIndex * t.manifest.chunkSize) := by
    rw [hbytes, ht.manifest, hm.totalSize, List.length_take, List.length_drop]
  rw [if_neg (not_not.2 hlength), ht.manifest]
  split
  · next hfull =>
    have hfile := flatten_chunks hm.chunkSize (insert_chunk ht hslice) (hfull.trans hm.chunkCount)
    rw [if_neg (not_not.2 hfull), complete]
    dsimp only
    rw [hfile, if_neg (not_not.2 hm.totalSize.symm),
      if_neg (not_not.2 hm.contentHash.symm), hm.contentHash]
  · rfl

/-- What happens to a transfer that holds chunks of the file, when it is not one of its chunks that
    arrives. -/
theorem Receives.of_sameData {t' : IncomingTransfer} (h : Receives t manifest bytes key noncePrefix)
    (hsame : SameData t t') : Receives t' manifest bytes key noncePrefix where
  manifest := hsame.manifest.trans h.manifest
  key := hsame.key.trans h.key
  noncePrefix := hsame.noncePrefix.trans h.noncePrefix
  chunks i b hb := h.chunks i b (by rwa [hsame.chunks] at hb)
  state := by rw [hsame.state]; exact h.state

/-- A transfer that has not failed keeps its chunks when it starts again. -/
theorem restart_eq (h : t.state ≠ .failed) : (restart t).manifest = t.manifest ∧
    (restart t).key = t.key ∧ (restart t).noncePrefix = t.noncePrefix ∧
    (restart t).chunks = t.chunks ∧
    (restart t).state = if t.state = .cancelled then .active else t.state := by
  rw [restart]
  dsimp only
  by_cases hcancelled : t.state = .cancelled
  · rw [if_pos (.inl hcancelled), if_pos hcancelled, if_neg h]
    exact ⟨rfl, rfl, rfl, rfl, rfl⟩
  · rw [if_neg (not_or.2 ⟨hcancelled, h⟩), if_neg hcancelled]
    exact ⟨rfl, rfl, rfl, rfl, rfl⟩

/-! ## What was delivered -/

/-- The file was completed at most once, by then all its chunks had arrived, and the bytes were
    those of the file. -/
structure Completed (id : String) (manifest : AttachmentManifest) (bytes : List UInt8)
    (delivered : List Delivery) : Prop where
  once : delivered.countP (Completes id) ≤ 1
  right : ∀ before d, before ++ [d] <+: delivered → Completes id d = true →
    d.2 = .ok (.complete id manifest.contentHash bytes) ∧
      AllArrived id manifest.chunkCount (before ++ [d])

variable {delivered extra : List Delivery}

/-- A delivery of another file does not complete this one. -/
theorem completes_other {d : Delivery} (h : d.1.attachmentId ≠ id) : Completes id d = false := by
  rw [Completes, decide_eq_false h, Bool.false_and]

/-- Deliveries that do not complete the file change nothing. -/
theorem Completed.append (h : Completed id manifest bytes delivered) {d : Delivery}
    (hd : Completes id d = false) : Completed id manifest bytes (delivered ++ [d]) where
  once := by
    rw [List.countP_append, List.countP_singleton, hd]
    exact h.once
  right before d' hpre hd' := by
    rcases List.prefix_concat_iff.1 hpre with heq | hpre
    · obtain ⟨-, heq⟩ := List.append_inj' heq rfl
      rw [List.singleton_inj.1 heq, hd] at hd'
      exact absurd hd' (by decide)
    · exact h.right before d' hpre hd'

/-- The first delivery that completes the file, with its bytes, when all chunks are there. -/
theorem Completed.append_complete (h : delivered.countP (Completes id) = 0) {d : Delivery}
    (hd : d.2 = .ok (.complete id manifest.contentHash bytes))
    (hall : AllArrived id manifest.chunkCount (delivered ++ [d])) :
    Completed id manifest bytes (delivered ++ [d]) where
  once := by
    rw [List.countP_append, h, Nat.zero_add]
    exact List.countP_le_length
  right before d' hpre hd' := by
    rcases List.prefix_concat_iff.1 hpre with heq | hpre
    · obtain ⟨hbefore, heq⟩ := List.append_inj' heq rfl
      rw [hbefore, List.singleton_inj.1 heq]
      exact ⟨hd, hall⟩
    · have hmem : d' ∈ delivered := hpre.subset (List.mem_append_right _ (List.mem_singleton_self _))
      exact absurd hd' (List.countP_eq_zero.1 h d' hmem)

/-- The transfer of the file, with what was delivered: its chunks were delivered, and as long as it
    is not complete no delivery completed it. -/
structure Arriving (id : String) (manifest : AttachmentManifest) (bytes : List UInt8)
    (key : Vector UInt8 attachmentKeyLen) (noncePrefix : Vector UInt8 attachmentNoncePrefixLen)
    (delivered : List Delivery) (t : IncomingTransfer) : Prop where
  receives : Receives t manifest bytes key noncePrefix
  arrived : ∀ i ∈ t.chunks, ∃ d ∈ delivered, d.1.attachmentId = id ∧ d.1.chunkIndex = i
  pending : t.state ≠ .complete → delivered.countP (Completes id) = 0

/-- A transfer that keeps its chunks, and stays complete if it is. -/
theorem Arriving.mono {t' : IncomingTransfer}
    (h : Arriving id manifest bytes key noncePrefix delivered t)
    (hreceives : Receives t' manifest bytes key noncePrefix) (hchunks : t'.chunks = t.chunks)
    (hstate : t'.state ≠ .complete → t.state ≠ .complete)
    (hextra : ∀ d ∈ extra, Completes id d = false) :
    Arriving id manifest bytes key noncePrefix (delivered ++ extra) t' where
  receives := hreceives
  arrived i hi := by
    rw [hchunks] at hi
    obtain ⟨d, hd, hid⟩ := h.arrived i hi
    exact ⟨d, List.mem_append_left _ hd, hid⟩
  pending hpending := by
    rw [List.countP_append, h.pending (hstate hpending), Nat.zero_add]
    exact List.countP_eq_zero.2 fun d hd => by rw [hextra d hd]; decide

/-- A chunk of the file is delivered. -/
theorem arriving_ingest (hc : ChunkLaws c) (hm : Describes c manifest bytes)
    (ht : Arriving id manifest bytes key noncePrefix delivered t)
    (hcompleted : Completed id manifest bytes delivered) (hid : frame.attachmentId = id)
    (hframe : Genuine c manifest bytes key noncePrefix frame) :
    Arriving id manifest bytes key noncePrefix (delivered ++ [(frame, (ingest c t frame).1)])
        (ingest c t frame).2 ∧
      Completed id manifest bytes (delivered ++ [(frame, (ingest c t frame).1)]) := by
  rcases ingest_genuine hc hm ht.receives hframe with
    ⟨heq, hresult, -⟩ | ⟨hactive, hmem, slice, hslice, hdone⟩
  · -- The chunk is there already, or is not wanted.
    have hquiet : Completes id (frame, (ingest c t frame).1) = false := by
      rcases hresult with hresult | hresult <;> rw [Completes, hresult, Bool.and_false]
    rw [heq]
    refine ⟨ht.mono ht.receives rfl (fun h => h) ?_, hcompleted.append hquiet⟩
    intro d hd
    rw [List.mem_singleton.1 hd]
    exact hquiet
  · have hchunks := insert_chunk ht.receives hslice
    have harrived : ∀ {result : Except AttachmentRuntimeError ChunkOutcome},
        ∀ i ∈ t.chunks.insert frame.chunkIndex slice,
          ∃ d ∈ delivered ++ [(frame, result)], d.1.attachmentId = id ∧ d.1.chunkIndex = i := by
      intro result i hi
      rcases Std.ExtTreeMap.mem_insert.1 hi with hi | hi
      · exact ⟨(frame, result), List.mem_append_right _ (List.mem_singleton_self _), hid,
          Nat.compare_eq_eq.1 hi⟩
      · obtain ⟨d, hd, hid⟩ := ht.arrived i hi
        exact ⟨d, List.mem_append_left _ hd, hid⟩
    have hpending := ht.pending (by rw [hactive]; decide)
    split at hdone
    · next hfull =>
      rw [hdone]
      refine ⟨⟨⟨ht.receives.manifest, ht.receives.key, ht.receives.noncePrefix, hchunks,
        TransferState.noConfusion⟩, harrived, fun h => absurd rfl h⟩, .append_complete hpending (by rw [hid]) fun i hi => ?_⟩
      -- There are as many chunks as it takes, so this one is among them.
      have hkeys := keys_of_full hm.chunkSize hchunks (hfull.trans hm.chunkCount)
      refine harrived i ?_
      rw [← hm.chunkCount] at hkeys
      obtain ⟨row, hrow, rfl⟩ := List.mem_map.1 (hkeys ▸ List.mem_range.2 hi)
      rw [Std.ExtTreeMap.mem_iff_isSome_getElem?,
        Std.ExtTreeMap.mem_toList_iff_getElem?_eq_some.1 hrow]
      rfl
    · have hquiet : Completes id (frame, .ok (.progress
          (t.chunks.insert frame.chunkIndex slice).size manifest.chunkCount)) = false := by
        rw [Completes, Bool.and_false]
      rw [hdone]
      refine ⟨⟨⟨ht.receives.manifest, ht.receives.key, ht.receives.noncePrefix, hchunks,
        ht.receives.state⟩, harrived, fun _ => ?_⟩, hcompleted.append hquiet⟩
      rw [List.countP_append, hpending, List.countP_singleton, hquiet]
      rfl

/-! ## Every run -/

/-- The sender has the file, the chunks that were sent are its chunks, and the receiver has some of
    them. -/
structure Good (c : ChunkCrypto) (id : String) (manifest : AttachmentManifest) (bytes : List UInt8)
    (key : Vector UInt8 attachmentKeyLen) (noncePrefix : Vector UInt8 attachmentNoncePrefixLen)
    (net : Net) : Prop where
  sender : ∃ o, net.sender.outgoing[id]? = some o ∧ Sends o manifest bytes key noncePrefix
  wire : ∀ frame ∈ net.wire, frame.attachmentId = id → Genuine c manifest bytes key noncePrefix frame
  receiver : ∃ t, net.receiver.incoming[id]? = some t ∧
    Arriving id manifest bytes key noncePrefix net.delivered t
  completed : Completed id manifest bytes net.delivered

/-- The sender keeps the file, and sends its chunks only. -/
theorem Good.step_sender (h : Good c id manifest bytes key noncePrefix net) (event : Event) :
    (∃ o, (net.step c event).sender.outgoing[id]? = some o ∧
      Sends o manifest bytes key noncePrefix) ∧
    ∀ frame ∈ (net.step c event).wire, frame.attachmentId = id →
      Genuine c manifest bytes key noncePrefix frame := by
  obtain ⟨o, ho, hsends⟩ := h.sender
  cases event with
  | request | startDownload | cancel | stream | deliver => exact ⟨⟨o, ho, hsends⟩, h.wire⟩
  | serve request =>
    obtain ⟨hsender, hframes⟩ := serveChunks_spec (c := c) ho hsends request
    refine ⟨hsender, fun frame hframe hid => ?_⟩
    have hwire : (net.step c (.serve request)).wire =
        net.wire ++ (net.sender.serveChunks c request).1.toOption.getD [] := rfl
    rw [hwire] at hframe
    rcases List.mem_append.1 hframe with hframe | hframe
    · exact h.wire frame hframe hid
    · cases hserved : (net.sender.serveChunks c request).1 with
      | error e =>
        rw [hserved] at hframe
        cases hframe
      | ok frames =>
        rw [hserved] at hframe
        exact hframes frames hserved frame hframe hid
  | cancelSending k =>
    refine ⟨?_, h.wire⟩
    rw [Net.step, cancel, Table.getElem?_alter]
    split
    · next hk =>
      rw [hk, ho, Option.map_some]
      exact ⟨_, rfl, hsends.manifest, hsends.plaintext, hsends.key, hsends.noncePrefix⟩
    · exact ⟨o, ho, hsends⟩
  | resumeSending k =>
    refine ⟨?_, h.wire⟩
    rw [Net.step, resumeOutgoing]
    split
    · exact ⟨o, ho, hsends⟩
    · next o₁ hk =>
      refine sends_insert ho hsends fun heq => ?_
      obtain rfl := Option.some.inj (hk.symm.trans (heq ▸ ho))
      exact ⟨hsends.manifest, hsends.plaintext, hsends.key, hsends.noncePrefix⟩

/-- The receiver gets chunks of the file only, and completes it once. -/
theorem Good.step_receiver (hc : ChunkLaws c) (hm : Describes c manifest bytes)
    (h : Good c id manifest bytes key noncePrefix net) {event : Event}
    (hevent : Carried id net event) :
    (∃ t, (net.step c event).receiver.incoming[id]? = some t ∧
      Arriving id manifest bytes key noncePrefix (net.step c event).delivered t) ∧
    Completed id manifest bytes (net.step c event).delivered := by
  obtain ⟨t, ht, harriving⟩ := h.receiver
  by_cases hdeliver : ∃ frame, event = .deliver frame ∧ frame.attachmentId = id
  · obtain ⟨frame, rfl, hid⟩ := hdeliver
    have hgenuine := h.wire frame (hevent.resolve_right fun hne => hne hid) hid
    have hstep : net.step c (.deliver frame) = { net with
        receiver := { net.receiver with
          incoming := net.receiver.incoming.insert frame.attachmentId (ingest c t frame).2 }
        delivered := net.delivered ++ [(frame, (ingest c t frame).1)] } := by
      rw [Net.step, ingestChunk, hid, ht]
    obtain ⟨harrive, hcompleted⟩ := arriving_ingest hc hm harriving h.completed hid hgenuine
    rw [hstep]
    exact ⟨⟨_, by rw [Table.getElem?_insert, if_pos hid], harrive⟩, hcompleted⟩
  · have hdelivered : ∃ extra, (net.step c event).delivered = net.delivered ++ extra ∧
        (∀ d ∈ extra, Completes id d = false) ∧
        Completed id manifest bytes (net.delivered ++ extra) := by
      cases event with
      | deliver frame =>
        have hquiet : Completes id (frame, (net.receiver.ingestChunk c frame).1) = false :=
          completes_other fun hid => hdeliver ⟨frame, rfl, hid⟩
        refine ⟨[_], rfl, fun d hd => ?_, h.completed.append hquiet⟩
        rw [List.mem_singleton.1 hd]
        exact hquiet
      | _ =>
        refine ⟨[], (List.append_nil _).symm, List.forall_mem_nil _, ?_⟩
        rw [List.append_nil]
        exact h.completed
    obtain ⟨extra, hextra, hquiet, hcompleted⟩ := hdelivered
    rw [hextra]
    refine ⟨?_, hcompleted⟩
    obtain ⟨t', ht', hsame | ⟨-, rfl⟩ | ⟨-, rfl⟩ | ⟨frame, hframe, hid, -⟩⟩ :=
      step_incoming c ht event
    · refine ⟨t', ht', harriving.mono (harriving.receives.of_sameData hsame) hsame.chunks ?_ hquiet⟩
      rw [hsame.state]
      exact fun h => h
    · obtain ⟨h₁, h₂, h₃, h₄, h₅⟩ := restart_eq harriving.receives.state
      have hreceives : Receives (restart t) manifest bytes key noncePrefix := by
        refine ⟨h₁.trans harriving.receives.manifest, h₂.trans harriving.receives.key,
          h₃.trans harriving.receives.noncePrefix, ?_, ?_⟩
        · rw [h₄]
          exact harriving.receives.chunks
        · rw [h₅]
          split
          · exact TransferState.noConfusion
          · exact harriving.receives.state
      refine ⟨_, ht', harriving.mono hreceives h₄ (fun hne heq => hne ?_) hquiet⟩
      rw [h₅, heq]
      rfl
    · have hreceives : Receives { t with state := cancelled t.state } manifest bytes key
          noncePrefix := by
        refine ⟨harriving.receives.manifest, harriving.receives.key,
          harriving.receives.noncePrefix, harriving.receives.chunks, ?_⟩
        dsimp only
        rw [cancelled]
        split
        · exact TransferState.noConfusion
        · exact harriving.receives.state
      refine ⟨_, ht', harriving.mono hreceives rfl (fun hne heq => hne ?_) hquiet⟩
      dsimp only
      rw [heq]
      rfl
    · exact absurd ⟨frame, hframe, hid⟩ hdeliver

/-- What every step keeps. -/
theorem Good.step (hc : ChunkLaws c) (hm : Describes c manifest bytes)
    (h : Good c id manifest bytes key noncePrefix net) {event : Event}
    (hevent : Carried id net event) :
    Good c id manifest bytes key noncePrefix (net.step c event) :=
  have hsender := h.step_sender event
  have hreceiver := h.step_receiver hc hm hevent
  ⟨hsender.1, hsender.2, hreceiver.1, hreceiver.2⟩

/-- The bytes of a key come back. -/
theorem decodeFixed_encode (hc : ChunkLaws c) {n : Nat} (v : Vector UInt8 n) :
    decodeFixed c n (c.encode v.toList) = some v := by
  have hlength : v.toList.length = n := v.length_toList
  rw [decodeFixed, hc.decode_encode, Option.bind_some, dif_pos hlength]
  exact congrArg some (Vector.toArray_inj.1 rfl)

/-- A file that is not empty and not too large can be sent, and its manifest describes it. -/
theorem prepareOutgoing_ok {sender : AttachmentRuntime} {request : OutgoingAttachment}
    (hempty : request.bytes ≠ []) (hsize : request.bytes.length ≤ maxAttachmentSize)
    (hfresh : request.attachmentId ∉ sender.outgoing) :
    ∃ manifest sender', sender.prepareOutgoing c request key noncePrefix = (.ok manifest, sender') ∧
      manifest.attachmentId = request.attachmentId ∧ manifest.keyB64 = c.encode key.toList ∧
      manifest.noncePrefixB64 = c.encode noncePrefix.toList ∧
      Describes c manifest request.bytes ∧
      ∃ o, sender'.outgoing[request.attachmentId]? = some o ∧
        Sends o manifest request.bytes key noncePrefix := by
  rw [prepareOutgoing]
  dsimp only
  rw [if_neg (by rwa [List.isEmpty_iff]), if_neg (not_lt.2 hsize), if_neg hfresh]
  refine ⟨_, _, rfl, rfl, rfl, rfl, ⟨Nat.zero_lt_succ _, rfl, rfl, rfl⟩, ?_⟩
  dsimp only
  rw [Table.getElem?_insert, if_pos rfl]
  exact ⟨_, rfl, rfl, rfl, rfl, rfl⟩

/-- A file that is known can be downloaded. -/
theorem startDownload_ok {incoming : Std.ExtTreeMap String IncomingTransfer compare}
    (h : incoming[id]? = some t) (outgoing : Std.ExtTreeMap String OutgoingTransfer compare) :
    ∃ runtime, (AttachmentRuntime.mk outgoing incoming).startDownload id = (.ok (), runtime) ∧
      runtime.incoming[id]? = some (restart t) := by
  rw [startDownload, h]
  exact ⟨_, rfl, Std.ExtTreeMap.getElem?_insert_self⟩

/-- The manifest of a file can be registered and the download started, with no chunks yet. -/
theorem registerIncoming_ok (hc : ChunkLaws c) {receiver : AttachmentRuntime}
    (hm : Describes c manifest bytes) (hkey : manifest.keyB64 = c.encode key.toList)
    (hnonce : manifest.noncePrefixB64 = c.encode noncePrefix.toList)
    (hempty : bytes ≠ []) (hsize : bytes.length ≤ maxAttachmentSize)
    (hfresh : manifest.attachmentId ∉ receiver.incoming) :
    ∃ registered receiver', receiver.registerIncoming c manifest = (.ok (), registered) ∧
      registered.startDownload manifest.attachmentId = (.ok (), receiver') ∧
      ∃ t, receiver'.incoming[manifest.attachmentId]? = some t ∧
        Arriving manifest.attachmentId manifest bytes key noncePrefix [] t := by
  have hkeys : manifestKeys c manifest = .ok (key, noncePrefix) := by
    rw [manifestKeys, hkey, decodeFixed_encode hc, hnonce]
    dsimp only
    rw [decodeFixed_encode hc]
  have hnumbers : ¬ (manifest.totalSize = 0 ∨ manifest.chunkSize = 0 ∨
      maxAttachmentSize < manifest.totalSize) := by
    have hpositive := hm.chunkSize
    have hlength := List.length_pos_iff.2 hempty
    rw [hm.totalSize]
    omega
  have hcount : ¬ divCeil manifest.totalSize manifest.chunkSize ≠ manifest.chunkCount := by
    rw [hm.totalSize, hm.chunkCount]
    exact not_not.2 rfl
  have hregister : receiver.registerIncoming c manifest = (.ok (), { receiver with
      incoming := receiver.incoming.insert manifest.attachmentId
        ⟨manifest, key, noncePrefix, ∅, .active, false, 0, ∅, none⟩ }) := by
    rw [registerIncoming, if_neg hfresh, hkeys]
    dsimp only
    rw [if_neg hnumbers, if_neg hcount]
  obtain ⟨receiver', hstart, hlookup⟩ := startDownload_ok
    (Std.ExtTreeMap.getElem?_insert_self : (receiver.incoming.insert manifest.attachmentId
      ⟨manifest, key, noncePrefix, ∅, .active, false, 0, ∅, none⟩)[manifest.attachmentId]? = _)
    receiver.outgoing
  refine ⟨_, receiver', hregister, hstart, _, hlookup, ⟨rfl, rfl, rfl, fun i b hb => ?_,
    TransferState.noConfusion⟩, fun i hi => ?_, fun _ => rfl⟩
  · exact absurd hb (by rw [restart]; simp)
  · exact absurd hi (by rw [restart]; simp)

/-- A file reaches its receiver as it was sent. However its chunks are asked for, answered, lost,
    repeated and delivered, and the download cancelled and started again, the receiver completes the
    file at most once, when all chunks have arrived, with the bytes that were sent; the transfer
    never fails; and the chunk that is missing last completes it. -/
theorem transfer_reproduces (hc : ChunkLaws c) (sender receiver : AttachmentRuntime)
    (request : OutgoingAttachment) (key : Vector UInt8 attachmentKeyLen)
    (noncePrefix : Vector UInt8 attachmentNoncePrefixLen) (hempty : request.bytes ≠ [])
    (hsize : request.bytes.length ≤ maxAttachmentSize)
    (hsender : request.attachmentId ∉ sender.outgoing)
    (hreceiver : request.attachmentId ∉ receiver.incoming) :
    ∃ manifest sender' registered receiver',
      sender.prepareOutgoing c request key noncePrefix = (.ok manifest, sender') ∧
      receiver.registerIncoming c manifest = (.ok (), registered) ∧
      registered.startDownload request.attachmentId = (.ok (), receiver') ∧
      ∀ events net, Run.Runs (Net.step c) (Carried request.attachmentId)
          ⟨sender', receiver', [], []⟩ events net →
        Completed request.attachmentId manifest request.bytes net.delivered ∧
        ∃ t, net.receiver.incoming[request.attachmentId]? = some t ∧ t.state ≠ .failed ∧
          ∀ frame ∈ net.wire, frame.attachmentId = request.attachmentId → t.state = .active →
            frame.chunkIndex ∉ t.chunks →
            (∀ i < manifest.chunkCount, i ≠ frame.chunkIndex → i ∈ t.chunks) →
            (net.receiver.ingestChunk c frame).1 =
              .ok (.complete request.attachmentId manifest.contentHash request.bytes) := by
  obtain ⟨manifest, sender', hprepare, hid, hkey, hnonce, hm, hsent⟩ :=
    prepareOutgoing_ok (c := c) hempty hsize hsender
  obtain ⟨registered, receiver', hregister, hstart, hreceived⟩ :=
    registerIncoming_ok hc hm hkey hnonce hempty hsize (hid.symm ▸ hreceiver)
  rw [hid] at hstart hreceived
  have hgood : Good c request.attachmentId manifest request.bytes key noncePrefix
      ⟨sender', receiver', [], []⟩ := by
    refine ⟨hsent, List.forall_mem_nil _, hreceived, Nat.zero_le _, fun before d hpre => ?_⟩
    exact absurd (List.prefix_nil.1 hpre) (List.append_ne_nil_of_right_ne_nil _ (List.cons_ne_nil _ _))
  refine ⟨manifest, sender', registered, receiver', hprepare, hregister, hstart,
    fun events net hrun => ?_⟩
  have hnet := hrun.invariant (fun net event hevent h => Good.step hc hm h hevent) hgood
  obtain ⟨t, ht, harriving⟩ := hnet.receiver
  refine ⟨hnet.completed, t, ht, harriving.receives.state, fun frame hframe hid hactive hmissing
    hothers => ?_⟩
  have hresult : (net.receiver.ingestChunk c frame).1 = (ingest c t frame).1 := by
    rw [ingestChunk, hid, ht]
  rw [hresult]
  rcases ingest_genuine hc hm harriving.receives (hnet.wire frame hframe hid) with
    ⟨-, -, hnot⟩ | ⟨-, -, slice, hslice, hdone⟩
  · exact absurd ⟨hactive, hmissing⟩ hnot
  · have hfull : (t.chunks.insert frame.chunkIndex slice).size = manifest.chunkCount := by
      rw [hm.chunkCount]
      refine size_of_full hm.chunkSize (insert_chunk harriving.receives hslice) fun i hi => ?_
      rw [Std.ExtTreeMap.mem_insert, Nat.compare_eq_eq]
      by_cases heq : i = frame.chunkIndex
      · exact .inl heq.symm
      · exact .inr (hothers i (hm.chunkCount ▸ hi) heq)
    rw [if_pos hfull] at hdone
    rw [hdone, hid]

/-- Bytes as text, and chunks that are sealed with the first byte of the key. -/
def plainChunks : ChunkCrypto where
  encode bytes := String.ofList (bytes.map fun b => Char.ofNat b.toNat)
  decode s := some (s.toList.map fun ch => UInt8.ofNat ch.toNat)
  sha256Hex bytes := toString (bytes.foldl (fun sum b => sum + b.toNat) 0)
  encryptChunk key _ _ bytes := .ok (bytes.map (· ^^^ key[0]))
  decryptChunk key _ _ ciphertext := .ok (ciphertext.map (· ^^^ key[0]))

/-- Text and chunks of `plainChunks` can be undone. -/
theorem plainChunks_laws : ChunkLaws plainChunks where
  decode_encode bytes := by
    have hbyte : ∀ b : UInt8, UInt8.ofNat (Char.ofNat b.toNat).toNat = b := by
      intro b
      have hlt := b.toNat_lt
      rw [Char.toNat_ofNat, if_pos (.inl (by omega)), UInt8.ofNat_toNat]
    rw [plainChunks]
    dsimp only
    rw [String.toList_ofList, List.map_map]
    exact congrArg some ((List.map_congr_left fun b _ => hbyte b).trans (List.map_id bytes))
  decrypt_encrypt key noncePrefix index bytes ciphertext h := by
    rw [plainChunks] at h ⊢
    rw [← Except.ok.inj h]
    dsimp only
    rw [List.map_map]
    refine congrArg Except.ok ((List.map_congr_left fun b _ => ?_).trans (List.map_id bytes))
    rw [Function.comp, UInt8.xor_assoc, UInt8.xor_self, UInt8.xor_zero, id]

/-- A file of three bytes is sent by a side that has no files to one that has none. -/
theorem transfer_reproduces_greeting :
    ∃ manifest sender' registered receiver',
      ({} : AttachmentRuntime).prepareOutgoing plainChunks
          ⟨"f", "greeting.txt", "text/plain", "alice", [72, 105, 33], none, none⟩
          (Vector.replicate _ 7) (Vector.replicate _ 1) = (.ok manifest, sender') ∧
      ({} : AttachmentRuntime).registerIncoming plainChunks manifest = (.ok (), registered) ∧
      registered.startDownload "f" = (.ok (), receiver') ∧
      ∀ events net, Run.Runs (Net.step plainChunks) (Carried "f")
          ⟨sender', receiver', [], []⟩ events net →
        Completed "f" manifest [72, 105, 33] net.delivered := by
  obtain ⟨manifest, sender', registered, receiver', hprepare, hregister, hstart, hrun⟩ :=
    transfer_reproduces plainChunks_laws {} {}
      ⟨"f", "greeting.txt", "text/plain", "alice", [72, 105, 33], none, none⟩
      (Vector.replicate _ 7) (Vector.replicate _ 1) (by decide) (by decide) (by decide) (by decide)
  exact ⟨manifest, sender', registered, receiver', hprepare, hregister, hstart,
    fun events net h => (hrun events net h).1⟩

end Mosh.Attachment
