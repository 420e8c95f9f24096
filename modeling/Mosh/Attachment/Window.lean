import Mosh.Attachment.Delivery
import Mosh.Library.Run

/-!
# The window of requests

A receiver asks for the chunks of all of its files through one window
(`attachment_runtime/requests.rs`): a chunk that was asked for is in flight until it arrives
or the request is too old, and no more than `maxRequestBatch` chunks are in flight at a
time. For a file, the chunks that playback waits for come first, then those that were asked
for in vain, and then the next ones in order.

* `Asks`: what a request lists, whichever of the three it is made of;
* `request_window`: the window is never exceeded, and every request can be answered as a whole;
* `no_starvation`: as long as a chunk is missing and not in flight, one of the next calls asks
  for such a chunk.
-/

namespace Mosh.Attachment

open AttachmentRuntime
open Run (Runs)

namespace AttachmentRuntime

variable {t : IncomingTransfer} {now batch : Nat} {indices : List Nat}

/-! ## What is in flight -/

/-- How many chunks of a transfer are in flight, if it goes on. -/
def inFlightOf (now : Nat) (t : IncomingTransfer) : Nat :=
  if t.downloadStarted && t.state = .active then
    t.requestedAt.toList.countP fun row => row.1 ∉ t.chunks && now - row.2 < chunkRequestTimeout
  else 0

/-- How many chunks are in flight, of all files. -/
def inFlightCount (runtime : AttachmentRuntime) (now : Nat) : Nat :=
  (runtime.incoming.toList.map fun row => inFlightOf now row.2).sum

theorem sum_map_filter_map {α β : Type} (p : β → Bool) (f : β → Nat) (g : α → β) (l : List α) :
    (((l.map g).filter p).map f).sum = (l.map fun a => if p (g a) then f (g a) else 0).sum := by
  induction l with
  | nil => rfl
  | cons a l ih =>
    rw [List.map_cons, List.filter_cons, List.map_cons, List.sum_cons, ← ih]
    split
    · rw [List.map_cons, List.sum_cons]
    · rw [Nat.zero_add]

/-- What is not in flight can be asked for. -/
theorem availableRequestSlotsAt_eq (runtime : AttachmentRuntime) (now : Nat) :
    runtime.availableRequestSlotsAt now = maxRequestBatch - runtime.inFlightCount now := by
  simp only [availableRequestSlotsAt, inFlightCount, inFlightOf, List.countP_eq_length_filter]
  rw [sum_map_filter_map]

/-- Requests get older. -/
theorem inFlightOf_mono {now' : Nat} (h : now ≤ now') (t : IncomingTransfer) :
    inFlightOf now' t ≤ inFlightOf now t := by
  unfold inFlightOf
  split
  · refine List.countP_mono_left fun row _ hrow => ?_
    rw [Bool.and_eq_true, decide_eq_true_eq, decide_eq_true_eq] at hrow ⊢
    exact ⟨hrow.1, by omega⟩
  · exact le_rfl

theorem inFlightCount_mono {runtime : AttachmentRuntime} {now' : Nat} (h : now ≤ now') :
    runtime.inFlightCount now' ≤ runtime.inFlightCount now :=
  List.sum_le_sum fun row _ => inFlightOf_mono h row.2

theorem inFlightCount_empty (now : Nat) : ({} : AttachmentRuntime).inFlightCount now = 0 := by
  have hnil : (∅ : Std.ExtTreeMap String IncomingTransfer compare).toList = [] :=
    List.eq_nil_of_length_eq_zero (by rw [Std.ExtTreeMap.length_toList]; rfl)
  change ((∅ : Std.ExtTreeMap String IncomingTransfer compare).toList.map _).sum = 0
  rw [hnil]
  rfl

/-- Nothing is in flight of a transfer that does not go on. -/
theorem inFlightOf_inactive (h : t.state ≠ .active) : inFlightOf now t = 0 := by
  rw [inFlightOf, if_neg (by simp [h])]

theorem inFlightOf_unrequested (h : t.requestedAt = ∅) : inFlightOf now t = 0 := by
  simp [inFlightOf, h]

/-- With more chunks there is less in flight. -/
theorem inFlightOf_le {t' : IncomingTransfer} (hstate : t'.state = t.state)
    (hstarted : t'.downloadStarted = t.downloadStarted) (hrequested : t'.requestedAt = t.requestedAt)
    (hchunks : ∀ i ∈ t.chunks, i ∈ t'.chunks) : inFlightOf now t' ≤ inFlightOf now t := by
  rw [inFlightOf, inFlightOf, hstate, hstarted, hrequested]
  split
  · refine List.countP_mono_left fun row _ hrow => ?_
    rw [Bool.and_eq_true, decide_eq_true_eq] at hrow ⊢
    exact ⟨fun hmem => hrow.1 (hchunks row.1 hmem), hrow.2⟩
  · exact le_rfl

/-- Each chunk that is asked for adds at most one to what is in flight. -/
theorem inFlightOf_requested (indices : List Nat) (t : IncomingTransfer) (now : Nat) :
    inFlightOf now { t with
      requestedAt :=
        indices.foldl (fun requested index => requested.insert index now) t.requestedAt } ≤
    inFlightOf now t + indices.length := by
  have hcount : ∀ (p : Nat × Nat → Bool) (rows : Std.ExtTreeMap Nat Nat compare),
      (indices.foldl (fun requested index => requested.insert index now) rows).toList.countP p ≤
        rows.toList.countP p + indices.length := by
    intro p
    induction indices with
    | nil => exact fun rows => le_rfl
    | cons index rest ih =>
      intro rows
      have hrest := ih (rows.insert index now)
      have hone := Table.countP_toList_insert_le p rows index now
      rw [List.foldl_cons, List.length_cons]
      omega
  unfold inFlightOf
  split
  · exact hcount _ t.requestedAt
  · exact Nat.zero_le _

/-! ## What a request lists -/

/-- The chunks are missing and not in flight, and there are no more of them than there may be. -/
structure Asks (t : IncomingTransfer) (now batch : Nat) (indices : List Nat) : Prop where
  nodup : indices.Nodup
  length : indices.length ≤ batch
  wants : ∀ i ∈ indices, i < t.manifest.chunkCount ∧ wanted t now i = true

theorem Asks.of_take {l : List Nat} (hnodup : l.Nodup) (hlt : ∀ i ∈ l, i < t.manifest.chunkCount) :
    Asks t now batch ((l.filter (wanted t now)).take batch) := by
  refine ⟨(hnodup.filter _).sublist (List.take_sublist _ _), List.length_take_le _ _,
    fun i hi => ?_⟩
  obtain ⟨hmem, hwanted⟩ := List.mem_filter.1 (List.mem_of_mem_take hi)
  exact ⟨hlt i hmem, hwanted⟩

theorem asks_sequentialIndices (h : t.requestCursor ≤ t.manifest.chunkCount) :
    Asks t now batch (sequentialIndices t now batch).1 ∧
      (sequentialIndices t now batch).2.requestCursor ≤ t.manifest.chunkCount := by
  rw [sequentialIndices]
  dsimp only
  split
  · exact ⟨.of_take List.nodup_range fun i hi => (List.mem_range.1 hi).trans_le h, h⟩
  · refine ⟨⟨List.Nodup.filter _ List.nodup_range', ?_, fun i hi => ?_⟩, min_le_right _ _⟩
    · refine (List.length_filter_le _ _).trans ?_
      rw [List.length_range']
      omega
    · obtain ⟨hmem, hwanted⟩ := List.mem_filter.1 hi
      have := List.mem_range'_1.1 hmem
      exact ⟨by omega, hwanted⟩

theorem asks_requestIndices (h : t.requestCursor ≤ t.manifest.chunkCount) :
    Asks t now batch (requestIndices t now batch).1 ∧
      (requestIndices t now batch).2.requestCursor ≤ t.manifest.chunkCount := by
  rw [requestIndices]
  split
  · exact asks_sequentialIndices h
  next priority _ =>
    dsimp only
    split
    · refine ⟨.of_take List.nodup_range' fun i hi => ?_, ?_⟩
      · have := List.mem_range'_1.1 hi
        omega
      · split <;> exact h
    · split
      · have hnone : Asks { t with priorityChunk := none } now batch
            (sequentialIndices { t with priorityChunk := none } now batch).1 ∧ _ :=
          asks_sequentialIndices h
        exact ⟨⟨hnone.1.nodup, hnone.1.length, hnone.1.wants⟩, hnone.2⟩
      · exact asks_sequentialIndices h

/-! ## Calls -/

/-- A call of the receiver. -/
inductive Call
  | registerIncoming (manifest : AttachmentManifest)
  | startDownload (id : String)
  | cancel (id : String)
  | ingestChunk (frame : ChunkFrame)
  | streamRange (id : String) (start stop : Nat)
  | nextChunkRequest (id : String) (now budget : Nat)
  deriving DecidableEq

/-- When chunks are asked for. -/
def Call.time : Call → Option Nat
  | .nextChunkRequest _ now _ => some now
  | _ => none

/-- A receiver, and the last time at which it asked for chunks. -/
def Call.step (c : ChunkCrypto) (s : AttachmentRuntime × Nat) : Call → AttachmentRuntime × Nat
  | .registerIncoming manifest => ((s.1.registerIncoming c manifest).2, s.2)
  | .startDownload id => ((s.1.startDownload id).2, s.2)
  | .cancel id => (s.1.cancel id, s.2)
  | .ingestChunk frame => ((s.1.ingestChunk c frame).2, s.2)
  | .streamRange id start stop => ((s.1.streamRange id start stop).2, s.2)
  | .nextChunkRequest id now budget => ((s.1.nextChunkRequestWithBudgetAt id now budget).2, now)

/-- Time does not run backwards. -/
def Call.InTime (s : AttachmentRuntime × Nat) (call : Call) : Prop := ∀ now ∈ call.time, s.2 ≤ now

/-! ## What holds at any time -/

/-- A transfer has chunks as its manifest says, and is asked for only after it was started. -/
structure Orderly (t : IncomingTransfer) : Prop where
  cursor : t.requestCursor ≤ t.manifest.chunkCount
  started : t.downloadStarted = false → t.requestedAt = ∅
  chunkSize : 0 < t.manifest.chunkSize
  totalSize : t.manifest.totalSize ≤ maxAttachmentSize
  chunkCount : t.manifest.chunkCount = divCeil t.manifest.totalSize t.manifest.chunkSize

/-- The window is not exceeded. -/
structure Windowed (s : AttachmentRuntime × Nat) : Prop where
  orderly : ∀ (id : String) (t : IncomingTransfer), s.1.incoming[id]? = some t → Orderly t
  bounded : s.1.inFlightCount s.2 ≤ maxRequestBatch

variable {runtime : AttachmentRuntime} {id : String} {t' : IncomingTransfer} {n : Nat}

/-- A transfer is replaced by another one. -/
theorem inFlightCount_insert (h : inFlightOf now t' ≤
      (runtime.incoming[id]?.elim 0 fun t => inFlightOf now t) + n) :
    { runtime with incoming := runtime.incoming.insert id t' }.inFlightCount now ≤
      runtime.inFlightCount now + n :=
  Table.sum_toList_insert_le (fun row => inFlightOf now row.2) h

theorem Windowed.insert (h : Windowed (runtime, now)) (ht' : Orderly t')
    (hle : inFlightOf now t' ≤ (runtime.incoming[id]?.elim 0 fun t => inFlightOf now t) + n)
    (hn : runtime.inFlightCount now + n ≤ maxRequestBatch) :
    Windowed ({ runtime with incoming := runtime.incoming.insert id t' }, now) := by
  refine ⟨fun k t hk => ?_, (inFlightCount_insert hle).trans hn⟩
  rw [Table.getElem?_insert] at hk
  split at hk
  · rwa [← Option.some.inj hk]
  · exact h.orderly k t hk

theorem Windowed.congr {runtime' : AttachmentRuntime} (h : Windowed (runtime, now))
    (heq : runtime'.incoming = runtime.incoming) : Windowed (runtime', now) := by
  refine ⟨heq ▸ h.orderly, ?_⟩
  rw [inFlightCount, heq, ← inFlightCount]
  exact h.bounded

/-- A transfer is replaced by one of which no more is in flight. -/
theorem Windowed.replace (h : Windowed (runtime, now)) (hk : runtime.incoming[id]? = some t)
    (ht' : Orderly t') (hle : inFlightOf now t' ≤ inFlightOf now t) :
    Windowed ({ runtime with incoming := runtime.incoming.insert id t' }, now) :=
  h.insert (n := 0) ht' (by rwa [hk, Option.elim_some, Nat.add_zero]) h.bounded

theorem Orderly.restart (h : Orderly t) : Orderly (restart t) := by
  unfold AttachmentRuntime.restart
  split
  · exact ⟨Nat.zero_le _, fun _ => rfl, h.chunkSize, h.totalSize, h.chunkCount⟩
  · exact ⟨h.cursor, nofun, h.chunkSize, h.totalSize, h.chunkCount⟩

/-- What is started with nothing asked for has nothing in flight. -/
theorem inFlightOf_started (h : Orderly t) (now : Nat) :
    inFlightOf now { t with downloadStarted := true } ≤ inFlightOf now t := by
  cases hstarted : t.downloadStarted with
  | false =>
    have hnone : ({ t with downloadStarted := true } : IncomingTransfer).requestedAt = ∅ :=
      h.started hstarted
    exact (inFlightOf_unrequested hnone).le.trans (Nat.zero_le _)
  | true => exact inFlightOf_le rfl hstarted.symm rfl fun _ hi => hi

theorem inFlightOf_restart (h : Orderly t) (now : Nat) :
    inFlightOf now (restart t) ≤ inFlightOf now t := by
  unfold AttachmentRuntime.restart
  split
  · exact (inFlightOf_unrequested rfl).le.trans (Nat.zero_le _)
  · exact inFlightOf_started h now

theorem Orderly.withState (h : Orderly t) (state : TransferState) :
    Orderly { t with state := state } :=
  ⟨h.cursor, h.started, h.chunkSize, h.totalSize, h.chunkCount⟩

/-- An arriving chunk leaves the transfer orderly, with no more in flight. -/
theorem ingest_windowed (c : ChunkCrypto) (h : Orderly t) (frame : ChunkFrame) (now : Nat) :
    Orderly (ingest c t frame).2 ∧ inFlightOf now (ingest c t frame).2 ≤ inFlightOf now t := by
  have hsame : Orderly t ∧ inFlightOf now t ≤ inFlightOf now t := ⟨h, le_rfl⟩
  have hended : ∀ {u : IncomingTransfer} (state : TransferState), Orderly u → state ≠ .active →
      Orderly { u with state := state } ∧ inFlightOf now { u with state := state } ≤
        inFlightOf now t := fun state hu hstate =>
    ⟨hu.withState state, (inFlightOf_inactive hstate).le.trans (Nat.zero_le _)⟩
  rw [ingest]
  split
  · exact hsame
  split
  · exact hsame
  split
  · exact hsame
  split
  · exact hsame
  next ciphertext _ =>
  split
  · exact hsame
  next plaintext _ =>
  have hmore : Orderly { t with chunks := t.chunks.insert frame.chunkIndex plaintext } :=
    ⟨h.cursor, h.started, h.chunkSize, h.totalSize, h.chunkCount⟩
  dsimp only
  split
  · exact hended .failed h (by decide)
  split
  · exact ⟨hmore, inFlightOf_le rfl rfl rfl fun i hi => Std.ExtTreeMap.mem_insert.2 (.inr hi)⟩
  · rw [AttachmentRuntime.complete]
    split
    · exact hended .failed hmore (by decide)
    dsimp only
    split
    · exact hended .failed hmore (by decide)
    · exact hended .complete hmore (by decide)

theorem Orderly.of_sameData (h : Orderly t) (hsame : SameData t t')
    (hcursor : t'.requestCursor ≤ t.manifest.chunkCount)
    (hstarted : t'.downloadStarted = false → t'.requestedAt = ∅) : Orderly t' := by
  refine ⟨?_, hstarted, ?_, ?_, ?_⟩
  · rwa [hsame.manifest]
  · rw [hsame.manifest]
    exact h.chunkSize
  · rw [hsame.manifest]
    exact h.totalSize
  · rw [hsame.manifest]
    exact h.chunkCount

/-- Choosing chunks does not touch what was asked for before. -/
theorem requested_requestIndices (t : IncomingTransfer) (now batch : Nat) :
    (requestIndices t now batch).2.requestedAt = t.requestedAt ∧
      (requestIndices t now batch).2.downloadStarted = t.downloadStarted := by
  have hsequential : ∀ u : IncomingTransfer,
      (sequentialIndices u now batch).2.requestedAt = u.requestedAt ∧
        (sequentialIndices u now batch).2.downloadStarted = u.downloadStarted := by
    intro u
    rw [sequentialIndices]
    dsimp only
    split <;> exact ⟨rfl, rfl⟩
  rw [requestIndices]
  split
  · exact hsequential t
  · dsimp only
    split <;> split
    · exact ⟨rfl, rfl⟩
    · exact ⟨rfl, rfl⟩
    · exact hsequential { t with priorityChunk := none }
    · exact hsequential t

/-- What a call that asks for chunks does: nothing, or it changes what is chosen next, or it asks for
    chunks within the window. -/
theorem nextChunkRequest_cases (runtime : AttachmentRuntime) (id : String) (now budget : Nat) :
    runtime.nextChunkRequestWithBudgetAt id now budget = (none, runtime) ∨
    ∃ t, runtime.incoming[id]? = some t ∧ t.downloadStarted = true ∧ t.state = .active ∧
      let batch := min (min budget (runtime.availableRequestSlotsAt now))
        (requestBatch t.manifest.chunkSize)
      let chosen := requestIndices t now batch
      (chosen.1 = [] ∧ runtime.nextChunkRequestWithBudgetAt id now budget =
        (none, { runtime with incoming := runtime.incoming.insert id chosen.2 })) ∨
      (chosen.1 ≠ [] ∧ runtime.nextChunkRequestWithBudgetAt id now budget =
        (some ⟨id, chosen.1⟩, { runtime with incoming := runtime.incoming.insert id { chosen.2 with
          requestedAt := chosen.1.foldl (fun requested index => requested.insert index now)
            chosen.2.requestedAt } })) := by
  rw [nextChunkRequestWithBudgetAt]
  dsimp only
  split
  · exact .inl rfl
  next t hk =>
    split
    · exact .inl rfl
    next hgo =>
      simp only [not_or, ne_eq, Bool.not_eq_true, not_not] at hgo
      refine .inr ⟨t, hk, by simpa using hgo.2.1, hgo.2.2, ?_⟩
      split
      · next hempty => exact .inl ⟨by simpa using hempty, rfl⟩
      · next hempty => exact .inr ⟨by simpa using hempty, rfl⟩

/-- Every call keeps the window. -/
theorem Windowed.step (c : ChunkCrypto) {s : AttachmentRuntime × Nat} {call : Call}
    (hcall : call.InTime s) (h : Windowed s) : Windowed (call.step c s) := by
  obtain ⟨runtime, now⟩ := s
  cases call with
  | registerIncoming manifest =>
    change Windowed ((runtime.registerIncoming c manifest).2, now)
    rw [AttachmentRuntime.registerIncoming]
    split
    · exact h
    split
    · exact h
    split
    · exact h
    split
    · exact h
    next hsize hcount =>
    simp only [not_or, not_lt] at hsize
    refine h.insert (n := 0) ⟨Nat.zero_le _, fun _ => rfl, Nat.pos_of_ne_zero hsize.2.1, hsize.2.2,
      (not_not.1 hcount).symm⟩ ?_ h.bounded
    exact (inFlightOf_unrequested rfl).le.trans (Nat.zero_le _)
  | startDownload id =>
    change Windowed ((runtime.startDownload id).2, now)
    rw [AttachmentRuntime.startDownload]
    split
    · exact h
    next t hk =>
      have ht := h.orderly id t hk
      exact h.replace hk ht.restart (inFlightOf_restart ht now)
  | cancel id =>
    change Windowed (runtime.cancel id, now)
    have hincoming : (runtime.cancel id).incoming = runtime.incoming[id]?.elim runtime.incoming
        fun t => runtime.incoming.insert id { t with state := cancelled t.state } :=
      Table.alter_map _ _ _
    rcases hk : runtime.incoming[id]? with - | t
    · rw [hk, Option.elim_none] at hincoming
      exact h.congr hincoming
    · rw [hk, Option.elim_some] at hincoming
      have ht := h.orderly id t hk
      refine (h.replace hk (ht.withState (cancelled t.state)) ?_).congr hincoming
      by_cases hactive : t.state = .active
      · have hended : cancelled t.state ≠ .active := by
          rw [hactive]
          decide
        exact (inFlightOf_inactive hended).le.trans (Nat.zero_le _)
      · refine inFlightOf_le ?_ rfl rfl fun _ hi => hi
        rw [cancelled, if_neg hactive]
  | ingestChunk frame =>
    change Windowed ((runtime.ingestChunk c frame).2, now)
    rw [AttachmentRuntime.ingestChunk]
    split
    · exact h
    next t hk =>
      obtain ⟨ht', hle⟩ := ingest_windowed c (h.orderly _ t hk) frame now
      exact h.replace hk ht' hle
  | streamRange id start stop =>
    change Windowed ((runtime.streamRange id start stop).2, now)
    rw [AttachmentRuntime.streamRange]
    split
    · exact h
    next t hk =>
      have ht := h.orderly id t hk
      exact h.replace hk ⟨ht.cursor, fun hno => (by cases hno), ht.chunkSize, ht.totalSize, ht.chunkCount⟩
        (inFlightOf_started ht now)
  | nextChunkRequest id later budget =>
    change Windowed ((runtime.nextChunkRequestWithBudgetAt id later budget).2, later)
    have hlater : Windowed (runtime, later) :=
      ⟨h.orderly, (inFlightCount_mono (hcall later rfl)).trans h.bounded⟩
    rcases nextChunkRequest_cases runtime id later budget with hsame | ⟨t, hk, hstarted, -, hcase⟩
    · rwa [hsame]
    · have ht := hlater.orderly id t hk
      dsimp only at hcase
      set batch := min (min budget (runtime.availableRequestSlotsAt later))
        (requestBatch t.manifest.chunkSize) with hbatch
      have hchoice : Asks t later batch (requestIndices t later batch).1 ∧ _ :=
        asks_requestIndices ht.cursor
      obtain ⟨hasks, hcursor⟩ := hchoice
      obtain ⟨hrequested, hstill⟩ := requested_requestIndices t later batch
      have hsame := sameData_requestIndices t later batch
      have hchosen : Orderly (requestIndices t later batch).2 := by
        refine ht.of_sameData hsame hcursor fun hno => ?_
        rw [hstill, hstarted] at hno
        cases hno
      have hle : inFlightOf later (requestIndices t later batch).2 ≤ inFlightOf later t :=
        inFlightOf_le hsame.state hstill hrequested (by rw [hsame.chunks]; exact fun _ hi => hi)
      rcases hcase with ⟨-, heq⟩ | ⟨-, heq⟩
      · rw [heq]
        exact hlater.replace hk hchosen hle
      · rw [heq]
        refine hlater.insert (n := (requestIndices t later batch).1.length) ⟨hchosen.cursor, fun hno => ?_,
          hchosen.chunkSize, hchosen.totalSize, hchosen.chunkCount⟩ ?_ ?_
        · change (requestIndices t later batch).2.downloadStarted = false at hno
          rw [hstill, hstarted] at hno
          cases hno
        · rw [hk, Option.elim_some]
          have := inFlightOf_requested (requestIndices t later batch).1 (requestIndices t later batch).2
            later
          omega
        · -- what is asked for fits into the slots that are left
          have hslots := availableRequestSlotsAt_eq runtime later
          have hlength := hasks.length
          have hbounded : runtime.inFlightCount later ≤ maxRequestBatch := hlater.bounded
          omega

/-! ## The answer of the peer -/

/-- The peer has the file, goes on sending it, and can encrypt its chunks. -/
structure Answers (c : ChunkCrypto) (o : OutgoingTransfer) (manifest : AttachmentManifest) : Prop where
  state : o.state = .active
  chunkSize : o.manifest.chunkSize = manifest.chunkSize
  plaintext : o.plaintext.length = manifest.totalSize
  encrypts : ∀ i slice, chunkSlice o.plaintext i manifest.chunkSize = some slice →
    ∃ ciphertext, c.encryptChunk o.key o.noncePrefix i slice = .ok ciphertext

variable {c : ChunkCrypto} {o : OutgoingTransfer} {manifest : AttachmentManifest}

/-- All chunks that exist are served. -/
theorem serveLoop_answers (ho : Answers c o manifest) (hsize : 0 < manifest.chunkSize)
    (htotal : manifest.totalSize ≤ maxAttachmentSize)
    (hlt : ∀ i ∈ indices, i < divCeil manifest.totalSize manifest.chunkSize) :
    ∃ frames, (serveLoop c id indices o).1 = .ok frames ∧ frames.map (·.chunkIndex) = indices ∧
      ∀ frame ∈ frames, frame.attachmentId = id := by
  induction indices generalizing o with
  | nil => exact ⟨[], rfl, rfl, nofun⟩
  | cons index rest ih =>
    have hstart : index * manifest.chunkSize < manifest.totalSize :=
      (lt_divCeil_iff hsize).1 (hlt index List.mem_cons_self)
    have hslice : chunkSlice o.plaintext index o.manifest.chunkSize =
        some ((o.plaintext.drop (index * manifest.chunkSize)).take manifest.chunkSize) := by
      have hmax : maxAttachmentSize < 2 ^ 64 := by decide
      have hplaintext := ho.plaintext
      rw [ho.chunkSize, chunkSlice, if_neg (by omega), if_neg (by omega)]
    obtain ⟨ciphertext, hcipher⟩ := ho.encrypts index _ (ho.chunkSize ▸ hslice)
    obtain ⟨frames, hframes, hindices, hids⟩ := ih (o := { o with
      servedChunks := o.servedChunks.insert index ((o.servedChunks[index]?).getD 0 + 1) })
      ⟨ho.state, ho.chunkSize, ho.plaintext, ho.encrypts⟩
      fun i hi => hlt i (List.mem_cons_of_mem _ hi)
    refine ⟨⟨id, index, c.encode ciphertext⟩ :: frames, ?_, ?_, ?_⟩
    · rw [serveLoop, hslice]
      dsimp only
      rw [hcipher]
      dsimp only
      rw [hframes]
      rfl
    · rw [List.map_cons, hindices]
    · exact List.forall_mem_cons.2 ⟨rfl, hids⟩

end AttachmentRuntime

/-- In every state that the calls of a receiver lead to, with times that do not run backwards, no
    more chunks are in flight than the window holds, now and later. Every request lists different
    chunks of the file, which are neither there nor in flight, and no more of them than the budget
    and the batch allow, so that a peer with the file answers all of them. -/
theorem request_window (c : ChunkCrypto) {calls : List Call} {s : AttachmentRuntime × Nat} {start : Nat}
    (hrun : Runs (fun s call => Call.step c s call) Call.InTime ({}, start) calls s) (now : Nat)
    (hnow : s.2 ≤ now) :
    s.1.inFlightCount now ≤ maxRequestBatch ∧
    ∀ id budget request, (s.1.nextChunkRequestWithBudgetAt id now budget).1 = some request →
      ∃ t, s.1.incoming[id]? = some t ∧ t.downloadStarted = true ∧ t.state = .active ∧
        request.attachmentId = id ∧
        Asks t now (min budget (requestBatch t.manifest.chunkSize)) request.chunkIndices ∧
        ∀ (peer : AttachmentRuntime) (o : OutgoingTransfer), peer.outgoing[id]? = some o →
          Answers c o t.manifest → ∃ frames, (peer.serveChunks c request).1 = .ok frames ∧
            frames.map (·.chunkIndex) = request.chunkIndices ∧
            ∀ frame ∈ frames, frame.attachmentId = id := by
  have hwindowed : Windowed s := by
    refine hrun.invariant (fun s call hcall hs => hs.step c hcall) ⟨fun id t hid => ?_, ?_⟩
    · change (∅ : Std.ExtTreeMap String IncomingTransfer compare)[id]? = some t at hid
      simp at hid
    · exact (inFlightCount_empty start).le.trans (Nat.zero_le _)
  refine ⟨(inFlightCount_mono hnow).trans hwindowed.bounded, fun id budget request hrequest => ?_⟩
  rcases nextChunkRequest_cases s.1 id now budget with hnone | ⟨t, hk, hstarted, hactive, hcase⟩
  · rw [hnone] at hrequest
    cases hrequest
  · have ht := hwindowed.orderly id t hk
    dsimp only at hcase
    rcases hcase with ⟨-, heq⟩ | ⟨-, heq⟩
    · rw [heq] at hrequest
      cases hrequest
    · rw [heq] at hrequest
      obtain rfl := Option.some.inj hrequest
      set batch := min (min budget (s.1.availableRequestSlotsAt now))
        (requestBatch t.manifest.chunkSize) with hbatch
      have hasks : Asks t now batch (requestIndices t now batch).1 :=
        (asks_requestIndices ht.cursor).1
      have hlength := hasks.length
      refine ⟨t, hk, hstarted, hactive, rfl, ⟨hasks.nodup, by dsimp only; omega, hasks.wants⟩,
        fun peer o ho hanswers => ?_⟩
      have hall : (requestIndices t now batch).1.take (requestBatch o.manifest.chunkSize) =
          (requestIndices t now batch).1 := List.take_of_length_le (by rw [hanswers.chunkSize]; omega)
      rw [serveChunks]
      dsimp only
      rw [ho]
      dsimp only
      rw [if_neg (not_not.2 hanswers.state), hall]
      exact serveLoop_answers hanswers ht.chunkSize ht.totalSize fun i hi =>
        ht.chunkCount ▸ (hasks.wants i hi).1

/-- The manifest of a file of two chunks. -/
def twoChunks : AttachmentManifest where
  origin := none
  attachmentId := "f"
  contentHash := ""
  fileName := "f"
  mime := ""
  totalSize := 2
  chunkSize := 1
  chunkCount := 2
  keyB64 := plainChunks.encode (List.replicate attachmentKeyLen 1)
  noncePrefixB64 := plainChunks.encode (List.replicate attachmentNoncePrefixLen 2)
  thumbnailB64 := none
  voice := none
  fromFingerprint := ""

/-- It is registered, started and asked for. -/
theorem request_window_two :
    let calls : List Call :=
      [.registerIncoming twoChunks, .startDownload "f", .nextChunkRequest "f" 5 256]
    (calls.foldl (Call.step plainChunks) ({}, 0)).1.inFlightCount 5 ≤ maxRequestBatch := by
  intro calls
  have hrun : Runs (fun s call => Call.step plainChunks s call) Call.InTime ({}, 0) calls
      (calls.foldl (Call.step plainChunks) ({}, 0)) := by
    refine .cons (fun _ h => by cases h) (.cons (fun _ h => by cases h) (.cons ?_ (.nil _)))
    intro now hnow
    cases hnow
    exact Nat.zero_le _
  exact (request_window plainChunks hrun 5 le_rfl).1

/-! ## No chunk is left out -/

namespace AttachmentRuntime

variable {t t' : IncomingTransfer} {now batch w : Nat} {id : String}

/-- The first chunk that is missing and not in flight. -/
structure FirstWanted (t : IncomingTransfer) (now w : Nat) : Prop where
  lt : w < t.manifest.chunkCount
  wants : wanted t now w = true
  first : ∀ i < w, wanted t now i = false

theorem exists_firstWanted (h : ∃ i < t.manifest.chunkCount, wanted t now i = true) :
    ∃ w, FirstWanted t now w := by
  obtain ⟨i, hi, hwanted⟩ := h
  have hex : ∃ i, wanted t now i = true := ⟨i, hwanted⟩
  exact ⟨Nat.find hex, (Nat.find_min' hex hwanted).trans_lt hi, Nat.find_spec hex,
    fun j hj => by simpa using Nat.find_min hex hj⟩

/-- What is asked for in order is such a chunk, or the cursor comes closer to it. -/
theorem FirstWanted.sequentialIndices (h : FirstWanted t now w) (hbatch : 0 < batch) :
    (∃ i ∈ (AttachmentRuntime.sequentialIndices t now batch).1,
      i < t.manifest.chunkCount ∧ wanted t now i = true) ∨
    ((AttachmentRuntime.sequentialIndices t now batch).1 = [] ∧
      t.requestCursor < (AttachmentRuntime.sequentialIndices t now batch).2.requestCursor ∧
      (AttachmentRuntime.sequentialIndices t now batch).2.requestCursor ≤ w) := by
  have hlt := h.lt
  rw [AttachmentRuntime.sequentialIndices]
  dsimp only
  by_cases hw : w < t.requestCursor
  · -- the gaps start with it
    have hsplit : (List.range t.requestCursor).filter (wanted t now) =
        w :: (List.range' (w + 1) (t.requestCursor - (w + 1))).filter (wanted t now) := by
      have hrange : List.range t.requestCursor =
          List.range w ++ w :: List.range' (w + 1) (t.requestCursor - (w + 1)) := by
        have hcons : List.range' w (t.requestCursor - w) =
            w :: List.range' (w + 1) (t.requestCursor - (w + 1)) := by
          rw [show t.requestCursor - w = (t.requestCursor - (w + 1)) + 1 by omega,
            List.range'_succ]
        have happend := @List.range'_append_1 0 w (t.requestCursor - w)
        rw [Nat.zero_add, Nat.add_sub_cancel' hw.le] at happend
        rw [← hcons, List.range_eq_range', List.range_eq_range', happend]
      have hbefore : (List.range w).filter (wanted t now) = [] := by
        refine List.filter_eq_nil_iff.2 fun i hi => ?_
        rw [h.first i (List.mem_range.1 hi)]
        decide
      rw [hrange, List.filter_append, hbefore, List.nil_append, List.filter_cons, if_pos h.wants]
    obtain ⟨b, rfl⟩ := Nat.exists_eq_succ_of_ne_zero hbatch.ne'
    rw [hsplit, List.take_succ_cons, if_pos (by rfl)]
    exact .inl ⟨w, List.mem_cons_self, hlt, h.wants⟩
  · have hgaps : (List.range t.requestCursor).filter (wanted t now) = [] := by
      refine List.filter_eq_nil_iff.2 fun i hi => ?_
      rw [h.first i (by have := List.mem_range.1 hi; omega)]
      decide
    rw [hgaps, List.take_nil, if_neg (by decide)]
    by_cases hnow : w < min (t.requestCursor + batch) t.manifest.chunkCount
    · refine .inl ⟨w, List.mem_filter.2 ⟨List.mem_range'_1.2 ?_, h.wants⟩, hlt, h.wants⟩
      omega
    · refine .inr ⟨List.filter_eq_nil_iff.2 fun i hi => ?_, ?_, ?_⟩
      · have := List.mem_range'_1.1 hi
        rw [h.first i (by omega)]
        decide
      · dsimp only
        omega
      · dsimp only
        omega

/-- What is asked for is such a chunk, or the cursor comes closer to it. -/
theorem FirstWanted.requestIndices (h : FirstWanted t now w) (hbatch : 0 < batch) :
    (∃ i ∈ (AttachmentRuntime.requestIndices t now batch).1,
      i < t.manifest.chunkCount ∧ wanted t now i = true) ∨
    ((AttachmentRuntime.requestIndices t now batch).1 = [] ∧
      t.requestCursor < (AttachmentRuntime.requestIndices t now batch).2.requestCursor ∧
      (AttachmentRuntime.requestIndices t now batch).2.requestCursor ≤ w) := by
  rw [AttachmentRuntime.requestIndices]
  split
  · exact h.sequentialIndices hbatch
  next priority _ =>
    dsimp only
    split
    next hsome =>
      rw [Bool.not_eq_true', List.isEmpty_eq_false_iff] at hsome
      obtain ⟨i, hi⟩ := List.exists_mem_of_ne_nil _ hsome
      obtain ⟨hmem, hwanted⟩ := List.mem_filter.1 (List.mem_of_mem_take hi)
      have := List.mem_range'_1.1 hmem
      exact .inl ⟨i, hi, by omega, hwanted⟩
    · split
      · exact (⟨h.lt, h.wants, h.first⟩ :
          FirstWanted { t with priorityChunk := none } now w).sequentialIndices hbatch
      · exact h.sequentialIndices hbatch

/-- What some calls ask for, one after the other, all at one time. -/
def requests (id : String) (now : Nat) : List Nat → AttachmentRuntime → List (Option ChunkRequest)
  | [], _ => []
  | budget :: rest, runtime =>
    let (request, runtime) := runtime.nextChunkRequestWithBudgetAt id now budget
    request :: requests id now rest runtime

theorem requestBatch_pos (chunkSize : Nat) : 0 < requestBatch chunkSize :=
  Nat.lt_of_lt_of_le Nat.one_pos (le_max_left _ _)

theorem wanted_congr (hchunks : t'.chunks = t.chunks) (hrequested : t'.requestedAt = t.requestedAt)
    (i : Nat) : wanted t' now i = wanted t now i := by
  rw [wanted, wanted, inFlight, inFlight, hchunks, hrequested]

/-- As long as nothing is asked for, what is in flight stays the same. -/
theorem availableRequestSlotsAt_insert {runtime : AttachmentRuntime}
    (hk : runtime.incoming[id]? = some t) (hsame : SameData t t')
    (hrequested : t'.requestedAt = t.requestedAt) (hstarted : t'.downloadStarted = t.downloadStarted) :
    runtime.availableRequestSlotsAt now ≤
      { runtime with incoming := runtime.incoming.insert id t' }.availableRequestSlotsAt now := by
  have hle : inFlightOf now t' ≤ inFlightOf now t :=
    inFlightOf_le hsame.state hstarted hrequested (by rw [hsame.chunks]; exact fun _ hi => hi)
  have hcount : { runtime with incoming := runtime.incoming.insert id t' }.inFlightCount now ≤
      runtime.inFlightCount now + 0 :=
    inFlightCount_insert (by rwa [hk, Option.elim_some, Nat.add_zero])
  rw [availableRequestSlotsAt_eq, availableRequestSlotsAt_eq]
  omega

theorem FirstWanted.requests {runtime : AttachmentRuntime} {budgets : List Nat}
    (hk : runtime.incoming[id]? = some t) (hstarted : t.downloadStarted = true)
    (hactive : t.state = .active) (h : FirstWanted t now w)
    (hslots : 0 < runtime.availableRequestSlotsAt now) (hbudgets : ∀ budget ∈ budgets, 0 < budget)
    (hlength : w - t.requestCursor < budgets.length) :
    ∃ request, some request ∈ AttachmentRuntime.requests id now budgets runtime ∧
      ∃ i ∈ request.chunkIndices, i < t.manifest.chunkCount ∧ wanted t now i = true := by
  -- the cursor comes closer to the chunk with every call that asks for nothing
  induction budgets generalizing runtime t with
  | nil => cases hlength
  | cons budget rest ih =>
    rw [List.length_cons] at hlength
    have hbudget := hbudgets budget List.mem_cons_self
    have hbatch : 0 < min (min budget (runtime.availableRequestSlotsAt now))
        (requestBatch t.manifest.chunkSize) := by
      have := requestBatch_pos t.manifest.chunkSize
      omega
    have hgo : ¬ (min budget (runtime.availableRequestSlotsAt now) = 0 ∨ !t.downloadStarted ∨
        t.state ≠ .active) := by
      rw [hstarted, hactive]
      simp
      omega
    rw [AttachmentRuntime.requests]
    rcases nextChunkRequest_cases runtime id now budget with hnone | ⟨u, hu, -, -, hcase⟩
    · exfalso
      rcases h.requestIndices hbatch with ⟨i, hi, -⟩ | ⟨hnil, hcursor, -⟩
      · rw [nextChunkRequestWithBudgetAt] at hnone
        dsimp only at hnone
        rw [hk] at hnone
        dsimp only at hnone
        rw [if_neg hgo, if_neg (by
          rw [List.isEmpty_iff]
          rintro hnil
          rw [hnil] at hi
          cases hi)] at hnone
        cases hnone
      · rw [nextChunkRequestWithBudgetAt] at hnone
        dsimp only at hnone
        rw [hk] at hnone
        dsimp only at hnone
        rw [if_neg hgo, if_pos (by rw [hnil]; rfl)] at hnone
        have hrow := congrArg (fun r : Option ChunkRequest × AttachmentRuntime =>
          r.2.incoming[id]?) hnone
        simp only [Table.getElem?_insert, if_pos, hk, Option.some.injEq] at hrow
        rw [hrow] at hcursor
        exact lt_irrefl _ hcursor
    · obtain rfl := Option.some.inj (hk.symm.trans hu)
      dsimp only at hcase
      rcases hcase with ⟨hnil, heq⟩ | ⟨hne, heq⟩
      · rw [heq]
        rcases h.requestIndices hbatch with ⟨i, hi, -⟩ | ⟨-, hcursor, hle⟩
        · rw [hnil] at hi
          cases hi
        · set u := (AttachmentRuntime.requestIndices t now (min (min budget (runtime.availableRequestSlotsAt now))
            (requestBatch t.manifest.chunkSize))).2 with hudef
          have hsame : SameData t u := sameData_requestIndices t now _
          obtain ⟨hrequested, hstill⟩ : u.requestedAt = t.requestedAt ∧
              u.downloadStarted = t.downloadStarted := requested_requestIndices t now _
          have hwanted : ∀ i, wanted u now i = wanted t now i :=
            wanted_congr hsame.chunks hrequested
          have hfirst : FirstWanted u now w :=
            ⟨by rw [hsame.manifest]; exact h.lt, by rw [hwanted]; exact h.wants,
              fun i hi => by rw [hwanted]; exact h.first i hi⟩
          have hnext : ({ runtime with incoming := runtime.incoming.insert id u } :
              AttachmentRuntime).incoming[id]? = some u := by
            rw [Table.getElem?_insert, if_pos rfl]
          obtain ⟨request, hmem, i, hi, hlt, hw⟩ := ih hnext (hstill.trans hstarted) (hsame.state.trans hactive) hfirst
            (hslots.trans_le (availableRequestSlotsAt_insert hk hsame hrequested hstill))
            (fun b hb => hbudgets b (List.mem_cons_of_mem _ hb)) (by omega)
          exact ⟨request, List.mem_cons_of_mem _ hmem, i, hi, hsame.manifest ▸ hlt, hwanted i ▸ hw⟩
      · rw [heq]
        rcases h.requestIndices hbatch with hsome | ⟨hnil, -⟩
        · exact ⟨_, List.mem_cons_self, hsome⟩
        · exact absurd hnil hne

end AttachmentRuntime

/-- As long as a chunk of a file that goes on is missing and not in flight, such a chunk is asked for
    by one of the next calls for the file, of which there have to be one more than chunks, if no
    chunk arrives and the window is not full. Every missing chunk is at the cursor or behind it, in
    flight, or among those that are asked for again. -/
theorem no_starvation (runtime : AttachmentRuntime) (id : String) (now : Nat) (budgets : List Nat)
    (t : IncomingTransfer) (hk : runtime.incoming[id]? = some t) (hstarted : t.downloadStarted = true)
    (hactive : t.state = .active)
    (hmissing : ∃ i < t.manifest.chunkCount, wanted t now i = true)
    (hslots : 0 < runtime.availableRequestSlotsAt now) (hbudgets : ∀ budget ∈ budgets, 0 < budget)
    (hlength : budgets.length = t.manifest.chunkCount + 1) :
    (∃ request, some request ∈ requests id now budgets runtime ∧
      ∃ i ∈ request.chunkIndices, i < t.manifest.chunkCount ∧ wanted t now i = true) ∧
    ∀ i < t.manifest.chunkCount, i ∉ t.chunks → t.requestCursor ≤ i ∨ inFlight t now i = true ∨
      i ∈ (List.range t.requestCursor).filter (wanted t now) := by
  constructor
  · obtain ⟨w, hw⟩ := exists_firstWanted hmissing
    have hlt := hw.lt
    exact hw.requests hk hstarted hactive hslots hbudgets (by omega)
  · intro i _ hchunk
    by_cases hcursor : t.requestCursor ≤ i
    · exact .inl hcursor
    · cases hflight : inFlight t now i with
      | true => exact .inr (.inl rfl)
      | false =>
        refine .inr (.inr (List.mem_filter.2 ⟨List.mem_range.2 (not_le.1 hcursor), ?_⟩))
        rw [wanted, hflight]
        simpa using hchunk

/-- A file of two chunks of which the cursor has passed the end is asked for. -/
theorem no_starvation_two :
    let t : IncomingTransfer := ⟨twoChunks, .replicate _ 1, .replicate _ 2, ∅, .active, true, 2, ∅, some 1⟩
    let runtime : AttachmentRuntime :=
      { incoming := (∅ : Std.ExtTreeMap String IncomingTransfer compare).insert "f" t }
    ∃ request, some request ∈ requests "f" 0 [1, 1, 1] runtime ∧
      ∃ i ∈ request.chunkIndices, i < 2 ∧ wanted t 0 i = true := by
  intro t runtime
  have hk : runtime.incoming["f"]? = some t := Std.ExtTreeMap.getElem?_insert_self
  have hwanted : wanted t 0 0 = true := by
    simp [wanted, inFlight, t]
  have hslots : 0 < runtime.availableRequestSlotsAt 0 := by
    have hzero : inFlightOf 0 t = 0 := inFlightOf_unrequested rfl
    have hnone : { ({} : AttachmentRuntime) with
        incoming := ({} : AttachmentRuntime).incoming.insert "f" t }.inFlightCount 0 ≤
          ({} : AttachmentRuntime).inFlightCount 0 + 0 :=
      inFlightCount_insert (by rw [hzero]; exact Nat.zero_le _)
    change runtime.inFlightCount 0 ≤ _ at hnone
    have hempty : ({} : AttachmentRuntime).inFlightCount 0 = 0 := inFlightCount_empty 0
    rw [availableRequestSlotsAt_eq]
    have hmax : maxRequestBatch = 256 := rfl
    omega
  exact (no_starvation runtime "f" 0 [1, 1, 1] t hk rfl rfl ⟨0, by decide, hwanted⟩ hslots
    (by decide) rfl).1

end Mosh.Attachment
