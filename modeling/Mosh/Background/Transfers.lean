import Mosh.Background.Notifications
import Mosh.Attachment.Runtime
import Mosh.Library.Eviction
import Mosh.Library.Checked
import Mosh.Library.Hex

/-!
# Transfers the user asked for

What the user sends and downloads is written down before the operating system lets it run
(`persistence/user_transfers.rs`): a record with its view, its manifest and its receivers, and a row
for every chunk of a download. The operating system is only told of the current transfers
(`user_transfers/current.rs`), a second table of views: all that may run, and the newest of the
others.

* `Indexed.run`: the second table holds the views of the records, all of those that may run, and
  not many of the others;
* `Counted.run`: a download counts the bytes of its chunks, as long as it is not bound to a
  manifest that counts them otherwise;
* `current_index_exact`: both, over all runs.
-/

namespace Mosh.Background

open Attachment Checked Deletion
open Run (Runs)
open Std (ExtTreeMap)

/-! ## Records -/

inductive UserTransferDirection
  | upload | download
  deriving DecidableEq, Repr

inductive UserTransferState
  | prepared | waitingReceiver | waitingExecution | running | paused | complete | failed | cancelled
  deriving DecidableEq, Repr

/-- What the app and the operating system are told about a transfer. -/
structure UserTransfer where
  id : String
  target : BridgeConversationRef
  attachmentId : Option String
  direction : UserTransferDirection
  state : UserTransferState
  completedBytes : Nat
  totalBytes : Nat
  revision : Nat
  deriving DecidableEq, Repr

/-- A device that asked for an upload. -/
structure Receiver where
  expiresMs : Nat
  complete : Bool
  deriving DecidableEq, Repr

structure TransferRecord where
  view : UserTransfer
  manifest : Option AttachmentManifest
  receivers : ExtTreeMap String Receiver
  deriving DecidableEq

/-- A row of the second table. -/
structure Current where
  view : UserTransfer
  updatedMs : Nat
  deriving DecidableEq, Repr

/-- A transfer that the operating system need not run. -/
def quiescent (state : UserTransferState) : Bool :=
  !(state = .running || state = .waitingExecution || state = .paused)

/-- How many transfers there is room for in the second table beside a quiescent one. -/
def quietRoom : Nat := 63

/-- How many receivers an upload may have at a time. -/
def maxReceivers : Nat := 64

/-- How long a chunk of a file is, as the manifest says. -/
def chunkLength (manifest : AttachmentManifest) (index : Nat) : Nat :=
  min manifest.chunkSize (manifest.totalSize - index * manifest.chunkSize)

/-- The row of a transfer: a transfer is known by "transfer-" and sixteen bytes in digits. -/
def key (id : String) : Except String String := do
  let suffix ← getOr "invalid transfer identity" (id.toList.dropPrefix? "transfer-".toList)
  check "invalid transfer identity" (suffix.length = 32 && suffix.all fun ch =>
    ch.isDigit || ('a' ≤ ch && ch ≤ 'f'))
  .ok id

/-! ## The tables -/

/-- The rows of the transfers. The rows that share a prefix in the source are a table of their own
    here, and those of the chunks are under the transfer first; `marked` logs the transfers that
    were written as complete. -/
structure TransferLedger where
  records : ExtTreeMap String TransferRecord := ∅
  current : ExtTreeMap String Current := ∅
  chunks : ExtTreeMap String (ExtTreeMap Nat ChunkFrame) := ∅
  marked : List String := []

namespace TransferLedger

def userTransfers (s : TransferLedger) : List UserTransfer := s.records.toList.map (·.2.view)

def currentUserTransfers (s : TransferLedger) : List UserTransfer :=
  s.current.toList.map (·.2.view)

def userTransferChunks (s : TransferLedger) (id : String) : ExtTreeMap Nat ChunkFrame :=
  s.chunks[id]?.getD ∅

/-- A view is put into the second table; the oldest of the other quiescent ones go when there are
    too many of them. -/
def writeCurrentTransfer (s : TransferLedger) (view : UserTransfer) (now : Nat) : TransferLedger :=
  let current := s.current.insert view.id { view, updatedMs := now }
  { s with
    current :=
      if quiescent view.state then
        Eviction.evict (fun row => quiescent row.2.view.state && row.2.view.id ≠ view.id)
          Current.updatedMs quietRoom current
      else current }

/-- A record is written, with its view in the second table. -/
def put (s : TransferLedger) (record : TransferRecord) (now : Nat) : TransferLedger :=
  let records := s.records.insert record.view.id record
  let marked :=
    if record.view.state = .complete then record.view.id :: s.marked else s.marked
  writeCurrentTransfer { s with records, marked } record.view now

/-- The record with the next revision. -/
def nextRevision (record : TransferRecord) : Except String TransferRecord := do
  check "transfer revision exhausted" (record.view.revision + 1 < 2 ^ 64)
  .ok { record with view := { record.view with revision := record.view.revision + 1 } }

/-- The first transfer of an attachment. -/
def matchingUserTransfer (s : TransferLedger) (target : BridgeConversationRef)
    (direction : UserTransferDirection) (attachment : Option String) : Option TransferRecord :=
  attachment.bind fun attachment => (s.records.toList.map (·.2)).find? fun record =>
    record.view.target = target && record.view.direction = direction &&
      record.view.attachmentId = some attachment

/-- The record of a transfer that was not known. -/
def newRecord (target : BridgeConversationRef) (direction : UserTransferDirection)
    (attachmentId : Option String) (totalBytes : Nat) (draw : Vector UInt8 16) :
    TransferRecord where
  view := {
    id := "transfer-" ++ Hex.encode draw.toList
    target, attachmentId, direction, totalBytes
    state := .prepared
    completedBytes := 0
    revision := 0 }
  manifest := none
  receivers := ∅

def prepareUserTransfer (s : TransferLedger) (target : BridgeConversationRef)
    (direction : UserTransferDirection) (attachmentId : Option String) (totalBytes : Nat)
    (draw : Vector UInt8 16) (now : Nat) : Except String (UserTransfer × TransferLedger) := do
  check "invalid user attachment admission" (target.id ≠ "" && target.id.utf8ByteSize ≤ 512 &&
    totalBytes ≠ 0 && totalBytes ≤ maxAttachmentSize &&
      !(direction = .download && attachmentId.all (· = "")))
  let existing := s.matchingUserTransfer target direction attachmentId
  check "upload has no local Send admission"
    !(direction = .upload && attachmentId.isSome && existing.isNone)
  let record := existing.getD (newRecord target direction attachmentId totalBytes draw)
  check "transfer size changed" (record.view.totalBytes = totalBytes)
  let record ← nextRevision { record with view := { record.view with state := .prepared } }
  let _ ← key record.view.id
  .ok (record.view, s.put record now)

/-- A record is changed. A change that leaves it as it was is not written. -/
def updateUserTransfer (s : TransferLedger) (id : String) (now : Nat)
    (update : TransferRecord → Except String TransferRecord) : Except String TransferLedger := do
  let row ← key id
  let record ← getOr "unknown user attachment admission" s.records[row]?
  let record' ← update record
  if record' = record then
    .ok s
  else
    let record' ← nextRevision record'
    .ok (s.put record' now)

/-- The record may be bound to the manifest. -/
def bindable (record : TransferRecord) (target : BridgeConversationRef)
    (manifest : AttachmentManifest) : Bool :=
  record.view.target = target && record.view.totalBytes = manifest.totalSize &&
    record.view.attachmentId.all (· = manifest.attachmentId) &&
      record.manifest.all (·.contentHash = manifest.contentHash)

def bindUserTransfer (s : TransferLedger) (id : String) (target : BridgeConversationRef)
    (manifest : AttachmentManifest) (now : Nat) : Except String TransferLedger :=
  s.updateUserTransfer id now fun record => do
    check "attachment admission binding mismatch" (bindable record target manifest)
    .ok { record with
      manifest := some manifest
      view := { record.view with
        attachmentId := some manifest.attachmentId
        state := if record.view.direction = .upload then .waitingReceiver else .waitingExecution } }

def setUserTransferState (s : TransferLedger) (id : String) (state : UserTransferState)
    (now : Nat) : Except String TransferLedger :=
  s.updateUserTransfer id now fun record =>
    .ok { record with view := { record.view with
      state
      completedBytes :=
        if state = .complete then record.view.totalBytes else record.view.completedBytes } }

/-- An upload that was not cancelled. -/
def uploading (record : TransferRecord) : Bool :=
  record.view.direction = .upload && record.view.state ≠ .cancelled

def rememberUserTransferReceiver (s : TransferLedger) (id receiver token : String)
    (expiresMs : Nat) (complete : Bool) (now : Nat) : Except String TransferLedger :=
  let key := receiver ++ "/" ++ token
  s.updateUserTransfer id now fun record => do
    check "upload is not admitted" (uploading record)
    if complete then
      let receipt ← getOr "unknown receiver request" record.receivers[key]?
      check "receiver request expired" (now ≤ receipt.expiresMs)
      let receivers := record.receivers.insert key { receipt with complete := true }
      if receivers.toList.all fun row => decide (row.2.expiresMs < now) || row.2.complete then
        .ok { record with
          receivers
          view := { record.view with
            state := .complete, completedBytes := record.view.totalBytes } }
      else .ok { record with receivers }
    else
      let receivers := record.receivers.filter fun _ receiver => decide (now ≤ receiver.expiresMs)
      check "too many simultaneous transfer receivers"
        (receivers.size < maxReceivers || receivers.contains key)
      .ok { record with receivers := receivers.insert key { expiresMs, complete := false } }

def recordUserUploadProgress (s : TransferLedger) (id : String) (bytes : Nat) (complete : Bool)
    (now : Nat) : Except String TransferLedger :=
  s.updateUserTransfer id now fun record => do
    check "upload is not admitted" (uploading record)
    .ok { record with view := { record.view with
      completedBytes := min bytes record.view.totalBytes
      state := if complete then .complete else .running } }

/-- One chunk is stored, if it is not there yet. `added` counts the bytes that are new. -/
def saveFrame (manifest : AttachmentManifest) :
    Nat × ExtTreeMap Nat ChunkFrame → ChunkFrame → Except String (Nat × ExtTreeMap Nat ChunkFrame)
  | (added, rows), frame => do
    check "invalid user transfer chunk binding"
      (manifest.attachmentId = frame.attachmentId && frame.chunkIndex < manifest.chunkCount)
    if rows.contains frame.chunkIndex then
      .ok (added, rows)
    else
      .ok (added + chunkLength manifest frame.chunkIndex, rows.insert frame.chunkIndex frame)

def saveUserTransferChunks (s : TransferLedger) (id : String) (frames : List ChunkFrame)
    (now : Nat) : Except String TransferLedger := do
  let row ← key id
  let record ← getOr "unknown user transfer checkpoint" s.records[row]?
  let manifest ← getOr "unbound user transfer" record.manifest
  check "invalid user transfer chunk binding" (record.view.direction = .download &&
    !(record.view.state = .cancelled || record.view.state = .complete))
  let (added, rows) ← frames.foldlM (saveFrame manifest) (0, s.userTransferChunks id)
  let s := { s with chunks := s.chunks.insert id rows }
  if added = 0 then
    .ok s
  else
    -- The counter of the source saturates.
    let completed := min (min (record.view.completedBytes + added) (2 ^ 64 - 1))
      record.view.totalBytes
    let record ← nextRevision
      { record with view := { record.view with completedBytes := completed } }
    .ok (s.put record now)

/-- A transfer is gone from all tables. -/
def dropTransfer (s : TransferLedger) (id : String) : TransferLedger where
  records := s.records.erase id
  current := s.current.erase id
  chunks := s.chunks.erase id
  marked := s.marked.filter (· ≠ id)

def removeUserTransfer (s : TransferLedger) (id : String) : Except String TransferLedger := do
  let row ← key id
  .ok (s.dropTransfer row)

def deleteConversationTransfers (s : TransferLedger) (kind : Kind) (id : String) : TransferLedger :=
  ((s.userTransfers.filter fun view => view.target.kind = kind && view.target.id = id).map
    (·.id)).foldl dropTransfer s

/-- At startup, the transfers that may run are put into the second table if they are not there. -/
def restoreCurrentTransferIndex (s : TransferLedger) (now : Nat) : TransferLedger :=
  let present := s.currentUserTransfers.map (·.id)
  (s.userTransfers.filter fun view => !quiescent view.state && !present.contains view.id).foldl
    (fun s view => s.writeCurrentTransfer view now) s

/-! ## What the writes do -/

variable {s s' : TransferLedger} {view : UserTransfer} {record : TransferRecord} {id : String}
  {now : Nat}

theorem key_eq_ok {row : String} (h : key id = .ok row) : row = id := by
  simp only [key, bind_eq_ok, check_eq_ok, Except.ok.injEq] at h
  obtain ⟨_, _, _, _, rfl⟩ := h
  rfl

/-- What is in the second table is the view that was written or was there before. -/
theorem current_of_write {a : String} {c : Current}
    (h : (s.writeCurrentTransfer view now).current[a]? = some c) :
    if view.id = a then c.view = view else s.current[a]? = some c := by
  have hinsert : (s.current.insert view.id { view, updatedMs := now })[a]? = some c := by
    simp only [writeCurrentTransfer] at h
    split at h
    · exact Eviction.getElem?_of_evict h
    · exact h
  rw [Table.getElem?_insert] at hinsert
  split at hinsert
  · next heq => rw [if_pos heq, ← Option.some.inj hinsert]
  · next hne => rwa [if_neg hne]

/-- The view that was written is in the second table, and so are those of the transfers that may
    run. -/
theorem current_write_of_live {a : String} {c : Current}
    (h : (s.current.insert view.id { view, updatedMs := now })[a]? = some c)
    (hlive : view.id = c.view.id ∨ quiescent c.view.state = false) :
    (s.writeCurrentTransfer view now).current[a]? = some c := by
  simp only [writeCurrentTransfer]
  split
  · refine Eviction.getElem?_evict_of_other h ?_
    rcases hlive with heq | hlive
    · simp [heq]
    · simp [hlive]
  · exact h

theorem records_put (s : TransferLedger) (record : TransferRecord) (now : Nat) :
    (s.put record now).records = s.records.insert record.view.id record := rfl

theorem chunks_put (s : TransferLedger) (record : TransferRecord) (now : Nat) (id : String) :
    (s.put record now).userTransferChunks id = s.userTransferChunks id := rfl

theorem mem_marked_put : id ∈ (s.put record now).marked ↔
    id ∈ s.marked ∨ record.view.state = .complete ∧ record.view.id = id := by
  simp only [put, writeCurrentTransfer]
  split
  · next hstate => simp [hstate, or_comm, eq_comm]
  · next hstate => simp [hstate]

/-- A change that is written, or one that leaves the record as it was. -/
theorem updateUserTransfer_cases {update : TransferRecord → Except String TransferRecord}
    (h : s.updateUserTransfer id now update = .ok s') : s' = s ∨
      ∃ record record', s.records[id]? = some record ∧ update record = .ok record' ∧
        s' = s.put { record' with view := { record'.view with
          revision := record'.view.revision + 1 } } now := by
  simp only [updateUserTransfer, bind_eq_ok, getOr_eq_ok] at h
  obtain ⟨row, hrow, record, hrecord, record', hupdate, h⟩ := h
  obtain rfl := key_eq_ok hrow
  split at h
  · exact .inl (Except.ok.inj h).symm
  · simp only [nextRevision, bind_eq_ok, check_eq_ok, Except.ok.injEq] at h
    obtain ⟨_, ⟨_, _, rfl⟩, rfl⟩ := h
    exact .inr ⟨record, record', hrecord, hupdate, rfl⟩

/-! ## The second table -/

/-- The second table shows the records: a view of it is that of a record, what may run is in it, and
    not many of the others are. -/
structure Indexed (s : TransferLedger) : Prop where
  ids : ∀ {id : String} {record : TransferRecord}, s.records[id]? = some record →
    record.view.id = id
  views : ∀ {id : String} {c : Current}, s.current[id]? = some c →
    ∃ record, s.records[id]? = some record ∧ record.view = c.view
  live : ∀ {id : String} {record : TransferRecord}, s.records[id]? = some record →
    quiescent record.view.state = false → ∃ c, s.current[id]? = some c
  bounded : s.current.toList.countP (fun row => quiescent row.2.view.state) ≤ quietRoom + 1

/-- The rows of the second table are under their own ids. -/
theorem Indexed.current_id (h : Indexed s) {c : Current} (hc : s.current[id]? = some c) :
    c.view.id = id := by
  obtain ⟨record, hrecord, hview⟩ := h.views hc
  rw [← hview]
  exact h.ids hrecord

/-- A record is written. -/
theorem Indexed.put (h : Indexed s) (record : TransferRecord) (now : Nat) :
    Indexed (s.put record now) := by
  have hids {id : String} {r : TransferRecord} (hr : (s.put record now).records[id]? = some r) :
      r.view.id = id := by
    rw [records_put, Table.getElem?_insert] at hr
    split at hr
    · next heq => rwa [← Option.some.inj hr]
    · exact h.ids hr
  have hviews {id : String} {c : Current} (hc : (s.put record now).current[id]? = some c) :
      ∃ r, (s.put record now).records[id]? = some r ∧ r.view = c.view := by
    have hcases := current_of_write hc
    rw [records_put, Table.getElem?_insert]
    split at hcases
    · next heq => exact ⟨record, if_pos heq, hcases.symm⟩
    · next hne =>
      rw [if_neg hne]
      exact h.views hcases
  refine ⟨hids, hviews, fun {id r} hr hlive => ?_, ?_⟩
  · rw [records_put, Table.getElem?_insert] at hr
    split at hr
    · next heq =>
      subst heq
      exact ⟨_, current_write_of_live (by rw [Table.getElem?_insert, if_pos rfl]) (.inl rfl)⟩
    · next hne =>
      obtain ⟨c, hc⟩ := h.live hr hlive
      obtain ⟨r', hr', hview⟩ := h.views hc
      obtain rfl := Option.some.inj (hr.symm.trans hr')
      refine ⟨c, current_write_of_live ?_ (.inr (hview ▸ hlive))⟩
      rw [Table.getElem?_insert, if_neg hne]
      exact hc
  · -- The rows of the other transfers, and the row that is written.
    have hself : (s.put record now).current[record.view.id]? = some ⟨record.view, now⟩ :=
      current_write_of_live (by rw [Table.getElem?_insert, if_pos rfl]) (.inl rfl)
    have hperm := Table.perm_toList_of_some hself
    rw [hperm.countP_eq, List.countP_cons, List.countP_filter]
    have hrest : (s.put record now).current.toList.countP
        (fun row => quiescent row.2.view.state && decide (row.1 ≠ record.view.id)) ≤
          if quiescent record.view.state then quietRoom else quietRoom + 1 := by
      split
      · next hquiet =>
        -- There is room for the others.
        have hcurrent : (s.put record now).current = _ := if_pos hquiet
        refine le_trans (List.countP_mono_left fun row hrow hkind => ?_)
          (hcurrent ▸ Eviction.countP_evict_le)
        have hid : row.2.view.id = row.1 := by
          obtain ⟨r, hr, hview⟩ := hviews (ExtTreeMap.mem_toList_iff_getElem?_eq_some.1 hrow)
          rw [← hview]
          exact hids hr
        rw [hid]
        exact hkind
      · next hlive =>
        have hcurrent : (s.put record now).current = _ := if_neg hlive
        rw [hcurrent, (Table.perm_toList_insert _ _ _).countP_eq, List.countP_cons]
        simp only [ne_eq, not_true_eq_false, decide_false, Bool.and_false, Bool.false_eq_true,
          if_false, add_zero]
        refine le_trans (List.Sublist.countP_le List.filter_sublist) (le_trans ?_ h.bounded)
        exact List.countP_mono_left fun row _ hkind => (Bool.and_eq_true_iff.1 hkind).1
    split at hrest
    · next hquiet => rw [if_pos hquiet]; omega
    · next hlive => rw [if_neg hlive]; omega

/-- A transfer is gone. -/
theorem Indexed.dropTransfer (h : Indexed s) (id : String) : Indexed (s.dropTransfer id) := by
  have hrecords {a : String} {r : TransferRecord}
      (hr : (s.dropTransfer id).records[a]? = some r) : id ≠ a ∧ s.records[a]? = some r := by
    rw [TransferLedger.dropTransfer, Table.getElem?_erase] at hr
    split at hr
    · cases hr
    · next hne => exact ⟨hne, hr⟩
  constructor
  · exact fun hr => h.ids (hrecords hr).2
  · intro a c hc
    rw [TransferLedger.dropTransfer, Table.getElem?_erase] at hc
    rw [TransferLedger.dropTransfer, Table.getElem?_erase]
    split at hc
    · cases hc
    · next hne =>
      rw [if_neg hne]
      exact h.views hc
  · intro a r hr hlive
    obtain ⟨hne, hr⟩ := hrecords hr
    obtain ⟨c, hc⟩ := h.live hr hlive
    refine ⟨c, ?_⟩
    rw [TransferLedger.dropTransfer, Table.getElem?_erase, if_neg hne]
    exact hc
  · exact (Eviction.countP_erase_le _ _ _).trans h.bounded

/-- At startup there is nothing to put into the second table. -/
theorem restoreCurrentTransferIndex_eq (h : Indexed s) (now : Nat) :
    s.restoreCurrentTransferIndex now = s := by
  have hnone : (s.userTransfers.filter fun view => !quiescent view.state &&
      !(s.currentUserTransfers.map (·.id)).contains view.id) = [] := by
    refine List.filter_eq_nil_iff.2 fun view hview hmissing => ?_
    obtain ⟨⟨id, record⟩, hrow, rfl⟩ := List.mem_map.1 hview
    have hrecord := ExtTreeMap.mem_toList_iff_getElem?_eq_some.1 hrow
    simp only [Bool.and_eq_true, Bool.not_eq_true', List.contains_eq_mem, decide_eq_false_iff_not]
      at hmissing
    obtain ⟨hlive, hnot⟩ := hmissing
    obtain ⟨c, hc⟩ := h.live hrecord hlive
    refine hnot (List.mem_map.2 ⟨c.view, List.mem_map.2 ⟨(id, c), ?_, rfl⟩, ?_⟩)
    · exact ExtTreeMap.mem_toList_iff_getElem?_eq_some.2 hc
    · rw [h.current_id hc, h.ids hrecord]
  simp only [restoreCurrentTransferIndex, hnone, List.foldl_nil]

/-! ## The bytes of a download -/

/-- The bytes of chunks, as the manifest says. -/
def storedBytes (manifest : AttachmentManifest) (rows : ExtTreeMap Nat ChunkFrame) : Nat :=
  (rows.toList.map fun row => chunkLength manifest row.1).sum

variable {manifest : AttachmentManifest} {rows : ExtTreeMap Nat ChunkFrame}

theorem storedBytes_empty : storedBytes manifest ∅ = 0 := rfl

/-- A chunk that was not there adds its length. -/
theorem storedBytes_insert {index : Nat} (frame : ChunkFrame) (h : rows[index]? = none) :
    storedBytes manifest (rows.insert index frame) =
      storedBytes manifest rows + chunkLength manifest index := by
  rw [storedBytes, ((Table.perm_toList_insert rows index frame).map _).sum_eq, List.map_cons,
    List.sum_cons, Table.filter_toList_of_none h, Nat.add_comm, storedBytes]

/-- The first chunks of a file are its first bytes. -/
theorem sum_chunkLength (manifest : AttachmentManifest) (n : Nat) :
    ∑ index ∈ Finset.range n, chunkLength manifest index =
      min (n * manifest.chunkSize) manifest.totalSize := by
  induction n with
  | zero => simp
  | succ n ih =>
    rw [Finset.sum_range_succ, ih, chunkLength, Nat.succ_mul]
    omega

/-- Chunks with different indices are no more than the file. -/
theorem storedBytes_le (manifest : AttachmentManifest) (rows : ExtTreeMap Nat ChunkFrame) :
    storedBytes manifest rows ≤ manifest.totalSize := by
  have hnodup : (rows.toList.map (·.1)).Nodup := by
    rw [ExtTreeMap.map_fst_toList_eq_keys]
    exact ExtTreeMap.nodup_keys
  obtain ⟨n, hn⟩ : ∃ n, (rows.toList.map (·.1)).toFinset ⊆ Finset.range n :=
    Finset.exists_nat_subset_range _
  calc storedBytes manifest rows
      = ∑ index ∈ (rows.toList.map (·.1)).toFinset, chunkLength manifest index := by
        rw [List.sum_toFinset _ hnodup, List.map_map, storedBytes]
        rfl
    _ ≤ ∑ index ∈ Finset.range n, chunkLength manifest index :=
        Finset.sum_le_sum_of_subset hn
    _ ≤ manifest.totalSize := by
        rw [sum_chunkLength]
        exact min_le_right _ _

/-- What is added to the count is what is added to the rows. -/
theorem saveFrame_added {frame : ChunkFrame} {acc acc' : Nat × ExtTreeMap Nat ChunkFrame}
    (h : saveFrame manifest acc frame = .ok acc') :
    acc'.1 + storedBytes manifest acc.2 = acc.1 + storedBytes manifest acc'.2 := by
  obtain ⟨added, rows⟩ := acc
  simp only [saveFrame, bind_eq_ok] at h
  obtain ⟨_, _, h⟩ := h
  split at h
  · obtain rfl := Except.ok.inj h
    rfl
  · next hnew =>
    obtain rfl := Except.ok.inj h
    have hnone : rows[frame.chunkIndex]? = none := by
      rw [ExtTreeMap.getElem?_eq_none]
      rwa [← ExtTreeMap.contains_iff_mem]
    simp only [storedBytes_insert frame hnone]
    omega

/-- What a record says about the chunks of its transfer. -/
structure Fits (record : TransferRecord) (rows : ExtTreeMap Nat ChunkFrame) (marked : Prop) :
    Prop where
  sized : record.view.totalBytes ≤ maxAttachmentSize
  within : record.view.completedBytes ≤ record.view.totalBytes
  bound : ∀ manifest, record.manifest = some manifest →
    manifest.totalSize = record.view.totalBytes
  unbound : record.manifest = none → rows = ∅
  summed : record.view.direction = .download → ¬ marked →
    record.view.completedBytes = record.manifest.elim 0 (storedBytes · rows)

/-- Every record fits its chunks, and there are no others. -/
structure Counted (s : TransferLedger) : Prop where
  fits : ∀ {id : String} {record : TransferRecord}, s.records[id]? = some record →
    Fits record (s.userTransferChunks id) (id ∈ s.marked)
  owned : ∀ {id : String}, s.records[id]? = none → s.userTransferChunks id = ∅

/-- A record is written, in a ledger where the others fit their chunks. -/
theorem counted_put {record : TransferRecord}
    (hothers : ∀ {id r}, record.view.id ≠ id → s.records[id]? = some r →
      Fits r (s.userTransferChunks id) (id ∈ s.marked))
    (howned : ∀ {id}, record.view.id ≠ id → s.records[id]? = none → s.userTransferChunks id = ∅)
    (hrecord : Fits record (s.userTransferChunks record.view.id)
      (record.view.id ∈ s.marked ∨ record.view.state = .complete)) :
    Counted (s.put record now) := by
  constructor
  · intro id r hr
    rw [records_put, Table.getElem?_insert] at hr
    rw [chunks_put, mem_marked_put]
    split at hr
    · next heq =>
      subst heq
      obtain rfl := Option.some.inj hr
      simpa using hrecord
    · next hne => simpa [hne] using hothers hne hr
  · intro id hnone
    rw [records_put, Table.getElem?_insert] at hnone
    rw [chunks_put]
    split at hnone
    · cases hnone
    · next hne => exact howned hne hnone

/-- The record of an upload says little about chunks. -/
theorem Fits.of_upload {record' : TransferRecord} {marked marked' : Prop}
    (h : Fits record rows marked) (hdirection : record'.view.direction = .upload)
    (htotal : record'.view.totalBytes = record.view.totalBytes)
    (hmanifest : record'.manifest = record.manifest)
    (hwithin : record'.view.completedBytes ≤ record'.view.totalBytes) :
    Fits record' rows marked' where
  sized := htotal ▸ h.sized
  within := hwithin
  bound manifest hbound := htotal ▸ h.bound manifest (hmanifest ▸ hbound)
  unbound hunbound := h.unbound (hmanifest ▸ hunbound)
  summed hdown _ := by
    rw [hdirection] at hdown
    cases hdown

/-- A record is changed so that it fits its chunks again. -/
theorem Counted.update {update : TransferRecord → Except String TransferRecord}
    (hindexed : Indexed s) (h : Counted s) (hupdate : s.updateUserTransfer id now update = .ok s')
    (hfits : ∀ {record record'}, s.records[id]? = some record → update record = .ok record' →
      record'.view.id = record.view.id ∧ Fits record' (s.userTransferChunks id)
        (id ∈ s.marked ∨ record'.view.state = .complete)) :
    Counted s' := by
  obtain rfl | ⟨record, record', hrecord, hrecord', rfl⟩ := updateUserTransfer_cases hupdate
  · exact h
  · obtain ⟨hid, hfits⟩ := hfits hrecord hrecord'
    rw [hindexed.ids hrecord] at hid
    refine counted_put (fun _ => h.fits) (fun _ => h.owned) ?_
    rw [hid]
    exact ⟨hfits.sized, hfits.within, hfits.bound, hfits.unbound, hfits.summed⟩

theorem id_newRecord (target : BridgeConversationRef) (direction : UserTransferDirection)
    (attachmentId : Option String) (totalBytes : Nat) (draw : Vector UInt8 16) :
    (newRecord target direction attachmentId totalBytes draw).view.id =
      "transfer-" ++ Hex.encode draw.toList := rfl

/-- What is found is a record. -/
theorem matchingUserTransfer_some {target : BridgeConversationRef}
    {direction : UserTransferDirection} {attachment : Option String}
    (h : s.matchingUserTransfer target direction attachment = some record) :
    ∃ id : String, s.records[id]? = some record := by
  rw [matchingUserTransfer, Option.bind_eq_some_iff] at h
  obtain ⟨_, _, h⟩ := h
  obtain ⟨⟨id, _⟩, hrow, rfl⟩ := List.mem_map.1 (List.mem_of_find?_eq_some h)
  exact ⟨id, ExtTreeMap.mem_toList_iff_getElem?_eq_some.1 hrow⟩

/-- A transfer is prepared, for the first time or again. -/
theorem prepareUserTransfer_cases {target : BridgeConversationRef}
    {direction : UserTransferDirection} {attachmentId : Option String} {totalBytes : Nat}
    {draw : Vector UInt8 16}
    (h : s.prepareUserTransfer target direction attachmentId totalBytes draw now = .ok (view, s')) :
    ∃ record, (record = newRecord target direction attachmentId totalBytes draw ∧
        totalBytes ≤ maxAttachmentSize ∨ ∃ id : String, s.records[id]? = some record) ∧
      s' = s.put { record with view := { record.view with
        state := .prepared, revision := record.view.revision + 1 } } now := by
  simp only [prepareUserTransfer, nextRevision, bind_eq_ok, check_eq_ok, Except.ok.injEq,
    Prod.mk.injEq] at h
  obtain ⟨_, hadmission, _, _, _, _, _, ⟨_, _, rfl⟩, _, _, _, rfl⟩ := h
  refine ⟨_, ?_, rfl⟩
  rcases hexisting : s.matchingUserTransfer target direction attachmentId with - | record
  · simp only [Bool.and_eq_true, decide_eq_true_eq] at hadmission
    exact .inl ⟨rfl, hadmission.1.2⟩
  · exact .inr (matchingUserTransfer_some hexisting)

theorem Counted.prepare (hindexed : Indexed s) (h : Counted s) {target : BridgeConversationRef}
    {direction : UserTransferDirection} {attachmentId : Option String} {totalBytes : Nat}
    {draw : Vector UInt8 16} (hnew : s.records["transfer-" ++ Hex.encode draw.toList]? = none)
    (hprepare : s.prepareUserTransfer target direction attachmentId totalBytes draw now =
      .ok (view, s')) : Counted s' := by
  obtain ⟨record, hrecord, rfl⟩ := prepareUserTransfer_cases hprepare
  refine counted_put (fun _ => h.fits) (fun _ => h.owned) ?_
  rcases hrecord with ⟨rfl, hsize⟩ | ⟨id, hrecord⟩
  · have hrows := h.owned hnew
    simp only [id_newRecord, hrows]
    exact ⟨hsize, Nat.zero_le _, fun _ hbound => (nomatch hbound), fun _ => rfl, fun _ _ => rfl⟩
  · have hfits := h.fits hrecord
    simp only [hindexed.ids hrecord]
    exact ⟨hfits.sized, hfits.within, hfits.bound, hfits.unbound, fun hdown hnot =>
      hfits.summed hdown fun hmem => hnot (.inl hmem)⟩

theorem chunks_insert (s : TransferLedger) (id a : String) (rows : ExtTreeMap Nat ChunkFrame) :
    ({ s with chunks := s.chunks.insert id rows } : TransferLedger).userTransferChunks a =
      if id = a then rows else s.userTransferChunks a := by
  rw [userTransferChunks, Table.getElem?_insert]
  split <;> rfl

/-- What the source adds up while it stores chunks is how much more is stored. -/
theorem foldlM_saveFrame {frames : List ChunkFrame} {added : Nat}
    {rows' : ExtTreeMap Nat ChunkFrame}
    (h : frames.foldlM (saveFrame manifest) (0, rows) = .ok (added, rows')) :
    added + storedBytes manifest rows = storedBytes manifest rows' := by
  have hsum := foldlM_invariant
    (R := fun acc => acc.1 + storedBytes manifest rows = storedBytes manifest acc.2) h
    (fun frame _ acc acc' hacc hframe => by
      have hadded := saveFrame_added hframe
      omega)
    (Nat.zero_add _)
  exact hsum

/-- The bytes that are added to the count are those of the chunks that are new. -/
theorem Counted.save (hindexed : Indexed s) (h : Counted s) {frames : List ChunkFrame}
    (hsave : s.saveUserTransferChunks id frames now = .ok s') : Counted s' := by
  simp only [saveUserTransferChunks, bind_eq_ok, getOr_eq_ok, check_eq_ok] at hsave
  obtain ⟨row, hrow, record, hrecord, manifest, hmanifest, _, _, ⟨added, rows⟩, hframes, hsave⟩ :=
    hsave
  obtain rfl := key_eq_ok hrow
  have hfits := h.fits hrecord
  have hadded := foldlM_saveFrame hframes
  have hbound := hfits.bound manifest hmanifest
  have htotal := storedBytes_le manifest rows
  have hothers {a : String} {r : TransferRecord} (hne : row ≠ a)
      (hr : s.records[a]? = some r) : Fits r (({ s with
        chunks := s.chunks.insert row rows } : TransferLedger).userTransferChunks a)
          (a ∈ s.marked) := by
    rw [chunks_insert, if_neg hne]
    exact h.fits hr
  have howned {a : String} (hne : row ≠ a) (hnone : s.records[a]? = none) : ({ s with
      chunks := s.chunks.insert row rows } : TransferLedger).userTransferChunks a = ∅ := by
    rw [chunks_insert, if_neg hne]
    exact h.owned hnone
  have hsummed (hdown : record.view.direction = .download) (hmarked : row ∉ s.marked) :
      record.view.completedBytes + added = storedBytes manifest rows := by
    have hcount := hfits.summed hdown hmarked
    rw [hmanifest, Option.elim_some] at hcount
    omega
  dsimp only at hsave
  split at hsave
  · next hzero =>
    obtain rfl := Except.ok.inj hsave
    refine ⟨fun {a r} hr => ?_, fun {a} hnone => ?_⟩
    · by_cases hne : row = a
      · subst hne
        obtain rfl := Option.some.inj (hrecord.symm.trans hr)
        rw [chunks_insert, if_pos rfl]
        refine ⟨hfits.sized, hfits.within, hfits.bound, fun hunbound => ?_, fun hdown hmarked => ?_⟩
        · rw [hmanifest] at hunbound
          cases hunbound
        · rw [hmanifest, Option.elim_some, ← hsummed hdown hmarked, hzero, Nat.add_zero]
      · exact hothers hne hr
    · refine howned (fun heq => ?_) hnone
      rw [heq, hnone] at hrecord
      cases hrecord
  · simp only [nextRevision, bind_eq_ok, check_eq_ok, Except.ok.injEq] at hsave
    obtain ⟨_, ⟨_, _, rfl⟩, rfl⟩ := hsave
    have hid := hindexed.ids hrecord
    have hsized := hfits.sized
    have hmax : maxAttachmentSize ≤ 2 ^ 64 - 1 := by decide
    refine counted_put (fun hne => hothers (hid ▸ hne)) (fun hne => howned (hid ▸ hne)) ?_
    simp only [hid, chunks_insert, if_pos]
    refine ⟨hsized, min_le_right _ _, hfits.bound, fun hunbound => ?_, fun hdown hmarked => ?_⟩
    · rw [hmanifest] at hunbound
      cases hunbound
    · -- Neither the counter nor the file is full.
      have hcount := hsummed hdown fun hmem => hmarked (.inl hmem)
      simp only [hmanifest, Option.elim_some]
      omega

/-- A transfer that is gone leaves nothing behind. -/
theorem Counted.dropTransfer (h : Counted s) (id : String) : Counted (s.dropTransfer id) := by
  have hrows (a : String) : (s.dropTransfer id).userTransferChunks a =
      if id = a then ∅ else s.userTransferChunks a := by
    rw [userTransferChunks, TransferLedger.dropTransfer, Table.getElem?_erase]
    split <;> rfl
  constructor
  · intro a r hr
    rw [TransferLedger.dropTransfer, Table.getElem?_erase] at hr
    split at hr
    · cases hr
    · next hne =>
      have hmarked : a ∈ (s.dropTransfer id).marked ↔ a ∈ s.marked := by
        simp [TransferLedger.dropTransfer, Ne.symm hne]
      rw [hrows, if_neg hne, hmarked]
      exact h.fits hr
  · intro a hnone
    rw [TransferLedger.dropTransfer, Table.getElem?_erase] at hnone
    rw [hrows]
    split at hnone
    · next heq => rw [if_pos heq]
    · next hne =>
      rw [if_neg hne]
      exact h.owned hnone

/-- What the removal of a transfer keeps, the removal of several does. -/
theorem foldl_dropTransfer {P : TransferLedger → Prop}
    (hdrop : ∀ s id, P s → P (s.dropTransfer id)) (ids : List String) (h : P s) :
    P (ids.foldl TransferLedger.dropTransfer s) := by
  induction ids generalizing s with
  | nil => exact h
  | cons id ids ih => exact ih (hdrop s id h)

/-! ## Runs -/

/-- What may happen to the transfers. -/
inductive Op
  | prepare (target : BridgeConversationRef) (direction : UserTransferDirection)
      (attachmentId : Option String) (totalBytes : Nat) (draw : Vector UInt8 16) (now : Nat)
  | bind (id : String) (target : BridgeConversationRef) (manifest : AttachmentManifest) (now : Nat)
  | setState (id : String) (state : UserTransferState) (now : Nat)
  | rememberReceiver (id receiver token : String) (expiresMs : Nat) (complete : Bool) (now : Nat)
  | uploadProgress (id : String) (bytes : Nat) (complete : Bool) (now : Nat)
  | saveChunks (id : String) (frames : List ChunkFrame) (now : Nat)
  | remove (id : String)
  | deleteConversation (kind : Kind) (id : String)
  | restoreIndex (now : Nat)

/-- The operation, with the tables after it. -/
def run (s : TransferLedger) : Op → Except String TransferLedger
  | .prepare target direction attachmentId totalBytes draw now => do
    let (_, s) ← s.prepareUserTransfer target direction attachmentId totalBytes draw now
    .ok s
  | .bind id target manifest now => s.bindUserTransfer id target manifest now
  | .setState id state now => s.setUserTransferState id state now
  | .rememberReceiver id receiver token expiresMs complete now =>
    s.rememberUserTransferReceiver id receiver token expiresMs complete now
  | .uploadProgress id bytes complete now => s.recordUserUploadProgress id bytes complete now
  | .saveChunks id frames now => s.saveUserTransferChunks id frames now
  | .remove id => s.removeUserTransfer id
  | .deleteConversation kind id => .ok (s.deleteConversationTransfers kind id)
  | .restoreIndex now => .ok (s.restoreCurrentTransferIndex now)

/-- A transaction that fails writes nothing. -/
def step (s : TransferLedger) (op : Op) : TransferLedger := (s.run op).toOption.getD s

/-- The draws of identities are new, and the manifests are checked where they come in
    (`registerIncoming`), so that the chunks are those of the file. -/
def Admits (s : TransferLedger) : Op → Prop
  | .prepare _ _ _ _ draw _ => s.records["transfer-" ++ Hex.encode draw.toList]? = none
  | .bind _ _ manifest _ => manifest.totalSize ≠ 0 ∧ manifest.chunkSize ≠ 0 ∧
      manifest.totalSize ≤ maxAttachmentSize ∧
        manifest.chunkCount = divCeil manifest.totalSize manifest.chunkSize
  | _ => True

/-- A download that is bound again is bound to a manifest that divides the file so that the chunks
    that are stored are as long as before, all together. -/
def KeepsLengths (s : TransferLedger) : Op → Prop
  | .bind id target manifest _ => ∀ record bound, s.records[id]? = some record →
      record.view.direction = .download → id ∉ s.marked → record.manifest = some bound →
        bindable record target manifest = true →
          storedBytes manifest (s.userTransferChunks id) =
            storedBytes bound (s.userTransferChunks id)
  | _ => True

theorem uploading_direction (h : uploading record = true) : record.view.direction = .upload := by
  simp only [uploading, Bool.and_eq_true, decide_eq_true_eq] at h
  exact h.1

theorem Indexed.update {update : TransferRecord → Except String TransferRecord} (h : Indexed s)
    (hupdate : s.updateUserTransfer id now update = .ok s') : Indexed s' := by
  obtain rfl | ⟨_, _, _, _, rfl⟩ := updateUserTransfer_cases hupdate
  · exact h
  · exact h.put _ _

theorem Indexed.run (h : Indexed s) {op : Op} (hrun : s.run op = .ok s') : Indexed s' := by
  cases op with
  | prepare target direction attachmentId totalBytes draw now =>
    obtain ⟨⟨view, _⟩, hprepare, hrun⟩ := bind_eq_ok.1 hrun
    obtain rfl := Except.ok.inj hrun
    obtain ⟨record, _, rfl⟩ := prepareUserTransfer_cases hprepare
    exact h.put _ _
  | bind id target manifest now => exact h.update hrun
  | setState id state now => exact h.update hrun
  | rememberReceiver id receiver token expiresMs complete now => exact h.update hrun
  | uploadProgress id bytes complete now => exact h.update hrun
  | saveChunks id frames now =>
    simp only [TransferLedger.run, saveUserTransferChunks, nextRevision, bind_eq_ok] at hrun
    obtain ⟨_, _, _, _, _, _, _, _, ⟨added, rows⟩, _, hrun⟩ := hrun
    -- The second table is not about the chunks.
    have hrows : Indexed { s with chunks := s.chunks.insert id rows } :=
      ⟨h.ids, h.views, h.live, h.bounded⟩
    dsimp only at hrun
    split at hrun
    · obtain rfl := Except.ok.inj hrun
      exact hrows
    · simp only [bind_eq_ok, Except.ok.injEq] at hrun
      obtain ⟨_, _, rfl⟩ := hrun
      exact hrows.put _ _
  | remove id =>
    simp only [TransferLedger.run, removeUserTransfer, bind_eq_ok, Except.ok.injEq] at hrun
    obtain ⟨_, _, rfl⟩ := hrun
    exact h.dropTransfer _
  | deleteConversation kind id =>
    obtain rfl := Except.ok.inj hrun
    exact foldl_dropTransfer (fun _ id h => h.dropTransfer id) _ h
  | restoreIndex now =>
    obtain rfl := Except.ok.inj hrun
    rwa [restoreCurrentTransferIndex_eq h]

theorem Counted.run (hindexed : Indexed s) (h : Counted s) {op : Op} (hadmits : Admits s op)
    (hkeeps : KeepsLengths s op) (hrun : s.run op = .ok s') : Counted s' := by
  cases op with
  | prepare target direction attachmentId totalBytes draw now =>
    obtain ⟨⟨view, _⟩, hprepare, hrun⟩ := bind_eq_ok.1 hrun
    obtain rfl := Except.ok.inj hrun
    exact h.prepare hindexed hadmits hprepare
  | bind id target manifest now =>
    refine h.update hindexed hrun fun {record record'} hrecord hupdate => ?_
    simp only [bind_eq_ok, check_eq_ok, Except.ok.injEq] at hupdate
    obtain ⟨_, hbindable, rfl⟩ := hupdate
    have hfits := h.fits hrecord
    refine ⟨rfl, hfits.sized, hfits.within, ?_, fun hunbound => (by cases hunbound), ?_⟩
    · rintro _ ⟨⟩
      simp only [bindable, Bool.and_eq_true, decide_eq_true_eq] at hbindable
      exact hbindable.1.1.2.symm
    · intro hdown hmarked
      have hnot : id ∉ s.marked := fun hmem => hmarked (.inl hmem)
      have hcount := hfits.summed hdown hnot
      rw [Option.elim_some]
      rcases hbound : record.manifest with - | bound
      · rw [hbound, Option.elim_none] at hcount
        rw [hfits.unbound hbound, storedBytes_empty]
        exact hcount
      · rw [hbound, Option.elim_some] at hcount
        exact hcount.trans (hkeeps record bound hrecord hdown hnot hbound hbindable).symm
  | setState id state now =>
    refine h.update hindexed hrun fun {record record'} hrecord hupdate => ?_
    obtain rfl := Except.ok.inj hupdate
    have hfits := h.fits hrecord
    refine ⟨rfl, hfits.sized, ?_, hfits.bound, hfits.unbound, fun hdown hmarked => ?_⟩
    · dsimp only
      split
      · exact le_rfl
      · exact hfits.within
    · dsimp only
      rw [if_neg fun hstate => hmarked (.inr hstate)]
      exact hfits.summed hdown fun hmem => hmarked (.inl hmem)
  | rememberReceiver id receiver token expiresMs complete now =>
    refine h.update hindexed hrun fun {record record'} hrecord hupdate => ?_
    have hfits := h.fits hrecord
    simp only [bind_eq_ok, check_eq_ok] at hupdate
    obtain ⟨_, huploading, hupdate⟩ := hupdate
    have hdirection := uploading_direction huploading
    split at hupdate
    · simp only [bind_eq_ok] at hupdate
      obtain ⟨_, _, _, _, hupdate⟩ := hupdate
      split at hupdate <;> obtain rfl := Except.ok.inj hupdate
      · exact ⟨rfl, hfits.of_upload hdirection rfl rfl le_rfl⟩
      · exact ⟨rfl, hfits.of_upload hdirection rfl rfl hfits.within⟩
    · simp only [bind_eq_ok, Except.ok.injEq] at hupdate
      obtain ⟨_, _, rfl⟩ := hupdate
      exact ⟨rfl, hfits.of_upload hdirection rfl rfl hfits.within⟩
  | uploadProgress id bytes complete now =>
    refine h.update hindexed hrun fun {record record'} hrecord hupdate => ?_
    simp only [bind_eq_ok, check_eq_ok, Except.ok.injEq] at hupdate
    obtain ⟨_, huploading, rfl⟩ := hupdate
    have hdirection := uploading_direction huploading
    exact ⟨rfl, (h.fits hrecord).of_upload hdirection rfl rfl (min_le_right _ _)⟩
  | saveChunks id frames now => exact h.save hindexed hrun
  | remove id =>
    simp only [TransferLedger.run, removeUserTransfer, bind_eq_ok, Except.ok.injEq] at hrun
    obtain ⟨_, _, rfl⟩ := hrun
    exact h.dropTransfer _
  | deleteConversation kind id =>
    obtain rfl := Except.ok.inj hrun
    exact foldl_dropTransfer (fun _ id h => h.dropTransfer id) _ h
  | restoreIndex now =>
    obtain rfl := Except.ok.inj hrun
    rwa [restoreCurrentTransferIndex_eq hindexed]

/-- Every operation keeps the second table and the counts. -/
theorem step_sound {op : Op} (hadmits : Admits s op) (hkeeps : KeepsLengths s op)
    (h : Indexed s ∧ Counted s) : Indexed (s.step op) ∧ Counted (s.step op) := by
  rcases hrun : s.run op with error | s'
  · have hstep : s.step op = s := by rw [step, hrun]; rfl
    rwa [hstep]
  · have hstep : s.step op = s' := by rw [step, hrun]; rfl
    rw [hstep]
    exact ⟨h.1.run hrun, h.2.run h.1 hadmits hkeeps hrun⟩

theorem sound_empty : Indexed {} ∧ Counted {} := by
  refine ⟨⟨fun h => (nomatch h), fun h => (nomatch h), fun h => (nomatch h), Nat.zero_le _⟩,
    ⟨fun h => (nomatch h), fun _ => rfl⟩⟩

theorem mem_userTransfers : view ∈ s.userTransfers ↔
    ∃ (id : String) (record : TransferRecord),
      s.records[id]? = some record ∧ record.view = view := by
  simp only [userTransfers, List.mem_map, Prod.exists, ExtTreeMap.mem_toList_iff_getElem?_eq_some]

theorem mem_currentUserTransfers : view ∈ s.currentUserTransfers ↔
    ∃ (id : String) (c : Current), s.current[id]? = some c ∧ c.view = view := by
  simp only [currentUserTransfers, List.mem_map, Prod.exists,
    ExtTreeMap.mem_toList_iff_getElem?_eq_some]

/-- Where the rows are under their ids, no id is there twice. -/
theorem nodup_ids {β : Type} {t : ExtTreeMap String β} (ident : β → String)
    (h : ∀ {id : String} {row : β}, t[id]? = some row → ident row = id) :
    (t.toList.map fun row => ident row.2).Nodup := by
  have hkeys : (t.toList.map fun row => ident row.2) = t.toList.map (·.1) :=
    List.map_congr_left fun row hrow => h (ExtTreeMap.mem_toList_iff_getElem?_eq_some.1 hrow)
  rw [hkeys, ExtTreeMap.map_fst_toList_eq_keys]
  exact ExtTreeMap.nodup_keys

/-- After every run of these operations in which no download with chunks is bound to a manifest that
    counts them otherwise, the current transfers are those that may run, with the views that are
    stored, and at most 64 others; and a download counts the bytes of its chunks until it is marked
    as complete, and never more than there are. -/
theorem current_index_exact {ops : List Op}
    (h : Runs step (fun s op => Admits s op ∧ KeepsLengths s op) {} ops s) :
    (∀ view ∈ s.userTransfers, quiescent view.state = false → view ∈ s.currentUserTransfers) ∧
      (∀ view ∈ s.currentUserTransfers, view ∈ s.userTransfers) ∧
      (s.currentUserTransfers.map (·.id)).Nodup ∧ (s.userTransfers.map (·.id)).Nodup ∧
      (s.currentUserTransfers.filter fun view => quiescent view.state).length ≤ 64 ∧
      ∀ (id : String) (record : TransferRecord), s.records[id]? = some record →
        record.view.id = id ∧ (record.view.direction = .download →
          record.view.completedBytes ≤ record.view.totalBytes ∧ (id ∉ s.marked →
            record.view.completedBytes =
              record.manifest.elim 0 (storedBytes · (s.userTransferChunks id)))) := by
  obtain ⟨hindexed, hcounted⟩ :=
    h.invariant (fun _ _ hguard hs => step_sound hguard.1 hguard.2 hs) sound_empty
  refine ⟨fun view hview hlive => ?_, fun view hview => ?_, ?_, ?_, ?_, fun id record hrecord =>
    ⟨hindexed.ids hrecord, fun hdown => ?_⟩⟩
  · obtain ⟨id, record, hrecord, rfl⟩ := mem_userTransfers.1 hview
    obtain ⟨c, hc⟩ := hindexed.live hrecord hlive
    obtain ⟨record', hrecord', hshown⟩ := hindexed.views hc
    obtain rfl := Option.some.inj (hrecord.symm.trans hrecord')
    exact mem_currentUserTransfers.2 ⟨id, c, hc, hshown.symm⟩
  · obtain ⟨id, c, hc, rfl⟩ := mem_currentUserTransfers.1 hview
    obtain ⟨record, hrecord, hshown⟩ := hindexed.views hc
    exact mem_userTransfers.2 ⟨id, record, hrecord, hshown⟩
  · rw [currentUserTransfers, List.map_map]
    exact nodup_ids _ fun hc => hindexed.current_id hc
  · rw [userTransfers, List.map_map]
    exact nodup_ids _ fun hrecord => hindexed.ids hrecord
  · rw [currentUserTransfers, List.filter_map, List.length_map, ← List.countP_eq_length_filter]
    exact hindexed.bounded
  · have hfits := hcounted.fits hrecord
    exact ⟨hfits.within, hfits.summed hdown⟩

/-- The identity whose bytes are all zero. -/
def zeroId : String := "transfer-00000000000000000000000000000000"

/-- A download of nine bytes in chunks of four, of which the first is stored, and then in chunks of
    two, of which the second, the third and the fourth are stored. -/
def reboundOps : List Op :=
  let target : BridgeConversationRef := ⟨.dm, "c"⟩
  let manifest (chunkSize chunkCount : Nat) : AttachmentManifest :=
    { origin := none, attachmentId := "a", contentHash := "h", fileName := "f", mime := "m"
      totalSize := 9, chunkSize, chunkCount, keyB64 := "", noncePrefixB64 := ""
      thumbnailB64 := none, voice := none, fromFingerprint := "p" }
  [.prepare target .download (some "a") 9 (Vector.replicate 16 0) 0,
    .bind zeroId target (manifest 4 3) 0, .saveChunks zeroId [⟨"a", 0, ""⟩] 0,
    .bind zeroId target (manifest 2 5) 0,
    .saveChunks zeroId [⟨"a", 1, ""⟩, ⟨"a", 2, ""⟩, ⟨"a", 3, ""⟩] 0]

/-- The first chunk of the download is stored: the count is right, and the operating system is
    told. -/
theorem current_index_exact_stored : ∃ (s : TransferLedger) (record : TransferRecord),
    s.records[zeroId]? = some record ∧ record.view.completedBytes =
      record.manifest.elim 0 (storedBytes · (s.userTransferChunks zeroId)) ∧
        record.view ∈ s.currentUserTransfers := by
  have hrun : Runs step (fun s op => Admits s op ∧ KeepsLengths s op) {} (reboundOps.take 3)
      ((reboundOps.take 3).foldl step {}) := by
    refine .cons ⟨rfl, trivial⟩ (.cons ⟨⟨by decide, by decide, by decide, by decide⟩, ?_⟩
      (.cons ⟨trivial, trivial⟩ (.nil _)))
    -- The download was not bound before.
    intro record bound hrecord _ _ hbound
    have hunbound :
        ((reboundOps.take 1).foldl step {}).records[zeroId]?.bind (·.manifest) = none := by
      decide +kernel
    have hsome : ((reboundOps.take 1).foldl step {}).records[zeroId]? = some record := hrecord
    rw [hsome, Option.bind_some, hbound] at hunbound
    cases hunbound
  have hstate : (((reboundOps.take 3).foldl step {}).records[zeroId]?.map fun record =>
      (record.view.direction, record.view.state)) = some (.download, .waitingExecution) := by
    decide +kernel
  have hmarked : zeroId ∉ ((reboundOps.take 3).foldl step {}).marked := by decide +kernel
  obtain ⟨record, hrecord, hstate⟩ := Option.map_eq_some_iff.1 hstate
  simp only [Prod.mk.injEq] at hstate
  obtain ⟨hlive, _, _, _, _, hcount⟩ := current_index_exact hrun
  refine ⟨_, record, hrecord, ((hcount zeroId record hrecord).2 hstate.1).2 hmarked,
    hlive record.view (mem_userTransfers.2 ⟨_, _, hrecord, rfl⟩) ?_⟩
  rw [hstate.2]
  rfl

/-- The count of a download that is bound to another manifest with the same hash is not that of its
    chunks: there are eight bytes of them by the manifest it is bound to, but it counts nine. -/
theorem rebound_download_counts_otherwise :
    ∃ ops s, Runs step Admits {} ops s ∧ ∃ (id : String) (record : TransferRecord),
      s.records[id]? = some record ∧ record.view.direction = .download ∧ id ∉ s.marked ∧
        record.view.completedBytes = 9 ∧
          record.manifest.elim 0 (storedBytes · (s.userTransferChunks id)) = 8 := by
  refine ⟨reboundOps, reboundOps.foldl step {}, ?_, zeroId, ?_⟩
  · refine .cons ?_ (.cons ?_ (.cons trivial (.cons ?_ (.cons trivial (.nil _)))))
    · rfl
    · exact ⟨by decide, by decide, by decide, by decide⟩
    · exact ⟨by decide, by decide, by decide, by decide⟩
  · have hmarked : zeroId ∉ (reboundOps.foldl step {}).marked := by
      decide +kernel
    have hcounts : ((reboundOps.foldl step {}).records[zeroId]?.map
        fun record => (record.view.direction, record.view.completedBytes,
          record.manifest.elim 0 (storedBytes · ((reboundOps.foldl step {}).userTransferChunks
            zeroId)))) = some (.download, 9, 8) := by
      decide +kernel
    obtain ⟨record, hrecord, hcounts⟩ := Option.map_eq_some_iff.1 hcounts
    simp only [Prod.mk.injEq] at hcounts
    obtain ⟨hdown, hcompleted, hstored⟩ := hcounts
    exact ⟨record, hrecord, hdown, hmarked, hcompleted, hstored⟩

end TransferLedger

end Mosh.Background
