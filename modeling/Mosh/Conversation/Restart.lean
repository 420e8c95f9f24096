import Mosh.Conversation.Replay
import Mosh.Deletion.Tombstones
import Mosh.Library.Padded

/-!
# What a restart shows

The rows of a conversation get to the disk in three ways: the tail of its log is appended, a send
is saved with its message, and messages are erased. A restart reads them back
(`conversation/history.rs`): the log shows them in the order in which they were sent.

* `Disk`: the tables, with the stored sends as a whole;
* `Disk.step`: what is written;
* `Disk.Sound`: what every write keeps;
* `Disk.pairwise_rows`: the rows of a conversation come in the order of their times;
* `restart_shows_what_was_stored`: over all runs.
-/

namespace Mosh.Conversation

open ConversationMessage DeliveredMessage Deletion
open MessageLog (StoredMessage OutboundAttemptRecord fillIn interruptedSend sixDigits)
open Run (Runs)

/-! ## The disk -/

/-- The tables of a store, with the stored sends as a whole. -/
structure Disk (M E : Type) where
  store : HistoryStore M E
  sends : Std.ExtTreeMap String OutboundAttempt compare
  attempts_eq : store.attempts = sends.map fun _ send => send.toOutboundAttemptRecord

/-- The start of the keys of the stored sends of a conversation. -/
def outboundAttemptPrefix (kind : Kind) (conversationId : String) : String :=
  let scope :=
    match kind with
    | .dm => "private_dm"
    | .group => "private_group"
    | .channel => "channel"
  scope ++ "\x01" ++ conversationId

namespace Disk

variable {M E : Type} [ConversationMessage M] (c : TargetCrypto) (disk : Disk M E)

/-- A new store. -/
def empty (account : Option String) : Disk M E where
  store := ⟨⟨∅, ∅⟩, fun _ => ∅, ∅, account⟩
  sends := ∅
  attempts_eq := by simp

/-- Late writes cannot put content back into an erased row. -/
def writeHistoryRow (kind : Kind) (row : HistoryRow M E) : Disk M E where
  store := disk.store.writeHistoryRow c kind row
  sends := disk.sends
  attempts_eq := by
    rw [← disk.attempts_eq, HistoryStore.writeHistoryRow]
    split <;> rfl

/-- The send is cancelled by the row that it is about. -/
def cancelled (kind : Kind) (conversationId messageId : String) (send : OutboundAttempt) : Bool :=
  ((disk.store.messages kind)[historyKey conversationId send.sentAtMs messageId]?).any
    (cancelledAttempt · send.toOutboundAttemptRecord)

/-- Writes a send, unless its row cancels it, or removes it. -/
def writeOutboundRow (kind : Kind) (conversationId messageId : String)
    (send : Option OutboundAttempt) : Disk M E where
  store := disk.store.writeOutboundRow kind conversationId messageId
    (send.map (·.toOutboundAttemptRecord))
  sends :=
    match send.filter fun send => !disk.cancelled kind conversationId messageId send with
    | some send => disk.sends.insert (outboundAttemptKey kind conversationId messageId) send
    | none => disk.sends.erase (outboundAttemptKey kind conversationId messageId)
  attempts_eq := by
    refine Std.ExtTreeMap.ext_getElem? fun key => ?_
    rcases send with - | send
    · change (disk.store.attempts.erase _)[key]? = ((disk.sends.erase _).map _)[key]?
      rw [disk.attempts_eq, Std.ExtTreeMap.getElem?_map, Table.getElem?_erase,
        Table.getElem?_erase, Std.ExtTreeMap.getElem?_map]
      split <;> rfl
    · cases hcase : disk.cancelled kind conversationId messageId send with
      | false =>
        have hcase' : ((disk.store.messages kind)[historyKey conversationId send.sentAtMs
          messageId]?).any (cancelledAttempt · send.toOutboundAttemptRecord) = false := hcase
        simp only [HistoryStore.writeOutboundRow, Option.map_some, Option.filter_some, hcase, hcase',
          Bool.not_false, if_true, disk.attempts_eq, Std.ExtTreeMap.getElem?_map]
        rw [Table.getElem?_insert, Table.getElem?_insert, Std.ExtTreeMap.getElem?_map]
        split <;> rfl
      | true =>
        have hcase' : ((disk.store.messages kind)[historyKey conversationId send.sentAtMs
          messageId]?).any (cancelledAttempt · send.toOutboundAttemptRecord) = true := hcase
        simp only [HistoryStore.writeOutboundRow, Option.map_some, Option.filter_some, hcase, hcase',
          Bool.not_true, Bool.false_eq_true, if_false, disk.attempts_eq, Std.ExtTreeMap.getElem?_map]
        rw [Table.getElem?_erase, Table.getElem?_erase, Std.ExtTreeMap.getElem?_map]
        split <;> rfl

/-- Saves a message and the state of its send together. -/
def commitSend (kind : Kind) (row : HistoryRow M E) (send : Option OutboundAttempt) : Disk M E :=
  (disk.writeHistoryRow c kind row).writeOutboundRow kind row.conversationId row.messageId send

/-- Writes an erased row, and removes its send if it is cancelled. -/
def commitErasedRow (kind : Kind) (gone : Finset String) (row : HistoryRow M E) : Disk M E :=
  let disk : Disk M E :=
    { disk with store := disk.store.putRow kind (disk.store.eraseKnownTarget c kind row) }
  if row.messageId ∈ gone then
    disk.writeOutboundRow kind row.conversationId row.messageId none
  else disk

/-- Saves records and erased rows together. -/
def commitMessageDeletions (kind : Kind) (records : List DeletionRecord)
    (rows : List (HistoryRow M E)) (gone : Finset String) : Disk M E :=
  rows.foldl (fun disk row => disk.commitErasedRow c kind gone row)
    { disk with store := disk.store.saveDeletions records }

/-- The rows of a conversation. -/
def listHistoryMessages (kind : Kind) (conversationId : String) : List (HistoryRow M E) :=
  ((disk.store.messages kind).toList.filter fun row => DeletionRows.inRange conversationId row.1).map (·.2)

/-- The stored sends of a conversation. -/
def listOutboundAttempts (kind : Kind) (conversationId : String) : List OutboundAttempt :=
  (disk.sends.toList.filter fun row =>
    DeletionRows.inRange (outboundAttemptPrefix kind conversationId) row.1).map (·.2)

end Disk

/-! ## What is written, and what is read -/

namespace History

variable {M E : Type} [ConversationMessage M] (c : TargetCrypto) (disk : Disk M E)

/-- The row of a message, with the manifests of its file. -/
def storedRow (conversationId : String) (sentAtMs : Nat) (messageId : String) (message : M)
    (offer : Option (AttachmentManifest × Option AttachmentManifest)) : HistoryRow M E where
  conversationId := conversationId
  sentAtMs := sentAtMs
  messageId := messageId
  message := message
  attachmentManifest := offer.map (·.1)
  previewManifest := offer.bind (·.2)

/-- The row of the message at an index of the log. The clock shows `now`. -/
def tailRow (conversationId : String) (now : Nat)
    (offer : M → Option (AttachmentManifest × Option AttachmentManifest)) (index : Nat)
    (message : M) : HistoryRow M E :=
  let sentAt := (sentAtMs message).getD now
  let id := (messageId message).getD (toString sentAt ++ "-" ++ sixDigits index)
  storedRow conversationId sentAt id (fillIn message id sentAt) (offer message)

/-- Appends the messages that a conversation has gained since the last write. Also returned are how
    much of the log is stored, and whether something was written. -/
def writeTail (kind : Kind) (conversationId : String) (log : List M) (persistedCount now : Nat)
    (offer : M → Option (AttachmentManifest × Option AttachmentManifest)) :
    Disk M E × Nat × Bool :=
  if log.length ≤ persistedCount then (disk, persistedCount, false)
  else
    ((log.drop persistedCount).zipIdx persistedCount |>.foldl (fun disk (message, index) =>
      disk.writeHistoryRow c kind (tailRow conversationId now offer index message)) disk,
      log.length, true)

/-- Writes one message and the state of its send in one transaction. -/
def writeSend (kind : Kind) (conversationId id : String) (log : List M)
    (attempts : Std.ExtTreeMap String OutboundAttempt compare) (now : Nat) : Disk M E × Bool :=
  match log.find? fun m => messageId m = some id with
  | none => (disk, false)
  | some message =>
    let row := storedRow conversationId ((sentAtMs message).getD now) id message none
    (disk.commitSend c kind row attempts[id]?, true)

/-- Reads the rows and the stored sends of a conversation back into an empty log. -/
def restart (parse : String → Option M) (kind : Kind) (conversationId : String) : Restored M :=
  replay parse {} ∅ ((disk.listHistoryMessages kind conversationId).map (·.toStoredMessage))
    (disk.listOutboundAttempts kind conversationId)

end History

/-- What is written to the disk. -/
inductive DiskWrite (M E : Type)
  | tail (kind : Kind) (conversationId : String) (log : List M) (persistedCount now : Nat)
      (offer : M → Option (AttachmentManifest × Option AttachmentManifest))
  | send (kind : Kind) (conversationId id : String) (log : List M)
      (attempts : Std.ExtTreeMap String OutboundAttempt compare) (now : Nat)
  | deletions (kind : Kind) (records : List DeletionRecord) (rows : List (HistoryRow M E))
      (gone : Finset String)

/-- The disk after a write. -/
def Disk.step {M E : Type} [ConversationMessage M] (c : TargetCrypto) (disk : Disk M E) :
    DiskWrite M E → Disk M E
  | .tail kind conversationId log persistedCount now offer =>
    (History.writeTail c disk kind conversationId log persistedCount now offer).1
  | .send kind conversationId id log attempts now =>
    (History.writeSend c disk kind conversationId id log attempts now).1
  | .deletions kind records rows gone => disk.commitMessageDeletions c kind records rows gone

/-! ## Keys -/

/-- Lists that start with lists of the same length. -/
theorem append_lt_append_iff {l l' m m' : List Char} (h : l.length = l'.length) :
    l ++ m < l' ++ m' ↔ l < l' ∨ l = l' ∧ m < m' := by
  induction l generalizing l' with
  | nil =>
    rw [List.eq_nil_of_length_eq_zero h.symm]
    simp
  | cons a l ih =>
    rcases l' with - | ⟨a', l'⟩
    · cases h
    rw [List.cons_append, List.cons_append, List.cons_lt_cons_iff, List.cons_lt_cons_iff,
      ih (Nat.succ.inj h), List.cons_eq_cons]
    tauto

/-- What is between two separators starts with the first one. -/
theorem between_separators {start key : List Char} :
    (¬ key < start ++ ['\x01'] ∧ key < start ++ ['\x02']) ↔
      ∃ rest, key = start ++ '\x01' :: rest := by
  induction start generalizing key with
  | nil =>
    rcases key with - | ⟨a, key⟩
    · simp
    · rw [List.nil_append, List.nil_append, List.cons_lt_cons_iff, List.cons_lt_cons_iff]
      constructor
      · rintro ⟨hlow, hhigh⟩
        refine ⟨key, ?_⟩
        have hchar : a = '\x01' := by
          rcases hhigh with hlt | ⟨-, hnil⟩
          · rw [not_or] at hlow
            have hle : ¬ a.toNat < 1 := hlow.1
            have hle' : a.toNat < 2 := hlt
            exact Char.ext (UInt32.toNat_inj.1 (show a.toNat = 1 by omega))
          · exact absurd hnil (List.not_lt_nil key)
        rw [hchar, List.nil_append]
      · rintro ⟨rest, heq⟩
        obtain ⟨rfl, rfl⟩ := List.cons.inj heq
        refine ⟨?_, .inl (by decide)⟩
        rintro (hlt | ⟨-, hnil⟩)
        · exact absurd hlt (by decide)
        · exact List.not_lt_nil _ hnil
  | cons b start ih =>
    rcases key with - | ⟨a, key⟩
    · simp
    · rw [List.cons_append, List.cons_append, List.cons_lt_cons_iff, List.cons_lt_cons_iff]
      constructor
      · rintro ⟨hlow, hhigh⟩
        rw [not_or] at hlow
        rcases hhigh with hlt | ⟨rfl, hhigh⟩
        · exact absurd hlt hlow.1 |> False.elim
        · obtain ⟨rest, rfl⟩ := ih.1 ⟨fun hlt => hlow.2 ⟨rfl, hlt⟩, hhigh⟩
          exact ⟨rest, rfl⟩
      · rintro ⟨rest, heq⟩
        rw [List.cons_append] at heq
        obtain ⟨rfl, rfl⟩ := List.cons.inj heq
        obtain ⟨hlow, hhigh⟩ := ih.2 ⟨rest, rfl⟩
        refine ⟨?_, .inr ⟨rfl, hhigh⟩⟩
        rintro (hlt | ⟨-, hlt⟩)
        · exact absurd hlt (lt_irrefl _)
        · exact hlow hlt

/-- A key is in the range of a text if it continues it after a separator. -/
theorem inRange_iff (start key : String) : DeletionRows.inRange start key = true ↔
    ∃ rest, key.toList = start.toList ++ '\x01' :: rest := by
  rw [DeletionRows.inRange, Bool.and_eq_true, decide_eq_true_eq, decide_eq_true_eq, ← not_lt,
    String.lt_iff_toList_lt, String.lt_iff_toList_lt, String.toList_append, String.toList_append]
  exact between_separators

theorem toList_historyKey (conversationId : String) (sentAtMs : Nat) (messageId : String) :
    (historyKey conversationId sentAtMs messageId).toList =
      conversationId.toList ++ '\x01' :: (Padded.padded 20 sentAtMs ++ '\x01' :: messageId.toList) := by
  simp [historyKey, String.toList_append, Padded.padded]

theorem not_mem_padded (n : Nat) : '\x01' ∉ Padded.padded 20 n := fun h =>
  absurd (Padded.isDigit_of_mem_padded h) (by decide)

/-- The key of a row tells what it was made of. -/
theorem historyKey_inj {conversationId conversationId' id id' : String} {sentAtMs sentAtMs' : Nat}
    (h : Plain conversationId) (h' : Plain conversationId')
    (heq : historyKey conversationId sentAtMs id = historyKey conversationId' sentAtMs' id') :
    conversationId = conversationId' ∧ sentAtMs = sentAtMs' ∧ id = id' := by
  have hlist := congrArg String.toList heq
  rw [toList_historyKey, toList_historyKey] at hlist
  obtain ⟨h₁, hlist⟩ := append_cons_inj h h' hlist
  obtain ⟨h₂, h₃⟩ := append_cons_inj (not_mem_padded _) (not_mem_padded _) hlist
  exact ⟨String.toList_inj.1 h₁, Padded.padded_inj h₂, String.toList_inj.1 h₃⟩

/-- The rows of a conversation are in the order of their times, and of their ids. -/
theorem historyKey_lt_iff {conversationId id id' : String} {sentAtMs sentAtMs' : Nat}
    (h : sentAtMs < 2 ^ 64) (h' : sentAtMs' < 2 ^ 64) :
    historyKey conversationId sentAtMs id < historyKey conversationId sentAtMs' id' ↔
      sentAtMs < sentAtMs' ∨ sentAtMs = sentAtMs' ∧ id < id' := by
  have hn : sentAtMs < 10 ^ 20 := h.trans (by norm_num)
  have hn' : sentAtMs' < 10 ^ 20 := h'.trans (by norm_num)
  rw [String.lt_iff_toList_lt, toList_historyKey, toList_historyKey, append_lt_append_iff rfl,
    List.cons_lt_cons_iff, append_lt_append_iff (by
      rw [Padded.length_padded (by decide) hn, Padded.length_padded (by decide) hn']),
    Padded.padded_lt_iff hn hn' (by decide), List.cons_lt_cons_iff, String.lt_iff_toList_lt]
  constructor
  · rintro (hlt | ⟨-, hlt | ⟨-, hlt | ⟨heq, hlt | ⟨-, hlt⟩⟩⟩⟩)
    · exact absurd hlt (List.lt_irrefl _)
    · exact absurd hlt (lt_irrefl _)
    · exact .inl hlt
    · exact absurd hlt (lt_irrefl _)
    · exact .inr ⟨Padded.padded_inj heq, hlt⟩
  · rintro (hlt | ⟨rfl, hlt⟩)
    · exact .inr ⟨rfl, .inr ⟨rfl, .inl hlt⟩⟩
    · exact .inr ⟨rfl, .inr ⟨rfl, .inr ⟨rfl, .inr ⟨rfl, hlt⟩⟩⟩⟩

/-- The rows of a conversation are those in its range. -/
theorem inRange_historyKey {conversationId conversationId' id : String} {sentAtMs : Nat}
    (h : Plain conversationId) (h' : Plain conversationId') :
    DeletionRows.inRange conversationId (historyKey conversationId' sentAtMs id) = true ↔
      conversationId' = conversationId := by
  rw [inRange_iff, toList_historyKey]
  constructor
  · rintro ⟨rest, heq⟩
    exact String.toList_inj.1 (append_cons_inj h' h heq).1
  · rintro rfl
    exact ⟨_, rfl⟩

theorem toList_outboundAttemptKey (kind : Kind) (conversationId id : String) :
    (outboundAttemptKey kind conversationId id).toList =
      (outboundAttemptPrefix kind conversationId).toList ++ '\x01' :: id.toList := by
  unfold outboundAttemptKey outboundAttemptPrefix
  cases kind <;> simp [String.toList_append]

/-- The start of the keys of stored sends tells the conversation. -/
theorem outboundAttemptPrefix_inj {kind kind' : Kind} {conversationId conversationId' : String}
    {m m' : List Char} (h : Plain conversationId) (h' : Plain conversationId')
    (heq : (outboundAttemptPrefix kind conversationId).toList ++ '\x01' :: m =
      (outboundAttemptPrefix kind' conversationId').toList ++ '\x01' :: m') :
    kind = kind' ∧ conversationId = conversationId' ∧ m = m' := by
  have hstart : ∀ (kind : Kind) (conversationId : String), ∃ scope : String,
      (outboundAttemptPrefix kind conversationId).toList =
        scope.toList ++ '\x01' :: conversationId.toList ∧ Plain scope ∧
      scope = (match kind with
        | .dm => "private_dm"
        | .group => "private_group"
        | .channel => "channel") := by
    intro kind conversationId
    refine ⟨_, ?_, ?_, rfl⟩
    · unfold outboundAttemptPrefix
      simp [String.toList_append]
    · cases kind <;> simp [Plain]
  obtain ⟨scope, hscope, hplain, hkind⟩ := hstart kind conversationId
  obtain ⟨scope', hscope', hplain', hkind'⟩ := hstart kind' conversationId'
  rw [hscope, hscope', List.append_assoc, List.append_assoc, List.cons_append, List.cons_append]
    at heq
  obtain ⟨h₁, heq⟩ := append_cons_inj hplain hplain' heq
  obtain ⟨h₂, h₃⟩ := append_cons_inj h h' heq
  have hscopes : scope = scope' := String.toList_inj.1 h₁
  refine ⟨?_, String.toList_inj.1 h₂, h₃⟩
  rw [hkind, hkind'] at hscopes
  cases kind <;> cases kind' <;> first | rfl | exact absurd hscopes (by decide)

/-! ## What is on the disk -/

/-- What a message says. -/
structure Content where
  author : String
  body : String
  attachment : Option AttachmentDescriptor
  deriving DecidableEq, Repr

/-- What the message says. -/
def content {M : Type} [ConversationMessage M] (m : M) : Content :=
  ⟨author m, body m, attachment m⟩

/-- The delivery of a message is not part of what it says, and goes when it is erased. -/
class RestoredMessage (M : Type) [DeliveredMessage M] : Prop where
  body_setDelivery : ∀ (m : M) d, body (setDelivery m d) = body m := by intros; rfl
  author_setDelivery : ∀ (m : M) d, author (setDelivery m d) = author m := by intros; rfl
  attachment_setDelivery : ∀ (m : M) d, attachment (setDelivery m d) = attachment m := by
    intros; rfl
  deliveryStatus_eraseContent : ∀ m : M, deliveryStatus (eraseContent m) = none := by intros; rfl

attribute [simp] RestoredMessage.body_setDelivery RestoredMessage.author_setDelivery
  RestoredMessage.attachment_setDelivery RestoredMessage.deliveryStatus_eraseContent

instance : RestoredMessage ChatMessage where

instance : RestoredMessage GroupMessage where

instance : RestoredMessage ChannelMessage where

/-- A message as it was written, by its kind, its conversation and its id. -/
abbrev Originals (M : Type) := Kind → String → String → M

section Sound

variable {M E : Type} [DeliveredMessage M]

/-- Every message has its id and its time. -/
structure Originals.Stamped (originals : Originals M) : Prop where
  messageId : ∀ kind conversationId id, messageId (originals kind conversationId id) = some id
  sentAtMs : ∀ kind conversationId id, ∃ sentAt < 2 ^ 64,
    sentAtMs (originals kind conversationId id) = some sentAt

/-- The message is the original, up to what is noted about it, or it is erased. -/
structure Of (original m : M) : Prop where
  messageId : messageId m = messageId original
  sentAtMs : sentAtMs m = sentAtMs original
  content : isErased m = false → content m = content original

/-- What a row holds. -/
structure RowOf (originals : Originals M) (kind : Kind) (row : HistoryRow M E) : Prop where
  plain : Plain row.conversationId
  message : Of (originals kind row.conversationId row.messageId) row.message
  sentAtMs : sentAtMs row.message = some row.sentAtMs
  notPending : isErased row.message = true → deliveryStatus row.message ≠ some .pending

/-- What a stored send holds: its payload is the original message. -/
structure SendOf (parse : String → Option M) (originals : Originals M) (kind : Kind)
    (conversationId : String) (send : OutboundAttempt) : Prop where
  plain : Plain conversationId
  sentAtMs : sentAtMs (originals kind conversationId send.messageId) = some send.sentAtMs
  payload : ∀ m, parse send.messageJson = some m → isErased m = false ∧
    Of (originals kind conversationId send.messageId) m

/-- What holds along every run. -/
structure Disk.Sound (parse : String → Option M) (originals : Originals M) (disk : Disk M E) :
    Prop where
  rows : ∀ kind (key : String) row, (disk.store.messages kind)[key]? = some row →
    row.key = key ∧ RowOf originals kind row
  sends : ∀ (key : String) send, disk.sends[key]? = some send → ∃ kind conversationId,
    key = outboundAttemptKey kind conversationId send.messageId ∧
      SendOf parse originals kind conversationId send ∧
      disk.store.Stored kind (historyKey conversationId send.sentAtMs send.messageId)

/-- The message may be written as the row: it is the original, and if it was erased, then it is not
    pending, or its row is erased already. (A send can mark an erased message in the log again.) -/
structure Disk.MayWrite (originals : Originals M) (disk : Disk M E) (kind : Kind)
    (row : HistoryRow M E) : Prop where
  plain : Plain row.conversationId
  message : Of (originals kind row.conversationId row.messageId) row.message
  sentAtMs : sentAtMs row.message = some row.sentAtMs
  notPending : isErased row.message = true → deliveryStatus row.message ≠ some .pending ∨
    ((disk.store.messages kind)[row.key]?).any (isErased ·.message) = true

/-- What a runtime writes: messages of its log, its attempts, and rows that are erased. -/
def DiskWrite.Admitted (parse : String → Option M) (originals : Originals M) (disk : Disk M E) :
    DiskWrite M E → Prop
  | .tail kind conversationId log _ now offer => ∀ index, ∀ m ∈ log,
    disk.MayWrite originals kind (History.tailRow conversationId now offer index m)
  | .send kind conversationId id log attempts _ =>
    (∀ m ∈ log, messageId m = some id → ∃ sentAt, sentAtMs m = some sentAt ∧
      disk.MayWrite originals kind (History.storedRow conversationId sentAt id m none)) ∧
    ∀ send, attempts[id]? = some send → send.messageId = id ∧
      SendOf parse originals kind conversationId send
  | .deletions kind _ rows _ => ∀ row ∈ rows, isErased row.message = true ∧
    RowOf originals kind row

variable [LawfulMessage M] [RestoredMessage M] {c : TargetCrypto} {parse : String → Option M}
  {originals : Originals M} {disk disk' : Disk M E} {kind : Kind} {row : HistoryRow M E}

omit [RestoredMessage M] [LawfulMessage M] in
/-- The guard erases a row, or leaves it as it is. -/
theorem eraseKnownTarget_eq (c : TargetCrypto) (store : HistoryStore M E) (kind : Kind)
    (row : HistoryRow M E) : store.eraseKnownTarget c kind row = row ∨
      ∃ record target correlation, store.eraseKnownTarget c kind row =
        { row with toStoredMessage := eraseContentRow row.toStoredMessage record target correlation } := by
  rw [HistoryStore.eraseKnownTarget]
  split
  · exact .inl rfl
  · split
    · exact .inl rfl
    · exact .inr ⟨_, _, _, rfl⟩

/-- An erased row is one of its message. -/
theorem rowOf_eraseContentRow {originals : Originals M} {kind : Kind} {row : HistoryRow M E}
    (hplain : Plain row.conversationId)
    (hmessage : Of (originals kind row.conversationId row.messageId) row.message)
    (hsent : sentAtMs row.message = some row.sentAtMs) (record : DeletionRecord) (target : String)
    (correlation : Option String) : RowOf originals kind
      { row with
        toStoredMessage := eraseContentRow row.toStoredMessage record target correlation } where
  plain := hplain
  message := by
    refine ⟨messageId_erase.trans hmessage.messageId, ?_, fun hlive => ?_⟩
    · have hsame : sentAtMs (eraseContentRow row.toStoredMessage record target correlation).message =
          sentAtMs row.message := by
        simp [eraseContentRow, erase]
      exact hsame.trans hmessage.sentAtMs
    · have herased : isErased (eraseContentRow row.toStoredMessage record target correlation).message =
          true := Option.isSome_of_eq_some deletion_erase
      cases herased.symm.trans hlive
  sentAtMs := by
    have hsame : sentAtMs (eraseContentRow row.toStoredMessage record target correlation).message =
        sentAtMs row.message := by
      simp [eraseContentRow, erase]
    exact hsame.trans hsent
  notPending _ := by
    have hnone : deliveryStatus (eraseContentRow row.toStoredMessage record target
        correlation).message = none := by
      simp [eraseContentRow, erase]
    rw [hnone]
    rintro ⟨⟩

/-- What is stored where a row is written. -/
theorem Disk.MayWrite.guardedRow (h : disk.MayWrite originals kind row)
    (hold : ∀ existing, (disk.store.messages kind)[row.key]? = some existing →
      RowOf originals kind existing) :
    RowOf originals kind
      (disk.store.guardedRow c kind (disk.store.messages kind)[row.key]? row) := by
  rw [HistoryStore.guardedRow]
  rcases hexisting : (disk.store.messages kind)[row.key]? with - | existing
  · -- nothing is there, so that the message is not pending if it is erased
    have hrow : RowOf originals kind (retainHistoryEvidence row none) :=
      ⟨h.plain, h.message, h.sentAtMs, fun herased => (h.notPending herased).resolve_right
        (by rw [hexisting]; exact Bool.false_ne_true)⟩
    rw [Option.filter_none]
    dsimp only
    rcases eraseKnownTarget_eq c disk.store kind (retainHistoryEvidence row none) with
      heq | ⟨record, target, correlation, heq⟩
    · rw [heq]
      exact hrow
    · rw [heq]
      exact rowOf_eraseContentRow hrow.plain hrow.message hrow.sentAtMs _ _ _
  · rw [Option.filter_some]
    cases herased : isErased existing.message with
    | true =>
      simp only [if_true]
      exact hold existing hexisting
    | false =>
      simp only [Bool.false_eq_true, if_false]
      have hrow : RowOf originals kind (retainHistoryEvidence row (some existing)) :=
        ⟨h.plain, h.message, h.sentAtMs, fun herased' => (h.notPending herased').resolve_right
          (by rw [hexisting, Option.any_some, herased]; exact Bool.false_ne_true)⟩
      rcases eraseKnownTarget_eq c disk.store kind (retainHistoryEvidence row (some existing)) with
        heq | ⟨record, target, correlation, heq⟩
      · rw [heq]
        exact hrow
      · rw [heq]
        exact rowOf_eraseContentRow hrow.plain hrow.message hrow.sentAtMs _ _ _

omit [LawfulMessage M] [RestoredMessage M] in
/-- A row that is erased stays. -/
theorem Disk.MayWrite.writeHistoryRow (h : disk.MayWrite originals kind row) (kind' : Kind)
    (row' : HistoryRow M E) : (disk.writeHistoryRow c kind' row').MayWrite originals kind row where
  plain := h.plain
  message := h.message
  sentAtMs := h.sentAtMs
  notPending herased := by
    refine (h.notPending herased).imp_right fun hrow => ?_
    change (((disk.store.writeHistoryRow c kind' row').messages kind)[row.key]?).any _ = true
    rw [HistoryStore.getElem?_writeHistoryRow]
    split
    · next heq =>
      obtain ⟨rfl, hkey⟩ := heq
      rcases hexisting : (disk.store.messages kind)[row.key]? with - | existing
      · rw [hexisting] at hrow
        cases hrow
      · rw [hexisting, Option.any_some] at hrow
        rw [hkey, hexisting, HistoryStore.guardedRow, Option.filter_some, hrow, if_pos rfl]
        exact hrow
    · exact hrow

/-- A row is written. -/
theorem Disk.Sound.writeHistoryRow (h : disk.Sound parse originals)
    (hrow : disk.MayWrite originals kind row) :
    (disk.writeHistoryRow c kind row).Sound parse originals where
  rows kind' key row' hget := by
    change ((disk.store.writeHistoryRow c kind row).messages kind')[key]? = some row' at hget
    rw [HistoryStore.getElem?_writeHistoryRow] at hget
    split at hget
    · next heq =>
      obtain ⟨rfl, rfl⟩ := heq
      obtain rfl := Option.some.inj hget
      refine ⟨?_, hrow.guardedRow fun existing hexisting => (h.rows _ _ existing hexisting).2⟩
      rw [HistoryStore.guardedRow]
      split
      · next erased hexisting =>
        exact (h.rows _ _ erased (Option.filter_eq_some_iff.1 hexisting).1).1
      · exact HistoryStore.key_eraseKnownTarget _
    · exact h.rows kind' key row' hget
  sends key send hsend := by
    obtain ⟨kind', conversationId, hkey, hof, hstored⟩ := h.sends key send hsend
    exact ⟨kind', conversationId, hkey, hof,
      HistoryStore.stored_writeHistoryRow c kind row (.inr hstored)⟩

omit [LawfulMessage M] [RestoredMessage M] in
/-- A stored send is written, whose row is stored, or removed. -/
theorem Disk.Sound.writeOutboundRow (h : disk.Sound parse originals) {conversationId id : String}
    {send : Option OutboundAttempt} (hsend : ∀ a, send = some a → a.messageId = id ∧
      SendOf parse originals kind conversationId a ∧
      disk.store.Stored kind (historyKey conversationId a.sentAtMs id)) :
    (disk.writeOutboundRow kind conversationId id send).Sound parse originals where
  rows kind' key row' hget := h.rows kind' key row' hget
  sends key a hget := by
    change (match send.filter fun send => !disk.cancelled kind conversationId id send with
      | some send => disk.sends.insert (outboundAttemptKey kind conversationId id) send
      | none => disk.sends.erase (outboundAttemptKey kind conversationId id))[key]? = some a at hget
    rcases hfilter : send.filter fun send => !disk.cancelled kind conversationId id send with - | b
    · rw [hfilter] at hget
      dsimp only at hget
      rw [Table.getElem?_erase] at hget
      split at hget
      · cases hget
      · exact h.sends key a hget
    · rw [hfilter] at hget
      dsimp only at hget
      rw [Table.getElem?_insert] at hget
      split at hget
      · next hkey =>
        obtain rfl := Option.some.inj hget
        obtain ⟨rfl, hof, hstored⟩ := hsend b (Option.filter_eq_some_iff.1 hfilter).1
        exact ⟨kind, conversationId, hkey.symm, hof, hstored⟩
      · exact h.sends key a hget

/-- An erased row is committed. -/
theorem Disk.Sound.commitErasedRow (h : disk.Sound parse originals) (gone : Finset String)
    (hrow : RowOf originals kind row) :
    (disk.commitErasedRow c kind gone row).Sound parse originals := by
  have hput : Disk.Sound parse originals { disk with
      store := disk.store.putRow kind (disk.store.eraseKnownTarget c kind row) } := by
    refine ⟨fun kind' key row' hget => ?_, fun key send hsend => ?_⟩
    · change ((disk.store.putRow kind _).messages kind')[key]? = some row' at hget
      rw [HistoryStore.getElem?_putRow] at hget
      split at hget
      · next heq =>
        obtain ⟨rfl, rfl⟩ := heq
        obtain rfl := Option.some.inj hget
        refine ⟨rfl, ?_⟩
        rcases eraseKnownTarget_eq c disk.store kind' row with heq | ⟨record, target, correlation, heq⟩
        · rw [heq]
          exact hrow
        · rw [heq]
          exact rowOf_eraseContentRow hrow.plain hrow.message hrow.sentAtMs _ _ _
      · exact h.rows kind' key row' hget
    · obtain ⟨kind', conversationId, hkey, hof, hstored⟩ := h.sends key send hsend
      exact ⟨kind', conversationId, hkey, hof, hstored.putRow kind _⟩
  rw [Disk.commitErasedRow]
  split
  · exact hput.writeOutboundRow nofun
  · exact hput

/-- The tail of a log is written. -/
theorem Disk.Sound.writeTail (h : disk.Sound parse originals) {conversationId : String}
    {log : List M} {now : Nat} {offer : M → Option (AttachmentManifest × Option AttachmentManifest)}
    (hlog : ∀ index, ∀ m ∈ log,
      disk.MayWrite originals kind (History.tailRow conversationId now offer index m))
    (persistedCount : Nat) :
    (History.writeTail c disk kind conversationId log persistedCount now offer).1.Sound parse
      originals := by
  have hfold : ∀ (l : List (M × Nat)) (disk : Disk M E), disk.Sound parse originals →
      (∀ p ∈ l, disk.MayWrite originals kind (History.tailRow conversationId now offer p.2 p.1)) →
      (l.foldl (fun disk (message, index) => disk.writeHistoryRow c kind
        (History.tailRow conversationId now offer index message)) disk).Sound parse originals := by
    intro l
    induction l with
    | nil => exact fun _ h _ => h
    | cons p l ih =>
      intro disk h hl
      exact ih _ (h.writeHistoryRow (hl p List.mem_cons_self)) fun q hq =>
        (hl q (List.mem_cons_of_mem _ hq)).writeHistoryRow kind _
  rw [History.writeTail]
  split
  · exact h
  · refine hfold _ disk h fun p hp => hlog p.2 p.1 ?_
    obtain ⟨m, index⟩ := p
    exact List.mem_of_mem_drop (List.fst_mem_of_mem_zipIdx hp)

/-- A message and its send are written. -/
theorem Disk.Sound.writeSend (h : disk.Sound parse originals) {conversationId id : String}
    {log : List M} {attempts : Std.ExtTreeMap String OutboundAttempt compare} {now : Nat}
    (hadmitted : DiskWrite.Admitted parse originals disk
      (.send kind conversationId id log attempts now)) :
    (History.writeSend c disk kind conversationId id log attempts now).1.Sound parse originals := by
  obtain ⟨hlog, hattempts⟩ := hadmitted
  rw [History.writeSend]
  rcases hfind : log.find? fun m => messageId m = some id with - | m
  · exact h
  · have hid : messageId m = some id := by simpa using List.find?_some hfind
    obtain ⟨sentAt, hsent, hmay⟩ := hlog m (List.mem_of_find?_eq_some hfind) hid
    dsimp only
    rw [hsent, Option.getD_some, Disk.commitSend]
    refine (h.writeHistoryRow hmay).writeOutboundRow fun a ha => ?_
    obtain ⟨hmessage, hof⟩ := hattempts a ha
    refine ⟨hmessage, hof, HistoryStore.stored_writeHistoryRow c kind _ (.inl ⟨rfl, ?_⟩)⟩
    -- the send has the time of the message
    have htime : a.sentAtMs = sentAt := by
      have horiginal := hmay.message.sentAtMs
      have hof' := hof.sentAtMs
      rw [hmessage] at hof'
      exact Option.some.inj (hof'.symm.trans (horiginal.symm.trans hsent))
    rw [htime]
    rfl

/-- What every write keeps. -/
theorem Disk.Sound.step (h : disk.Sound parse originals) {w : DiskWrite M E}
    (hadmitted : w.Admitted parse originals disk) :
    (disk.step c w).Sound parse originals := by
  cases w with
  | tail kind conversationId log persistedCount now offer => exact h.writeTail hadmitted persistedCount
  | send kind conversationId id log attempts now => exact h.writeSend hadmitted
  | deletions kind records rows gone =>
    have hfold : ∀ (rows : List (HistoryRow M E)) (disk : Disk M E), disk.Sound parse originals →
        (∀ row ∈ rows, RowOf originals kind row) →
        (rows.foldl (fun disk row => disk.commitErasedRow c kind gone row) disk).Sound parse
          originals := by
      intro rows
      induction rows with
      | nil => exact fun _ h _ => h
      | cons row rows ih =>
        intro disk h hrows
        exact ih _ (h.commitErasedRow gone (hrows row List.mem_cons_self)) fun row' hrow' =>
          hrows row' (List.mem_cons_of_mem _ hrow')
    exact hfold rows _ ⟨h.rows, h.sends⟩ fun row hrow => (hadmitted row hrow).2

omit [LawfulMessage M] [RestoredMessage M] in
/-- A new store is empty. -/
theorem Disk.sound_empty (account : Option String) :
    (Disk.empty account : Disk M E).Sound parse originals :=
  ⟨fun kind key row h => by simp [Disk.empty] at h, fun key send h => by simp [Disk.empty] at h⟩

/-! ## The rows and the sends of a conversation -/

section Lists

omit [LawfulMessage M] [RestoredMessage M]

variable {conversationId : String}

/-- The rows that are listed are those of the conversation. -/
theorem Disk.Sound.mem_listHistoryMessages (h : disk.Sound parse originals)
    (hplain : Plain conversationId) : row ∈ disk.listHistoryMessages kind conversationId ↔
      (disk.store.messages kind)[row.key]? = some row ∧ row.conversationId = conversationId := by
  rw [Disk.listHistoryMessages, List.mem_map]
  constructor
  · rintro ⟨⟨key, row'⟩, hmem, rfl⟩
    obtain ⟨hmem, hrange⟩ := List.mem_filter.1 hmem
    have hget := Std.ExtTreeMap.mem_toList_iff_getElem?_eq_some.1 hmem
    obtain ⟨rfl, hof⟩ := h.rows kind key row' hget
    exact ⟨hget, (inRange_historyKey hplain hof.plain).1 hrange⟩
  · rintro ⟨hget, rfl⟩
    refine ⟨(row.key, row), List.mem_filter.2
      ⟨Std.ExtTreeMap.mem_toList_iff_getElem?_eq_some.2 hget, ?_⟩, rfl⟩
    exact (inRange_historyKey hplain (h.rows kind _ row hget).2.plain).2 rfl

/-- A row has the time of its message. -/
theorem RowOf.time (hrow : RowOf originals kind row) :
    ConversationMessage.sentAtMs (originals kind row.conversationId row.messageId) =
      some row.sentAtMs :=
  hrow.message.sentAtMs.symm.trans hrow.sentAtMs

theorem RowOf.lt (hstamped : originals.Stamped) (hrow : RowOf originals kind row) :
    row.sentAtMs < 2 ^ 64 := by
  obtain ⟨sentAt, hlt, hsent⟩ := hstamped.sentAtMs kind row.conversationId row.messageId
  rw [Option.some.inj (hrow.time.symm.trans hsent)]
  exact hlt

/-- The rows of a conversation come in the order of their times, and of their ids. -/
theorem Disk.Sound.pairwise_rows (h : disk.Sound parse originals) (hstamped : originals.Stamped)
    (hplain : Plain conversationId) :
    (disk.listHistoryMessages kind conversationId).Pairwise fun a b =>
      a.sentAtMs < b.sentAtMs ∨ a.sentAtMs = b.sentAtMs ∧ a.messageId < b.messageId := by
  rw [Disk.listHistoryMessages, List.pairwise_map]
  refine (Std.ExtTreeMap.ordered_keys_toList.filter _).imp_of_mem fun {a b} ha hb hlt => ?_
  obtain ⟨ha, hrange⟩ := List.mem_filter.1 ha
  obtain ⟨hb, hrange'⟩ := List.mem_filter.1 hb
  obtain ⟨hkey, hof⟩ := h.rows kind a.1 a.2 (Std.ExtTreeMap.mem_toList_iff_getElem?_eq_some.1 ha)
  obtain ⟨hkey', hof'⟩ := h.rows kind b.1 b.2 (Std.ExtTreeMap.mem_toList_iff_getElem?_eq_some.1 hb)
  rw [← hkey] at hrange hlt
  rw [← hkey'] at hrange' hlt
  have hconv := (inRange_historyKey hplain hof.plain).1 hrange
  have hconv' := (inRange_historyKey hplain hof'.plain).1 hrange'
  have hkeys : a.2.key < b.2.key := compareOfLessAndEq_eq_lt.1 hlt
  rw [HistoryRow.key, HistoryRow.key, hconv, hconv'] at hkeys
  exact (historyKey_lt_iff (hof.lt hstamped) (hof'.lt hstamped)).1 hkeys

/-- There is one row for an id. -/
theorem Disk.Sound.nodup_rows (h : disk.Sound parse originals) (hstamped : originals.Stamped)
    (hplain : Plain conversationId) :
    ((disk.listHistoryMessages kind conversationId).map (·.messageId)).Nodup := by
  refine List.pairwise_map.2 ((h.pairwise_rows hstamped hplain).imp_of_mem
    fun {a b} ha hb hlt heq => ?_)
  obtain ⟨hget, hconv⟩ := (h.mem_listHistoryMessages hplain).1 ha
  obtain ⟨hget', hconv'⟩ := (h.mem_listHistoryMessages hplain).1 hb
  -- the id tells the time
  have htime := (h.rows kind _ a hget).2.time
  have htime' := (h.rows kind _ b hget').2.time
  rw [hconv, heq] at htime
  rw [hconv'] at htime'
  have hsame : a.sentAtMs = b.sentAtMs := Option.some.inj (htime.symm.trans htime')
  rcases hlt with hlt | ⟨-, hlt⟩
  · exact absurd hsame hlt.ne
  · rw [heq] at hlt
    exact lt_irrefl _ hlt

/-- What is known of a stored send of the conversation. -/
theorem Disk.Sound.of_mem_listOutboundAttempts (h : disk.Sound parse originals)
    (hplain : Plain conversationId) {key : String} {send : OutboundAttempt}
    (hsend : disk.sends[key]? = some send)
    (hrange : DeletionRows.inRange (outboundAttemptPrefix kind conversationId) key = true) :
    key = outboundAttemptKey kind conversationId send.messageId ∧
      SendOf parse originals kind conversationId send ∧
      disk.store.Stored kind (historyKey conversationId send.sentAtMs send.messageId) := by
  obtain ⟨kind', conversationId', rfl, hof, hstored⟩ := h.sends key send hsend
  obtain ⟨rest, heq⟩ := (inRange_iff _ _).1 hrange
  rw [toList_outboundAttemptKey] at heq
  obtain ⟨rfl, rfl, -⟩ := outboundAttemptPrefix_inj hof.plain hplain heq
  exact ⟨rfl, hof, hstored⟩

theorem Disk.Sound.nodup_sends (h : disk.Sound parse originals) (hplain : Plain conversationId) :
    ((disk.listOutboundAttempts kind conversationId).map (·.messageId)).Nodup := by
  rw [Disk.listOutboundAttempts, List.map_map]
  refine List.pairwise_map.2 ((Std.ExtTreeMap.ordered_keys_toList.filter _).imp_of_mem
    fun {a b} ha hb hlt heq => ?_)
  obtain ⟨ha, hrange⟩ := List.mem_filter.1 ha
  obtain ⟨hb, hrange'⟩ := List.mem_filter.1 hb
  obtain ⟨hkey, -⟩ := h.of_mem_listOutboundAttempts hplain
    (Std.ExtTreeMap.mem_toList_iff_getElem?_eq_some.1 ha) hrange
  obtain ⟨hkey', -⟩ := h.of_mem_listOutboundAttempts hplain
    (Std.ExtTreeMap.mem_toList_iff_getElem?_eq_some.1 hb) hrange'
  have hids : a.2.messageId = b.2.messageId := heq
  rw [hkey, hkey', hids] at hlt
  have hself : ∀ key : String, compare key key = .eq := fun _ => Std.ReflCmp.compare_self
  exact nomatch hlt.symm.trans (hself _)

/-- The message of a row. -/
theorem RowOf.rowMessage (hstamped : originals.Stamped) (hrow : RowOf originals kind row) :
    rowMessage row.toStoredMessage = row.message ∧ messageId row.message = some row.messageId := by
  have hid : messageId row.message = some row.messageId :=
    hrow.message.messageId.trans (hstamped.messageId ..)
  refine ⟨?_, hid⟩
  rw [Conversation.rowMessage, fillIn, hid, if_neg (Option.some_ne_none _), hrow.sentAtMs,
    if_neg (Option.some_ne_none _)]

/-- The message of a stored send that can be parsed. -/
theorem SendOf.attemptMessage (hstamped : originals.Stamped) {conversationId : String}
    {send : OutboundAttempt} (hof : SendOf parse originals kind conversationId send) {m : M}
    (hmessage : attemptMessage parse send.interrupted = some m) :
    ∃ payload, parse send.messageJson = some payload ∧ isErased payload = false ∧
      Of (originals kind conversationId send.messageId) payload ∧
      m = setDelivery payload (deliveryMeta send.interrupted.deliveryStatus
        send.interrupted.deliveryError send.interrupted.retryCount) := by
  rw [Conversation.attemptMessage] at hmessage
  obtain ⟨payload, hparse, rfl⟩ := Option.map_eq_some_iff.1 hmessage
  have hjson : send.interrupted.messageJson = send.messageJson := by
    rw [OutboundAttempt.interrupted, MessageLog.interrupted]
    dsimp only
    split <;> rfl
  rw [hjson] at hparse
  obtain ⟨hlive, horiginal⟩ := hof.payload payload hparse
  refine ⟨payload, hparse, hlive, horiginal, ?_⟩
  have hid : messageId payload = some send.messageId :=
    horiginal.messageId.trans (hstamped.messageId ..)
  have hsent : ConversationMessage.sentAtMs payload = some send.sentAtMs := horiginal.sentAtMs.trans hof.sentAtMs
  rw [fillIn, hid, if_neg (Option.some_ne_none _), hsent, if_neg (Option.some_ne_none _)]

/-- The rows and the sends of a conversation can be read back. -/
theorem Disk.Sound.readable (h : disk.Sound parse originals) (kind : Kind)
    (hstamped : originals.Stamped) (hplain : Plain conversationId) : Readable parse
      ((disk.listHistoryMessages kind conversationId).map (·.toStoredMessage))
      (disk.listOutboundAttempts kind conversationId) where
  row_id stored hstored := by
    obtain ⟨row, hrow, rfl⟩ := List.mem_map.1 hstored
    obtain ⟨hget, -⟩ := (h.mem_listHistoryMessages hplain).1 hrow
    obtain ⟨hmessage, hid⟩ := (h.rows kind _ row hget).2.rowMessage hstamped
    rw [hmessage, hid]
  rows_nodup := by
    rw [List.map_map]
    exact h.nodup_rows hstamped hplain
  send_id send hsend m hmessage := by
    obtain ⟨⟨key, send⟩, hmem, rfl⟩ := List.mem_map.1 hsend
    obtain ⟨hmem, hrange⟩ := List.mem_filter.1 hmem
    obtain ⟨-, hof, -⟩ := h.of_mem_listOutboundAttempts hplain
      (Std.ExtTreeMap.mem_toList_iff_getElem?_eq_some.1 hmem) hrange
    obtain ⟨payload, -, -, horiginal, rfl⟩ := hof.attemptMessage hstamped hmessage
    rw [messageId_setDelivery, horiginal.messageId, hstamped.messageId]
  sends_nodup := h.nodup_sends hplain
  send_row send hsend _ := by
    obtain ⟨⟨key, send⟩, hmem, rfl⟩ := List.mem_map.1 hsend
    obtain ⟨hmem, hrange⟩ := List.mem_filter.1 hmem
    obtain ⟨-, hof, hstored⟩ := h.of_mem_listOutboundAttempts hplain
      (Std.ExtTreeMap.mem_toList_iff_getElem?_eq_some.1 hmem) hrange
    obtain ⟨row, hget⟩ := Option.isSome_iff_exists.1 hstored
    obtain ⟨hkey, hrow⟩ := h.rows kind _ row hget
    obtain ⟨hconv, -, hid⟩ := historyKey_inj hrow.plain hplain hkey
    rw [List.map_map]
    refine List.mem_map.2 ⟨row, (h.mem_listHistoryMessages hplain).2 ⟨?_, hconv⟩, hid⟩
    rw [hkey]
    exact hget

end Lists

/-! ## What the log shows -/

/-- What the log shows for a row. -/
structure ShowsRow (row : HistoryRow M E) (m : M) : Prop where
  messageId : messageId m = some row.messageId
  sentAtMs : sentAtMs m = some row.sentAtMs
  content : content m = content row.message
  deletion : deletion m = deletion row.message
  erased : isErased row.message = true → m = row.message
  notPending : deliveryStatus m ≠ some .pending

omit [LawfulMessage M] in
/-- The delivery of a message is not what it says. -/
theorem content_setDelivery (m : M) (d : MessageDeliveryMeta) :
    content (setDelivery m d) = content m := by
  simp [content]

omit [LawfulMessage M] [RestoredMessage M] in
theorem deletion_setDelivery (m : M) (d : MessageDeliveryMeta) :
    deletion (setDelivery m d) = deletion m := by
  rw [deletion, deletion, metadata_setDelivery]

omit [LawfulMessage M] in
/-- A message that is not pending stays, and one that is fails. -/
theorem settled_spec (attempts : Std.ExtTreeMap String OutboundAttempt compare) (m : M) :
    content (settled attempts m) = content m ∧ deletion (settled attempts m) = deletion m ∧
      sentAtMs (settled attempts m) = sentAtMs m ∧
      (deliveryStatus m ≠ some .pending → settled attempts m = m) := by
  rw [settled]
  split
  · next h => exact ⟨content_setDelivery m _, deletion_setDelivery m _, sentAtMs_setDelivery m _,
      fun hnot => absurd h.1 hnot⟩
  · exact ⟨rfl, rfl, rfl, fun _ => rfl⟩

/-- What is read back of a stored send: it is not pending, and the rest of it stays. -/
theorem OutboundAttempt.deliveryStatus_interrupted (send : OutboundAttempt) :
    send.interrupted.deliveryStatus ≠ .pending := by
  rw [OutboundAttempt.interrupted, MessageLog.interrupted]
  dsimp only
  split
  · rintro ⟨⟩
  · next hnot => exact hnot

omit [LawfulMessage M] [RestoredMessage M] in
/-- The stored send of a row that is kept. -/
theorem exists_kept {id : String} {send : OutboundAttempt} {sends : List OutboundAttempt}
    (hfind : (sends.find? fun send => send.messageId = id &&
      (attemptMessage parse send.interrupted).isSome) = some send) :
    send ∈ sends ∧ send.messageId = id ∧ ∃ m, attemptMessage parse send.interrupted = some m := by
  have hmatch := List.find?_some hfind
  rw [Bool.and_eq_true, decide_eq_true_eq] at hmatch
  exact ⟨List.mem_of_find?_eq_some hfind, hmatch.1, Option.isSome_iff_exists.1 hmatch.2⟩

omit [LawfulMessage M] in
/-- A row is shown as it is stored, with the state of its send. -/
theorem Disk.Sound.shows (h : disk.Sound parse originals) (hstamped : originals.Stamped)
    {conversationId : String} (hplain : Plain conversationId)
    (hrow : row ∈ disk.listHistoryMessages kind conversationId) :
    ShowsRow row (shown parse (disk.listOutboundAttempts kind conversationId)
      row.toStoredMessage) ∧
    ∀ send, (keptSends parse (disk.listOutboundAttempts kind conversationId))[row.messageId]? =
        some send → isErased row.message = false →
      deliveryStatus (shown parse (disk.listOutboundAttempts kind conversationId)
        row.toStoredMessage) = some send.deliveryStatus := by
  have hreadable := h.readable kind hstamped hplain
  obtain ⟨hget, hconv⟩ := (h.mem_listHistoryMessages hplain).1 hrow
  have hof := (h.rows kind _ row hget).2
  obtain ⟨hmessage, hid⟩ := hof.rowMessage hstamped
  generalize hsends : disk.listOutboundAttempts kind conversationId = sends at hreadable ⊢
  rw [shown, hmessage]
  have hkept : (keptSends parse sends)[row.messageId]? = (sends.find? fun send =>
      send.messageId = row.messageId &&
        (attemptMessage parse send.interrupted).isSome).map (·.interrupted) := by
    rw [keptSends, getElem?_foldl_keepSend hreadable.sends_nodup]
    simp
  rw [hkept]
  cases herased : isErased row.message with
  | true =>
    rw [Upsert.update_of_fixed herased]
    have hsame := (settled_spec (keptSends parse sends) row.message).2.2.2 (hof.notPending herased)
    rw [hsame]
    exact ⟨⟨hid, hof.sentAtMs, rfl, rfl, fun _ => rfl, hof.notPending herased⟩,
      fun _ _ hlive => absurd hlive.symm Bool.false_ne_true⟩
  | false =>
    rcases hfind : sends.find? (fun send => send.messageId = row.messageId &&
        (attemptMessage parse send.interrupted).isSome) with - | send
    · -- no send is kept for the row
      have hnone : messageId row.message ∉ (sendMessages parse sends).map messageId := by
        intro hmem
        obtain ⟨m, hm, heq⟩ := List.mem_map.1 hmem
        obtain ⟨send, hsend, hattempt, hsendId⟩ := hreadable.mem_sendMessages hm
        refine List.find?_eq_none.1 hfind send hsend ?_
        rw [hid, hsendId] at heq
        rw [Option.some.inj heq, hattempt, decide_eq_true rfl]
        rfl
      rw [Upsert.update_of_not_mem hnone]
      obtain ⟨hcontent, hdeletion, hsent, -⟩ := settled_spec (keptSends parse sends) row.message
      rw [hfind]
      refine ⟨⟨(messageId_settled _ _).trans hid, hsent.trans hof.sentAtMs, hcontent, hdeletion,
        fun herased' => absurd (herased.symm.trans herased') Bool.false_ne_true, ?_⟩,
        fun _ hsend => by cases hsend⟩
      rw [settled]
      split
      · rw [deliveryStatus_eq, delivery_setDelivery]
        rintro ⟨⟩
      · next hnot =>
        refine fun hpending => hnot ⟨hpending, ?_⟩
        rw [hid, Option.any_some, hkept, hfind]
        rfl
    · -- the send is shown
      obtain ⟨hsend, hsendId, m, hattempt⟩ := exists_kept hfind
      have hm : m ∈ sendMessages parse sends := List.mem_filterMap.2 ⟨send, hsend, hattempt⟩
      have hmId : messageId m = messageId row.message := by
        rw [hreadable.send_id send hsend m hattempt, hid, hsendId]
      rw [Upsert.update_of_mem hreadable.nodup_sends hm hmId herased]
      obtain ⟨⟨key, send⟩, hmem, rfl⟩ := List.mem_map.1 (hsends ▸ hsend)
      obtain ⟨hmem, hrange⟩ := List.mem_filter.1 hmem
      obtain ⟨-, hsendOf, -⟩ := h.of_mem_listOutboundAttempts hplain
        (Std.ExtTreeMap.mem_toList_iff_getElem?_eq_some.1 hmem) hrange
      obtain ⟨payload, -, hlive, horiginal, rfl⟩ := hsendOf.attemptMessage hstamped hattempt
      have hstatus : deliveryStatus (setDelivery payload (deliveryMeta
          send.interrupted.deliveryStatus send.interrupted.deliveryError
          send.interrupted.retryCount)) = some send.interrupted.deliveryStatus := by
        rw [deliveryStatus_eq, delivery_setDelivery]
        rfl
      have hnot : deliveryStatus (setDelivery payload (deliveryMeta
          send.interrupted.deliveryStatus send.interrupted.deliveryError
          send.interrupted.retryCount)) ≠ some .pending := by
        rw [hstatus]
        exact fun heq => send.deliveryStatus_interrupted (Option.some.inj heq)
      rw [(settled_spec _ _).2.2.2 hnot]
      have hsame : messageId payload = some row.messageId := by
        rw [messageId_setDelivery] at hmId
        rw [hmId, hid]
      dsimp only at hsendId
      rw [hsendId, ← hconv] at horiginal
      rw [hfind]
      refine ⟨⟨?_, ?_, ?_, ?_, fun herased' =>
        absurd (herased.symm.trans herased') Bool.false_ne_true, hnot⟩, fun send' hsend' _ => ?_⟩
      · rw [messageId_setDelivery, hsame]
      · rw [sentAtMs_setDelivery, horiginal.sentAtMs]
        exact hof.time
      · rw [content_setDelivery, horiginal.content hlive, hof.message.content herased]
      · have hlive' : deletion payload = none := Option.not_isSome_iff_eq_none.1
          (by rw [← isErased, hlive]; exact Bool.false_ne_true)
        have hrow' : deletion row.message = none := Option.not_isSome_iff_eq_none.1
          (by rw [← isErased, herased]; exact Bool.false_ne_true)
        rw [deletion_setDelivery, hlive', hrow']
      · rw [← Option.some.inj hsend', hstatus]

/-- Of a stored send, only the state changes when it is read back: a pending one has failed. -/
theorem OutboundAttempt.interrupted_spec (send : OutboundAttempt) :
    send.interrupted.retryCount = send.retryCount ∧
      send.interrupted.messageJson = send.messageJson ∧
      send.interrupted.publishPayloadB64 = send.publishPayloadB64 ∧
      send.interrupted.deliveryStatus =
        if send.deliveryStatus = .pending then .failed else send.deliveryStatus := by
  rw [OutboundAttempt.interrupted, MessageLog.interrupted]
  dsimp only
  split
  · exact ⟨rfl, rfl, rfl, rfl⟩
  · exact ⟨rfl, rfl, rfl, rfl⟩

/-- A restart shows what was stored.

    After every run of writes of the tails of logs, of sends and of erasures, the log that is read
    back shows one message for every stored row, in the order of their times and ids: with the id,
    the time, the content and the deletion marker of the row, and as it is if it is erased; no
    message is pending. Every stored send that can be parsed is kept, with its retry count and its
    payload, and a row that is not erased shows its state, where a pending one has failed. Reading
    the store again changes nothing, and the next write of the tail writes nothing. -/
theorem restart_shows_what_was_stored (hstamped : originals.Stamped) {account : Option String}
    {ws : List (DiskWrite M E)}
    (hrun : Runs (Disk.step c) (fun disk w => w.Admitted parse originals disk) (Disk.empty account)
      ws disk)
    (kind : Kind) {conversationId : String} (hplain : Plain conversationId) :
    let rows := disk.listHistoryMessages kind conversationId
    let sends := disk.listOutboundAttempts kind conversationId
    let restored := History.restart disk parse kind conversationId
    let again := History.replay parse restored.log restored.attempts
      (rows.map (·.toStoredMessage)) sends
    (∀ row, row ∈ rows ↔ (disk.store.messages kind)[row.key]? = some row ∧
      row.conversationId = conversationId) ∧
    (rows.map (·.messageId)).Nodup ∧
    (rows.Pairwise fun a b =>
      a.sentAtMs < b.sentAtMs ∨ a.sentAtMs = b.sentAtMs ∧ a.messageId < b.messageId) ∧
    List.Forall₂ ShowsRow rows restored.log.messages ∧
    (∀ (id : String) attempt, restored.attempts[id]? = some attempt ↔ ∃ send ∈ sends,
      send.messageId = id ∧ (parse send.messageJson).isSome ∧ attempt = send.interrupted) ∧
    (∀ send : OutboundAttempt, send.interrupted.retryCount = send.retryCount ∧
      send.interrupted.messageJson = send.messageJson ∧
      send.interrupted.publishPayloadB64 = send.publishPayloadB64 ∧
      send.interrupted.deliveryStatus =
        if send.deliveryStatus = .pending then .failed else send.deliveryStatus) ∧
    (∀ row ∈ rows, ∀ attempt, restored.attempts[row.messageId]? = some attempt →
      isErased row.message = false → ∃ m ∈ restored.log.messages,
        messageId m = some row.messageId ∧ deliveryStatus m = some attempt.deliveryStatus) ∧
    (again.log.messages = restored.log.messages ∧ again.log.erasedIds = restored.log.erasedIds ∧
      again.attempts = restored.attempts ∧ again.persistedCount = restored.persistedCount) ∧
    ∀ now offer, History.writeTail c disk kind conversationId restored.log.messages
      restored.persistedCount now offer = (disk, restored.persistedCount, false) := by
  intro rows sends restored again
  have hsound : disk.Sound parse originals :=
    hrun.invariant (fun disk w hadmitted h => Disk.Sound.step h hadmitted) (Disk.sound_empty account)
  have hreadable := hsound.readable kind hstamped hplain
  have hmessages : restored.log.messages =
      (rows.map (·.toStoredMessage)).map (shown parse sends) := hreadable.messages_replay
  have hattempts : restored.attempts = keptSends parse sends := by
    change (History.replay parse {} ∅ _ _).attempts = _
    rw [replay_eq]
    rfl
  refine ⟨fun row => hsound.mem_listHistoryMessages hplain, hsound.nodup_rows hstamped hplain,
    hsound.pairwise_rows hstamped hplain, ?_, fun id attempt => ?_,
    OutboundAttempt.interrupted_spec, fun row hrow attempt hattempt hlive => ?_,
    hreadable.replay_replay, fun now offer => ?_⟩
  · rw [hmessages, List.map_map, List.forall₂_map_right_iff, List.forall₂_same]
    exact fun row hrow => (hsound.shows hstamped hplain hrow).1
  · have hparsed : ∀ send : OutboundAttempt,
        (attemptMessage parse send.interrupted).isSome = (parse send.messageJson).isSome := by
      intro send
      rw [attemptMessage, Option.isSome_map, send.interrupted_spec.2.1]
    rw [show restored.attempts[id]? = _ from hreadable.getElem?_attempts id, Option.map_eq_some_iff]
    constructor
    · rintro ⟨send, hfind, rfl⟩
      obtain ⟨hsend, hid, m, hm⟩ := exists_kept hfind
      refine ⟨send, hsend, hid, ?_, rfl⟩
      rw [← hparsed, hm]
      rfl
    · rintro ⟨send, hsend, hid, hparse, rfl⟩
      refine ⟨send, ?_, rfl⟩
      have hmatch : (decide (send.messageId = id) &&
          (attemptMessage parse send.interrupted).isSome) = true := by
        rw [hid, decide_eq_true rfl, hparsed, hparse]
        rfl
      -- no other send has the id
      rcases hfind : sends.find? (fun send => send.messageId = id &&
          (attemptMessage parse send.interrupted).isSome) with - | send'
      · exact absurd hmatch (List.find?_eq_none.1 hfind send hsend)
      · obtain ⟨hsend', hid', -⟩ := exists_kept hfind
        rw [List.inj_on_of_nodup_map hreadable.sends_nodup hsend hsend' (hid.trans hid'.symm)]
        exact hfind
  · rw [hattempts] at hattempt
    obtain ⟨hshows, hstatus⟩ := hsound.shows hstamped hplain hrow
    refine ⟨_, ?_, hshows.messageId, hstatus attempt hattempt hlive⟩
    rw [hmessages, List.map_map]
    exact List.mem_map_of_mem hrow
  · exact if_pos le_rfl

end Sound

/-! ## A greeting whose send was interrupted -/

/-- Greetings that were sent at the time 7. -/
def greetings : Originals ChatMessage := fun _ _ id =>
  { fromDevice := "ann", body := "hello " ++ id, messageId := some id, sentAtMs := some 7 }

/-- The greeting with the id, while it is sent. -/
def sending (id : String) : ChatMessage :=
  setDelivery (greetings .dm "1" id) { deliveryStatus := some .pending }

/-- The send of the greeting "a" was tried twice. -/
def greetingSend : OutboundAttempt where
  everPublished := some false
  messageId := "a"
  sentAtMs := 7
  messageJson := "a"
  deliveryStatus := .pending
  deliveryError := none
  retryCount := 2
  conversationId := "1"
  ciphertextBytes := 0
  publishPayloadB64 := ""
  autoResends := 0
  lastSendMs := 7

/-- The erased row of the greeting "b". -/
def takenBackRow : Deletion.HistoryRow ChatMessage Unit where
  conversationId := "1"
  sentAtMs := 7
  messageId := "b"
  message := eraseContent
    (setMetadata (greetings .dm "1" "b") (some { deletion := some ⟨.forEveryone, .confirmed, none⟩ }))
  attachmentManifest := none
  previewManifest := none

/-- Two greetings are stored, the send of the first one is saved, and the second one is erased. -/
def greetingWrites : List (DiskWrite ChatMessage Unit) :=
  [.tail .dm "1" [sending "a", greetings .dm "1" "b"] 0 9 (fun _ => none),
    .send .dm "1" "a" [sending "a"] ((∅ : Std.ExtTreeMap String OutboundAttempt compare).insert "a"
      greetingSend) 9,
    .deletions .dm [] [takenBackRow] ∅]

/-- Reads the greeting "a". -/
def readGreeting (json : String) : Option ChatMessage :=
  if json = "a" then some (greetings .dm "1" "a") else none

theorem greetings_stamped : greetings.Stamped :=
  ⟨fun _ _ _ => rfl, fun _ _ _ => ⟨7, by norm_num, rfl⟩⟩

/-- A greeting may be written, also while it is sent. -/
theorem mayWrite_greeting (disk : Disk ChatMessage Unit) {id : String} {row}
    (hconversation : row.conversationId = "1") (hid : row.messageId = id)
    (hsent : row.sentAtMs = 7) (hmessage : row.message = sending id ∨
      row.message = greetings .dm "1" id) : disk.MayWrite greetings .dm row := by
  have hof : Of (greetings .dm row.conversationId row.messageId) row.message ∧
      sentAtMs row.message = some 7 ∧ isErased row.message = false := by
    rw [hid]
    rcases hmessage with heq | heq
    · rw [heq]
      exact ⟨⟨rfl, rfl, fun _ => rfl⟩, rfl, rfl⟩
    · rw [heq]
      exact ⟨⟨rfl, rfl, fun _ => rfl⟩, rfl, rfl⟩
  refine ⟨?_, hof.1, hof.2.1.trans (by rw [hsent]), fun herased => nomatch herased.symm.trans hof.2.2⟩
  rw [hconversation]
  exact (by decide : '\x01' ∉ "1".toList)

/-- The writes of the greetings are a run. -/
theorem runs_greetingWrites : Runs (Disk.step plainTargets)
    (fun disk w => w.Admitted readGreeting greetings disk) (Disk.empty none) greetingWrites
    (greetingWrites.foldl (Disk.step plainTargets) (Disk.empty none)) := by
  refine .cons ?_ (.cons ?_ (.cons ?_ (.nil _)))
  · intro index m hm
    rcases List.mem_cons.1 hm with rfl | hm
    · exact mayWrite_greeting _ rfl rfl rfl (.inl rfl)
    · obtain rfl := List.mem_singleton.1 hm
      exact mayWrite_greeting _ rfl rfl rfl (.inr rfl)
  · refine ⟨fun m hm _ => ?_, fun send hsend => ?_⟩
    · obtain rfl := List.mem_singleton.1 hm
      exact ⟨7, rfl, mayWrite_greeting _ rfl rfl rfl (.inl rfl)⟩
    · rw [Table.getElem?_insert, if_pos rfl] at hsend
      obtain rfl := Option.some.inj hsend
      refine ⟨rfl, by unfold Plain; decide, rfl, fun m hm => ?_⟩
      obtain rfl := Option.some.inj hm
      exact ⟨rfl, rfl, rfl, fun _ => rfl⟩
  · intro row hrow
    obtain rfl := List.mem_singleton.1 hrow
    exact ⟨rfl, by unfold Plain; decide, ⟨rfl, rfl, nofun⟩, rfl, fun _ => nofun⟩

/-- The send of the first greeting has failed after the restart; it was tried twice. -/
theorem restart_shows_what_was_stored_greetings :
    let restored := History.restart
      (greetingWrites.foldl (Disk.step plainTargets) (Disk.empty none)) readGreeting .dm "1"
    restored.attempts["a"]? = some greetingSend.interrupted ∧
      ∃ m ∈ restored.log.messages, messageId m = some "a" ∧ deliveryStatus m = some .failed := by
  obtain ⟨-, -, -, -, hattempts, -, hstatus, -, -⟩ :=
    restart_shows_what_was_stored greetings_stamped runs_greetingWrites .dm
      (show Plain "1" by unfold Plain; decide)
  have hattempt := (hattempts "a" greetingSend.interrupted).2
    ⟨greetingSend, by decide +kernel, rfl, rfl, rfl⟩
  refine ⟨hattempt, ?_⟩
  obtain ⟨row, hrow, hgood⟩ := List.any_eq_true.1
    (show (((greetingWrites.foldl (Disk.step plainTargets) (Disk.empty none)).listHistoryMessages
      .dm "1").any fun row => row.messageId = "a" && !isErased row.message) = true by decide +kernel)
  rw [Bool.and_eq_true, decide_eq_true_eq, Bool.not_eq_true'] at hgood
  obtain ⟨m, hm, hid, hfailed⟩ := hstatus row hrow _ (by rw [hgood.1]; exact hattempt) hgood.2
  exact ⟨m, hm, hid.trans (congrArg some hgood.1), hfailed⟩

/-! ## Two messages with one id -/

/-- A message with an id. -/
def noted (author id : String) (sentAt : Nat) (body : String) : GroupMessage :=
  { fromDevice := author, fromFingerprint := author, body, messageId := some id,
    sentAtMs := some sentAt }

/-- Puts a message that was received at the end of the log, unless it is there. -/
def received (log : MessageLog GroupMessage) (message : GroupMessage) : MessageLog GroupMessage :=
  if log.holdsCopyOf message then log else log.push message

/-- Three messages, where the first and the last one have the same id. -/
def shared : List GroupMessage :=
  [noted "ann" "m" 1 "one", noted "bob" "x" 2 "two", noted "eve" "m" 3 "three"]

/-- The rows of two messages with the same id are shown as one, which is not in its place; the
    content of the first one is not shown. -/
theorem same_id_shown_once :
    let log := (shared.foldl received {}).messages
    let disk : Disk GroupMessage Unit :=
      (History.writeTail plainTargets (Disk.empty none) .group "1" log 0 9 (fun _ => none)).1
    let restored := (History.restart disk (fun _ => none) .group "1").log.messages
    log = shared ∧
    ((disk.listHistoryMessages .group "1").map fun row => (row.messageId, row.sentAtMs)) =
      [("m", 1), ("x", 2), ("m", 3)] ∧
    restored.map (fun m => (messageId m, sentAtMs m)) = [(some "m", some 3), (some "x", some 2)] ∧
    (¬ restored.Pairwise fun a b => (sentAtMs a).getD 0 ≤ (sentAtMs b).getD 0) ∧
    ∃ row ∈ disk.listHistoryMessages .group "1", ∀ m ∈ restored, content m ≠ content row.message := by
  decide +kernel

end Mosh.Conversation
