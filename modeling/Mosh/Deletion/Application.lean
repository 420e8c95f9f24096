import Mosh.Deletion.Guard
import Mosh.Deletion.Target

/-!
# Applying deletions

The deletions of a conversation are applied to its log (`message_deletion/application.rs`):
every message that a deletion matches is erased, and carries the marker of the record
that decides about it. What is erased is also written to the history on disk
(`commit_message_deletions`), where the guard chooses a record again and its marker
goes into the log. This is done over and over, and ought to be quiet when there is
nothing new.

* `apply_quiet_iff`: the choices in memory and on disk agree for every message of the
  log, and a second application changes nothing, if and only if the records that match
  a message are `Agreeable` and messages that are erased at once and share an id are
  left the same.
* `rejection_disagrees`: a request that was rejected here while another one was
  confirmed is applied over and over.
-/

namespace Mosh.Deletion

open Conversation ConversationMessage DeletionRecord
open Conversation.MessageLog (StoredMessage OutboundAttemptRecord)

variable {M : Type} [ConversationMessage M]

/-! ## The book, the store and the conversation -/

/-- The kinds of conversations. -/
inductive Kind
  | dm | group | channel
  deriving DecidableEq, Repr

/-- The start of the context of a conversation. -/
def Kind.text : Kind → String
  | .dm => "dm"
  | .group => "group"
  | .channel => "channel"

/-- The deletions of a conversation in memory. -/
structure DeletionBook where
  kind : Kind
  conversationId : String
  records : Journal
  accepted : Finset String

/-- The context of the conversation. -/
def DeletionBook.context (book : DeletionBook) : String :=
  book.kind.text ++ ":" ++ book.conversationId

/-- What is stored on disk: the deletions, the digests of accepted ones by context, the history
    and the sends by their keys, and the account with whether this device is active in it. -/
structure Store (M : Type) where
  table : DeletionTable
  acceptance : Finset (String × String)
  messages : Std.ExtTreeMap String (StoredMessage M) compare
  attempts : Std.ExtTreeMap String OutboundAttemptRecord compare
  deviceLink : Option (String × Bool)

/-- A conversation to which deletions are applied. -/
structure DeletionContext (M : Type) where
  book : DeletionBook
  log : MessageLog M
  attempts : Std.ExtTreeMap String OutboundAttemptRecord compare
  store : Option (Store M)

/-- The account of the user, as the guard sees it. -/
def Store.deletionOwner (store : Store M) : String := (store.deviceLink.map (·.1)).getD "local"

/-- The account of the user, unless revoked device cannot delete messages. -/
def DeletionContext.user (context : DeletionContext M) : Except String String :=
  match context.store.bind (·.deviceLink) with
  | none => .ok "local"
  | some (user, active) => if active then .ok user else .error "revoked device cannot delete messages"

/-- Reads the deletions of the conversation from the store. -/
def DeletionContext.reload (context : DeletionContext M) : DeletionContext M :=
  match context.store with
  | none => context
  | some store =>
    { context with
      book := { context.book with
        accepted := (store.acceptance.filter (·.1 = context.book.context)).image (·.2)
        records := (store.table.deletionRecords context.book.context).foldl
          (fun records r => records.insert r.storageKey r) context.book.records } }

/-! ## The plan -/

/-- A message that is to be erased: its index, what is left of it, and its stored row. -/
structure Erasure (M : Type) where
  index : Nat
  message : M
  row : StoredMessage M

/-- The erasure of a message in a conversation. -/
def Erasure.new (index : Nat) (message : M) (conversationId : String) : Erasure M where
  index := index
  message := message
  row :=
    { conversationId := conversationId
      sentAtMs := (sentAtMs message).getD 0
      messageId := (messageId message).getD ""
      message := message }

variable (c : TargetCrypto) (transfer : Transfer)

/-- The key of a message, if only this device can tell, and its alias. -/
def messageKeys (context : String) (m : M) : Except String (String × Bool × Option String) := do
  let (key, localOnly) ← target c context m transfer
  let correlation ← messageKey c context m transfer
  return (key, localOnly, correlation)

/-- What is to be erased at a row: nothing if no record matches, or if the row carries its marker
    already. -/
def prepareRow (book : DeletionBook) (records : List DeletionRecord) (index : Nat) (original : M) :
    Except String (Option (Erasure M)) :=
  match messageKeys c transfer book.context original with
  | .error e => .error e
  | .ok (key, localOnly, correlation) =>
    match prepareRecord records key correlation with
    | none => .ok none
    | some record =>
      if deletion original = some record.marker then .ok none
      else .ok (some (.new index (erase original record.marker key correlation localOnly)
        book.conversationId))

/-- What is to be erased, from an index on. -/
def prepare (book : DeletionBook) (records : List DeletionRecord) :
    Nat → List M → Except String (List (Erasure M))
  | _, [] => .ok []
  | index, original :: rest =>
    match prepareRow c transfer book records index original with
    | .error e => .error e
    | .ok change =>
      match prepare book records (index + 1) rest with
      | .error e => .error e
      | .ok changes => .ok (change.toList ++ changes)

/-- A plan of erasures. -/
structure ErasurePlan (M : Type) where
  merged : Journal
  changes : List (Erasure M)
  cancelled : Finset String

/-- The send of an erased message is cancelled if the message is gone for everyone, or was never
    published. -/
def cancels (attempts : Std.ExtTreeMap String OutboundAttemptRecord compare)
    (change : Erasure M) : Bool :=
  (deletion change.message).any (·.scope = .forEveryone) ||
    (attempts[change.row.messageId]?).all (·.everPublished = some false)

/-- The plan for new records. -/
def ErasurePlan.new (context : DeletionContext M) (records : List DeletionRecord) :
    Except String (ErasurePlan M) := do
  let merged := records.foldl mergeDeletionRow context.book.records
  let owner ← context.user
  let relevant := merged.records.filter (concerns owner)
  let changes ← prepare c transfer context.book relevant 0 context.log.messages
  let cancelled := (changes.filter (cancels context.attempts)).map (·.row.messageId)
  return ⟨merged, changes, cancelled.toFinset⟩

/-- The digest of the request of a record. -/
def requestDigest (r : DeletionRecord) : Except String String :=
  match r.request with
  | none => .error "missing request"
  | some request => request.digest c.toDeletionCrypto

/-- The request of a record is known to be accepted. -/
def acceptedIn (book : DeletionBook) (r : DeletionRecord) : Bool :=
  (requestDigest c r).toOption.any (· ∈ book.accepted)

/-- There is nothing to do. -/
def ErasurePlan.unchanged (plan : ErasurePlan M) (context : DeletionContext M)
    (records : List DeletionRecord) (accepted : Bool) : Bool :=
  plan.changes.isEmpty &&
    (records.all fun r => plan.merged[r.storageKey]? = context.book.records[r.storageKey]?) &&
    (!accepted || (records.filter (·.status = .confirmed)).all (acceptedIn c context.book))

/-- Erases the messages in the log, and forgets the sends that are cancelled. -/
def ErasurePlan.apply (plan : ErasurePlan M) (context : DeletionContext M) : DeletionContext M :=
  { context with
    book := { context.book with records := plan.merged }
    attempts := plan.changes.foldl (fun attempts change =>
      if change.row.messageId ∈ plan.cancelled then attempts.erase change.row.messageId
      else attempts) context.attempts
    log := plan.changes.foldl (fun log change => log.replace change.index change.message)
      context.log }

/-! ## The commit to the store -/

/-- The key of a row of the history. -/
def historyMessageKeyOf (row : StoredMessage M) : String :=
  row.conversationId ++ "\x01" ++
    String.ofList ((toString row.sentAtMs).toList.leftpad 20 '0') ++ "\x01" ++ row.messageId

/-- The key of a stored send. -/
def outboundAttemptKey (kind : Kind) (conversationId messageId : String) : String :=
  let scope :=
    match kind with
    | .dm => "private_dm"
    | .group => "private_group"
    | .channel => "channel"
  scope ++ "\x01" ++ conversationId ++ "\x01" ++ messageId

/-- The row of the history with its content erased. -/
def eraseContentRow (row : StoredMessage M) (record : DeletionRecord) (target : String)
    (correlation : Option String) : StoredMessage M :=
  { row with
    message := erase row.message record.marker target correlation
      ((metadata row.message).any (·.localOnly))
    attachmentManifest := none
    previewManifest := none }

/-- The guard on a write to the history: a row that a known deletion matches is erased. -/
def eraseKnownTarget (store : Store M) (kind : Kind) (row : StoredMessage M) : StoredMessage M :=
  let context := kind.text ++ ":" ++ row.conversationId
  let correlation := historyMessageKey c context row
  match (historyTarget c context row.message).or correlation with
  | none => row
  | some target =>
    match matchingDeletion store.table context target correlation store.deletionOwner with
    | none => row
    | some record => eraseContentRow row record target correlation

/-- Writes an erased row, and removes its send if it is cancelled. -/
def commitErasedRow (kind : Kind) (cancelled : Finset String) (store : Store M)
    (row : StoredMessage M) : Store M × Option (String × DeletionMarker) :=
  let erased := eraseKnownTarget c store kind row
  let messages := store.messages.insert (historyMessageKeyOf row) erased
  let attempts :=
    if row.messageId ∈ cancelled then
      store.attempts.erase (outboundAttemptKey kind row.conversationId row.messageId)
    else store.attempts
  ({ store with messages, attempts }, (deletion erased.message).map (erased.messageId, ·))

/-- Saves that a deletion was accepted. -/
def saveDeletionAcceptance (store : Store M) (r : DeletionRecord) : Except String (Store M) := do
  if r.status = .confirmed && r.acknowledgement.isSome && r.request.isSome then
    let digest ← requestDigest c r
    return { store with acceptance := insert (r.context, digest) store.acceptance }
  else return store

/-- Saves records, and that they were accepted if they were. -/
def mergeRecords (accepted : Bool) : List DeletionRecord → Store M → Except String (Store M)
  | [], store => .ok store
  | r :: rest, store => do
    let store := { store with table := store.table.merge r }
    let store ← if accepted then saveDeletionAcceptance c store r else .ok store
    mergeRecords accepted rest store

/-- Writes erased rows. The markers that the guard chose are returned by the ids of their
    messages, the last ones first. -/
def commitErasedRows (kind : Kind) (cancelled : Finset String) (rows : List (StoredMessage M))
    (store : Store M) : Store M × List (String × DeletionMarker) :=
  rows.foldl (fun (store, markers) row =>
    let (store, marker) := commitErasedRow c kind cancelled store row
    (store, marker.toList ++ markers)) (store, [])

/-- Saves records and erased rows together. -/
def commitMessageDeletions (kind : Kind) (store : Store M) (records : List DeletionRecord)
    (rows : List (StoredMessage M)) (cancelled : Finset String) (accepted : Bool) :
    Except String (Store M × List (String × DeletionMarker)) := do
  let store ← mergeRecords c accepted records store
  return commitErasedRows c kind cancelled rows store

/-! ## Installing and applying -/

/-- Puts a marker into the metadata. -/
def withMarker (marker : DeletionMarker) (metadata : MessageMetadata) : MessageMetadata :=
  { metadata with deletion := some marker }

/-- The marker of the guard goes into the message. -/
def Erasure.mark (markers : List (String × DeletionMarker)) (change : Erasure M) : Erasure M :=
  match markers.lookup change.row.messageId with
  | none => change
  | some marker =>
    { change with
      message := setMetadata change.message ((metadata change.message).map (withMarker marker)) }

/-- Saves a plan, if there is a store, and puts the markers of the guard into it. -/
def ErasurePlan.commit (plan : ErasurePlan M) (context : DeletionContext M)
    (records : List DeletionRecord) (accepted : Bool) :
    Except String (ErasurePlan M × DeletionContext M) :=
  match context.store with
  | none => .ok (plan, context)
  | some store => do
    let (store, markers) ← commitMessageDeletions c context.book.kind store records
      (plan.changes.map (·.row)) plan.cancelled accepted
    return ({ plan with changes := plan.changes.map (Erasure.mark markers) },
      { context with store := some store })

/-- Remembers the digests of accepted records. -/
def acceptRecords (book : DeletionBook) : List DeletionRecord → Except String DeletionBook
  | [] => .ok book
  | r :: rest => do
    if r.status = .confirmed && r.acknowledgement.isSome then
      let digest ← requestDigest c r
      acceptRecords { book with accepted := insert digest book.accepted } rest
    else acceptRecords book rest

/-- Installs records: saves them, and erases the messages that they match. -/
def install (context : DeletionContext M) (records : List DeletionRecord) (accepted : Bool) :
    Except String (DeletionContext M) := do
  let plan ← ErasurePlan.new c transfer context records
  if plan.unchanged c context records accepted then return context
  let (plan, context) ← plan.commit c context records accepted
  let book ← if accepted then acceptRecords c context.book records else .ok context.book
  return plan.apply { context with book }

/-- Applies the deletions of the conversation to its log. -/
def apply (context : DeletionContext M) : Except String (DeletionContext M) := do
  let context := context.reload
  if context.book.records.isEmpty then return context
  let user ← context.user
  install c transfer context (context.book.records.records.filter (concerns user)) false

/-! ## The rows that are to be erased -/

section Rows

variable {c transfer} {book : DeletionBook} {records : List DeletionRecord} {index : Nat} {m : M}
  {rows : List M} {change : Erasure M} {changes : List (Erasure M)}

/-- What is to be erased at a row. -/
theorem prepareRow_eq_some (h : prepareRow c transfer book records index m = .ok (some change)) :
    ∃ key localOnly correlation record,
      messageKeys c transfer book.context m = .ok (key, localOnly, correlation) ∧
      prepareRecord records key correlation = some record ∧
      deletion m ≠ some record.marker ∧
      change = .new index (erase m record.marker key correlation localOnly)
        book.conversationId := by
  rw [prepareRow] at h
  split at h
  · cases h
  next key localOnly correlation hkeys =>
    split at h
    · cases h
    next record hrecord =>
      split at h
      · cases h
      next hdeletion =>
        exact ⟨key, localOnly, correlation, record, hkeys, hrecord, hdeletion,
          (Option.some.inj (Except.ok.inj h)).symm⟩

/-- If anything is to be erased at a row whose keys are known. -/
theorem prepareRow_eq_ok {key : String} {localOnly : Bool} {correlation : Option String}
    (hkeys : messageKeys c transfer book.context m = .ok (key, localOnly, correlation)) :
    prepareRow c transfer book records index m = .ok none ↔
      ∀ record, prepareRecord records key correlation = some record →
        deletion m = some record.marker := by
  rw [prepareRow, hkeys]
  cases hrecord : prepareRecord records key correlation with
  | none => simp [hrecord]
  | some record =>
    by_cases hdeletion : deletion m = some record.marker
    · simp [hrecord, hdeletion]
    · simp [hrecord, hdeletion]

/-- All rows are looked at. -/
theorem prepare_row (h : prepare c transfer book records index rows = .ok changes) {j : Nat}
    (hm : rows[j]? = some m) :
    ∃ x, prepareRow c transfer book records (index + j) m = .ok x ∧ ∀ e ∈ x, e ∈ changes := by
  induction rows generalizing index changes j with
  | nil => cases hm
  | cons row rows ih =>
    rw [prepare] at h
    split at h
    · cases h
    next change hchange =>
      split at h
      · cases h
      next rest hrest =>
        obtain rfl := Except.ok.inj h
        cases j with
        | zero =>
          obtain rfl := Option.some.inj hm
          refine ⟨change, hchange, fun e he => List.mem_append_left _ ?_⟩
          exact Option.mem_toList.2 he
        | succ j =>
          obtain ⟨x, hx, hmem⟩ := ih hrest (j := j) hm
          refine ⟨x, ?_, fun e he => List.mem_append_right _ (hmem e he)⟩
          rwa [Nat.add_right_comm, Nat.add_assoc] at hx

/-- What is to be erased is a row. -/
theorem mem_prepare (h : prepare c transfer book records index rows = .ok changes)
    (hchange : change ∈ changes) :
    ∃ j m, rows[j]? = some m ∧
      prepareRow c transfer book records (index + j) m = .ok (some change) := by
  induction rows generalizing index changes with
  | nil =>
    obtain rfl := Except.ok.inj h
    cases hchange
  | cons row rows ih =>
    rw [prepare] at h
    split at h
    · cases h
    next first hfirst =>
      split at h
      · cases h
      next rest hrest =>
        obtain rfl := Except.ok.inj h
        obtain hmem | hmem := List.mem_append.1 hchange
        · rw [Option.mem_toList] at hmem
          exact ⟨0, row, rfl, by rw [Nat.add_zero, hfirst, Option.mem_def.1 hmem]⟩
        · obtain ⟨j, m, hm, hrow⟩ := ih hrest hmem
          refine ⟨j + 1, m, hm, ?_⟩
          rwa [Nat.add_right_comm, Nat.add_assoc] at hrow

/-- Nothing is to be erased if nothing is at any row. -/
theorem prepare_eq_nil (h : ∀ (j : Nat) (m : M), rows[j]? = some m →
      prepareRow c transfer book records (index + j) m = .ok none) :
    prepare c transfer book records index rows = .ok [] := by
  induction rows generalizing index with
  | nil => rfl
  | cons row rows ih =>
    have hrow := h 0 row rfl
    rw [Nat.add_zero] at hrow
    have hrest := @ih (index + 1) fun j m hm => by
      have := h (j + 1) m hm
      rwa [Nat.add_right_comm, Nat.add_assoc]
    rw [prepare, hrow, hrest]
    rfl

/-- The erasures depend on which conversation it is, and not on the rest of the book. -/
theorem prepare_congr {book' : DeletionBook} (hkind : book.kind = book'.kind)
    (hid : book.conversationId = book'.conversationId) :
    prepare c transfer book records index rows = prepare c transfer book' records index rows := by
  have hrow : ∀ i (m : M), prepareRow c transfer book records i m =
      prepareRow c transfer book' records i m := by
    intro i m
    rw [prepareRow, prepareRow, DeletionBook.context, DeletionBook.context, hkind, hid]
  induction rows generalizing index with
  | nil => rfl
  | cons row rows ih => rw [prepare, prepare, hrow, ih]

/-- There are at most as many erasures as rows. -/
theorem length_prepare (h : prepare c transfer book records index rows = .ok changes) :
    changes.length ≤ rows.length := by
  induction rows generalizing index changes with
  | nil =>
    obtain rfl := Except.ok.inj h
    exact le_rfl
  | cons row rows ih =>
    rw [prepare] at h
    split at h
    · cases h
    next first hfirst =>
      split at h
      · cases h
      next rest hrest =>
        obtain rfl := Except.ok.inj h
        have hlen := ih hrest
        rw [List.length_append, List.length_cons, Option.length_toList]
        split
        · omega
        · omega

end Rows

/-! ## What an application does -/

section Apply

/-- The deletions of the conversation that concern the user. -/
def relevant (s : DeletionContext M) (st : Store M) : List DeletionRecord :=
  s.book.records.records.filter (concerns st.deletionOwner)

/-- The book holds the deletions that are stored for the conversation, which are of the two
    kinds. -/
structure Synced (s : DeletionContext M) (st : Store M) : Prop where
  store : s.store = some st
  records : ∀ k, s.book.records[k]? =
    if underContext s.book.context k then st.table.journal[k]? else none
  context : ∀ r ∈ st.table.deletionRecords s.book.context, r.context = s.book.context
  shape : ∀ r ∈ st.table.deletionRecords s.book.context, Shape r

variable {c transfer} {s : DeletionContext M} {st : Store M} {r : DeletionRecord}

namespace Synced

omit [ConversationMessage M] in
/-- The book holds the stored records. -/
theorem mem_iff (hs : Synced s st) :
    r ∈ s.book.records.records ↔ r ∈ st.table.deletionRecords s.book.context := by
  rw [DeletionTable.mem_deletionRecords, Journal.records, List.mem_map]
  constructor
  · rintro ⟨⟨k, r'⟩, hmem, rfl⟩
    have hk := Std.ExtTreeMap.mem_toList_iff_getElem?_eq_some.1 hmem
    rw [hs.records] at hk
    split at hk
    · next hu =>
      rw [st.table.keyed k r' hk]
      exact ⟨hk, hu⟩
    · cases hk
  · rintro ⟨h, hu⟩
    refine ⟨(r.storageKey, r), Std.ExtTreeMap.mem_toList_iff_getElem?_eq_some.2 ?_, rfl⟩
    rw [hs.records, if_pos hu, h]

omit [ConversationMessage M] in
/-- A record of the book is filed under its key. -/
theorem getElem? (hs : Synced s st) (h : r ∈ s.book.records.records) :
    s.book.records[r.storageKey]? = some r := by
  obtain ⟨hrow, hu⟩ := DeletionTable.mem_deletionRecords.1 (hs.mem_iff.1 h)
  rw [hs.records, if_pos hu, hrow]

end Synced

/-- Filing a record that is there changes nothing. -/
theorem insert_self {journal : Journal} {k : String} (h : journal[k]? = some r) :
    journal.insert k r = journal := by
  refine Std.ExtTreeMap.ext_getElem? fun k' => ?_
  rw [Std.ExtTreeMap.getElem?_insert]
  split
  · next hk => rw [← Std.compare_eq_iff_eq.1 hk, h]
  · rfl

omit [ConversationMessage M] in
/-- The stored records are those of the book already. -/
theorem Synced.reload_eq (hs : Synced s st) : s.reload = { s with book := { s.book with
    accepted := (st.acceptance.filter (·.1 = s.book.context)).image (·.2) } } := by
  have hfold : (st.table.deletionRecords s.book.context).foldl
      (fun records r => records.insert r.storageKey r) s.book.records = s.book.records := by
    refine List.foldlRecOn (motive := fun records => records = s.book.records) _ _ rfl ?_
    intro records h r hr
    rw [h, insert_self (hs.getElem? (hs.mem_iff.2 hr))]
  rw [DeletionContext.reload, hs.store]
  simp only [hfold]

omit [ConversationMessage M] in
/-- Records that are there change nothing. -/
theorem Synced.foldl_merge (hs : Synced s st) {records : List DeletionRecord}
    (h : ∀ r ∈ records, r ∈ s.book.records.records) :
    records.foldl mergeDeletionRow s.book.records = s.book.records := by
  refine List.foldlRecOn (motive := fun journal => journal = s.book.records) _ _ rfl ?_
  intro journal hj r hr
  have hrow := hs.getElem? (h r hr)
  rw [hj, mergeDeletionRow, mergedRow, hrow]
  exact (congrArg _ (merged_self r)).trans (insert_self hrow)

omit [ConversationMessage M] in
/-- Stored records that are merged again change nothing. -/
theorem Synced.mergeRecords_eq (hs : Synced s st) {records : List DeletionRecord}
    (h : ∀ r ∈ records, r ∈ s.book.records.records) :
    mergeRecords c false records st = .ok st := by
  induction records with
  | nil => rfl
  | cons r rest ih =>
    have hr := DeletionTable.mem_deletionRecords.1 (hs.mem_iff.1 (h r (.head _)))
    rw [mergeRecords, DeletionTable.merge_of_mem (DeletionTable.mem_records.2 hr.1)]
    exact ih fun r hr => h r (.tail _ hr)

omit [ConversationMessage M] in
/-- The user of an active device. -/
theorem user_eq (hstore : s.store = some st) {user : String} (h : s.user = .ok user) :
    user = st.deletionOwner := by
  rw [DeletionContext.user, hstore, Option.bind_some] at h
  rw [Store.deletionOwner]
  split at h
  · next hnone =>
    rw [hnone]
    exact (Except.ok.inj h).symm
  · next user' active hsome =>
    rw [hsome]
    split at h
    · exact (Except.ok.inj h).symm
    · cases h

variable (c) in
/-- What an application with these erasures leaves. -/
def outcome (s : DeletionContext M) (st : Store M) (changes : List (Erasure M)) :
    DeletionContext M :=
  if changes.isEmpty then s.reload
  else
    let cancelled := ((changes.filter (cancels s.attempts)).map (·.row.messageId)).toFinset
    let committed := commitErasedRows c s.book.kind cancelled (changes.map (·.row)) st
    ErasurePlan.apply ⟨s.book.records, changes.map (Erasure.mark committed.2), cancelled⟩
      { s.reload with store := some committed.1 }

/-- An application erases what is to be erased by the relevant deletions. -/
theorem Synced.apply_eq (hs : Synced s st) : apply c transfer s =
    if s.book.records.isEmpty then .ok s.reload
    else s.user.bind fun _ =>
      (prepare c transfer s.book (relevant s st) 0 s.log.messages).map (outcome c s st) := by
  have hreload := hs.reload_eq
  rw [apply]
  have hrecords : s.reload.book.records = s.book.records := by rw [hreload]
  have huser : s.reload.user = s.user := by
    rw [hreload]
    rfl
  simp only [hrecords, huser]
  split
  · rfl
  cases hu : s.user with
  | error e => rfl
  | ok user =>
    have howner := user_eq hs.store hu
    have hrelevant : s.book.records.records.filter (concerns user) = relevant s st := by
      rw [howner, relevant]
    have hmem : ∀ r ∈ relevant s st, r ∈ s.book.records.records :=
      fun r hr => (List.mem_filter.1 hr).1
    have hprepare : prepare c transfer s.reload.book (relevant s st) 0 s.reload.log.messages =
        prepare c transfer s.book (relevant s st) 0 s.log.messages := by
      rw [hreload]
      exact prepare_congr rfl rfl
    change install c transfer s.reload (s.book.records.records.filter (concerns user)) false = _
    have hnew : ErasurePlan.new c transfer s.reload (relevant s st) =
        (prepare c transfer s.book (relevant s st) 0 s.log.messages).map fun changes =>
          ⟨s.book.records, changes,
            ((changes.filter (cancels s.attempts)).map (·.row.messageId)).toFinset⟩ := by
      rw [ErasurePlan.new, hrecords, hs.foldl_merge hmem, huser, hu]
      simp only [bind, Except.bind, pure, Except.pure, hrelevant, hprepare]
      cases prepare c transfer s.book (relevant s st) 0 s.log.messages with
      | error e => rfl
      | ok changes =>
        rw [hreload]
        rfl
    rw [hrelevant, install, hnew]
    cases prepare c transfer s.book (relevant s st) 0 s.log.messages with
    | error e => rfl
    | ok changes =>
      have hunchanged : ErasurePlan.unchanged c ⟨s.book.records, changes,
          ((changes.filter (cancels s.attempts)).map (·.row.messageId)).toFinset⟩ s.reload
          (relevant s st) false = changes.isEmpty := by
        rw [ErasurePlan.unchanged, hrecords]
        simp
      have hstore : s.reload.store = some st := by
        rw [hreload]
        exact hs.store
      have hkind : s.reload.book.kind = s.book.kind := by rw [hreload]
      simp only [Except.map, bind, Except.bind, pure, Except.pure, hunchanged, outcome]
      cases changes.isEmpty with
      | true => rfl
      | false =>
        simp only [ErasurePlan.commit, hstore, commitMessageDeletions, hs.mergeRecords_eq hmem,
          bind, Except.bind, pure, Except.pure, hkind]
        rfl

/-! ## What the guard writes -/

/-- The parts of the store that the guard reads and the rows do not change. -/
structure SameTables (st st' : Store M) : Prop where
  table : st'.table = st.table
  acceptance : st'.acceptance = st.acceptance
  deviceLink : st'.deviceLink = st.deviceLink

/-- The guard keeps the id of a row. -/
theorem messageId_eraseKnownTarget (kind : Kind) (row : StoredMessage M) :
    (eraseKnownTarget c st kind row).messageId = row.messageId := by
  rw [eraseKnownTarget]
  split
  · rfl
  · split
    · rfl
    · rfl

/-- What the guard leaves of a row whose key is known and that a deletion matches. -/
theorem deletion_eraseKnownTarget {context target : String} {kind : Kind} {row : StoredMessage M}
    {record : DeletionRecord} (hcontext : kind.text ++ ":" ++ row.conversationId = context)
    (htarget : historyTarget c context row.message = some target)
    (hrecord : matchingDeletion st.table context target (historyMessageKey c context row)
      st.deletionOwner = some record) :
    deletion (eraseKnownTarget c st kind row).message = some record.marker := by
  rw [eraseKnownTarget, hcontext, htarget, Option.some_or]
  simp only [hrecord, eraseContentRow, deletion_erase]

/-- The guard reads the tables of deletions and the account. -/
theorem eraseKnownTarget_congr {st' : Store M} (h : SameTables st st') (kind : Kind)
    (row : StoredMessage M) : eraseKnownTarget c st' kind row = eraseKnownTarget c st kind row := by
  rw [eraseKnownTarget, eraseKnownTarget, Store.deletionOwner, Store.deletionOwner, h.table,
    h.deviceLink]

variable (c) in
/-- The marker that the guard leaves in a row, with the id of the row. -/
def guardMarker (st : Store M) (kind : Kind) (row : StoredMessage M) :
    Option (String × DeletionMarker) :=
  (deletion (eraseKnownTarget c st kind row).message).map (row.messageId, ·)

/-- Writing rows keeps the tables, and returns the markers of the guard, the last ones first. -/
theorem commitErasedRows_spec (kind : Kind) (cancelled : Finset String)
    (rows : List (StoredMessage M)) (st : Store M) :
    SameTables st (commitErasedRows c kind cancelled rows st).1 ∧
      (commitErasedRows c kind cancelled rows st).2 =
        rows.reverse.filterMap (guardMarker c st kind) := by
  induction rows using List.reverseRecOn with
  | nil => exact ⟨⟨rfl, rfl, rfl⟩, rfl⟩
  | append_singleton rows row ih =>
    obtain ⟨hsame, hmarkers⟩ := ih
    rw [commitErasedRows, List.foldl_append] at *
    simp only [List.foldl_cons, List.foldl_nil, commitErasedRow] at *
    refine ⟨⟨hsame.table, hsame.acceptance, hsame.deviceLink⟩, ?_⟩
    rw [hmarkers, eraseKnownTarget_congr hsame, messageId_eraseKnownTarget, List.reverse_append,
      List.reverse_singleton, List.singleton_append, List.filterMap_cons, guardMarker]
    cases deletion (eraseKnownTarget c st kind row).message with
    | none => rfl
    | some marker => rfl

/-! ## The two choices for a message -/

section Keys

variable {records : List DeletionRecord} {key : String} {correlation correlation' : Option String}

/-- The choice in memory depends on the alias only if it is not the key. -/
theorem prepareRecord_congr
    (h : correlation'.filter (· ≠ key) = correlation.filter (· ≠ key)) :
    prepareRecord records key correlation' = prepareRecord records key correlation := by
  have hm : (fun r : DeletionRecord => r.matches key correlation') =
      fun r => r.matches key correlation := by
    funext r
    rw [← matches_effective, h, matches_effective]
  rw [prepareRecord, hm, prepareRecord]

/-- The choice on disk depends on the alias only if it is not the key. -/
theorem matchingDeletion_congr {table : DeletionTable} {context owner : String}
    (h : correlation'.filter (· ≠ key) = correlation.filter (· ≠ key)) :
    matchingDeletion table context key correlation' owner =
      matchingDeletion table context key correlation owner := by
  have hm : (fun r : DeletionRecord => r.matches key correlation' && concerns owner r) =
      fun r => r.matches key correlation && concerns owner r := by
    funext r
    rw [← matches_effective, h, matches_effective]
  rw [matchingDeletion, matching, h, hm, matchingDeletion, matching]

end Keys

/-- The relevant deletions that match a message. -/
def found (s : DeletionContext M) (st : Store M) (key : String) (correlation : Option String) :
    List DeletionRecord :=
  (relevant s st).filter (·.matches key correlation)

omit [ConversationMessage M] in
/-- Memory and disk look at the same records. -/
theorem Synced.sameRecords (hs : Synced s st) (key : String) (correlation : Option String) :
    SameRecords (found s st key correlation)
      (matching st.table s.book.context key correlation st.deletionOwner) := by
  have hmem : ∀ r, r ∈ found s st key correlation ↔
      r ∈ st.table.deletionRecords s.book.context ∧ r.matches key correlation ∧
        concerns st.deletionOwner r := by
    intro r
    rw [found, relevant, List.mem_filter, List.mem_filter, hs.mem_iff]
    exact ⟨fun ⟨⟨h, hc⟩, hm⟩ => ⟨h, hm, hc⟩, fun ⟨h, hm, hc⟩ => ⟨⟨h, hc⟩, hm⟩⟩
  refine ⟨fun r => (hmem r).trans (mem_matching hs.context).symm, ?_, ?_⟩
  · intro r hr r' hr' hk
    exact DeletionTable.storageKey_inj ((hmem r).1 hr).1 ((hmem r').1 hr').1 hk
  · intro r hr hscope
    cases hs.shape r ((hmem r).1 hr).1 with
    | personal _ hstatus _ => exact hstatus
    | shared hshared _ _ =>
      rw [hscope] at hshared
      cases hshared

variable (c transfer) in
/-- The choices in memory and on disk leave the same of every message of the log. -/
def MarkersAgree (s : DeletionContext M) (st : Store M) : Prop :=
  ∀ m ∈ s.log.messages, ∀ key localOnly correlation,
    messageKeys c transfer s.book.context m = .ok (key, localOnly, correlation) →
    (prepareRecord (relevant s st) key correlation).map marker =
      (matchingDeletion st.table s.book.context key correlation st.deletionOwner).map marker

variable (c transfer) in
/-- The deletions that match a message of the log are agreeable. -/
def RecordsAgreeable (s : DeletionContext M) (st : Store M) : Prop :=
  ∀ m ∈ s.log.messages, ∀ key localOnly correlation,
    messageKeys c transfer s.book.context m = .ok (key, localOnly, correlation) →
    Agreeable (found s st key correlation)

/-- When memory and disk agree. -/
theorem Synced.markersAgree_iff (hs : Synced s st) :
    MarkersAgree c transfer s st ↔ RecordsAgreeable c transfer s st :=
  forall₂_congr fun _ _ => forall₃_congr fun key _ correlation =>
    imp_congr_right fun _ => (hs.sameRecords key correlation).marker_agree_iff

/-! ## What is left in the log -/

/-- The rows after some are replaced. -/
theorem foldl_replace (changes : List (Erasure M)) (log : MessageLog M)
    (hrange : ∀ e ∈ changes, e.index < log.messages.length) :
    let log' := changes.foldl (fun log e => log.replace e.index e.message) log
    log'.messages.length = log.messages.length ∧
      log'.revision = log.revision + UInt64.ofNat changes.length ∧
      ∀ j : Nat, (∃ e ∈ changes, e.index = j ∧ log'.messages[j]? = some e.message) ∨
        (∀ e ∈ changes, e.index ≠ j) ∧ log'.messages[j]? = log.messages[j]? := by
  induction changes using List.reverseRecOn with
  | nil => exact ⟨rfl, by simp, fun j => .inr ⟨fun _ he => absurd he List.not_mem_nil, rfl⟩⟩
  | append_singleton changes e ih =>
    obtain ⟨hlen, hrev, hrows⟩ := ih fun e he => hrange e (List.mem_append_left _ he)
    have he := hrange e (List.mem_append_right _ (List.mem_singleton_self e))
    simp only [List.foldl_append, List.foldl_cons, List.foldl_nil]
    rw [MessageLog.messages_replace, MessageLog.revision_replace, List.length_set, hrev,
      List.length_append, List.length_singleton]
    refine ⟨hlen, ?_, fun j => ?_⟩
    · rw [UInt64.ofNat_add, add_assoc]
      rfl
    · by_cases hj : e.index = j
      · refine .inl ⟨e, List.mem_append_right _ (List.mem_singleton_self e), hj, ?_⟩
        rw [← hj, List.getElem?_set_self (hlen ▸ he)]
      · rw [List.getElem?_set_ne hj]
        obtain ⟨e', he', hj', hrow⟩ | ⟨hne, hrow⟩ := hrows j
        · exact .inl ⟨e', List.mem_append_left _ he', hj', hrow⟩
        · refine .inr ⟨fun e' he' => ?_, hrow⟩
          obtain he' | he' := List.mem_append.1 he'
          · exact hne e' he'
          · rwa [List.mem_singleton.1 he']

/-- A lookup in a list of pairs finds one with the key. -/
theorem lookup_map_of_mem {α : Type} {l : List α} {k : α → String} {v : α → DeletionMarker} {x : α}
    (hx : x ∈ l) : ∃ y ∈ l, k y = k x ∧ (l.map fun a => (k a, v a)).lookup (k x) = some (v y) := by
  induction l with
  | nil => cases hx
  | cons a l ih =>
    rw [List.map_cons, List.lookup_cons]
    by_cases hk : k x = k a
    · refine ⟨a, .head _, hk.symm, ?_⟩
      rw [beq_iff_eq.2 hk]
    · obtain rfl | hx := List.mem_cons.1 hx
      · exact absurd rfl hk
      obtain ⟨y, hy, hky, hl⟩ := ih hx
      refine ⟨y, .tail _ hy, hky, ?_⟩
      rw [beq_eq_false_iff_ne.2 hk]
      exact hl

/-- The marker of the guard takes the place of the one in memory. -/
theorem mark_erase {m : M} {marker marker' : DeletionMarker} {key : String}
    {correlation : Option String} {localOnly : Bool} :
    setMetadata (erase m marker key correlation localOnly)
      ((metadata (erase m marker key correlation localOnly)).map (withMarker marker')) =
        erase m marker' key correlation localOnly := by
  rw [metadata_erase, erase, setMetadata_eraseContent, setMetadata_setMetadata]
  rfl

variable (c transfer) in
/-- The key and the alias of an erased message are found again, in the log and in its row on disk:
    the alias is the same, unless it is the key. -/
def KeysSurvive (s : DeletionContext M) : Prop :=
  ∀ m ∈ s.log.messages, ∀ key localOnly correlation,
    messageKeys c transfer s.book.context m = .ok (key, localOnly, correlation) → ∀ marker,
    (∃ live, messageKey c s.book.context (erase m marker key correlation localOnly) transfer =
        .ok live ∧ live.filter (· ≠ key) = correlation.filter (· ≠ key)) ∧
      (historyMessageKey c s.book.context (Erasure.new 0
        (erase m marker key correlation localOnly) s.book.conversationId).row).filter (· ≠ key) =
          correlation.filter (· ≠ key)

/-- The keys of an erased message. -/
theorem messageKeys_erase {context : String} {m : M} {marker : DeletionMarker} {key : String}
    {correlation live : Option String} {localOnly : Bool}
    (h : messageKey c context (erase m marker key correlation localOnly) transfer = .ok live) :
    messageKeys c transfer context (erase m marker key correlation localOnly) =
      .ok (key, localOnly, live) := by
  rw [messageKeys, target_erase, h]
  rfl

/-- The marker that an erasure leaves. -/
def leftMarker (e : Erasure M) : DeletionMarker :=
  (deletion e.message).getD ⟨.forMe, .pending, none⟩

@[simp]
theorem leftMarker_new {m : M} {marker : DeletionMarker} {key : String} {index : Nat}
    {correlation : Option String} {localOnly : Bool} {conversationId : String} :
    leftMarker (.new index (erase m marker key correlation localOnly) conversationId) = marker := by
  rw [leftMarker, Erasure.new, deletion_erase, Option.getD_some]

variable {changes : List (Erasure M)} {e : Erasure M} {cancelled : Finset String}

/-- An erasure is one of a message of the log, by the record that decides about it. -/
theorem erasure_spec (h : prepare c transfer s.book (relevant s st) 0 s.log.messages = .ok changes)
    (he : e ∈ changes) :
    ∃ m key localOnly correlation record, s.log.messages[e.index]? = some m ∧
      messageKeys c transfer s.book.context m = .ok (key, localOnly, correlation) ∧
      prepareRecord (relevant s st) key correlation = some record ∧
      deletion m ≠ some record.marker ∧
      e = .new e.index (erase m record.marker key correlation localOnly)
        s.book.conversationId := by
  obtain ⟨j, m, hm, hrow⟩ := mem_prepare h he
  rw [Nat.zero_add] at hrow
  obtain ⟨key, localOnly, correlation, record, hkeys, hrecord, hdeletion, rfl⟩ :=
    prepareRow_eq_some hrow
  exact ⟨m, key, localOnly, correlation, record, hm, hkeys, hrecord, hdeletion, rfl⟩

/-- There is one erasure for a row. -/
theorem erasure_unique
    (h : prepare c transfer s.book (relevant s st) 0 s.log.messages = .ok changes) {e' : Erasure M}
    (he : e ∈ changes) (he' : e' ∈ changes) (hindex : e.index = e'.index) : e = e' := by
  obtain ⟨m, key, localOnly, correlation, record, hm, hkeys, hrecord, -, heq⟩ := erasure_spec h he
  obtain ⟨m', key', localOnly', correlation', record', hm', hkeys', hrecord', -, heq'⟩ :=
    erasure_spec h he'
  rw [hindex] at hm
  obtain rfl := Option.some.inj (hm.symm.trans hm')
  obtain ⟨rfl, rfl, rfl⟩ := Except.ok.inj (hkeys.symm.trans hkeys')
  obtain rfl := Option.some.inj (hrecord.symm.trans hrecord')
  rw [heq, heq', hindex]

/-- Where memory and disk agree, the guard leaves the marker of the erasure in its row. -/
theorem Synced.guardMarker_eq (hkeys : KeysSurvive c transfer s)
    (hagree : MarkersAgree c transfer s st)
    (h : prepare c transfer s.book (relevant s st) 0 s.log.messages = .ok changes)
    (he : e ∈ changes) :
    guardMarker c st s.book.kind e.row = some (e.row.messageId, leftMarker e) := by
  obtain ⟨m, key, localOnly, correlation, record, hm, hk, hrecord, -, heq⟩ := erasure_spec h he
  have hmem := List.mem_of_getElem? hm
  obtain ⟨-, hdisk⟩ := hkeys m hmem key localOnly correlation hk record.marker
  have hmarker := hagree m hmem key localOnly correlation hk
  rw [hrecord, Option.map_some, ← matchingDeletion_congr hdisk] at hmarker
  obtain ⟨record', hrecord', hsame⟩ := Option.map_eq_some_iff.1 hmarker.symm
  have hleft : deletion (eraseKnownTarget c st s.book.kind (Erasure.new e.index
      (erase m record.marker key correlation localOnly) s.book.conversationId).row).message =
        some record'.marker :=
    deletion_eraseKnownTarget (show _ = s.book.context from rfl) (historyTarget_erase _) hrecord'
  rw [heq, guardMarker, leftMarker_new, hleft, hsame, Option.map_some]

/-- The markers that are returned. -/
theorem Synced.markers_eq (hkeys : KeysSurvive c transfer s)
    (hagree : MarkersAgree c transfer s st)
    (h : prepare c transfer s.book (relevant s st) 0 s.log.messages = .ok changes) :
    (commitErasedRows c s.book.kind cancelled (changes.map (·.row)) st).2 =
      changes.reverse.map fun e => (e.row.messageId, leftMarker e) := by
  rw [(commitErasedRows_spec _ _ _ _).2, ← List.map_reverse, List.filterMap_map,
    ← List.filterMap_eq_map]
  refine List.filterMap_congr fun e he => ?_
  exact Synced.guardMarker_eq hkeys hagree h (List.mem_reverse.1 he)

/-- The log after the erasures, with the markers that the guard returned. -/
def erasedLog (changes : List (Erasure M)) (log : MessageLog M) : MessageLog M :=
  let markers := changes.reverse.map fun e => (e.row.messageId, leftMarker e)
  (changes.map (Erasure.mark markers)).foldl (fun log e => log.replace e.index e.message) log

/-- The marker that is found for an erasure is that of one with the same id. -/
theorem lookup_marker (he : e ∈ changes) :
    ∃ y ∈ changes, y.row.messageId = e.row.messageId ∧
      (changes.reverse.map fun e => (e.row.messageId, leftMarker e)).lookup e.row.messageId =
        some (leftMarker y) := by
  obtain ⟨y, hy, hid, hl⟩ := lookup_map_of_mem (k := fun e : Erasure M => e.row.messageId)
    (v := leftMarker) (List.mem_reverse.2 he)
  exact ⟨y, List.mem_reverse.1 hy, hid, hl⟩

@[simp]
theorem index_mark (markers : List (String × DeletionMarker)) (e : Erasure M) :
    (e.mark markers).index = e.index := by
  rw [Erasure.mark]
  split
  · rfl
  · rfl

/-- A row after the erasures: an erased one, with the marker of an erasure with the same id, or one
    that was not to be erased. -/
theorem erasedLog_row
    (h : prepare c transfer s.book (relevant s st) 0 s.log.messages = .ok changes) (j : Nat) :
    (∃ e ∈ changes, ∃ y ∈ changes, e.index = j ∧ y.row.messageId = e.row.messageId ∧
      ∃ m key localOnly correlation record, s.log.messages[j]? = some m ∧
        messageKeys c transfer s.book.context m = .ok (key, localOnly, correlation) ∧
        prepareRecord (relevant s st) key correlation = some record ∧
        leftMarker e = record.marker ∧
        (changes.reverse.map fun e => (e.row.messageId, leftMarker e)).lookup e.row.messageId =
          some (leftMarker y) ∧
        (erasedLog changes s.log).messages[j]? =
          some (erase m (leftMarker y) key correlation localOnly)) ∨
    (∀ e ∈ changes, e.index ≠ j) ∧
      (erasedLog changes s.log).messages[j]? = s.log.messages[j]? := by
  have hrange : ∀ e ∈ changes.map (Erasure.mark (changes.reverse.map fun e =>
      (e.row.messageId, leftMarker e))), e.index < s.log.messages.length := by
    intro e' he'
    obtain ⟨e, he, rfl⟩ := List.mem_map.1 he'
    obtain ⟨m, -, -, -, -, hm, -⟩ := erasure_spec h he
    rw [index_mark]
    exact (List.getElem?_eq_some_iff.1 hm).1
  obtain ⟨-, -, hrows⟩ := foldl_replace _ s.log hrange
  obtain ⟨e', he', hj, hrow⟩ | ⟨hne, hrow⟩ := hrows j
  · obtain ⟨e, he, rfl⟩ := List.mem_map.1 he'
    rw [index_mark] at hj
    obtain ⟨m, key, localOnly, correlation, record, hm, hkeys, hrecord, -, heq⟩ :=
      erasure_spec h he
    obtain ⟨y, hy, hid, hl⟩ := lookup_marker he
    refine .inl ⟨e, he, y, hy, hj, hid, m, key, localOnly, correlation, record, hj ▸ hm, hkeys,
      hrecord, by rw [heq, leftMarker_new], hl, ?_⟩
    rw [erasedLog, hrow, Erasure.mark, hl, Option.some.injEq]
    change setMetadata e.message ((metadata e.message).map (withMarker (leftMarker y))) = _
    rw [heq]
    exact mark_erase
  · refine .inr ⟨fun e he => ?_, hrow⟩
    have := hne _ (List.mem_map_of_mem he)
    rwa [index_mark] at this

/-- After the erasures there is nothing left to be erased, if and only if those that share an id
    leave the same marker. -/
theorem prepare_again_iff (hkeys : KeysSurvive c transfer s)
    (h : prepare c transfer s.book (relevant s st) 0 s.log.messages = .ok changes) :
    prepare c transfer s.book (relevant s st) 0 (erasedLog changes s.log).messages = .ok [] ↔
      ∀ e ∈ changes, ∀ e' ∈ changes, e.row.messageId = e'.row.messageId →
        leftMarker e = leftMarker e' := by
  constructor
  · intro hnil
    -- the marker that is found for an erasure is its own
    have hown : ∀ e ∈ changes,
        (changes.reverse.map fun e => (e.row.messageId, leftMarker e)).lookup e.row.messageId =
          some (leftMarker e) := by
      intro e he
      obtain ⟨e₁, he₁, y, -, hj, -, m, key, localOnly, correlation, record, hm, hk, hrecord, hleft,
        hl, hrow⟩ | ⟨hne, -⟩ := erasedLog_row h e.index
      · obtain rfl := erasure_unique h he₁ he hj
        obtain ⟨⟨live, hlive, heff⟩, -⟩ :=
          hkeys m (List.mem_of_getElem? hm) key localOnly correlation hk (leftMarker y)
        obtain ⟨x, hx, hmem⟩ := prepare_row hnil hrow
        have hnone : x = none := Option.eq_none_iff_forall_not_mem.2 fun e he =>
          absurd (hmem e he) List.not_mem_nil
        rw [hnone, prepareRow_eq_ok (messageKeys_erase hlive)] at hx
        have hmarker := hx record (by rw [prepareRecord_congr heff, hrecord])
        rw [deletion_erase, Option.some.injEq] at hmarker
        rw [hl, hleft, hmarker]
      · exact absurd rfl (hne e he)
    intro e he e' he' hid
    have h₁ := hown e he
    rw [hid, hown e' he'] at h₁
    exact (Option.some.inj h₁).symm
  · intro hsame
    refine prepare_eq_nil fun j m' hm' => ?_
    rw [Nat.zero_add]
    obtain ⟨e, he, y, hy, -, hid, m, key, localOnly, correlation, record, hm, hk, hrecord, hleft, -,
      hrow⟩ | ⟨hne, hrow⟩ := erasedLog_row h j
    · obtain rfl := Option.some.inj (hrow.symm.trans hm')
      obtain ⟨⟨live, hlive, heff⟩, -⟩ :=
        hkeys m (List.mem_of_getElem? hm) key localOnly correlation hk (leftMarker y)
      rw [prepareRow_eq_ok (messageKeys_erase hlive)]
      intro record' hrecord'
      rw [prepareRecord_congr heff, hrecord] at hrecord'
      rw [deletion_erase, hsame y hy e he hid, hleft, Option.some.inj hrecord']
    · rw [hrow] at hm'
      obtain ⟨x, hx, hmem⟩ := prepare_row h hm'
      rw [Nat.zero_add] at hx
      cases x with
      | none => exact hx
      | some e =>
        obtain ⟨_, _, _, _, _, _, _, heq⟩ := prepareRow_eq_some hx
        have hindex : e.index = j := by
          rw [heq]
          rfl
        exact absurd hindex (hne e (hmem e rfl))

/-! ## When deletions come to rest -/

/-- The record decides about a message: it comes first on disk. -/
def Decides (found : List DeletionRecord) (r : DeletionRecord) : Prop :=
  r ∈ found ∧ ∀ r' ∈ found, matchingPriority r' ≤ matchingPriority r

omit [ConversationMessage M] in
/-- Of agreeable records the one that decides is chosen in memory. -/
theorem Synced.prepareRecord_iff (hs : Synced s st) {key : String} {correlation : Option String}
    (h : Agreeable (found s st key correlation)) :
    prepareRecord (relevant s st) key correlation = some r ↔
      Decides (found s st key correlation) r := by
  have hsame := hs.sameRecords key correlation
  have hchoice : ∀ w ∈ found s st key correlation,
      (∀ r ∈ found s st key correlation, preparePriority r ≤ preparePriority w) →
      Decides (found s st key correlation) w := by
    intro w hw hwmax
    obtain ⟨hnil, -⟩ | ⟨v, -, hv, hvmax⟩ :=
      maxByKey_eq matchingPriority (found s st key correlation)
    · rw [hnil] at hw
      cases hw
    · rw [hsame.eq_of_agreeable h hw hwmax hv hvmax]
      exact ⟨hv, hvmax⟩
  obtain ⟨hnil, hnone⟩ | ⟨w, hw, hmem, hmax⟩ :=
    maxByKey_eq preparePriority (found s st key correlation)
  · rw [show prepareRecord (relevant s st) key correlation = none from hnone]
    refine iff_of_false (by simp) fun hd => ?_
    rw [hnil] at hd
    exact absurd hd.1 List.not_mem_nil
  · rw [show prepareRecord (relevant s st) key correlation = some w from hw, Option.some.injEq]
    constructor
    · rintro rfl
      exact hchoice w hmem hmax
    · intro hd
      exact hsame.eq_of_agreeable h hmem hmax hd.1 hd.2

variable (c transfer) in
/-- Messages with the same id that are not yet what deletions leave of them are left the same. -/
def CopiesAlike (s : DeletionContext M) (st : Store M) : Prop :=
  ∀ m ∈ s.log.messages, ∀ m' ∈ s.log.messages, (messageId m).getD "" = (messageId m').getD "" →
    ∀ key localOnly correlation key' localOnly' correlation' r r',
      messageKeys c transfer s.book.context m = .ok (key, localOnly, correlation) →
      messageKeys c transfer s.book.context m' = .ok (key', localOnly', correlation') →
      Decides (found s st key correlation) r → deletion m ≠ some r.marker →
      Decides (found s st key' correlation') r' → deletion m' ≠ some r'.marker →
      r.marker = r'.marker

/-- Erasures with the same id leave the same marker if and only if copies of a message are
    alike. -/
theorem Synced.copiesAlike_iff (hs : Synced s st) (hagreeable : RecordsAgreeable c transfer s st)
    (h : prepare c transfer s.book (relevant s st) 0 s.log.messages = .ok changes) :
    (∀ e ∈ changes, ∀ e' ∈ changes, e.row.messageId = e'.row.messageId →
      leftMarker e = leftMarker e') ↔ CopiesAlike c transfer s st := by
  have hid : ∀ (e : Erasure M) {index : Nat} {m : M} {marker : DeletionMarker} {key : String}
      {correlation : Option String} {localOnly : Bool}, e = .new index
        (erase m marker key correlation localOnly) s.book.conversationId →
      e.row.messageId = (messageId m).getD "" := by
    rintro _ _ m marker key correlation localOnly rfl
    exact congrArg (Option.getD · "") messageId_erase
  constructor
  · intro hsame m hm m' hm' hmid key localOnly correlation key' localOnly' correlation' r r' hk hk'
      hr hdel hr' hdel'
    -- both messages are to be erased
    have herasure : ∀ m ∈ s.log.messages, ∀ key localOnly correlation r,
        messageKeys c transfer s.book.context m = .ok (key, localOnly, correlation) →
        Decides (found s st key correlation) r → deletion m ≠ some r.marker →
        ∃ e ∈ changes, e.row.messageId = (messageId m).getD "" ∧ leftMarker e = r.marker := by
      intro m hm key localOnly correlation r hk hr hdel
      obtain ⟨j, hj⟩ := List.mem_iff_getElem?.1 hm
      obtain ⟨x, hx, hmem⟩ := prepare_row h hj
      have hrecord := (hs.prepareRecord_iff (hagreeable m hm key localOnly correlation hk)).2 hr
      cases x with
      | none => exact absurd ((prepareRow_eq_ok hk).1 hx r hrecord) hdel
      | some e =>
        obtain ⟨key₂, localOnly₂, correlation₂, r₂, hk₂, hrecord₂, -, heq⟩ := prepareRow_eq_some hx
        obtain ⟨rfl, rfl, rfl⟩ := Except.ok.inj (hk.symm.trans hk₂)
        obtain rfl := Option.some.inj (hrecord.symm.trans hrecord₂)
        exact ⟨e, hmem e rfl, hid e heq, by rw [heq, leftMarker_new]⟩
    obtain ⟨e, he, heid, hleft⟩ := herasure m hm key localOnly correlation r hk hr hdel
    obtain ⟨e', he', heid', hleft'⟩ := herasure m' hm' key' localOnly' correlation' r' hk' hr' hdel'
    rw [← hleft, ← hleft']
    exact hsame e he e' he' (by rw [heid, heid', hmid])
  · intro hcopies e he e' he' heid
    obtain ⟨m, key, localOnly, correlation, r, hm, hk, hrecord, hdel, heq⟩ := erasure_spec h he
    obtain ⟨m', key', localOnly', correlation', r', hm', hk', hrecord', hdel', heq'⟩ :=
      erasure_spec h he'
    have hmem := List.mem_of_getElem? hm
    have hmem' := List.mem_of_getElem? hm'
    rw [hid e heq, hid e' heq'] at heid
    rw [heq, heq', leftMarker_new, leftMarker_new]
    exact hcopies m hmem m' hmem' heid key localOnly correlation key' localOnly' correlation' r r'
      hk hk' ((hs.prepareRecord_iff (hagreeable m hmem key localOnly correlation hk)).1 hrecord) hdel
      ((hs.prepareRecord_iff (hagreeable m' hmem' key' localOnly' correlation' hk')).1 hrecord')
      hdel'

omit [ConversationMessage M] in
/-- What was read from the store is in step with it. -/
theorem Synced.reload (hs : Synced s st) : Synced s.reload st := by
  rw [hs.reload_eq]
  exact ⟨hs.store, hs.records, hs.context, hs.shape⟩

omit [ConversationMessage M] in
/-- Reading the stored deletions twice is reading them once. -/
theorem Synced.reload_reload (hs : Synced s st) : s.reload.reload = s.reload := by
  rw [hs.reload.reload_eq, hs.reload_eq]
  rfl

/-- What an application leaves that erases something: the tables are the same, the book is the one
    that was read, and the rows are replaced. -/
theorem Synced.outcome_spec (hs : Synced s st) (hne : changes ≠ []) :
    ∃ st₁ cancelled, SameTables st st₁ ∧ (outcome c s st changes).store = some st₁ ∧
      (outcome c s st changes).book = s.reload.book ∧
      (outcome c s st changes).log = (changes.map (Erasure.mark
        (commitErasedRows c s.book.kind cancelled (changes.map (·.row)) st).2)).foldl
          (fun log e => log.replace e.index e.message) s.log := by
  rw [outcome, if_neg (by simpa using hne), hs.reload_eq]
  exact ⟨_, _, (commitErasedRows_spec _ _ _ _).1, rfl, rfl, rfl⟩

/-- The revision moves once for each erasure, and the rows stay as many. -/
theorem Synced.revision_outcome (hs : Synced s st)
    (h : prepare c transfer s.book (relevant s st) 0 s.log.messages = .ok changes)
    (hne : changes ≠ []) :
    (outcome c s st changes).log.messages.length = s.log.messages.length ∧
      (outcome c s st changes).log.revision = s.log.revision + UInt64.ofNat changes.length := by
  obtain ⟨st₁, cancelled, -, -, -, hlog⟩ := hs.outcome_spec (c := c) hne
  rw [hlog]
  obtain ⟨hlength, hrevision, -⟩ := foldl_replace (changes.map (Erasure.mark
    (commitErasedRows c s.book.kind cancelled (changes.map (·.row)) st).2)) s.log (by
      intro e' he'
      obtain ⟨e, he, rfl⟩ := List.mem_map.1 he'
      obtain ⟨m, -, -, -, -, hm, -⟩ := erasure_spec h he
      rw [index_mark]
      exact (List.getElem?_eq_some_iff.1 hm).1)
  rw [List.length_map] at hrevision
  exact ⟨hlength, hrevision⟩

/-- What an application leaves is in step with the store, and the same deletions are relevant for
    the same user. -/
theorem Synced.outcome (hs : Synced s st) (hne : changes ≠ []) :
    ∃ st₁, Synced (outcome c s st changes) st₁ ∧
      relevant (outcome c s st changes) st₁ = relevant s st ∧
      (outcome c s st changes).user = s.user ∧
      (outcome c s st changes).reload = outcome c s st changes := by
  obtain ⟨st₁, cancelled, hsame, hstore, hbook, -⟩ := hs.outcome_spec (c := c) hne
  have hbook' := hbook
  rw [hs.reload_eq] at hbook'
  have hsynced : Synced (Deletion.outcome c s st changes) st₁ := by
    refine ⟨hstore, ?_, ?_, ?_⟩
    · rw [hbook', hsame.table]
      exact hs.records
    · rw [hbook', hsame.table]
      exact hs.context
    · rw [hbook', hsame.table]
      exact hs.shape
  refine ⟨st₁, hsynced, ?_, ?_, ?_⟩
  · rw [relevant, relevant, hbook', Store.deletionOwner, Store.deletionOwner, hsame.deviceLink]
  · rw [DeletionContext.user, DeletionContext.user, hstore, hs.store, Option.bind_some,
      Option.bind_some, hsame.deviceLink]
  · have hput : ∀ (x : DeletionContext M) (b : DeletionBook), x.book = b →
        { x with book := b } = x := by
      rintro x _ rfl
      rfl
    rw [hsynced.reload_eq, hbook', hsame.acceptance]
    exact hput _ _ hbook'

/-- An application that erased something is followed by a quiet one if and only if there is nothing
    left to be erased. -/
theorem Synced.apply_outcome_iff (hs : Synced s st) (hlen : s.log.messages.length < 2 ^ 64)
    (hrecords : s.book.records.isEmpty = false) {user : String} (huser : s.user = .ok user)
    (h : prepare c transfer s.book (relevant s st) 0 s.log.messages = .ok changes)
    (hne : changes ≠ []) :
    apply c transfer (Deletion.outcome c s st changes) = .ok (Deletion.outcome c s st changes) ↔
      prepare c transfer s.book (relevant s st) 0 (Deletion.outcome c s st changes).log.messages =
        .ok [] := by
  obtain ⟨st₁, hs₁, hrelevant, huser₁, hreload⟩ := hs.outcome (c := c) hne
  obtain ⟨-, -, -, -, hbook, -⟩ := hs.outcome_spec (c := c) hne
  obtain ⟨hlength, -⟩ := hs.revision_outcome h hne
  generalize Deletion.outcome c s st changes = s₁ at *
  rw [hs.reload_eq] at hbook
  have hprepare : prepare c transfer s₁.book (relevant s₁ st₁) 0 s₁.log.messages =
      prepare c transfer s.book (relevant s st) 0 s₁.log.messages := by
    rw [hrelevant]
    exact prepare_congr (by rw [hbook]) (by rw [hbook])
  have hrecords₁ : s₁.book.records.isEmpty = false := by
    rw [hbook]
    exact hrecords
  rw [hs₁.apply_eq, hrecords₁, huser₁, huser, ← hprepare]
  cases hagain : prepare c transfer s₁.book (relevant s₁ st₁) 0 s₁.log.messages with
  | error e => exact iff_of_false (fun hx => by cases hx) (fun hx => by cases hx)
  | ok again =>
    change Except.ok (Deletion.outcome c s₁ st₁ again) = Except.ok s₁ ↔ Except.ok again = Except.ok []
    rw [Except.ok.injEq, Except.ok.injEq]
    constructor
    · intro hquiet
      by_contra hagain'
      -- the revision of the log would have moved
      obtain ⟨-, hrevision⟩ := hs₁.revision_outcome hagain hagain'
      rw [hquiet] at hrevision
      have hzero : UInt64.ofNat again.length = 0 := by
        simpa using hrevision.symm
      have hbound := length_prepare hagain
      rw [hlength] at hbound
      have hmod : again.length % 2 ^ 64 = 0 := by
        simpa using congrArg UInt64.toNat hzero
      rw [Nat.mod_eq_of_lt (by omega)] at hmod
      exact hagain' (List.length_eq_zero_iff.1 hmod)
    · rintro rfl
      exact hreload

/-- An application that erased nothing is followed by a quiet one. -/
theorem Synced.apply_reload (hs : Synced s st) (h : apply c transfer s = .ok s.reload)
    (hrows : s.book.records.isEmpty = true ∨
      prepare c transfer s.book (relevant s st) 0 s.log.messages = .ok []) :
    apply c transfer s.reload = .ok s.reload := by
  rw [hs.apply_eq] at h
  rw [hs.reload.apply_eq, hs.reload_reload]
  have hrelevant : relevant s.reload st = relevant s st := by
    rw [relevant, relevant, hs.reload_eq]
  have hprepare : prepare c transfer s.reload.book (relevant s.reload st) 0
      s.reload.log.messages = prepare c transfer s.book (relevant s st) 0 s.log.messages := by
    rw [hrelevant, hs.reload_eq]
    exact prepare_congr rfl rfl
  have huser : s.reload.user = s.user := by
    rw [hs.reload_eq]
    rfl
  have hrecords : s.reload.book.records = s.book.records := by rw [hs.reload_eq]
  rw [hprepare, huser, hrecords]
  split at h
  · next hempty => rw [if_pos hempty]
  next hempty =>
    rw [if_neg hempty]
    cases hu : s.user with
    | error e =>
      rw [hu] at h
      cases h
    | ok user =>
      rw [hrows.resolve_left hempty]
      change Except.ok s.reload.reload = _
      rw [hs.reload_reload]

/-- Memory and disk leave the same of every message and applying the deletions again changes
    nothing, neither in the log nor in the store, if and only if the deletions that match a message
    are agreeable and copies of a message are alike. -/
theorem apply_quiet_iff {s₁ : DeletionContext M} (hs : Synced s st)
    (hkeys : KeysSurvive c transfer s) (hlen : s.log.messages.length < 2 ^ 64)
    (happly : apply c transfer s = .ok s₁) :
    (MarkersAgree c transfer s st ∧ apply c transfer s₁ = .ok s₁) ↔
      RecordsAgreeable c transfer s st ∧ CopiesAlike c transfer s st := by
  rw [hs.markersAgree_iff]
  refine and_congr_right fun hagreeable => ?_
  have happly' := happly
  rw [hs.apply_eq] at happly'
  split at happly'
  · next hempty =>
    obtain rfl := Except.ok.inj happly'
    refine iff_of_true (hs.apply_reload happly (.inl hempty)) ?_
    -- no record is there to decide about a message
    intro m _ m' _ _ key _ correlation _ _ _ r _ _ _ hr
    have hmem := (List.mem_filter.1 (List.mem_filter.1 hr.1).1).1
    obtain ⟨p, hp, -⟩ := List.mem_map.1 hmem
    rw [List.isEmpty_iff.1 (Std.ExtTreeMap.isEmpty_toList.trans hempty)] at hp
    cases hp
  next hempty =>
    have hempty : s.book.records.isEmpty = false := by simpa using hempty
    cases hu : s.user with
    | error e =>
      rw [hu] at happly'
      cases happly'
    | ok user =>
      rw [hu] at happly'
      cases hprepare : prepare c transfer s.book (relevant s st) 0 s.log.messages with
      | error e =>
        rw [hprepare] at happly'
        cases happly'
      | ok changes =>
        rw [hprepare] at happly'
        obtain rfl : outcome c s st changes = s₁ := Except.ok.inj happly'
        rw [← hs.copiesAlike_iff hagreeable hprepare]
        obtain rfl | hne := eq_or_ne changes []
        · exact iff_of_true (hs.apply_reload happly (.inr hprepare))
            fun e he => absurd he List.not_mem_nil
        · obtain ⟨-, cancelled, -, -, -, hlog⟩ := hs.outcome_spec (c := c) hne
          rw [Synced.markers_eq hkeys (hs.markersAgree_iff.2 hagreeable) hprepare] at hlog
          rw [hs.apply_outcome_iff hlen hempty hu hprepare hne, hlog]
          exact prepare_again_iff hkeys hprepare

/-! ### Two requests about one message -/

omit [ConversationMessage M] in
/-- A book with what is in the store, which is about the conversation, is in step with it. -/
theorem Synced.of_forall (hstore : s.store = some st) (hrecords : s.book.records = st.table.journal)
    (h : ∀ r ∈ st.table.journal.records, r.context = s.book.context ∧ Shape r) : Synced s st := by
  have hmem : ∀ {context}, ∀ r ∈ st.table.deletionRecords context, r ∈ st.table.journal.records :=
    fun r hr => DeletionTable.mem_records.2 (DeletionTable.mem_deletionRecords.1 hr).1
  refine ⟨hstore, fun k => ?_, fun r hr => (h r (hmem r hr)).1, fun r hr => (h r (hmem r hr)).2⟩
  rw [hrecords]
  split
  · rfl
  next hk =>
    rw [Option.eq_none_iff_forall_not_mem]
    intro r hr
    have hkey := st.table.keyed k r hr
    rw [← hkey] at hr hk
    refine hk ?_
    rw [← (h r (DeletionTable.mem_records.2 hr)).1]
    exact underContext_storageKey r

/-- Messages that are known by an alias besides their keys keep both. -/
theorem keysSurvive_of_alias (h : ∀ m ∈ s.log.messages, ∀ key localOnly correlation,
      messageKeys c transfer s.book.context m = .ok (key, localOnly, correlation) →
      (correlation.filter (· ≠ key)).isSome) : KeysSurvive c transfer s := by
  intro m hm key localOnly correlation hkeys marker
  obtain ⟨a, ha⟩ := Option.isSome_iff_exists.1 (h m hm key localOnly correlation hkeys)
  have halias : (metadata (erase m marker key correlation localOnly)).bind
      (·.personalCorrelation) = some a := by
    rw [metadata_erase]
    exact ha
  have herased : isErased (erase m marker key correlation localOnly) = true := by
    rw [isErased, deletion_erase]
    rfl
  have hfilter : (some a).filter (· ≠ key) = some a := by
    rw [← ha, Option.filter_filter]
    simp
  refine ⟨⟨some a, ?_, by rw [hfilter, ha]⟩, ?_⟩
  · rw [messageKey, halias]
  · rw [historyMessageKey]
    simp only [Erasure.new, herased, halias]
    rw [hfilter, ha]

end Apply

/-- A table without records. -/
def DeletionTable.empty : DeletionTable where
  journal := ∅
  targets := ∅
  keyed := by simp
  indexed := by simp
  ranged := by simp

/-- What is in a table after a merge. -/
theorem DeletionTable.mem_merge {table : DeletionTable} {r r' : DeletionRecord}
    (h : r' ∈ (table.merge r).journal.records) : r' = r ∨ r' ∈ table.journal.records := by
  rw [mem_records] at h
  change (mergeDeletionRow table.journal r)[r'.storageKey]? = some r' at h
  rw [getElem?_mergeDeletionRow] at h
  split at h
  · have hrow := Option.some.inj h
    rw [mergedRow] at hrow
    split at hrow
    · next current hcurrent =>
      obtain hmerged | hmerged := merged_eq_or current r
      · refine .inr (mem_records.2 ?_)
        rw [← hrow, hmerged, table.keyed _ _ hcurrent, hcurrent]
      · exact .inl (hrow ▸ hmerged)
    · exact .inl hrow.symm
  · exact .inr (mem_records.2 h)

/-- The hashes of `plainCrypto` for the keys of text messages. -/
def plainTargets : TargetCrypto :=
  { plainCrypto with
    targetJson := fun value =>
      match value with
      | .text context id sentAt author contentHash =>
        .ok (commaText [context, id.getD "null", (sentAt.map Nat.repr).getD "null", author,
          contentHash])
      | _ => .error "not a text" }

/-- There are no files. -/
def noFiles : Transfer := ⟨fun _ => none⟩

/-- Alice asks again for the deletion of her message, and is rejected here. -/
def rejected : DeletionRecord :=
  let unsigned : DeleteRequest :=
    { retraction with operation := "delete-11111111111111111111111111111111", signature := "" }
  let signature := sign "alice" ((unsigned.input plainCrypto).toOption.getD [])
  { retracted .rejected none with request := some { unsigned with signature } }

/-- The message of Alice. -/
def hello : ChatMessage where
  metadata := some { origin := some greeting }
  fromDevice := "alice"
  body := "hi"
  messageId := some "m"
  sentAtMs := some 1

/-- A store with some deletions. -/
def storeWith (table : DeletionTable) : Store ChatMessage := ⟨table, ∅, ∅, ∅, none⟩

/-- A chat with the message of Alice and some of its deletions. -/
def chatWith (table : DeletionTable) : DeletionContext ChatMessage where
  book := ⟨.dm, "1", table.journal, ∅⟩
  log := { messages := [hello] }
  attempts := ∅
  store := some (storeWith table)

theorem chatWith_keysSurvive (table : DeletionTable) :
    KeysSurvive plainTargets noFiles (chatWith table) := by
  refine keysSurvive_of_alias fun m hm key localOnly correlation hkeys => ?_
  obtain rfl := List.mem_singleton.1 hm
  have hsome : (messageKeys plainTargets noFiles "dm:1" hello).toOption.map
      (fun keys => (keys.2.2.filter (· ≠ keys.1)).isSome) = some true := by
    decide +kernel
  have hkeys : messageKeys plainTargets noFiles "dm:1" hello = .ok (key, localOnly, correlation) :=
    hkeys
  rw [hkeys] at hsome
  exact Option.some.inj hsome

/-- The deletions of the chat after Alice's request was confirmed. -/
def confirmedTable : DeletionTable := DeletionTable.empty.merge early

/-- The deletions of the chat after Alice's second request was rejected. -/
def disputedTable : DeletionTable := confirmedTable.merge rejected

theorem mem_confirmedTable {r : DeletionRecord} (h : r ∈ confirmedTable.journal.records) :
    r = early := by
  obtain h | h := DeletionTable.mem_merge h
  · exact h
  · simp [DeletionTable.empty, Journal.records] at h

theorem chatWith_confirmed : Synced (chatWith confirmedTable) (storeWith confirmedTable) := by
  refine .of_forall rfl rfl fun r hr => ?_
  rw [mem_confirmedTable hr]
  exact ⟨by decide +kernel, storable_early.shape⟩

theorem chatWith_disputed : Synced (chatWith disputedTable) (storeWith disputedTable) := by
  refine .of_forall rfl rfl fun r hr => ?_
  obtain rfl | hr := DeletionTable.mem_merge hr
  · exact ⟨by decide +kernel, .shared rfl rfl (by decide +kernel)⟩
  · rw [mem_confirmedTable hr]
    exact ⟨by decide +kernel, storable_early.shape⟩

/-- Memory prefers the rejected request and disk the confirmed one, so the message is erased again
    every time the deletions are applied. -/
theorem rejection_disagrees : Synced (chatWith disputedTable) (storeWith disputedTable) ∧
    KeysSurvive plainTargets noFiles (chatWith disputedTable) ∧
    ¬ MarkersAgree plainTargets noFiles (chatWith disputedTable) (storeWith disputedTable) ∧
    ∃ s₁, apply plainTargets noFiles (chatWith disputedTable) = .ok s₁ ∧
      apply plainTargets noFiles s₁ ≠ .ok s₁ := by
  refine ⟨chatWith_disputed, chatWith_keysSurvive _, fun h => ?_, ?_⟩
  · have hkeys : messageKeys plainTargets noFiles "dm:1" hello =
        .ok (early.key, false, (messageKeys plainTargets noFiles "dm:1" hello).toOption.bind
          (·.2.2)) := by decide +kernel
    have hagree := h hello (List.mem_singleton_self _) _ _ _ hkeys
    revert hagree
    decide +kernel
  · cases h : apply plainTargets noFiles (chatWith disputedTable) with
    | error e =>
      have hok : (apply plainTargets noFiles (chatWith disputedTable)).isOk = true := by
        decide +kernel
      rw [h] at hok
      cases hok
    | ok s₁ =>
      refine ⟨s₁, rfl, fun hquiet => ?_⟩
      -- the second application moves the revision of the log
      have hmoves : (apply plainTargets noFiles (chatWith disputedTable)).toOption.map
          (·.log.revision) ≠ ((apply plainTargets noFiles (chatWith disputedTable)).bind
            (apply plainTargets noFiles)).toOption.map (·.log.revision) := by
        decide +kernel
      rw [h] at hmoves
      exact hmoves (by rw [Except.bind, hquiet])

/-- Where there is one confirmed request only, the second application is quiet. -/
theorem apply_quiet_confirmed : ∃ s₁,
    apply plainTargets noFiles (chatWith confirmedTable) = .ok s₁ ∧
    MarkersAgree plainTargets noFiles (chatWith confirmedTable) (storeWith confirmedTable) ∧
    apply plainTargets noFiles s₁ = .ok s₁ := by
  have hfound : ∀ key correlation, ∀ r ∈ found (chatWith confirmedTable)
      (storeWith confirmedTable) key correlation, r = early := by
    intro key correlation r hr
    exact mem_confirmedTable (List.mem_filter.1 (List.mem_filter.1 hr).1).1
  have hagreeable : RecordsAgreeable plainTargets noFiles (chatWith confirmedTable)
      (storeWith confirmedTable) := by
    intro m hm key localOnly correlation hkeys
    refine .inl fun r hr _ hrejected => ?_
    rw [hfound key correlation r hr] at hrejected
    cases hrejected
  have hcopies : CopiesAlike plainTargets noFiles (chatWith confirmedTable)
      (storeWith confirmedTable) := by
    intro m hm m' hm' hid key localOnly correlation key' localOnly' correlation' r r' _ _ hr _ hr' _
    rw [hfound _ _ r hr.1, hfound _ _ r' hr'.1]
  cases h : apply plainTargets noFiles (chatWith confirmedTable) with
  | error e =>
    have hok : (apply plainTargets noFiles (chatWith confirmedTable)).isOk = true := by
      decide +kernel
    rw [h] at hok
    cases hok
  | ok s₁ =>
    obtain ⟨hagree, hquiet⟩ := (apply_quiet_iff chatWith_confirmed (chatWith_keysSurvive _)
      (by decide) h).2 ⟨hagreeable, hcopies⟩
    exact ⟨s₁, rfl, hagree, hquiet⟩

end Mosh.Deletion
