import Mosh.Deletion.Application
import Mosh.Deletion.Index
import Mosh.Library.Run

/-!
# Tombstones on disk

The history on disk is written on many paths: the tail of a log, the commit of a send,
imported pages, the erasure of messages. All of them go through a guard
(`persistence/history_erasure.rs`, `persistence/deletion_guard.rs`): a row that is erased
stays as it is, and a row that a known deletion matches is erased before it is stored.

* `HistoryStore.step`: all that writes the history, the sends and the deletions;
* `HistoryStore.Advances`: what no write undoes;
* `tombstones_kept`: over all runs, from the first opening of a store on.
-/

namespace Mosh.Deletion

open Conversation ConversationMessage DeletionRecord
open Conversation.MessageLog (StoredMessage OutboundAttemptRecord)

/-! ## The store -/

/-- A row of the history, with what was proved about it when it was imported. -/
structure HistoryRow (M E : Type) extends StoredMessage M where
  historyEvidence : Option E := none

/-- The tables of deletions, of the history of every kind, and of sends; and the account that
    the device is linked to. -/
structure HistoryStore (M E : Type) where
  deletions : DeletionRows
  messages : Kind → Std.ExtTreeMap String (HistoryRow M E) compare
  attempts : Std.ExtTreeMap String OutboundAttemptRecord compare
  account : Option String

/-- The key of a row of the history. -/
def historyKey (conversationId : String) (sentAtMs : Nat) (messageId : String) : String :=
  conversationId ++ "\x01" ++
    String.ofList ((toString sentAtMs).toList.leftpad 20 '0') ++ "\x01" ++ messageId

variable {M E : Type} [ConversationMessage M]

/-- The key of the row. -/
def HistoryRow.key (row : HistoryRow M E) : String :=
  historyKey row.conversationId row.sentAtMs row.messageId

/-- A row without evidence takes that of the row that is there. -/
def retainHistoryEvidence (row : HistoryRow M E) (existing : Option (HistoryRow M E)) :
    HistoryRow M E :=
  { row with historyEvidence := row.historyEvidence.or (existing.bind (·.historyEvidence)) }

/-- The attempt is cancelled by the row that it is about: the message is gone for everyone, or it
    was never published. -/
def cancelledAttempt (row : HistoryRow M E) (attempt : OutboundAttemptRecord) : Bool :=
  (deletion row.message).any fun marker =>
    marker.scope = .forEveryone || attempt.everPublished = some false

namespace HistoryStore

variable (c : TargetCrypto) (store : HistoryStore M E) (kind : Kind)

/-- The account of the user. -/
def deletionOwner : String := store.account.getD "local"

/-- Erases a row that a known deletion matches. -/
def eraseKnownTarget (row : HistoryRow M E) : HistoryRow M E :=
  let context := kind.text ++ ":" ++ row.conversationId
  let correlation := historyMessageKey c context row.toStoredMessage
  match (historyTarget c context row.message).or correlation with
  | none => row
  | some target =>
    match store.deletions.matchingDeletion context target correlation store.deletionOwner with
    | none => row
    | some record =>
      { row with toStoredMessage := eraseContentRow row.toStoredMessage record target correlation }

/-- What is stored where a row is written. -/
def guardedRow (existing : Option (HistoryRow M E)) (row : HistoryRow M E) : HistoryRow M E :=
  match existing.filter (isErased ·.message) with
  | some erased => erased
  | none => store.eraseKnownTarget c kind (retainHistoryEvidence row existing)

/-- Stores a row as it is. -/
def putRow (row : HistoryRow M E) : HistoryStore M E :=
  { store with
    messages := Function.update store.messages kind ((store.messages kind).insert row.key row) }

/-- Late writes cannot put content back into an erased row. -/
def writeHistoryRow (row : HistoryRow M E) : HistoryStore M E :=
  let existing := (store.messages kind)[row.key]?
  if existing.any (isErased ·.message) then store
  else store.putRow kind (store.eraseKnownTarget c kind (retainHistoryEvidence row existing))

/-- Writes an attempt, unless the row that it is about cancels it, or removes it. -/
def writeOutboundRow (conversationId messageId : String) (attempt : Option OutboundAttemptRecord) :
    HistoryStore M E :=
  let cancelled (a : OutboundAttemptRecord) : Bool :=
    ((store.messages kind)[historyKey conversationId a.sentAtMs messageId]?).any
      (cancelledAttempt · a)
  let key := outboundAttemptKey kind conversationId messageId
  { store with
    attempts := match attempt.filter fun a => !cancelled a with
      | some a => store.attempts.insert key a
      | none => store.attempts.erase key }

/-- Saves a message and the state of its send together. -/
def commitSend (row : HistoryRow M E) (attempt : Option OutboundAttemptRecord) :
    HistoryStore M E :=
  (store.writeHistoryRow c kind row).writeOutboundRow kind row.conversationId row.messageId attempt

/-- Saves imported rows, and settles sends. -/
def commitHistoryAdmission (conversationId : String) (rows : List (HistoryRow M E))
    (settled : List String) : HistoryStore M E :=
  settled.foldl (fun store message => store.writeOutboundRow kind conversationId message none)
    (rows.foldl (fun store row => store.writeHistoryRow c kind row) store)

/-- Writes an erased row, and removes its send if it is cancelled. -/
def commitErasedRow (cancelled : Finset String) (row : HistoryRow M E) : HistoryStore M E :=
  let store := store.putRow kind (store.eraseKnownTarget c kind row)
  if row.messageId ∈ cancelled then
    store.writeOutboundRow kind row.conversationId row.messageId none
  else store

/-- Saves records. -/
def saveDeletions (records : List DeletionRecord) : HistoryStore M E :=
  { store with deletions := records.foldl DeletionRows.mergeDeletionRow store.deletions }

/-- Saves records and erased rows together. -/
def commitMessageDeletions (records : List DeletionRecord) (rows : List (HistoryRow M E))
    (cancelled : Finset String) : HistoryStore M E :=
  rows.foldl (fun store row => store.commitErasedRow c kind cancelled row)
    (store.saveDeletions records)

end HistoryStore

/-- What is written to the store. -/
inductive HistoryWrite (M E : Type)
  | appendHistoryMessage (kind : Kind) (row : HistoryRow M E)
  | commitSend (kind : Kind) (row : HistoryRow M E) (attempt : Option OutboundAttemptRecord)
  | putOutboundAttempt (kind : Kind) (conversationId messageId : String)
      (attempt : OutboundAttemptRecord)
  | deleteOutboundAttempt (kind : Kind) (conversationId messageId : String)
  | commitHistoryAdmission (kind : Kind) (conversationId : String) (rows : List (HistoryRow M E))
      (settled : List String)
  | commitMessageDeletions (kind : Kind) (records : List DeletionRecord)
      (rows : List (HistoryRow M E)) (cancelled : Finset String)
  | saveAccountDeletions (records : List DeletionRecord)
  /-- The device is linked to an account, or to none. -/
  | link (account : Option String)
  | reopen

/-- The store after a write. -/
def HistoryStore.step (c : TargetCrypto) (store : HistoryStore M E) :
    HistoryWrite M E → HistoryStore M E
  | .appendHistoryMessage kind row => store.writeHistoryRow c kind row
  | .commitSend kind row attempt => store.commitSend c kind row attempt
  | .putOutboundAttempt kind conversationId messageId attempt =>
    store.writeOutboundRow kind conversationId messageId (some attempt)
  | .deleteOutboundAttempt kind conversationId messageId =>
    store.writeOutboundRow kind conversationId messageId none
  | .commitHistoryAdmission kind conversationId rows settled =>
    store.commitHistoryAdmission c kind conversationId rows settled
  | .commitMessageDeletions kind records rows cancelled =>
    store.commitMessageDeletions c kind records rows cancelled
  | .saveAccountDeletions records => store.saveDeletions records
  | .link account => { store with account }
  | .reopen => { store with deletions := store.deletions.initializeDeletionIndex }

/-- The write puts a row into the history. -/
def HistoryWrite.Puts (kind : Kind) (row : HistoryRow M E) : HistoryWrite M E → Prop
  | .appendHistoryMessage kind' row' | .commitSend kind' row' _ => kind' = kind ∧ row' = row
  | .commitHistoryAdmission kind' _ rows _ | .commitMessageDeletions kind' _ rows _ =>
    kind' = kind ∧ row ∈ rows
  | _ => False

/-- The write saves an attempt of a send. -/
def HistoryWrite.Attempts (kind : Kind) (conversationId messageId : String)
    (attempt : OutboundAttemptRecord) : HistoryWrite M E → Prop
  | .commitSend kind' row attempt' => kind' = kind ∧ row.conversationId = conversationId ∧
    row.messageId = messageId ∧ attempt' = some attempt
  | .putOutboundAttempt kind' conversationId' messageId' attempt' => kind' = kind ∧
    conversationId' = conversationId ∧ messageId' = messageId ∧ attempt' = attempt
  | _ => False

/-! ## Rows that are erased -/

/-- The row is erased, and nothing is left in it. -/
structure HistoryRow.Blank (row : HistoryRow M E) : Prop where
  erased : isErased row.message = true
  body : body row.message = ""
  attachment : attachment row.message = none
  attachmentManifest : row.attachmentManifest = none
  previewManifest : row.previewManifest = none

/-- What the program writes: a marker only comes with an empty message, the rows that go with
    deletions are erased, and records are plain. -/
def HistoryWrite.Admissible : HistoryWrite M E → Prop
  | .appendHistoryMessage _ row | .commitSend _ row _ => isErased row.message = true → row.Blank
  | .commitHistoryAdmission _ _ rows _ => ∀ row ∈ rows, isErased row.message = true → row.Blank
  | .commitMessageDeletions _ records rows _ =>
    (∀ r ∈ records, PlainRecord r) ∧ ∀ row ∈ rows, row.Blank
  | .saveAccountDeletions records => ∀ r ∈ records, PlainRecord r
  | _ => True

/-- A stored deletion matches the message of a row, and concerns the user. -/
def HistoryStore.Knows (c : TargetCrypto) (store : HistoryStore M E) (kind : Kind)
    (row : HistoryRow M E) : Prop :=
  let context := kind.text ++ ":" ++ row.conversationId
  let correlation := historyMessageKey c context row.toStoredMessage
  ∃ (k : String) (r : DeletionRecord) (target : String), store.deletions.records[k]? = some r ∧
    r.context = context ∧ concerns store.deletionOwner r = true ∧
    (historyTarget c context row.message).or correlation = some target ∧
    r.matches target correlation = true

section Rows

variable [LawfulMessage M]

/-- Erasing a row leaves nothing in it. -/
theorem blank_eraseContentRow (row : HistoryRow M E) (record : DeletionRecord) (target : String)
    (correlation : Option String) : HistoryRow.Blank
      { row with toStoredMessage := eraseContentRow row.toStoredMessage record target correlation } := by
  refine ⟨?_, LawfulMessage.body_eraseContent _, LawfulMessage.attachment_eraseContent _, rfl, rfl⟩
  exact Option.isSome_of_eq_some deletion_erase

namespace HistoryStore

variable {c : TargetCrypto} {store store' : HistoryStore M E} {kind : Kind} {row : HistoryRow M E}

/-- The guard erases a row, or leaves it as it is. -/
theorem eraseKnownTarget_cases (c : TargetCrypto) (store : HistoryStore M E) (kind : Kind)
    (row : HistoryRow M E) :
    store.eraseKnownTarget c kind row = row ∨ (store.eraseKnownTarget c kind row).Blank := by
  rw [eraseKnownTarget]
  split
  · exact .inl rfl
  · split
    · exact .inl rfl
    · exact .inr (blank_eraseContentRow ..)

theorem blank_eraseKnownTarget (h : row.Blank) : (store.eraseKnownTarget c kind row).Blank := by
  rcases eraseKnownTarget_cases c store kind row with heq | hblank
  · rwa [heq]
  · exact hblank

omit [LawfulMessage M] in
@[simp]
theorem key_eraseKnownTarget (row : HistoryRow M E) :
    (store.eraseKnownTarget c kind row).key = row.key := by
  rw [eraseKnownTarget]
  split
  · rfl
  · split <;> rfl

omit [LawfulMessage M] in
theorem getElem?_putRow (store : HistoryStore M E) (kind kind' : Kind) (row : HistoryRow M E)
    (key : String) : ((store.putRow kind row).messages kind')[key]? =
      if kind' = kind ∧ row.key = key then some row else (store.messages kind')[key]? := by
  rw [putRow]
  by_cases hkind : kind' = kind
  · subst hkind
    simp only [Function.update_self, true_and]
    exact Table.getElem?_insert ..
  · simp only [Function.update_of_ne hkind, hkind, false_and, if_false]

omit [LawfulMessage M] in
/-- What is stored after a row is written. -/
theorem getElem?_writeHistoryRow (c : TargetCrypto) (store : HistoryStore M E) (kind kind' : Kind)
    (row : HistoryRow M E) (key : String) :
    ((store.writeHistoryRow c kind row).messages kind')[key]? =
      if kind' = kind ∧ row.key = key then
        some (store.guardedRow c kind (store.messages kind)[row.key]? row)
      else (store.messages kind')[key]? := by
  rw [writeHistoryRow, guardedRow]
  cases hexisting : (store.messages kind)[row.key]? with
  | none =>
    rw [Option.any_none, if_neg nofun, getElem?_putRow, key_eraseKnownTarget]
    rfl
  | some existing =>
    rw [Option.any_some, Option.filter_some]
    cases herased : isErased existing.message with
    | false =>
      simp only [Bool.false_eq_true, if_false]
      rw [getElem?_putRow, key_eraseKnownTarget]
      rfl
    | true =>
      simp only [if_true]
      split
      · next heq =>
        obtain ⟨rfl, rfl⟩ := heq
        exact hexisting
      · rfl

/-- The index is complete, and rows with a marker are blank. -/
structure Sound (store : HistoryStore M E) : Prop where
  indexed : store.deletions.Indexed
  ready : store.deletions.targets[readyKey]? = some "v1"
  marked : ∀ kind (key : String) row, (store.messages kind)[key]? = some row →
    isErased row.message = true → row.Blank

/-- A blank row is stored under the key. -/
def Erased (store : HistoryStore M E) (kind : Kind) (key : String) : Prop :=
  ∃ row, (store.messages kind)[key]? = some row ∧ row.Blank

/-- What no write undoes. -/
structure Advances (store store' : HistoryStore M E) : Prop where
  sound : store'.Sound
  records : ∀ (k : String), store.deletions.records[k]?.isSome →
    store'.deletions.records[k]?.isSome
  targets : ∀ key k : String, store.deletions.targets[key]? = some k →
    store'.deletions.targets[key]? = some k
  erased : ∀ kind key, store.Erased kind key → store'.Erased kind key

omit [LawfulMessage M] in
theorem Advances.refl (h : store.Sound) : store.Advances store :=
  ⟨h, fun _ h => h, fun _ _ h => h, fun _ _ h => h⟩

omit [LawfulMessage M] in
theorem Advances.trans {store'' : HistoryStore M E} (h : store.Advances store')
    (h' : store'.Advances store'') : store.Advances store'' :=
  ⟨h'.sound, fun k hk => h'.records k (h.records k hk),
    fun key k hk => h'.targets key k (h.targets key k hk),
    fun kind key hk => h'.erased kind key (h.erased kind key hk)⟩

omit [LawfulMessage M] in
/-- Several writes, one after the other. -/
theorem Advances.foldl {α : Type} {f : HistoryStore M E → α → HistoryStore M E} {l : List α}
    (hf : ∀ store : HistoryStore M E, store.Sound → ∀ x ∈ l, store.Advances (f store x))
    (h : store.Sound) : store.Advances (l.foldl f store) := by
  induction l generalizing store with
  | nil => exact .refl h
  | cons x l ih =>
    have hx := hf store h x List.mem_cons_self
    exact hx.trans (ih (fun store h y hy => hf store h y (List.mem_cons_of_mem _ hy)) hx.sound)

omit [LawfulMessage M] in
/-- A row is stored that is blank if it has a marker, or if it replaces a blank one. -/
theorem Sound.putRow (h : store.Sound) (hmarked : isErased row.message = true → row.Blank)
    (herased : store.Erased kind row.key → row.Blank) : store.Advances (store.putRow kind row) := by
  refine ⟨⟨h.indexed, h.ready, fun kind' key row' hrow herased' => ?_⟩, fun _ h => h,
    fun _ _ h => h, fun kind' key hblank => ?_⟩
  · rw [getElem?_putRow] at hrow
    split at hrow
    · obtain rfl := Option.some.inj hrow
      exact hmarked herased'
    · exact h.marked kind' key row' hrow herased'
  · by_cases heq : kind' = kind ∧ row.key = key
    · refine ⟨row, by rw [getElem?_putRow, if_pos heq], ?_⟩
      obtain ⟨rfl, rfl⟩ := heq
      exact herased hblank
    · obtain ⟨row', hrow, hblank'⟩ := hblank
      exact ⟨row', by rw [getElem?_putRow, if_neg heq, hrow], hblank'⟩

/-- A row is written that is blank if it has a marker. -/
theorem Sound.writeHistoryRow (h : store.Sound)
    (hmarked : isErased row.message = true → row.Blank) :
    store.Advances (store.writeHistoryRow c kind row) := by
  rw [HistoryStore.writeHistoryRow]
  split
  · exact .refl h
  · next hexisting =>
    have hblank : isErased (store.eraseKnownTarget c kind (retainHistoryEvidence row
        (store.messages kind)[row.key]?)).message = true →
        (store.eraseKnownTarget c kind (retainHistoryEvidence row
          (store.messages kind)[row.key]?)).Blank := by
      rcases eraseKnownTarget_cases c store kind (retainHistoryEvidence row
        (store.messages kind)[row.key]?) with heq | hblank
      · rw [heq]
        intro herased
        obtain ⟨h₁, h₂, h₃, h₄, h₅⟩ := hmarked herased
        exact ⟨h₁, h₂, h₃, h₄, h₅⟩
      · exact fun _ => hblank
    refine h.putRow hblank ?_
    rintro ⟨row', hrow, hblank'⟩
    rw [key_eraseKnownTarget] at hrow
    refine absurd ?_ hexisting
    rw [show (store.messages kind)[row.key]? = some row' from hrow, Option.any_some]
    exact hblank'.erased

omit [LawfulMessage M] in
/-- The sends have no part in it. -/
theorem Sound.writeOutboundRow (h : store.Sound) (conversationId messageId : String)
    (attempt : Option OutboundAttemptRecord) :
    store.Advances (store.writeOutboundRow kind conversationId messageId attempt) :=
  ⟨⟨h.indexed, h.ready, h.marked⟩, fun _ h => h, fun _ _ h => h, fun _ _ h => h⟩

/-- A blank row is committed. -/
theorem Sound.commitErasedRow (h : store.Sound) (hblank : row.Blank) (cancelled : Finset String) :
    store.Advances (store.commitErasedRow c kind cancelled row) := by
  have hput : store.Advances (store.putRow kind (store.eraseKnownTarget c kind row)) :=
    h.putRow (fun _ => blank_eraseKnownTarget hblank) fun _ => blank_eraseKnownTarget hblank
  rw [HistoryStore.commitErasedRow]
  split
  · exact hput.trans (hput.sound.writeOutboundRow ..)
  · exact hput

omit [LawfulMessage M] in
/-- Plain records are saved. -/
theorem Sound.saveDeletions (h : store.Sound) {records : List DeletionRecord}
    (hplain : ∀ r ∈ records, PlainRecord r) : store.Advances (store.saveDeletions records) := by
  induction records generalizing store with
  | nil => exact .refl h
  | cons r records ih =>
    obtain ⟨hindexed, htargets⟩ := h.indexed.mergeDeletionRow (hplain r List.mem_cons_self)
    have hone : store.Advances
        { store with deletions := store.deletions.mergeDeletionRow r } := by
      refine ⟨⟨hindexed, htargets _ _ h.ready, h.marked⟩, fun k hk => ?_, htargets, fun _ _ h => h⟩
      have hrecords : (store.deletions.mergeDeletionRow r).records[k]? =
          if r.storageKey = k then some (mergedRow store.deletions.records r)
          else store.deletions.records[k]? := Table.getElem?_insert ..
      change (store.deletions.mergeDeletionRow r).records[k]?.isSome
      rw [hrecords]
      split
      · rfl
      · exact hk
    exact hone.trans (ih hone.sound fun r' hr' => hplain r' (List.mem_cons_of_mem _ hr'))

/-- What every write keeps. -/
theorem Sound.step (h : store.Sound) {w : HistoryWrite M E} (hw : w.Admissible) :
    store.Advances (store.step c w) := by
  cases w with
  | appendHistoryMessage kind row => exact h.writeHistoryRow hw
  | commitSend kind row attempt =>
    have hrow : store.Advances (store.writeHistoryRow c kind row) := h.writeHistoryRow hw
    exact hrow.trans (hrow.sound.writeOutboundRow ..)
  | putOutboundAttempt => exact h.writeOutboundRow ..
  | deleteOutboundAttempt => exact h.writeOutboundRow _ _ none
  | commitHistoryAdmission kind conversationId rows settled =>
    have hrows : store.Advances
        (rows.foldl (fun store row => store.writeHistoryRow c kind row) store) :=
      .foldl (fun store h row hrow => h.writeHistoryRow (hw row hrow)) h
    exact hrows.trans (.foldl (fun store h message _ => h.writeOutboundRow ..) hrows.sound)
  | commitMessageDeletions kind records rows cancelled =>
    have hrecords : store.Advances (store.saveDeletions records) := h.saveDeletions hw.1
    exact hrecords.trans
      (.foldl (fun store h row hrow => h.commitErasedRow (hw.2 row hrow) cancelled) hrecords.sound)
  | saveAccountDeletions records => exact h.saveDeletions hw
  | link account =>
    exact ⟨⟨h.indexed, h.ready, h.marked⟩, fun _ h => h, fun _ _ h => h, fun _ _ h => h⟩
  | reopen =>
    have hsame : store.deletions.initializeDeletionIndex = store.deletions := by
      rw [DeletionRows.initializeDeletionIndex, h.ready]
      rfl
    rw [HistoryStore.step, hsame]
    exact .refl h

/-- What every run keeps. -/
theorem Sound.runs (h : store.Sound) {ws : List (HistoryWrite M E)}
    (hrun : Run.Runs (HistoryStore.step c) (fun _ w => w.Admissible) store ws store') :
    store.Advances store' := by
  induction hrun with
  | nil => exact .refl h
  | cons hw _ ih =>
    have hstep := h.step (c := c) hw
    exact hstep.trans (ih hstep.sound)

/-! ## Rows that are stored -/

/-- A row is stored under the key. -/
def Stored (store : HistoryStore M E) (kind : Kind) (key : String) : Prop :=
  (store.messages kind)[key]?.isSome

omit [LawfulMessage M] in
theorem Stored.putRow {key : String} (h : store.Stored kind key) (kind' : Kind)
    (row : HistoryRow M E) : (store.putRow kind' row).Stored kind key := by
  rw [Stored, getElem?_putRow]
  split
  · rfl
  · exact h

omit [LawfulMessage M] in
/-- The row that is written, and those that were there. -/
theorem stored_writeHistoryRow {key : String} (c : TargetCrypto) (kind' : Kind)
    (row : HistoryRow M E) (h : (kind = kind' ∧ row.key = key) ∨ store.Stored kind key) :
    (store.writeHistoryRow c kind' row).Stored kind key := by
  rw [Stored, getElem?_writeHistoryRow]
  split
  · rfl
  · next hne => exact h.resolve_left hne

omit [ConversationMessage M] [LawfulMessage M] in
/-- Of several writes, none takes a row away. -/
theorem Stored.foldl {α : Type} {key : String} {f : HistoryStore M E → α → HistoryStore M E}
    (hf : ∀ store x, store.Stored kind key → (f store x).Stored kind key) (l : List α)
    (h : store.Stored kind key) : (l.foldl f store).Stored kind key := by
  induction l generalizing store with
  | nil => exact h
  | cons x l ih => exact ih (hf store x h)

omit [LawfulMessage M] in
/-- All rows of an admission are stored after it. -/
theorem stored_commitHistoryAdmission (conversationId : String) {rows : List (HistoryRow M E)}
    (settled : List String) (hrow : row ∈ rows) :
    (store.commitHistoryAdmission c kind conversationId rows settled).Stored kind row.key := by
  have hsettle : ∀ (store : HistoryStore M E) (message : String), store.Stored kind row.key →
      (store.writeOutboundRow kind conversationId message none).Stored kind row.key :=
    fun _ _ h => h
  refine Stored.foldl hsettle settled ?_
  obtain ⟨before, after, rfl⟩ := List.append_of_mem hrow
  rw [List.foldl_append, List.foldl_cons]
  exact Stored.foldl (fun store row' h => stored_writeHistoryRow c kind row' (.inr h)) after
    (stored_writeHistoryRow c kind row (.inl ⟨rfl, rfl⟩))

omit [LawfulMessage M] in
/-- No write takes a row away. -/
theorem Stored.step {key : String} (h : store.Stored kind key) (w : HistoryWrite M E) :
    (store.step c w).Stored kind key := by
  have hwrite : ∀ (store : HistoryStore M E) (kind' : Kind) (row : HistoryRow M E),
      store.Stored kind key → (store.writeHistoryRow c kind' row).Stored kind key :=
    fun store kind' row h => stored_writeHistoryRow c kind' row (.inr h)
  cases w with
  | appendHistoryMessage kind' row => exact hwrite store kind' row h
  | commitSend kind' row attempt => exact hwrite store kind' row h
  | commitHistoryAdmission kind' conversationId rows settled =>
    have hsettle : ∀ (store : HistoryStore M E) (message : String), store.Stored kind key →
        (store.writeOutboundRow kind' conversationId message none).Stored kind key :=
      fun _ _ h => h
    exact foldl hsettle settled (foldl (fun store row => hwrite store kind' row) rows h)
  | commitMessageDeletions kind' records rows cancelled =>
    refine foldl (fun store row h => ?_) rows h
    rw [HistoryStore.commitErasedRow]
    split
    · exact h.putRow kind' _
    · exact h.putRow kind' _
  | putOutboundAttempt => exact h
  | deleteOutboundAttempt => exact h
  | saveAccountDeletions => exact h
  | link => exact h
  | reopen => exact h

/-! ## Rows that a known deletion matches -/

/-- The guard erases a row that a known deletion matches. -/
theorem Sound.eraseKnownTarget (h : store.Sound) (hknows : store.Knows c kind row) :
    (store.eraseKnownTarget c kind row).Blank := by
  obtain ⟨k, r, target, hr, hcontext, hconcerns, htarget, hmatch⟩ := hknows
  obtain ⟨record, hrecord⟩ := h.indexed.matchingDeletion hr hmatch hconcerns
  rw [hcontext] at hrecord
  rw [HistoryStore.eraseKnownTarget]
  simp only [htarget, hrecord]
  exact blank_eraseContentRow ..

/-- And so does a write. -/
theorem Sound.erased_writeHistoryRow (h : store.Sound) (hknows : store.Knows c kind row) :
    (store.writeHistoryRow c kind row).Erased kind row.key := by
  refine ⟨_, by rw [getElem?_writeHistoryRow, if_pos ⟨rfl, rfl⟩], ?_⟩
  rw [guardedRow]
  split
  · next erased hexisting =>
    -- the row was erased before
    obtain ⟨hrow, herased⟩ := Option.filter_eq_some_iff.1 hexisting
    exact h.marked kind row.key erased hrow herased
  · exact h.eraseKnownTarget hknows

omit [LawfulMessage M] in
/-- Rows have no part in what is known. -/
theorem writeHistoryRow_deletions (c : TargetCrypto) (store : HistoryStore M E) (kind : Kind)
    (row : HistoryRow M E) :
    (store.writeHistoryRow c kind row).deletions = store.deletions ∧
      (store.writeHistoryRow c kind row).account = store.account := by
  rw [HistoryStore.writeHistoryRow]
  split
  · exact ⟨rfl, rfl⟩
  · exact ⟨rfl, rfl⟩

/-- Of several rows that are written, those that a known deletion matches are erased. -/
theorem Sound.erased_foldl (h : store.Sound) {rows : List (HistoryRow M E)}
    (hrows : ∀ row ∈ rows, isErased row.message = true → row.Blank) (hrow : row ∈ rows)
    (hknows : store.Knows c kind row) :
    (rows.foldl (fun store row => store.writeHistoryRow c kind row) store).Erased kind row.key := by
  induction rows generalizing store with
  | nil => exact absurd hrow List.not_mem_nil
  | cons next rows ih =>
    have hnext : store.Advances (store.writeHistoryRow c kind next) :=
      h.writeHistoryRow (hrows next List.mem_cons_self)
    have hrest : ∀ row ∈ rows, isErased row.message = true → row.Blank :=
      fun row' h' => hrows row' (List.mem_cons_of_mem _ h')
    rcases List.mem_cons.1 hrow with rfl | hrow
    · -- the others do not undo it
      have hfold : (store.writeHistoryRow c kind row).Advances
          (rows.foldl (fun store row => store.writeHistoryRow c kind row)
            (store.writeHistoryRow c kind row)) :=
        .foldl (fun store h row' h' => h.writeHistoryRow (hrest row' h')) hnext.sound
      exact hfold.erased _ _ (h.erased_writeHistoryRow hknows)
    · obtain ⟨hdeletions, haccount⟩ := writeHistoryRow_deletions c store kind next
      refine ih hnext.sound hrest hrow ?_
      rw [Knows, deletionOwner, hdeletions, haccount]
      exact hknows

/-- A row that a known deletion matches is stored erased, on every path. -/
theorem Sound.erased_step (h : store.Sound) {w : HistoryWrite M E} (hw : w.Admissible)
    (hputs : w.Puts kind row) (hknows : store.Knows c kind row) :
    (store.step c w).Erased kind row.key := by
  cases w with
  | appendHistoryMessage kind' row' =>
    obtain ⟨rfl, rfl⟩ := hputs
    exact h.erased_writeHistoryRow hknows
  | commitSend kind' row' attempt =>
    obtain ⟨rfl, rfl⟩ := hputs
    exact h.erased_writeHistoryRow hknows
  | commitHistoryAdmission kind' conversationId rows settled =>
    obtain ⟨rfl, hrow⟩ := hputs
    have hrows : store.Advances
        (rows.foldl (fun store row => store.writeHistoryRow c kind' row) store) :=
      .foldl (fun store h row hrow => h.writeHistoryRow (hw row hrow)) h
    have hsettled := Advances.foldl (f := fun store message => store.writeOutboundRow kind'
      conversationId message none) (l := settled) (fun store h message _ => h.writeOutboundRow ..)
      hrows.sound
    exact hsettled.erased _ _ (h.erased_foldl hw hrow hknows)
  | commitMessageDeletions kind' records rows cancelled =>
    obtain ⟨rfl, hrow⟩ := hputs
    obtain ⟨hrecords, hrows⟩ := hw
    have hsaved := (h.saveDeletions hrecords).sound
    rw [HistoryStore.step, commitMessageDeletions]
    generalize store.saveDeletions records = saved at hsaved ⊢
    -- the row is put, and the others do not undo it
    obtain ⟨before, after, rfl⟩ := List.append_of_mem hrow
    rw [List.foldl_append, List.foldl_cons]
    have hbefore := Advances.foldl (f := fun store row => store.commitErasedRow c kind' cancelled row)
      (l := before) (fun store h row hrow =>
        h.commitErasedRow (hrows row (List.mem_append_left _ hrow)) cancelled) hsaved
    generalize before.foldl _ saved = store' at hbefore ⊢
    have hone : store'.Advances (store'.commitErasedRow c kind' cancelled row) :=
      hbefore.sound.commitErasedRow (hrows row hrow) cancelled
    have hafter := Advances.foldl (f := fun store row => store.commitErasedRow c kind' cancelled row)
      (l := after) (fun store h row hrow => h.commitErasedRow
        (hrows row (List.mem_append_right _ (List.mem_cons_of_mem _ hrow))) cancelled) hone.sound
    refine hafter.erased _ _ ⟨store'.eraseKnownTarget c kind' row, ?_,
      blank_eraseKnownTarget (hrows row hrow)⟩
    have hput : ((store'.putRow kind' (store'.eraseKnownTarget c kind' row)).messages
        kind')[row.key]? = some (store'.eraseKnownTarget c kind' row) := by
      rw [getElem?_putRow, if_pos ⟨rfl, key_eraseKnownTarget row⟩]
    rw [HistoryStore.commitErasedRow]
    split
    · exact hput
    · exact hput
  | putOutboundAttempt => exact hputs.elim
  | deleteOutboundAttempt => exact hputs.elim
  | saveAccountDeletions => exact hputs.elim
  | link => exact hputs.elim
  | reopen => exact hputs.elim

omit [LawfulMessage M] in
/-- An attempt of a message that is gone for everyone is not stored. -/
theorem attempts_step {w : HistoryWrite M E} {conversationId messageId : String}
    {attempt : OutboundAttemptRecord} (hw : w.Attempts kind conversationId messageId attempt)
    (hrow : ((store.step c w).messages kind)[historyKey conversationId attempt.sentAtMs
      messageId]? = some row)
    (hgone : (deletion row.message).any (·.scope = .forEveryone) = true) :
    (store.step c w).attempts[outboundAttemptKey kind conversationId messageId]? = none := by
  have hcancelled : cancelledAttempt row attempt = true := by
    rw [cancelledAttempt]
    cases hmarker : deletion row.message with
    | none =>
      rw [hmarker] at hgone
      cases hgone
    | some marker =>
      rw [hmarker, Option.any_some] at hgone
      rw [Option.any_some, hgone, Bool.true_or]
  have hwrite (store : HistoryStore M E) (hrow : (store.messages kind)[historyKey conversationId
      attempt.sentAtMs messageId]? = some row) :
      (store.writeOutboundRow kind conversationId messageId (some attempt)).attempts[
        outboundAttemptKey kind conversationId messageId]? = none := by
    simp only [writeOutboundRow, hrow, Option.filter_some, Option.any_some, hcancelled,
      Bool.not_true, Bool.false_eq_true, if_false]
    rw [Table.getElem?_erase, if_pos rfl]
  cases w with
  | commitSend kind' row' attempt' =>
    obtain ⟨rfl, rfl, rfl, rfl⟩ := hw
    exact hwrite _ hrow
  | putOutboundAttempt kind' conversationId' messageId' attempt' =>
    obtain ⟨rfl, rfl, rfl, rfl⟩ := hw
    exact hwrite _ hrow
  | appendHistoryMessage => exact hw.elim
  | deleteOutboundAttempt => exact hw.elim
  | commitHistoryAdmission => exact hw.elim
  | commitMessageDeletions => exact hw.elim
  | saveAccountDeletions => exact hw.elim
  | link => exact hw.elim
  | reopen => exact hw.elim

end HistoryStore

/-- What the program erases is blank: the rows that go with deletions are admissible. -/
theorem blank_of_mem_prepare {c : TargetCrypto} {transfer : Transfer} {book : DeletionBook}
    {records : List DeletionRecord} {index : Nat} {log : List M} {changes : List (Erasure M)}
    (h : prepare c transfer book records index log = .ok changes) {change : Erasure M}
    (hchange : change ∈ changes) : ({ toStoredMessage := change.row } : HistoryRow M E).Blank := by
  obtain ⟨j, m, -, hrow⟩ := mem_prepare h hchange
  obtain ⟨key, localOnly, correlation, record, -, -, -, rfl⟩ := prepareRow_eq_some hrow
  refine ⟨?_, LawfulMessage.body_eraseContent _, LawfulMessage.attachment_eraseContent _, rfl, rfl⟩
  exact Option.isSome_of_eq_some deletion_erase

/-- Writing a row again changes nothing. -/
theorem HistoryStore.guardedRow_self (c : TargetCrypto) (store : HistoryStore M E) (kind : Kind)
    (existing : Option (HistoryRow M E)) (row : HistoryRow M E) :
    store.guardedRow c kind (some (store.guardedRow c kind existing row)) row =
      store.guardedRow c kind existing row := by
  cases herased : isErased (store.guardedRow c kind existing row).message with
  | true => rw [guardedRow, Option.filter_some, if_pos herased]
  | false =>
    have hnone : existing.filter (isErased ·.message) = none := by
      refine Option.eq_none_iff_forall_ne_some.2 fun erased hfilter => ?_
      rw [guardedRow, hfilter] at herased
      exact nomatch herased.symm.trans (Option.filter_eq_some_iff.1 hfilter).2
    have hguarded : store.guardedRow c kind existing row =
        store.eraseKnownTarget c kind (retainHistoryEvidence row existing) := by
      rw [guardedRow, hnone]
    -- nothing was erased, so that the evidence is all that the row took over
    have hnew : store.guardedRow c kind existing row = retainHistoryEvidence row existing := by
      rw [hguarded] at herased ⊢
      rcases eraseKnownTarget_cases c store kind (retainHistoryEvidence row existing) with
        heq | hblank
      · exact heq
      · exact nomatch herased.symm.trans hblank.erased
    have hagain : retainHistoryEvidence row (some (retainHistoryEvidence row existing)) =
        retainHistoryEvidence row existing := by
      rw [retainHistoryEvidence, retainHistoryEvidence]
      cases row.historyEvidence <;> rfl
    have hno : Option.filter (isErased ·.message)
        (some (store.guardedRow c kind existing row)) = none := by
      rw [Option.filter_some, if_neg (by rw [herased]; nofun)]
    calc store.guardedRow c kind (some (store.guardedRow c kind existing row)) row
        = store.eraseKnownTarget c kind
            (retainHistoryEvidence row (some (store.guardedRow c kind existing row))) := by
          rw [guardedRow.eq_1 c store kind (some _), hno]
      _ = store.eraseKnownTarget c kind (retainHistoryEvidence row existing) := by
          rw [hnew, hagain]
      _ = store.guardedRow c kind existing row := hguarded.symm

/-! ## All runs -/

omit [ConversationMessage M] [LawfulMessage M] in
/-- A personal record with an alias is never replaced. -/
theorem mergedRow_of_alias {journal : Journal} {r incoming : DeletionRecord} {a : String}
    (hr : journal[incoming.storageKey]? = some r) (hshape : Shape r)
    (ha : r.personalCorrelation = some a) : mergedRow journal incoming = r := by
  cases hshape with
  | shared _ hnone _ => exact nomatch ha.symm.trans hnone
  | personal _ hstatus hack =>
    have hactor : r.actor ≤ incoming.actor := by
      rw [actor, hack]
      exact bot_le
    simp only [mergedRow, hr, merged, ha, hstatus, hactor]
    simp

/-- So it stays while records are merged, also before there is an index. -/
theorem foldl_mergeDeletionRow_of_alias {journal : Journal} {r : DeletionRecord} {k a : String}
    (hr : journal[k]? = some r) (hshape : Shape r) (ha : r.personalCorrelation = some a)
    (records : List DeletionRecord) :
    (records.foldl Deletion.mergeDeletionRow journal)[k]? = some r := by
  induction records generalizing journal with
  | nil => exact hr
  | cons incoming records ih =>
    refine ih ?_
    rw [getElem?_mergeDeletionRow]
    split
    · next heq =>
      subst heq
      rw [mergedRow_of_alias hr hshape ha]
    · exact hr

/-- Records are filed under their keys. -/
theorem foldl_mergeDeletionRow_keyed {journal : Journal}
    (hkeyed : ∀ (k : String) (r : DeletionRecord), journal[k]? = some r → r.storageKey = k)
    (records : List DeletionRecord) : ∀ (k : String) (r : DeletionRecord),
      (records.foldl Deletion.mergeDeletionRow journal)[k]? = some r → r.storageKey = k := by
  induction records generalizing journal with
  | nil => exact hkeyed
  | cons incoming records ih =>
    refine ih fun k r h => ?_
    rw [getElem?_mergeDeletionRow] at h
    split at h
    · next heq => rw [← Option.some.inj h, storageKey_mergedRow hkeyed, heq]
    · exact hkeyed k r h

/-- A store from before the time of the index: records were merged one after the other, and a
    marker only came with an empty message. -/
structure HistoryStore.Legacy (c : TargetCrypto) (legacy : List DeletionRecord)
    (store : HistoryStore M E) : Prop where
  deletions : store.deletions = ⟨journalOf legacy, ∅⟩
  storable : ∀ r ∈ legacy, Storable c.toDeletionCrypto r
  plain : ∀ r ∈ legacy, PlainRecord r
  marked : ∀ kind (key : String) row, (store.messages kind)[key]? = some row →
    isErased row.message = true → row.Blank

variable {c : TargetCrypto} {legacy : List DeletionRecord} {store₀ store : HistoryStore M E}

omit [LawfulMessage M] in
/-- The records of such a store are the merged ones. -/
theorem HistoryStore.Legacy.mem (h : store₀.Legacy c legacy) {k : String} {r : DeletionRecord}
    (hr : (journalOf legacy)[k]? = some r) : r ∈ legacy :=
  mem_of_mem_journalOf (fun r hr => (h.storable r hr).shape)
    (List.mem_map.2 ⟨(k, r), Std.ExtTreeMap.mem_toList_iff_getElem?_eq_some.2 hr, rfl⟩)

omit [LawfulMessage M] in
/-- When it is opened, the index is made. -/
theorem HistoryStore.Legacy.reopen (h : store₀.Legacy c legacy) :
    (store₀.step c .reopen).Sound ∧
      (store₀.step c .reopen).deletions.records = journalOf legacy := by
  have hkeyed : ∀ (k : String) (r : DeletionRecord), (journalOf legacy)[k]? = some r →
      r.storageKey = k := foldl_mergeDeletionRow_keyed (fun k r h => by simp at h) legacy
  obtain ⟨hrecords, hindexed, hready⟩ :=
    DeletionRows.initializeDeletionIndex_indexed ⟨journalOf legacy, ∅⟩ rfl hkeyed
      fun k r hr => h.plain r (h.mem hr)
  rw [HistoryStore.step, h.deletions]
  exact ⟨⟨hindexed, hready, h.marked⟩, hrecords⟩

end Rows

/-- The message of Alice as a row. -/
def helloRow : HistoryRow ChatMessage Unit where
  conversationId := "1"
  sentAtMs := 1
  messageId := "m"
  message := hello

/-- A store from before the time of the index, that knows that Alice took her message back. -/
def oldStore : HistoryStore ChatMessage Unit := ⟨⟨journalOf [early], ∅⟩, fun _ => ∅, ∅, none⟩

end Mosh.Deletion
