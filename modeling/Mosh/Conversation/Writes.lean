import Mosh.Conversation.MessageLog
import Mosh.Deletion.Tombstones

/-!
# Writes that the store refuses

A runtime owns the writes of its conversations that the store has not accepted yet
(`conversation/runtime_writes.rs`): the sends to save, the rows of every log beyond those
it has appended, and the state and the record of every conversation. A pass
(`persistTail`) tries them all. The store may refuse every single call, and every function
leaves early when it does.

All maps of the runtime are keyed by the conversation, so they are one `Entry` for
every id here, and a pass changes each of them on its own.

* `historyRows`: how the history on disk takes rows, as a parameter of the runtime;
* `Runtime.persistTail`: a pass;
* `flushState_cases`, `saveState_effect`: what saving the state of a conversation leaves,
  whatever is refused during it.
-/

namespace Mosh.Conversation

open ConversationMessage MessageLog

variable {M A R X Offer Row ε : Type}

/-! ## The store -/

/-- How the store writes the rows of a kind of messages. -/
structure Rows (M A Offer Row : Type) where
  /-- A message as it is stored, with the offer of its file. -/
  storedRow : (conversationId : String) → (sentAtMs : Nat) → (messageId : String) → M →
    Option Offer → Row
  /-- What is stored under a key that a row is written to: evidence and erasures are kept. -/
  writeHistoryRow : Option Row → Row → Row
  /-- The time in an attempt, and whether the row under it cancels the attempt. -/
  attemptTime : A → Option Nat
  cancelledAttempt : Row → A → Bool
  /-- Writing a row again changes nothing. -/
  writeHistoryRow_self : ∀ old row,
    writeHistoryRow (some (writeHistoryRow old row)) row = writeHistoryRow old row

/-- What the store holds of a message: its rows, by the time in their key, and the attempt to
    send it. -/
structure Slot (A Row : Type) where
  rows : Nat → Option Row
  attempt : Option A

/-- What the store holds of a conversation. -/
structure Shelf (A R X Row : Type) where
  slots : String → Slot A Row
  extra : Option X
  record : Option R

/-- The history on disk takes rows as its guard lets them through. An attempt names the row that
    may cancel it. -/
def historyRows {E : Type} [ConversationMessage M] [LawfulMessage M] (crypto : Deletion.TargetCrypto)
    (store : Deletion.HistoryStore M E) (kind : Deletion.Kind) :
    Rows M OutboundAttemptRecord (AttachmentManifest × Option AttachmentManifest)
      (Deletion.HistoryRow M E) where
  storedRow conversationId sentAtMs messageId message offer :=
    { conversationId, sentAtMs, messageId, message
      attachmentManifest := offer.map (·.1)
      previewManifest := offer.bind (·.2) }
  writeHistoryRow := store.guardedRow crypto kind
  attemptTime attempt := some attempt.sentAtMs
  cancelledAttempt := Deletion.cancelledAttempt
  writeHistoryRow_self := store.guardedRow_self crypto kind

variable (k : Rows M A Offer Row)

/-- Write a row of a message. -/
def Slot.appendHistoryMessage (slot : Slot A Row) (sentAtMs : Nat) (row : Row) : Slot A Row :=
  { slot with
    rows := Function.update slot.rows sentAtMs
      (some (k.writeHistoryRow (slot.rows sentAtMs) row)) }

/-- The attempt is not stored if the row under its time cancels it. -/
def Slot.writeOutboundRow (slot : Slot A Row) (attempt : Option A) : Slot A Row :=
  let cancelled (a : A) : Bool :=
    (k.attemptTime a).any fun time => (slot.rows time).any (k.cancelledAttempt · a)
  { slot with attempt := attempt.filter fun a => !cancelled a }

/-- Save a message and the state of its send in one transaction. -/
def Slot.commitSend (slot : Slot A Row) (sentAtMs : Nat) (row : Row) (attempt : Option A) :
    Slot A Row :=
  (slot.appendHistoryMessage k sentAtMs row).writeOutboundRow k attempt

/-- Saving a send again changes nothing. -/
theorem Slot.commitSend_commitSend {k : Rows M A Offer Row} 
    (slot : Slot A Row) (sentAtMs : Nat) (row : Row) (attempt : Option A) :
    (slot.commitSend k sentAtMs row attempt).commitSend k sentAtMs row attempt =
      slot.commitSend k sentAtMs row attempt := by
  have hrows : Function.update (Function.update slot.rows sentAtMs
      (some (k.writeHistoryRow (slot.rows sentAtMs) row))) sentAtMs
      (some (k.writeHistoryRow (some (k.writeHistoryRow (slot.rows sentAtMs) row)) row)) =
      Function.update slot.rows sentAtMs
        (some (k.writeHistoryRow (slot.rows sentAtMs) row)) := by
    rw [Function.update_idem, k.writeHistoryRow_self]
  simp only [commitSend, appendHistoryMessage, writeOutboundRow, Function.update_self, hrows]

/-! ## The runtime -/

variable [ConversationMessage M]

/-- A conversation of a kind. Its messages are stamped before they are filed. A kind may save
    a send in its own way: a group files a publication, with the row that it wrote. -/
structure Session (M A R X Offer Row : Type) [ConversationMessage M] where
  log : List M
  offer : M → Option Offer
  attempts : String → Option A
  publication : String → Option Row
  record : R
  extra : X
  recordIsFinal : Bool
  recordChanged : Bool
  stamped : ∀ m ∈ log, (messageId m).isSome ∧ (sentAtMs m).isSome
  published : ∀ id row, publication id = some row → ∃ m ∈ log, messageId m = some id

/-- The state of a conversation that is still to be saved. -/
structure StateWrite where
  extra : Bool
  record : Bool
  finalize : Bool
  deriving DecidableEq, Repr

/-- The calls of the store during a pass. The state is saved along with a send, or with the
    tail. -/
inductive StoreCall
  | send (messageId : String)
  | append (index : Nat)
  | extra (during : Option String)
  | record (during : Option String)
  deriving DecidableEq, Repr

/-- The send during which a call is made, if it is not made for the tail. -/
def StoreCall.during : StoreCall → Option String
  | .send message => some message
  | .append _ => none
  | .extra during | .record during => during

/-- What a runtime knows of a conversation, and what the store holds of it. `calls` is not in the
    program: it records the calls of the store and what they returned, oldest first. -/
structure Entry (M A R X Offer Row ε : Type) [ConversationMessage M] where
  session : Option (Session M A R X Offer Row)
  sends : String → Option Bool
  state : Option StateWrite
  persistedCount : Nat
  finalRecord : Bool
  shelf : Shelf A R X Row
  calls : List (StoreCall × Option ε)

/-- The record is to be saved: it is final, and was not saved as such or has changed since. -/
def Session.recordDue (s : Session M A R X Offer Row) (finalRecord : Bool) : Bool :=
  s.recordIsFinal && (!finalRecord || s.recordChanged)

/-- What a send writes: the time of its key, its row and its attempt. A publication settles
    the attempt. -/
def Session.sendWrite (s : Session M A R X Offer Row) (id : String) (now : Nat)
    (message : String) : Option (Nat × Row × Option A) :=
  (s.log.find? fun m => messageId m = some message).map fun m =>
    let sentAt := (sentAtMs m).getD now
    match s.publication message with
    | some row => (sentAt, row, none)
    | none => (sentAt, k.storedRow id sentAt message m none, s.attempts message)

namespace Entry

variable (refuses : StoreCall → Option ε) (id : String) (now : Nat)

/-- A call of the store, which does or does not refuse it. -/
def call (x : StoreCall) (c : Entry M A R X Offer Row ε) :
    Option ε × Entry M A R X Offer Row ε :=
  (refuses x, { c with calls := c.calls ++ [(x, refuses x)] })

/-- Note that state is to be saved. -/
def requestState (c : Entry M A R X Offer Row ε) (extra record finalize : Bool) :
    Entry M A R X Offer Row ε :=
  if extra || record then
    let pending := c.state.getD ⟨false, false, false⟩
    { c with
      state := some ⟨pending.extra || extra, pending.record || record,
        pending.finalize || finalize⟩ }
  else c

/-- Save the extra state of the conversation. -/
def writeExtra (during : Option String) (pending : StateWrite) (s : Session M A R X Offer Row)
    (c : Entry M A R X Offer Row ε) : Option ε × Entry M A R X Offer Row ε :=
  if pending.extra then
    match c.call refuses (.extra during) with
    | (some e, c) => (some e, c)
    | (none, c) => (none, { c with
        state := some { pending with extra := false }
        shelf := { c.shelf with extra := some s.extra } })
  else (none, c)

/-- Save the record of the conversation. -/
def writeRecord (during : Option String) (pending : StateWrite) (s : Session M A R X Offer Row)
    (c : Entry M A R X Offer Row ε) : Option ε × Entry M A R X Offer Row ε :=
  if pending.record then
    match c.call refuses (.record during) with
    | (some e, c) => (some e, c)
    | (none, c) =>
      let c := { c with shelf := { c.shelf with record := some s.record } }
      (none, if pending.finalize then
          { c with session := some { s with recordChanged := false }, finalRecord := true }
        else c)
  else (none, c)

/-- Save the state, and then the record. -/
def flushState (during : Option String) (c : Entry M A R X Offer Row ε) :
    Option ε × Entry M A R X Offer Row ε :=
  match c.state, c.session with
  | none, _ => (none, c)
  | some _, none => (none, { c with state := none })
  | some pending, some s =>
    match c.writeExtra refuses during pending s with
    | (some e, c) => (some e, c)
    | (none, c) =>
      match c.writeRecord refuses during pending s with
      | (some e, c) => (some e, c)
      | (none, c) => (none, { c with state := none })

/-- Save the state after a send or a tail, if that or the record asks for it. -/
def saveState (during : Option String) (changed : Bool) (s : Session M A R X Offer Row)
    (c : Entry M A R X Offer Row ε) : Option ε × Entry M A R X Offer Row ε :=
  let due := s.recordDue c.finalRecord
  (c.requestState (changed || due) due due).flushState refuses during

/-- Save a send, and the state if it is due. -/
def writeSend (message : String) (deep : Bool) (c : Entry M A R X Offer Row ε) :
    Option ε × Entry M A R X Offer Row ε :=
  match c.session with
  | none => (none, c)
  | some s =>
    match s.sendWrite k id now message with
    | none => (none, c)
    | some (sentAt, row, attempt) =>
      match c.call refuses (.send message) with
      | (some e, c) => (some e, c)
      | (none, c) =>
        let slot := (c.shelf.slots message).commitSend k sentAt row attempt
        saveState refuses (some message) deep s { c with
          shelf := { c.shelf with slots := Function.update c.shelf.slots message slot } }

/-- Save a send. It stays pending if anything is refused. -/
def persistSend (message : String) (deep : Bool) (c : Entry M A R X Offer Row ε) :
    Option ε × Entry M A R X Offer Row ε :=
  let deep := (c.sends message).getD false || deep
  let c := { c with sends := Function.update c.sends message (some deep) }
  match c.writeSend k refuses id now message deep with
  | (some e, c) => (some e, c)
  | (none, c) => (none, { c with sends := Function.update c.sends message none })

/-- The key of a message and the row under it. -/
def tailRow (s : Session M A R X Offer Row) (index : Nat) (m : M) : String × Nat × Row :=
  let sentAt := (sentAtMs m).getD now
  let message := (messageId m).getD (toString sentAt ++ "-" ++ sixDigits index)
  (message, sentAt, k.storedRow id sentAt message (fillIn m message sentAt) (s.offer m))

/-- Append a message of the log. -/
def append (s : Session M A R X Offer Row) (index : Nat) (m : M) (slots : String → Slot A Row) :
    String → Slot A Row :=
  let (message, sentAt, row) := tailRow k id now s index m
  Function.update slots message ((slots message).appendHistoryMessage k sentAt row)

/-- Append messages of the log one after the other. -/
def writeTail (s : Session M A R X Offer Row) : List M → Nat → Entry M A R X Offer Row ε →
    Option ε × Entry M A R X Offer Row ε
  | [], _, c => (none, c)
  | m :: log, index, c =>
    match c.call refuses (.append index) with
    | (some e, c) => (some e, c)
    | (none, c) => writeTail s log (index + 1) { c with
        shelf := { c.shelf with slots := append k id now s index m c.shelf.slots }
        persistedCount := index + 1 }

/-- Append what the log has gained, and save the state if it is due. -/
def persistSessionTail (c : Entry M A R X Offer Row ε) :
    Option ε × Entry M A R X Offer Row ε :=
  match c.session with
  | none => (none, c)
  | some s =>
    let changed : Bool := c.persistedCount < s.log.length
    match c.writeTail k refuses id now s (s.log.drop c.persistedCount) c.persistedCount with
    | (some e, c) => (some e, c)
    | (none, c) => saveState refuses none changed s c

end Entry

/-- A runtime: its conversations. -/
abbrev Runtime (M A R X Offer Row ε : Type) [ConversationMessage M] :=
  String → Entry M A R X Offer Row ε

namespace Runtime

variable (refuses : String → StoreCall → Option ε) (now : Nat)

/-- Retry a pending send of a conversation. Collects the errors and the conversations they are
    of. -/
def sendStep (r₀ : Runtime M A R X Offer Row ε)
    (acc : List (String × ε) × Runtime M A R X Offer Row ε) (key : String × String) :
    List (String × ε) × Runtime M A R X Offer Row ε :=
  let deep := ((r₀ key.1).sends key.2).getD false
  let result := (acc.2 key.1).persistSend k (refuses key.1) key.1 now key.2 deep
  (acc.1 ++ (result.1.toList.map fun e => (key.1, e)), Function.update acc.2 key.1 result.2)

/-- Save the tail of a conversation, unless one of its sends was refused. -/
def tailStep (refused : List String) (acc : List (String × ε) × Runtime M A R X Offer Row ε)
    (id : String) : List (String × ε) × Runtime M A R X Offer Row ε :=
  if id ∈ refused then acc
  else
    let result := (acc.2 id).persistSessionTail k (refuses id) id now
    (acc.1 ++ (result.1.toList.map fun e => (id, e)), Function.update acc.2 id result.2)

/-- Retry the pending sends and append the new rows. `sends` and `ids` are the pending sends and
    the conversations in the order in which the maps give them. -/
def persistTail (sends : List (String × String)) (ids : List String)
    (r : Runtime M A R X Offer Row ε) : Except ε Unit × Runtime M A R X Offer Row ε :=
  let (errors, r₁) := sends.foldl (sendStep k refuses now r) ([], r)
  let (errors, r₂) := ids.foldl (tailStep k refuses now (errors.map (·.1))) (errors, r₁)
  (errors.head?.elim (.ok ()) fun error => .error error.2, r₂)

end Runtime

namespace Entry

section Equations

variable {k} {s : Session M A R X Offer Row} {c : Entry M A R X Offer Row ε} {id message : String}
  {deep : Bool}

/-- The time of a stamped message does not depend on the clock. -/
theorem sendWrite_now (s : Session M A R X Offer Row) (now : Nat) (message : String) :
    s.sendWrite k id now message = s.sendWrite k id 0 message := by
  rw [Session.sendWrite, Session.sendWrite]
  cases hfind : s.log.find? fun m => messageId m = some message with
  | none => rfl
  | some m =>
    obtain ⟨time, htime⟩ := Option.isSome_iff_exists.1 (s.stamped m (List.mem_of_find?_eq_some hfind)).2
    simp only [Option.map_some, htime, Option.getD_some]

variable (k) (refuses : StoreCall → Option ε) (id) (now : Nat)

/-- A pending send is tried with the depth that was asked for. -/
theorem persistSend_of_pending (hpending : c.sends message = some deep) :
    c.persistSend k refuses id now message deep =
      match c.writeSend k refuses id now message deep with
      | (some e, c) => (some e, c)
      | (none, c) => (none, { c with sends := Function.update c.sends message none }) := by
  have hdeep : ((c.sends message).getD false || deep) = deep := by
    rw [hpending, Option.getD_some, Bool.or_self]
  have hupdate : Function.update c.sends message (some deep) = c.sends := by
    rw [← hpending, Function.update_eq_self]
  simp only [persistSend, hdeep, hupdate]

theorem writeSend_of_session (message : String) (deep : Bool) (hs : c.session = some s) :
    c.writeSend k refuses id now message deep =
      match s.sendWrite k id 0 message with
      | none => (none, c)
      | some (sentAt, row, attempt) =>
        match c.call refuses (.send message) with
        | (some e, c) => (some e, c)
        | (none, c) =>
          let slot := (c.shelf.slots message).commitSend k sentAt row attempt
          saveState refuses (some message) deep s { c with
            shelf := { c.shelf with slots := Function.update c.shelf.slots message slot } } := by
  rw [writeSend, hs]
  simp only [sendWrite_now]

theorem persistSessionTail_of_session (hs : c.session = some s) :
    c.persistSessionTail k refuses id now =
      match c.writeTail k refuses id now s (s.log.drop c.persistedCount) c.persistedCount with
      | (some e, c) => (some e, c)
      | (none, c₁) =>
        saveState refuses none (decide (c.persistedCount < s.log.length)) s c₁ := by
  rw [persistSessionTail, hs]

end Equations

/-! ## The state of a conversation -/

section State

variable {refuses : StoreCall → Option ε} {during : Option String} {pending : StateWrite}
  {s s' : Session M A R X Offer Row} {c c' : Entry M A R X Offer Row ε} {e : Option ε}
  {changed : Bool}

/-- The extra state, and the record, wait to be saved. -/
def waitsExtra (c : Entry M A R X Offer Row ε) : Bool := c.state.any (·.extra)

def waitsRecord (c : Entry M A R X Offer Row ε) : Bool := c.state.any (·.record)

/-- The record is due. -/
def recordDue (c : Entry M A R X Offer Row ε) : Bool :=
  c.session.any (·.recordDue c.finalRecord)

variable (refuses during) in
/-- A list of calls of the store, as they were answered. -/
def Answered (calls : List (StoreCall × Option ε)) : Prop :=
  ∀ x ∈ calls, x.1.during = during ∧ x.2 = refuses x.1

/-- What a call was to save waits to be saved. -/
def Waits (c : Entry M A R X Offer Row ε) : StoreCall → Prop
  | .send message => (c.sends message).isSome
  | .append index => c.persistedCount ≤ index
  | .extra _ => c.waitsExtra = true
  | .record _ => c.waitsRecord = true

variable (refuses during) in
/-- The calls of the store between two states, and whether one of them was refused. -/
def Asks (c c' : Entry M A R X Offer Row ε) (e : Option ε) : Prop :=
  ∃ calls, c'.calls = c.calls ++ calls ∧ Answered refuses during calls ∧
    (e = none ↔ ∀ x ∈ calls, x.2 = none) ∧ ∀ x ∈ calls, x.2 ≠ none → c'.Waits x.1

/-- Calls of which none was refused. -/
theorem Asks.accepted {calls : List (StoreCall × Option ε)} (h : c'.calls = c.calls ++ calls)
    (hanswered : Answered refuses during calls) (hcalls : ∀ x ∈ calls, x.2 = none) :
    Asks refuses during c c' none :=
  ⟨calls, h, hanswered, iff_of_true rfl hcalls, fun x hx h => absurd (hcalls x hx) h⟩

theorem Asks.nothing (h : c'.calls = c.calls) : Asks refuses during c c' none :=
  .accepted (by rw [h, List.append_nil]) (List.forall_mem_nil _) (List.forall_mem_nil _)

theorem Asks.refl (c : Entry M A R X Offer Row ε) : Asks refuses during c c none := .nothing rfl

theorem Asks.single {x : StoreCall} (h : c'.calls = c.calls ++ [(x, refuses x)])
    (hx : x.during = during) (he : e = refuses x) (hwaits : c'.Waits x) :
    Asks refuses during c c' e :=
  ⟨_, h, List.forall_mem_singleton.2 ⟨hx, rfl⟩, by simp [he],
    List.forall_mem_singleton.2 fun _ => hwaits⟩

theorem Asks.trans {c'' : Entry M A R X Offer Row ε} (h : Asks refuses during c c' none)
    (h' : Asks refuses during c' c'' e) : Asks refuses during c c'' e := by
  obtain ⟨calls, hcalls, hanswered, hnone, -⟩ := h
  obtain ⟨calls', hcalls', hanswered', hiff, hwaits⟩ := h'
  have hnone := hnone.1 rfl
  refine ⟨calls ++ calls', by rw [hcalls', hcalls, List.append_assoc], ?_, hiff.trans ?_, ?_⟩
  · exact List.forall_mem_append.2 ⟨hanswered, hanswered'⟩
  · rw [List.forall_mem_append]
    exact ⟨fun h => ⟨hnone, h⟩, fun h => h.2⟩
  · exact List.forall_mem_append.2 ⟨fun x hx h => absurd (hnone x hx) h, hwaits⟩

/-- The conversation after its state is saved as far as `pending` asks for it. -/
def saved (pending : StateWrite) (s : Session M A R X Offer Row)
    (calls : List (StoreCall × Option ε)) (c : Entry M A R X Offer Row ε) :
    Entry M A R X Offer Row ε :=
  { c with
    session := some (if pending.record && pending.finalize then { s with recordChanged := false }
      else s)
    finalRecord := c.finalRecord || (pending.record && pending.finalize)
    state := none
    shelf := { c.shelf with
      extra := if pending.extra then some s.extra else c.shelf.extra
      record := if pending.record then some s.record else c.shelf.record }
    calls := c.calls ++ calls }

/-- The conversation after its record was refused. -/
def refusedRecord (pending : StateWrite) (s : Session M A R X Offer Row)
    (calls : List (StoreCall × Option ε)) (c : Entry M A R X Offer Row ε) :
    Entry M A R X Offer Row ε :=
  { c with
    state := some { pending with extra := false }
    shelf := { c.shelf with extra := if pending.extra then some s.extra else c.shelf.extra }
    calls := c.calls ++ calls }

variable (refuses during) in
/-- The three ways in which saving the state ends. -/
theorem flushState_cases (hs : c.session = some s) (hp : c.state = some pending) :
    ∃ calls, Answered refuses during calls ∧
      ((pending.extra = true ∧ (¬ ∀ x ∈ calls, x.2 = none) ∧
        (∀ x ∈ calls, x.2 ≠ none → x.1 = .extra during) ∧ ∃ e,
        c.flushState refuses during = (some e, { c with calls := c.calls ++ calls })) ∨
      (pending.record = true ∧ (¬ ∀ x ∈ calls, x.2 = none) ∧
        (∀ x ∈ calls, x.2 ≠ none → x.1 = .record during) ∧ ∃ e,
        c.flushState refuses during = (some e, c.refusedRecord pending s calls)) ∨
      (∀ x ∈ calls, x.2 = none) ∧
        c.flushState refuses during = (none, c.saved pending s calls)) := by
  obtain ⟨extra, record, finalize⟩ := pending
  have hflush : c.flushState refuses during =
      match c.writeExtra refuses during ⟨extra, record, finalize⟩ s with
      | (some e, c) => (some e, c)
      | (none, c) =>
        match c.writeRecord refuses during ⟨extra, record, finalize⟩ s with
        | (some e, c) => (some e, c)
        | (none, c) => (none, { c with state := none }) := by
    rw [flushState, hs, hp]
  rw [hflush]
  have hx : ((StoreCall.extra during, refuses (.extra during)) : StoreCall × Option ε).1.during =
      during ∧ refuses (.extra during) = refuses (.extra during) := ⟨rfl, rfl⟩
  have hr : ((StoreCall.record during, refuses (.record during)) : StoreCall × Option ε).1.during =
      during ∧ refuses (.record during) = refuses (.record during) := ⟨rfl, rfl⟩
  cases extra with
  | false =>
    cases record with
    | false =>
      refine ⟨[], List.forall_mem_nil _, .inr (.inr ⟨List.forall_mem_nil _, ?_⟩)⟩
      simp [writeExtra, writeRecord, saved, ← hs]
    | true =>
      refine ⟨_, List.forall_mem_singleton.2 hr, ?_⟩
      cases hrecord : refuses (.record during) with
      | some e =>
        refine .inr (.inl ⟨rfl, by simp, by simp, e, ?_⟩)
        simp [writeExtra, writeRecord, call, hrecord, refusedRecord, ← hp]
      | none =>
        refine .inr (.inr ⟨by simp, ?_⟩)
        cases finalize <;> simp [writeExtra, writeRecord, call, hrecord, saved, ← hs]
  | true =>
    cases hextra : refuses (.extra during) with
    | some e =>
      refine ⟨_, List.forall_mem_singleton.2 hx, .inl ⟨rfl, by simp [hextra], by simp, e, ?_⟩⟩
      simp [writeExtra, call, hextra]
    | none =>
      cases record with
      | false =>
        refine ⟨_, List.forall_mem_singleton.2 hx, .inr (.inr ⟨by simp [hextra], ?_⟩)⟩
        simp [writeExtra, writeRecord, call, hextra, saved, ← hs]
      | true =>
        refine ⟨_, List.forall_mem_cons.2 ⟨hx, List.forall_mem_singleton.2 hr⟩, ?_⟩
        cases hrecord : refuses (.record during) with
        | some e =>
          refine .inr (.inl ⟨rfl, by simp, by simp [hextra], e, ?_⟩)
          simp [writeExtra, writeRecord, call, hextra, hrecord, refusedRecord]
        | none =>
          refine .inr (.inr ⟨by simp [hextra], ?_⟩)
          cases finalize <;> simp [writeExtra, writeRecord, call, hextra, hrecord, saved, ← hs]

/-- What waits to be saved after a request. -/
theorem requestState_cases (c : Entry M A R X Offer Row ε) (changed due : Bool) :
    (c.requestState (changed || due) due due = c ∧ c.state = none ∧ changed = false ∧
      due = false) ∨
    ∃ pending, c.requestState (changed || due) due due = { c with state := some pending } ∧
      pending.extra = (changed || due || c.waitsExtra) ∧
      pending.record = (due || c.waitsRecord) ∧ (due = true → pending.finalize = true) := by
  obtain ⟨session, sends, state, persistedCount, finalRecord, shelf, calls⟩ := c
  cases state with
  | none =>
    cases changed <;> cases due <;> simp [requestState, waitsExtra, waitsRecord]
  | some pending =>
    refine .inr ?_
    cases changed <;> cases due <;> simp [requestState, waitsExtra, waitsRecord]

variable (refuses during) in
/-- What saving the state of a conversation does: what is asked for is saved, or waits. -/
structure StateEffect (asked askedRecord : Bool) (s : Session M A R X Offer Row)
    (c : Entry M A R X Offer Row ε) (e : Option ε)
    (c' : Entry M A R X Offer Row ε) : Prop where
  sends : c'.sends = c.sends
  persistedCount : c'.persistedCount = c.persistedCount
  slots : c'.shelf.slots = c.shelf.slots
  session : ∃ b, c'.session = some { s with recordChanged := b }
  due : c'.recordDue = true → s.recordDue c.finalRecord = true
  extra : if asked then c'.shelf.extra = some s.extra ∨ c'.waitsExtra = true
    else c'.shelf.extra = c.shelf.extra ∧ c'.waitsExtra = false
  record : if askedRecord then c'.shelf.record = some s.record ∨ c'.waitsRecord = true
    else c'.shelf.record = c.shelf.record ∧ c'.waitsRecord = false
  /-- The record is only taken for final, and for unchanged, after it was stored. -/
  written : (c'.finalRecord = c.finalRecord ∧ c'.session = some s ∧
    c'.shelf.record = c.shelf.record) ∨ c'.shelf.record = some s.record
  done : e = none → c'.state = none ∧ c'.recordDue = false
  asks : Asks refuses during c c' e

variable (refuses during changed) in
theorem saveState_effect (hs : c.session = some s) :
    StateEffect refuses during (changed || s.recordDue c.finalRecord || c.waitsExtra)
      (s.recordDue c.finalRecord || c.waitsRecord) s c
      (c.saveState refuses during changed s).1 (c.saveState refuses during changed s).2 := by
  have hdue : c.recordDue = s.recordDue c.finalRecord := by rw [recordDue, hs, Option.any_some]
  rw [saveState]
  rcases requestState_cases c changed (s.recordDue c.finalRecord) with
    ⟨heq, hstate, hchanged, hno⟩ | ⟨pending, heq, hextra, hrecord, hfinal⟩
  · -- nothing is asked for
    have hflush : c.flushState refuses during = (none, c) := by rw [flushState, hstate]
    rw [heq, hflush]
    have hwaits : c.waitsExtra = false ∧ c.waitsRecord = false := by
      rw [waitsExtra, waitsRecord, hstate]
      exact ⟨rfl, rfl⟩
    refine ⟨rfl, rfl, rfl, ⟨s.recordChanged, hs⟩, fun h => hdue ▸ h, ?_, ?_, .inl ⟨rfl, hs, rfl⟩,
      fun _ => ⟨hstate, hdue.trans hno⟩, .refl c⟩
    · simp [hchanged, hno, hwaits.1]
    · simp [hno, hwaits.2]
  · rw [heq, ← hextra, ← hrecord]
    have hs' : ({ c with state := some pending } : Entry M A R X Offer Row ε).session =
        some s := hs
    obtain ⟨calls, hanswered, ⟨hx, hrefused, hcall, e, hflush⟩ | ⟨hr, hrefused, hcall, e, hflush⟩ |
      ⟨hcalls, hflush⟩⟩ := flushState_cases refuses during hs' rfl
    · -- the extra state is refused
      rw [hflush]
      refine ⟨rfl, rfl, rfl, ⟨s.recordChanged, hs⟩, fun h => hdue ▸ h, ?_, ?_, .inl ⟨rfl, hs, rfl⟩,
        nofun, ⟨calls, rfl, hanswered, iff_of_false nofun hrefused, fun x hmem h => ?_⟩⟩
      · simp [hx, waitsExtra]
      · cases hr : pending.record <;> simp [waitsRecord, hr]
      · rw [hcall x hmem h]
        exact hx
    · -- the record is refused
      rw [hflush]
      refine ⟨rfl, rfl, rfl, ⟨s.recordChanged, hs⟩, fun h => hdue ▸ h, ?_, ?_, .inl ⟨rfl, hs, rfl⟩,
        nofun, ⟨calls, rfl, hanswered, iff_of_false nofun hrefused, fun x hmem h => ?_⟩⟩
      · cases hx : pending.extra <;> simp [refusedRecord, waitsExtra, hx]
      · simp [refusedRecord, waitsRecord, hr]
      · rw [hcall x hmem h]
        exact hr
    · -- nothing is refused
      rw [hflush]
      have hrest : (c.saved pending s calls).recordDue = false := by
        cases hdue' : s.recordDue c.finalRecord with
        | false =>
          revert hdue'
          cases hp : pending.record && pending.finalize <;>
            simp [recordDue, saved, hp, Session.recordDue]
        | true =>
          have hp : (pending.record && pending.finalize) = true := by
            rw [hrecord, hdue', hfinal hdue']
            rfl
          simp [recordDue, saved, hp, Session.recordDue]
      refine ⟨rfl, rfl, rfl, ?_, fun h => absurd (hrest.symm.trans h) nofun, ?_, ?_, ?_,
        fun _ => ⟨rfl, hrest⟩, .accepted rfl hanswered hcalls⟩
      · cases hp : pending.record && pending.finalize with
        | false => exact ⟨s.recordChanged, by simp [saved, hp]⟩
        | true => exact ⟨false, by simp [saved, hp]⟩
      · cases hx : pending.extra <;> simp [saved, waitsExtra, hx]
      · cases hr : pending.record <;> simp [saved, waitsRecord, hr]
      · cases hr : pending.record with
        | false => exact .inl (by simp [saved, hr])
        | true => exact .inr (by simp [saved, hr])

end State

end Entry

end Mosh.Conversation
