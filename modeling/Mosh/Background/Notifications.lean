import Mosh.Deletion.Tombstones
import Mosh.DeviceLink.Roster

/-!
# Background notifications

While the app is not in front, messages that come in are noted in a ledger beside the
history (`persistence/background_delivery.rs`): one summary for a conversation, of its newest
message and of how many there were since the last one that the user was told about. What is
pending is read from the ledger, with the text of the row of the newest message.

* `Delivery.step`: all that moves the ledger and the history below it;
* `Tracked`: a ledger with the messages that it counted;
* `Tracked.Sound`: what holds of them along every run;
* `pendingBackgroundNotifications_eq`: what is read are the first entries of the ledger;
* `newest_is_pending`: over all runs, no row is counted twice, and a conversation whose newest
  message is not erased is told about.
-/

namespace Mosh.Background

open Conversation ConversationMessage Deletion
open Run (Runs)

/-- A conversation, for the app. -/
structure BridgeConversationRef where
  kind : Kind
  id : String
  deriving DecidableEq, Repr

/-- The phase of a call, for the app. -/
inductive BackgroundCallPhase
  | incoming | outgoing | accepting | active | ended
  deriving DecidableEq, Repr

/-- What the app is told about a call. -/
structure BackgroundCallNotification where
  phase : BackgroundCallPhase
  callId : String
  expiresAtMs : Nat
  answerCapability : Option String
  declineCapability : Option String
  hangupCapability : Option String
  deriving DecidableEq, Repr

/-- What the app is told. -/
structure BackgroundNotification where
  id : String
  revision : Nat
  target : BridgeConversationRef
  occurrenceId : String
  sentAtMs : Nat
  messageCount : Nat
  sender : Option String
  text : Option String
  call : Option BackgroundCallNotification
  deriving DecidableEq, Repr

/-- A message that came in. The kind stands for the tables of its history. -/
structure BackgroundMessageAdmission where
  kind : Kind
  conversationId : String
  occurrenceId : String
  messageId : String
  sentAtMs : Nat
  deriving DecidableEq, Repr

/-- Whether the app is in front, and whether its user wants it to wait for messages. -/
structure Control where
  waitingEnabled : Bool
  interactive : Bool
  deriving DecidableEq, Repr

/-- What the ledger holds of a conversation. -/
structure Summary where
  id : String
  revision : Nat
  target : BridgeConversationRef
  occurrenceId : String
  sentAtMs : Nat
  messageId : String
  messageCount : Nat
  acknowledged : Bool
  recentOccurrences : List String
  deriving DecidableEq, Repr

/-- A call, as its runtime knows it. -/
structure BackgroundCallState where
  sessionId : String
  callId : String
  phase : BackgroundCallPhase
  expiresAtMs : Nat
  sender : String
  binding : String
  deriving DecidableEq, Repr

/-- What the ledger holds of a call. -/
structure CallRecord where
  id : String
  owner : String
  revision : Nat
  acknowledged : Bool
  state : BackgroundCallState
  answer : Option String
  decline : Option String
  hangup : Option String
  deriving DecidableEq, Repr

def recentOccurrencesMax : Nat := 64

/-- The name of the tables of a kind. -/
def outboundScope : Kind → String
  | .dm => "private_dm"
  | .group => "private_group"
  | .channel => "channel"

/-- The key of the summary of a conversation. -/
def summaryKey (kind : Kind) (conversationId : String) : String :=
  "message/" ++ outboundScope kind ++ "/" ++ conversationId

namespace BackgroundMessageAdmission

variable (fact : BackgroundMessageAdmission)

/-- The key of the row of the message. -/
def rowKey : String := historyKey fact.conversationId fact.sentAtMs fact.messageId

/-- The key of its summary. -/
def key : String := summaryKey fact.kind fact.conversationId

end BackgroundMessageAdmission

/-- What the messages of all kinds say about their sender. -/
class FromDevice (M : Type) where
  fromDevice : M → String

instance : FromDevice ChatMessage := ⟨ChatMessage.fromDevice⟩

instance : FromDevice GroupMessage := ⟨GroupMessage.fromDevice⟩

instance : FromDevice ChannelMessage := ⟨ChannelMessage.fromDevice⟩

/-- The message came in, and is one to tell the user about. -/
def message {M : Type} [ConversationMessage M] (kind : Kind) (conversationId : String)
    (sentAtMs : Nat) (messageId : String) (message : M) : Option BackgroundMessageAdmission :=
  (metadata message).bind fun data =>
    if data.isOwn ≠ some false ∨ isService message = true ∨ data.deletion.isSome then none
    else
      let occurrenceId := (data.origin.map fun origin => origin.author ++ "/" ++ origin.id).getD
        messageId
      some { kind, conversationId, occurrenceId, messageId, sentAtMs }

namespace Summary

/-- The id of a summary. -/
def idOf (random : List UInt8) : String := "background-" ++ DeviceLink.hexText random

/-- The summary of a conversation without messages. -/
def new (random : List UInt8) (fact : BackgroundMessageAdmission) : Summary where
  id := idOf random
  revision := 0
  target := ⟨fact.kind, fact.conversationId⟩
  occurrenceId := fact.occurrenceId
  sentAtMs := fact.sentAtMs
  messageId := fact.messageId
  messageCount := 0
  acknowledged := true
  recentOccurrences := []

/-- A message is added to a summary. -/
def admitMessage (summary : Summary) (fact : BackgroundMessageAdmission) : Except String Summary :=
  if summary.revision + 1 < 2 ^ 64 then
    let recent := summary.recentOccurrences ++ [fact.occurrenceId]
    .ok { summary with
      revision := summary.revision + 1
      messageCount := if summary.acknowledged then 1 else min (summary.messageCount + 1) (2 ^ 32 - 1)
      occurrenceId := fact.occurrenceId
      sentAtMs := fact.sentAtMs
      messageId := fact.messageId
      acknowledged := false
      recentOccurrences := if recentOccurrencesMax < recent.length then recent.tail else recent }
  else .error "background revision exhausted"

end Summary

/-- What the app is told about a call. -/
def CallRecord.notification (record : CallRecord) : BackgroundNotification where
  id := record.id
  revision := record.revision
  target := ⟨.dm, record.state.sessionId⟩
  occurrenceId := record.state.callId
  sentAtMs := 0
  messageCount := 0
  sender := some record.state.sender
  text := none
  call := some {
    phase := record.state.phase
    callId := record.state.callId
    expiresAtMs := record.state.expiresAtMs
    answerCapability := record.answer
    declineCapability := record.decline
    hangupCapability := record.hangup }

/-! ## The ledger -/

/-- The history, and the ledger beside it: its control row, its summaries and its calls. -/
structure Delivery (M E : Type) where
  history : HistoryStore M E
  control : Option Control
  summaries : Std.ExtTreeMap String Summary compare
  calls : Std.ExtTreeMap String CallRecord compare

/-- The start of a text. -/
def bounded (value : String) (length : Nat) : String := String.ofList (value.toList.take length)

/-- Reads rows until as many notifications as asked for are found. -/
def collect {α : Type} (limit : Nat) (f : α → Option BackgroundNotification) :
    List α → List BackgroundNotification → List BackgroundNotification
  | [], pending => pending
  | row :: rows, pending =>
    let pending := pending ++ (f row).toList
    if pending.length = limit then pending else collect limit f rows pending

namespace Delivery

variable {M E : Type} [ConversationMessage M] (c : TargetCrypto) (s : Delivery M E)

def saveBackgroundIntent (interactive waitingEnabled : Bool) : Delivery M E :=
  { s with control := some { waitingEnabled, interactive } }

/-- A row that is there, or an occurrence that was seen lately, cannot make a new alert. -/
def queueBackgroundMessage (random : List UInt8) (fact : BackgroundMessageAdmission) :
    Except String (Delivery M E × Bool) :=
  if s.control.all (·.interactive) then .ok (s, false)
  else if (s.history.messages fact.kind)[fact.rowKey]?.isSome then .ok (s, false)
  else
    let summary := s.summaries[fact.key]?.getD (.new random fact)
    if fact.occurrenceId ∈ summary.recentOccurrences then .ok (s, false)
    else do
      let summary ← summary.admitMessage fact
      return ({ s with summaries := s.summaries.insert fact.key summary }, true)

/-- Queues the messages of a transaction; also returned are those that were counted. -/
def queueHistoryBackground (random : List UInt8) :
    Delivery M E → List BackgroundMessageAdmission →
      Except String (Delivery M E × List BackgroundMessageAdmission)
  | s, [] => .ok (s, [])
  | s, fact :: facts => do
    let (s, changed) ← s.queueBackgroundMessage random fact
    let (s, counted) ← queueHistoryBackground random s facts
    return (s, if changed then fact :: counted else counted)

/-- The messages of rows that are to be queued. -/
def facts (kind : Kind) (conversationId : String) (rows : List (HistoryRow M E)) :
    List BackgroundMessageAdmission :=
  rows.filterMap fun row =>
    message kind conversationId row.sentAtMs row.messageId row.message

/-- Queues messages, and then writes their rows, in one transaction. -/
def commitHistoryAdmission (kind : Kind) (conversationId : String) (rows : List (HistoryRow M E))
    (settled : List String) (random : List UInt8) :
    Except String (Delivery M E × List BackgroundMessageAdmission) := do
  let (s, counted) ← s.queueHistoryBackground random (facts kind conversationId rows)
  return ({ s with
    history := s.history.commitHistoryAdmission c kind conversationId rows settled }, counted)

/-- Queues a message, and writes its row, in one transaction. -/
def appendHistoryMessageWithBackground (kind : Kind) (row : HistoryRow M E)
    (random : List UInt8) : Except String (Delivery M E × Bool) := do
  let (s, changed) ← match message kind row.conversationId row.sentAtMs row.messageId row.message with
    | some fact => s.queueBackgroundMessage random fact
    | none => .ok (s, false)
  return ({ s with history := s.history.writeHistoryRow c kind row }, changed)

/-- The summary that an acknowledgement is about. -/
def acknowledges (id : String) (revision : Nat) : Option (String × Summary) :=
  s.summaries.toList.find? fun row => row.2.id = id && row.2.revision = revision

/-- Writes calls. Those that are over and acknowledged are not kept. -/
def writeCallRecords (records : Std.ExtTreeMap String CallRecord compare) : Delivery M E :=
  { s with calls := records.filter fun _ record =>
      !(record.acknowledged && record.state.phase = .ended) }

def ackCallNotification (id : String) (revision : Nat) : Delivery M E :=
  s.writeCallRecords (s.calls.map fun _ record =>
    if record.id = id ∧ record.revision = revision then { record with acknowledged := true }
    else record)

/-- Exactly the revision that was shown is acknowledged. -/
def ackBackgroundNotification (id : String) (revision : Nat) : Except String (Delivery M E) :=
  if id = "" ∨ 128 < id.utf8ByteSize then .error "invalid background notification id"
  else if "background-call-".toList.isPrefixOf id.toList then .ok (s.ackCallNotification id revision)
  else
    match s.acknowledges id revision with
    | none => .ok s
    | some (key, summary) =>
      .ok { s with summaries := s.summaries.insert key { summary with acknowledged := true } }

variable [FromDevice M]

/-- The notification of a conversation, unless the row of its newest message is erased. -/
def backgroundNotification (summary : Summary) : Option BackgroundNotification :=
  (s.history.messages summary.target.kind)[historyKey summary.target.id summary.sentAtMs
      summary.messageId]?.bind fun row =>
    if isErased row.message then none
    else some {
      id := summary.id
      revision := summary.revision
      target := summary.target
      occurrenceId := summary.occurrenceId
      sentAtMs := summary.sentAtMs
      messageCount := summary.messageCount
      sender := some (bounded (FromDevice.fromDevice row.message) 256)
      text := some (bounded (body row.message) 8192)
      call := none }

/-- What the app is told about a row of the ledger. -/
def ofCall (row : String × CallRecord) : Option BackgroundNotification :=
  if row.2.acknowledged then none else some row.2.notification

def ofSummary (row : String × Summary) : Option BackgroundNotification :=
  if row.2.acknowledged then none else s.backgroundNotification row.2

/-- What the app is told about, at most 16 of it. -/
def pendingBackgroundNotifications (limit : Nat) : List BackgroundNotification :=
  let limit := min limit 16
  if limit = 0 then []
  else
    let pending := collect limit ofCall s.calls.toList []
    if pending.length = limit then pending else collect limit s.ofSummary s.summaries.toList pending

/-- All that is pending. -/
def pendingEntries : List BackgroundNotification :=
  s.calls.toList.filterMap ofCall ++ s.summaries.toList.filterMap s.ofSummary

end Delivery

/-! ## What moves the ledger -/

/-- An event at the store. -/
inductive DeliveryEvent (M E : Type)
  | saveBackgroundIntent (interactive waitingEnabled : Bool)
  | append (kind : Kind) (row : HistoryRow M E) (random : List UInt8)
  | historyAdmission (kind : Kind) (conversationId : String) (rows : List (HistoryRow M E))
      (settled : List String) (random : List UInt8)
  /-- The history is written, above all to erase messages. -/
  | write (w : HistoryWrite M E)
  | acknowledge (id : String) (revision : Nat)
  /-- The calls of the runtimes are noted. -/
  | calls (records : Std.ExtTreeMap String CallRecord compare)

namespace Delivery

variable {M E : Type} [ConversationMessage M] (c : TargetCrypto) (s : Delivery M E)

/-- The store after an event. A transaction that fails leaves it as it is. -/
def step : DeliveryEvent M E → Delivery M E
  | .saveBackgroundIntent interactive waitingEnabled =>
    s.saveBackgroundIntent interactive waitingEnabled
  | .append kind row random =>
    (s.appendHistoryMessageWithBackground c kind row random).toOption.elim s (·.1)
  | .historyAdmission kind conversationId rows settled random =>
    (s.commitHistoryAdmission c kind conversationId rows settled random).toOption.elim s (·.1)
  | .write w => { s with history := s.history.step c w }
  | .acknowledge id revision => (s.ackBackgroundNotification id revision).toOption.getD s
  | .calls records => s.writeCallRecords records

/-- The messages that an event counts. -/
def counts : DeliveryEvent M E → List BackgroundMessageAdmission
  | .append kind row random =>
    (s.commitHistoryAdmission c kind row.conversationId [row] [] random).toOption.elim [] (·.2)
  | .historyAdmission kind conversationId rows settled random =>
    (s.commitHistoryAdmission c kind conversationId rows settled random).toOption.elim [] (·.2)
  | _ => []

/-- The key of the summary that an event acknowledges. -/
def acknowledged : DeliveryEvent M E → Option String
  | .acknowledge id revision =>
    if id = "" ∨ 128 < id.utf8ByteSize ∨ "background-call-".toList.isPrefixOf id.toList then none
    else (s.acknowledges id revision).map (·.1)
  | _ => none

/-- Appending a row is an admission of that row alone. -/
theorem step_append (kind : Kind) (row : HistoryRow M E) (random : List UInt8) :
    s.step c (.append kind row random) =
      s.step c (.historyAdmission kind row.conversationId [row] [] random) := by
  rw [step, step, appendHistoryMessageWithBackground, commitHistoryAdmission, facts,
    List.filterMap_cons]
  cases hmessage : message kind row.conversationId row.sentAtMs row.messageId row.message with
  | none => rfl
  | some fact =>
    simp only [List.filterMap_nil, queueHistoryBackground]
    cases s.queueBackgroundMessage random fact with
    | error => rfl
    | ok result => rfl

end Delivery

/-- A store, with all messages that were counted, and those of them, by the key of the summary,
    that were counted since the user was last told. -/
structure Tracked (M E : Type) where
  store : Delivery M E
  counted : List BackgroundMessageAdmission := []
  since : String → List BackgroundMessageAdmission := fun _ => []

namespace Tracked

variable {M E : Type} [ConversationMessage M]

/-- The messages of a conversation that were counted. -/
def countedAt (t : Tracked M E) (key : String) : List BackgroundMessageAdmission :=
  t.counted.filter (·.key = key)

/-- An event. -/
def perform (c : TargetCrypto) (t : Tracked M E) (e : DeliveryEvent M E) : Tracked M E where
  store := t.store.step c e
  counted := t.counted ++ t.store.counts c e
  since key :=
    (if t.store.acknowledged e = some key then [] else t.since key) ++
      (t.store.counts c e).filter (·.key = key)

end Tracked

/-- The rows of an event are those of its conversation and different from each other, which is
    checked for every import, and the random bytes are new. -/
def DeliveryEvent.Admitted {M E : Type} [ConversationMessage M] (t : Tracked M E) :
    DeliveryEvent M E → Prop
  | .append _ _ random => random.length = 16 ∧
    ∀ (key : String) summary, t.store.summaries[key]? = some summary → summary.id ≠ Summary.idOf random
  | .historyAdmission _ conversationId rows _ random =>
    (∀ row ∈ rows, row.conversationId = conversationId) ∧ (rows.map HistoryRow.key).Nodup ∧
      random.length = 16 ∧
      ∀ (key : String) summary, t.store.summaries[key]? = some summary →
        summary.id ≠ Summary.idOf random
  | _ => True

/-! ## What a summary says -/

theorem summaryKey_inj {kind kind' : Kind} {id id' : String}
    (h : summaryKey kind id = summaryKey kind' id') : kind = kind' ∧ id = id' := by
  have hlist := congrArg String.toList h
  simp only [summaryKey, String.toList_append, List.append_assoc] at hlist
  have hscope := List.append_cancel_left hlist
  rcases kind with - | - | - <;> rcases kind' with - | - | - <;>
    simp [outboundScope] at hscope
  · exact ⟨rfl, String.toList_injective hscope⟩
  · exact ⟨rfl, String.toList_injective hscope⟩
  · exact ⟨rfl, String.toList_injective hscope⟩


/-- The summary is that of the messages that were counted under the key, and of those since the
    user was last told. -/
structure Summary.Shows (key : String) (summary : Summary)
    (counted since : List BackgroundMessageAdmission) : Prop where
  revision : summary.revision = counted.length
  target : summaryKey summary.target.kind summary.target.id = key
  newest : ∀ fact, counted.getLast? = some fact → summary.occurrenceId = fact.occurrenceId ∧
    summary.sentAtMs = fact.sentAtMs ∧ summary.messageId = fact.messageId
  recent : ∀ occurrence ∈ summary.recentOccurrences, ∃ fact ∈ counted,
    fact.occurrenceId = occurrence
  suffix : since <:+ counted
  acknowledged : summary.acknowledged = since.isEmpty
  messageCount : since ≠ [] → summary.messageCount = min since.length (2 ^ 32 - 1)
  named : ∃ random : List UInt8, random.length = 16 ∧ summary.id = Summary.idOf random

namespace Summary.Shows

variable {key : String} {summary summary' : Summary} {fact : BackgroundMessageAdmission}
  {counted since : List BackgroundMessageAdmission}

/-- A new summary is one of no messages. -/
theorem new (fact : BackgroundMessageAdmission) {random : List UInt8} (h : random.length = 16) :
    Shows fact.key (.new random fact) [] [] where
  revision := rfl
  target := rfl
  newest := nofun
  recent := nofun
  suffix := List.suffix_refl _
  acknowledged := rfl
  messageCount := nofun
  named := ⟨random, h, rfl⟩

/-- A message more. -/
theorem admitMessage (h : Shows key summary counted since)
    (hadded : summary.admitMessage fact = .ok summary') :
    Shows key summary' (counted ++ [fact]) (since ++ [fact]) ∧ summary'.id = summary.id := by
  rw [Summary.admitMessage] at hadded
  split at hadded
  · obtain rfl := Except.ok.inj hadded
    refine ⟨⟨?_, h.target, fun fact' hlast => ?_, fun occurrence hmem => ?_, ?_, ?_, fun _ => ?_,
      h.named⟩, rfl⟩
    · change summary.revision + 1 = (counted ++ [fact]).length
      rw [List.length_append, List.length_singleton, h.revision]
    · rw [List.getLast?_concat] at hlast
      obtain rfl := Option.some.inj hlast
      exact ⟨rfl, rfl, rfl⟩
    · have hrecent : occurrence ∈ summary.recentOccurrences ++ [fact.occurrenceId] := by
        dsimp only at hmem
        split at hmem
        · exact List.mem_of_mem_tail hmem
        · exact hmem
      rcases List.mem_append.1 hrecent with hold | hnew
      · obtain ⟨fact', hfact', heq⟩ := h.recent occurrence hold
        exact ⟨fact', List.mem_append_left _ hfact', heq⟩
      · exact ⟨fact, List.mem_append_right _ (List.mem_singleton_self _),
          (List.mem_singleton.1 hnew).symm⟩
    · obtain ⟨before, hbefore⟩ := h.suffix
      exact ⟨before, by rw [← hbefore, List.append_assoc]⟩
    · rw [List.isEmpty_eq_false_iff.2 (by simp)]
    · dsimp only
      rw [List.length_append, List.length_singleton, h.acknowledged]
      cases hsince : since with
      | nil => rfl
      | cons first rest =>
        -- the bound was kept before
        have hcount := h.messageCount (by rw [hsince]; nofun)
        rw [List.isEmpty_cons, if_neg nofun, hcount, hsince, List.length_cons]
        omega
  · cases hadded

/-- The user is told. -/
theorem acknowledge (h : Shows key summary counted since) :
    Shows key { summary with acknowledged := true } counted [] where
  revision := h.revision
  target := h.target
  newest := h.newest
  recent := h.recent
  suffix := List.nil_suffix
  acknowledged := rfl
  messageCount := fun hne => absurd rfl hne
  named := h.named

end Summary.Shows

/-! ## What the ledger says -/

namespace Delivery

variable {M E : Type} [ConversationMessage M] {c : TargetCrypto} {s s' : Delivery M E}
  {random : List UInt8} {fact : BackgroundMessageAdmission} {changed : Bool}
  {counted : List BackgroundMessageAdmission} {since : String → List BackgroundMessageAdmission}

/-- The summaries are those of the messages that were counted. -/
structure Ledger (s : Delivery M E) (counted : List BackgroundMessageAdmission)
    (since : String → List BackgroundMessageAdmission) : Prop where
  shows : ∀ (key : String) summary, s.summaries[key]? = some summary →
    summary.Shows key (counted.filter (·.key = key)) (since key)
  absent : ∀ key : String, s.summaries[key]? = none →
    counted.filter (·.key = key) = [] ∧ since key = []
  ids : ∀ (key key' : String) summary summary', s.summaries[key]? = some summary →
    s.summaries[key']? = some summary' → summary.id = summary'.id → key = key'

omit [ConversationMessage M] in
/-- What queueing a message does. -/
theorem queueBackgroundMessage_cases
    (h : s.queueBackgroundMessage random fact = .ok (s', changed)) :
    (s' = s ∧ changed = false) ∨
    (changed = true ∧ (s.history.messages fact.kind)[fact.rowKey]? = none ∧
      ∃ summary, (s.summaries[fact.key]?.getD (.new random fact)).admitMessage fact = .ok summary ∧
        s' = { s with summaries := s.summaries.insert fact.key summary }) := by
  rw [queueBackgroundMessage] at h
  split at h
  · obtain ⟨rfl, rfl⟩ := Prod.mk.inj (Except.ok.inj h)
    exact .inl ⟨rfl, rfl⟩
  · split at h
    · obtain ⟨rfl, rfl⟩ := Prod.mk.inj (Except.ok.inj h)
      exact .inl ⟨rfl, rfl⟩
    · next hrow =>
      dsimp only at h
      split at h
      · obtain ⟨rfl, rfl⟩ := Prod.mk.inj (Except.ok.inj h)
        exact .inl ⟨rfl, rfl⟩
      · rcases hadded : (s.summaries[fact.key]?.getD (.new random fact)).admitMessage fact
          with error | summary
        · rw [hadded] at h
          cases h
        · rw [hadded] at h
          obtain ⟨rfl, rfl⟩ := Prod.mk.inj (Except.ok.inj h)
          exact .inr ⟨rfl, Option.not_isSome_iff_eq_none.1 hrow, summary, rfl, rfl⟩

/-- No summary goes, or gets another id. -/
def Keeps (s s' : Delivery M E) : Prop :=
  ∀ (key : String) summary, s.summaries[key]? = some summary →
    ∃ summary', s'.summaries[key]? = some summary' ∧ summary'.id = summary.id

omit [ConversationMessage M] in
theorem Keeps.refl (s : Delivery M E) : s.Keeps s := fun _ summary h => ⟨summary, h, rfl⟩

omit [ConversationMessage M] in
theorem Keeps.trans {s'' : Delivery M E} (h : s.Keeps s') (h' : s'.Keeps s'') : s.Keeps s'' := by
  intro key summary hsummary
  obtain ⟨summary', hsummary', hid⟩ := h key summary hsummary
  obtain ⟨summary'', hsummary'', hid'⟩ := h' key summary' hsummary'
  exact ⟨summary'', hsummary'', hid'.trans hid⟩

omit [ConversationMessage M] in
/-- A summary is put where there was none, or one with its id. -/
theorem Keeps.insert {key : String} {summary : Summary}
    (h : ∀ old, s.summaries[key]? = some old → summary.id = old.id) :
    s.Keeps { s with summaries := s.summaries.insert key summary } := by
  intro key' old hold
  by_cases hkey : key = key'
  · subst hkey
    exact ⟨summary, (Table.getElem?_insert ..).trans (if_pos rfl), h old hold⟩
  · exact ⟨old, ((Table.getElem?_insert ..).trans (if_neg hkey)).trans hold, rfl⟩

/-- The random bytes are those of no summary but that of the message. -/
def FreshFor (s : Delivery M E) (random : List UInt8) (key : String) : Prop :=
  random.length = 16 ∧ ∀ (key' : String) summary, s.summaries[key']? = some summary →
    summary.id = Summary.idOf random → key' = key

omit [ConversationMessage M] in
/-- A message is queued: it is counted, or the ledger stays as it is. -/
theorem Ledger.queue (h : s.Ledger counted since) (hfresh : s.FreshFor random fact.key)
    (hqueue : s.queueBackgroundMessage random fact = .ok (s', changed)) :
    s'.Ledger (counted ++ if changed then [fact] else [])
      (fun key => since key ++ (if changed then [fact] else []).filter (·.key = key)) ∧
      s'.FreshFor random fact.key ∧ s'.history = s.history ∧ s.Keeps s' := by
  rcases queueBackgroundMessage_cases hqueue with ⟨rfl, rfl⟩ | ⟨rfl, -, summary, hadded, rfl⟩
  · refine ⟨?_, hfresh, rfl, .refl _⟩
    simpa using h
  · -- the summary to which the message is added
    obtain ⟨hshows, hid⟩ : (s.summaries[fact.key]?.getD (.new random fact)).Shows fact.key
        (counted.filter (·.key = fact.key)) (since fact.key) ∧
        ∀ (key : String) other, s.summaries[key]? = some other →
          other.id = (s.summaries[fact.key]?.getD (.new random fact)).id → key = fact.key := by
      rcases hold : s.summaries[fact.key]? with - | old
      · obtain ⟨hcounted, hsince⟩ := h.absent _ hold
        rw [hcounted, hsince]
        exact ⟨.new fact hfresh.1, hfresh.2⟩
      · exact ⟨h.shows _ old hold, fun key other hother hid => h.ids _ _ other old hother hold hid⟩
    obtain ⟨hnew, hidNew⟩ := hshows.admitMessage hadded
    have hget (key : String) : (s.summaries.insert fact.key summary)[key]? =
        if fact.key = key then some summary else s.summaries[key]? := Table.getElem?_insert ..
    refine ⟨⟨fun key other hother => ?_, fun key hnone => ?_, fun key key' other other' hother hother' heq => ?_⟩,
      ⟨hfresh.1, fun key other hother heq => ?_⟩, rfl, .insert fun old hold => ?_⟩
    · rw [hget] at hother
      split at hother
      · next heq =>
        obtain rfl := Option.some.inj hother
        subst heq
        simpa using hnew
      · next hne =>
        simpa [hne] using h.shows key other hother
    · rw [hget] at hnone
      split at hnone
      · cases hnone
      · next hne => simpa [hne] using h.absent key hnone
    · rw [hget] at hother hother'
      split at hother <;> split at hother'
      · next heq heq' => rw [← heq, ← heq']
      · next hkey _ =>
        obtain rfl := Option.some.inj hother
        rw [← hkey, hid key' other' hother' (by rw [← heq, hidNew])]
      · next _ hkey =>
        obtain rfl := Option.some.inj hother'
        rw [← hkey, hid key other hother (by rw [heq, hidNew])]
      · exact h.ids key key' other other' hother hother' heq
    · rw [hget] at hother
      split at hother
      · next hkey => exact hkey.symm
      · exact hfresh.2 key other hother heq
    · rw [hidNew, hold, Option.getD_some]

omit [ConversationMessage M] in
/-- The messages of a transaction are queued: those that are counted had no row. -/
theorem Ledger.queueHistory {facts queued : List BackgroundMessageAdmission} {key : String}
    (h : s.Ledger counted since) (hfresh : s.FreshFor random key)
    (hkeys : ∀ fact ∈ facts, fact.key = key)
    (hqueue : s.queueHistoryBackground random facts = .ok (s', queued)) :
    s'.Ledger (counted ++ queued) (fun key => since key ++ queued.filter (·.key = key)) ∧
      s'.history = s.history ∧ s.Keeps s' ∧ queued.Sublist facts ∧
      ∀ fact ∈ queued, (s.history.messages fact.kind)[fact.rowKey]? = none := by
  induction facts generalizing s counted since queued with
  | nil =>
    obtain ⟨rfl, rfl⟩ := Prod.mk.inj (Except.ok.inj hqueue)
    refine ⟨?_, rfl, .refl _, List.Sublist.refl _, nofun⟩
    simpa using h
  | cons fact facts ih =>
    rw [queueHistoryBackground] at hqueue
    rcases hone : s.queueBackgroundMessage random fact with error | ⟨s₁, changed⟩
    · rw [hone] at hqueue
      cases hqueue
    rcases hrest : s₁.queueHistoryBackground random facts with error | ⟨s₂, rest⟩
    · simp only [hone, bind, Except.bind, hrest] at hqueue
      cases hqueue
    simp only [hone, bind, Except.bind, hrest] at hqueue
    obtain ⟨rfl, rfl⟩ := Prod.mk.inj (Except.ok.inj hqueue)
    have hkey : fact.key = key := hkeys fact List.mem_cons_self
    subst hkey
    obtain ⟨hledger, hfresh', hhistory, hkeeps⟩ := h.queue hfresh hone
    obtain ⟨hledger', hhistory', hkeeps', hsublist, hnone⟩ :=
      ih hledger hfresh' (fun other hother => hkeys other (List.mem_cons_of_mem _ hother)) hrest
    have hqueued : (if changed = true then fact :: rest else rest) =
        (if changed = true then [fact] else []) ++ rest := by
      split <;> rfl
    refine ⟨?_, hhistory'.trans hhistory, hkeeps.trans hkeeps', ?_, ?_⟩
    · rw [hqueued]
      simpa only [List.filter_append, List.append_assoc] using hledger'
    · split
      · exact hsublist.cons_cons fact
      · exact hsublist.cons fact
    · rw [hhistory] at hnone
      rw [hqueued]
      intro other hother
      rcases List.mem_append.1 hother with hnew | hlater
      · rcases queueBackgroundMessage_cases hone with ⟨-, rfl⟩ | ⟨rfl, hrow, -⟩
        · cases hnew
        · obtain rfl := List.mem_singleton.1 hnew
          exact hrow
      · exact hnone other hlater

omit [ConversationMessage M] in
/-- The user is told what a summary says. -/
theorem Ledger.acknowledge {key : String} {summary : Summary} (h : s.Ledger counted since)
    (hsummary : s.summaries[key]? = some summary) :
    { s with summaries := s.summaries.insert key { summary with acknowledged := true } }.Ledger
      counted fun key' => if some key = some key' then [] else since key' := by
  have hget (key' : String) : (s.summaries.insert key { summary with acknowledged := true })[key']? =
      if key = key' then some { summary with acknowledged := true } else s.summaries[key']? :=
    Table.getElem?_insert ..
  -- the ids are those that were there before
  have hid (key' : String) other (hother : (s.summaries.insert key
      { summary with acknowledged := true })[key']? = some other) :
      ∃ old, s.summaries[key']? = some old ∧ other.id = old.id := by
    rw [hget] at hother
    split at hother
    · next heq =>
      obtain rfl := Option.some.inj hother
      exact ⟨summary, heq ▸ hsummary, rfl⟩
    · exact ⟨other, hother, rfl⟩
  refine ⟨fun key' other hother => ?_, fun key' hnone => ?_, fun key₁ key₂ other₁ other₂ h₁ h₂ heq => ?_⟩
  · rw [hget] at hother
    split at hother
    · next heq =>
      obtain rfl := Option.some.inj hother
      subst heq
      rw [if_pos rfl]
      exact (h.shows key summary hsummary).acknowledge
    · next hne =>
      rw [if_neg fun heq => hne (Option.some.inj heq)]
      exact h.shows key' other hother
  · rw [hget] at hnone
    split at hnone
    · cases hnone
    · next hne =>
      rw [if_neg fun heq => hne (Option.some.inj heq)]
      exact h.absent key' hnone
  · obtain ⟨old₁, hold₁, hid₁⟩ := hid key₁ other₁ h₁
    obtain ⟨old₂, hold₂, hid₂⟩ := hid key₂ other₂ h₂
    exact h.ids key₁ key₂ old₁ old₂ hold₁ hold₂ (by rw [← hid₁, ← hid₂, heq])

/-- What is queued of a message. -/
theorem message_eq_some {kind : Kind} {conversationId messageId : String} {sentAtMs : Nat} {m : M}
    (h : message kind conversationId sentAtMs messageId m = some fact) :
    fact.kind = kind ∧ fact.conversationId = conversationId ∧ fact.sentAtMs = sentAtMs ∧
      fact.messageId = messageId := by
  obtain ⟨data, -, hfact⟩ := Option.bind_eq_some_iff.1 h
  split at hfact
  · cases hfact
  · obtain rfl := Option.some.inj hfact
    exact ⟨rfl, rfl, rfl, rfl⟩

/-- The messages of rows: those of one conversation, under the keys of the rows. -/
theorem mem_facts (kind : Kind) {conversationId : String} {rows : List (HistoryRow M E)}
    (hrows : ∀ row ∈ rows, row.conversationId = conversationId) :
    (∀ fact ∈ facts kind conversationId rows, fact.kind = kind ∧
      fact.key = summaryKey kind conversationId) ∧
      ((facts kind conversationId rows).map (·.rowKey)).Sublist (rows.map HistoryRow.key) := by
  induction rows with
  | nil => exact ⟨nofun, List.Sublist.refl _⟩
  | cons row rows ih =>
    obtain ⟨hfacts, hkeys⟩ := ih fun other hother => hrows other (List.mem_cons_of_mem _ hother)
    rw [facts, List.filterMap_cons]
    rcases hmessage : message kind conversationId row.sentAtMs row.messageId row.message
      with - | fact
    · exact ⟨hfacts, hkeys.cons _⟩
    · obtain ⟨hkind, hid, hsent, hmessageId⟩ := message_eq_some hmessage
      refine ⟨List.forall_mem_cons.2 ⟨⟨hkind, ?_⟩, hfacts⟩, ?_⟩
      · rw [BackgroundMessageAdmission.key, hkind, hid]
      · have hkey : fact.rowKey = row.key := by
          rw [BackgroundMessageAdmission.rowKey, HistoryRow.key, hid, hsent, hmessageId,
            hrows row List.mem_cons_self]
        rw [List.map_cons, List.map_cons, hkey]
        exact hkeys.cons_cons _

omit [ConversationMessage M] in
/-- A message that is new is counted. -/
theorem queueBackgroundMessage_eq_ok (random : List UInt8) {control : Control} (hcontrol : s.control = some control)
    (hinteractive : control.interactive = false)
    (hrow : (s.history.messages fact.kind)[fact.rowKey]? = none)
    (hrecent : ∀ summary, s.summaries[fact.key]? = some summary →
      fact.occurrenceId ∉ summary.recentOccurrences)
    (hrevision : ∀ summary, s.summaries[fact.key]? = some summary → summary.revision + 1 < 2 ^ 64) :
    ∃ s', s.queueBackgroundMessage random fact = .ok (s', true) := by
  obtain ⟨hfresh, hlt⟩ : fact.occurrenceId ∉
      (s.summaries[fact.key]?.getD (.new random fact)).recentOccurrences ∧
      (s.summaries[fact.key]?.getD (.new random fact)).revision + 1 < 2 ^ 64 := by
    rcases hsummary : s.summaries[fact.key]? with - | summary
    · exact ⟨List.not_mem_nil, Nat.lt_of_sub_pos (Nat.succ_pos _)⟩
    · exact ⟨hrecent summary hsummary, hrevision summary hsummary⟩
  have hnot : ¬ (s.control.all (·.interactive)) = true := by
    rw [hcontrol, Option.all_some, hinteractive]
    nofun
  rw [queueBackgroundMessage, if_neg hnot, if_neg (by rw [hrow]; nofun)]
  dsimp only
  rw [if_neg hfresh, Summary.admitMessage, if_pos hlt]
  exact ⟨_, rfl⟩

/-- What an acknowledgement does. -/
theorem acknowledge_cases (s : Delivery M E) (id : String) (revision : Nat) :
    (∃ calls, s.acknowledged (.acknowledge id revision) = none ∧
      s.step c (.acknowledge id revision) = { s with calls }) ∨
    ∃ key summary, s.summaries[key]? = some summary ∧ summary.id = id ∧
      summary.revision = revision ∧ s.acknowledged (.acknowledge id revision) = some key ∧
      s.step c (.acknowledge id revision) =
        { s with summaries := s.summaries.insert key { summary with acknowledged := true } } := by
  rw [step, ackBackgroundNotification, acknowledged]
  by_cases hinvalid : id = "" ∨ 128 < id.utf8ByteSize
  · rw [if_pos hinvalid, if_pos (or_assoc.1 (.inl hinvalid))]
    exact .inl ⟨s.calls, rfl, rfl⟩
  rw [if_neg hinvalid]
  by_cases hcall : "background-call-".toList.isPrefixOf id.toList = true
  · rw [if_pos hcall, if_pos (.inr (.inr hcall))]
    exact .inl ⟨_, rfl, rfl⟩
  rw [if_neg hcall, if_neg fun h => (or_assoc.2 h).elim hinvalid hcall]
  rcases hfind : s.acknowledges id revision with - | ⟨key, summary⟩
  · exact .inl ⟨s.calls, rfl, rfl⟩
  · have hmem := List.mem_of_find?_eq_some hfind
    obtain ⟨hid, hrevision⟩ : summary.id = id ∧ summary.revision = revision := by
      simpa using List.find?_some hfind
    exact .inr ⟨key, summary, Std.ExtTreeMap.mem_toList_iff_getElem?_eq_some.1 hmem, hid, hrevision,
      rfl, rfl⟩

/-- The ids of summaries are not those of calls. -/
theorem not_isPrefixOf_idOf (h : random.length = 16) :
    "background-call-".toList.isPrefixOf (Summary.idOf random).toList = false := by
  have hdigit : ∀ n < 16, DeviceLink.hexDigit n ≠ 'l' := by decide
  match random, h with
  | b₀ :: b₁ :: rest, _ =>
    have hne : DeviceLink.hexDigit (b₁.toNat / 16) ≠ 'l' :=
      hdigit _ (by have := b₁.toNat_lt; omega)
    simp only [Summary.idOf, DeviceLink.hexText, String.toList_append, String.toList_ofList,
      List.flatMap_cons]
    simp [List.isPrefixOf, Ne.symm hne]

end Delivery

namespace Tracked

variable {M E : Type} [ConversationMessage M] {c : TargetCrypto} {t t' : Tracked M E}
  {e : DeliveryEvent M E} {events : List (DeliveryEvent M E)}

/-- What holds along every run: the ledger shows what was counted, and every row that was counted
    is stored and was counted once. -/
structure Sound (t : Tracked M E) : Prop where
  ledger : t.store.Ledger t.counted t.since
  stored : ∀ fact ∈ t.counted, t.store.history.Stored fact.kind fact.rowKey
  nodup : (t.counted.map fun fact => (fact.kind, fact.rowKey)).Nodup

/-- What no event undoes. -/
structure Advances (t t' : Tracked M E) : Prop where
  counted : t.counted <+: t'.counted
  keeps : t.store.Keeps t'.store

omit [ConversationMessage M] in
theorem Advances.refl (t : Tracked M E) : t.Advances t := ⟨List.prefix_refl _, .refl _⟩

omit [ConversationMessage M] in
theorem Advances.trans {t'' : Tracked M E} (h : t.Advances t') (h' : t'.Advances t'') :
    t.Advances t'' := ⟨h.counted.trans h'.counted, h.keeps.trans h'.keeps⟩

/-- An event that counts nothing. -/
theorem Sound.quiet (h : t.Sound) (hcounts : t.store.counts c e = [])
    (hledger : (t.store.step c e).Ledger t.counted fun key =>
      if t.store.acknowledged e = some key then [] else t.since key)
    (hstored : ∀ kind key, t.store.history.Stored kind key →
      (t.store.step c e).history.Stored kind key)
    (hkeeps : t.store.Keeps (t.store.step c e)) :
    (t.perform c e).Sound ∧ t.Advances (t.perform c e) ∧
      ∀ fact ∈ t.store.counts c e, ¬ t.store.history.Stored fact.kind fact.rowKey := by
  have hcounted : (t.perform c e).counted = t.counted := by
    rw [perform, hcounts, List.append_nil]
  have hsince : (t.perform c e).since = fun key =>
      if t.store.acknowledged e = some key then [] else t.since key := by
    funext key
    change _ ++ (t.store.counts c e).filter _ = _
    rw [hcounts]
    exact List.append_nil _
  refine ⟨⟨?_, ?_, ?_⟩, ⟨?_, hkeeps⟩, ?_⟩
  · rw [hcounted, hsince]
    exact hledger
  · rw [hcounted]
    exact fun fact hfact => hstored _ _ (h.stored fact hfact)
  · rw [hcounted]
    exact h.nodup
  · rw [hcounted]
  · rw [hcounts]
    nofun

/-- Rows of a conversation come in. -/
theorem Sound.historyAdmission (h : t.Sound) {kind : Kind} {conversationId : String}
    {rows : List (HistoryRow M E)} {settled : List String} {random : List UInt8}
    (hadmitted : (DeliveryEvent.historyAdmission kind conversationId rows settled random).Admitted t) :
    (t.perform c (.historyAdmission kind conversationId rows settled random)).Sound ∧
      t.Advances (t.perform c (.historyAdmission kind conversationId rows settled random)) ∧
      ∀ fact ∈ t.store.counts c (.historyAdmission kind conversationId rows settled random),
        ¬ t.store.history.Stored fact.kind fact.rowKey := by
  obtain ⟨hrows, hkeys, hlength, hfresh⟩ := hadmitted
  obtain ⟨hfacts, hsublist⟩ := Delivery.mem_facts kind hrows
  rcases hqueue : t.store.queueHistoryBackground random (Delivery.facts kind conversationId rows)
    with error | ⟨s, queued⟩
  · -- the transaction fails
    have hcommit : t.store.commitHistoryAdmission c kind conversationId rows settled random =
        .error error := by
      rw [Delivery.commitHistoryAdmission, hqueue]
      rfl
    have hstep : t.store.step c (.historyAdmission kind conversationId rows settled random) =
        t.store := by
      rw [Delivery.step, hcommit]
      rfl
    refine h.quiet ?_ ?_ ?_ ?_
    · rw [Delivery.counts, hcommit]
      rfl
    · rw [hstep]
      exact h.ledger
    · rw [hstep]
      exact fun _ _ h => h
    · rw [hstep]
      exact .refl _
  · have hcommit : t.store.commitHistoryAdmission c kind conversationId rows settled random =
        .ok ({ s with history :=
          s.history.commitHistoryAdmission c kind conversationId rows settled }, queued) := by
      rw [Delivery.commitHistoryAdmission, hqueue]
      rfl
    have hstep : t.store.step c (.historyAdmission kind conversationId rows settled random) =
        { s with history := s.history.commitHistoryAdmission c kind conversationId rows settled } := by
      rw [Delivery.step, hcommit]
      rfl
    have hcounts : t.store.counts c (.historyAdmission kind conversationId rows settled random) =
        queued := by
      rw [Delivery.counts, hcommit]
      rfl
    obtain ⟨hledger, hhistory, hkeeps, hqueued, hnone⟩ := h.ledger.queueHistory
      ⟨hlength, fun key summary hsummary hid => absurd hid (hfresh key summary hsummary)⟩
      (fun fact hfact => (hfacts fact hfact).2) hqueue
    have hcounted : (t.perform c (.historyAdmission kind conversationId rows settled
        random)).counted = t.counted ++ queued := by
      rw [perform, hcounts]
    have hstore : (t.perform c (.historyAdmission kind conversationId rows settled
        random)).store = { s with history :=
          s.history.commitHistoryAdmission c kind conversationId rows settled } := hstep
    refine ⟨⟨?_, ?_, ?_⟩, ⟨?_, ?_⟩, ?_⟩
    · have hsince : (t.perform c (.historyAdmission kind conversationId rows settled
          random)).since = fun key => t.since key ++ queued.filter (·.key = key) := by
        funext key
        change t.since key ++ (t.store.counts c _).filter _ = _
        rw [hcounts]
      rw [hcounted, hstore, hsince]
      exact ⟨hledger.shows, hledger.absent, hledger.ids⟩
    · rw [hcounted, hstore]
      intro fact hfact
      rcases List.mem_append.1 hfact with hold | hnew
      · have hstored := (h.stored fact hold).step (c := c)
          (.commitHistoryAdmission kind conversationId rows settled)
        rw [← hhistory] at hstored
        exact hstored
      · -- the row of a message that is counted now is written now
        have hmem := hqueued.subset hnew
        have hkey : fact.rowKey ∈ rows.map HistoryRow.key :=
          hsublist.subset (List.mem_map_of_mem hmem)
        obtain ⟨row, hrow, heq⟩ := List.mem_map.1 hkey
        rw [← heq, (hfacts fact hmem).1]
        exact HistoryStore.stored_commitHistoryAdmission conversationId settled hrow
    · rw [hcounted, List.map_append]
      refine h.nodup.append ?_ ?_
      · have hnodup := (hsublist.nodup hkeys).sublist (hqueued.map (·.rowKey))
        refine List.Nodup.of_map Prod.snd ?_
        rw [List.map_map]
        exact hnodup
      · -- rows that were counted are stored, and those that are counted now were not
        intro pair hold hnew
        obtain ⟨fact, hfact, heq⟩ := List.mem_map.1 hold
        obtain ⟨fact', hfact', heq'⟩ := List.mem_map.1 hnew
        obtain ⟨hkind, hkey⟩ := Prod.mk.inj (heq.trans heq'.symm)
        have hstored := h.stored fact hfact
        rw [hkind, hkey, HistoryStore.Stored, hnone fact' hfact'] at hstored
        cases hstored
    · rw [hcounted]
      exact List.prefix_append _ _
    · rw [hstore]
      exact hkeeps
    · rw [hcounts]
      intro fact hfact hstored
      rw [HistoryStore.Stored, hnone fact hfact] at hstored
      cases hstored

/-- What an event keeps. -/
theorem Sound.step (h : t.Sound) (hadmitted : e.Admitted t) :
    (t.perform c e).Sound ∧ t.Advances (t.perform c e) ∧
      ∀ fact ∈ t.store.counts c e, ¬ t.store.history.Stored fact.kind fact.rowKey := by
  cases e with
  | append kind row random =>
    have heq : t.perform c (.append kind row random) =
        t.perform c (.historyAdmission kind row.conversationId [row] [] random) := by
      have hstep := t.store.step_append c kind row random
      rw [perform, perform, hstep]
      rfl
    have hone : (DeliveryEvent.historyAdmission kind row.conversationId [row] [] random).Admitted t :=
      ⟨List.forall_mem_singleton.2 rfl, List.nodup_singleton _, hadmitted⟩
    obtain ⟨hsound, hadvances, hnone⟩ := h.historyAdmission (c := c) hone
    rw [heq]
    exact ⟨hsound, hadvances, hnone⟩
  | historyAdmission kind conversationId rows settled random => exact h.historyAdmission hadmitted
  | acknowledge id revision =>
    rcases t.store.acknowledge_cases (c := c) id revision with
      ⟨calls, hnone, hstep⟩ | ⟨key, summary, hsummary, -, -, hkey, hstep⟩
    · refine h.quiet rfl ?_ ?_ ?_
      · rw [hnone, hstep]
        exact ⟨h.ledger.shows, h.ledger.absent, h.ledger.ids⟩
      · rw [hstep]
        exact fun _ _ h => h
      · rw [hstep]
        exact .refl _
    · refine h.quiet rfl ?_ ?_ ?_
      · rw [hkey, hstep]
        exact h.ledger.acknowledge hsummary
      · rw [hstep]
        exact fun _ _ h => h
      · rw [hstep]
        exact .insert fun old hold => by rw [Option.some.inj (hsummary.symm.trans hold)]
  | saveBackgroundIntent interactive waitingEnabled =>
    exact h.quiet rfl ⟨h.ledger.shows, h.ledger.absent, h.ledger.ids⟩ (fun _ _ h => h) (.refl _)
  | write w =>
    exact h.quiet rfl ⟨h.ledger.shows, h.ledger.absent, h.ledger.ids⟩ (fun _ _ h => h.step w)
      (.refl _)
  | calls records =>
    exact h.quiet rfl ⟨h.ledger.shows, h.ledger.absent, h.ledger.ids⟩ (fun _ _ h => h) (.refl _)

/-- What a run keeps. -/
theorem Sound.runs (h : t.Sound)
    (hrun : Runs (perform c) (fun t e => e.Admitted t) t events t') :
    t'.Sound ∧ t.Advances t' := by
  induction hrun with
  | nil => exact ⟨h, .refl _⟩
  | cons hadmitted _ ih =>
    obtain ⟨hsound, hadvances, -⟩ := h.step (c := c) hadmitted
    obtain ⟨hsound', hadvances'⟩ := ih hsound
    exact ⟨hsound', hadvances.trans hadvances'⟩

omit [ConversationMessage M] in
/-- A ledger without summaries has counted nothing. -/
theorem sound_start {store : Delivery M E} (h : store.summaries = ∅) :
    (Tracked.mk store [] fun _ => []).Sound where
  ledger := by
    refine ⟨fun key summary hsummary => ?_, fun _ _ => ⟨rfl, rfl⟩, fun key _ summary _ hsummary => ?_⟩
    · rw [h] at hsummary
      simp at hsummary
    · rw [h] at hsummary
      simp at hsummary
  stored := nofun
  nodup := List.nodup_nil

end Tracked

/-! ## What is pending -/

/-- What is read are the first notifications of the rows. -/
theorem collect_eq {α : Type} {limit : Nat} (f : α → Option BackgroundNotification) (rows : List α)
    {pending : List BackgroundNotification} (h : pending.length < limit) :
    collect limit f rows pending = (pending ++ rows.filterMap f).take limit := by
  induction rows generalizing pending with
  | nil => rw [collect, List.filterMap_nil, List.append_nil, List.take_of_length_le h.le]
  | cons row rows ih =>
    rw [collect, List.filterMap_cons]
    rcases f row with - | notification
    · rw [Option.toList_none, List.append_nil, if_neg h.ne, ih h]
    · have hsplit : pending ++ notification :: rows.filterMap f =
          (pending ++ [notification]) ++ rows.filterMap f := by
        rw [List.append_assoc, List.singleton_append]
      have hlength : (pending ++ [notification]).length = pending.length + 1 := by
        rw [List.length_append, List.length_singleton]
      rw [Option.toList_some, hsplit]
      split
      · next heq => rw [← heq, List.take_left]
      · next hne => exact ih (by omega)

namespace Delivery

variable {M E : Type} [ConversationMessage M] [FromDevice M] {c : TargetCrypto} (s : Delivery M E)

/-- What is read is the start of what is pending. -/
theorem pendingBackgroundNotifications_eq (limit : Nat) :
    s.pendingBackgroundNotifications limit = s.pendingEntries.take (min limit 16) := by
  rw [pendingBackgroundNotifications, pendingEntries]
  generalize min limit 16 = limit
  split
  · next hzero => rw [hzero, List.take_zero]
  · next hne =>
    have hpos : ([] : List BackgroundNotification).length < limit := Nat.pos_of_ne_zero hne
    rw [collect_eq ofCall s.calls.toList hpos, List.nil_append, List.take_append]
    dsimp only
    split
    · next hfull =>
      have hle : limit ≤ (s.calls.toList.filterMap ofCall).length := by
        rw [List.length_take] at hfull
        omega
      rw [Nat.sub_eq_zero_of_le hle, List.take_zero, List.append_nil]
    · next hroom =>
      have hlt : (s.calls.toList.filterMap ofCall).length < limit := by
        rw [List.length_take] at hroom
        omega
      rw [List.take_of_length_le hlt.le, collect_eq s.ofSummary _ hlt, List.take_append,
        List.take_of_length_le hlt.le]

/-- A notification of a conversation comes from its summary. -/
theorem mem_pending {limit : Nat} {notification : BackgroundNotification}
    (h : notification ∈ s.pendingBackgroundNotifications limit) (hcall : notification.call = none) :
    ∃ (key : String) (summary : Summary), s.summaries[key]? = some summary ∧
      notification.id = summary.id ∧
      notification.revision = summary.revision ∧ notification.target = summary.target := by
  rw [pendingBackgroundNotifications_eq] at h
  rcases List.mem_append.1 (List.mem_of_mem_take h) with h | h
  · obtain ⟨row, -, hrow⟩ := List.mem_filterMap.1 h
    rw [ofCall] at hrow
    split at hrow
    · cases hrow
    · rw [← Option.some.inj hrow] at hcall
      cases hcall
  · obtain ⟨⟨key, summary⟩, hmem, hrow⟩ := List.mem_filterMap.1 h
    refine ⟨key, summary, Std.ExtTreeMap.mem_toList_iff_getElem?_eq_some.1 hmem, ?_⟩
    rw [ofSummary] at hrow
    split at hrow
    · cases hrow
    · obtain ⟨stored, -, hstored⟩ := Option.bind_eq_some_iff.1 hrow
      split at hstored
      · cases hstored
      · obtain rfl := Option.some.inj hstored
        exact ⟨rfl, rfl, rfl⟩

end Delivery

/-! ## No lost alert -/

section Alerts

variable {M E : Type} [ConversationMessage M] [FromDevice M] {c : TargetCrypto}
  {store : Delivery M E} {t t' : Tracked M E} {events : List (DeliveryEvent M E)}

namespace Tracked

omit [FromDevice M] in
/-- A message of someone else that is new to the history is counted. -/
theorem Sound.counts_append (h : t.Sound) {kind : Kind} {row : HistoryRow M E}
    {random : List UInt8} {fact : BackgroundMessageAdmission} {control : Control}
    (hcontrol : t.store.control = some control) (hinteractive : control.interactive = false)
    (hfact : message kind row.conversationId row.sentAtMs row.messageId row.message = some fact)
    (hrow : ¬ t.store.history.Stored fact.kind fact.rowKey)
    (hnew : ∀ other ∈ t.countedAt fact.key, other.occurrenceId ≠ fact.occurrenceId)
    (hlength : (t.countedAt fact.key).length + 1 < 2 ^ 64) :
    t.store.counts c (.append kind row random) = [fact] := by
  obtain ⟨s, hs⟩ := Delivery.queueBackgroundMessage_eq_ok random hcontrol hinteractive
    (Option.not_isSome_iff_eq_none.1 hrow)
    (fun summary hsummary hmem => by
      obtain ⟨other, hother, heq⟩ := (h.ledger.shows _ summary hsummary).recent _ hmem
      exact hnew other hother heq)
    (fun summary hsummary => by
      rw [(h.ledger.shows _ summary hsummary).revision]
      exact hlength)
  have hfacts : Delivery.facts kind row.conversationId [row] = [fact] := by
    rw [Delivery.facts, List.filterMap_cons, hfact]
    rfl
  rw [Delivery.counts, Delivery.commitHistoryAdmission, hfacts]
  simp only [Delivery.queueHistoryBackground, hs]
  rfl

omit [FromDevice M] in
/-- The notification of a revision that is not the newest any more cannot be acknowledged. -/
theorem Sound.acknowledge_stale (h : t.Sound) {key : String} {summary : Summary}
    (hsummary : t.store.summaries[key]? = some summary) {revision : Nat}
    (hrevision : revision < (t.countedAt key).length) :
    t.store.step c (.acknowledge summary.id revision) = t.store := by
  obtain ⟨random, hlength, hid⟩ := (h.ledger.shows key summary hsummary).named
  have hcall : ¬ "background-call-".toList.isPrefixOf summary.id.toList = true := by
    rw [hid, Delivery.not_isPrefixOf_idOf hlength]
    nofun
  have hnone : t.store.acknowledges summary.id revision = none := by
    refine List.find?_eq_none.2 fun row hrow hmatch => ?_
    obtain ⟨hid', hrevision'⟩ : row.2.id = summary.id ∧ row.2.revision = revision := by
      simpa using hmatch
    have hother := Std.ExtTreeMap.mem_toList_iff_getElem?_eq_some.1 hrow
    -- the summary with the id is the one whose revision is newer
    have hkey : row.1 = key := h.ledger.ids row.1 key row.2 summary hother hsummary hid'
    rw [hkey] at hother
    have hshows := h.ledger.shows key row.2 hother
    rw [hshows.revision] at hrevision'
    exact absurd hrevision' (Nat.ne_of_gt hrevision)
  rw [Delivery.step, Delivery.ackBackgroundNotification, if_neg hcall, hnone]
  split <;> rfl

/-- The newest message is told about if it is not erased. -/
theorem Sound.exists_pending (h : t.Sound) {kind : Kind} {id : String}
    {fact : BackgroundMessageAdmission} {limit : Nat}
    (hnewest : (t.since (summaryKey kind id)).getLast? = some fact)
    (herased : ∀ row, (t.store.history.messages fact.kind)[fact.rowKey]? = some row →
      isErased row.message = false)
    (hlimit : t.store.pendingEntries.length ≤ min limit 16) :
    ∃ notification ∈ t.store.pendingBackgroundNotifications limit,
      notification.target = ⟨kind, id⟩ ∧ notification.call = none ∧
      notification.occurrenceId = fact.occurrenceId ∧
      notification.revision = (t.countedAt (summaryKey kind id)).length ∧
      notification.messageCount = min (t.since (summaryKey kind id)).length (2 ^ 32 - 1) := by
  have hne : t.since (summaryKey kind id) ≠ [] := fun hnil => by
    rw [hnil] at hnewest
    cases hnewest
  obtain ⟨summary, hsummary⟩ : ∃ summary, t.store.summaries[summaryKey kind id]? = some summary := by
    refine Option.ne_none_iff_exists'.1 fun hnone => hne (h.ledger.absent _ hnone).2
  have hshows := h.ledger.shows _ summary hsummary
  -- the newest message since the last time is the newest one of all
  have hlast : (t.countedAt (summaryKey kind id)).getLast? = some fact := by
    obtain ⟨before, hbefore⟩ := hshows.suffix
    rw [countedAt, ← hbefore, List.getLast?_append, hnewest]
    rfl
  have hmem : fact ∈ t.countedAt (summaryKey kind id) := List.mem_of_getLast? hlast
  obtain ⟨hfact, hkey⟩ := List.mem_filter.1 hmem
  obtain ⟨hkind, hid⟩ := summaryKey_inj (of_decide_eq_true hkey)
  obtain ⟨row, hrow⟩ := Option.isSome_iff_exists.1 (h.stored fact hfact)
  obtain ⟨hoccurrence, hsent, hmessage⟩ := hshows.newest fact hlast
  have htarget : summary.target = ⟨kind, id⟩ := by
    obtain ⟨hkind', hid'⟩ := summaryKey_inj hshows.target
    rw [← hkind', ← hid']
  have hget : (t.store.history.messages summary.target.kind)[historyKey summary.target.id
      summary.sentAtMs summary.messageId]? = some row := by
    rw [htarget, hsent, hmessage, ← hkind, ← hid]
    exact hrow
  have hnot : summary.acknowledged = false := by
    rw [hshows.acknowledged, List.isEmpty_eq_false_iff.2 hne]
  let notification : BackgroundNotification := {
    id := summary.id
    revision := summary.revision
    target := summary.target
    occurrenceId := summary.occurrenceId
    sentAtMs := summary.sentAtMs
    messageCount := summary.messageCount
    sender := some (bounded (FromDevice.fromDevice row.message) 256)
    text := some (bounded (body row.message) 8192)
    call := none }
  have hof : t.store.ofSummary (summaryKey kind id, summary) = some notification := by
    rw [Delivery.ofSummary, hnot, if_neg nofun, Delivery.backgroundNotification, hget,
      Option.bind_some, if_neg (by rw [herased row hrow]; nofun)]
  refine ⟨notification, ?_, htarget, rfl, hoccurrence, hshows.revision, hshows.messageCount hne⟩
  rw [Delivery.pendingBackgroundNotifications_eq, List.take_of_length_le hlimit]
  exact List.mem_append_right _ (List.mem_filterMap.2
    ⟨_, Std.ExtTreeMap.mem_toList_iff_getElem?_eq_some.2 hsummary, hof⟩)

end Tracked

/-- A newest message that is not erased is never lost.

    For every run from a ledger without summaries, of messages that come in, acknowledgements,
    erasures and other writes of the history: no row is counted twice, and a row that is counted is
    new; a message of someone else that is new to the history, and whose occurrence was not counted
    before, is counted while the app is not in front; an acknowledgement of a notification that was
    shown before the newest message of its conversation came in changes nothing; and if the newest
    message of a conversation of those that were counted since it was last acknowledged is not
    erased, then a notification for the conversation is read, with the number of these messages,
    unless more is pending than one call may read. -/
theorem newest_is_pending (hstart : store.summaries = ∅)
    (hrun : Runs (Tracked.perform c) (fun t e => e.Admitted t) ⟨store, [], fun _ => []⟩ events t) :
    (t.counted.map fun fact => (fact.kind, fact.rowKey)).Nodup ∧
    (∀ e : DeliveryEvent M E, e.Admitted t → ∀ fact ∈ t.store.counts c e,
      ¬ t.store.history.Stored fact.kind fact.rowKey ∧
      (t.store.step c e).history.Stored fact.kind fact.rowKey) ∧
    (∀ kind (row : HistoryRow M E) random fact control, t.store.control = some control →
      control.interactive = false →
      message kind row.conversationId row.sentAtMs row.messageId row.message = some fact →
      ¬ t.store.history.Stored fact.kind fact.rowKey →
      (∀ other ∈ t.countedAt fact.key, other.occurrenceId ≠ fact.occurrenceId) →
      (t.countedAt fact.key).length + 1 < 2 ^ 64 →
      t.store.counts c (.append kind row random) = [fact]) ∧
    (∀ events' t', Runs (Tracked.perform c) (fun t e => e.Admitted t) t events' t' →
      ∀ limit, ∀ notification ∈ t.store.pendingBackgroundNotifications limit,
      notification.call = none →
      ∀ kind id, notification.target = ⟨kind, id⟩ →
      t.countedAt (summaryKey kind id) ≠ t'.countedAt (summaryKey kind id) →
      t'.store.step c (.acknowledge notification.id notification.revision) = t'.store) ∧
    ∀ kind id fact limit, (t.since (summaryKey kind id)).getLast? = some fact →
      (∀ row, (t.store.history.messages fact.kind)[fact.rowKey]? = some row →
        isErased row.message = false) →
      t.store.pendingEntries.length ≤ min limit 16 →
      ∃ notification ∈ t.store.pendingBackgroundNotifications limit,
        notification.target = ⟨kind, id⟩ ∧ notification.call = none ∧
        notification.occurrenceId = fact.occurrenceId ∧
        notification.revision = (t.countedAt (summaryKey kind id)).length ∧
        notification.messageCount = min (t.since (summaryKey kind id)).length (2 ^ 32 - 1) := by
  obtain ⟨hsound, -⟩ := (Tracked.sound_start hstart).runs hrun
  refine ⟨hsound.nodup, fun e hadmitted fact hfact => ?_, ?_, ?_, ?_⟩
  · obtain ⟨hnext, -, hnone⟩ := hsound.step (c := c) hadmitted
    exact ⟨hnone fact hfact, hnext.stored fact (List.mem_append_right _ hfact)⟩
  · exact fun kind row random fact control hcontrol hinteractive hfact hrow hnew hlength =>
      hsound.counts_append hcontrol hinteractive hfact hrow hnew hlength
  · intro events' t' hrun' limit notification hmem hcall kind id htarget hnewer
    obtain ⟨hsound', hadvances⟩ := hsound.runs hrun'
    obtain ⟨key, summary, hsummary, hid, hrevision, htarget'⟩ :=
      t.store.mem_pending hmem hcall
    have hkey : summaryKey kind id = key := by
      rw [← (hsound.ledger.shows key summary hsummary).target, ← htarget', htarget]
    subst hkey
    obtain ⟨summary', hsummary', hsame⟩ := hadvances.keeps _ summary hsummary
    -- more was counted since the notification was shown
    have hgrown : t.countedAt (summaryKey kind id) <+: t'.countedAt (summaryKey kind id) :=
      hadvances.counted.filter _
    have hlt : (t.countedAt (summaryKey kind id)).length <
        (t'.countedAt (summaryKey kind id)).length :=
      lt_of_le_of_ne hgrown.length_le fun heq => hnewer (hgrown.eq_of_length heq)
    rw [hid, hrevision, ← hsame, (hsound.ledger.shows _ summary hsummary).revision]
    exact hsound'.acknowledge_stale hsummary' hlt
  · exact fun kind id fact limit hnewest herased hlimit =>
      hsound.exists_pending hnewest herased hlimit

end Alerts

/-! ## Alerts that are lost -/

/-- A greeting of somebody else. -/
def greetingRow (messageId : String) : HistoryRow ChatMessage Unit where
  conversationId := "1"
  sentAtMs := 1
  messageId := messageId
  message := {
    metadata := some { isOwn := some false }
    fromDevice := "phone"
    body := "hi"
    messageId := some messageId
    sentAtMs := some 1 }

/-- The greeting, taken back. -/
def erasedGreeting (messageId : String) : HistoryRow ChatMessage Unit :=
  { greetingRow messageId with
    message := setMetadata (eraseContent (greetingRow messageId).message)
      (some { isOwn := some false, deletion := some ⟨.forEveryone, .confirmed, none⟩ }) }

/-- The store of an app that is not in front. -/
def quietStore : Delivery ChatMessage Unit where
  history := ⟨⟨∅, ∅⟩, fun _ => ∅, ∅, none⟩
  control := some ⟨true, false⟩
  summaries := ∅
  calls := ∅

/-- The store, with calls that ring. -/
def ringingStore (calls : List String) : Delivery ChatMessage Unit :=
  { quietStore with
    calls := calls.foldl (fun table id => table.insert ("call/" ++ id)
      { id := "background-call-" ++ id
        owner := "app"
        revision := 1
        acknowledged := false
        state := ⟨id, id, .incoming, 0, "phone", ""⟩
        answer := none
        decline := none
        hangup := none }) ∅ }

/-- A greeting comes in. -/
def greet (messageId : String) (random : UInt8) : DeliveryEvent ChatMessage Unit :=
  .append .dm (greetingRow messageId) (List.replicate 16 random)

theorem admitted_greet {t : Tracked ChatMessage Unit} {messageId : String} {random : UInt8}
    (h : ∀ row ∈ t.store.summaries.toList, row.2.id ≠ Summary.idOf (List.replicate 16 random)) :
    (greet messageId random).Admitted t :=
  ⟨List.length_replicate, fun key summary hsummary =>
    h (key, summary) (Std.ExtTreeMap.mem_toList_iff_getElem?_eq_some.2 hsummary)⟩

/-- A greeting comes in, and the user is told about it. -/
theorem newest_is_pending_greeting : ∃ notification ∈
    ((Tracked.perform plainTargets) ⟨quietStore, [], fun _ => []⟩
      (greet "a" 0)).store.pendingBackgroundNotifications 16,
    notification.target = ⟨.dm, "1"⟩ ∧ notification.messageCount = 1 := by
  have hadmitted : (greet "a" 0).Admitted ⟨quietStore, [], fun _ => []⟩ :=
    admitted_greet (by decide +kernel)
  have hrun : Runs (Tracked.perform plainTargets) (fun t e => e.Admitted t)
      ⟨quietStore, [], fun _ => []⟩ [greet "a" 0] _ := .single hadmitted
  obtain ⟨-, -, -, -, hpending⟩ := newest_is_pending rfl hrun
  obtain ⟨notification, hmem, htarget, -, -, -, hcount⟩ := hpending .dm "1"
    ⟨.dm, "1", "a", "a", 1⟩ 16 (by decide +kernel) (by
      intro row hrow
      have hget : ((((Tracked.perform plainTargets) ⟨quietStore, [], fun _ => []⟩
          (greet "a" 0)).store.history.messages .dm)[(greetingRow "a").key]?.map fun row =>
            isErased row.message) = some false := by decide +kernel
      rw [show (greetingRow "a").key = historyKey "1" 1 "a" from rfl] at hget
      rw [show BackgroundMessageAdmission.rowKey ⟨.dm, "1", "a", "a", 1⟩ = historyKey "1" 1 "a"
        from rfl] at hrow
      rw [hrow] at hget
      exact Option.some.inj hget) (by decide +kernel)
  refine ⟨notification, hmem, htarget, ?_⟩
  rw [hcount]
  decide +kernel

/-- Two greetings come in, and the second one is taken back. -/
def takenBack : List (DeliveryEvent ChatMessage Unit) :=
  [greet "a" 0, greet "b" 1, .write (.commitMessageDeletions .dm [] [erasedGreeting "b"] ∅)]

/-- As many calls ring as are read at once. -/
def ringing : Tracked ChatMessage Unit :=
  ⟨ringingStore ["a", "b", "c", "d", "e", "f", "g", "h", "i", "j", "k", "l", "m", "n", "o", "p"], [],
    fun _ => []⟩

set_option maxRecDepth 100000 in
/-- The user is not told about a greeting if the one after it is taken back, although nothing is
    pending; and not about one that comes in while as many calls ring as are read at once, although
    more is asked for than is pending. -/
theorem alerts_lost :
    (∃ t, Runs (Tracked.perform plainTargets) (fun t e => e.Admitted t)
        ⟨quietStore, [], fun _ => []⟩ takenBack t ∧
      ((t.since (summaryKey .dm "1")).map (·.messageId) = ["a", "b"]) ∧
      (((t.store.history.messages .dm)[(greetingRow "a").key]?).map fun row =>
        isErased row.message) = some false ∧
      t.store.pendingEntries.length < 16 ∧ t.store.pendingBackgroundNotifications 16 = []) ∧
    ∃ t, Runs (Tracked.perform plainTargets) (fun t e => e.Admitted t) ringing [greet "a" 0] t ∧
      ((t.since (summaryKey .dm "1")).map (·.messageId) = ["a"]) ∧
      (((t.store.history.messages .dm)[(greetingRow "a").key]?).map fun row =>
        isErased row.message) = some false ∧
      t.store.pendingEntries.length < 20 ∧
      ∀ notification ∈ t.store.pendingBackgroundNotifications 20,
        notification.target ≠ ⟨.dm, "1"⟩ := by
  refine ⟨⟨takenBack.foldl (Tracked.perform plainTargets) ⟨quietStore, [], fun _ => []⟩,
    .cons (admitted_greet (by decide +kernel)) (.cons (admitted_greet (by decide +kernel))
      (.cons trivial (.nil _))), ?_⟩, ⟨Tracked.perform plainTargets ringing (greet "a" 0),
    .single (admitted_greet (by decide +kernel)), ?_⟩⟩
  · decide +kernel
  · decide +kernel

end Mosh.Background
