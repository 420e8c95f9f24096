import Mosh.Conversation.MessageLog
import Mosh.Library.Table
import Mosh.Library.Format

/-!
# Sending a message

A message on its way out (`conversation/outbound.rs`) is in the log of its conversation
and, until its send is done, in a stored attempt, from which a restart rebuilds it. A
send is opened or queued, published by the conversation, and settled with what the
transport said; it can be opened or queued again. Each of these writes the delivery of
the message twice, into the log and into the attempt.

* `row_findMut`, `row_upsert`: what the log shows for an id after an update;
* `Outbox.outbox_agrees`: every attempt shows the delivery of its message, and its JSON
  is this message, as long as no send is queued again;
* `Outbox.requeue_disagrees`: a send that is queued again is `Queued` in the attempt and
  `Pending` in the log.
-/

namespace Mosh.Conversation

open ConversationMessage

/-- A message that shows how its send went. -/
class DeliveredMessage (M : Type) extends ConversationMessage M where
  delivery : M → MessageDeliveryMeta
  delivery_setDelivery : ∀ m d, delivery (setDelivery m d) = d := by intros; rfl
  setDelivery_delivery : ∀ m, setDelivery m (delivery m) = m := by intros; rfl
  deliveryStatus_eq : ∀ m, deliveryStatus m = (delivery m).deliveryStatus := by intros; rfl
  sentAtMs_setDelivery : ∀ m d, sentAtMs (setDelivery m d) = sentAtMs m := by intros; rfl

open DeliveredMessage

attribute [simp] delivery_setDelivery setDelivery_delivery sentAtMs_setDelivery

instance : DeliveredMessage ChatMessage where
  delivery := (·.delivery)

instance : DeliveredMessage GroupMessage where
  delivery := (·.delivery)

instance : DeliveredMessage ChannelMessage where
  delivery := (·.delivery)

/-! ## The row of an id -/

namespace MessageLog

variable {M : Type} [ConversationMessage M]

/-- The message with an id: the first one. -/
def row (log : MessageLog M) (id : String) : Option M :=
  log.messages.find? fun m => messageId m = some id

/-- The rows before and after the first one with an id. -/
theorem position_split {log : MessageLog M} {id : String} {index : Nat}
    (h : log.position id = some index) :
    ∃ before old after, log.messages = before ++ old :: after ∧ before.length = index ∧
      (∀ m ∈ before, messageId m ≠ some id) ∧ messageId old = some id := by
  obtain ⟨hlt, hp, hbefore⟩ := List.findIdx?_eq_some_iff_getElem.1 h
  refine ⟨log.messages.take index, log.messages[index], log.messages.drop (index + 1), ?_, ?_, ?_, ?_⟩
  · rw [List.cons_getElem_drop_succ, List.take_append_drop]
  · exact List.length_take_of_le hlt.le
  · intro m hm hid
    obtain ⟨i, hi, rfl⟩ := List.mem_take_iff_getElem.1 hm
    exact hbefore i (by omega) (by simpa using hid)
  · simpa using hp

/-- The row of an id after the first one with an id is replaced. -/
theorem find?_replaced {before after : List M} {old new : M} {id : String}
    (hbefore : ∀ m ∈ before, messageId m ≠ some id) (hold : messageId old = some id)
    (hnew : messageId new = some id) (k : String) :
    (before ++ new :: after).find? (fun m => messageId m = some k) =
      if id = k then some new else
        (before ++ old :: after).find? (fun m => messageId m = some k) := by
  rw [List.find?_append, List.find?_append, List.find?_cons, List.find?_cons, hold, hnew]
  by_cases hk : id = k
  · have hnone : before.find? (fun m => messageId m = some k) = none := by
      rw [List.find?_eq_none]
      intro m hm
      simpa [← hk] using hbefore m hm
    simp [hk, hnone]
  · simp [hk]

/-- Without a position there is no row. -/
theorem row_of_position_none {log : MessageLog M} {id : String} (h : log.position id = none) :
    log.row id = none := by
  rw [row, List.find?_eq_none]
  intro m hm
  simpa using position_eq_none h m hm

/-- The row at the position. -/
theorem row_of_split {log : MessageLog M} {id : String} {before after : List M} {old : M}
    (hmessages : log.messages = before ++ old :: after)
    (hbefore : ∀ m ∈ before, messageId m ≠ some id) (hold : messageId old = some id) :
    log.row id = some old := by
  rw [row, hmessages, find?_replaced hbefore hold hold, if_pos rfl]

/-- A row is changed, and keeps its id. -/
theorem row_findMut (log : MessageLog M) (id : String) (change : M → M)
    (hchange : ∀ m, messageId (change m) = messageId m) (k : String) :
    (log.findMut id change).row k = if id = k then (log.row id).map change else log.row k := by
  rw [findMut]
  cases hposition : log.position id with
  | none =>
    rw [show log.touch.position id = none from hposition, row_of_position_none hposition]
    dsimp only
    by_cases hk : id = k
    · rw [if_pos hk, ← hk]
      exact row_of_position_none hposition
    · rw [if_neg hk]
      rfl
  | some index =>
    obtain ⟨before, old, after, hmessages, hlength, hbefore, hold⟩ := position_split hposition
    rw [show log.touch.position id = some index from hposition,
      row_of_split hmessages hbefore hold, Option.map_some]
    have hget : log.messages[index]? = some old := by
      rw [hmessages, ← hlength, List.getElem?_append_right le_rfl, Nat.sub_self,
        List.getElem?_cons_zero]
    have hmodify : log.messages.modify index change = before ++ change old :: after := by
      rw [List.modify_eq_set_getElem?, hget, hmessages, ← hlength]
      change (before ++ old :: after).set before.length (change old) = _
      rw [List.set_append_right _ _ le_rfl, Nat.sub_self, List.set_cons_zero]
    dsimp only
    rw [row, row, messages_touch, hmodify, hmessages,
      find?_replaced hbefore hold ((hchange old).trans hold)]

/-- A message takes the place of the one with its id, unless that is erased, or is appended. -/
theorem row_upsert (log : MessageLog M) {m : M} {id : String} (hid : messageId m = some id)
    (hrow : ∀ old, log.row id = some old → isErased old = false) (k : String) :
    (log.upsert m).row k = if id = k then some m else log.row k := by
  rw [upsert, hid, Option.bind_some]
  have hmessages : (log.touch.rememberErasure m).messages = log.messages :=
    messages_rememberErasure log.touch m
  have hposition : (log.touch.rememberErasure m).position id = log.position id := by
    rw [position, position, hmessages]
  rw [hposition]
  cases hindex : log.position id with
  | none =>
    dsimp only
    rw [row, row, hmessages, List.find?_append]
    by_cases hk : id = k
    · have hnone := row_of_position_none hindex
      rw [row] at hnone
      rw [if_pos hk, ← hk, hnone, Option.none_or, List.find?_singleton]
      simp [hid]
    · rw [if_neg hk, List.find?_singleton]
      simp [hid, hk]
  | some index =>
    obtain ⟨before, old, after, hsplit, hlength, hbefore, hold⟩ := position_split hindex
    have hlive := hrow old (row_of_split hsplit hbefore hold)
    have hget : log.messages[index]? = some old := by
      rw [hsplit, ← hlength, List.getElem?_append_right le_rfl, Nat.sub_self, List.getElem?_cons_zero]
    have hset : log.messages.set index m = before ++ m :: after := by
      rw [hsplit, ← hlength, List.set_append_right _ _ le_rfl, Nat.sub_self, List.set_cons_zero]
    dsimp only
    rw [hmessages, hget, Option.any_some, hlive, if_neg Bool.false_ne_true, row, row, hset, hsplit,
      find?_replaced hbefore hold hid]

/-- The delivery of a row is noted. -/
theorem row_markDelivery (log : MessageLog M) (id : String) (status : MessageDeliveryStatus)
    (error : Option String) (retryCount : Nat) (k : String) :
    (log.markDelivery id status error retryCount).1.row k = if id = k then
      (log.row id).map (setDelivery · (deliveryMeta status error retryCount)) else log.row k :=
  row_findMut log id _ (fun m => messageId_setDelivery m _) k

/-- The delivery of a row that is there can be noted. -/
theorem markDelivery_snd (log : MessageLog M) (id : String) (status : MessageDeliveryStatus)
    (error : Option String) (retryCount : Nat) :
    (log.markDelivery id status error retryCount).2 =
      if (log.row id).isSome then .ok () else .error ("message missing: " ++ id) := by
  have hiff : (log.position id).isSome = (log.row id).isSome := by
    cases hposition : log.position id with
    | none =>
      rw [row_of_position_none hposition]
      rfl
    | some index =>
      obtain ⟨before, old, after, hmessages, -, hbefore, hold⟩ := position_split hposition
      rw [row_of_split hmessages hbefore hold]
      rfl
  rw [markDelivery, hiff]

end MessageLog

/-! ## The outbox -/

/-- A stored send: what a restart reads of it, and what the send needs. -/
structure OutboundAttempt extends MessageLog.OutboundAttemptRecord where
  conversationId : String
  ciphertextBytes : Nat
  publishPayloadB64 : String
  autoResends : Nat
  lastSendMs : Nat
  deriving DecidableEq, Repr

/-- A send that is ready for the transport. -/
structure Prepared where
  messageId : String
  sentAtMs : Nat
  ciphertextBytes : Nat
  retryCount : Nat
  payload : List UInt8
  deriving DecidableEq, Repr

/-- How a send ended. -/
structure Settled where
  status : MessageDeliveryStatus
  error : Option String
  deriving DecidableEq, Repr

/-- What becomes of an attempt when the transport takes the frame. -/
inductive OnSent
  | forget | retain
  deriving DecidableEq, Repr

/-- JSON of messages, and base64. -/
structure OutboxCodec (M : Type) where
  toJson : M → Except String String
  parse : String → Option M
  encode : List UInt8 → String
  decode : String → Except String (List UInt8)

/-- What is written can be read back. -/
structure OutboxCodec.Lawful {M : Type} (codec : OutboxCodec M) : Prop where
  parse_toJson : ∀ m, ∃ text, codec.toJson m = .ok text ∧ codec.parse text = some m
  decode_encode : ∀ payload, codec.decode (codec.encode payload) = .ok payload

/-- The log of a conversation, and the attempts that are in flight. -/
structure Outbox (M : Type) where
  log : MessageLog M := {}
  attempts : Std.ExtTreeMap String OutboundAttempt compare := ∅

def maxRetryCount : Nat := 2 ^ 32 - 1

namespace Outbox

variable {M : Type} [DeliveredMessage M] (codec : OutboxCodec M)

/-- The JSON of the message with an id. -/
def jsonFor (log : MessageLog M) (id : String) : Except String String :=
  match log.row id with
  | none => .error ("message missing: " ++ id)
  | some message => codec.toJson message

/-- Copies the JSON of a message into its attempt, unless the user erased the message for
    themselves after it was published. -/
def syncMessageJson (o : Outbox M) (id : String) : Except String Unit × Outbox M :=
  if ((o.log.row id).bind deletion).any (·.scope = .forMe) &&
      o.attempts[id]?.any (·.everPublished ≠ some false) then
    (.ok (), o)
  else
    match jsonFor codec o.log id with
    | .error e => (.error e, o)
    | .ok messageJson =>
      let noted := Option.map fun attempt : OutboundAttempt => { attempt with messageJson }
      (.ok (), { o with attempts := o.attempts.alter id noted })

/-- A send is filed: the message goes into the log, and an attempt is stored. -/
def file (o : Outbox M) (now : Nat) (message : M) (conversationId : String) (payload : List UInt8)
    (ciphertextBytes : Nat) (status : MessageDeliveryStatus) : Except String Prepared × Outbox M :=
  let id := (messageId message).getD ""
  let sentAt := (sentAtMs message).getD now
  match (o.log.upsert message).markDelivery id status none 0 with
  | (log, .error e) => (.error e, { o with log })
  | (log, .ok ()) =>
    match jsonFor codec log id with
    | .error e => (.error e, { o with log })
    | .ok messageJson =>
      let attempt : OutboundAttempt :=
        { everPublished := some false
          messageId := id
          sentAtMs := sentAt
          messageJson
          deliveryStatus := status
          deliveryError := none
          retryCount := 0
          conversationId
          ciphertextBytes
          publishPayloadB64 := codec.encode payload
          autoResends := 0
          lastSendMs := sentAt }
      (.ok ⟨id, sentAt, ciphertextBytes, 0, payload⟩,
        { log, attempts := o.attempts.insert id attempt })

/-- A first send. -/
def «open» (o : Outbox M) (now : Nat) (message : M) (conversationId : String)
    (payload : List UInt8) (ciphertextBytes : Nat) : Except String Prepared × Outbox M :=
  o.file codec now message conversationId payload ciphertextBytes .pending

/-- A message waits for its transport. -/
def queue (o : Outbox M) (now : Nat) (message : M) (conversationId : String) :
    Except String Prepared × Outbox M :=
  o.file codec now message conversationId [] 0 .queued

/-- A send is prepared again. -/
def reopenAs (o : Outbox M) (id : String) (status : MessageDeliveryStatus) :
    Except String Prepared × Outbox M :=
  match o.attempts[id]? with
  | none => (.error ("message missing: " ++ id), o)
  | some attempt =>
    let attempt := { attempt with
      retryCount := min (attempt.retryCount + 1) maxRetryCount
      deliveryStatus := status
      deliveryError := none }
    let o := { o with attempts := o.attempts.insert id attempt }
    match codec.decode attempt.publishPayloadB64 with
    | .error e => (.error e, o)
    | .ok payload =>
      let prepared : Prepared :=
        ⟨id, attempt.sentAtMs, attempt.ciphertextBytes, attempt.retryCount, payload⟩
      -- The log is told `Pending`, whatever the status is.
      match o.log.markDelivery id .pending none attempt.retryCount with
      | (log, .error e) => (.error e, { o with log })
      | (log, .ok ()) =>
        match syncMessageJson codec { o with log } id with
        | (.error e, o) => (.error e, o)
        | (.ok (), o) => (.ok prepared, o)

/-- A send is opened again. -/
def reopen (o : Outbox M) (id : String) : Except String Prepared × Outbox M :=
  o.reopenAs codec id .pending

/-- A send is queued again. -/
def requeue (o : Outbox M) (id : String) : Except String Prepared × Outbox M :=
  o.reopenAs codec id .queued

/-- Notes what the transport said. -/
def settle (o : Outbox M) (now : Nat) (id : String) (outcome : Except String Unit)
    (onSent : OnSent) : Except String Settled × Outbox M :=
  let retryCount := (o.attempts[id]?.map (·.retryCount)).getD 0
  match outcome with
  | .ok () =>
    match o.log.markDelivery id .sent none retryCount with
    | (log, .error e) => (.error e, { o with log })
    | (log, .ok ()) =>
      match onSent with
      | .forget => (.ok ⟨.sent, none⟩, { log, attempts := o.attempts.erase id })
      | .retain =>
        let attempts := o.attempts.alter id (Option.map fun attempt => { attempt with
          everPublished := some true
          deliveryStatus := .sent
          deliveryError := none
          lastSendMs := now })
        match syncMessageJson codec { log, attempts } id with
        | (.error e, o) => (.error e, o)
        | (.ok (), o) => (.ok ⟨.sent, none⟩, o)
  | .error error =>
    let attempts := o.attempts.alter id (Option.map fun attempt => { attempt with
      deliveryStatus := .failed
      deliveryError := some error })
    match o.log.markDelivery id .failed (some error) retryCount with
    | (log, .error e) => (.error e, { log, attempts })
    | (log, .ok ()) =>
      match syncMessageJson codec { log, attempts } id with
      | (.error e, o) => (.error e, o)
      | (.ok (), o) => (.ok ⟨.failed, some error⟩, o)

/-- An admitted message is queued. This is not a retry. -/
def activateQueue (o : Outbox M) (id : String) : Except String Unit × Outbox M :=
  match o.attempts[id]? with
  | none => (.error ("message missing: " ++ id), o)
  | some attempt =>
    let attempt := { attempt with deliveryStatus := .queued, deliveryError := none }
    let o := { o with attempts := o.attempts.insert id attempt }
    match o.log.markDelivery id .queued none attempt.retryCount with
    | (log, .error e) => (.error e, { o with log })
    | (log, .ok ()) => syncMessageJson codec { o with log } id

/-- The operations of an outbox, with the time they happen at. -/
inductive Op (M : Type)
  | «open» (message : M) (conversationId : String) (payload : List UInt8) (ciphertextBytes : Nat)
  | queue (message : M) (conversationId : String)
  | reopen (id : String)
  | requeue (id : String)
  | activateQueue (id : String)
  | settle (id : String) (outcome : Except String Unit) (onSent : OnSent)

/-- The outbox after an operation. -/
def step (o : Outbox M) : Nat × Op M → Outbox M
  | (now, .open message conversationId payload ciphertextBytes) =>
    (o.open codec now message conversationId payload ciphertextBytes).2
  | (now, .queue message conversationId) => (o.queue codec now message conversationId).2
  | (_, .reopen id) => (o.reopen codec id).2
  | (_, .requeue id) => (o.requeue codec id).2
  | (_, .activateQueue id) => (o.activateQueue codec id).2
  | (now, .settle id outcome onSent) => (o.settle codec now id outcome onSent).2

/-! ## Log and attempts -/

variable {codec} {o o' : Outbox M} {id : String}

/-- An attempt agrees with the log: its message is there and not erased, it shows the delivery of
    the attempt, and the JSON of the attempt is this message. -/
structure AgreesAt (codec : OutboxCodec M) (log : MessageLog M) (id : String)
    (attempt : OutboundAttempt) : Prop where
  messageId : attempt.messageId = id
  payload : ∃ payload, attempt.publishPayloadB64 = codec.encode payload
  row : ∃ m, log.row id = some m ∧ isErased m = false ∧ (sentAtMs m).isSome = true ∧
    delivery m =
      deliveryMeta attempt.deliveryStatus attempt.deliveryError attempt.retryCount ∧
    codec.parse attempt.messageJson = some m

/-- All attempts agree with the log. -/
def Agrees (codec : OutboxCodec M) (o : Outbox M) : Prop :=
  ∀ (id : String) (attempt : OutboundAttempt), o.attempts[id]? = some attempt →
    AgreesAt codec o.log id attempt

/-- It is enough to look at one id if the others stay. -/
theorem Agrees.update (h : Agrees codec o) (id : String) (hlog : ∀ k, id ≠ k → o'.log.row k = o.log.row k)
    (hattempts : ∀ k, id ≠ k → o'.attempts[k]? = o.attempts[k]?)
    (hid : ∀ attempt, o'.attempts[id]? = some attempt → AgreesAt codec o'.log id attempt) :
    Agrees codec o' := by
  intro k attempt hattempt
  by_cases hk : id = k
  · subst hk
    exact hid attempt hattempt
  · rw [hattempts k hk] at hattempt
    obtain ⟨hmessageId, hpayload, hrow⟩ := h k attempt hattempt
    rw [← hlog k hk] at hrow
    exact ⟨hmessageId, hpayload, hrow⟩

/-- Copying the JSON of a message touches its attempt only. -/
theorem syncMessageJson_frame (codec : OutboxCodec M) (o : Outbox M) (id : String) :
    (o.syncMessageJson codec id).2.log = o.log ∧
      (∀ k, id ≠ k → (o.syncMessageJson codec id).2.attempts[k]? = o.attempts[k]?) ∧
      (o.attempts[id]? = none → (o.syncMessageJson codec id).2.attempts[id]? = none) := by
  rw [syncMessageJson]
  split
  · exact ⟨rfl, fun _ _ => rfl, fun h => h⟩
  split
  · exact ⟨rfl, fun _ _ => rfl, fun h => h⟩
  · refine ⟨rfl, fun k hk => ?_, fun h => ?_⟩
    · rw [Table.getElem?_alter, if_neg hk]
    · rw [Table.getElem?_alter, if_pos rfl, h]
      rfl

/-- The JSON of a message that is not erased is copied into its attempt. -/
theorem syncMessageJson_live (hcodec : codec.Lawful) {m : M} {attempt : OutboundAttempt}
    (hrow : o.log.row id = some m) (hlive : isErased m = false)
    (hattempt : o.attempts[id]? = some attempt) :
    (o.syncMessageJson codec id).1 = .ok () ∧ ∃ text, codec.parse text = some m ∧
      (o.syncMessageJson codec id).2.attempts[id]? = some { attempt with messageJson := text } := by
  have hdeletion : deletion m = none := by
    rw [isErased] at hlive
    simpa using hlive
  obtain ⟨text, hjson, hparse⟩ := hcodec.parse_toJson m
  rw [syncMessageJson, jsonFor, hrow, Option.bind_some, hdeletion, Option.any_none, Bool.false_and,
    if_neg Bool.false_ne_true]
  dsimp only
  rw [hjson]
  refine ⟨rfl, text, hparse, ?_⟩
  rw [Table.getElem?_alter, if_pos rfl, hattempt]
  rfl

/-- The delivery of a message is noted in the log and in its attempt, and the JSON copied. -/
theorem Agrees.delivered (hcodec : codec.Lawful) (h : Agrees codec o) {attempt : OutboundAttempt}
    (hattempt : o.attempts[id]? = some attempt) (attempt' : OutboundAttempt)
    (attempts : Std.ExtTreeMap String OutboundAttempt compare)
    (hid : attempt'.messageId = attempt.messageId)
    (hpayload : attempt'.publishPayloadB64 = attempt.publishPayloadB64)
    (hnew : attempts[id]? = some attempt')
    (hothers : ∀ k, id ≠ k → attempts[k]? = o.attempts[k]?) :
    ∃ o', syncMessageJson codec ⟨(o.log.markDelivery id attempt'.deliveryStatus
      attempt'.deliveryError attempt'.retryCount).1, attempts⟩ id = (.ok (), o') ∧
        Agrees codec o' := by
  obtain ⟨hmessageId, ⟨payload, hold⟩, m, hrow, hlive, hsent, -, -⟩ := h id attempt hattempt
  have hmarked : ∀ k, (o.log.markDelivery id attempt'.deliveryStatus attempt'.deliveryError
      attempt'.retryCount).1.row k = if id = k then some (setDelivery m (deliveryMeta
        attempt'.deliveryStatus attempt'.deliveryError attempt'.retryCount)) else o.log.row k := by
    intro k
    rw [MessageLog.row_markDelivery, hrow, Option.map_some]
  generalize (o.log.markDelivery id attempt'.deliveryStatus attempt'.deliveryError
    attempt'.retryCount).1 = log at hmarked ⊢
  have hrow' := hmarked id
  rw [if_pos rfl] at hrow'
  obtain ⟨hframe, hattempts, -⟩ := syncMessageJson_frame codec ⟨log, attempts⟩ id
  obtain ⟨hok, text, hparse, hsynced⟩ := syncMessageJson_live (o := ⟨log, attempts⟩) hcodec hrow'
    ((isErased_setDelivery m _).trans hlive) hnew
  generalize syncMessageJson codec ⟨log, attempts⟩ id = result at hframe hattempts hok hsynced
  obtain ⟨outcome, o'⟩ := result
  subst hok
  refine ⟨o', rfl, h.update id (fun k hk => ?_) (fun k hk => ?_) fun a ha => ?_⟩
  · rw [show o'.log = log from hframe, hmarked, if_neg hk]
  · exact (hattempts k hk).trans (hothers k hk)
  · obtain rfl := Option.some.inj (hsynced.symm.trans ha)
    refine ⟨hid.trans hmessageId, ⟨payload, hpayload.trans hold⟩, _, ?_, ?_, ?_, ?_, hparse⟩
    · rw [show o'.log = log from hframe, hrow']
    · exact (isErased_setDelivery m _).trans hlive
    · rw [sentAtMs_setDelivery]
      exact hsent
    · exact delivery_setDelivery m _

/-- Where there is no attempt, the log can change. -/
theorem Agrees.unattempted (h : Agrees codec o) {log : MessageLog M}
    {attempts : Std.ExtTreeMap String OutboundAttempt compare}
    (hlog : ∀ k, id ≠ k → log.row k = o.log.row k) (hnone : attempts[id]? = none)
    (hothers : ∀ k, id ≠ k → attempts[k]? = o.attempts[k]?) : Agrees codec ⟨log, attempts⟩ :=
  h.update id hlog hothers fun attempt hattempt => by
    rw [hnone] at hattempt
    cases hattempt

/-- The message is stamped and not erased, and no message with its id is. -/
def Stamped (o : Outbox M) (message : M) : Prop :=
  (sentAtMs message).isSome = true ∧ isErased message = false ∧
    ∃ id, messageId message = some id ∧ ∀ m, o.log.row id = some m → isErased m = false

/-- A send is filed. -/
theorem Agrees.file (hcodec : codec.Lawful) (h : Agrees codec o) {message : M}
    (hstamped : Stamped o message) (now : Nat) (conversationId : String) (payload : List UInt8)
    (ciphertextBytes : Nat) (status : MessageDeliveryStatus) :
    Agrees codec (o.file codec now message conversationId payload ciphertextBytes status).2 := by
  obtain ⟨hsent, hlive, id, hid, hrows⟩ := hstamped
  have hupsert := MessageLog.row_upsert o.log hid hrows
  have hrow : ∀ k, ((o.log.upsert message).markDelivery id status none 0).1.row k =
      if id = k then some (setDelivery message (deliveryMeta status none 0)) else o.log.row k := by
    intro k
    rw [MessageLog.row_markDelivery, hupsert, hupsert, if_pos rfl, Option.map_some]
    split
    · rfl
    · rfl
  have hok : ((o.log.upsert message).markDelivery id status none 0).2 = .ok () := by
    rw [MessageLog.markDelivery_snd, hupsert, if_pos rfl]
    rfl
  obtain ⟨text, hjson, hparse⟩ := hcodec.parse_toJson (setDelivery message (deliveryMeta status none 0))
  rw [Outbox.file, hid, Option.getD_some]
  dsimp only
  generalize (o.log.upsert message).markDelivery id status none 0 = marked at hrow hok
  obtain ⟨log, result⟩ := marked
  subst hok
  dsimp only at hrow ⊢
  rw [jsonFor, hrow, if_pos rfl]
  dsimp only
  rw [hjson]
  dsimp only
  refine h.update id (fun k hk => ?_) (fun k hk => ?_) fun attempt hattempt => ?_
  · rw [hrow, if_neg hk]
  · rw [Table.getElem?_insert, if_neg hk]
  · rw [Table.getElem?_insert, if_pos rfl] at hattempt
    obtain rfl := Option.some.inj hattempt
    refine ⟨rfl, ⟨payload, rfl⟩, _, by rw [hrow, if_pos rfl], ?_, ?_, ?_, hparse⟩
    · exact (isErased_setDelivery message _).trans hlive
    · rw [sentAtMs_setDelivery]
      exact hsent
    · exact delivery_setDelivery message _

/-- The message of an attempt is in the log, so that its delivery can be noted. -/
theorem Agrees.markDelivery_ok (h : Agrees codec o) {attempt : OutboundAttempt}
    (hattempt : o.attempts[id]? = some attempt) (status : MessageDeliveryStatus)
    (error : Option String) (retryCount : Nat) :
    o.log.markDelivery id status error retryCount =
      ((o.log.markDelivery id status error retryCount).1, .ok ()) := by
  obtain ⟨-, -, m, hrow, -⟩ := h id attempt hattempt
  refine Prod.ext rfl ?_
  rw [MessageLog.markDelivery_snd, hrow]
  rfl

/-- A send is opened again. -/
theorem Agrees.reopen (hcodec : codec.Lawful) (h : Agrees codec o) (id : String) :
    Agrees codec (o.reopen codec id).2 := by
  rw [Outbox.reopen, reopenAs]
  cases hattempt : o.attempts[id]? with
  | none => exact h
  | some attempt =>
    obtain ⟨-, ⟨payload, hpayload⟩, -⟩ := h id attempt hattempt
    obtain ⟨o', hsync, hagrees⟩ := h.delivered hcodec hattempt
      { attempt with
        retryCount := min (attempt.retryCount + 1) maxRetryCount
        deliveryStatus := .pending
        deliveryError := none }
      (o.attempts.insert id _) rfl rfl (by rw [Table.getElem?_insert, if_pos rfl])
      fun k hk => by rw [Table.getElem?_insert, if_neg hk]
    dsimp only at hsync ⊢
    rw [hpayload, hcodec.decode_encode]
    dsimp only
    rw [h.markDelivery_ok hattempt]
    dsimp only
    rw [hpayload] at hsync
    rw [hsync]
    exact hagrees

/-- An admitted message is queued. -/
theorem Agrees.activateQueue (hcodec : codec.Lawful) (h : Agrees codec o) (id : String) :
    Agrees codec (o.activateQueue codec id).2 := by
  rw [Outbox.activateQueue]
  cases hattempt : o.attempts[id]? with
  | none => exact h
  | some attempt =>
    obtain ⟨o', hsync, hagrees⟩ := h.delivered hcodec hattempt
      { attempt with deliveryStatus := .queued, deliveryError := none }
      (o.attempts.insert id _) rfl rfl (by rw [Table.getElem?_insert, if_pos rfl])
      fun k hk => by rw [Table.getElem?_insert, if_neg hk]
    dsimp only at hsync ⊢
    rw [h.markDelivery_ok hattempt]
    dsimp only
    rw [hsync]
    exact hagrees

/-- Without an attempt, the delivery of a message is noted in the log only. -/
theorem Agrees.settle_none (h : Agrees codec o) (hnone : o.attempts[id]? = none) (now : Nat)
    (outcome : Except String Unit) (onSent : OnSent) :
    Agrees codec (o.settle codec now id outcome onSent).2 := by
  have hlog : ∀ {status error retryCount log result},
      o.log.markDelivery id status error retryCount = (log, result) →
      ∀ k, id ≠ k → log.row k = o.log.row k := by
    intro status error retryCount log result heq k hk
    have hrow := MessageLog.row_markDelivery o.log id status error retryCount k
    rwa [heq, if_neg hk] at hrow
  have halter : ∀ f, (o.attempts.alter id (Option.map f))[id]? = none ∧
      ∀ k, id ≠ k → (o.attempts.alter id (Option.map f))[k]? = o.attempts[k]? := by
    refine fun f => ⟨?_, fun k hk => ?_⟩
    · rw [Table.getElem?_alter, if_pos rfl, hnone]
      rfl
    · rw [Table.getElem?_alter, if_neg hk]
  have hsync : ∀ log f, (∀ k, id ≠ k → log.row k = o.log.row k) →
      Agrees codec (syncMessageJson codec ⟨log, o.attempts.alter id (Option.map f)⟩ id).2 := by
    intro log f hrows
    obtain ⟨hframe, hothers, hsame⟩ :=
      syncMessageJson_frame codec ⟨log, o.attempts.alter id (Option.map f)⟩ id
    refine h.unattempted (fun k hk => ?_) (hsame (halter f).1)
      fun k hk => (hothers k hk).trans ((halter f).2 k hk)
    rw [hframe]
    exact hrows k hk
  cases outcome with
  | ok =>
    rw [Outbox.settle]
    split
    · next heq => exact h.unattempted (hlog heq) hnone fun _ _ => rfl
    · next log heq =>
      cases onSent with
      | forget =>
        refine h.unattempted (hlog heq) ?_ fun k hk => ?_
        · rw [Table.getElem?_erase, if_pos rfl]
        · rw [Table.getElem?_erase, if_neg hk]
      | retain =>
        have hagrees := hsync log (fun attempt => { attempt with
          everPublished := some true
          deliveryStatus := .sent
          deliveryError := none
          lastSendMs := now }) (hlog heq)
        dsimp only
        split
        · next heq => rwa [heq] at hagrees
        · next heq => rwa [heq] at hagrees
  | error error =>
    rw [Outbox.settle]
    split
    · next heq => exact h.unattempted (hlog heq) (halter _).1 (halter _).2
    · next log heq =>
      have hagrees := hsync log (fun attempt => { attempt with
        deliveryStatus := .failed
        deliveryError := some error }) (hlog heq)
      split
      · next heq => rwa [heq] at hagrees
      · next heq => rwa [heq] at hagrees

/-- What the transport said is noted. -/
theorem Agrees.settle (hcodec : codec.Lawful) (h : Agrees codec o) (now : Nat) (id : String)
    (outcome : Except String Unit) (onSent : OnSent) :
    Agrees codec (o.settle codec now id outcome onSent).2 := by
  cases hattempt : o.attempts[id]? with
  | none => exact h.settle_none hattempt now outcome onSent
  | some attempt =>
  have halter : ∀ f, (o.attempts.alter id (Option.map f))[id]? = some (f attempt) ∧
      ∀ k, id ≠ k → (o.attempts.alter id (Option.map f))[k]? = o.attempts[k]? := by
    refine fun f => ⟨?_, fun k hk => ?_⟩
    · rw [Table.getElem?_alter, if_pos rfl, hattempt]
      rfl
    · rw [Table.getElem?_alter, if_neg hk]
  cases outcome with
  | ok =>
    rw [Outbox.settle, hattempt, Option.map_some, Option.getD_some]
    dsimp only
    rw [h.markDelivery_ok hattempt]
    cases onSent with
    | forget =>
      refine h.update id (fun k hk => ?_) (fun k hk => ?_) fun a ha => ?_
      · rw [MessageLog.row_markDelivery, if_neg hk]
      · rw [Table.getElem?_erase, if_neg hk]
      · rw [Table.getElem?_erase, if_pos rfl] at ha
        cases ha
    | retain =>
      obtain ⟨o', hsync, hagrees⟩ := h.delivered hcodec hattempt
        { attempt with
          everPublished := some true
          deliveryStatus := .sent
          deliveryError := none
          lastSendMs := now }
        (o.attempts.alter id (Option.map fun attempt => { attempt with
          everPublished := some true
          deliveryStatus := .sent
          deliveryError := none
          lastSendMs := now })) rfl rfl (halter _).1 (halter _).2
      dsimp only at hsync ⊢
      rw [hsync]
      exact hagrees
  | error error =>
    obtain ⟨o', hsync, hagrees⟩ := h.delivered hcodec hattempt
      { attempt with deliveryStatus := .failed, deliveryError := some error }
      (o.attempts.alter id (Option.map fun attempt => { attempt with
        deliveryStatus := .failed
        deliveryError := some error })) rfl rfl (halter _).1 (halter _).2
    rw [Outbox.settle, hattempt, Option.map_some, Option.getD_some]
    dsimp only at hsync ⊢
    rw [h.markDelivery_ok hattempt]
    dsimp only
    rw [hsync]
    exact hagrees

/-! ## Every run -/

/-- The operation files no message but one that is stamped and not erased. -/
def OnStamped (o : Outbox M) : Nat × Op M → Prop
  | (_, .open message _ _ _) => Stamped o message
  | (_, .queue message _) => Stamped o message
  | _ => True

/-- No send is queued again. -/
def Regular (o : Outbox M) (op : Nat × Op M) : Prop :=
  OnStamped o op ∧ ∀ id, op.2 = .requeue id → id ∉ o.attempts

/-- What every regular operation keeps. -/
theorem Agrees.step (hcodec : codec.Lawful) (h : Agrees codec o) {op : Nat × Op M}
    (hop : Regular o op) : Agrees codec (o.step codec op) := by
  obtain ⟨now, op⟩ := op
  cases op with
  | «open» message conversationId payload ciphertextBytes =>
    exact h.file hcodec hop.1 now conversationId payload ciphertextBytes .pending
  | queue message conversationId => exact h.file hcodec hop.1 now conversationId [] 0 .queued
  | reopen id => exact h.reopen hcodec id
  | requeue id =>
    rw [Outbox.step, requeue, reopenAs, Std.ExtTreeMap.getElem?_eq_none (hop.2 id rfl)]
    exact h
  | activateQueue id => exact h.activateQueue hcodec id
  | settle id outcome onSent => exact h.settle hcodec now id outcome onSent

/-- A conversation starts without attempts. After every sequence of operations on messages that are
    stamped and not erased, and in which no send is queued again, each attempt shows the delivery of
    its message in the log, its JSON is this message, and a restart puts just this message back into
    a log, unless the send was pending and is then reported as interrupted. -/
theorem outbox_agrees (hcodec : codec.Lawful) (log : MessageLog M) (ops : List (Nat × Op M))
    (o : Outbox M) (hrun : Run.Runs (Outbox.step codec) Regular { log } ops o) (id : String)
    (attempt : OutboundAttempt) (hattempt : o.attempts[id]? = some attempt) :
    ∃ m, o.log.row id = some m ∧ deliveryStatus m = some attempt.deliveryStatus ∧
      (delivery m).deliveryError = attempt.deliveryError ∧
      (delivery m).retryCount = some attempt.retryCount ∧
      codec.parse attempt.messageJson = some m ∧
      (attempt.deliveryStatus ≠ .pending → ∀ rebuilt, MessageLog.replayAttempt codec.parse rebuilt
        attempt.toOutboundAttemptRecord =
          (rebuilt.1.upsert m, (id, attempt.toOutboundAttemptRecord) :: rebuilt.2)) := by
  have hstart : Agrees codec ({ log } : Outbox M) := by
    intro k a ha
    rw [Std.ExtTreeMap.getElem?_empty] at ha
    cases ha
  have hagrees := hrun.invariant (fun o op hop h => Agrees.step hcodec h hop) hstart
  obtain ⟨hid, -, m, hrow, -, hsent, hdelivery, hparse⟩ := hagrees id attempt hattempt
  have hmessageId : messageId m = some id := by simpa using List.find?_some hrow
  refine ⟨m, hrow, ?_, by rw [hdelivery]; rfl, by rw [hdelivery]; rfl, hparse, fun hnot rebuilt => ?_⟩
  · rw [deliveryStatus_eq, hdelivery]
    rfl
  · rw [MessageLog.replayAttempt, MessageLog.interrupted, if_neg hnot, hparse]
    have hfill : MessageLog.fillIn m attempt.messageId attempt.sentAtMs = m := by
      rw [MessageLog.fillIn, hmessageId, if_neg (Option.some_ne_none id),
        if_neg (Option.isSome_iff_ne_none.1 hsent)]
    dsimp only
    rw [hfill, ← hdelivery, setDelivery_delivery, hid]

end Outbox

/-! ## Direct messages as text -/

namespace Text

open Deletion

def bool : Format Bool :=
  Format.nat.through Bool.toNat (fun n => some (n == 1)) (by decide)

def scope : Format DeleteScope :=
  bool.through (· = .forMe) (fun b => some (if b then .forMe else .forEveryone))
    (fun x => by cases x <;> rfl)

def status : Format DeletionStatus :=
  Format.nat.through (fun | .pending => 0 | .confirmed => 1 | .rejected => 2)
    (fun n => [DeletionStatus.pending, .confirmed, .rejected][n]?) (fun x => by cases x <;> rfl)

def deliveryStatus : Format MessageDeliveryStatus :=
  Format.nat.through
    (fun | .pending => 0 | .queued => 1 | .sent => 2 | .delivered => 3 | .failed => 4)
    (fun n => [MessageDeliveryStatus.pending, .queued, .sent, .delivered, .failed][n]?)
    (fun x => by cases x <;> rfl)

def marker : Format DeletionMarker :=
  (scope.pair (status.pair Format.text.option)).through
    (fun m => (m.scope, m.status, m.administrator)) (fun (a, b, d) => some ⟨a, b, d⟩) fun _ => rfl

def origin : Format MessageOrigin :=
  (Format.text.pair (Format.text.pair (Format.text.pair (Format.text.pair
    (Format.text.pair Format.text.option))))).through
    (fun m => (m.conversation, m.id, m.contentHash, m.author, m.signature, m.ownership))
    (fun (a, b, d, e, f, g) => some ⟨a, b, d, e, f, g⟩) fun _ => rfl

def metadata : Format MessageMetadata :=
  (origin.option.pair (marker.option.pair (Format.text.option.pair (Format.text.option.pair
    (bool.pair (bool.pair bool.option)))))).through
    (fun m => (m.origin, m.deletion, m.deletionKey, m.personalCorrelation, m.canDeleteForEveryone,
      m.localOnly, m.isOwn))
    (fun (a, b, d, e, f, g, i) => some ⟨a, b, d, e, f, g, i⟩) fun _ => rfl

def delivery : Format MessageDeliveryMeta :=
  (deliveryStatus.option.pair (Format.text.option.pair (bool.option.pair Format.nat.option))).through
    (fun m => (m.deliveryStatus, m.deliveryError, m.retryable, m.retryCount))
    (fun (a, b, d, e) => some ⟨a, b, d, e⟩) fun _ => rfl

def voice : Format VoiceMeta :=
  (Format.nat.pair Format.text).through (fun m => (m.durationMs, m.peaksB64))
    (fun (a, b) => some ⟨a, b⟩) fun _ => rfl

def descriptor : Format AttachmentDescriptor :=
  (Format.text.pair (Format.text.pair (Format.text.pair (Format.text.pair (Format.nat.pair
    (Format.text.option.pair voice.option)))))).through
    (fun m => (m.attachmentId, m.contentHash, m.fileName, m.mime, m.totalSize, m.thumbnailB64,
      m.voice))
    (fun (a, b, d, e, f, g, i) => some ⟨a, b, d, e, f, g, i⟩) fun _ => rfl

def call : Format CallEvent :=
  (Format.text.pair (Format.nat.pair Format.text)).through
    (fun m => (m.kind, m.durationMs, m.callId)) (fun (a, b, d) => some ⟨a, b, d⟩) fun _ => rfl

/-- A direct message, field after field. -/
def chat : Format ChatMessage :=
  (metadata.option.pair (Format.text.pair (Format.text.pair (Format.text.option.pair
    (Format.nat.option.pair (descriptor.option.pair (call.option.pair (delivery.pair
      bool.option)))))))).through
    (fun m => (m.metadata, m.fromDevice, m.body, m.messageId, m.sentAtMs, m.attachment, m.callEvent,
      m.delivery, m.read))
    (fun (a, b, d, e, f, g, i, j, k) => some ⟨a, b, d, e, f, g, i, j, k⟩) fun _ => rfl

end Text

namespace Outbox

/-- Direct messages as text, and bytes as the characters with these numbers. -/
def plainCodec : OutboxCodec ChatMessage where
  toJson m := .ok (Text.chat.print m)
  parse := Text.chat.parse
  encode bytes := String.ofList (bytes.map fun b => Char.ofNat b.toNat)
  decode s := .ok (s.toList.map fun ch => UInt8.ofNat ch.toNat)

theorem plainCodec_lawful : plainCodec.Lawful where
  parse_toJson m := ⟨_, rfl, Text.chat.parse_print m⟩
  decode_encode payload := by
    have hbyte : ∀ b : UInt8, UInt8.ofNat (Char.ofNat b.toNat).toNat = b := by
      intro b
      have hlt := b.toNat_lt
      rw [Char.toNat_ofNat, if_pos (.inl (by omega)), UInt8.ofNat_toNat]
    rw [plainCodec]
    dsimp only
    rw [String.toList_ofList, List.map_map]
    exact congrArg Except.ok ((List.map_congr_left fun b _ => hbyte b).trans (List.map_id payload))

/-- A message that is stamped. -/
def greeting : ChatMessage where
  fromDevice := "alice"
  body := "hello"
  messageId := some "m1"
  sentAtMs := some 5

/-- The message is queued, its send fails, and it is opened again. -/
def sentTwice : List (Nat × Op ChatMessage) :=
  [(5, .queue greeting "bob"), (6, .settle "m1" (.error "no route") .retain), (7, .reopen "m1")]

/-- The greeting is pending in the log and in its attempt, with one retry. -/
theorem outbox_agrees_greeting :
    ∃ m, (sentTwice.foldl (step plainCodec) {}).log.row "m1" = some m ∧
      deliveryStatus m = some .pending ∧ (delivery m).retryCount = some 1 := by
  have hrun : Run.Runs (step plainCodec) Regular {} sentTwice
      (sentTwice.foldl (step plainCodec) {}) :=
    .cons ⟨⟨rfl, rfl, "m1", rfl, fun m hm => by cases hm⟩, fun id h => by cases h⟩
      (.cons ⟨trivial, fun id h => by cases h⟩ (.cons ⟨trivial, fun id h => by cases h⟩ (.nil _)))
  have hattempt : ∃ attempt, (sentTwice.foldl (step plainCodec) {}).attempts["m1"]? = some attempt ∧
      (attempt.deliveryStatus = .pending ∧ attempt.retryCount = 1 : Bool) = true :=
    (Option.any_eq_true _ _).1 (by decide +kernel)
  obtain ⟨attempt, hattempt, hvalues⟩ := hattempt
  obtain ⟨m, hrow, hstatus, -, hretry, -⟩ :=
    outbox_agrees plainCodec_lawful {} sentTwice _ hrun "m1" attempt hattempt
  rw [decide_eq_true_eq] at hvalues
  exact ⟨m, hrow, by rw [hstatus, hvalues.1], by rw [hretry, hvalues.2]⟩

/-- The message is queued, and queued again. -/
def queuedTwice : List (Nat × Op ChatMessage) := [(5, .queue greeting "bob"), (6, .requeue "m1")]

/-- A message that is queued again is `Queued` in its attempt and `Pending` in the log. -/
theorem requeue_disagrees :
    ¬ ∀ ops o, Run.Runs (step plainCodec) OnStamped {} ops o →
      ∀ (id : String) (attempt : OutboundAttempt), o.attempts[id]? = some attempt →
        ∃ m, o.log.row id = some m ∧ deliveryStatus m = some attempt.deliveryStatus := by
  intro h
  have hrun : Run.Runs (step plainCodec) OnStamped {} queuedTwice
      (queuedTwice.foldl (step plainCodec) {}) :=
    .cons ⟨rfl, rfl, "m1", rfl, fun m hm => by cases hm⟩ (.cons trivial (.nil _))
  have hattempt : ∃ attempt, (queuedTwice.foldl (step plainCodec) {}).attempts["m1"]? =
      some attempt ∧ decide (attempt.deliveryStatus = .queued) = true :=
    (Option.any_eq_true _ _).1 (by decide +kernel)
  have hlog : ((queuedTwice.foldl (step plainCodec) {}).log.row "m1").map deliveryStatus =
      some (some .pending) := by decide +kernel
  obtain ⟨attempt, hattempt, hqueued⟩ := hattempt
  obtain ⟨m, hrow, hstatus⟩ := h _ _ hrun "m1" attempt hattempt
  rw [hrow, Option.map_some, hstatus, of_decide_eq_true hqueued] at hlog
  cases hlog

end Outbox

end Mosh.Conversation
