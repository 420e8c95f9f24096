import Mosh.Conversation.Message
import Mosh.Library.Run

/-!
# The message log

Every conversation keeps its messages in a log (`conversation/message_log.rs`), which
also remembers the ids of the messages that were erased. A new message is appended
(`push`), or takes the place of the one with its id (`upsert`), and an erased one is
put in the place of the original (`replace`). A history that is read back is a log
too (`replay`).

* `erasure_is_permanent`: once a row with an id is erased, the rows with this id
  stay where they are, none is added, and what is erased of them stays so, as long
  as `replace` keeps ids and markers. An unmarked row that shares the id of an
  erased one is not erased with it: `erasure_of_a_copy`.
-/

namespace Mosh.Conversation

open ConversationMessage

/-- The log of a conversation. -/
structure MessageLog (M : Type) where
  messages : List M := []
  /-- The counter of the generator of ids. -/
  ids : Nat := 0
  erasedIds : Finset String := ∅
  revision : UInt64 := 0
  deriving DecidableEq

namespace MessageLog

variable {M : Type} [ConversationMessage M]

/-- A number with at least six digits. -/
def sixDigits (n : Nat) : String := String.ofList ((toString n).toList.leftpad 6 '0')

/-- The next id of the generator. -/
def nextId (log : MessageLog M) (sentAtMs : Nat) : String × MessageLog M :=
  (toString sentAtMs ++ "-" ++ sixDigits log.ids, { log with ids := log.ids + 1 })

/-- Gives a message its time and, if it has none, an id. The clock shows `now`, and the random
    part of the id is `occurrence`. -/
def stamp (log : MessageLog M) (now : Nat) (occurrence : String) (message : M) :
    M × MessageLog M :=
  let sentAt := (sentAtMs message).getD now
  let message := setSentAtMs message sentAt
  if ((messageId message).getD "").isEmpty then
    let (id, log) := log.nextId sentAt
    (setMessageId message (id ++ "-" ++ occurrence), log)
  else (message, log)

/-- Remembers the id of an erased message. -/
def rememberErasure (log : MessageLog M) (message : M) : MessageLog M :=
  match isErased message, messageId message with
  | true, some id => { log with erasedIds := insert id log.erasedIds }
  | _, _ => log

/-- Counts a change. -/
def touch (log : MessageLog M) : MessageLog M := { log with revision := log.revision + 1 }

/-- The id is one of an erased message. -/
def knowsErased (log : MessageLog M) (message : M) : Bool :=
  (messageId message).any (· ∈ log.erasedIds)

/-- Appends a message that is stamped. -/
def push (log : MessageLog M) (message : M) : MessageLog M :=
  let log := log.touch
  if log.knowsErased message then log
  else
    let log := log.rememberErasure message
    { log with messages := log.messages ++ [message] }

/-- Stamps a message and appends it. -/
def pushStamped (log : MessageLog M) (now : Nat) (occurrence : String) (message : M) :
    MessageLog M :=
  let (stamped, log) := log.stamp now occurrence message
  log.push stamped

/-- The index of the first message with an id. -/
def position (log : MessageLog M) (id : String) : Option Nat :=
  log.messages.findIdx? fun m => messageId m = some id

/-- Replaces the message with the same id, or appends it. -/
def upsert (log : MessageLog M) (message : M) : MessageLog M :=
  let log := log.touch.rememberErasure message
  match (messageId message).bind log.position with
  | some index =>
    if log.messages[index]?.any isErased then log
    else { log with messages := log.messages.set index message }
  | none => { log with messages := log.messages ++ [message] }

/-- Puts a message in the place of another one. -/
def replace (log : MessageLog M) (index : Nat) (message : M) : MessageLog M :=
  let log := log.touch.rememberErasure message
  { log with messages := log.messages.set index message }

/-- Changes the first message with an id, through the reference that `find_mut` returns. -/
def findMut (log : MessageLog M) (id : String) (change : M → M) : MessageLog M :=
  let log := log.touch
  match log.position id with
  | some index => { log with messages := log.messages.modify index change }
  | none => log

/-- The message is in the log. -/
def holdsCopyOf (log : MessageLog M) (candidate : M) : Bool :=
  log.messages.any fun existing =>
    author existing = author candidate &&
      match messageId existing, messageId candidate with
      | some left, some right =>
        if !left.isEmpty && !right.isEmpty then left = right
        else sentAtMs existing = sentAtMs candidate && body existing = body candidate
      | _, _ => sentAtMs existing = sentAtMs candidate && body existing = body candidate

/-- Records how a send went. -/
def markDelivery (log : MessageLog M) (id : String) (status : MessageDeliveryStatus)
    (error : Option String) (retryCount : Nat) : MessageLog M × Except String Unit :=
  (log.findMut id (setDelivery · (deliveryMeta status error retryCount)),
    if (log.position id).isSome then .ok () else .error ("message missing: " ++ id))

/-- The messages the user sees. -/
def visible (log : MessageLog M) : List M :=
  log.messages.filter fun m => !(deletion m).any (·.scope = .forMe)

/-! ## Replaying a history -/

/-- What a send that was under way when the app closed reports. -/
def interruptedSend : String := "app closed before the send completed"

/-- A stored message. -/
structure StoredMessage (M : Type) where
  conversationId : String
  sentAtMs : Nat
  messageId : String
  message : M
  attachmentManifest : Option AttachmentManifest := none
  previewManifest : Option AttachmentManifest := none
  deriving DecidableEq, Repr

/-- A stored send. -/
structure OutboundAttemptRecord where
  everPublished : Option Bool
  messageId : String
  sentAtMs : Nat
  messageJson : String
  deliveryStatus : MessageDeliveryStatus
  deliveryError : Option String
  retryCount : Nat
  deriving DecidableEq, Repr

/-- A message stored without its id or time takes them from its row. -/
def fillIn (message : M) (id : String) (sentAt : Nat) : M :=
  let message := if messageId message = none then setMessageId message id else message
  if sentAtMs message = none then setSentAtMs message sentAt else message

/-- A send that was pending failed. -/
def interrupted (attempt : OutboundAttemptRecord) : OutboundAttemptRecord :=
  if attempt.deliveryStatus = .pending then
    { attempt with deliveryStatus := .failed, deliveryError := some interruptedSend }
  else attempt

/-- Reads a stored send back, if its message can be parsed. -/
def replayAttempt (parse : String → Option M)
    (state : MessageLog M × List (String × OutboundAttemptRecord))
    (attempt : OutboundAttemptRecord) : MessageLog M × List (String × OutboundAttemptRecord) :=
  let attempt := interrupted attempt
  match parse attempt.messageJson with
  | none => state
  | some message =>
    let message := fillIn message attempt.messageId attempt.sentAtMs
    let message := setDelivery message
      (deliveryMeta attempt.deliveryStatus attempt.deliveryError attempt.retryCount)
    (state.1.upsert message, (attempt.messageId, attempt) :: state.2)

/-- Pending messages without a stored send. -/
def orphaned (log : MessageLog M) (attempts : List (String × OutboundAttemptRecord)) :
    List String :=
  (log.messages.filter fun m => deliveryStatus m = some .pending).filterMap messageId
    |>.filter fun id => (attempts.lookup id).isNone

/-- Fails the pending messages without a stored send. -/
def settleOrphanedSends (log : MessageLog M) (attempts : List (String × OutboundAttemptRecord)) :
    MessageLog M :=
  (log.orphaned attempts).foldl (fun log id => log.findMut id (setDelivery ·
    { deliveryStatus := some .failed, deliveryError := some interruptedSend,
      retryable := some false })) log

/-- The log of a stored history. -/
def replay (parse : String → Option M) (rows : List (StoredMessage M))
    (attempts : List OutboundAttemptRecord) : MessageLog M :=
  let log := rows.foldl (fun log row =>
    log.upsert (fillIn row.message row.messageId row.sentAtMs)) {}
  let (log, attempts) := attempts.foldl (replayAttempt parse) (log, [])
  log.settleOrphanedSends attempts

/-! ## Runs of a log -/

/-- The operations on a log. -/
inductive Op (M : Type)
  | push (message : M)
  | pushStamped (now : Nat) (occurrence : String) (message : M)
  | upsert (message : M)
  | deliver (id : String) (delivery : MessageDeliveryMeta)
  | replace (index : Nat) (message : M)

/-- The log after an operation. -/
def step (log : MessageLog M) : Op M → MessageLog M
  | .push message => log.push message
  | .pushStamped now occurrence message => log.pushStamped now occurrence message
  | .upsert message => log.upsert message
  | .deliver id delivery => log.findMut id (setDelivery · delivery)
  | .replace index message => log.replace index message

/-- A row is replaced by a row with the same id. -/
def KeepsId (log : MessageLog M) : Op M → Prop
  | .replace index message => ∃ old, log.messages[index]? = some old ∧
      messageId message = messageId old
  | _ => True

/-- A row is replaced by a row with the same id, and an erased one by an erased one. -/
def KeepsErasure (log : MessageLog M) : Op M → Prop
  | .replace index message => ∃ old, log.messages[index]? = some old ∧
      messageId message = messageId old ∧ (isErased old → isErased message)
  | _ => True

/-- An empty log, or the log of a stored history. -/
def Initial (log : MessageLog M) : Prop :=
  log = {} ∨ ∃ parse rows attempts, log = replay parse rows attempts

/-! ## What an operation does to the rows -/

/-- The ids of the erased rows are remembered. -/
def Remembers (log : MessageLog M) : Prop :=
  ∀ m ∈ log.messages, isErased m → ∀ id, messageId m = some id → id ∈ log.erasedIds

/-- What an operation does to the rows. -/
inductive Change (rows : List M) : List M → Prop
  | same : Change rows rows
  /-- A row is appended, if no row with its id is erased. -/
  | append (m : M)
      (fresh : ∀ row ∈ rows, isErased row → ∀ id, messageId row = some id → messageId m ≠ some id) :
      Change rows (rows ++ [m])
  /-- A row is replaced by a row with its id, and stays erased if it is. -/
  | set (index : Nat) (old m : M) (hold : rows[index]? = some old)
      (hid : messageId m = messageId old) (herased : isErased old → isErased m) :
      Change rows (rows.set index m)

variable {log log' : MessageLog M} {m : M}

omit [ConversationMessage M] in
@[simp]
theorem messages_touch (log : MessageLog M) : log.touch.messages = log.messages := rfl

omit [ConversationMessage M] in
@[simp]
theorem erasedIds_touch (log : MessageLog M) : log.touch.erasedIds = log.erasedIds := rfl

@[simp]
theorem messages_rememberErasure (log : MessageLog M) (m : M) :
    (log.rememberErasure m).messages = log.messages := by
  rw [rememberErasure]
  split <;> rfl

@[simp]
theorem messages_replace (log : MessageLog M) (index : Nat) (m : M) :
    (log.replace index m).messages = log.messages.set index m := by
  change (log.touch.rememberErasure m).messages.set index m = _
  rw [messages_rememberErasure, messages_touch]

@[simp]
theorem revision_replace (log : MessageLog M) (index : Nat) (m : M) :
    (log.replace index m).revision = log.revision + 1 := by
  change (log.touch.rememberErasure m).revision = _
  rw [rememberErasure]
  split <;> rfl

/-- No id is forgotten. -/
theorem subset_rememberErasure (log : MessageLog M) (m : M) :
    log.erasedIds ⊆ (log.rememberErasure m).erasedIds := by
  rw [rememberErasure]
  split
  · exact Finset.subset_insert _ _
  · exact Finset.Subset.refl _

/-- The id of an erased message is remembered. -/
theorem mem_rememberErasure (log : MessageLog M) {id : String} (he : isErased m)
    (hid : messageId m = some id) : id ∈ (log.rememberErasure m).erasedIds := by
  rw [rememberErasure, he, hid]
  exact Finset.mem_insert_self _ _

/-- A position is one of a row with the id. -/
theorem position_eq_some {id : String} {index : Nat} (h : log.position id = some index) :
    ∃ m, log.messages[index]? = some m ∧ messageId m = some id := by
  obtain ⟨hlt, hp, -⟩ := List.findIdx?_eq_some_iff_getElem.1 h
  exact ⟨log.messages[index], List.getElem?_eq_getElem hlt, by simpa using hp⟩

/-- Without a position there is no row with the id. -/
theorem position_eq_none {id : String} (h : log.position id = none) :
    ∀ m ∈ log.messages, messageId m ≠ some id := by
  intro m hm
  simpa using List.findIdx?_eq_none_iff.1 h m hm

namespace Remembers

/-- A log that holds no row remembers all. -/
theorem empty : Remembers ({} : MessageLog M) := fun _ hm => absurd hm List.not_mem_nil

/-- Another row, of which the id is remembered if it is erased. -/
theorem append (h : Remembers log) (hsub : log.erasedIds ⊆ log'.erasedIds)
    (hm : isErased m → ∀ id, messageId m = some id → id ∈ log'.erasedIds)
    (hrows : log'.messages = log.messages ++ [m]) : Remembers log' := by
  intro row hrow he id hid
  rw [hrows, List.mem_append, List.mem_singleton] at hrow
  obtain hrow | rfl := hrow
  · exact hsub (h row hrow he id hid)
  · exact hm he id hid

/-- A row in the place of another one. -/
theorem set (index : Nat) (h : Remembers log) (hsub : log.erasedIds ⊆ log'.erasedIds)
    (hm : isErased m → ∀ id, messageId m = some id → id ∈ log'.erasedIds)
    (hrows : log'.messages = log.messages.set index m) : Remembers log' := by
  intro row hrow he id hid
  rw [hrows] at hrow
  obtain hrow | rfl := List.mem_or_eq_of_mem_set hrow
  · exact hsub (h row hrow he id hid)
  · exact hm he id hid

end Remembers

/-- What appending a message does. -/
theorem push_change (h : Remembers log) (m : M) :
    Change log.messages (log.push m).messages ∧ Remembers (log.push m) := by
  rw [push]
  split
  · exact ⟨.same, h⟩
  · next hnew =>
    have hfresh : ∀ row ∈ log.messages, isErased row → ∀ id, messageId row = some id →
        messageId m ≠ some id := by
      intro row hrow he id hid hm
      have hmem := h row hrow he id hid
      simp [knowsErased, hm, hmem] at hnew
    refine ⟨?_, h.append (subset_rememberErasure log.touch m)
      (fun he _ hid => mem_rememberErasure log.touch he hid) (by simp)⟩
    change Change log.messages ((log.touch.rememberErasure m).messages ++ [m])
    rw [messages_rememberErasure]
    exact .append m hfresh

/-- What replacing a message by id, or appending it, does. -/
theorem upsert_change (h : Remembers log) (m : M) :
    Change log.messages (log.upsert m).messages ∧ Remembers (log.upsert m) := by
  have hsub := subset_rememberErasure log.touch m
  have hm : isErased m → ∀ id, messageId m = some id →
      id ∈ (log.touch.rememberErasure m).erasedIds :=
    fun he _ hid => mem_rememberErasure log.touch he hid
  rw [upsert]
  split
  · next index hindex =>
    obtain ⟨id, hid, hpos⟩ := Option.bind_eq_some_iff.1 hindex
    obtain ⟨old, hold, holdId⟩ := position_eq_some hpos
    split
    · rw [messages_rememberErasure]
      exact ⟨.same, fun row hrow he id hid => hsub (h row (by simpa using hrow) he id hid)⟩
    · next hunmarked =>
      refine ⟨?_, h.set index hsub hm (by simp)⟩
      rw [hold] at hunmarked
      rw [messages_rememberErasure] at hold ⊢
      exact .set index old m hold (hid.trans holdId.symm) fun he => absurd he hunmarked
  · next hnone =>
    refine ⟨?_, h.append hsub hm (by simp)⟩
    rw [messages_rememberErasure]
    refine .append m fun row hrow _ id hid hmid => ?_
    rw [hmid, Option.bind_some] at hnone
    exact position_eq_none hnone row (by simpa using hrow) hid

/-- What replacing a message at an index does. -/
theorem replace_change {index : Nat} (h : Remembers log)
    (hkeeps : KeepsErasure log (.replace index m)) :
    Change log.messages (log.replace index m).messages ∧ Remembers (log.replace index m) := by
  obtain ⟨old, hold, hid, he⟩ := hkeeps
  refine ⟨?_, h.set index (subset_rememberErasure log.touch m)
    (fun he _ hid => mem_rememberErasure log.touch he hid) (messages_replace log index m)⟩
  rw [messages_replace]
  exact .set index old m hold hid he

/-- What a delivery does. -/
theorem deliver_change (h : Remembers log) (id : String) (d : MessageDeliveryMeta) :
    Change log.messages (log.findMut id (setDelivery · d)).messages ∧
      Remembers (log.findMut id (setDelivery · d)) := by
  rw [findMut]
  split
  · next index hindex =>
    obtain ⟨old, hold, -⟩ := position_eq_some hindex
    have hset : log.messages.modify index (setDelivery · d) =
        log.messages.set index (setDelivery old d) := by
      rw [List.modify_eq_set_getElem?, show log.messages[index]? = some old from hold]
      rfl
    refine ⟨?_, h.set index (Finset.Subset.refl _) ?_ hset⟩
    · rw [messages_touch, hset]
      exact .set index old _ hold (messageId_setDelivery _ _) fun he => by simpa using he
    · intro he id hid
      rw [isErased_setDelivery] at he
      rw [messageId_setDelivery] at hid
      exact h old (List.mem_of_getElem? hold) he id hid
  · exact ⟨.same, h⟩

/-- What any operation does. -/
theorem step_change (h : Remembers log) (op : Op M) (hop : KeepsErasure log op) :
    Change log.messages (log.step op).messages ∧ Remembers (log.step op) := by
  cases op with
  | push m => exact push_change h m
  | pushStamped now occurrence m =>
    simp only [step, pushStamped]
    have hstamp : ∃ stamped ids, log.stamp now occurrence m = (stamped, { log with ids }) := by
      rw [stamp]
      split
      · exact ⟨_, _, rfl⟩
      · exact ⟨_, _, rfl⟩
    obtain ⟨stamped, ids, hstamp⟩ := hstamp
    rw [hstamp]
    exact push_change (show Remembers { log with ids } from h) stamped
  | upsert m => exact upsert_change h m
  | deliver id d => exact deliver_change h id d
  | replace index m => exact replace_change h hop

/-- A stored history is read back into a log that remembers its erased ids. -/
theorem remembers_replay (parse : String → Option M) (rows : List (StoredMessage M))
    (attempts : List OutboundAttemptRecord) : Remembers (replay parse rows attempts) := by
  have hrows : Remembers (rows.foldl (fun log row =>
      log.upsert (fillIn row.message row.messageId row.sentAtMs)) ({} : MessageLog M)) :=
    List.foldlRecOn rows _ Remembers.empty fun _ h _ _ => (upsert_change h _).2
  have hattempts : ∀ state : MessageLog M × List (String × OutboundAttemptRecord),
      Remembers state.1 → Remembers (attempts.foldl (replayAttempt parse) state).1 := by
    intro state hstate
    refine List.foldlRecOn (motive := fun state : _ × _ => Remembers state.1) attempts _ hstate ?_
    intro state h attempt _
    rw [replayAttempt]
    split
    · exact h
    · exact (upsert_change h _).2
  exact List.foldlRecOn _ _ (hattempts _ hrows) fun _ h id _ => (deliver_change h id _).2

/-- A log in use remembers its erased ids. -/
theorem Initial.remembers (h : Initial log) : Remembers log := by
  obtain rfl | ⟨parse, rows, attempts, rfl⟩ := h
  · exact Remembers.empty
  · exact remembers_replay parse rows attempts

/-! ## Erasure is permanent -/

/-- The rows with an id stay where they are: the erased ones stay erased, and no other row
    takes the id. -/
structure Keeps (id : String) (before after : List M) : Prop where
  erased : ∀ (j : Nat) (m : M), before[j]? = some m → messageId m = some id → isErased m →
    ∃ m', after[j]? = some m' ∧ messageId m' = some id ∧ isErased m'
  back : ∀ (j : Nat) (m' : M), after[j]? = some m' → messageId m' = some id →
    ∃ m, before[j]? = some m ∧ messageId m = some id ∧ (isErased m → isErased m')

namespace Keeps

variable {id : String} {rows before after : List M}

/-- Rows that do not change are kept. -/
theorem refl (rows : List M) : Keeps id rows rows :=
  ⟨fun _ m hm hid he => ⟨m, hm, hid, he⟩, fun _ m hm hid => ⟨m, hm, hid, fun he => he⟩⟩

/-- Rows are kept step by step. -/
theorem trans (h₁ : Keeps id rows before) (h₂ : Keeps id before after) : Keeps id rows after := by
  refine ⟨?_, ?_⟩
  · intro j m hm hid he
    obtain ⟨m', hm', hid', he'⟩ := h₁.erased j m hm hid he
    exact h₂.erased j m' hm' hid' he'
  · intro j m'' hm'' hid''
    obtain ⟨m', hm', hid', he'⟩ := h₂.back j m'' hm'' hid''
    obtain ⟨m, hm, hid, he⟩ := h₁.back j m' hm' hid'
    exact ⟨m, hm, hid, fun h => he' (he h)⟩

/-- An operation keeps the rows with an id of which one is erased. -/
theorem change (h : Change before after)
    (herased : ∃ m ∈ before, messageId m = some id ∧ isErased m) : Keeps id before after := by
  cases h with
  | same => exact refl before
  | append m fresh =>
    obtain ⟨row, hrow, hrowId, hrowErased⟩ := herased
    have hm : messageId m ≠ some id := fresh row hrow hrowErased id hrowId
    refine ⟨fun j r hr hid he => ⟨r, ?_, hid, he⟩, fun j r hr hid => ⟨r, ?_, hid, fun he => he⟩⟩
    · obtain ⟨hlt, -⟩ := List.getElem?_eq_some_iff.1 hr
      rwa [List.getElem?_append_left hlt]
    · -- a row behind the old ones would be the new one, which has another id
      obtain hlt | hge := Nat.lt_or_ge j before.length
      · rwa [List.getElem?_append_left hlt] at hr
      · rw [List.getElem?_append_right hge] at hr
        rw [List.mem_singleton.1 (List.mem_of_getElem? hr)] at hid
        exact absurd hid hm
  | set index old m hold hid herased =>
    have hlt : index < before.length := (List.getElem?_eq_some_iff.1 hold).1
    refine ⟨fun j r hr hrid he => ?_, fun j r hr hrid => ?_⟩
    · by_cases hj : index = j
      · subst hj
        obtain rfl := Option.some.inj (hold.symm.trans hr)
        exact ⟨m, List.getElem?_set_self hlt, hid.trans hrid, herased he⟩
      · exact ⟨r, by rwa [List.getElem?_set_ne hj], hrid, he⟩
    · by_cases hj : index = j
      · subst hj
        obtain rfl := Option.some.inj ((List.getElem?_set_self hlt).symm.trans hr)
        exact ⟨old, hold, hid.symm.trans hrid, herased⟩
      · rw [List.getElem?_set_ne hj] at hr
        exact ⟨r, hr, hrid, fun he => he⟩

/-- The erased row is still there. -/
theorem exists_erased (h : Keeps id before after)
    (herased : ∃ m ∈ before, messageId m = some id ∧ isErased m) :
    ∃ m ∈ after, messageId m = some id ∧ isErased m := by
  obtain ⟨m, hm, hid, he⟩ := herased
  obtain ⟨j, hj⟩ := List.mem_iff_getElem?.1 hm
  obtain ⟨m', hm', hid', he'⟩ := h.erased j m hj hid he
  exact ⟨m', List.mem_of_getElem? hm', hid', he'⟩

omit [ConversationMessage M] in
/-- Rows that come from rows at the same places are not more. -/
theorem countP_le (p : M → Bool) (h : ∀ (j : Nat) (m' : M), after[j]? = some m' → p m' →
    ∃ m, before[j]? = some m ∧ p m) : after.countP p ≤ before.countP p := by
  induction after generalizing before with
  | nil => exact Nat.zero_le _
  | cons x xs ih =>
    cases before with
    | nil =>
      rw [List.countP_eq_zero.2, List.countP_nil]
      intro m hm hp
      obtain ⟨j, hj⟩ := List.mem_iff_getElem?.1 hm
      obtain ⟨r, hr, -⟩ := h j m hj hp
      cases hr
    | cons y ys =>
      have hxs := ih fun j m' hm' hp => h (j + 1) m' hm' hp
      rw [List.countP_cons, List.countP_cons]
      refine Nat.add_le_add hxs ?_
      split
      · next hx =>
        obtain ⟨r, hr, hp⟩ := h 0 x rfl hx
        obtain rfl := Option.some.inj hr
        rw [if_pos hp]
      · exact Nat.zero_le _

end Keeps

/-- How many rows have an id. -/
def rowCount (log : MessageLog M) (id : String) : Nat :=
  log.messages.countP fun m => messageId m = some id

/-- Once a row with an id is erased, no row is added that has this id, the erased ones stay
    erased, and an unmarked row with this id is one that was unmarked before: if there was none,
    there is none. -/
theorem erasure_is_permanent {start : MessageLog M} {ops ops' : List (Op M)} (id : String)
    (hstart : Initial start) (h : Run.Runs step KeepsErasure start ops log)
    (h' : Run.Runs step KeepsErasure log ops' log')
    (herased : ∃ m ∈ log.messages, messageId m = some id ∧ isErased m) :
    log'.rowCount id ≤ log.rowCount id ∧
      (∀ (j : Nat) (m : M), log.messages[j]? = some m → messageId m = some id → isErased m →
        ∃ m', log'.messages[j]? = some m' ∧ messageId m' = some id ∧ isErased m') ∧
      (∀ (j : Nat) (m' : M), log'.messages[j]? = some m' → messageId m' = some id → ¬isErased m' →
        ∃ m, log.messages[j]? = some m ∧ messageId m = some id ∧ ¬isErased m) ∧
      ((∀ m ∈ log.messages, messageId m = some id → isErased m) →
        ∀ m' ∈ log'.messages, messageId m' = some id → isErased m') := by
  have hremembers : Remembers log :=
    h.invariant (fun log op hop hr => (step_change hr op hop).2) hstart.remembers
  obtain ⟨-, hkeeps⟩ : Remembers log' ∧ Keeps id log.messages log'.messages :=
    h'.invariant (P := fun later => Remembers later ∧ Keeps id log.messages later.messages)
      (fun later op hop hl => by
        obtain ⟨hchange, hr⟩ := step_change hl.1 op hop
        exact ⟨hr, hl.2.trans (.change hchange (hl.2.exists_erased herased))⟩)
      ⟨hremembers, .refl _⟩
  refine ⟨?_, hkeeps.erased, ?_, ?_⟩
  · refine Keeps.countP_le _ fun j m' hm' hid => ?_
    obtain ⟨m, hm, hid, -⟩ := hkeeps.back j m' hm' (by simpa using hid)
    exact ⟨m, hm, by simpa using hid⟩
  · intro j m' hm' hid hne
    obtain ⟨m, hm, hmid, he⟩ := hkeeps.back j m' hm' hid
    exact ⟨m, hm, hmid, fun h => hne (he h)⟩
  · intro hall m' hm' hid
    obtain ⟨j, hj⟩ := List.mem_iff_getElem?.1 hm'
    obtain ⟨m, hm, hmid, he⟩ := hkeeps.back j m' hj hid
    exact he (hall m (List.mem_of_getElem? hm) hmid)

/-! ### A message and its copy -/

/-- A message. -/
def secret : ChatMessage := { fromDevice := "alice", body := "secret", messageId := some "m" }

/-- What is left of it when it is deleted. -/
def tombstone : ChatMessage :=
  { fromDevice := "alice", body := "", messageId := some "m",
    metadata := some { deletion := some ⟨.forMe, .confirmed, none⟩ } }

/-- If a message is in the log twice, erasing one of them leaves the other; and an erased message
    that is replaced by an unmarked one is not erased any more. -/
theorem erasure_of_a_copy :
    (∃ log : MessageLog ChatMessage,
      Run.Runs step KeepsId {} [.push secret, .push secret, .replace 0 tombstone] log ∧
        log.messages = [tombstone, secret]) ∧
    (∃ log : MessageLog ChatMessage,
      Run.Runs step KeepsId {} [.push tombstone] log ∧ log.messages = [tombstone] ∧
        ∃ log', Run.Runs step KeepsId log [.replace 0 secret] log' ∧ log'.messages = [secret]) ∧
    messageId tombstone = messageId secret ∧ isErased tombstone ∧ ¬isErased secret := by
  refine ⟨⟨_, .cons trivial (.cons trivial (.cons ⟨secret, rfl, rfl⟩ (.nil _))), rfl⟩,
    ⟨_, .cons trivial (.nil _), rfl, _, .cons ⟨tombstone, rfl, rfl⟩ (.nil _), rfl⟩, rfl, rfl, ?_⟩
  decide

/-- A log in which the message is deleted. -/
def deleted : MessageLog ChatMessage := (push {} secret).replace 0 tombstone

/-- A message that is deleted cannot be pushed or upserted again. -/
theorem erasure_is_permanent_secret :
    Run.Runs step KeepsErasure {} [.push secret, .replace 0 tombstone] deleted ∧
      Run.Runs step KeepsErasure deleted [.push secret, .upsert secret]
        ((deleted.push secret).upsert secret) ∧
      ∀ m ∈ ((deleted.push secret).upsert secret).messages, messageId m = some "m" →
        isErased m := by
  have h : Run.Runs step KeepsErasure {} [.push secret, .replace 0 tombstone] deleted :=
    .cons trivial (.cons ⟨secret, rfl, rfl, by decide⟩ (.nil _))
  have h' : Run.Runs step KeepsErasure deleted [.push secret, .upsert secret]
      ((deleted.push secret).upsert secret) := .cons trivial (.cons trivial (.nil _))
  exact ⟨h, h', (erasure_is_permanent "m" (.inl rfl) h h' ⟨tombstone, .head _, rfl, rfl⟩).2.2.2
    (by decide)⟩

end MessageLog

end Mosh.Conversation
