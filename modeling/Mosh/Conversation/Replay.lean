import Mosh.Conversation.Outbound
import Mosh.Library.Upsert

/-!
# Reading a history back

At a restart the rows of a conversation and its stored sends are read back into a log
(`conversation/history.rs`). The rows come first; a send that can be parsed then puts its own
message in the place of its row, with the state of the send; what is still pending after that has
failed.

* `History.replay`: a history is read into a log, with the attempts that are kept;
* `replay_log`: read into an empty log, this is the log of `MessageLog.replay`;
* `messages_replay`: each row shows one message (`shown`), in the order of the rows;
* `replay_replay`: reading the same history again changes nothing.
-/

namespace Mosh.Conversation

open ConversationMessage DeliveredMessage
open MessageLog (StoredMessage OutboundAttemptRecord fillIn interruptedSend)

/-- A send that was pending failed. -/
def OutboundAttempt.interrupted (attempt : OutboundAttempt) : OutboundAttempt :=
  { attempt with toOutboundAttemptRecord := MessageLog.interrupted attempt.toOutboundAttemptRecord }

/-- What was read of a history: the log, the attempts, and how much of the log is stored. -/
structure Restored (M : Type) where
  log : MessageLog M
  attempts : Std.ExtTreeMap String OutboundAttempt compare
  persistedCount : Nat

/-- The delivery of a pending message without a stored send. -/
def orphanedDelivery : MessageDeliveryMeta where
  deliveryStatus := some .failed
  deliveryError := some interruptedSend
  retryable := some false

section Code

variable {M : Type} [ConversationMessage M] (parse : String → Option M)

/-- The message of a row. -/
def rowMessage (row : StoredMessage M) : M := fillIn row.message row.messageId row.sentAtMs

/-- The message of a stored send, if it can be parsed. -/
def attemptMessage (attempt : OutboundAttempt) : Option M :=
  (parse attempt.messageJson).map fun message =>
    setDelivery (fillIn message attempt.messageId attempt.sentAtMs)
      (deliveryMeta attempt.deliveryStatus attempt.deliveryError attempt.retryCount)

/-- Reads a stored send back, if its message can be parsed. -/
def replaySend (state : MessageLog M × Std.ExtTreeMap String OutboundAttempt compare)
    (attempt : OutboundAttempt) : MessageLog M × Std.ExtTreeMap String OutboundAttempt compare :=
  match attemptMessage parse attempt.interrupted with
  | none => state
  | some message =>
    (state.1.upsert message, state.2.insert attempt.messageId attempt.interrupted)

/-- Pending messages without a stored send. -/
def orphanedSends (log : MessageLog M) (attempts : Std.ExtTreeMap String OutboundAttempt compare) :
    List String :=
  (log.messages.filter fun m => deliveryStatus m = some .pending).filterMap messageId
    |>.filter fun id => attempts[id]?.isNone

/-- Fails the pending messages without a stored send. -/
def settleOrphanedSends (log : MessageLog M)
    (attempts : Std.ExtTreeMap String OutboundAttempt compare) : MessageLog M :=
  (orphanedSends log attempts).foldl (fun log id =>
    log.findMut id (setDelivery · orphanedDelivery)) log

/-- Reads rows and stored sends into a log. -/
def History.replay (log : MessageLog M) (attempts : Std.ExtTreeMap String OutboundAttempt compare)
    (rows : List (StoredMessage M)) (sends : List OutboundAttempt) : Restored M :=
  let log := rows.foldl (fun log row => log.upsert (rowMessage row)) log
  let (log, attempts) := sends.foldl (replaySend parse) (log, attempts)
  let log := settleOrphanedSends log attempts
  ⟨log, attempts, log.messages.length⟩

end Code

/-! ## The log -/

section Log

variable {M : Type} [ConversationMessage M] {parse : String → Option M}

/-- A send is read back in the same way without its payload. -/
theorem replaySend_log (parse : String → Option M) (log : MessageLog M)
    {attempts : Std.ExtTreeMap String OutboundAttempt compare}
    {known : List (String × OutboundAttemptRecord)}
    (h : ∀ id : String, known.lookup id = attempts[id]?.map (·.toOutboundAttemptRecord))
    (send : OutboundAttempt) :
    (replaySend parse (log, attempts) send).1 =
      (MessageLog.replayAttempt parse (log, known) send.toOutboundAttemptRecord).1 ∧
    ∀ id : String, (MessageLog.replayAttempt parse (log, known)
      send.toOutboundAttemptRecord).2.lookup id =
        (replaySend parse (log, attempts) send).2[id]?.map (·.toOutboundAttemptRecord) := by
  have hjson : send.interrupted.messageJson =
      (MessageLog.interrupted send.toOutboundAttemptRecord).messageJson := rfl
  rw [replaySend, MessageLog.replayAttempt, attemptMessage, hjson]
  rcases parse (MessageLog.interrupted send.toOutboundAttemptRecord).messageJson with - | message
  · exact ⟨rfl, h⟩
  · refine ⟨rfl, fun id => ?_⟩
    have hid : (MessageLog.interrupted send.toOutboundAttemptRecord).messageId = send.messageId := by
      rw [MessageLog.interrupted]
      split <;> rfl
    dsimp only [Option.map_some]
    rw [List.lookup_cons, hid, Table.getElem?_insert]
    by_cases heq : send.messageId = id
    · rw [if_pos heq, heq, beq_self_eq_true]
      rfl
    · rw [if_neg heq, beq_eq_false_iff_ne.2 (Ne.symm heq)]
      exact h id

/-- Read into an empty log, the history gives the log that it gives without the payloads of the
    sends. -/
theorem replay_log (rows : List (StoredMessage M)) (sends : List OutboundAttempt) :
    (History.replay parse {} ∅ rows sends).log =
      MessageLog.replay parse rows (sends.map (·.toOutboundAttemptRecord)) := by
  have hfold : ∀ (log : MessageLog M) (attempts : Std.ExtTreeMap String OutboundAttempt compare)
      (known : List (String × OutboundAttemptRecord)),
      (∀ id : String, known.lookup id = attempts[id]?.map (·.toOutboundAttemptRecord)) →
      settleOrphanedSends (sends.foldl (replaySend parse) (log, attempts)).1
        (sends.foldl (replaySend parse) (log, attempts)).2 =
      ((sends.map (·.toOutboundAttemptRecord)).foldl (MessageLog.replayAttempt parse)
        (log, known)).1.settleOrphanedSends
        ((sends.map (·.toOutboundAttemptRecord)).foldl (MessageLog.replayAttempt parse)
          (log, known)).2 := by
    induction sends with
    | nil =>
      intro log attempts known h
      have horphaned : orphanedSends log attempts = log.orphaned known := by
        rw [orphanedSends, MessageLog.orphaned]
        refine List.filter_congr fun id _ => ?_
        rw [h, Option.isNone_map]
      change settleOrphanedSends log attempts = log.settleOrphanedSends known
      rw [settleOrphanedSends, horphaned]
      rfl
    | cons send sends ih =>
      intro log attempts known h
      obtain ⟨hlog, hknown⟩ := replaySend_log parse log h send
      rw [List.foldl_cons, List.map_cons, List.foldl_cons]
      rcases hnext : replaySend parse (log, attempts) send with ⟨log', attempts'⟩
      rcases hnext' : MessageLog.replayAttempt parse (log, known) send.toOutboundAttemptRecord
        with ⟨log'', known'⟩
      rw [hnext, hnext'] at hlog
      rw [hnext, hnext'] at hknown
      obtain rfl : log' = log'' := hlog
      exact ih log' attempts' known' hknown
  exact hfold _ ∅ [] fun id => by simp

/-! ## What comes in -/

/-- A message that comes in, in the list of the messages. -/
theorem messages_upsert (log : MessageLog M) {m : M} {id : String} (hid : messageId m = some id) :
    (log.upsert m).messages = Upsert.upsert messageId isErased m log.messages := by
  have hmessages : (log.touch.rememberErasure m).messages = log.messages :=
    MessageLog.messages_rememberErasure log.touch m
  have hposition : (log.touch.rememberErasure m).position id = log.position id := by
    rw [MessageLog.position, MessageLog.position, hmessages]
  rw [MessageLog.upsert, hid, Option.bind_some, hposition]
  rcases hindex : log.position id with - | index
  · dsimp only
    rw [hmessages, Upsert.upsert_of_not_mem]
    intro hmem
    obtain ⟨m', hm', heq⟩ := List.mem_map.1 hmem
    exact MessageLog.position_eq_none hindex m' hm' (heq.trans hid)
  · obtain ⟨before, old, after, hsplit, hlength, hbefore, hold⟩ := MessageLog.position_split hindex
    have hget : log.messages[index]? = some old := by
      rw [hsplit, ← hlength, List.getElem?_append_right le_rfl, Nat.sub_self, List.getElem?_cons_zero]
    have hset : log.messages.set index m = before ++ m :: after := by
      rw [hsplit, ← hlength, List.set_append_right _ _ le_rfl, Nat.sub_self, List.set_cons_zero]
    -- the messages before the one with the id have other ids
    have hupsert : ∀ l : List M, (∀ m' ∈ l, messageId m' ≠ some id) →
        Upsert.upsert messageId isErased m (l ++ old :: after) =
          l ++ (if isErased old then old else m) :: after := by
      intro l hl
      induction l with
      | nil => rw [List.nil_append, Upsert.upsert, if_pos (hold.trans hid.symm), List.nil_append]
      | cons m' l ih =>
        rw [List.cons_append, Upsert.upsert, hid, if_neg (hl m' List.mem_cons_self),
          ih fun m'' hm'' => hl m'' (List.mem_cons_of_mem _ hm''), List.cons_append]
    dsimp only
    rw [hmessages, hget, Option.any_some, hsplit, hupsert before hbefore]
    split
    · exact hmessages.trans hsplit
    · dsimp only
      rw [← hsplit, hset]

/-- The ids of erased messages after one comes in. -/
theorem erasedIds_upsert (log : MessageLog M) (m : M) {id : String} (hid : messageId m = some id) :
    (log.upsert m).erasedIds = if isErased m then insert id log.erasedIds else log.erasedIds := by
  have hremember : (log.touch.rememberErasure m).erasedIds =
      if isErased m then insert id log.erasedIds else log.erasedIds := by
    rw [MessageLog.rememberErasure, hid]
    cases isErased m <;> rfl
  rw [MessageLog.upsert]
  rcases (messageId m).bind (log.touch.rememberErasure m).position with - | index
  · exact hremember
  · dsimp only
    split <;> exact hremember

/-- A message is changed, in the list of the messages. -/
theorem messages_findMut {log : MessageLog M} (hnodup : (log.messages.map messageId).Nodup)
    (id : String) (change : M → M) : (log.findMut id change).messages =
      Upsert.changeAt messageId (some id) change log.messages := by
  rw [MessageLog.findMut, Upsert.changeAt]
  rcases hindex : log.position id with - | index
  · rw [show log.touch.position id = none from hindex]
    dsimp only
    refine ((List.map_congr_left fun m hm => ?_).trans (List.map_id _)).symm
    exact if_neg (MessageLog.position_eq_none hindex m hm)
  · obtain ⟨before, old, after, hsplit, hlength, hbefore, hold⟩ := MessageLog.position_split hindex
    rw [show log.touch.position id = some index from hindex]
    dsimp only
    have hget : log.messages[index]? = some old := by
      rw [hsplit, ← hlength, List.getElem?_append_right le_rfl, Nat.sub_self, List.getElem?_cons_zero]
    rw [MessageLog.messages_touch, List.modify_eq_set_getElem?, hget]
    -- no message after the one with the id has it either
    have hafter : ∀ m ∈ after, messageId m ≠ some id := by
      intro m hm heq
      rw [hsplit, List.map_append, List.map_cons, hold, ← heq] at hnodup
      exact (List.nodup_cons.1 (List.nodup_append.1 hnodup).2.1).1 (List.mem_map_of_mem hm)
    have hsame : ∀ l : List M, (∀ m ∈ l, messageId m ≠ some id) →
        (l.map fun m => if messageId m = some id then change m else m) = l := fun l hl =>
      (List.map_congr_left fun m hm => if_neg (hl m hm)).trans (List.map_id l)
    change log.messages.set index (change old) = _
    rw [hsplit, ← hlength, List.set_append_right _ _ le_rfl, Nat.sub_self, List.set_cons_zero,
      List.map_append, List.map_cons, hsame before hbefore, hsame after hafter, if_pos hold]

/-- What becomes of a message whose send is not stored. -/
def settled (attempts : Std.ExtTreeMap String OutboundAttempt compare) (m : M) : M :=
  if deliveryStatus m = some .pending ∧ (messageId m).any (fun id => attempts[id]?.isNone) = true then
    setDelivery m orphanedDelivery
  else m

@[simp]
theorem messageId_settled (attempts : Std.ExtTreeMap String OutboundAttempt compare) (m : M) :
    messageId (settled attempts m) = messageId m := by
  rw [settled]
  split
  · exact messageId_setDelivery m _
  · rfl

@[simp]
theorem isErased_settled (attempts : Std.ExtTreeMap String OutboundAttempt compare) (m : M) :
    isErased (settled attempts m) = isErased m := by
  rw [settled]
  split
  · exact isErased_setDelivery m _
  · rfl

/-- A message is orphaned if it is pending and its send is not stored. -/
theorem mem_orphanedSends {log : MessageLog M}
    {attempts : Std.ExtTreeMap String OutboundAttempt compare} (id : String) :
    id ∈ orphanedSends log attempts ↔ ∃ m ∈ log.messages, deliveryStatus m = some .pending ∧
      messageId m = some id ∧ attempts[id]?.isNone = true := by
  rw [orphanedSends, List.mem_filter, List.mem_filterMap]
  constructor
  · rintro ⟨⟨m, hm, hid⟩, hnone⟩
    obtain ⟨hm, hpending⟩ := List.mem_filter.1 hm
    exact ⟨m, hm, of_decide_eq_true hpending, hid, hnone⟩
  · rintro ⟨m, hm, hpending, hid, hnone⟩
    exact ⟨⟨m, List.mem_filter.2 ⟨hm, decide_eq_true hpending⟩, hid⟩, hnone⟩

/-- The ids of messages with different ids are different. -/
theorem nodup_filterMap {α β : Type} {f : α → Option β} {l : List α} (h : (l.map f).Nodup) :
    (l.filterMap f).Nodup := by
  have hsublist : ((l.filterMap f).map some).Sublist (l.map f) := by
    induction l with
    | nil => exact List.Sublist.refl _
    | cons a l ih =>
      rw [List.map_cons, List.nodup_cons] at h
      rw [List.filterMap_cons, List.map_cons]
      rcases f a with - | b
      · exact (ih h.2).cons _
      · exact (ih h.2).cons_cons _
  exact List.Nodup.of_map some (hsublist.nodup h)

/-- All pending messages without a stored send fail, and the others stay. -/
theorem messages_settleOrphanedSends {log : MessageLog M}
    (hnodup : (log.messages.map messageId).Nodup)
    (attempts : Std.ExtTreeMap String OutboundAttempt compare) :
    (settleOrphanedSends log attempts).messages = log.messages.map (settled attempts) := by
  have hfold : ∀ (ids : List String) (log : MessageLog M), (log.messages.map messageId).Nodup →
      (ids.foldl (fun log id => log.findMut id (setDelivery · orphanedDelivery)) log).messages =
        (ids.map some).foldl (fun l k =>
          Upsert.changeAt messageId k (setDelivery · orphanedDelivery) l) log.messages := by
    intro ids
    induction ids with
    | nil => exact fun _ _ => rfl
    | cons id ids ih =>
      intro log hnodup
      have hmessages := messages_findMut hnodup id (setDelivery · orphanedDelivery)
      have hids : (log.findMut id (setDelivery · orphanedDelivery)).messages.map messageId =
          log.messages.map messageId := by
        rw [hmessages, Upsert.changeAt, List.map_map]
        refine List.map_congr_left fun m _ => ?_
        rw [Function.comp_apply]
        split
        · exact messageId_setDelivery m _
        · rfl
      rw [List.foldl_cons, ih _ (by rwa [hids]), hmessages, List.map_cons, List.foldl_cons]
  have horphaned : (orphanedSends log attempts).Nodup :=
    (nodup_filterMap (((List.filter_sublist).map messageId).nodup hnodup)).filter _
  rw [settleOrphanedSends, hfold _ log hnodup, Upsert.foldl_changeAt
    (fun m => messageId_setDelivery m _) (horphaned.map (Option.some_injective _))]
  refine List.map_congr_left fun m hm => ?_
  have hiff : messageId m ∈ (orphanedSends log attempts).map some ↔
      deliveryStatus m = some .pending ∧
        (messageId m).any (fun id => attempts[id]?.isNone) = true := by
    rw [List.mem_map]
    constructor
    · rintro ⟨id, horphan, heq⟩
      obtain ⟨m', hm', hpending, hid, hnone⟩ := (mem_orphanedSends id).1 horphan
      obtain rfl := List.inj_on_of_nodup_map hnodup hm' hm (hid.trans heq)
      exact ⟨hpending, by rw [hid, Option.any_some, hnone]⟩
    · rintro ⟨hpending, hany⟩
      rcases hid : messageId m with - | id
      · rw [hid] at hany
        cases hany
      · rw [hid, Option.any_some] at hany
        exact ⟨id, (mem_orphanedSends id).2 ⟨m, hm, hpending, hid, hany⟩, rfl⟩
  rw [settled]
  by_cases hmem : messageId m ∈ (orphanedSends log attempts).map some
  · rw [if_pos hmem, if_pos (hiff.1 hmem)]
  · rw [if_neg hmem, if_neg fun h => hmem (hiff.2 h)]

/-! ## What is read -/

/-- The messages of the stored sends. -/
def sendMessages (parse : String → Option M) (sends : List OutboundAttempt) : List M :=
  sends.filterMap fun send => attemptMessage parse send.interrupted

/-- A stored send is kept if its message can be parsed. -/
def keepSend (parse : String → Option M) (attempts : Std.ExtTreeMap String OutboundAttempt compare)
    (send : OutboundAttempt) : Std.ExtTreeMap String OutboundAttempt compare :=
  if (attemptMessage parse send.interrupted).isSome then
    attempts.insert send.messageId send.interrupted
  else attempts

/-- The stored sends that are kept. -/
def keptSends (parse : String → Option M) (sends : List OutboundAttempt) :
    Std.ExtTreeMap String OutboundAttempt compare := sends.foldl (keepSend parse) ∅

/-- What the log shows for a row. -/
def shown (parse : String → Option M) (sends : List OutboundAttempt) (row : StoredMessage M) : M :=
  settled (keptSends parse sends)
    (Upsert.update messageId isErased (sendMessages parse sends) (rowMessage row))

/-- The ids of the erased messages. -/
def erasedIdsOf (l : List M) : Finset String := ((l.filter isErased).filterMap messageId).toFinset

/-- Rows and stored sends with ids of their own, and a row for every send. -/
structure Readable (parse : String → Option M) (rows : List (StoredMessage M))
    (sends : List OutboundAttempt) : Prop where
  row_id : ∀ row ∈ rows, messageId (rowMessage row) = some row.messageId
  rows_nodup : (rows.map (·.messageId)).Nodup
  send_id : ∀ send ∈ sends, ∀ m, attemptMessage parse send.interrupted = some m →
    messageId m = some send.messageId
  sends_nodup : (sends.map (·.messageId)).Nodup
  send_row : ∀ send ∈ sends, (attemptMessage parse send.interrupted).isSome →
    send.messageId ∈ rows.map (·.messageId)

/-- Messages with ids come in. -/
theorem foldl_upsert (ms : List M) (h : ∀ m ∈ ms, (messageId m).isSome) (log : MessageLog M) :
    (ms.foldl MessageLog.upsert log).messages =
        ms.foldl (fun l m => Upsert.upsert messageId isErased m l) log.messages ∧
      (ms.foldl MessageLog.upsert log).erasedIds = log.erasedIds ∪ erasedIdsOf ms := by
  induction ms generalizing log with
  | nil => exact ⟨rfl, (Finset.union_empty _).symm⟩
  | cons m ms ih =>
    obtain ⟨id, hid⟩ := Option.isSome_iff_exists.1 (h m List.mem_cons_self)
    obtain ⟨hmessages, herased⟩ := ih (fun m' hm' => h m' (List.mem_cons_of_mem _ hm'))
      (log.upsert m)
    rw [List.foldl_cons, List.foldl_cons, hmessages, herased, messages_upsert log hid,
      erasedIds_upsert log m hid]
    refine ⟨rfl, ?_⟩
    rw [erasedIdsOf, erasedIdsOf, List.filter_cons]
    split
    · rw [List.filterMap_cons, hid, List.toFinset_cons]
      ext x
      simp only [Finset.mem_union, Finset.mem_insert]
      tauto
    · rfl

/-- Stored sends are read back: their messages come in, and they are kept. -/
theorem foldl_replaySend (sends : List OutboundAttempt) (log : MessageLog M)
    (attempts : Std.ExtTreeMap String OutboundAttempt compare) :
    sends.foldl (replaySend parse) (log, attempts) =
      ((sendMessages parse sends).foldl MessageLog.upsert log,
        sends.foldl (keepSend parse) attempts) := by
  induction sends generalizing log attempts with
  | nil => rfl
  | cons send sends ih =>
    rw [List.foldl_cons, List.foldl_cons, sendMessages, List.filterMap_cons, replaySend, keepSend]
    rcases attemptMessage parse send.interrupted with - | m
    · exact ih log attempts
    · exact ih (log.upsert m) _

/-- Which of the stored sends are kept. -/
theorem getElem?_foldl_keepSend {sends : List OutboundAttempt}
    (hnodup : (sends.map (·.messageId)).Nodup)
    (attempts : Std.ExtTreeMap String OutboundAttempt compare) (id : String) :
    (sends.foldl (keepSend parse) attempts)[id]? =
      ((sends.find? fun send => send.messageId = id &&
        (attemptMessage parse send.interrupted).isSome).map (·.interrupted)).or attempts[id]? := by
  induction sends generalizing attempts with
  | nil => rfl
  | cons send sends ih =>
    rw [List.map_cons, List.nodup_cons] at hnodup
    rw [List.foldl_cons, ih hnodup.2, List.find?_cons, keepSend]
    by_cases hid : send.messageId = id
    · -- no later send has this id
      have hnone : (sends.find? fun send => send.messageId = id &&
          (attemptMessage parse send.interrupted).isSome) = none := by
        refine List.find?_eq_none.2 fun send' hsend' hmatch => hnodup.1 ?_
        rw [Bool.and_eq_true, decide_eq_true_eq] at hmatch
        rw [hid, ← hmatch.1]
        exact List.mem_map_of_mem hsend'
      rw [hnone, decide_eq_true hid, Bool.true_and, Option.map_none, Option.none_or]
      cases (attemptMessage parse send.interrupted).isSome with
      | true =>
        rw [if_pos rfl, Table.getElem?_insert, if_pos hid]
        rfl
      | false =>
        rw [if_neg nofun]
        rfl
    · rw [decide_eq_false hid, Bool.false_and]
      split
      · rw [Table.getElem?_insert, if_neg hid]
      · rfl

/-- Settling does not forget which messages are erased. -/
theorem erasedIds_settleOrphanedSends (log : MessageLog M)
    (attempts : Std.ExtTreeMap String OutboundAttempt compare) :
    (settleOrphanedSends log attempts).erasedIds = log.erasedIds := by
  have hone : ∀ (log : MessageLog M) (id : String),
      (log.findMut id (setDelivery · orphanedDelivery)).erasedIds = log.erasedIds := by
    intro log id
    rw [MessageLog.findMut]
    split <;> rfl
  rw [settleOrphanedSends]
  generalize orphanedSends log attempts = ids
  induction ids generalizing log with
  | nil => rfl
  | cons id ids ih => rw [List.foldl_cons, ih, hone]

section Readable

variable {rows : List (StoredMessage M)} {sends : List OutboundAttempt}

/-- A history is read in three parts: the rows, the stored sends, and what is still pending. -/
theorem replay_eq (log : MessageLog M) (attempts : Std.ExtTreeMap String OutboundAttempt compare) :
    History.replay parse log attempts rows sends =
      let read := (sendMessages parse sends).foldl MessageLog.upsert
        ((rows.map rowMessage).foldl MessageLog.upsert log)
      let kept := sends.foldl (keepSend parse) attempts
      ⟨settleOrphanedSends read kept, kept, (settleOrphanedSends read kept).messages.length⟩ := by
  rw [History.replay, foldl_replaySend, List.foldl_map]

namespace Readable

variable (h : Readable parse rows sends)

include h

theorem map_messageId_rows : (rows.map rowMessage).map messageId = rows.map (some ·.messageId) := by
  rw [List.map_map]
  exact List.map_congr_left fun row hrow => h.row_id row hrow

theorem nodup_rows : ((rows.map rowMessage).map messageId).Nodup := by
  have hnodup := h.rows_nodup.map (Option.some_injective String)
  rw [h.map_messageId_rows]
  rwa [List.map_map] at hnodup

theorem mem_sendMessages {m : M} (hm : m ∈ sendMessages parse sends) :
    ∃ send ∈ sends, attemptMessage parse send.interrupted = some m ∧
      messageId m = some send.messageId := by
  obtain ⟨send, hsend, hmessage⟩ := List.mem_filterMap.1 hm
  exact ⟨send, hsend, hmessage, h.send_id send hsend m hmessage⟩

theorem nodup_sends : ((sendMessages parse sends).map messageId).Nodup := by
  have hsublist : ∀ l : List OutboundAttempt, (∀ send ∈ l, send ∈ sends) →
      ((sendMessages parse l).map messageId).Sublist (l.map (some ·.messageId)) := by
    intro l hl
    induction l with
    | nil => exact List.Sublist.refl _
    | cons send l ih =>
      have hrest := ih fun s hs => hl s (List.mem_cons_of_mem _ hs)
      rw [sendMessages, List.filterMap_cons, List.map_cons]
      rcases hmessage : attemptMessage parse send.interrupted with - | m
      · exact hrest.cons _
      · rw [List.map_cons, h.send_id send (hl send List.mem_cons_self) m hmessage]
        exact hrest.cons_cons _
  have hnodup := h.sends_nodup.map (Option.some_injective String)
  rw [List.map_map] at hnodup
  exact (hsublist sends fun _ hs => hs).nodup hnodup

/-- The messages of the sends have rows. -/
theorem mem_map_rows {m : M} (hm : m ∈ sendMessages parse sends) :
    messageId m ∈ (rows.map rowMessage).map messageId := by
  obtain ⟨send, hsend, hmessage, hid⟩ := h.mem_sendMessages hm
  obtain ⟨row, hrow, heq⟩ := List.mem_map.1 (h.send_row send hsend (by rw [hmessage]; rfl))
  rw [h.map_messageId_rows, hid, ← heq]
  exact List.mem_map_of_mem hrow

/-- Read into a log with the same ids, or into an empty one, a history updates what the rows
    leave. -/
theorem messages_read {log : MessageLog M} {l : List M}
    (attempts : Std.ExtTreeMap String OutboundAttempt compare)
    (hrows : ((rows.map rowMessage).foldl MessageLog.upsert log).messages = l)
    (hl : l.map messageId = (rows.map rowMessage).map messageId) :
    (History.replay parse log attempts rows sends).log.messages =
      l.map fun m => settled (sends.foldl (keepSend parse) attempts)
        (Upsert.update messageId isErased (sendMessages parse sends) m) := by
  have hnodup : (l.map messageId).Nodup := hl ▸ h.nodup_rows
  obtain ⟨hmessages, -⟩ := foldl_upsert (sendMessages parse sends)
    (fun m hm => by
      obtain ⟨send, -, -, hid⟩ := h.mem_sendMessages hm
      rw [hid]
      rfl) ((rows.map rowMessage).foldl MessageLog.upsert log)
  rw [hrows, Upsert.foldl_upsert_eq_map hnodup h.nodup_sends
    (fun m hm => hl ▸ h.mem_map_rows hm)] at hmessages
  rw [replay_eq]
  dsimp only
  rw [messages_settleOrphanedSends, hmessages, List.map_map]
  · rfl
  · rw [hmessages, List.map_map]
    have hkeys : messageId ∘ Upsert.update messageId isErased (sendMessages parse sends) =
        (messageId : M → Option String) := funext fun m => Upsert.key_update m
    rw [hkeys]
    exact hnodup

/-- Each row shows one message, in the order of the rows. -/
theorem messages_replay : (History.replay parse {} ∅ rows sends).log.messages =
    rows.map (shown parse sends) := by
  obtain ⟨hmessages, -⟩ := foldl_upsert (rows.map rowMessage)
    (fun m hm => by
      obtain ⟨row, hrow, rfl⟩ := List.mem_map.1 hm
      rw [h.row_id row hrow]
      rfl) {}
  have hread : ((rows.map rowMessage).foldl MessageLog.upsert {}).messages = rows.map rowMessage := by
    rw [hmessages, Upsert.foldl_upsert_append]
    · rfl
    · exact h.nodup_rows
  rw [h.messages_read ∅ hread rfl, List.map_map]
  rfl

/-- The ids are those of the rows. -/
theorem map_messageId_replay : (History.replay parse {} ∅ rows sends).log.messages.map messageId =
    rows.map (some ·.messageId) := by
  rw [h.messages_replay, List.map_map, ← h.map_messageId_rows, List.map_map]
  refine List.map_congr_left fun row _ => ?_
  exact (messageId_settled _ _).trans (Upsert.key_update _)

/-- The stored sends that are kept. -/
theorem getElem?_attempts (id : String) : (History.replay parse {} ∅ rows sends).attempts[id]? =
    (sends.find? fun send => send.messageId = id &&
      (attemptMessage parse send.interrupted).isSome).map (·.interrupted) := by
  rw [replay_eq]
  dsimp only
  rw [getElem?_foldl_keepSend h.sends_nodup]
  simp

/-- The ids of erased messages that a history adds. -/
theorem erasedIds_read (log : MessageLog M)
    (attempts : Std.ExtTreeMap String OutboundAttempt compare) :
    (History.replay parse log attempts rows sends).log.erasedIds =
      log.erasedIds ∪ erasedIdsOf (rows.map rowMessage) ∪ erasedIdsOf (sendMessages parse sends) := by
  obtain ⟨-, hsends⟩ := foldl_upsert (sendMessages parse sends)
    (fun m hm => by
      obtain ⟨send, -, -, hid⟩ := h.mem_sendMessages hm
      rw [hid]
      rfl) ((rows.map rowMessage).foldl MessageLog.upsert log)
  obtain ⟨-, hrows⟩ := foldl_upsert (rows.map rowMessage)
    (fun m hm => by
      obtain ⟨row, hrow, rfl⟩ := List.mem_map.1 hm
      rw [h.row_id row hrow]
      rfl) log
  rw [replay_eq]
  dsimp only
  rw [erasedIds_settleOrphanedSends, hsends, hrows]

end Readable

end Readable

end Log

/-! ## Reading it again -/

section Again

variable {M : Type} [DeliveredMessage M] {parse : String → Option M}
  {rows : List (StoredMessage M)} {sends : List OutboundAttempt}

/-- What has failed is not pending. -/
theorem settled_settled (attempts : Std.ExtTreeMap String OutboundAttempt compare) (m : M) :
    settled attempts (settled attempts m) = settled attempts m := by
  rw [settled.eq_1 attempts (settled attempts m)]
  refine if_neg fun hpending => ?_
  rw [settled] at hpending
  split at hpending
  · rw [deliveryStatus_eq, delivery_setDelivery] at hpending
    exact nomatch hpending.1
  · next hnot => exact hnot hpending

/-- Reading a history again, into the log that it gave, changes neither the messages nor the
    attempts. -/
theorem Readable.replay_replay (h : Readable parse rows sends) :
    let restored := History.replay parse {} ∅ rows sends
    let again := History.replay parse restored.log restored.attempts rows sends
    again.log.messages = restored.log.messages ∧ again.log.erasedIds = restored.log.erasedIds ∧
      again.attempts = restored.attempts ∧ again.persistedCount = restored.persistedCount := by
  intro restored again
  have hkept : restored.attempts = keptSends parse sends := by
    change (History.replay parse {} ∅ rows sends).attempts = _
    rw [replay_eq]
    rfl
  have hattempts : sends.foldl (keepSend parse) restored.attempts = restored.attempts := by
    rw [hkept]
    refine Std.ExtTreeMap.ext_getElem? fun id => ?_
    rw [getElem?_foldl_keepSend h.sends_nodup, keptSends, getElem?_foldl_keepSend h.sends_nodup,
      ← Option.or_assoc, Option.or_self]
  have hagain : again.attempts = restored.attempts := by
    change (History.replay parse restored.log restored.attempts rows sends).attempts = _
    rw [replay_eq]
    exact hattempts
  have hids : restored.log.messages.map messageId = (rows.map rowMessage).map messageId := by
    rw [h.map_messageId_rows]
    exact h.map_messageId_replay
  have hmessages : again.log.messages = restored.log.messages := by
    obtain ⟨hrows, -⟩ := foldl_upsert (rows.map rowMessage)
      (fun m hm => by
        obtain ⟨row, hrow, rfl⟩ := List.mem_map.1 hm
        rw [h.row_id row hrow]
        rfl) restored.log
    rw [Upsert.foldl_upsert_eq_map (hids ▸ h.nodup_rows) h.nodup_rows (fun m hm => by
      rw [hids]
      exact List.mem_map_of_mem hm)] at hrows
    have hread := h.messages_read restored.attempts hrows (by
      rw [List.map_map, ← hids]
      exact List.map_congr_left fun m _ => Upsert.key_update m)
    change again.log.messages = _ at hread
    rw [hread, hattempts, h.messages_replay, List.map_map, List.map_map, hkept]
    refine List.map_congr_left fun row hrow => ?_
    rw [Function.comp_apply, Function.comp_apply]
    cases herased : isErased (shown parse sends row) with
    | true =>
      -- what is erased stays
      rw [Upsert.update_of_fixed herased, Upsert.update_of_fixed herased, shown, settled_settled]
    | false =>
      -- otherwise the row comes back, and then its send
      have hid : messageId (rowMessage row) = messageId (shown parse sends row) :=
        ((messageId_settled _ _).trans (Upsert.key_update _)).symm
      rw [Upsert.update_of_mem h.nodup_rows (List.mem_map_of_mem hrow) hid herased]
      rfl
  refine ⟨hmessages, ?_, hagain, ?_⟩
  · change (History.replay parse restored.log restored.attempts rows sends).log.erasedIds =
      (History.replay parse {} ∅ rows sends).log.erasedIds
    rw [h.erasedIds_read restored.log]
    change (History.replay parse {} ∅ rows sends).log.erasedIds ∪ _ ∪ _ = _
    rw [h.erasedIds_read {}]
    ext id
    simp only [Finset.mem_union]
    tauto
  · change (History.replay parse restored.log restored.attempts rows sends).persistedCount =
      (History.replay parse {} ∅ rows sends).persistedCount
    have hcount : ∀ log attempts, (History.replay parse log attempts rows sends).persistedCount =
        (History.replay parse log attempts rows sends).log.messages.length := by
      intro log attempts
      rw [replay_eq]
    rw [hcount, hcount]
    exact congrArg List.length hmessages

end Again

end Mosh.Conversation
