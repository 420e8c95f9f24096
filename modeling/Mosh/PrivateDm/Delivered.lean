import Mosh.PrivateDm.Delivery

/-!
# Deliveries that stay

A text that is delivered ought to stay so. The receipt of the contact settles the row, and with
linked devices the attempt remains until the other ones have sent their receipts as well. A
turn of the outbox takes up what is queued, whatever the row says. So all is well as long as no
text is queued or retried that is delivered (`Tended`): then deliveries stay, in every run, with
or without linked devices (`delivered_final`).

One of the events breaks this by itself: a receipt of the contact that comes while its text
waits to be published again. It leaves a queued attempt behind for the other devices, and the
next turn of the outbox shows the text as sent (`delivered_lost`).
-/

namespace Mosh.PrivateDm

open Std (ExtTreeMap)
open Conversation Deletion DmDevices ConversationMessage
open DeviceLink (DeviceRoster plainDevice plainEntry rosterVersion)
open DeviceLink.DeviceRoster (comeAndGo)
open Run

namespace PrivateDmSession

variable {Key Signature σ C : Type} {c : TextCrypto Key Signature σ C} {h : Host C}
  {s s' s'' : PrivateDmSession σ C} {id : String}

/-- No row with an id is delivered. -/
def Undelivered (s : PrivateDmSession σ C) (id : String) : Prop :=
  ∀ m ∈ s.messages.messages, m.messageId = some id → m.delivery.deliveryStatus ≠ some .delivered

/-- A text that has an attempt has one row, at most, and if it is queued, the row is not
    delivered. -/
structure Tended (s : PrivateDmSession σ C) : Prop where
  unique : ∀ id a, s.outboundAttempts[id]? = some a → ∀ (i j : Nat) (m n : ChatMessage),
    s.messages.messages[i]? = some m → s.messages.messages[j]? = some n →
    m.messageId = some id → n.messageId = some id → i = j
  queued : ∀ id a, s.outboundAttempts[id]? = some a → a.deliveryStatus = .queued →
    s.Undelivered id

/-- Rows that are delivered stay where they are, and stay delivered. -/
structure Keeps (s s' : PrivateDmSession σ C) : Prop where
  tended : s'.Tended
  rows : ∀ (i : Nat) (m : ChatMessage), s.messages.messages[i]? = some m →
    m.delivery.deliveryStatus = some .delivered →
    ∃ m', s'.messages.messages[i]? = some m' ∧ m'.messageId = m.messageId ∧
      m'.delivery.deliveryStatus = some .delivered

theorem Keeps.trans (h₁ : Keeps s s') (h₂ : Keeps s' s'') : Keeps s s'' where
  tended := h₂.tended
  rows i m hm hd := by
    obtain ⟨m', hm', hid', hd'⟩ := h₁.rows i m hm hd
    obtain ⟨m'', hm'', hid'', hd''⟩ := h₂.rows i m' hm' hd'
    exact ⟨m'', hm'', hid''.trans hid', hd''⟩

/-! ## What keeps deliveries -/

/-- An effect keeps deliveries if it takes up only what is not delivered, and what it settles is
    not queued in the end. -/
theorem Tended.effect {settled taken : String → Prop} (ht : s.Tended)
    (e : Effect c settled taken s s') (htaken : ∀ k, taken k → s.Undelivered k)
    (hsettled : ∀ k a', settled k → s'.outboundAttempts[k]? = some a' →
      a'.deliveryStatus ≠ .queued) : Keeps s s' where
  tended :=
    { unique := fun k a' ha' i j m' n' hi hj hm hn => by
        obtain ⟨a, ha, -⟩ := e.attempts k a' ha'
        obtain ⟨m, hm₁, hmarked⟩ := e.log.old hi
        obtain ⟨n, hn₁, hmarked'⟩ := e.log.old hj
        exact ht.unique k a ha i j m n hm₁ hn₁ (hmarked.messageId ▸ hm) (hmarked'.messageId ▸ hn)
      queued := fun k a' ha' hq m' hm' hid hd => by
        obtain ⟨a, ha, hstatus⟩ := e.attempts k a' ha'
        obtain ⟨i, hi⟩ := List.getElem?_of_mem hm'
        obtain ⟨m, hm, hmarked⟩ := e.log.old hi
        have hid' : m.messageId = some k := hmarked.messageId ▸ hid
        cases hmarked with
        | same =>
          rcases hstatus with htake | hstatus
          · exact htaken k htake m' (List.mem_of_getElem? hm) hid hd
          · exact ht.queued k a ha (hstatus ▸ hq) m' (List.mem_of_getElem? hm) hid hd
        | settled _ hk hset _ =>
          obtain rfl := Option.some.inj (hk.symm.trans hid')
          exact hsettled _ a' hset ha' hq
        | taken _ _ _ hstatus => exact hstatus hd }
  rows i m hm hd := by
    obtain ⟨m', hm', hmarked⟩ := e.log.rows i m hm
    refine ⟨m', hm', hmarked.messageId, ?_⟩
    cases hmarked with
    | same => exact hd
    | settled _ _ _ hstatus => exact hstatus
    | taken _ hid htake _ => exact absurd hd (htaken _ htake m (List.mem_of_getElem? hm) hid)

/-- An effect that takes up only what is not delivered, and settles nothing. -/
theorem Tended.effect_of_taken (taken : String → Prop) (ht : s.Tended)
    (e : Effect c (fun _ => False) taken s s') (htaken : ∀ k, taken k → s.Undelivered k) :
    Keeps s s' :=
  ht.effect e htaken fun _ _ h => h.elim

/-- Rows are appended, at most, that bear no id of an attempt, and attempts do not become queued. -/
theorem Tended.append (ht : s.Tended) (rows : List ChatMessage)
    (hrows : s'.messages.messages = s.messages.messages ++ rows)
    (hnew : ∀ m ∈ rows, ∀ id, m.messageId = some id → s.outboundAttempts[id]? = none)
    (ha : ∀ (id : String) (a' : OutboundAttempt), s'.outboundAttempts[id]? = some a' →
      ∃ a, s.outboundAttempts[id]? = some a ∧ a'.deliveryStatus = a.deliveryStatus) :
    Keeps s s' where
  tended := by
    have hold {k : String} {a : OutboundAttempt} (hattempt : s.outboundAttempts[k]? = some a)
        {i : Nat} {m : ChatMessage} (hm : s'.messages.messages[i]? = some m)
        (hid : m.messageId = some k) : s.messages.messages[i]? = some m := by
      rw [hrows, List.getElem?_append] at hm
      split at hm
      · exact hm
      · cases hattempt.symm.trans (hnew m (List.mem_of_getElem? hm) k hid)
    refine ⟨fun k a' ha' i j m n hm hn hmid hnid => ?_, fun k a' ha' hq m hm hid => ?_⟩
    · obtain ⟨a, hattempt, -⟩ := ha k a' ha'
      exact ht.unique k a hattempt i j m n (hold hattempt hm hmid) (hold hattempt hn hnid) hmid hnid
    · obtain ⟨a, hattempt, hstatus⟩ := ha k a' ha'
      obtain ⟨i, hi⟩ := List.getElem?_of_mem hm
      exact ht.queued k a hattempt (hstatus ▸ hq) m
        (List.mem_of_getElem? (hold hattempt hi hid)) hid
  rows i m hm hd := by
    refine ⟨m, ?_, rfl, hd⟩
    rw [hrows, List.getElem?_append_left (List.getElem?_eq_some_iff.1 hm).1, hm]

/-- Nothing of what counts here changes. -/
theorem Tended.of_eq (ht : s.Tended) (hm : s'.messages.messages = s.messages.messages)
    (ha : s'.outboundAttempts = s.outboundAttempts) : Keeps s s' :=
  ht.append [] (by rw [hm, List.append_nil]) (fun _ h => absurd h List.not_mem_nil)
    fun _ a h => ⟨a, ha ▸ h, rfl⟩

/-! ## Turns of the outbox -/

/-- A text that is published no more has one row, which is not delivered. -/
theorem Tended.exhausted (ht : s.Tended) (hid : id ∈ s.exhaustedSends) : s.Undelivered id := by
  obtain ⟨a, ha, -, -, hundelivered⟩ := mem_exhaustedSends.1 hid
  obtain ⟨n, hn, hrow⟩ := List.any_eq_true.1 hundelivered
  simp only [Bool.and_eq_true, decide_eq_true_eq] at hrow
  intro m hm hmid hd
  obtain ⟨i, hi⟩ := List.getElem?_of_mem hm
  obtain ⟨j, hj⟩ := List.getElem?_of_mem hn
  obtain rfl := ht.unique id a ha i j m n hi hj hmid hrow.1
  obtain rfl := Option.some.inj (hi.symm.trans hj)
  exact hrow.2 hd

theorem Tended.resumeExhaustedSends (ht : s.Tended) : Keeps s (s.resumeExhaustedSends c) :=
  ht.effect_of_taken (· ∈ s.exhaustedSends)
    (resumeExhaustedSends_effect fun _ hid => hid) fun _ => ht.exhausted

theorem Tended.noteAuthenticatedFrame (ht : s.Tended) (fromDevice : String) :
    Keeps s (s.noteAuthenticatedFrame c fromDevice) :=
  ht.effect_of_taken (· ∈ s.exhaustedSends)
    (noteAuthenticatedFrame_effect fun _ hid => hid) fun _ => ht.exhausted

theorem Tended.queuedInOrder (ht : s.Tended) (hid : id ∈ s.queuedInOrder) : s.Undelivered id := by
  obtain ⟨a, ha, hstatus⟩ := mem_queuedInOrder.1 hid
  exact ht.queued id a ha hstatus

theorem Tended.deliverQueued (ht : s.Tended) : Keeps s (s.deliverQueued c h).2 :=
  ht.effect_of_taken (· ∈ s.queuedInOrder) (deliverQueued_effect fun _ hid => hid)
    fun _ => ht.queuedInOrder

theorem Tended.pumpUnackedResends (ht : s.Tended) : Keeps s (s.pumpUnackedResends c h) :=
  ht.effect_of_taken (fun _ => False) pumpUnackedResends_effect fun _ hid => hid.elim

/-- A retry keeps deliveries if its text is not delivered, or does not go out again. -/
theorem Tended.retryMessage (ht : s.Tended)
    (hid : ∀ a, s.outboundAttempts[id]? = some a → a.deliveryStatus ≠ .queued →
      a.deliveryStatus ≠ .pending → s.Undelivered id) : Keeps s (s.retryMessage c h id).2 := by
  cases ha : s.outboundAttempts[id]? with
  | none =>
    rw [PrivateDmSession.retryMessage, ha]
    exact ht.of_eq rfl rfl
  | some a =>
    by_cases hwaits : a.deliveryStatus = .queued ∨ a.deliveryStatus = .pending
    · rw [PrivateDmSession.retryMessage, ha]
      dsimp only
      rw [if_pos hwaits]
      exact ht.of_eq rfl rfl
    · obtain ⟨hqueued, hpending⟩ := not_or.1 hwaits
      refine ht.effect_of_taken (fun k => k = id ∨ k ∈ s.queuedInOrder)
        (retryMessage_effect (.inl rfl) fun _ => .inr) ?_
      rintro k (rfl | hk)
      · exact hid a ha hqueued hpending
      · exact ht.queuedInOrder hk

/-! ## Texts that come, and texts that are written -/

/-- The id that the log gives to a text with an id, or without one. -/
def stampedId (s : PrivateDmSession σ C) (h : Host C) (messageId : Option String)
    (sentAtMs : Option Nat) : Option String :=
  (s.messages.stamp h.now h.occurrence
    { fromDevice := "", body := "", messageId, sentAtMs }).1.messageId

/-- The log gives a text an id, and nothing else of it counts here. -/
theorem stamp_frame (log : MessageLog ChatMessage) (now : Nat) (occurrence : String)
    (m : ChatMessage) :
    (log.stamp now occurrence m).1.delivery = m.delivery ∧
      ConversationMessage.isErased (log.stamp now occurrence m).1 =
        ConversationMessage.isErased m ∧
      (log.stamp now occurrence m).1.messageId = (log.stamp now occurrence
        { fromDevice := "", body := "", messageId := m.messageId, sentAtMs := m.sentAtMs }).1.messageId ∧
      (log.stamp now occurrence m).2.messages = log.messages := by
  simp only [MessageLog.stamp, ConversationMessage.messageId, setSentAtMs,
    ConversationMessage.sentAtMs]
  split <;> exact ⟨rfl, rfl, rfl, rfl⟩

theorem sendDeliveryAck_frame : (s.sendDeliveryAck c h id).messages = s.messages ∧
    (s.sendDeliveryAck c h id).outboundAttempts = s.outboundAttempts := by
  rw [sendDeliveryAck]
  split
  · exact ⟨rfl, rfl⟩
  · rw [routeSend]
    split
    · exact ⟨rfl, rfl⟩
    · dsimp only
      split <;> exact ⟨rfl, rfl⟩

/-- A text that comes keeps deliveries if its id has no attempt. -/
theorem Tended.keepText (ht : s.Tended) {envelope : DataEnvelope C} (body author : String)
    (own : Bool) (hnew : ∀ id, s.stampedId h envelope.messageId envelope.sentAtMs = some id →
      s.outboundAttempts[id]? = none) : Keeps s (s.keepText c h envelope body author own) := by
  rw [PrivateDmSession.keepText]
  dsimp only
  set m : ChatMessage := {
    metadata := some { origin := envelope.origin, isOwn := some own }
    fromDevice := author
    body
    messageId := envelope.messageId
    sentAtMs := envelope.sentAtMs
    delivery := { deliveryStatus := if own then _ else none } }
  obtain ⟨-, herased, hid, hmessages⟩ := stamp_frame s.messages h.now h.occurrence m
  set message := (s.messages.stamp h.now h.occurrence m).1
  set log := (s.messages.stamp h.now h.occurrence m).2
  split
  · exact ht.of_eq hmessages rfl
  have hpush : Keeps s { s with messages := log.push message } := by
    have hrows := (push_live log (herased.trans rfl)).2
    split at hrows
    · exact ht.of_eq (hrows.trans hmessages) rfl
    · refine ht.append [message] (hmessages ▸ hrows) (fun n hn k hk => ?_)
        fun _ a ha => ⟨a, ha, rfl⟩
      obtain rfl := List.mem_singleton.1 hn
      exact hnew k (hid.symm.trans hk)
  split
  · exact hpush
  · obtain ⟨hackMessages, hackAttempts⟩ := sendDeliveryAck_frame (c := c) (h := h)
      (s := { s with messages := log.push message })
    exact hpush.trans (hpush.tended.of_eq (congrArg _ hackMessages) hackAttempts)

/-- The log has a text that comes, as far as one can tell before it is decrypted. -/
def knows (s : PrivateDmSession σ C) (messageId : Option String) : Bool :=
  messageId.any fun id =>
    s.hasInboundMessage id || s.devicesLive && s.messages.messages.any (·.messageId = some id)

theorem Tended.handleData (ht : s.Tended) {envelope : DataEnvelope C}
    (hnew : s.knows envelope.messageId = false →
      ∀ id, s.stampedId h envelope.messageId envelope.sentAtMs = some id →
        s.outboundAttempts[id]? = none) : Keeps s (s.handleData c h envelope).2 := by
  have hsame : Keeps s s := ht.of_eq rfl rfl
  rw [PrivateDmSession.handleData]
  split
  · exact hsame
  split
  · exact hsame
  dsimp only
  split
  · obtain ⟨hmessages, hattempts⟩ := sendDeliveryAck_frame (c := c) (h := h) (s := s)
    exact ht.of_eq (congrArg _ hmessages) hattempts
  next hunknown =>
  split
  · exact hsame
  next body signer crypto _ =>
  split
  · exact hsame
  split
  · exact ht.of_eq rfl rfl
  next author own _ =>
  have hknows : s.knows envelope.messageId = false := by
    rw [knows]
    rw [Option.filter_eq_none_iff] at hunknown
    cases hid : envelope.messageId with
    | none => rfl
    | some id => simpa using hunknown id hid
  -- What the contact sets off before changes neither the ids nor which texts have an attempt.
  have hcrypto : Keeps s { s with crypto } := ht.of_eq rfl rfl
  set t : PrivateDmSession σ C := if own then { s with crypto } else
    PrivateDmSession.noteAuthenticatedFrame c { s with crypto } author with hdef
  have hnote : Keeps s t ∧ t.messages.ids = s.messages.ids ∧
      ∀ (k : String) (a' : OutboundAttempt), t.outboundAttempts[k]? = some a' →
        ∃ a : OutboundAttempt, s.outboundAttempts[k]? = some a := by
    rw [hdef]
    split
    · exact ⟨hcrypto, rfl, fun _ a ha => ⟨a, ha⟩⟩
    · have e : Effect c (fun _ => False) (fun _ => True) { s with crypto }
          (PrivateDmSession.noteAuthenticatedFrame c { s with crypto } author) :=
        noteAuthenticatedFrame_effect fun _ _ => trivial
      exact ⟨hcrypto.trans (hcrypto.tended.noteAuthenticatedFrame author), e.log.ids,
        fun k a' ha' => (e.attempts k a' ha').imp fun _ ha => ha.1⟩
  obtain ⟨hkeeps, hids, hattempts⟩ := hnote
  refine hkeeps.trans (hkeeps.tended.keepText body author own fun k hk => ?_)
  have hstamped : t.stampedId h envelope.messageId envelope.sentAtMs =
      s.stampedId h envelope.messageId envelope.sentAtMs := by
    simp only [stampedId, MessageLog.stamp, MessageLog.nextId, hids]
    split <;> rfl
  by_contra hsome
  obtain ⟨a', ha'⟩ := Option.ne_none_iff_exists'.1 hsome
  obtain ⟨a, ha⟩ := hattempts k a' ha'
  cases (hnew hknows k (hstamped ▸ hk)).symm.trans ha

/-- A text that is written keeps deliveries if its id is new, and is not delivered itself. -/
theorem Tended.fileText (ht : s.Tended) {body : String}
    (hfresh : ∀ id, s.stampedId h none none = some id →
      ∀ m ∈ s.messages.messages, m.messageId ≠ some id) :
    Keeps s (s.fileText c h body).2 ∧
      ∀ id, (s.fileText c h body).1 = .ok id → (s.fileText c h body).2.Undelivered id := by
  obtain ⟨id, -, hmessage, hmessages, -⟩ :=
    stamp_new s.messages h.now h.occurrence s.deviceId body
  have hnew : ∀ m ∈ s.messages.messages, m.messageId ≠ some id := by
    refine hfresh id ?_
    have hid := (stamp_frame s.messages h.now h.occurrence { fromDevice := s.deviceId, body }).2.2.1
    rw [hmessage] at hid
    exact hid.symm
  rw [PrivateDmSession.fileText]
  split
  · exact ⟨ht.of_eq rfl rfl, by rintro _ ⟨⟩⟩
  simp only [hmessage]
  set log := (s.messages.stamp h.now h.occurrence { fromDevice := s.deviceId, body }).2
  split
  · exact ⟨ht.of_eq hmessages rfl, by rintro _ ⟨⟩⟩
  next origin _ =>
  set m : ChatMessage := {
    metadata := some { origin := some origin, isOwn := some true }
    fromDevice := s.deviceId
    body
    messageId := some id
    sentAtMs := some h.now } with hm
  simp only [Option.getD_some]
  set filed : PrivateDmSession σ C := { s with messages := log, filed := s.filed ++ [id] }
  set t := filed.inOutbox fun o => o.open c.outbox h.now m s.sessionId [] 0 with hdef
  obtain ⟨hlog, hattempts, hprepared⟩ :=
    open_frame (c := c) filed (show m.messageId = some id from rfl) h.now s.sessionId
  have hupsert : (log.upsert m).messages = s.messages.messages ++ [m] := by
    rcases (upsert_live log (m := m) rfl (show m.messageId = some id from rfl)).2 with
      ⟨-, n, hn, hnid⟩ | ⟨index, n, hn, hnid, -⟩ | ⟨-, happend⟩
    · exact absurd hnid (hnew n (hmessages ▸ hn))
    · exact absurd hnid (hnew n (hmessages ▸ List.mem_of_getElem? hn))
    · rw [happend, hmessages]
  have hmarks : Marks (fun _ => False) (· = id) (log.upsert m) t.2.messages := by
    rw [hlog]
    exact marks_markDelivery _ _ _ _ _ (.inr ⟨rfl, by decide⟩)
  -- The row of the text is the last one, and pending.
  have hrow {i : Nat} {n' : ChatMessage} (hn' : t.2.messages.messages[i]? = some n') :
      (s.messages.messages[i]? = some n' ∧ n'.messageId ≠ some id) ∨
        (i = s.messages.messages.length ∧ n'.messageId = some id ∧
          n'.delivery.deliveryStatus ≠ some .delivered) := by
    obtain ⟨n, hn, hmarked⟩ := hmarks.old hn'
    rw [hupsert, List.getElem?_append] at hn
    split at hn
    · have hother := hnew n (List.mem_of_getElem? hn)
      cases hmarked with
      | same => exact .inl ⟨hn, hother⟩
      | settled _ _ hset _ => exact hset.elim
      | taken _ hid htake _ => exact absurd (htake ▸ hid) hother
    · obtain rfl : n = m := List.mem_singleton.1 (List.mem_of_getElem? hn)
      have hlt := (List.getElem?_eq_some_iff.1 hn).1
      rw [List.length_singleton] at hlt
      refine .inr ⟨by omega, hmarked.messageId, ?_⟩
      cases hmarked with
      | same => simp [hm]
      | settled _ _ hset _ => exact hset.elim
      | taken _ _ _ hstatus => exact hstatus
  have hundelivered : t.2.Undelivered id := by
    intro n' hn' hid hd
    obtain ⟨i, hi⟩ := List.getElem?_of_mem hn'
    rcases hrow hi with ⟨-, hother⟩ | ⟨-, -, hstatus⟩
    · exact hother hid
    · exact hstatus hd
  have hkeeps : Keeps s t.2 := by
    refine ⟨⟨fun k a ha i j n n' hi hj hk hk' => ?_, fun k a ha hq n hn hk => ?_⟩,
      fun i n hn hd => ?_⟩
    · rcases hrow hi with ⟨hi, hother⟩ | ⟨hi, hid, -⟩ <;>
        rcases hrow hj with ⟨hj, hother'⟩ | ⟨hj, hid', -⟩
      · rcases hattempts k a ha with ha | ⟨rfl, -⟩
        · exact ht.unique k a ha i j n n' hi hj hk hk'
        · exact absurd hk hother
      · exact absurd (hk.trans (hk'.symm.trans hid')) hother
      · exact absurd (hk'.trans (hk.symm.trans hid)) hother'
      · exact hi.trans hj.symm
    · by_cases hkid : k = id
      · exact hundelivered n hn (hkid ▸ hk)
      · obtain ⟨i, hi⟩ := List.getElem?_of_mem hn
        rcases hrow hi with ⟨hi, -⟩ | ⟨-, hid, -⟩
        · rcases hattempts k a ha with ha | ⟨rfl, -⟩
          · exact ht.queued k a ha hq n (List.mem_of_getElem? hi) hk
          · exact absurd rfl hkid
        · exact absurd (Option.some.inj (hk.symm.trans hid)) hkid
    · have hlt := (List.getElem?_eq_some_iff.1 hn).1
      have hold : (log.upsert m).messages[i]? = some n := by
        rw [hupsert, List.getElem?_append_left hlt, hn]
      obtain ⟨n', hn', hmarked⟩ := hmarks.rows i n hold
      rcases hrow hn' with ⟨hsame, -⟩ | ⟨hi, -, -⟩
      · obtain rfl := Option.some.inj (hn.symm.trans hsame)
        exact ⟨n, hn', rfl, hd⟩
      · omega
  replace hprepared : ∀ prepared, t.1 = .ok prepared → prepared.messageId = id := hprepared
  clear_value t
  obtain ⟨result, t⟩ := t
  cases result with
  | error e => exact ⟨hkeeps, by rintro _ ⟨⟩⟩
  | ok prepared =>
    refine ⟨hkeeps, ?_⟩
    rintro _ ⟨⟩
    rw [hprepared prepared rfl]
    exact hundelivered

/-- A text is filed, admitted and delivered. -/
theorem Tended.sendMessage (ht : s.Tended) {body : String}
    (hfresh : ∀ id, s.stampedId h none none = some id →
      ∀ m ∈ s.messages.messages, m.messageId ≠ some id) :
    Keeps s (s.sendMessage c h body).2 := by
  obtain ⟨hfile, hundelivered⟩ : Keeps s (s.fileText c h body).2 ∧
      ∀ id, (s.fileText c h body).1 = .ok id → (s.fileText c h body).2.Undelivered id :=
    ht.fileText hfresh
  rw [PrivateDmSession.sendMessage]
  split
  · exact ht.of_eq rfl rfl
  split
  · next heq =>
    rw [heq] at hfile
    exact hfile
  next id t heq =>
  rw [heq] at hfile hundelivered
  have hadmission : Keeps t (t.admitQueued c h id).2 :=
    hfile.tended.effect_of_taken (· = id) (admitQueued_effect rfl) fun k hk =>
      hk ▸ hundelivered id rfl
  split
  · next heq =>
    rw [heq] at hadmission
    exact hfile.trans hadmission
  · next heq =>
    rw [heq] at hadmission
    exact (hfile.trans hadmission).trans hadmission.tended.deliverQueued

/-! ## Receipts -/

/-- A text without an attempt is settled. -/
theorem Tended.settle (c : TextCrypto Key Signature σ C) (ht : s.Tended)
    (hid : s.outboundAttempts[id]? = none) (retryCount : Nat) :
    Keeps s { s with messages := (s.messages.markDelivery id .delivered none retryCount).1 } := by
  have e : Effect c (· = id) (fun _ => False) s
      { s with messages := (s.messages.markDelivery id .delivered none retryCount).1 } :=
    settle_effect (by rfl) retryCount
  refine ht.effect e (fun _ htaken => htaken.elim) fun k a' hk ha' => ?_
  cases hid.symm.trans (hk ▸ ha')

/-- With the last receipt that is expected the attempt ends. -/
theorem noteDeviceReceipt_done {membership : DeviceMembership} {signer : String} (own : Bool)
    (hdone : receiptsDone membership id signer = true) :
    (s.noteDeviceReceipt membership id signer own).2.outboundAttempts[id]? = none := by
  rw [noteDeviceReceipt]
  dsimp only
  set s₁ : PrivateDmSession σ C := { s with membership := some _ } with hs₁
  cases hmine : !own && s₁.messages.messages.any (s₁.isOwnRow id) with
  | false =>
    simp only [Bool.false_eq_true, if_false]
    simp [hdone]
  | true =>
    -- The row of the text is there, so its delivery can be noted.
    obtain ⟨m, hm, hrow⟩ := List.any_eq_true.1 (Bool.and_eq_true_iff.1 hmine).2
    have hfound : (s.messages.position id).isSome = true := by
      rw [Option.isSome_iff_ne_none]
      intro hnone
      exact MessageLog.position_eq_none hnone m hm (of_decide_eq_true (Bool.and_eq_true_iff.1 hrow).1)
    simp only [if_true, MessageLog.markDelivery]
    simp [hfound, hdone]

/-- A receipt of a device keeps deliveries if it is not one of the contact for a text that is queued
    and kept for other devices. -/
theorem Tended.acceptDeviceReceipt (ht : s.Tended) {signer : String}
    (hid : ∀ membership author a, s.membership = some membership →
      s.deviceAuthor signer = .ok (author, false) → s.outboundAttempts[id]? = some a →
      a.deliveryStatus = .queued → receiptsDone membership id signer = true) :
    Keeps s (s.acceptDeviceReceipt c id signer).2 := by
  rw [PrivateDmSession.acceptDeviceReceipt]
  split
  · exact ht.of_eq rfl rfl
  · exact ht.of_eq rfl rfl
  next author own membership hauthor hmembership =>
  have e : Effect c (fun k => own = false ∧ k = id) (fun _ => False) s
      (s.noteDeviceReceipt membership id signer own).2 :=
    noteDeviceReceipt_effect hmembership fun hown => ⟨hown, rfl⟩
  have hreceipt : Keeps s (s.noteDeviceReceipt membership id signer own).2 := by
    refine ht.effect e (fun _ htaken => htaken.elim) ?_
    rintro k a' ⟨rfl, rfl⟩ ha' hq
    obtain ⟨a, ha, hstatus | hstatus⟩ := e.attempts k a' ha'
    · exact hstatus
    · have hdone := hid membership author a hmembership hauthor ha (hstatus.symm.trans hq)
      cases (noteDeviceReceipt_done false hdone).symm.trans ha'
  dsimp only
  split
  · next heq =>
    rw [heq] at hreceipt
    exact hreceipt
  next t heq =>
  rw [heq] at hreceipt
  have hnote : Keeps s (if own then t else PrivateDmSession.noteAuthenticatedFrame c t author) := by
    split
    · exact hreceipt
    · exact hreceipt.trans (hreceipt.tended.noteAuthenticatedFrame author)
  dsimp only
  generalize (if own then t else PrivateDmSession.noteAuthenticatedFrame c t author) = u at hnote ⊢
  split
  · exact hnote.trans hnote.tended.resumeExhaustedSends
  · exact hnote

theorem Tended.acceptDeliveryAck (ht : s.Tended) {ackCiphertext : C}
    (hid : ∀ id signer y membership author a,
      c.decrypt s.crypto ackCiphertext = .ok (id, signer, y) → s.devicesLive = true →
      s.membership = some membership → s.deviceAuthor signer = .ok (author, false) →
      s.outboundAttempts[id]? = some a → a.deliveryStatus = .queued →
      receiptsDone membership id signer = true) :
    Keeps s (s.acceptDeliveryAck c ackCiphertext).2 := by
  rw [PrivateDmSession.acceptDeliveryAck]
  split
  · exact ht.of_eq rfl rfl
  next id signer crypto hdecrypt =>
  have hcrypto : Keeps s { s with crypto } := ht.of_eq rfl rfl
  dsimp only
  split
  · next hlive =>
    exact hcrypto.trans (hcrypto.tended.acceptDeviceReceipt fun membership author a =>
      hid id signer crypto membership author a hdecrypt hlive)
  -- Without linked devices the attempt ends before its text is settled.
  have hnote := hcrypto.trans (hcrypto.tended.noteAuthenticatedFrame (c := c) "")
  generalize PrivateDmSession.noteAuthenticatedFrame c { s with crypto } "" = t at hnote ⊢
  split
  · exact hnote
  next attempt _ =>
  have herase : Keeps t { t with outboundAttempts := t.outboundAttempts.erase id } :=
    hnote.tended.effect_of_taken (fun _ => False) (eraseAttempt_effect (c := c) id)
      fun _ htaken => htaken.elim
  have hgone : (t.outboundAttempts.erase id)[id]? = none := ExtTreeMap.getElem?_erase_self
  have hsettle := (hnote.trans herase).trans (herase.tended.settle c hgone attempt.retryCount)
  split
  · next heq =>
    rw [heq] at hsettle
    exact hsettle
  · next log heq =>
    rw [heq] at hsettle
    have hdirty : Keeps s { t with
        messages := log
        outboundAttempts := t.outboundAttempts.erase id
        dirtyOutbound := t.dirtyOutbound ++ [id] } :=
      hsettle.trans (hsettle.tended.of_eq rfl rfl)
    exact hdirty.trans hdirty.tended.resumeExhaustedSends

/-! ## Steps and runs -/

/-- An event with what the world answers. -/
def act (c : TextCrypto Key Signature σ C) (s : PrivateDmSession σ C) (a : Host C × Event σ C) :
    PrivateDmSession σ C :=
  s.step c a.1 a.2

/-- An event spares what is delivered. A text that is written gets a new id, and one that comes and
    is not known does not bear the id of an attempt. A text that is delivered is not retried. And
    with linked devices, a receipt of the contact for a text that is queued is the last one that
    is expected. -/
def Spares (c : TextCrypto Key Signature σ C) (s : PrivateDmSession σ C) :
    Host C × Event σ C → Prop
  | (h, .send _) => ∀ id, s.stampedId h none none = some id →
      ∀ m ∈ s.messages.messages, m.messageId ≠ some id
  | (_, .retry id) => ∀ a, s.outboundAttempts[id]? = some a → a.deliveryStatus ≠ .queued →
      a.deliveryStatus ≠ .pending → s.Undelivered id
  | (h, .receive (.data envelope)) => s.knows envelope.messageId = false →
      ∀ id, s.stampedId h envelope.messageId envelope.sentAtMs = some id →
        s.outboundAttempts[id]? = none
  | (_, .receive (.deliveryAck _ _ ackCiphertext)) => ∀ id signer y membership author a,
      c.decrypt s.crypto ackCiphertext = .ok (id, signer, y) → s.devicesLive = true →
      s.membership = some membership → s.deviceAuthor signer = .ok (author, false) →
      s.outboundAttempts[id]? = some a → a.deliveryStatus = .queued →
      receiptsDone membership id signer = true
  | _ => True

theorem Tended.handleMossMessage (ht : s.Tended) {frame : Frame C}
    (hspares : s.Spares c (h, .receive frame)) : Keeps s (s.handleMossMessage c h frame).2 := by
  rw [PrivateDmSession.handleMossMessage.eq_def]
  split
  · exact ht.of_eq rfl rfl
  · split
    · exact ht.acceptDeliveryAck hspares
    · exact ht.of_eq rfl rfl
  · next envelope _ =>
    set noted := if s.devicesLive then (false, s) else s.seenBefore c envelope with hnoted
    have hsame : noted.2 = { s with seen := noted.2.seen } := by
      rw [hnoted]
      split
      · rfl
      · rw [seenBefore]
        dsimp only
        split <;> rfl
    have hseen : Keeps s noted.2 := by
      rw [hsame]
      exact ht.of_eq rfl rfl
    dsimp only
    split
    · exact hseen
    · refine hseen.trans (hseen.tended.handleData ?_)
      rw [hsame]
      exact hspares

theorem Tended.act (ht : s.Tended) {a : Host C × Event σ C} (hspares : s.Spares c a) :
    Keeps s (s.act c a) := by
  obtain ⟨h, event⟩ := a
  cases event with
  | send body => exact ht.sendMessage hspares
  | retry id => exact ht.retryMessage hspares
  | tick => exact ht.pumpUnackedResends.trans ht.pumpUnackedResends.tended.deliverQueued
  | receive frame => exact ht.handleMossMessage hspares
  | authenticated crypto fromDevice =>
    have hcrypto : Keeps s { s with crypto } := ht.of_eq rfl rfl
    exact hcrypto.trans (hcrypto.tended.noteAuthenticatedFrame fromDevice)
  | lost => exact ht.of_eq rfl rfl
  | ratchet crypto => exact ht.of_eq rfl rfl
  | transition crypto membership epochChanged =>
    rw [PrivateDmSession.act, PrivateDmSession.step, installDeviceTransition]
    split
    · -- In a new epoch the attempts are due again, and their statuses stay.
      refine ht.append [] (List.append_nil _).symm (fun _ hm => absurd hm List.not_mem_nil)
        fun id a' ha' => ?_
      rw [ExtTreeMap.getElem?_map] at ha'
      obtain ⟨a, ha, rfl⟩ := Option.map_eq_some_iff.1 ha'
      exact ⟨a, ha, rfl⟩
    · exact ht.of_eq rfl rfl

/-- In every run that begins without attempts, and all of whose events spare what is delivered, a
    row that is delivered stays delivered. -/
theorem delivered_final {s₀ : PrivateDmSession σ C} (h₀ : s₀.outboundAttempts = ∅)
    {before after : List (Host C × Event σ C)} (hbefore : Runs (act c) (Spares c) s₀ before s)
    (hafter : Runs (act c) (Spares c) s after s') {i : Nat} {m : ChatMessage}
    (hm : s.messages.messages[i]? = some m) (hd : m.delivery.deliveryStatus = some .delivered) :
    ∃ m', s'.messages.messages[i]? = some m' ∧ m'.messageId = m.messageId ∧
      m'.delivery.deliveryStatus = some .delivered := by
  have hempty (id : String) : s₀.outboundAttempts[id]? = none := by
    rw [h₀, ExtTreeMap.getElem?_empty]
  have h₀' : s₀.Tended :=
    { unique := fun id a ha => by cases (hempty id).symm.trans ha
      queued := fun id a ha => by cases (hempty id).symm.trans ha }
  have hs : s.Tended := hbefore.invariant (fun _ _ hspares ht => (ht.act hspares).tended) h₀'
  have hkeeps : Keeps s s' := by
    refine hafter.invariant (P := Keeps s) (fun t a hspares ht => ?_) (hs.of_eq rfl rfl)
    exact ht.trans (ht.tended.act hspares)
  exact hkeeps.rows i m hm hd

/-! ### Two devices and a contact -/

/-- The client of a device, under its leaf. -/
def sampleClient (roster : DeviceRoster) (device : UInt8) (mlsSigner displayName : String) :
    IdentityClaim :=
  ⟨"dm", roster, (plainDevice device).deviceId, mlsSigner, displayName, ""⟩

/-- Anna has two devices, and Bernd has one. -/
def linkedMembership : DeviceMembership where
  topology := {
    ownUserId := (comeAndGo []).userId
    clients := [sampleClient (comeAndGo []) 1 "aa" "Anna", sampleClient (comeAndGo []) 2 "cc" "Anna",
      sampleClient [plainEntry rosterVersion [] 5 (plainDevice 5)] 5 "bb" "Bernd"]
    rosters := [comeAndGo [], [plainEntry rosterVersion [] 5 (plainDevice 5)]] }

/-- The session of the first device. -/
def linkedSession : PrivateDmSession SampleGroup (Bool × Nat × String) :=
  { sampleSession true "Anna" with
    membership := some linkedMembership
    deviceSigner := some fun _ => "signed" }

/-- Anna writes. -/
def write : Host (Bool × Nat × String) × Event SampleGroup (Bool × Nat × String) :=
  (sampleHost 5 "r", .send "hello")

/-- Bernd's receipt comes. -/
def receipt (now : Nat) : Host (Bool × Nat × String) × Event SampleGroup (Bool × Nat × String) :=
  (sampleHost now "", .receive (.deliveryAck "dm" "bob" (false, 0, "5-000000-r")))

/-- The service ticks. -/
def tickAt (now : Nat) : Host (Bool × Nat × String) × Event SampleGroup (Bool × Nat × String) :=
  (sampleHost now "", .tick)

/-- The text is published again until its attempts are used up, and Bernd comes back. -/
def resumed : List (Host (Bool × Nat × String) × Event SampleGroup (Bool × Nat × String)) :=
  write :: (List.range 10).map (fun i => tickAt (15005 * (i + 1))) ++
    [(sampleHost 200000 "", .lost),
      (sampleHost 200001 "", .authenticated { alice := true, made := 11 } "Bernd")]

theorem delivered_final_hello :
    ∃ m, ([write, receipt 6, tickAt 7].foldl (act sampleCrypto) linkedSession).messages.messages[0]? =
      some m ∧ m.messageId = some "5-000000-r" ∧ m.delivery.deliveryStatus = some .delivered := by
  have hrow : ([write, receipt 6].foldl (act sampleCrypto) linkedSession).messages.messages[0]?.any
      (fun m => m.messageId = some "5-000000-r" ∧
        m.delivery.deliveryStatus = some .delivered) = true := by
    decide +kernel
  obtain ⟨m, hm, hrow⟩ := (Option.any_eq_true _ _).1 hrow
  obtain ⟨hmid, hstatus⟩ := of_decide_eq_true hrow
  have hsent : (linkedSession.act sampleCrypto write).outboundAttempts["5-000000-r"]?.map
      (·.deliveryStatus) = some .sent := by decide +kernel
  have hreceipt : Spares sampleCrypto (linkedSession.act sampleCrypto write) (receipt 6) := by
    have hid : (sampleCrypto.decrypt (linkedSession.act sampleCrypto write).crypto
        (false, 0, "5-000000-r")).toOption.map (·.1) = some "5-000000-r" := by decide +kernel
    intro id signer y membership author a hdecrypt _ _ _ ha hq
    rw [hdecrypt] at hid
    obtain rfl : id = "5-000000-r" := Option.some.inj hid
    rw [ha, Option.map_some, hq] at hsent
    cases hsent
  have hbefore : Runs (act sampleCrypto) (Spares sampleCrypto) linkedSession [write, receipt 6]
      ([write, receipt 6].foldl (act sampleCrypto) linkedSession) :=
    .cons (fun _ _ _ hm => absurd hm List.not_mem_nil) (.cons hreceipt (.nil _))
  have hafter : Runs (act sampleCrypto) (Spares sampleCrypto)
      ([write, receipt 6].foldl (act sampleCrypto) linkedSession) [tickAt 7]
      ([write, receipt 6, tickAt 7].foldl (act sampleCrypto) linkedSession) :=
    .cons trivial (.nil _)
  obtain ⟨m', hm', hid, hd⟩ := delivered_final rfl hbefore hafter hm hstatus
  exact ⟨m', hm', hid.trans hmid, hd⟩

/-- Bernd's receipt comes at last, after the text was queued again and before it is published. The
    tablet of Anna owes one as well, so the attempt remains, and the text shows as sent. -/
theorem delivered_lost :
    ¬ ∀ (before after : List
        (Host (Bool × Nat × String) × Event SampleGroup (Bool × Nat × String))) (i : Nat)
        (m : ChatMessage),
      (before.foldl (act sampleCrypto) linkedSession).messages.messages[i]? = some m →
      m.delivery.deliveryStatus = some .delivered →
      ∃ m', ((before ++ after).foldl (act sampleCrypto) linkedSession).messages.messages[i]? =
        some m' ∧ m'.delivery.deliveryStatus = some .delivered := by
  intro hclaim
  have hdelivered : ((resumed ++ [receipt 200002]).foldl
      (act sampleCrypto) linkedSession).messages.messages[0]?.any
      (fun m => m.delivery.deliveryStatus = some .delivered) = true := by
    decide +kernel
  have hsent : ((resumed ++ [receipt 200002] ++ [tickAt 200003]).foldl
      (act sampleCrypto) linkedSession).messages.messages[0]?.all
      (fun m => m.delivery.deliveryStatus = some .sent) = true := by
    decide +kernel
  obtain ⟨m, hm, hd⟩ := (Option.any_eq_true _ _).1 hdelivered
  obtain ⟨m', hm', hd'⟩ := hclaim (resumed ++ [receipt 200002]) [tickAt 200003] 0 m hm
    (of_decide_eq_true hd)
  rw [hm', Option.all_some, decide_eq_true_eq, hd'] at hsent
  cases hsent

end PrivateDmSession

end Mosh.PrivateDm
