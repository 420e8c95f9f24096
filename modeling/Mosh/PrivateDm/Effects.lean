import Mosh.PrivateDm.Session

/-!
# What the handlers of texts do

Everything that a session does with its texts, except for filing one and for keeping one
that came, leaves the rows of the log where they are and their content as it is. It notes
deliveries, ends attempts, and hands frames to the transport: texts that have an attempt, and
receipts of messages that are in the log (`Effect`). A delivery is noted in two ways: a receipt
settles a message as delivered, and a turn of the outbox takes a message up, which is no longer
delivered then. An effect names the messages to which either may happen.

* `Effect.trans`, `Effect.mono`: effects compose, and may name more messages than needed;
* `publishText_effect`, `deliverQueued_effect`, `acceptDeliveryAck_effect` and their likes: one
  effect for each function, which the invariants are derived from.
-/

namespace Mosh.PrivateDm

open Std (ExtTreeMap)
open Conversation Deletion DmDevices ConversationMessage

/-! ## Rows whose delivery is noted -/

/-- The delivery of a row may be noted: as delivered if its message is settled, and as something
    else if its message is taken up. -/
inductive Marked (settled taken : String → Prop) (m : ChatMessage) : ChatMessage → Prop
  | same : Marked settled taken m m
  | settled {id : String} (delivery : MessageDeliveryMeta) (hid : m.messageId = some id)
      (h : settled id) (hd : delivery.deliveryStatus = some .delivered) :
      Marked settled taken m { m with delivery }
  | taken {id : String} (delivery : MessageDeliveryMeta) (hid : m.messageId = some id)
      (h : taken id) (hd : delivery.deliveryStatus ≠ some .delivered) :
      Marked settled taken m { m with delivery }

namespace Marked

variable {settled taken settled' taken' : String → Prop} {m m' m'' : ChatMessage}

theorem messageId (h : Marked settled taken m m') : m'.messageId = m.messageId := by
  cases h <;> rfl

theorem fromDevice (h : Marked settled taken m m') : m'.fromDevice = m.fromDevice := by
  cases h <;> rfl

theorem isErased (h : Marked settled taken m m') : isErased m' = isErased m := by
  cases h <;> rfl

theorem mono (h : Marked settled taken m m') (hs : ∀ id, settled id → settled' id)
    (ht : ∀ id, taken id → taken' id) : Marked settled' taken' m m' := by
  cases h with
  | same => exact .same
  | settled d hid h hd => exact .settled d hid (hs _ h) hd
  | taken d hid h hd => exact .taken d hid (ht _ h) hd

/-- The last note counts. -/
theorem trans (h₁ : Marked settled taken m m') (h₂ : Marked settled taken m' m'') :
    Marked settled taken m m'' := by
  cases h₂ with
  | same => exact h₁
  | settled d hid h hd =>
    rw [h₁.messageId] at hid
    cases h₁ <;> exact .settled d hid h hd
  | taken d hid h hd =>
    rw [h₁.messageId] at hid
    cases h₁ <;> exact .taken d hid h hd

end Marked

/-- The rows of a log stay where they are, and deliveries of them may be noted. -/
structure Marks (settled taken : String → Prop) (log log' : MessageLog ChatMessage) : Prop where
  length : log'.messages.length = log.messages.length
  ids : log'.ids = log.ids
  erasedIds : log'.erasedIds = log.erasedIds
  rows : ∀ (i : Nat) (m : ChatMessage), log.messages[i]? = some m →
    ∃ m', log'.messages[i]? = some m' ∧ Marked settled taken m m'

namespace Marks

variable {settled taken settled' taken' : String → Prop} {log log' log'' : MessageLog ChatMessage}

theorem refl (log : MessageLog ChatMessage) : Marks settled taken log log :=
  ⟨rfl, rfl, rfl, fun _ m hm => ⟨m, hm, .same⟩⟩

theorem trans (h₁ : Marks settled taken log log') (h₂ : Marks settled taken log' log'') :
    Marks settled taken log log'' where
  length := h₂.length.trans h₁.length
  ids := h₂.ids.trans h₁.ids
  erasedIds := h₂.erasedIds.trans h₁.erasedIds
  rows i m hm := by
    obtain ⟨m', hm', h⟩ := h₁.rows i m hm
    obtain ⟨m'', hm'', h'⟩ := h₂.rows i m' hm'
    exact ⟨m'', hm'', h.trans h'⟩

theorem mono (h : Marks settled taken log log') (hs : ∀ id, settled id → settled' id)
    (ht : ∀ id, taken id → taken' id) : Marks settled' taken' log log' :=
  ⟨h.length, h.ids, h.erasedIds, fun i m hm => (h.rows i m hm).imp fun _ h' => ⟨h'.1, h'.2.mono hs ht⟩⟩

/-- A row of the new log comes from the row of the old one. -/
theorem old (h : Marks settled taken log log') {i : Nat} {m' : ChatMessage}
    (hm' : log'.messages[i]? = some m') :
    ∃ m, log.messages[i]? = some m ∧ Marked settled taken m m' := by
  obtain ⟨hlt, -⟩ := List.getElem?_eq_some_iff.1 hm'
  rw [h.length] at hlt
  obtain ⟨m'', hm'', hmarked⟩ := h.rows i _ (List.getElem?_eq_getElem hlt)
  obtain rfl := Option.some.inj (hm'.symm.trans hm'')
  exact ⟨_, List.getElem?_eq_getElem hlt, hmarked⟩

end Marks

/-- Noting a delivery marks the first row of the message. -/
theorem marks_markDelivery {settled taken : String → Prop} (log : MessageLog ChatMessage)
    (id : String) (status : MessageDeliveryStatus) (error : Option String) (retryCount : Nat)
    (h : settled id ∧ status = .delivered ∨ taken id ∧ status ≠ .delivered) :
    Marks settled taken log (log.markDelivery id status error retryCount).1 := by
  rw [MessageLog.markDelivery, MessageLog.findMut]
  cases hposition : log.touch.position id with
  | none => exact ⟨rfl, rfl, rfl, fun _ m hm => ⟨m, hm, .same⟩⟩
  | some index =>
    dsimp only
    refine ⟨List.length_modify .., rfl, rfl, fun i m hm => ?_⟩
    rw [List.getElem?_modify, MessageLog.messages_touch, hm, Option.map_eq_map, Option.map_some]
    refine ⟨_, rfl, ?_⟩
    split
    · next hi =>
      have hid : m.messageId = some id := by
        obtain ⟨before, old, after, hmessages, hlength, -, hold⟩ :=
          MessageLog.position_split hposition
        rw [MessageLog.messages_touch] at hmessages
        rw [hmessages, ← hi, ← hlength, List.getElem?_append_right le_rfl, Nat.sub_self,
          List.getElem?_cons_zero] at hm
        obtain rfl := Option.some.inj hm
        exact hold
      rcases h with ⟨h, rfl⟩ | ⟨h, hstatus⟩
      · exact .settled _ hid h rfl
      · exact .taken _ hid h fun heq => hstatus (Option.some.inj heq)
    · exact .same

/-! ## The steps of a send -/

/-- A step of a send touches one message: its row is marked, not as delivered, and its attempt
    changes, if there is one. -/
structure Noted (id : String) (o o' : Outbox ChatMessage) : Prop where
  log : Marks (fun _ => False) (· = id) o.log o'.log
  others : ∀ k, id ≠ k → o'.attempts[k]? = o.attempts[k]?
  gone : o.attempts[id]? = none → o'.attempts[id]? = none

namespace Noted

variable {id : String} {o o' o'' : Outbox ChatMessage}

theorem refl (id : String) (o : Outbox ChatMessage) : Noted id o o :=
  ⟨.refl _, fun _ _ => rfl, fun h => h⟩

theorem trans (h₁ : Noted id o o') (h₂ : Noted id o' o'') : Noted id o o'' :=
  ⟨h₁.log.trans h₂.log, fun k hk => (h₂.others k hk).trans (h₁.others k hk),
    fun h => h₂.gone (h₁.gone h)⟩

/-- A delivery is noted in the log. -/
theorem mark (id : String) (o : Outbox ChatMessage) (status : MessageDeliveryStatus)
    (error : Option String) (retryCount : Nat) (hstatus : status ≠ .delivered) :
    Noted id o { o with log := (o.log.markDelivery id status error retryCount).1 } :=
  ⟨marks_markDelivery o.log id status error retryCount (.inr ⟨rfl, hstatus⟩), fun _ _ => rfl,
    fun h => h⟩

/-- The attempt changes. -/
theorem alter (id : String) (o : Outbox ChatMessage) (change : OutboundAttempt → OutboundAttempt) :
    Noted id o { o with attempts := o.attempts.alter id (Option.map change) } := by
  refine ⟨.refl _, fun k hk => ?_, fun h => ?_⟩
  · simp [Table.getElem?_alter, hk]
  · simp [h]

/-- An attempt that is there is replaced. -/
theorem insert {id : String} {o : Outbox ChatMessage} {attempt : OutboundAttempt}
    (hattempt : o.attempts[id]? = some attempt) (attempt' : OutboundAttempt) :
    Noted id o { o with attempts := o.attempts.insert id attempt' } := by
  refine ⟨.refl _, fun k hk => ?_, fun h => ?_⟩
  · simp [Table.getElem?_insert, hk]
  · rw [h] at hattempt
    cases hattempt

theorem sync (codec : OutboxCodec ChatMessage) (id : String) (o : Outbox ChatMessage) :
    Noted id o (o.syncMessageJson codec id).2 := by
  obtain ⟨hlog, hothers, hgone⟩ := Outbox.syncMessageJson_frame codec o id
  exact ⟨hlog ▸ .refl _, hothers, hgone⟩

theorem settle (codec : OutboxCodec ChatMessage) (o : Outbox ChatMessage) (now : Nat)
    (id : String) (outcome : Except String Unit) :
    Noted id o (o.settle codec now id outcome .retain).2 := by
  cases outcome with
  | ok _ =>
    rw [Outbox.settle]
    dsimp only
    have hmark := Noted.mark id o .sent none ((o.attempts[id]?.map (·.retryCount)).getD 0)
      (by decide)
    split
    · next log e hlog =>
      rw [hlog] at hmark
      exact hmark
    · next log u hlog =>
      rw [hlog] at hmark
      have hall := (hmark.trans (alter id _ fun attempt => { attempt with
        everPublished := some true
        deliveryStatus := .sent
        deliveryError := none
        lastSendMs := now })).trans (sync codec id _)
      split <;> next heq => rw [heq] at hall; exact hall
  | error error =>
    rw [Outbox.settle]
    have halter := alter id o fun attempt => { attempt with
      deliveryStatus := .failed
      deliveryError := some error }
    have hmark := halter.trans (Noted.mark id _ .failed (some error)
      ((o.attempts[id]?.map (·.retryCount)).getD 0) (by decide))
    split
    · next log e hlog =>
      rw [hlog] at hmark
      exact hmark
    · next log u hlog =>
      rw [hlog] at hmark
      have hall := hmark.trans (sync codec id _)
      split <;> next heq => rw [heq] at hall; exact hall

theorem activateQueue (codec : OutboxCodec ChatMessage) (o : Outbox ChatMessage) (id : String) :
    Noted id o (o.activateQueue codec id).2 := by
  rw [Outbox.activateQueue]
  split
  · exact .refl id o
  · next attempt hattempt =>
    have hmark := (insert hattempt { attempt with
      deliveryStatus := .queued, deliveryError := none }).trans
        (Noted.mark id _ .queued none attempt.retryCount (by decide))
    dsimp only
    split
    · next log e hlog =>
      rw [hlog] at hmark
      exact hmark
    · next log u hlog =>
      rw [hlog] at hmark
      exact hmark.trans (sync codec id _)

theorem reopen (codec : OutboxCodec ChatMessage) (o : Outbox ChatMessage) (id : String) :
    Noted id o (o.reopen codec id).2 := by
  rw [Outbox.reopen, Outbox.reopenAs]
  split
  · exact .refl id o
  · next attempt hattempt =>
    set attempt' : OutboundAttempt := { attempt with
      retryCount := min (attempt.retryCount + 1) maxRetryCount
      deliveryStatus := .pending
      deliveryError := none }
    have hinsert := insert hattempt attempt'
    have hmark := hinsert.trans
      (Noted.mark id _ .pending none attempt'.retryCount (by decide))
    dsimp only
    split
    · exact hinsert
    split
    · next log e hlog =>
      rw [hlog] at hmark
      exact hmark
    · next log u hlog =>
      rw [hlog] at hmark
      have hall := hmark.trans (sync codec id _)
      split <;> next heq => rw [heq] at hall; exact hall

end Noted

/-! ## Effects -/

/-- The log holds a row with an id. -/
def Held (log : MessageLog ChatMessage) (id : String) : Prop :=
  ∃ m ∈ log.messages, m.messageId = some id

namespace PrivateDmSession

variable {Key Signature σ C : Type} {c : TextCrypto Key Signature σ C} {h : Host C}
  {s s' s'' : PrivateDmSession σ C} {settled taken settled' taken' : String → Prop} {id : String}

/-- The frames that a session hands to the transport: texts of its own that have an attempt, and
    receipts of messages that it holds. -/
def Emits (c : TextCrypto Key Signature σ C) (s : PrivateDmSession σ C) : Frame C → Prop
  | .data envelope => envelope.participantId = s.participantId ∧
      envelope.fromDevice = s.deviceId ∧
      ∃ id, envelope.messageId = some id ∧ s.outboundAttempts[id]?.isSome = true
  | .deliveryAck _ participantId ciphertext => participantId = s.participantId ∧
      ∃ (id : String) (x y : σ), c.encrypt x id = .ok (ciphertext, y) ∧ Held s.messages id

/-- What a session does, apart from filing and keeping texts: deliveries of the messages named
    are noted, attempts change or end, and frames go out. -/
structure Effect (c : TextCrypto Key Signature σ C) (settled taken : String → Prop)
    (s s' : PrivateDmSession σ C) : Prop where
  participantId : s'.participantId = s.participantId
  deviceId : s'.deviceId = s.deviceId
  filed : s'.filed = s.filed
  live : s'.devicesLive = s.devicesLive
  log : Marks settled taken s.messages s'.messages
  /-- Only of a message that is taken up does the attempt change its status. -/
  attempts : ∀ id a', s'.outboundAttempts[id]? = some a' → ∃ a, s.outboundAttempts[id]? = some a ∧
    (taken id ∨ a'.deliveryStatus = a.deliveryStatus)
  sent : ∃ frames, s'.sent = s.sent ++ frames ∧ ∀ frame ∈ frames, s.Emits c frame

theorem held_iff_of_marks {log log' : MessageLog ChatMessage} (h : Marks settled taken log log')
    (id : String) : Held log' id ↔ Held log id := by
  constructor
  · rintro ⟨m', hm', hid⟩
    obtain ⟨i, hi⟩ := List.getElem?_of_mem hm'
    obtain ⟨m, hm, hmarked⟩ := h.old hi
    exact ⟨m, List.mem_of_getElem? hm, hmarked.messageId ▸ hid⟩
  · rintro ⟨m, hm, hid⟩
    obtain ⟨i, hi⟩ := List.getElem?_of_mem hm
    obtain ⟨m', hm', hmarked⟩ := h.rows i m hi
    exact ⟨m', List.mem_of_getElem? hm', hmarked.messageId.trans hid⟩

namespace Effect

theorem refl (s : PrivateDmSession σ C) : Effect c settled taken s s :=
  ⟨rfl, rfl, rfl, rfl, .refl _, fun _ a ha => ⟨a, ha, .inr rfl⟩,
    [], (List.append_nil _).symm, fun _ h => absurd h List.not_mem_nil⟩

theorem mono (e : Effect c settled taken s s') (hs : ∀ id, settled id → settled' id)
    (ht : ∀ id, taken id → taken' id) : Effect c settled' taken' s s' :=
  { e with
    log := e.log.mono hs ht
    attempts := fun id a' ha' => (e.attempts id a' ha').imp fun _ h => ⟨h.1, h.2.imp_left (ht id)⟩ }

/-- What goes out after an effect could have gone out before it. -/
theorem emits (e : Effect c settled taken s s') {frame : Frame C} (hf : s'.Emits c frame) :
    s.Emits c frame := by
  cases frame with
  | data envelope =>
    obtain ⟨hp, hd, id, hid, hattempt⟩ := hf
    obtain ⟨a', ha'⟩ := Option.isSome_iff_exists.1 hattempt
    obtain ⟨a, ha, -⟩ := e.attempts id a' ha'
    exact ⟨hp.trans e.participantId, hd.trans e.deviceId, id, hid, by rw [ha]; rfl⟩
  | deliveryAck _ _ _ =>
    obtain ⟨hp, id, x, y, hencrypt, hheld⟩ := hf
    exact ⟨hp.trans e.participantId, id, x, y, hencrypt, (held_iff_of_marks e.log id).1 hheld⟩

theorem trans (e₁ : Effect c settled taken s s') (e₂ : Effect c settled taken s' s'') :
    Effect c settled taken s s'' where
  participantId := e₂.participantId.trans e₁.participantId
  deviceId := e₂.deviceId.trans e₁.deviceId
  filed := e₂.filed.trans e₁.filed
  live := e₂.live.trans e₁.live
  log := e₁.log.trans e₂.log
  attempts id a'' ha'' := by
    obtain ⟨a', ha', h₂⟩ := e₂.attempts id a'' ha''
    obtain ⟨a, ha, h₁⟩ := e₁.attempts id a' ha'
    refine ⟨a, ha, ?_⟩
    rcases h₂ with h₂ | h₂
    · exact .inl h₂
    · exact h₁.imp_right fun h => h₂.trans h
  sent := by
    obtain ⟨f₁, hsent₁, h₁⟩ := e₁.sent
    obtain ⟨f₂, hsent₂, h₂⟩ := e₂.sent
    refine ⟨f₁ ++ f₂, by rw [hsent₂, hsent₁, List.append_assoc], fun f hf => ?_⟩
    rcases List.mem_append.1 hf with hf | hf
    · exact h₁ f hf
    · exact e₁.emits (h₂ f hf)

/-- Nothing of what an effect speaks about changes. -/
theorem of_eq (hp : s'.participantId = s.participantId) (hd : s'.deviceId = s.deviceId)
    (hf : s'.filed = s.filed) (hl : s'.devicesLive = s.devicesLive)
    (hm : s'.messages = s.messages) (ha : s'.outboundAttempts = s.outboundAttempts)
    (hsent : s'.sent = s.sent) : Effect c settled taken s s' :=
  ⟨hp, hd, hf, hl, hm ▸ .refl _, fun _ a h => ⟨a, ha ▸ h, .inr rfl⟩,
    [], by rw [hsent, List.append_nil], fun _ h => absurd h List.not_mem_nil⟩

/-- A fold of effects is an effect. -/
theorem foldl {α : Type} (f : PrivateDmSession σ C → α → PrivateDmSession σ C) (l : List α)
    (hf : ∀ s, ∀ a ∈ l, Effect c settled taken s (f s a)) (s : PrivateDmSession σ C) :
    Effect c settled taken s (l.foldl f s) := by
  induction l generalizing s with
  | nil => exact .refl s
  | cons a l ih =>
    exact (hf s a List.mem_cons_self).trans
      (ih (fun s b hb => hf s b (List.mem_cons_of_mem a hb)) (f s a))

end Effect

/-! ### Attempts and frames -/

/-- A step of a send takes its message up. -/
theorem inOutbox_effect {α : Type} {step : Outbox ChatMessage → Except String α × Outbox ChatMessage}
    (hstep : Noted id s.outbox (step s.outbox).2) (ht : taken id) :
    Effect c settled taken s (s.inOutbox step).2 where
  participantId := rfl
  deviceId := rfl
  filed := rfl
  live := rfl
  log := hstep.log.mono (fun _ h => h.elim) fun _ h => h ▸ ht
  attempts k a' ha' := by
    by_cases hk : id = k
    · subst hk
      cases ha : s.outboundAttempts[id]? with
      | none => cases (hstep.gone ha).symm.trans ha'
      | some a => exact ⟨a, rfl, .inl ht⟩
    · exact ⟨a', (hstep.others k hk).symm.trans ha', .inr rfl⟩
  sent := ⟨[], (List.append_nil _).symm, fun _ h => absurd h List.not_mem_nil⟩

/-- An attempt changes, but for its status. -/
theorem updateAttempt_effect {change : OutboundAttempt → OutboundAttempt}
    (hchange : ∀ a, (change a).deliveryStatus = a.deliveryStatus) :
    Effect c settled taken s (s.updateAttempt id change) where
  participantId := rfl
  deviceId := rfl
  filed := rfl
  live := rfl
  log := .refl _
  attempts k a' ha' := by
    rw [updateAttempt, Table.getElem?_alter] at ha'
    split at ha'
    · next hk =>
      subst hk
      obtain ⟨a, ha, rfl⟩ := Option.map_eq_some_iff.1 ha'
      exact ⟨a, ha, .inr (hchange a)⟩
    · exact ⟨a', ha', .inr rfl⟩
  sent := ⟨[], (List.append_nil _).symm, fun _ h => absurd h List.not_mem_nil⟩

/-- A frame goes out, unless it is too large. -/
theorem routeSend_effect {frame : Frame C} (hf : s.Emits c frame) :
    Effect c settled taken s (s.routeSend c h frame).2 := by
  have hsent : Effect c settled taken s { s with sent := s.sent ++ [frame] } :=
    ⟨rfl, rfl, rfl, rfl, .refl _, fun _ a ha => ⟨a, ha, .inr rfl⟩,
      [frame], rfl, fun f hmem => List.mem_singleton.1 hmem ▸ hf⟩
  rw [routeSend]
  split
  · exact .refl s
  · dsimp only
    split <;> exact hsent

/-- A receipt of a message that is held goes out. -/
theorem sendDeliveryAck_effect (hheld : Held s.messages id) :
    Effect c settled taken s (s.sendDeliveryAck c h id) := by
  rw [sendDeliveryAck]
  split
  · exact .refl s
  · next ciphertext crypto hencrypt =>
    have hcrypto : Effect c settled taken s { s with crypto } := .of_eq rfl rfl rfl rfl rfl rfl rfl
    exact hcrypto.trans (routeSend_effect ⟨rfl, id, _, _, hencrypt, hheld⟩)

/-- The receipts that are expected do not matter. -/
theorem live_map_membership {change : DeviceMembership → DeviceMembership}
    (hchange : ∀ m, (change m).live = m.live) :
    (s.membership.map change).any (·.live) = s.devicesLive := by
  rw [devicesLive]
  cases s.membership with
  | none => rfl
  | some m => exact hchange m

theorem trackDeviceReceipts_effect : Effect c settled taken s (s.trackDeviceReceipts c id) := by
  rw [trackDeviceReceipts]
  split
  · exact .refl s
  · exact .of_eq rfl rfl rfl (live_map_membership fun _ => rfl) rfl rfl rfl

/-! ### Texts go out -/

theorem signDeviceText_eq_ok {envelope signed : DataEnvelope C}
    (hsigned : s.signDeviceText c envelope = .ok signed) :
    ∃ signature, signed = { envelope with deviceSignature := signature } := by
  rw [signDeviceText] at hsigned
  split at hsigned
  · exact ⟨envelope.deviceSignature, (Except.ok.inj hsigned).symm⟩
  · split at hsigned
    · obtain ⟨bytes, -, h⟩ := Checked.bind_eq_ok.1 hsigned
      exact ⟨_, (Except.ok.inj h).symm⟩
    · cases hsigned

/-- Publishing a text takes no message up. -/
theorem publishText_effect (id : String) (resend : Option Nat) :
    Effect c settled taken s (s.publishText c h id resend).2 := by
  rw [publishText]
  split
  · exact .refl s
  split
  · exact .refl s
  next attempt hattempt =>
  split
  · exact .refl s
  next ciphertext crypto hencrypt =>
  have hcrypto : Effect c settled taken s { s with crypto } := .of_eq rfl rfl rfl rfl rfl rfl rfl
  dsimp only
  split
  · exact hcrypto
  next envelope hsigned =>
  obtain ⟨signature, henvelope⟩ := signDeviceText_eq_ok hsigned
  have hemits : s.Emits c (.data envelope) := by
    rw [henvelope]
    exact ⟨rfl, rfl, id, rfl, by rw [hattempt]; rfl⟩
  have htracked : PrivateDmSession.Emits c (trackDeviceReceipts c { s with crypto } id)
      (.data envelope) := by
    rw [trackDeviceReceipts]
    split <;> exact hemits
  have hroute := (hcrypto.trans trackDeviceReceipts_effect).trans (routeSend_effect (h := h) htracked)
  split
  · next heq =>
    rw [heq] at hroute
    exact hroute
  · next heq =>
    rw [heq] at hroute
    exact hroute.trans (updateAttempt_effect fun _ => rfl)

/-- A turn of the outbox takes up the text that it publishes. -/
theorem publishQueued_effect (ht : taken id) :
    Effect c settled taken s (s.publishQueued c h id).2 := by
  have hpublish : Effect c settled taken s (s.publishText c h id none).2 :=
    publishText_effect id none
  rw [publishQueued]
  split
  · next heq =>
    rw [heq] at hpublish
    exact hpublish
  · next s₁ heq =>
    rw [heq] at hpublish
    have hsettle : Effect c settled taken s₁
        (s₁.inOutbox fun o => o.settle c.outbox h.now id (.ok ()) .retain).2 :=
      inOutbox_effect (Noted.settle ..) ht
    exact hpublish.trans hsettle

theorem resumeSend_effect (ht : taken id) : Effect c settled taken s (s.resumeSend c id) := by
  have hqueue : Effect c settled taken s (s.inOutbox fun o => o.activateQueue c.outbox id).2 :=
    inOutbox_effect (Noted.activateQueue ..) ht
  rw [resumeSend]
  split
  · next heq =>
    rw [heq] at hqueue
    exact hqueue
  · next s₁ heq =>
    rw [heq] at hqueue
    have hreset : Effect c settled taken s₁
        (s₁.updateAttempt id fun attempt => { attempt with autoResends := 0 }) :=
      updateAttempt_effect fun _ => rfl
    exact (hqueue.trans hreset).trans (.of_eq rfl rfl rfl rfl rfl rfl rfl)

/-- Another round begins for the texts that are published no more. -/
theorem resumeExhaustedSends_effect (ht : ∀ id ∈ s.exhaustedSends, taken id) :
    Effect c settled taken s (s.resumeExhaustedSends c) :=
  .foldl _ _ (fun _ id hid => resumeSend_effect (ht id hid)) s

/-- Attempts end. -/
theorem finishDeviceResends_effect : Effect c settled taken s s.finishDeviceResends.2 := by
  rw [finishDeviceResends]
  split
  · exact .refl s
  refine .foldl _ _ (fun s id _ => ?_) s
  refine ⟨rfl, rfl, rfl, live_map_membership fun _ => rfl, .refl _, fun k a' ha' => ?_,
    [], (List.append_nil _).symm, fun _ h => absurd h List.not_mem_nil⟩
  rw [Table.getElem?_erase] at ha'
  split at ha'
  · cases ha'
  · exact ⟨a', ha', .inr rfl⟩

theorem resendText_effect (autoResends : Nat) :
    Effect c settled taken s (s.resendText c h id autoResends) := by
  have hstamp : Effect c settled taken s
      (s.updateAttempt id fun attempt => { attempt with lastSendMs := h.now }) :=
    updateAttempt_effect fun _ => rfl
  have hpublish := hstamp.trans (publishText_effect (h := h) id (some (autoResends + 1)))
  rw [resendText]
  split
  · next heq =>
    rw [heq] at hpublish
    exact hpublish
  · next heq =>
    rw [heq] at hpublish
    exact hpublish.trans (updateAttempt_effect fun _ => rfl)

/-- Texts that are overdue go out again as they are. -/
theorem pumpUnackedResends_effect : Effect c settled taken s (s.pumpUnackedResends c h) := by
  rw [pumpUnackedResends]
  split
  · exact .refl s
  · exact finishDeviceResends_effect.trans (.foldl _ _ (fun _ _ _ => resendText_effect _) _)

theorem deliverTexts_effect {ids : List String} (ht : ∀ id ∈ ids, taken id) :
    Effect c settled taken s (deliverTexts c h s ids).2 := by
  -- The queue, one text after the other.
  induction ids generalizing s with
  | nil => exact .refl s
  | cons id ids ih =>
    have hid := ht id List.mem_cons_self
    have hpublish : Effect c settled taken s (s.publishQueued c h id).2 := publishQueued_effect hid
    rw [deliverTexts]
    split
    · exact .refl s
    split
    · next s₁ heq =>
      rw [heq] at hpublish
      have hfail : Effect c settled taken s₁
          (s₁.inOutbox fun o => o.settle c.outbox h.now id (.error payloadTooLarge) .retain).2 :=
        inOutbox_effect (Noted.settle ..) hid
      split
      · next heq' =>
        rw [heq'] at hfail
        exact hpublish.trans hfail
      · next heq' =>
        rw [heq'] at hfail
        split
        · exact hpublish.trans hfail
        · exact (hpublish.trans hfail).trans (ih fun k hk => ht k (List.mem_cons_of_mem id hk))
    · next heq =>
      rw [heq] at hpublish
      exact hpublish
    · next heq =>
      rw [heq] at hpublish
      split
      · exact hpublish
      · exact hpublish.trans (ih fun k hk => ht k (List.mem_cons_of_mem id hk))

/-- A turn of the outbox takes up what is queued. -/
theorem deliverQueued_effect (ht : ∀ id ∈ s.queuedInOrder, taken id) :
    Effect c settled taken s (s.deliverQueued c h).2 := by
  rw [deliverQueued]
  split
  · exact .refl s
  · exact deliverTexts_effect ht

theorem admitQueued_effect (ht : taken id) :
    Effect c settled taken s (s.admitQueued c h id).2 := by
  rw [admitQueued]
  split
  · next e _ =>
    have hfail : Effect c settled taken s
        (s.inOutbox fun o => o.settle c.outbox h.now id (.error e) .retain).2 :=
      inOutbox_effect (Noted.settle ..) ht
    split <;> next heq => rw [heq] at hfail; exact hfail
  · exact inOutbox_effect (Noted.activateQueue ..) ht

/-- The attempt of a queued text. -/
theorem mem_queuedInOrder : id ∈ s.queuedInOrder ↔
    ∃ a, s.outboundAttempts[id]? = some a ∧ a.deliveryStatus = .queued := by
  rw [queuedInOrder]
  simp only [List.mem_map, List.mem_insertionSort, List.mem_filter, decide_eq_true_eq, Prod.exists,
    ExtTreeMap.mem_toList_iff_getElem?_eq_some]
  constructor
  · rintro ⟨_, _, ⟨_, a, ⟨ha, hstatus⟩, h⟩, rfl⟩
    cases h
    exact ⟨a, ha, hstatus⟩
  · rintro ⟨a, ha, hstatus⟩
    exact ⟨a.sentAtMs, id, ⟨id, a, ⟨ha, hstatus⟩, rfl⟩, rfl⟩

/-- The attempt of a text that is published no more. -/
theorem mem_exhaustedSends : id ∈ s.exhaustedSends ↔
    ∃ a, s.outboundAttempts[id]? = some a ∧ a.deliveryStatus = .sent ∧
      autoResendMax ≤ a.autoResends ∧ s.undelivered id = true := by
  rw [exhaustedSends]
  simp only [List.mem_map, List.mem_filter, Bool.and_eq_true, decide_eq_true_eq, Prod.exists,
    ExtTreeMap.mem_toList_iff_getElem?_eq_some]
  constructor
  · rintro ⟨_, a, ⟨ha, ⟨hstatus, hmax⟩, hundelivered⟩, rfl⟩
    exact ⟨a, ha, hstatus, hmax, hundelivered⟩
  · rintro ⟨a, ha, hstatus, hmax, hundelivered⟩
    exact ⟨id, a, ⟨ha, ⟨hstatus, hmax⟩, hundelivered⟩, rfl⟩

/-- What is queued once a text is admitted was queued before, or is this text. -/
theorem Effect.mem_queuedInOrder (e : Effect c settled taken s s') (hid : id ∈ s'.queuedInOrder) :
    id ∈ s.queuedInOrder ∨ taken id := by
  obtain ⟨a', ha', hstatus⟩ := PrivateDmSession.mem_queuedInOrder.1 hid
  obtain ⟨a, ha, ht | h⟩ := e.attempts id a' ha'
  · exact .inr ht
  · exact .inl (PrivateDmSession.mem_queuedInOrder.2 ⟨a, ha, h.symm.trans hstatus⟩)

/-- A retry takes up its message, and what is queued. -/
theorem retryMessage_effect (ht : taken id) (hq : ∀ k ∈ s.queuedInOrder, taken k) :
    Effect c settled taken s (s.retryMessage c h id).2 := by
  have hreopen : Effect c settled (· = id) s (s.inOutbox fun o => o.reopen c.outbox id).2 :=
    inOutbox_effect (Noted.reopen ..) rfl
  have hmono : ∀ k, k = id → taken k := fun _ hk => hk ▸ ht
  rw [retryMessage]
  split
  · exact .refl s
  split
  · exact .refl s
  split
  · exact .refl s
  split
  · exact .refl s
  split
  · next heq =>
    rw [heq] at hreopen
    exact hreopen.mono (fun _ h => h) hmono
  next s₁ heq =>
  rw [heq] at hreopen
  have hadmission : Effect c settled (· = id) s (s₁.admitQueued c h id).2 :=
    hreopen.trans (admitQueued_effect rfl)
  split
  · next heq =>
    rw [heq] at hadmission
    exact hadmission.mono (fun _ h => h) hmono
  · next heq =>
    rw [heq] at hadmission
    refine (hadmission.mono (fun _ h => h) hmono).trans (deliverQueued_effect fun k hk => ?_)
    exact (hadmission.mem_queuedInOrder hk).elim (hq k) (hmono k)

/-! ### Frames come in -/

/-- A frame of the contact begins another round for the texts that are published no more. -/
theorem noteAuthenticatedFrame_effect {fromDevice : String}
    (ht : ∀ id ∈ s.exhaustedSends, taken id) :
    Effect c settled taken s (s.noteAuthenticatedFrame c fromDevice) := by
  have hname : Effect c settled taken s (s.notePeerName fromDevice) ∧
      (s.notePeerName fromDevice).exhaustedSends = s.exhaustedSends := by
    rw [notePeerName]
    split
    · exact ⟨.refl s, rfl⟩
    · exact ⟨.of_eq rfl rfl rfl rfl rfl rfl rfl, rfl⟩
  rw [noteAuthenticatedFrame]
  dsimp only
  split
  · split
    · refine Effect.trans ?_ (resumeExhaustedSends_effect fun id hid => ht id (hname.2 ▸ hid))
      exact hname.1.trans (.of_eq rfl rfl rfl rfl rfl rfl rfl)
    · exact hname.1.trans (.of_eq rfl rfl rfl rfl rfl rfl rfl)
  · exact hname.1

/-- The attempt of a message ends. -/
theorem eraseAttempt_effect (id : String) : Effect c settled taken s
    { s with outboundAttempts := s.outboundAttempts.erase id } := by
  refine ⟨rfl, rfl, rfl, rfl, .refl _, fun k a' ha' => ?_,
    [], (List.append_nil _).symm, fun _ h => absurd h List.not_mem_nil⟩
  rw [Table.getElem?_erase] at ha'
  split at ha'
  · cases ha'
  · exact ⟨a', ha', .inr rfl⟩

/-- A message is settled as delivered. -/
theorem settle_effect (hs : settled id) (retryCount : Nat) : Effect c settled taken s
    { s with messages := (s.messages.markDelivery id .delivered none retryCount).1 } :=
  ⟨rfl, rfl, rfl, rfl, marks_markDelivery _ _ _ _ _ (.inl ⟨hs, rfl⟩), fun _ a ha => ⟨a, ha, .inr rfl⟩,
    [], (List.append_nil _).symm, fun _ h => absurd h List.not_mem_nil⟩

/-- The receipt of a device takes nothing up, and settles its message if it is one of the
    contact. -/
theorem noteDeviceReceipt_effect {membership : DeviceMembership} {signer : String} {own : Bool}
    (hm : s.membership = some membership) (hs : own = false → settled id) :
    Effect c settled taken s (s.noteDeviceReceipt membership id signer own).2 := by
  rw [noteDeviceReceipt]
  dsimp only
  set deliveredIds := if !own && id ∉ membership.deliveredIds then _ else membership.deliveredIds
  set receiptTargets := if receiptsDone membership id signer then _ else _
  set s₁ : PrivateDmSession σ C :=
    { s with membership := some { membership with deliveredIds, receiptTargets } } with hs₁
  have hfirst : Effect c settled taken s s₁ := by
    refine .of_eq rfl rfl rfl ?_ rfl rfl rfl
    rw [devicesLive, devicesLive, hm]
    rfl
  cases hmine : !own && s₁.messages.messages.any (s₁.isOwnRow id) with
  | false =>
    simp only [Bool.false_eq_true, if_false]
    split
    · exact (hfirst.trans (eraseAttempt_effect id)).trans (.of_eq rfl rfl rfl rfl rfl rfl rfl)
    · exact hfirst.trans (.of_eq rfl rfl rfl rfl rfl rfl rfl)
  | true =>
    have hown : own = false := by
      simpa using (Bool.and_eq_true_iff.1 hmine).1
    simp only [if_true]
    have hmark := hfirst.trans (settle_effect (hs hown)
      ((s₁.outboundAttempts[id]?.map (·.retryCount)).getD 0))
    split
    · exact hmark
    · split
      · exact (hmark.trans (eraseAttempt_effect id)).trans (.of_eq rfl rfl rfl rfl rfl rfl rfl)
      · exact hmark.trans (.of_eq rfl rfl rfl rfl rfl rfl rfl)

/-- Without linked devices, a receipt settles its message. -/
theorem acceptDeliveryAck_effect {ackCiphertext : C} (hlive : s.devicesLive = false)
    (hs : ∀ id signer y, c.decrypt s.crypto ackCiphertext = .ok (id, signer, y) → settled id) :
    Effect c settled (fun _ => True) s (s.acceptDeliveryAck c ackCiphertext).2 := by
  rw [acceptDeliveryAck]
  split
  · exact .refl s
  next id signer crypto hdecrypt =>
  have hcrypto : Effect c settled (fun _ => True) s { s with crypto } :=
    .of_eq rfl rfl rfl rfl rfl rfl rfl
  dsimp only
  rw [if_neg (by rw [devicesLive] at hlive ⊢; rw [hlive]; exact Bool.false_ne_true)]
  have hnote : Effect c settled (fun _ => True) s (noteAuthenticatedFrame c { s with crypto } "") :=
    hcrypto.trans (noteAuthenticatedFrame_effect fun _ _ => trivial)
  split
  · exact hnote
  next attempt _ =>
  have hmark := (hnote.trans (eraseAttempt_effect id)).trans
    (settle_effect (hs id signer crypto hdecrypt) attempt.retryCount)
  split
  · next heq =>
    rw [heq] at hmark
    exact hmark
  · next heq =>
    rw [heq] at hmark
    refine Effect.trans ?_ (resumeExhaustedSends_effect fun _ _ => trivial)
    exact hmark.trans (.of_eq rfl rfl rfl rfl rfl rfl rfl)

end PrivateDmSession

end Mosh.PrivateDm
