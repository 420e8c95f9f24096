import Mosh.PrivateDm.Effects
import Mosh.Library.Run

/-!
# Delivery between two installations

Two installations talk over a network that loses, repeats and reorders frames (`World`). What
holds of one of them, given the other, is `Sound`: its rows carry the ids that one of the two
gave to its texts, no two rows of one sender share an id, the frames it sent are texts of its
own and receipts of messages in its log, and a message that it shows as delivered is in the
log of the other one. A step of the one keeps this, and takes nothing from the other.

* `delivery_agreement`: in every run of two installations without linked devices no log holds
  a message of a sender twice, a message that shows as delivered is in the log of the other
  side, and only messages that are in the log are answered with a receipt.
-/

namespace Mosh.PrivateDm

open Std (ExtTreeMap)
open Conversation Deletion DmDevices ConversationMessage
open Run

variable {Key Signature σ C : Type}

/-! ## Two installations -/

/-- The two sides of a direct message. -/
inductive Party
  | alice | bob
  deriving DecidableEq, Repr

def Party.other : Party → Party
  | .alice => .bob
  | .bob => .alice

@[simp]
theorem Party.other_other (p : Party) : p.other.other = p := by cases p <;> rfl

@[simp]
theorem Party.other_ne (p : Party) : p.other ≠ p := by cases p <;> decide

/-- What happens at one side: an event of the session, or the erasure of a row, with what is left
    of it. The attempt of the message may be cancelled. -/
inductive Action (σ C : Type)
  | event (host : Host C) (event : PrivateDmSession.Event σ C)
  | erase (index : Nat) (marker : DeletionMarker) (key : String) (correlation : Option String)
      (localOnly cancelled : Bool)

/-- A row is erased. -/
def PrivateDmSession.eraseRow (s : PrivateDmSession σ C) (index : Nat) (marker : DeletionMarker)
    (key : String) (correlation : Option String) (localOnly cancelled : Bool) :
    PrivateDmSession σ C :=
  match s.messages.messages[index]? with
  | none => s
  | some m =>
    { s with
      messages := s.messages.replace index (erase m marker key correlation localOnly)
      outboundAttempts :=
        if cancelled then s.outboundAttempts.erase (m.messageId.getD "") else s.outboundAttempts }

/-- What an event needs. The network brings frames that were sent, to anyone, in any order and any
    number of times. The id that a side gives to a text is not one that it gave before. No device
    is linked. -/
def PrivateDmSession.Admits (peer s : PrivateDmSession σ C) (host : Host C) :
    PrivateDmSession.Event σ C → Prop
  | .send body => ∀ id, (s.messages.stamp host.now host.occurrence
      { fromDevice := s.deviceId, body }).1.messageId = some id → id ∉ s.filed
  | .receive frame => frame ∈ peer.sent ∨ frame ∈ s.sent
  | .transition _ membership _ => membership.live = false
  | _ => True

/-- The sessions of both sides. -/
abbrev World (σ C : Type) := Party → PrivateDmSession σ C

namespace World

variable (c : TextCrypto Key Signature σ C)

/-- The session of a side after an action. -/
def act (s : PrivateDmSession σ C) : Action σ C → PrivateDmSession σ C
  | .event host event => s.step c host event
  | .erase index marker key correlation localOnly cancelled =>
    s.eraseRow index marker key correlation localOnly cancelled

/-- One side acts. -/
def step (w : World σ C) (a : Party × Action σ C) : World σ C :=
  Function.update w a.1 (act c (w a.1) a.2)

/-- Anything may be erased, and an event finds what it needs. -/
def Admits (w : World σ C) : Party × Action σ C → Prop
  | (p, .event host event) => PrivateDmSession.Admits (w p.other) (w p) host event
  | (_, .erase ..) => True

/-- Both sides begin without messages, and without linked devices. -/
structure Established (w : World σ C) : Prop where
  live : ∀ p, (w p).devicesLive = false
  messages : ∀ p, (w p).messages = {}
  outboundAttempts : ∀ p, (w p).outboundAttempts = ∅
  sent : ∀ p, (w p).sent = []
  filed : ∀ p, (w p).filed = []

end World

/-! ## One side, given the other -/

namespace PrivateDmSession

variable {c : TextCrypto Key Signature σ C} {h : Host C} {s s' peer peer' : PrivateDmSession σ C}

/-- The author of a row gave it its id. -/
def Given (peer s : PrivateDmSession σ C) (m : ChatMessage) : Prop :=
  ∃ id, m.messageId = some id ∧ (m.fromDevice = s.deviceId ∧ id ∈ s.filed ∨
    m.fromDevice = peer.deviceId ∧ id ∈ peer.filed)

/-- A frame is one of a side: a text of its own, or a receipt of a message in its log. -/
def Sends (c : TextCrypto Key Signature σ C) (s : PrivateDmSession σ C) : Frame C → Prop
  | .data envelope => envelope.participantId = s.participantId ∧
      envelope.fromDevice = s.deviceId ∧ ∃ id ∈ s.filed, envelope.messageId = some id
  | .deliveryAck _ participantId ciphertext => participantId = s.participantId ∧
      ∃ (id : String) (x y : σ), c.encrypt x id = .ok (ciphertext, y) ∧ Held s.messages id

/-- No two rows of a sender share an id. -/
def Unique (rows : List ChatMessage) : Prop :=
  ∀ (i j : Nat) (m n : ChatMessage), rows[i]? = some m → rows[j]? = some n →
    m.fromDevice = n.fromDevice → m.messageId = n.messageId → i = j

/-- What holds of one side, given the other. -/
structure Sound (c : TextCrypto Key Signature σ C) (peer s : PrivateDmSession σ C) : Prop where
  live : s.devicesLive = false
  rows : ∀ m ∈ s.messages.messages, Given peer s m
  unique : Unique s.messages.messages
  erased : ∀ id ∈ s.messages.erasedIds, Held s.messages id
  filed : ∀ id ∈ s.filed, id ≠ ""
  attempts : ∀ id a, s.outboundAttempts[id]? = some a → id ∈ s.filed
  sent : ∀ frame ∈ s.sent, s.Sends c frame
  /-- What is delivered is in the log of the other side. -/
  delivered : ∀ m ∈ s.messages.messages, m.delivery.deliveryStatus = some .delivered →
    ∀ id, m.messageId = some id → Held peer.messages id

/-- What a side does not lose: its names, the ids it gave, and the messages in its log. -/
structure Grows (s s' : PrivateDmSession σ C) : Prop where
  participantId : s'.participantId = s.participantId
  deviceId : s'.deviceId = s.deviceId
  filed : ∀ id ∈ s.filed, id ∈ s'.filed
  held : ∀ id, Held s.messages id → Held s'.messages id

theorem Grows.refl (s : PrivateDmSession σ C) : Grows s s := ⟨rfl, rfl, fun _ h => h, fun _ h => h⟩

theorem Grows.trans {s'' : PrivateDmSession σ C} (h₁ : Grows s s') (h₂ : Grows s' s'') :
    Grows s s'' :=
  ⟨h₂.participantId.trans h₁.participantId, h₂.deviceId.trans h₁.deviceId,
    fun id hid => h₂.filed id (h₁.filed id hid), fun id hid => h₂.held id (h₁.held id hid)⟩

/-- A frame of a side stays one. -/
theorem Grows.sends (g : Grows s s') {frame : Frame C} (hf : s.Sends c frame) :
    s'.Sends c frame := by
  cases frame with
  | data envelope =>
    obtain ⟨hp, hd, id, hid, hmessage⟩ := hf
    exact ⟨hp.trans g.participantId.symm, hd.trans g.deviceId.symm, id, g.filed id hid, hmessage⟩
  | deliveryAck _ _ _ =>
    obtain ⟨hp, id, x, y, hencrypt, hheld⟩ := hf
    exact ⟨hp.trans g.participantId.symm, id, x, y, hencrypt, g.held id hheld⟩

/-- A step of the other side changes nothing. -/
theorem Sound.of_grows (hs : Sound c peer s) (g : Grows peer peer') : Sound c peer' s :=
  { hs with
    rows := fun m hm => by
      obtain ⟨id, hid, h | ⟨hd, hf⟩⟩ := hs.rows m hm
      · exact ⟨id, hid, .inl h⟩
      · exact ⟨id, hid, .inr ⟨hd.trans g.deviceId.symm, g.filed id hf⟩⟩
    delivered := fun m hm hd id hid => g.held id (hs.delivered m hm hd id hid) }

/-! ### Effects keep a side sound -/

theorem Effect.grows {settled taken : String → Prop} (e : Effect c settled taken s s') :
    Grows s s' :=
  ⟨e.participantId, e.deviceId, fun _ hid => e.filed ▸ hid,
    fun id hid => (held_iff_of_marks e.log id).2 hid⟩

/-- Marked rows are the old ones in all that counts here, except for their deliveries. -/
theorem Unique.marks {settled taken : String → Prop} {log log' : MessageLog ChatMessage}
    (hu : Unique log.messages) (hm : Marks settled taken log log') : Unique log'.messages := by
  intro i j m' n' hi hj hauthor hid
  obtain ⟨m, hm₁, hmarked⟩ := hm.old hi
  obtain ⟨n, hn₁, hmarked'⟩ := hm.old hj
  refine hu i j m n hm₁ hn₁ ?_ ?_
  · rw [← hmarked.fromDevice, ← hmarked'.fromDevice, hauthor]
  · rw [← hmarked.messageId, ← hmarked'.messageId, hid]

/-- A row that shares author and id with no other one is appended. -/
theorem Unique.concat {rows : List ChatMessage} {m : ChatMessage} (hu : Unique rows)
    (hnew : ∀ n ∈ rows, n.fromDevice = m.fromDevice → n.messageId = m.messageId → False) :
    Unique (rows ++ [m]) := by
  intro i j n n' hi hj hd hk
  rw [List.getElem?_append] at hi hj
  split at hi <;> split at hj
  · exact hu i j n n' hi hj hd hk
  · obtain rfl : n' = m := List.mem_singleton.1 (List.mem_of_getElem? hj)
    exact (hnew n (List.mem_of_getElem? hi) hd hk).elim
  · obtain rfl : n = m := List.mem_singleton.1 (List.mem_of_getElem? hi)
    exact (hnew n' (List.mem_of_getElem? hj) hd.symm hk.symm).elim
  · have hi' := (List.getElem?_eq_some_iff.1 hi).1
    have hj' := (List.getElem?_eq_some_iff.1 hj).1
    simp only [List.length_singleton] at hi' hj'
    omega

/-- A row that shares author and id with no other one takes the place of a row. -/
theorem Unique.set {rows : List ChatMessage} {m : ChatMessage} {index : Nat} (hu : Unique rows)
    (hnew : ∀ (k : Nat) (n : ChatMessage), rows[k]? = some n → n.fromDevice = m.fromDevice →
      n.messageId = m.messageId → k = index) : Unique (rows.set index m) := by
  intro i j n n' hi hj hd hk
  rw [List.getElem?_set] at hi hj
  split at hi <;> split at hj
  · omega
  · split at hi
    · obtain rfl := Option.some.inj hi
      have := hnew j n' hj hd.symm hk.symm
      omega
    · cases hi
  · split at hj
    · obtain rfl := Option.some.inj hj
      have := hnew i n hi hd hk
      omega
    · cases hj
  · exact hu i j n n' hi hj hd hk

/-- An effect settles only what the other side holds. -/
theorem Sound.effect {settled taken : String → Prop} (hs : Sound c peer s)
    (e : Effect c settled taken s s') (hsettled : ∀ id, settled id → Held peer.messages id) :
    Sound c peer s' where
  live := e.live.trans hs.live
  rows m' hm' := by
    obtain ⟨i, hi⟩ := List.getElem?_of_mem hm'
    obtain ⟨m, hm, hmarked⟩ := e.log.old hi
    obtain ⟨id, hid, h⟩ := hs.rows m (List.mem_of_getElem? hm)
    rw [← hmarked.fromDevice, ← e.deviceId, ← e.filed] at h
    exact ⟨id, hmarked.messageId.trans hid, h⟩
  unique := hs.unique.marks e.log
  erased id hid := by
    rw [e.log.erasedIds] at hid
    exact (held_iff_of_marks e.log id).2 (hs.erased id hid)
  filed := e.filed ▸ hs.filed
  attempts id a' ha' := by
    obtain ⟨a, ha, -⟩ := e.attempts id a' ha'
    exact e.filed ▸ hs.attempts id a ha
  sent frame hf := by
    obtain ⟨frames, hsent, hemits⟩ := e.sent
    rw [hsent] at hf
    rcases List.mem_append.1 hf with hf | hf
    · exact e.grows.sends (hs.sent frame hf)
    · refine e.grows.sends ?_
      have hnew := hemits frame hf
      cases frame with
      | data envelope =>
        obtain ⟨hp, hd, id, hid, hattempt⟩ := hnew
        obtain ⟨a, ha⟩ := Option.isSome_iff_exists.1 hattempt
        exact ⟨hp, hd, id, hs.attempts id a ha, hid⟩
      | deliveryAck _ _ _ => exact hnew
  delivered m' hm' hd id hid := by
    obtain ⟨i, hi⟩ := List.getElem?_of_mem hm'
    obtain ⟨m, hm, hmarked⟩ := e.log.old hi
    have hid' : m.messageId = some id := hmarked.messageId.symm.trans hid
    cases hmarked with
    | same => exact hs.delivered m' (List.mem_of_getElem? hm) hd id hid'
    | settled d hk hset hstatus =>
      obtain rfl := Option.some.inj (hk.symm.trans hid')
      exact hsettled _ hset
    | taken d hk hset hstatus => exact absurd hd hstatus

/-- Effects that settle nothing keep a side sound. -/
theorem Sound.effect_of_none (taken : String → Prop) (hs : Sound c peer s)
    (e : Effect c (fun _ => False) taken s s') : Sound c peer s' :=
  hs.effect e fun _ h => h.elim

/-- Nothing of what counts here changes. -/
theorem Sound.of_eq (hs : Sound c peer s) (hp : s'.participantId = s.participantId)
    (hd : s'.deviceId = s.deviceId) (hf : s'.filed = s.filed) (hl : s'.devicesLive = s.devicesLive)
    (hm : s'.messages = s.messages) (ha : s'.outboundAttempts = s.outboundAttempts)
    (hsent : s'.sent = s.sent) : Sound c peer s' :=
  hs.effect_of_none (fun _ => False) (.of_eq hp hd hf hl hm ha hsent)

/-- The counter of the log does not count. -/
theorem Sound.of_rows (hs : Sound c peer s) {log : MessageLog ChatMessage}
    (hm : log.messages = s.messages.messages) (he : log.erasedIds = s.messages.erasedIds) :
    Sound c peer { s with messages := log } ∧ Grows s { s with messages := log } := by
  have hgrows : Grows s { s with messages := log } :=
    ⟨rfl, rfl, fun _ h => h, fun id h => by rwa [Held, hm]⟩
  exact ⟨{ live := hs.live
           rows := by rw [hm]; exact hs.rows
           unique := by rw [hm]; exact hs.unique
           erased := fun id hid => hgrows.held id (hs.erased id (he ▸ hid))
           filed := hs.filed
           attempts := hs.attempts
           sent := fun frame hf => hgrows.sends (hs.sent frame hf)
           delivered := by rw [hm]; exact hs.delivered }, hgrows⟩

/-! ### Texts that come -/

/-- A message that has an id keeps it. -/
theorem stamp_of_id {log : MessageLog ChatMessage} {m : ChatMessage} {id : String} (now : Nat)
    (occurrence : String) (hid : m.messageId = some id) (hne : id ≠ "") :
    log.stamp now occurrence m = ({ m with sentAtMs := some (m.sentAtMs.getD now) }, log) := by
  have hempty : id.isEmpty = false := by simpa using hne
  rw [MessageLog.stamp]
  simp only [ConversationMessage.messageId, setSentAtMs, ConversationMessage.sentAtMs, hid,
    Option.getD_some, hempty, Bool.false_eq_true, if_false]

/-- A text that came is appended, if its id is not one of an erased message. -/
theorem push_live (log : MessageLog ChatMessage) {m : ChatMessage} (hlive : isErased m = false) :
    (log.push m).erasedIds = log.erasedIds ∧
      (log.push m).messages =
        if log.knowsErased m then log.messages else log.messages ++ [m] := by
  have hforget : log.touch.rememberErasure m = log.touch := by
    rw [MessageLog.rememberErasure, hlive]
  have hknows : log.touch.knowsErased m = log.knowsErased m := rfl
  rw [MessageLog.push]
  dsimp only
  rw [hknows, hforget]
  split <;> exact ⟨rfl, rfl⟩

/-- A text of the other side that is not in the log yet is appended, and its receipt goes out. -/
theorem Sound.push (hs : Sound c peer s) {m : ChatMessage} {id : String}
    (hlive : isErased m = false) (hid : m.messageId = some id) (hne : id ≠ "")
    (hauthor : m.fromDevice = peer.deviceId) (hfiled : id ∈ peer.filed)
    (hstatus : m.delivery.deliveryStatus = none) (hnew : s.messages.holdsCopyOf m = false) :
    Sound c peer { s with messages := s.messages.push m } ∧
      Grows s { s with messages := s.messages.push m } ∧ Held (s.messages.push m) id := by
  obtain ⟨herasedIds, hmessages⟩ := push_live s.messages hlive
  have hheld : ∀ k, Held s.messages k → Held (s.messages.push m) k := by
    rintro k ⟨n, hn, hk⟩
    refine ⟨n, ?_, hk⟩
    rw [hmessages]
    split
    · exact hn
    · exact List.mem_append_left _ hn
  have hgrows : Grows s { s with messages := s.messages.push m } :=
    ⟨rfl, rfl, fun _ h => h, hheld⟩
  have hmem : ∀ n ∈ (s.messages.push m).messages, n ∈ s.messages.messages ∨ n = m := by
    intro n hn
    rw [hmessages] at hn
    split at hn
    · exact .inl hn
    · exact (List.mem_append.1 hn).imp_right List.mem_singleton.1
  refine ⟨{ hs with
    rows := fun n hn => ?_
    unique := ?_
    erased := fun k hk => hheld k (hs.erased k (herasedIds ▸ hk))
    sent := fun frame hf => hgrows.sends (hs.sent frame hf)
    delivered := fun n hn hd k hk => ?_ }, hgrows, ?_⟩
  · rcases hmem n hn with hn | rfl
    · exact hs.rows n hn
    · exact ⟨id, hid, .inr ⟨hauthor, hfiled⟩⟩
  · change Unique (s.messages.push m).messages
    rw [hmessages]
    split
    · exact hs.unique
    · -- A row with the author and the id of the text would be a copy of it.
      refine hs.unique.concat fun n hn hd hk => ?_
      have hcopy := List.any_eq_false.1 hnew n hn
      simp only [author, ConversationMessage.messageId, hk, hid, hd] at hcopy
      simp [hne] at hcopy
  · rcases hmem n hn with hn | rfl
    · exact hs.delivered n hn hd k hk
    · cases hstatus.symm.trans hd
  · by_cases hknows : s.messages.knowsErased m = true
    · refine hheld id (hs.erased id ?_)
      simpa [MessageLog.knowsErased, ConversationMessage.messageId, hid] using hknows
    · exact ⟨m, by rw [hmessages, if_neg hknows]; exact List.mem_append_right _ (List.mem_singleton_self m),
        hid⟩

/-- A text of the other side is kept once. -/
theorem Sound.keepText (hs : Sound c peer s) {envelope : DataEnvelope C} {id : String}
    (body : String) (hid : envelope.messageId = some id) (hfiled : id ∈ peer.filed) (hne : id ≠ "") :
    Sound c peer (s.keepText c h envelope body peer.deviceId false) ∧
      Grows s (s.keepText c h envelope body peer.deviceId false) := by
  rw [PrivateDmSession.keepText]
  rw [stamp_of_id h.now h.occurrence hid hne]
  simp only [Bool.false_eq_true, if_false]
  split
  · exact ⟨hs, .refl s⟩
  next hcopy =>
  obtain ⟨hsound, hgrows, hheld⟩ := hs.push (m := {
    metadata := some { origin := envelope.origin, isOwn := some false }
    fromDevice := peer.deviceId
    body
    messageId := envelope.messageId
    sentAtMs := some (envelope.sentAtMs.getD h.now)
    delivery := { deliveryStatus := none } }) rfl hid hne rfl hfiled rfl (by simpa using hcopy)
  rw [hid]
  have hack {t : PrivateDmSession σ C} (ht : Held t.messages id) :
      Effect c (fun _ => False) (fun _ => False) t (t.sendDeliveryAck c h id) :=
    sendDeliveryAck_effect ht
  rw [hid] at hsound hgrows hheld
  exact ⟨hsound.effect_of_none _ (hack hheld), hgrows.trans (hack hheld).grows⟩

/-- What comes from the other side is taken in. -/
theorem Sound.handleData (hs : Sound c peer s) {envelope : DataEnvelope C}
    (hsends : peer.Sends c (.data envelope)) (hfiled : ∀ id ∈ peer.filed, id ≠ "") :
    Sound c peer (s.handleData c h envelope).2 ∧ Grows s (s.handleData c h envelope).2 := by
  obtain ⟨-, hauthor, id, hid, hmessageId⟩ := hsends
  have hsame : Sound c peer s ∧ Grows s s := ⟨hs, .refl s⟩
  rw [PrivateDmSession.handleData, verifyDeviceText, hs.live, Bool.not_false, if_pos rfl]
  simp only [Bool.false_and, Bool.or_false]
  split
  · exact hsame
  split
  · next k hknown =>
    -- The message is known, and its receipt goes out again.
    obtain ⟨-, hinbound⟩ := Option.filter_eq_some_iff.1 hknown
    obtain ⟨m, hm, hrow⟩ := List.any_eq_true.1 hinbound
    have hheld : Held s.messages k := ⟨m, hm, by simpa using (Bool.and_eq_true_iff.1 hrow).2⟩
    have hack : Effect c (fun _ => False) (fun _ => False) s (s.sendDeliveryAck c h k) :=
      sendDeliveryAck_effect hheld
    exact ⟨hs.effect_of_none _ hack, hack.grows⟩
  split
  · exact hsame
  next body signer crypto _ =>
  split
  · exact hsame
  have hcrypto : Effect c (fun _ => False) (fun _ => True) s { s with crypto } :=
    .of_eq rfl rfl rfl rfl rfl rfl rfl
  have hnote := hcrypto.trans
    (noteAuthenticatedFrame_effect (c := c) (fun _ _ => trivial) : Effect c _ _ _
      (PrivateDmSession.noteAuthenticatedFrame c { s with crypto } envelope.fromDevice))
  have hsound := hs.effect_of_none _ hnote
  have hlive : PrivateDmSession.devicesLive { s with crypto } = false := hs.live
  rw [hauthor] at hsound hnote ⊢
  simp only [hlive, Bool.false_eq_true, if_false]
  obtain ⟨hkeep, hgrows⟩ := hsound.keepText (h := h) body hmessageId hid (hfiled id hid)
  exact ⟨hkeep, hnote.grows.trans hgrows⟩

/-- What is decrypted is what was encrypted. -/
def TextCrypto.Lawful (c : TextCrypto Key Signature σ C) : Prop :=
  ∀ x plaintext ciphertext y, c.encrypt x plaintext = .ok (ciphertext, y) →
    ∀ z plaintext' signer z', c.decrypt z ciphertext = .ok (plaintext', signer, z') →
      plaintext' = plaintext

/-- A frame of either side comes. One's own says nothing. -/
theorem Sound.handleMossMessage (hmls : TextCrypto.Lawful c) (hs : Sound c peer s)
    {frame : Frame C} (hsends : peer.Sends c frame ∨ s.Sends c frame)
    (hfiled : ∀ id ∈ peer.filed, id ≠ "") :
    Sound c peer (s.handleMossMessage c h frame).2 ∧
      Grows s (s.handleMossMessage c h frame).2 := by
  have hsame : Sound c peer s ∧ Grows s s := ⟨hs, .refl s⟩
  rw [PrivateDmSession.handleMossMessage.eq_def]
  split
  · exact hsame
  · next sessionId participantId ackCiphertext _ =>
    split
    · next hcounterpart =>
      have hack : Effect c
          (fun id => ∃ signer y, c.decrypt s.crypto ackCiphertext = .ok (id, signer, y))
          (fun _ => True) s (s.acceptDeliveryAck c ackCiphertext).2 :=
        acceptDeliveryAck_effect hs.live fun _ signer y h => ⟨signer, y, h⟩
      refine ⟨hs.effect hack ?_, hack.grows⟩
      rintro id ⟨signer, y, hdecrypt⟩
      obtain ⟨-, k, x, x', hencrypt, hheld⟩ | ⟨hown, -⟩ := hsends
      · rw [hmls x k _ x' hencrypt _ _ _ _ hdecrypt]
        exact hheld
      · exact absurd hown hcounterpart.2
    · exact hsame
  · next envelope _ =>
    rw [hs.live]
    simp only [Bool.false_eq_true, if_false]
    have hseen : Effect c (fun _ => False) (fun _ => False) s (s.seenBefore c envelope).2 := by
      rw [seenBefore]
      dsimp only
      split
      · exact .refl s
      · exact .of_eq rfl rfl rfl rfl rfl rfl rfl
    have hsound := hs.effect_of_none _ hseen
    split
    · exact ⟨hsound, hseen.grows⟩
    · rcases hsends with hsends | ⟨hown, -⟩
      · obtain ⟨h₁, h₂⟩ := hsound.handleData (h := h) hsends hfiled
        exact ⟨h₁, hseen.grows.trans h₂⟩
      · rw [PrivateDmSession.handleData, if_pos (.inr (hown.trans hseen.participantId.symm))]
        exact ⟨hsound, hseen.grows⟩

/-! ### Texts that go out -/

/-- A message without an id gets one. -/
theorem stamp_new (log : MessageLog ChatMessage) (now : Nat) (occurrence device body : String) :
    ∃ id, id ≠ "" ∧
      (log.stamp now occurrence { fromDevice := device, body }).1 =
        { fromDevice := device, body, messageId := some id, sentAtMs := some now } ∧
      (log.stamp now occurrence { fromDevice := device, body }).2.messages = log.messages ∧
      (log.stamp now occurrence { fromDevice := device, body }).2.erasedIds = log.erasedIds := by
  refine ⟨(log.nextId now).1 ++ "-" ++ occurrence, ?_, rfl, rfl, rfl⟩
  intro h
  have hlength := congrArg String.length h
  simp [String.length_append] at hlength

/-- A message that is not erased takes the place of the one with its id, unless that is erased, or
    is appended. -/
theorem upsert_live (log : MessageLog ChatMessage) {m : ChatMessage} {id : String}
    (hlive : isErased m = false) (hid : m.messageId = some id) :
    (log.upsert m).erasedIds = log.erasedIds ∧
      ((log.upsert m).messages = log.messages ∧ Held log id ∨
        (∃ index old, log.messages[index]? = some old ∧ old.messageId = some id ∧
          (log.upsert m).messages = log.messages.set index m) ∨
        (∀ n ∈ log.messages, n.messageId ≠ some id) ∧
          (log.upsert m).messages = log.messages ++ [m]) := by
  have hforget : log.touch.rememberErasure m = log.touch := by
    rw [MessageLog.rememberErasure, hlive]
  have hposition : (ConversationMessage.messageId m).bind log.touch.position = log.position id := by
    change m.messageId.bind _ = _
    rw [hid]
    rfl
  rw [MessageLog.upsert, hforget, hposition]
  cases hindex : log.position id with
  | none => exact ⟨rfl, .inr (.inr ⟨MessageLog.position_eq_none hindex, rfl⟩)⟩
  | some index =>
    obtain ⟨before, old, after, hmessages, hlength, -, hold⟩ := MessageLog.position_split hindex
    have hget : log.messages[index]? = some old := by
      rw [hmessages, ← hlength, List.getElem?_append_right le_rfl, Nat.sub_self,
        List.getElem?_cons_zero]
    dsimp only
    split
    · exact ⟨rfl, .inl ⟨rfl, old, List.mem_of_getElem? hget, hold⟩⟩
    · exact ⟨rfl, .inr (.inl ⟨index, old, hget, hold, rfl⟩)⟩

/-- A text gets an id that its side did not give before, and goes into the log. -/
theorem Sound.upsert (hs : Sound c peer s) {m : ChatMessage} {id : String}
    (hlive : isErased m = false) (hid : m.messageId = some id) (hne : id ≠ "")
    (hauthor : m.fromDevice = s.deviceId) (hfresh : id ∉ s.filed)
    (hstatus : m.delivery.deliveryStatus = none) :
    Sound c peer { s with messages := s.messages.upsert m, filed := s.filed ++ [id] } ∧
      Grows s { s with messages := s.messages.upsert m, filed := s.filed ++ [id] } := by
  obtain ⟨herasedIds, hcases⟩ := upsert_live s.messages hlive hid
  have hmem : ∀ n ∈ (s.messages.upsert m).messages, n ∈ s.messages.messages ∨ n = m := by
    intro n hn
    rcases hcases with ⟨hsame, -⟩ | ⟨index, old, -, -, hset⟩ | ⟨-, happend⟩
    · exact .inl (hsame ▸ hn)
    · rw [hset] at hn
      exact (List.mem_or_eq_of_mem_set hn)
    · rw [happend] at hn
      exact (List.mem_append.1 hn).imp_right List.mem_singleton.1
  have hheld : ∀ k, Held s.messages k → Held (s.messages.upsert m) k := by
    rintro k ⟨n, hn, hk⟩
    rcases hcases with ⟨hsame, -⟩ | ⟨index, old, hold, holdid, hset⟩ | ⟨-, happend⟩
    · exact ⟨n, hsame ▸ hn, hk⟩
    · obtain ⟨j, hj⟩ := List.getElem?_of_mem hn
      by_cases hindex : index = j
      · subst hindex
        obtain rfl := Option.some.inj (hold.symm.trans hj)
        have hlt := (List.getElem?_eq_some_iff.1 hold).1
        refine ⟨m, ?_, hid.trans (holdid.symm.trans hk)⟩
        rw [hset]
        exact List.mem_set hlt m
      · refine ⟨n, List.mem_of_getElem? (i := j) ?_, hk⟩
        rw [hset, List.getElem?_set_ne hindex, hj]
    · exact ⟨n, by rw [happend]; exact List.mem_append_left _ hn, hk⟩
  have hgrows : Grows s { s with messages := s.messages.upsert m, filed := s.filed ++ [id] } :=
    ⟨rfl, rfl, fun _ h => List.mem_append_left _ h, hheld⟩
  refine ⟨{ live := hs.live
            rows := fun n hn => ?_
            unique := ?_
            erased := fun k hk => hheld k (hs.erased k (herasedIds ▸ hk))
            filed := fun k hk => ?_
            attempts := fun k a ha => List.mem_append_left _ (hs.attempts k a ha)
            sent := fun frame hf => hgrows.sends (hs.sent frame hf)
            delivered := fun n hn hd k hk => ?_ }, hgrows⟩
  · rcases hmem n hn with hn | rfl
    · obtain ⟨k, hk, h⟩ := hs.rows n hn
      exact ⟨k, hk, h.imp_left fun ⟨hd, hf⟩ => ⟨hd, List.mem_append_left _ hf⟩⟩
    · exact ⟨id, hid, .inl ⟨hauthor, List.mem_append_right _ (List.mem_singleton_self id)⟩⟩
  · change Unique (s.messages.upsert m).messages
    rcases hcases with ⟨hsame, -⟩ | ⟨index, old, hold, holdid, hset⟩ | ⟨hnone, happend⟩
    · exact hsame ▸ hs.unique
    · rw [hset]
      refine hs.unique.set fun k n hn hd hk => ?_
      -- The own rows have other ids, so the two sides have one name, and all rows with the id.
      have hpeer {x : ChatMessage} (hx : x ∈ s.messages.messages) (hxid : x.messageId = some id) :
          x.fromDevice = s.deviceId ∨ x.fromDevice = peer.deviceId := by
        obtain ⟨_, -, h | h⟩ := hs.rows x hx
        · exact .inl h.1
        · exact .inr h.1
      have hnid : n.messageId = some id := hk.trans hid
      have hname : s.deviceId = peer.deviceId := by
        obtain ⟨k', hk', h | h⟩ := hs.rows n (List.mem_of_getElem? hn)
        · obtain rfl := Option.some.inj (hk'.symm.trans hnid)
          exact absurd h.2 hfresh
        · exact (hauthor.symm.trans (hd.symm.trans h.1))
      refine hs.unique k index n old hn hold ?_ (hnid.trans holdid.symm)
      rw [hd, hauthor]
      rcases hpeer (List.mem_of_getElem? hold) holdid with h | h
      · exact h.symm
      · exact hname.trans h.symm
    · rw [happend]
      exact hs.unique.concat fun n hn _ hk => hnone n hn (hk.trans hid)
  · rcases List.mem_append.1 hk with hk | hk
    · exact hs.filed k hk
    · rw [List.mem_singleton.1 hk]
      exact hne
  · rcases hmem n hn with hn | rfl
    · exact hs.delivered n hn hd k hk
    · cases hstatus.symm.trans hd

/-- The row of a text that is filed is pending, and so is its attempt, which is the only new one. -/
theorem open_frame (s : PrivateDmSession σ C) {m : ChatMessage} {id : String}
    (hid : m.messageId = some id) (now : Nat) (conversationId : String) :
    let filed := s.inOutbox fun o => o.open c.outbox now m conversationId [] 0
    filed.2.messages = ((s.messages.upsert m).markDelivery id .pending none 0).1 ∧
      (∀ k a, filed.2.outboundAttempts[k]? = some a →
        s.outboundAttempts[k]? = some a ∨ k = id ∧ a.deliveryStatus = .pending) ∧
      ∀ prepared, filed.1 = .ok prepared → prepared.messageId = id := by
  simp only [inOutbox, withOutbox, outbox, Outbox.open, Outbox.file,
    ConversationMessage.messageId, hid, Option.getD_some]
  split
  · next log e heq =>
    exact ⟨by rw [heq], fun k a ha => .inl ha, by rintro prepared ⟨⟩⟩
  next log _ heq =>
  rw [heq]
  split
  · exact ⟨rfl, fun k a ha => .inl ha, by rintro prepared ⟨⟩⟩
  · refine ⟨rfl, fun k a ha => ?_, ?_⟩
    · rw [Table.getElem?_insert] at ha
      split at ha
      · next hk =>
        cases ha
        exact .inr ⟨hk.symm, rfl⟩
      · exact .inl ha
    · rintro prepared ⟨⟩
      rfl

/-- Filing a text leaves its attempt behind, at most. -/
theorem Sound.open (hs : Sound c peer s) {m : ChatMessage} {id : String}
    (hlive : isErased m = false) (hid : m.messageId = some id) (hne : id ≠ "")
    (hauthor : m.fromDevice = s.deviceId) (hfresh : id ∉ s.filed)
    (hstatus : m.delivery.deliveryStatus = none) (now : Nat) (conversationId : String) :
    let filed : PrivateDmSession σ C := { s with filed := s.filed ++ [id] }
    let t := (filed.inOutbox fun o => o.open c.outbox now m conversationId [] 0).2
    Sound c peer t ∧ Grows s t := by
  intro filed t
  obtain ⟨hupsert, hgrows⟩ := hs.upsert hlive hid hne hauthor hfresh hstatus
  set u : PrivateDmSession σ C :=
    { s with messages := s.messages.upsert m, filed := s.filed ++ [id] } with hu
  have hmark : Effect c (fun _ => False) (fun _ => True) u
      { u with messages := (u.messages.markDelivery id .pending none 0).1 } :=
    ⟨rfl, rfl, rfl, rfl, marks_markDelivery _ _ _ _ _ (.inr ⟨trivial, by decide⟩),
      fun _ a ha => ⟨a, ha, .inr rfl⟩, [], (List.append_nil _).symm,
      fun _ h => absurd h List.not_mem_nil⟩
  have hmarked := hupsert.effect_of_none _ hmark
  have hgrows' := hgrows.trans hmark.grows
  obtain ⟨hlog, hattempts, -⟩ := open_frame (c := c) filed hid now conversationId
  have ht : t = { u with
      messages := (u.messages.markDelivery id .pending none 0).1
      outboundAttempts := t.outboundAttempts } := by
    rw [← hlog]
    rfl
  rw [ht]
  refine ⟨{ hmarked with attempts := fun k a ha => ?_ },
    ⟨hgrows'.participantId, hgrows'.deviceId, hgrows'.filed, hgrows'.held⟩⟩
  rcases hattempts k a ha with h | ⟨rfl, -⟩
  · exact hupsert.attempts k a h
  · exact List.mem_append_right _ (List.mem_singleton_self k)

theorem Sound.fileText (hs : Sound c peer s) {body : String}
    (hfresh : ∀ id, (s.messages.stamp h.now h.occurrence
      { fromDevice := s.deviceId, body }).1.messageId = some id → id ∉ s.filed) :
    Sound c peer (s.fileText c h body).2 ∧ Grows s (s.fileText c h body).2 := by
  obtain ⟨id, hne, hmessage, hmessages, herasedIds⟩ :=
    stamp_new s.messages h.now h.occurrence s.deviceId body
  rw [hmessage] at hfresh
  rw [PrivateDmSession.fileText]
  split
  · exact ⟨hs, .refl s⟩
  simp only [hmessage]
  set log := (s.messages.stamp h.now h.occurrence { fromDevice := s.deviceId, body }).2 with hlog
  obtain ⟨hsound, hstamped⟩ := hs.of_rows hmessages herasedIds
  split
  · exact ⟨hsound, hstamped⟩
  next origin _ =>
  obtain ⟨hopen, hgrows⟩ := hsound.open (m := {
    metadata := some { origin := some origin, isOwn := some true }
    fromDevice := s.deviceId
    body
    messageId := some id
    sentAtMs := some h.now }) rfl rfl hne rfl (hfresh id rfl) rfl h.now s.sessionId
  simp only [Option.getD_some]
  split <;> next heq =>
    rw [heq] at hopen hgrows
    exact ⟨hopen, hstamped.trans hgrows⟩

/-- A text is filed, admitted and delivered. -/
theorem Sound.sendMessage (hs : Sound c peer s) {body : String}
    (hfresh : ∀ id, (s.messages.stamp h.now h.occurrence
      { fromDevice := s.deviceId, body }).1.messageId = some id → id ∉ s.filed) :
    Sound c peer (s.sendMessage c h body).2 ∧ Grows s (s.sendMessage c h body).2 := by
  obtain ⟨hfile, hgrows⟩ := hs.fileText hfresh
  rw [PrivateDmSession.sendMessage]
  split
  · exact ⟨hs, .refl s⟩
  split
  · next heq =>
    rw [heq] at hfile hgrows
    exact ⟨hfile, hgrows⟩
  next id t heq =>
  rw [heq] at hfile hgrows
  have hadmission : Effect c (fun _ => False) (fun _ => True) t (t.admitQueued c h id).2 :=
    admitQueued_effect trivial
  split
  · next heq =>
    rw [heq] at hadmission
    exact ⟨hfile.effect_of_none _ hadmission, hgrows.trans hadmission.grows⟩
  · next heq =>
    rw [heq] at hadmission
    have hdeliver := hadmission.trans (deliverQueued_effect (h := h) fun _ _ => trivial)
    exact ⟨hfile.effect_of_none _ hdeliver, hgrows.trans hdeliver.grows⟩

/-- A row is erased. -/
theorem Sound.eraseRow (hs : Sound c peer s) (index : Nat) (marker : DeletionMarker) (key : String)
    (correlation : Option String) (localOnly cancelled : Bool) :
    Sound c peer (s.eraseRow index marker key correlation localOnly cancelled) ∧
      Grows s (s.eraseRow index marker key correlation localOnly cancelled) := by
  rw [PrivateDmSession.eraseRow]
  split
  · exact ⟨hs, .refl s⟩
  next m hm =>
  set m' := erase m marker key correlation localOnly with hm'
  have hid : m'.messageId = m.messageId := rfl
  have hdevice : m'.fromDevice = m.fromDevice := rfl
  have hmessages : (s.messages.replace index m').messages = s.messages.messages.set index m' :=
    MessageLog.messages_replace ..
  have hlt := (List.getElem?_eq_some_iff.1 hm).1
  have hmem : ∀ n ∈ (s.messages.replace index m').messages, n ∈ s.messages.messages ∨ n = m' := by
    intro n hn
    rw [hmessages] at hn
    exact List.mem_or_eq_of_mem_set hn
  have hheld : ∀ k, Held s.messages k → Held (s.messages.replace index m') k := by
    rintro k ⟨n, hn, hk⟩
    obtain ⟨j, hj⟩ := List.getElem?_of_mem hn
    by_cases hindex : index = j
    · subst hindex
      obtain rfl := Option.some.inj (hm.symm.trans hj)
      exact ⟨m', by rw [hmessages]; exact List.mem_set hlt m', hid.trans hk⟩
    · exact ⟨n, List.mem_of_getElem? (i := j) (by rw [hmessages, List.getElem?_set_ne hindex, hj]),
        hk⟩
  have hgiven : Given peer s m' := by
    obtain ⟨id, hmid, h⟩ := hs.rows m (List.mem_of_getElem? hm)
    exact ⟨id, hid.trans hmid, hdevice ▸ h⟩
  refine ⟨{ live := hs.live
            rows := fun n hn => (hmem n hn).elim (hs.rows n) (· ▸ hgiven)
            unique := ?_
            erased := fun k hk => ?_
            filed := hs.filed
            attempts := fun k a ha => ?_
            sent := fun frame hf => ?_
            delivered := fun n hn hd k hk => ?_ }, ⟨rfl, rfl, fun _ h => h, hheld⟩⟩
  · change Unique (s.messages.replace index m').messages
    rw [hmessages]
    refine hs.unique.set fun k n hn hd hk => ?_
    exact hs.unique k index n m hn hm (hd.trans hdevice) (hk.trans hid)
  · -- What is remembered as erased was so before, or is the row.
    rw [MessageLog.replace] at hk
    simp only [MessageLog.rememberErasure] at hk
    split at hk
    · next k' _ hk' =>
      rcases Finset.mem_insert.1 hk with rfl | hk
      · exact ⟨m', by rw [hmessages]; exact List.mem_set hlt m', hk'⟩
      · exact hheld k (hs.erased k hk)
    · exact hheld k (hs.erased k hk)
  · dsimp only at ha
    split at ha
    · rw [Table.getElem?_erase] at ha
      split at ha
      · cases ha
      · exact hs.attempts k a ha
    · exact hs.attempts k a ha
  · have hgrows : Grows s { s with messages := s.messages.replace index m' } :=
      ⟨rfl, rfl, fun _ h => h, hheld⟩
    have := hgrows.sends (hs.sent frame hf)
    cases frame <;> exact this
  · rcases hmem n hn with hn | rfl
    · exact hs.delivered n hn hd k hk
    · cases hd

/-! ## Steps and runs -/

/-- A step of a side keeps it sound, and takes nothing from the other one. -/
theorem Sound.step (hmls : TextCrypto.Lawful c) (hs : Sound c peer s) (hpeer : Sound c s peer)
    {event : Event σ C} (ha : Admits peer s h event) :
    Sound c peer (s.step c h event) ∧ Grows s (s.step c h event) := by
  have heffect {t : PrivateDmSession σ C}
      (e : Effect c (fun _ => False) (fun _ => True) s t) : Sound c peer t ∧ Grows s t :=
    ⟨hs.effect_of_none _ e, e.grows⟩
  cases event with
  | send body => exact hs.sendMessage ha
  | retry id => exact heffect (retryMessage_effect trivial fun _ _ => trivial)
  | tick => exact heffect (pumpUnackedResends_effect.trans (deliverQueued_effect fun _ _ => trivial))
  | receive frame =>
    exact hs.handleMossMessage hmls (ha.imp (hpeer.sent frame) (hs.sent frame)) hpeer.filed
  | authenticated crypto fromDevice =>
    refine heffect (Effect.trans ?_ (noteAuthenticatedFrame_effect fun _ _ => trivial))
    exact .of_eq rfl rfl rfl rfl rfl rfl rfl
  | lost => exact heffect (.of_eq rfl rfl rfl rfl rfl rfl rfl)
  | ratchet crypto => exact heffect (.of_eq rfl rfl rfl rfl rfl rfl rfl)
  | transition crypto membership epochChanged =>
    have hmembership : Sound c peer { s with crypto, membership := some membership } :=
      { hs with
        live := ha
        sent := fun frame hf => Grows.sends ⟨rfl, rfl, fun _ h => h, fun _ h => h⟩ (hs.sent frame hf) }
    rw [PrivateDmSession.step, installDeviceTransition]
    split
    · refine ⟨{ hmembership with
        attempts := fun id a ha => ?_
        sent := fun frame hf =>
          Grows.sends ⟨rfl, rfl, fun _ h => h, fun _ h => h⟩ (hs.sent frame hf) },
        ⟨rfl, rfl, fun _ h => h, fun _ h => h⟩⟩
      rw [ExtTreeMap.getElem?_map] at ha
      obtain ⟨a', ha', -⟩ := Option.map_eq_some_iff.1 ha
      exact hs.attempts id a' ha'
    · exact ⟨hmembership, ⟨rfl, rfl, fun _ h => h, fun _ h => h⟩⟩

end PrivateDmSession

namespace World

open PrivateDmSession

variable {c : TextCrypto Key Signature σ C} {w w₀ : World σ C}

/-- Both sides are sound. -/
def Agreed (c : TextCrypto Key Signature σ C) (w : World σ C) : Prop :=
  ∀ p : Party, Sound c (w p.other) (w p)

theorem Established.agreed (h : w.Established) : w.Agreed c := fun p =>
  { live := h.live p
    rows := by simp [h.messages p]
    unique := by
      intro i j m n hi
      simp [h.messages p] at hi
    erased := by simp [h.messages p]
    filed := by simp [h.filed p]
    attempts := by simp [h.outboundAttempts p]
    sent := by simp [h.sent p]
    delivered := by simp [h.messages p] }

/-- Both sides stay sound when one of them acts. -/
theorem Agreed.step (hmls : TextCrypto.Lawful c) (hw : w.Agreed c) {a : Party × Action σ C}
    (ha : w.Admits a) : Agreed c (w.step c a) := by
  obtain ⟨p, action⟩ := a
  have hp : Sound c (w p.other) (act c (w p) action) ∧ Grows (w p) (act c (w p) action) := by
    cases action with
    | erase index marker key correlation localOnly cancelled => exact (hw p).eraseRow ..
    | event host event =>
      have hother : Sound c (w p) (w p.other) := by simpa using hw p.other
      exact (hw p).step hmls hother ha
  intro q
  rw [World.step]
  by_cases hq : q = p
  · subst hq
    rw [Function.update_self, Function.update_of_ne (Party.other_ne q)]
    exact hp.1
  · have hother : q.other = p := by cases p <;> cases q <;> simp_all [Party.other]
    rw [Function.update_of_ne hq, hother, Function.update_self]
    have hsound := hw q
    rw [hother] at hsound
    exact hsound.of_grows hp.2

/-- In every run of two installations without linked devices no log holds a message of a sender
    twice, a message that shows as delivered is in the log of the other side, and a receipt is
    one of a message in the log of its side. -/
theorem delivery_agreement (hmls : TextCrypto.Lawful c) (h₀ : w₀.Established)
    {actions : List (Party × Action σ C)}
    (hrun : Runs (World.step c) World.Admits w₀ actions w) (p : Party) :
    Unique (w p).messages.messages ∧
    (∀ m ∈ (w p).messages.messages, m.delivery.deliveryStatus = some .delivered →
      ∀ id, m.messageId = some id → Held (w p.other).messages id) ∧
    (∀ sessionId participantId ciphertext,
      .deliveryAck sessionId participantId ciphertext ∈ (w p).sent →
      ∃ (id : String) (x y : σ), c.encrypt x id = .ok (ciphertext, y) ∧
        Held (w p).messages id) := by
  have hagreed : w.Agreed c := hrun.invariant (fun _ _ ha hw => Agreed.step hmls hw ha) h₀.agreed
  exact ⟨(hagreed p).unique, (hagreed p).delivered,
    fun _ _ _ hack => ((hagreed p).sent _ hack).2⟩

/-! ## A sample -/

theorem sampleCrypto_lawful : TextCrypto.Lawful sampleCrypto := by
  intro x plaintext ciphertext y hencrypt z plaintext' signer z' hdecrypt
  cases hencrypt
  simp only [sampleCrypto] at hdecrypt
  split at hdecrypt
  · cases hdecrypt
  · cases hdecrypt
    rfl

/-- Two sides that just met. -/
def newDm : World SampleGroup (Bool × Nat × String)
  | .alice => sampleSession true "Anna"
  | .bob => sampleSession false "Bernd"

/-- The last frame that a side sent. -/
def lastSent (w : World SampleGroup (Bool × Nat × String)) (p : Party) :
    Frame (Bool × Nat × String) :=
  (w p).sent.getLastD (.deliveryAck "" "" (true, 0, ""))

/-- Anna writes, -/
def written : World SampleGroup (Bool × Nat × String) :=
  step sampleCrypto newDm (.alice, .event (sampleHost 5 "r") (.send "hello"))

/-- her text arrives, -/
def arrived : World SampleGroup (Bool × Nat × String) :=
  step sampleCrypto written (.bob, .event (sampleHost 6 "s") (.receive (lastSent written .alice)))

/-- and so does its receipt. -/
def answered : World SampleGroup (Bool × Nat × String) :=
  step sampleCrypto arrived (.alice, .event (sampleHost 7 "t") (.receive (lastSent arrived .bob)))

theorem delivery_agreement_hello :
    ((answered .alice).messages.messages.any fun m =>
      m.messageId = some "5-000000-r" && m.delivery.deliveryStatus = some .delivered) = true ∧
    Held (answered .bob).messages "5-000000-r" := by
  have hshown : ((answered .alice).messages.messages.any fun m =>
      m.messageId = some "5-000000-r" && m.delivery.deliveryStatus = some .delivered) = true := by
    decide +kernel
  refine ⟨hshown, ?_⟩
  obtain ⟨m, hm, hrow⟩ := List.any_eq_true.1 hshown
  simp only [Bool.and_eq_true, decide_eq_true_eq] at hrow
  have hnew : newDm.Established :=
    { live := by rintro (_ | _) <;> rfl
      messages := by rintro (_ | _) <;> rfl
      outboundAttempts := by rintro (_ | _) <;> rfl
      sent := by rintro (_ | _) <;> rfl
      filed := by rintro (_ | _) <;> rfl }
  have htext : lastSent written .alice ∈ (written .alice).sent := by decide +kernel
  have hreceipt : lastSent arrived .bob ∈ (arrived .bob).sent := by decide +kernel
  have hrun : Runs (step sampleCrypto) Admits newDm
      [(.alice, .event (sampleHost 5 "r") (.send "hello")),
        (.bob, .event (sampleHost 6 "s") (.receive (lastSent written .alice))),
        (.alice, .event (sampleHost 7 "t") (.receive (lastSent arrived .bob)))] answered :=
    .cons (fun _ _ h => absurd h List.not_mem_nil)
      (.cons (Or.inl htext) (.cons (Or.inl hreceipt) (.nil _)))
  exact (delivery_agreement sampleCrypto_lawful hnew hrun .alice).2.1 m hm hrow.2 _ hrow.1

end World

end Mosh.PrivateDm
