import Mosh.PrivateDm.Delivery

/-!
# Receipts of further copies

A receipt may be lost, so every further copy of a text asks for another one. A receiver finds
out in two ways that it has a text: before it decrypts a copy, from the rows of other names,
and after that, from the rows of the author. Only the first way answers the copy, and if both
sides go by the same name, there are no rows of other names: `further_copy_acked_iff`.
-/

namespace Mosh.PrivateDm

open Std (ExtTreeMap)
open Conversation Deletion DmDevices ConversationMessage
open Run

namespace PrivateDmSession

variable {Key Signature σ C : Type} {c : TextCrypto Key Signature σ C} {h : Host C}
  {s s' : PrivateDmSession σ C}

/-- A text that comes is answered with a receipt for an id. -/
def Acks (c : TextCrypto Key Signature σ C) (h : Host C) (s : PrivateDmSession σ C)
    (envelope : DataEnvelope C) (id : String) : Prop :=
  ∃ (ciphertext : C) (x y : σ), c.encrypt x id = .ok (ciphertext, y) ∧
    (s.handleData c h envelope).2.sent =
      s.sent ++ [.deliveryAck s.sessionId s.participantId ciphertext]

/-- A receipt for an id can be encrypted, and is small enough for a frame. -/
def CanAck (c : TextCrypto Key Signature σ C) (s : PrivateDmSession σ C) (id : String) : Prop :=
  ∃ (ciphertext : C) (y : σ), c.encrypt s.crypto id = .ok (ciphertext, y) ∧
    (c.payload (.deliveryAck s.sessionId s.participantId ciphertext)).length ≤ maxPublishBytes

/-- No frame is sent by a step that leaves the frames as they are. -/
theorem not_acks_of_sent {envelope : DataEnvelope C} {id : String}
    (h' : (s.handleData c h envelope).2.sent = s.sent) : ¬Acks c h s envelope id := by
  rintro ⟨ciphertext, x, y, -, hsent⟩
  have hlength := congrArg List.length (h'.symm.trans hsent)
  simp at hlength

/-- A receipt goes out if it can be made. -/
theorem sent_sendDeliveryAck (id : String) :
    (∃ (ciphertext : C) (x y : σ), c.encrypt x id = .ok (ciphertext, y) ∧
      (s.sendDeliveryAck c h id).sent =
        s.sent ++ [.deliveryAck s.sessionId s.participantId ciphertext]) ↔ CanAck c s id := by
  have hunsent {frame : Frame C} {frames : List (Frame C)} (hsent : frames = frames ++ [frame]) :
      False := by
    have hlength := congrArg List.length hsent
    simp at hlength
  rw [sendDeliveryAck, CanAck]
  cases hencrypt : c.encrypt s.crypto id with
  | error e =>
    refine iff_of_false ?_ (by rintro ⟨_, _, ⟨⟩, _⟩)
    rintro ⟨_, _, _, -, hsent⟩
    exact hunsent hsent
  | ok result =>
    obtain ⟨ciphertext, y⟩ := result
    dsimp only
    rw [routeSend]
    by_cases hsize : (c.payload (.deliveryAck s.sessionId s.participantId ciphertext)).length ≤
        maxPublishBytes
    · rw [if_neg (Nat.not_lt.2 hsize)]
      refine iff_of_true ⟨ciphertext, s.crypto, y, hencrypt, ?_⟩ ⟨ciphertext, y, rfl, hsize⟩
      dsimp only
      split <;> rfl
    · rw [if_pos (Nat.lt_of_not_le hsize)]
      refine iff_of_false ?_ ?_
      · rintro ⟨_, _, _, -, hsent⟩
        exact hunsent hsent
      · rintro ⟨_, _, h', hfits⟩
        cases h'
        exact hsize hfits

theorem sent_resumeSend (id : String) : (s.resumeSend c id).sent = s.sent := by
  rw [resumeSend]
  split <;> next heq => exact (congrArg (·.2.sent) heq).symm

theorem sent_noteAuthenticatedFrame (fromDevice : String) :
    (s.noteAuthenticatedFrame c fromDevice).sent = s.sent := by
  have hresume (t : PrivateDmSession σ C) (ids : List String) :
      (ids.foldl (resumeSend c) t).sent = t.sent := by
    induction ids generalizing t with
    | nil => rfl
    | cons id ids ih => exact (ih _).trans (sent_resumeSend id)
  have hname : (s.notePeerName fromDevice).sent = s.sent := by
    rw [notePeerName]
    split <;> rfl
  rw [noteAuthenticatedFrame]
  dsimp only
  split
  · split
    · exact (hresume _ _).trans hname
    · exact hname
  · exact hname

/-- A further copy of a text that the log holds from its sender is answered with a receipt if and
    only if the log shows the id under another name than that of the receiver, and the receipt
    can be made. -/
theorem further_copy_acked_iff (hlive : s.devicesLive = false)
    {envelope : DataEnvelope C} {id : String} (hne : id ≠ "")
    (hid : envelope.messageId = some id) (hsession : envelope.sessionId = s.sessionId)
    (hparticipant : envelope.participantId ≠ s.participantId)
    (hheld : ∃ m ∈ s.messages.messages, m.fromDevice = envelope.fromDevice ∧
      m.messageId = some id) :
    Acks c h s envelope id ↔
      (∃ m ∈ s.messages.messages, m.messageId = some id ∧ m.fromDevice ≠ s.deviceId) ∧
        CanAck c s id := by
  have hinbound : s.hasInboundMessage id = true ↔
      ∃ m ∈ s.messages.messages, m.messageId = some id ∧ m.fromDevice ≠ s.deviceId := by
    simp only [hasInboundMessage, List.any_eq_true, Bool.and_eq_true, decide_eq_true_eq, ne_eq,
      and_comm]
  have hhere : ¬(envelope.sessionId ≠ s.sessionId ∨ envelope.participantId = s.participantId) := by
    simp [hsession, hparticipant]
  rw [← hinbound]
  by_cases hknown : s.hasInboundMessage id = true
  · -- Another name has the id: the copy is answered before it is decrypted.
    have hcopy : (s.handleData c h envelope).2 = s.sendDeliveryAck c h id := by
      rw [handleData, if_neg hhere, verifyDeviceText, hlive, Bool.not_false, if_pos rfl, hid]
      simp only [Bool.false_and, Bool.or_false, Option.filter_some]
      rw [if_pos hknown]
    rw [Acks, hcopy, sent_sendDeliveryAck]
    exact ⟨fun hack => ⟨hknown, hack⟩, And.right⟩
  · -- Otherwise it is decrypted, and found to be a copy at last.
    refine iff_of_false (not_acks_of_sent ?_) fun hack => hknown hack.1
    rw [handleData, if_neg hhere, verifyDeviceText, hlive, Bool.not_false, if_pos rfl, hid]
    simp only [Bool.false_and, Bool.or_false, Option.filter_some]
    rw [if_neg hknown]
    dsimp only
    split
    · rfl
    next body signer crypto _ =>
    split
    · rfl
    have hlive' : PrivateDmSession.devicesLive { s with crypto } = false := hlive
    simp only [hlive', Bool.false_eq_true, if_false]
    set t := PrivateDmSession.noteAuthenticatedFrame c { s with crypto } envelope.fromDevice
    have hmarks : Marks (fun _ => False) (fun _ => True) s.messages t.messages :=
      (noteAuthenticatedFrame_effect (c := c) fun _ _ => trivial : Effect c (fun _ => False)
        (fun _ => True) _ t).log
    -- The row of the sender is still there.
    obtain ⟨m, hm, hdevice, hmid⟩ := hheld
    obtain ⟨i, hi⟩ := List.getElem?_of_mem hm
    obtain ⟨m', hm', hmarked⟩ := hmarks.rows i m hi
    rw [keepText, stamp_of_id h.now h.occurrence hid hne]
    dsimp only
    rw [if_pos ?_]
    · exact sent_noteAuthenticatedFrame envelope.fromDevice
    · rw [MessageLog.holdsCopyOf, List.any_eq_true]
      refine ⟨m', List.mem_of_getElem? hm', ?_⟩
      simp [author, ConversationMessage.messageId, hmarked.messageId, hmarked.fromDevice, hmid,
        hid, hdevice, hne]

end PrivateDmSession

namespace World

open PrivateDmSession

/-- The text of the last frame that a side sent. -/
def lastText (w : World SampleGroup (Bool × Nat × String)) (p : Party) :
    Option (DataEnvelope (Bool × Nat × String)) :=
  match lastSent w p with
  | .data envelope => some envelope
  | .deliveryAck .. => none

/-- The receipt of Anna's text is lost, and after a while she publishes it again. -/
def resent : World SampleGroup (Bool × Nat × String) :=
  step sampleCrypto arrived (.alice, .event (sampleHost 20005 "t") .tick)

theorem further_copy_acked_hello :
    ∃ envelope, lastText resent .alice = some envelope ∧
      Acks sampleCrypto (sampleHost 20006 "u") (resent .bob) envelope "5-000000-r" := by
  obtain ⟨envelope, htext⟩ : ∃ envelope, lastText resent .alice = some envelope :=
    Option.isSome_iff_exists.1 (by decide +kernel)
  have hfields : (lastText resent .alice).all (fun envelope =>
      envelope.messageId = some "5-000000-r" ∧ envelope.sessionId = (resent .bob).sessionId ∧
        envelope.participantId ≠ (resent .bob).participantId ∧
        (resent .bob).messages.messages.any (fun m => m.fromDevice = envelope.fromDevice ∧
          m.messageId = some "5-000000-r" ∧ m.fromDevice ≠ (resent .bob).deviceId)) = true := by
    decide +kernel
  rw [htext, Option.all_some, decide_eq_true_eq, List.any_eq_true] at hfields
  obtain ⟨hid, hsession, hparticipant, m, hm, hrow⟩ := hfields
  obtain ⟨hdevice, hmid, hother⟩ := of_decide_eq_true hrow
  have hlive : (resent .bob).devicesLive = false := by decide +kernel
  have hcan : CanAck sampleCrypto (resent .bob) "5-000000-r" := ⟨_, _, rfl, by decide +kernel⟩
  exact ⟨envelope, htext, (further_copy_acked_iff hlive (by decide) hid hsession hparticipant
    ⟨m, hm, hdevice, hmid⟩).2 ⟨⟨m, hm, hmid, hother⟩, hcan⟩⟩

/-- Both sides go by the name of Anna. -/
def namesakes : World SampleGroup (Bool × Nat × String)
  | .alice => sampleSession true "Anna"
  | .bob => sampleSession false "Anna"

/-- One of them writes, the other one gets the text, its receipt is lost, and the text is published
    again. -/
def resentToNamesake : World SampleGroup (Bool × Nat × String) :=
  let written := step sampleCrypto namesakes
    (.alice, .event (sampleHost 5 "r") (.send "hello"))
  let arrived := step sampleCrypto written
    (.bob, .event (sampleHost 6 "s") (.receive (lastSent written .alice)))
  step sampleCrypto arrived (.alice, .event (sampleHost 20005 "t") .tick)

/-- The copy can be decrypted, the log holds its message, and no receipt goes out. -/
theorem further_copy_unanswered :
    ¬ ∀ (s : PrivateDmSession SampleGroup (Bool × Nat × String))
      (envelope : DataEnvelope (Bool × Nat × String)) (id : String),
      s.devicesLive = false → id ≠ "" → envelope.messageId = some id →
      envelope.sessionId = s.sessionId → envelope.participantId ≠ s.participantId →
      (∃ m ∈ s.messages.messages, m.fromDevice = envelope.fromDevice ∧ m.messageId = some id) →
      (sampleCrypto.decrypt s.crypto envelope.ciphertext).isOk = true → CanAck sampleCrypto s id →
      Acks sampleCrypto (sampleHost 20006 "u") s envelope id := by
  intro hclaim
  obtain ⟨envelope, htext⟩ : ∃ envelope, lastText resentToNamesake .alice = some envelope :=
    Option.isSome_iff_exists.1 (by decide +kernel)
  have hfields : (lastText resentToNamesake .alice).all (fun envelope =>
      envelope.messageId = some "5-000000-r" ∧
        envelope.sessionId = (resentToNamesake .bob).sessionId ∧
        envelope.participantId ≠ (resentToNamesake .bob).participantId ∧
        (resentToNamesake .bob).messages.messages.any (fun m =>
          m.fromDevice = envelope.fromDevice ∧ m.messageId = some "5-000000-r") ∧
        (sampleCrypto.decrypt (resentToNamesake .bob).crypto envelope.ciphertext).isOk = true ∧
        ((resentToNamesake .bob).handleData sampleCrypto (sampleHost 20006 "u") envelope).2.sent =
          (resentToNamesake .bob).sent) = true := by
    decide +kernel
  rw [htext, Option.all_some, decide_eq_true_eq, List.any_eq_true] at hfields
  obtain ⟨hid, hsession, hparticipant, ⟨m, hm, hrow⟩, hdecrypt, hsent⟩ := hfields
  obtain ⟨hdevice, hmid⟩ := of_decide_eq_true hrow
  have hcan : CanAck sampleCrypto (resentToNamesake .bob) "5-000000-r" :=
    ⟨_, _, rfl, by decide +kernel⟩
  have hlive : (resentToNamesake .bob).devicesLive = false := by decide +kernel
  exact not_acks_of_sent hsent (hclaim _ envelope "5-000000-r" hlive (by decide) hid hsession
    hparticipant ⟨m, hm, hdevice, hmid⟩ hdecrypt hcan)

end World

end Mosh.PrivateDm
