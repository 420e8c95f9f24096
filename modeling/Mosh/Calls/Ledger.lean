import Mosh.Calls.Effects

/-!
# What a step of a session writes down

Besides its call, a session keeps the book of ended calls, the history of the conversation and the
calls of its siblings. Every entry that a step adds there has a reason (`Ledger`): the call has
ended, an end of another device was authoritative, an offer was refused, or a sibling is in a call.

* `CallSession.ledger_step`: what a step writes down;
* `CallSession.ignored_of_confirmed`: a control of a call that has ended for certain does nothing;
* `CallSession.core_of_closed`: an offer of a call that has ended does nothing to the call.
-/

namespace Mosh.Calls

open DmDevices Conversation Checked

/-- The call has this id, or replaces the one that has. -/
def CallCore.matchesId (x : CallCore) (id : String) : Prop := x.callId = id ∨ x.mergedCallId = some id

namespace CallSession

variable {s s' t : CallSession} {h : CallHost} {heard : Option CallControl}

/-- What a step writes down. -/
structure Ledger (heard : Option CallControl) (s s' : CallSession) : Prop where
  /-- A call is noted as ended because it was the one of the session, or because an end for it was
      authoritative. -/
  closes : ∃ closes : List (String × Bool), s'.closings = s.closings ++ closes.map (·.1) ∧
    s'.book.closed = (s.book.closeAll closes).closed ∧
    ((∃ k ∈ heard, closes = [(k.callId, true)] ∧ s.authoritativeCallEnd k = true) ∨
      ∀ call ∈ closes, ∃ x ∈ s.core, x.matchesId call.1 ∧ s'.core = none)
  /-- The history gets the end of the call of the session, or a call that was refused. -/
  rows : ∃ rows, s'.messages.messages = s.messages.messages ++ rows ∧
    ∀ row ∈ rows, ∃ event ∈ row.callEvent,
      (∃ x ∈ s.core, x.callId = event.callId ∧ s'.core = none) ∨
      ∃ k ∈ heard, k.action = .offer ∧ k.callId = event.callId ∧
        k.mediaProtocol ≠ s.mediaProtocol ∧ s.closedCallOffer k.callId = false
  /-- A sibling is in a call. -/
  reserved : ∀ entry ∈ s'.occupancy.devices, entry ∈ s.occupancy.devices ∨
    ∃ k ∈ heard, entry.2.callId = k.callId ∧ (s.core = none ∨ s'.core = none ∨
      s.membership.any (·.callOwn k.signer) = true ∧ k.signer ≠ s.own)

/-- A step that writes nothing down. -/
structure Plain (s s' : CallSession) : Prop where
  closed : s'.book.closed = s.book.closed
  closings : s'.closings = s.closings
  messages : s'.messages = s.messages
  devices : ∀ entry ∈ s'.occupancy.devices, entry ∈ s.occupancy.devices

namespace Plain

theorem refl (s : CallSession) : Plain s s := ⟨rfl, rfl, rfl, fun _ => id⟩

theorem trans (h₁ : Plain s t) (h₂ : Plain t s') : Plain s s' :=
  ⟨h₂.closed.trans h₁.closed, h₂.closings.trans h₁.closings, h₂.messages.trans h₁.messages,
    fun entry he => h₁.devices entry (h₂.devices entry he)⟩

/-- A step that writes nothing down is one. -/
theorem toLedger (h : Plain s s') : Ledger heard s s' := by
  refine ⟨⟨[], ?_, h.closed, .inr fun call hcall => absurd hcall List.not_mem_nil⟩, ⟨[], ?_, ?_⟩, ?_⟩
  · rw [h.closings, List.map_nil, List.append_nil]
  · rw [h.messages, List.append_nil]
  · exact fun row hrow => absurd hrow List.not_mem_nil
  · exact fun entry he => .inl (h.devices entry he)

/-- Whether a call has been here only depends on what is written down. -/
theorem closedCallOffer (h : Plain s s') (id : String) :
    s'.closedCallOffer id = s.closedCallOffer id := by
  rw [CallSession.closedCallOffer, CallSession.closedCallOffer, CallProtocolBook.isClosed,
    CallProtocolBook.isClosed, h.closed, h.messages]

end Plain

/-- A step that only sends, remembers and counts. -/
structure Aside (s s' : CallSession) : Prop where
  closed : s'.book.closed = s.book.closed
  closings : s'.closings = s.closings
  messages : s'.messages = s.messages
  occupancy : s'.occupancy = s.occupancy
  call : s'.call = s.call
  membership : s'.membership = s.membership
  own : s'.own = s.own
  mediaProtocol : s'.mediaProtocol = s.mediaProtocol

namespace Aside

theorem refl (s : CallSession) : Aside s s := ⟨rfl, rfl, rfl, rfl, rfl, rfl, rfl, rfl⟩

theorem trans (h₁ : Aside s t) (h₂ : Aside t s') : Aside s s' :=
  ⟨h₂.closed.trans h₁.closed, h₂.closings.trans h₁.closings, h₂.messages.trans h₁.messages,
    h₂.occupancy.trans h₁.occupancy, h₂.call.trans h₁.call, h₂.membership.trans h₁.membership,
    h₂.own.trans h₁.own, h₂.mediaProtocol.trans h₁.mediaProtocol⟩

theorem symm (h : Aside s s') : Aside s' s :=
  ⟨h.closed.symm, h.closings.symm, h.messages.symm, h.occupancy.symm, h.call.symm,
    h.membership.symm, h.own.symm, h.mediaProtocol.symm⟩

theorem plain (h : Aside s s') : Plain s s' :=
  ⟨h.closed, h.closings, h.messages, fun _ he => h.occupancy ▸ he⟩

theorem core (h : Aside s s') : s'.core = s.core := by rw [CallSession.core, CallSession.core, h.call]

theorem authoritativeCallEnd (h : Aside s s') (k : CallControl) :
    s'.authoritativeCallEnd k = s.authoritativeCallEnd k := by
  rw [CallSession.authoritativeCallEnd, CallSession.authoritativeCallEnd, h.call, h.occupancy]

theorem confirmedClosed (h : Aside s s') (id : String) :
    s'.book.confirmedClosed id = s.book.confirmedClosed id := by
  rw [CallProtocolBook.confirmedClosed, CallProtocolBook.confirmedClosed, h.closed]

/-- What follows such a step is what the two do. -/
theorem ledger (h : Aside s t) (hledger : Ledger heard t s') : Ledger heard s s' := by
  obtain ⟨closes, hclosings, hclosed, hreason⟩ := hledger.closes
  obtain ⟨rows, hrows, hevent⟩ := hledger.rows
  refine ⟨⟨closes, h.closings ▸ hclosings, ?_, ?_⟩, ⟨rows, h.messages ▸ hrows, ?_⟩, ?_⟩
  · rw [hclosed]
    exact CallProtocolBook.closed_closeAll_congr h.closed
  · simpa only [h.core, h.authoritativeCallEnd] using hreason
  · simpa only [h.core, h.mediaProtocol, h.plain.closedCallOffer] using hevent
  · simpa only [h.core, h.membership, h.own, h.occupancy] using hledger.reserved

end Aside

theorem aside_publish (s : CallSession) (h : CallHost) (callId : String) (action : CallAction) :
    Aside s (s.publishAuthenticatedCall h callId action).1 := by
  obtain ⟨book, hclosed, -, ⟨error, hp⟩ | ⟨peer, n, hp⟩⟩ := s.publish_cases h callId action
  · rw [hp]
    exact ⟨hclosed, rfl, rfl, rfl, rfl, rfl, rfl, rfl⟩
  · rw [hp]
    exact ⟨hclosed, rfl, rfl, rfl, rfl, rfl, rfl, rfl⟩

theorem aside_ends (s : CallSession) (ends : CallEndRetries) : Aside s { s with ends } :=
  ⟨rfl, rfl, rfl, rfl, rfl, rfl, rfl, rfl⟩

/-! ## The end of a call -/

/-- Stamping a message changes neither its call nor the messages of the log. -/
theorem stamp_callEvent (log : MessageLog ChatMessage) (now : Nat) (occurrence : String)
    (message : ChatMessage) : (log.stamp now occurrence message).1.callEvent = message.callEvent ∧
      (log.stamp now occurrence message).2.messages = log.messages := by
  rw [MessageLog.stamp]
  dsimp only
  split
  · exact ⟨rfl, rfl⟩
  · exact ⟨rfl, rfl⟩

/-- A message is appended, unless its id is one of an erased message. -/
theorem messages_push (log : MessageLog ChatMessage) (message : ChatMessage) :
    (log.push message).messages =
      if log.knowsErased message then log.messages else log.messages ++ [message] := by
  have hremember (log : MessageLog ChatMessage) :
      (log.rememberErasure message).messages = log.messages := by
    rw [MessageLog.rememberErasure]
    split <;> rfl
  have hknows : log.touch.knowsErased message = log.knowsErased message := rfl
  rw [MessageLog.push]
  dsimp only
  rw [hknows]
  split
  · rfl
  · exact congrArg (· ++ [message]) (hremember log.touch)

/-- A message for the history: it is appended, unless its id is one of an erased message. -/
theorem messages_pushStamped (log : MessageLog ChatMessage) (now : Nat) (occurrence : String)
    (message : ChatMessage) : ∃ rows, (log.pushStamped now occurrence message).messages =
      log.messages ++ rows ∧ ∀ row ∈ rows, row.callEvent = message.callEvent := by
  obtain ⟨hevent, hmessages⟩ := stamp_callEvent log now occurrence message
  rw [MessageLog.pushStamped]
  dsimp only
  rw [messages_push, hmessages]
  split
  · exact ⟨[], (List.append_nil _).symm, fun row hrow => absurd hrow List.not_mem_nil⟩
  · refine ⟨[_], rfl, fun row hrow => ?_⟩
    rw [List.mem_singleton.1 hrow, hevent]

theorem mem_finish {occupancy : CallOccupancy} {callId : String} {confirmed : Bool}
    {entry : String × Reservation} (he : entry ∈ (occupancy.finish callId confirmed).devices) :
    entry ∈ occupancy.devices := by
  rw [CallOccupancy.finish] at he
  split at he
  · rw [CallOccupancy.forgetOffer] at he
    split at he
    · exact (List.mem_filter.1 he).1
    · exact (List.mem_filter.1 he).1
  · exact (List.mem_filter.1 he).1

/-- A call is noted with the one that it has replaced. -/
def closesOf (call : CallState) (confirmed : Bool) : List (String × Bool) :=
  (call.callId, confirmed) :: call.mergedCallId.toList.map (·, confirmed)

/-- What is written down at the end of a call. -/
theorem finishCall_writes {call : CallState} (h : CallHost) (kind : String) (durationMs : Nat)
    (hcall : s.call = some call) : ∃ confirmed rows,
      (s.finishCall h kind durationMs).closings =
        s.closings ++ (closesOf call confirmed).map (·.1) ∧
      (s.finishCall h kind durationMs).book = s.book.closeAll (closesOf call confirmed) ∧
      (s.finishCall h kind durationMs).messages.messages = s.messages.messages ++ rows ∧
      (∀ row ∈ rows, ∃ event ∈ row.callEvent, event.callId = call.callId) ∧
      (∀ entry ∈ (s.finishCall h kind durationMs).occupancy.devices, entry ∈ s.occupancy.devices) ∧
      (s.finishCall h kind durationMs).core = none := by
  rw [finishCall, hcall]
  dsimp only [appendCallEventMessage]
  refine ⟨call.direction = .caller || call.phase = .active || s.book.confirmedClosed call.callId, ?_⟩
  obtain ⟨rows, hrows, hevent⟩ := messages_pushStamped s.messages h.now h.occurrence
    (callEventMessage (if call.direction = .caller then s.deviceId else call.remoteDevice)
      (call.direction = .caller) kind durationMs call.callId)
  have hids : ∀ row ∈ rows, ∃ event ∈ row.callEvent, event.callId = call.callId :=
    fun row hrow => ⟨_, hevent row hrow, rfl⟩
  cases hmerged : call.mergedCallId with
  | none =>
    refine ⟨rows, ?_, ?_, by simpa [close] using hrows, hids, fun _ => mem_finish, rfl⟩
    · simp [closesOf, hmerged, close]
    · simp [closesOf, hmerged, close, CallProtocolBook.closeAll]
  | some id =>
    refine ⟨rows, ?_, ?_, by simpa [close] using hrows, hids, fun _ => mem_finish, rfl⟩
    · simp [closesOf, hmerged, close]
    · simp [closesOf, hmerged, close, CallProtocolBook.closeAll]

theorem matchesId_of_mem_closesOf {call : CallState} {confirmed : Bool} {c : String × Bool}
    (hc : c ∈ closesOf call confirmed) : call.core.matchesId c.1 := by
  rcases List.mem_cons.1 hc with rfl | hc
  · exact .inl rfl
  · obtain ⟨id, hid, rfl⟩ := List.mem_map.1 hc
    exact .inr (Option.mem_toList.1 hid)

theorem ledger_finishCall (kind : String) (durationMs : Nat) :
    Ledger heard s (s.finishCall h kind durationMs) := by
  cases hcall : s.call with
  | none =>
    rw [finishCall, hcall]
    exact (Plain.refl s).toLedger
  | some call =>
    have hcore := core_some hcall
    obtain ⟨confirmed, rows, hclosings, hbook, hrows, hevent, hdevices, hnone⟩ :=
      finishCall_writes h kind durationMs hcall
    refine ⟨⟨_, hclosings, by rw [hbook], .inr fun c hc => ?_⟩, ⟨rows, hrows, fun row hrow => ?_⟩,
      fun entry he => .inl (hdevices entry he)⟩
    · exact ⟨call.core, hcore, matchesId_of_mem_closesOf hc, hnone⟩
    · obtain ⟨event, hmem, hid⟩ := hevent row hrow
      exact ⟨event, hmem, .inl ⟨call.core, hcore, hid.symm, hnone⟩⟩

theorem ledger_callEnd (callId reason : String) : Ledger heard s (s.callEnd h callId reason).1 := by
  rw [callEnd]
  cases s.call.filter (·.matchesId callId) with
  | none => exact (Plain.refl s).toLedger
  | some call =>
    exact ((aside_ends _ _).trans (aside_publish _ _ _ _)).ledger (ledger_finishCall _ _)

theorem ledger_callDecline (callId reason : String) :
    Ledger heard s (s.callDecline h callId reason).1 := by
  rw [callDecline]
  split
  · exact (Plain.refl s).toLedger
  have haside := aside_publish s h callId (.decline reason)
  cases hp : s.publishAuthenticatedCall h callId (.decline reason) with
  | mk t outcome =>
    rw [hp] at haside
    cases outcome with
    | error error => exact haside.plain.toLedger
    | ok u => exact (haside.trans (aside_ends _ _)).ledger (ledger_finishCall _ _)

/-! ## Controls -/

section Control

variable {k : CallControl}

/-- A reservation is an old one, or a new one of the call. -/
theorem mem_reserve {occupancy : CallOccupancy} {device callId caller : String}
    {receiver : Option String} {now : Nat} {entry : String × Reservation}
    (he : entry ∈ (occupancy.reserve device callId caller receiver now).devices) :
    entry ∈ occupancy.devices ∨ entry.2.callId = callId := by
  rw [CallOccupancy.reserve] at he
  dsimp only at he
  split at he
  · exact .inl (List.mem_filter.1 he).1
  · rcases List.mem_append.1 he with he | he
    · exact .inl (List.mem_filter.1 (List.mem_filter.1 he).1).1
    · rw [List.mem_singleton.1 he]
      exact .inr rfl

theorem mem_reserveSelected {occupancy : CallOccupancy} {device callId caller : String} {now : Nat}
    {entry : String × Reservation}
    (he : entry ∈ (occupancy.reserveSelected device callId caller now).devices) :
    entry ∈ occupancy.devices ∨ entry.2.callId = callId := by
  rw [CallOccupancy.reserveSelected] at he
  split at he
  · exact .inl (List.mem_filter.1 he).1
  split at he
  · exact .inl (List.mem_filter.1 he).1
  · rcases mem_reserve he with he | he
    · exact .inl (List.mem_filter.1 he).1
    · exact .inr he

theorem mem_release {occupancy : CallOccupancy} {device callId : String} {entry : String × Reservation}
    (he : entry ∈ (occupancy.release device callId).devices) : entry ∈ occupancy.devices := by
  rw [CallOccupancy.release] at he
  split at he
  · exact (List.mem_filter.1 he).1
  · exact he

theorem mem_receiveEnd {occupancy : CallOccupancy} {sender callId : String}
    {entry : String × Reservation} (he : entry ∈ (occupancy.receiveEnd sender callId).devices) :
    entry ∈ occupancy.devices := by
  rw [CallOccupancy.receiveEnd] at he
  have he := (List.mem_filter.1 he).1
  split at he
  · rw [CallOccupancy.forgetOffer] at he
    split at he
    · exact he
    · exact he
  · exact he

theorem mem_observeSibling {occupancy : CallOccupancy} {caller : String} {now : Nat}
    {entry : String × Reservation} (he : entry ∈ (observeSibling occupancy k caller now).devices) :
    entry ∈ occupancy.devices ∨ entry.2.callId = k.callId := by
  rw [observeSibling] at he
  split at he
  · exact .inl (mem_release he)
  · exact .inl (mem_release he)
  · exact mem_reserve he
  · exact mem_reserve he
  · exact mem_reserve he

theorem ledger_observeOwnCall (hown : s.membership.any (·.callOwn k.signer) = true)
    (hsigner : k.signer ≠ s.own) : Ledger (some k) s (s.observeOwnCall h k) := by
  have hreason : s.core = none ∨ (s.observeOwnCall h k).core = none ∨
      s.membership.any (·.callOwn k.signer) = true ∧ k.signer ≠ s.own := .inr (.inr ⟨hown, hsigner⟩)
  by_cases hend : s.authoritativeCallEnd k = true
  · rw [observeOwnCall, if_pos hend] at hreason ⊢
    refine ⟨⟨[(k.callId, true)], rfl, rfl, .inl ⟨k, rfl, rfl, hend⟩⟩, ⟨[], (List.append_nil _).symm,
      fun _ hrow => absurd hrow List.not_mem_nil⟩, fun entry he => ?_⟩
    rcases mem_observeSibling he with he | he
    · exact .inl (mem_finish he)
    · exact .inr ⟨k, rfl, he, hreason⟩
  · rw [observeOwnCall, if_neg hend] at hreason ⊢
    refine ⟨⟨[], (List.append_nil _).symm, rfl, .inr fun _ hc => absurd hc List.not_mem_nil⟩,
      ⟨[], (List.append_nil _).symm, fun _ hrow => absurd hrow List.not_mem_nil⟩, fun entry he => ?_⟩
    rcases mem_observeSibling he with he | he
    · exact .inl he
    · exact .inr ⟨k, rfl, he, hreason⟩

theorem plain_receiveNativeMedia {signal : Signal} : Plain s (s.receiveNativeMedia k signal) := by
  rw [receiveNativeMedia]
  cases s.call.filter fun call => call.phase = .active && call.callId = k.callId with
  | none => exact .refl s
  | some call =>
    dsimp only
    split
    · exact .refl s
    split
    · split
      · exact .refl s
      · exact ⟨rfl, rfl, rfl, fun _ => id⟩
    · exact ⟨rfl, rfl, rfl, fun _ => id⟩

theorem ledger_refuseOtherEngine (haction : k.action = .offer)
    (hprotocol : k.mediaProtocol ≠ s.mediaProtocol) (hopen : s.closedCallOffer k.callId = false) :
    Ledger (some k) s (s.refuseOtherEngine h k).1 := by
  rw [refuseOtherEngine]
  have haside := (aside_ends _ _).trans (aside_publish
    { s.appendCallEventMessage h k.name false updateRequired 0 k.callId with
      ends := (s.appendCallEventMessage h k.name false updateRequired 0 k.callId).ends.remember
        k.callId (.decline updateRequired) h.now } h k.callId (.decline updateRequired))
  obtain ⟨rows, hrows, hevent⟩ := messages_pushStamped s.messages h.now h.occurrence
    (callEventMessage k.name false updateRequired 0 k.callId)
  refine ⟨⟨[], ?_, haside.closed, .inr fun _ hc => absurd hc List.not_mem_nil⟩, ⟨rows, ?_, ?_⟩, ?_⟩
  · rw [List.map_nil, List.append_nil]
    exact haside.closings
  · exact (congrArg _ haside.messages).trans hrows
  · exact fun row hrow => ⟨_, hevent row hrow, .inr ⟨k, rfl, haction, rfl, hprotocol, hopen⟩⟩
  · exact fun entry he => .inl (haside.occupancy ▸ he)

theorem plain_mergeCrossCall {call : CallState} : Plain s (s.mergeCrossCall h call k).1 := by
  rw [mergeCrossCall]
  split
  · exact ⟨rfl, rfl, rfl, fun _ => id⟩
  · have hinstall : Plain s { s.installIncomingCall h k with
        call := (s.installIncomingCall h k).call.map fun incoming =>
          ({ incoming with mergedCallId := some call.callId, phase := .accepting }).markOfferSent
            h.now } := ⟨rfl, rfl, rfl, fun _ => id⟩
    exact hinstall.trans (aside_publish _ h k.callId .answer).plain

theorem ledger_receiveCallOffer (haction : k.action = .offer) :
    Ledger (some k) s (s.receiveCallOffer h k).1 := by
  rw [receiveCallOffer]
  split
  · exact (Plain.refl s).toLedger
  next hlate =>
  have hopen : s.closedCallOffer k.callId = false := by
    simp only [Bool.or_eq_true, not_or, Bool.not_eq_true] at hlate
    exact hlate.1
  split
  · next hprotocol => exact ledger_refuseOtherEngine haction hprotocol hopen
  cases s.call with
  | some call =>
    dsimp only
    split
    · exact plain_mergeCrossCall.toLedger
    split
    · exact (aside_publish s h k.callId .answer).plain.toLedger
    · exact (Plain.refl s).toLedger
  | none =>
    dsimp only
    split
    · exact (aside_publish s h k.callId (.decline "busy")).plain.toLedger
    · exact Plain.toLedger ⟨rfl, rfl, rfl, fun _ => id⟩

theorem ledger_receiveCallAnswer : Ledger heard s (s.receiveCallAnswer h k).1 := by
  rw [receiveCallAnswer]
  cases s.call.filter fun call => decide (call.callId = k.callId) with
  | none => exact (Plain.refl s).toLedger
  | some call =>
    dsimp only
    split
    · exact (Plain.refl s).toLedger
    split
    · cases call.selectedSigner with
      | none => exact (Plain.refl s).toLedger
      | some receiver => exact (aside_publish s h k.callId (.selected receiver)).plain.toLedger
    split
    · exact (Plain.refl s).toLedger
    split
    · exact ledger_callEnd _ _
    have haside := aside_publish s h k.callId (.selected k.signer)
    cases hp : s.publishAuthenticatedCall h k.callId (.selected k.signer) with
    | mk t outcome =>
      rw [hp] at haside
      cases outcome with
      | error error => exact haside.plain.toLedger
      | ok u => exact Plain.toLedger (haside.plain.trans ⟨rfl, rfl, rfl, fun _ => id⟩)

theorem ledger_observeCallSelection {receiver : String} (hnone : s.core = none ∨ s'.core = none)
    (hs' : s'.book = (s.observeCallSelection h k receiver).book ∧
      s'.closings = (s.observeCallSelection h k receiver).closings ∧
      s'.messages = (s.observeCallSelection h k receiver).messages ∧
      s'.occupancy = (s.observeCallSelection h k receiver).occupancy) : Ledger (some k) s s' := by
  obtain ⟨hbook, hclosings, hmessages, hoccupancy⟩ := hs'
  rw [observeCallSelection] at hbook hclosings hmessages hoccupancy
  split at hbook
  · next hown =>
    rw [if_pos hown] at hclosings hmessages hoccupancy
    refine ⟨⟨[], ?_, congrArg _ hbook, .inr fun _ hc => absurd hc List.not_mem_nil⟩, ⟨[], ?_,
      fun _ hrow => absurd hrow List.not_mem_nil⟩, fun entry he => ?_⟩
    · rw [hclosings, List.map_nil, List.append_nil]
    · rw [hmessages, List.append_nil]
    · rw [hoccupancy] at he
      rcases mem_reserveSelected he with he | he
      · exact .inl he
      · refine .inr ⟨k, rfl, he, ?_⟩
        rcases hnone with hnone | hnone
        · exact .inl hnone
        · exact .inr (.inl hnone)
  · next hown =>
    rw [if_neg hown] at hclosings hmessages hoccupancy
    exact Plain.toLedger ⟨congrArg _ hbook, hclosings, hmessages, fun _ he => hoccupancy ▸ he⟩

theorem ledger_receiveCallSelection {receiver : String} :
    Ledger (some k) s (s.receiveCallSelection h k receiver) := by
  rw [receiveCallSelection]
  cases hcall : s.call with
  | none =>
    have hquiet : Quiet s (s.observeCallSelection h k receiver) := quiet_observeCallSelection
    have hcore : s.core = none := by rw [core, hcall]; rfl
    have hnone : (s.observeCallSelection h k receiver).call = none :=
      Option.map_eq_none_iff.1 (hquiet.core.trans hcore)
    simp only [Option.isNone_none, if_true, hnone, Option.filter_none]
    exact ledger_observeCallSelection (.inl hcore) ⟨rfl, rfl, rfl, rfl⟩
  | some call =>
    simp only [Option.isNone_some, Bool.false_eq_true, if_false, hcall]
    cases (some call).filter fun call => decide (call.callId = k.callId) with
    | none => exact (Plain.refl s).toLedger
    | some call' =>
      dsimp only
      split
      · exact (Plain.refl s).toLedger
      split
      · exact (Plain.refl s).toLedger
      split
      · exact ledger_observeCallSelection (.inr rfl) ⟨rfl, rfl, rfl, rfl⟩
      split
      · exact (Plain.refl s).toLedger
      · exact Plain.toLedger ⟨rfl, rfl, rfl, fun _ => id⟩

/-- A call of the session ends after it was noted as ended. -/
theorem ledger_close_finishCall {call : CallState} {kind : String} {durationMs : Nat}
    (hcall : s.call = some call) (hplain : Plain (s.close call.callId true) t)
    (htcall : t.call = some call) : Ledger heard s (t.finishCall h kind durationMs) := by
  have hcore := core_some hcall
  obtain ⟨confirmed, rows, hclosings, hbook, hrows, hevent, hdevices, hnone⟩ :=
    finishCall_writes h kind durationMs htcall
  refine ⟨⟨(call.callId, true) :: closesOf call confirmed, ?_, ?_, .inr fun c hc => ?_⟩,
    ⟨rows, ?_, fun row hrow => ?_⟩, fun entry he => .inl ?_⟩
  · rw [hclosings, hplain.closings, close, List.map_cons, List.append_assoc, List.singleton_append]
  · rw [hbook]
    exact CallProtocolBook.closed_closeAll_congr hplain.closed
  · rcases List.mem_cons.1 hc with rfl | hc
    · exact ⟨call.core, hcore, .inl rfl, hnone⟩
    · exact ⟨call.core, hcore, matchesId_of_mem_closesOf hc, hnone⟩
  · rw [hrows, hplain.messages]
    rfl
  · obtain ⟨event, hmem, hid⟩ := hevent row hrow
    exact ⟨event, hmem, .inl ⟨call.core, hcore, hid.symm, hnone⟩⟩
  · exact hplain.devices entry (hdevices entry he)

theorem ledger_receiveCallTermination : Ledger (some k) s (s.receiveCallTermination h k) := by
  have hplain : Plain s { s with occupancy := s.occupancy.receiveEnd k.signer k.callId } :=
    ⟨rfl, rfl, rfl, fun _ => mem_receiveEnd⟩
  rw [receiveCallTermination]
  dsimp only
  cases hf : s.call.filter (·.matchesId k.callId) with
  | none =>
    dsimp only
    split
    · next hend =>
      exact ⟨⟨[(k.callId, true)], rfl, rfl, .inl ⟨k, rfl, rfl, hend⟩⟩, ⟨[], (List.append_nil _).symm,
        fun _ hrow => absurd hrow List.not_mem_nil⟩, fun entry he => .inl (mem_receiveEnd he)⟩
    · exact hplain.toLedger
  | some call =>
    obtain ⟨hcall, -⟩ := filter_eq_some hf
    dsimp only
    split
    · exact hplain.toLedger
    split
    · exact Plain.toLedger (hplain.trans ⟨rfl, rfl, rfl, fun _ => id⟩)
    have hclose : Plain (s.close call.callId true) (close { s with
        occupancy := s.occupancy.receiveEnd k.signer k.callId } call.callId true) :=
      ⟨rfl, rfl, rfl, fun _ => mem_receiveEnd⟩
    split
    · have haside := (aside_ends _ _).trans (aside_publish { (close { s with
          occupancy := s.occupancy.receiveEnd k.signer k.callId } call.callId true) with
            ends := s.ends.remember call.callId (.end call.callerSigner "ended") h.now } h
          call.callId (.end call.callerSigner "ended"))
      exact ledger_close_finishCall hcall (hclose.trans haside.plain) (haside.call.trans hcall)
    · exact ledger_close_finishCall hcall hclose hcall

theorem ledger_applyCallControl : Ledger (some k) s (s.applyCallControl h k).1 := by
  rw [applyCallControl]
  split
  · exact (Plain.refl s).toLedger
  split
  · exact (Plain.refl s).toLedger
  next hsigner =>
  split
  · next hown => exact ledger_observeOwnCall hown hsigner
  cases haction : k.action with
  | media signal => exact plain_receiveNativeMedia.toLedger
  | offer => exact ledger_receiveCallOffer haction
  | answer => exact ledger_receiveCallAnswer
  | occupied _ _ => exact (Plain.refl s).toLedger
  | selected receiver => exact ledger_receiveCallSelection
  | decline _ => exact ledger_receiveCallTermination
  | «end» _ _ => exact ledger_receiveCallTermination

theorem aside_retainSigners : Aside s s.retainSigners := by
  rw [retainSigners]
  split
  · exact ⟨rfl, rfl, rfl, rfl, rfl, rfl, rfl, rfl⟩
  · exact .refl s

/-- Noting the sequence number of a control. -/
theorem aside_receive : Aside s { s with
    book := (if k.action.isMedia then (s.book, true) else s.book.receive k.signer k.sequence).1 } := by
  refine ⟨?_, rfl, rfl, rfl, rfl, rfl, rfl, rfl⟩
  dsimp only
  split
  · rfl
  · rw [CallProtocolBook.receive]
    split <;> rfl

/-- The session takes the control of an envelope: it is one of the session, its sender may take part,
    it could be saved, and it comes after the ones before it, unless it is one of the media engines
    or an end. -/
structure Accepted (s : CallSession) (h : CallHost) (envelope : CallEnvelope) (k : CallControl) :
    Prop where
  session : envelope.sessionId = s.sessionId
  opened : envelope.opened = .ok (k, k.signer)
  wellFormed : s.wellFormed k k.signer = true
  admits : s.admits k = true
  saved : h.saveOpened = .ok ()
  inOrder : k.action.isMedia = true ∨ (s.retainSigners.book.receive k.signer k.sequence).2 = true ∨
    k.action.terminal = true

theorem retainSigners_checks (s : CallSession) (k : CallControl) (signer : String) :
    s.retainSigners.wellFormed k signer = s.wellFormed k signer ∧
      s.retainSigners.admits k = s.admits k := by
  rw [retainSigners]
  split
  · exact ⟨rfl, by rw [admits, admits]⟩
  · exact ⟨rfl, rfl⟩

/-- A control is dropped, or does what its action says. -/
theorem handleCallControl_cases (s : CallSession) (h : CallHost) (envelope : CallEnvelope) :
    (Aside s (s.handleCallControl h envelope).1 ∧ ∀ k, ¬ Accepted s h envelope k) ∨
      ∃ t k, Aside s t ∧ Accepted s h envelope k ∧
        (s.handleCallControl h envelope).1 = (t.applyCallControl h k).1 := by
  rw [handleCallControl]
  split
  · next hother => exact .inl ⟨.refl s, fun k hk => hother hk.session⟩
  next hsession =>
  have hretain := aside_retainSigners (s := s)
  dsimp only
  cases hd : s.retainSigners.decryptCallControl h envelope.opened with
  | error error =>
    refine .inl ⟨hretain, fun k hk => ?_⟩
    have hok : s.retainSigners.decryptCallControl h envelope.opened = .ok k :=
      decryptCallControl_eq_ok.2 ⟨hk.opened, (s.retainSigners_checks k k.signer).1.trans hk.wellFormed,
        (s.retainSigners_checks k k.signer).2.trans hk.admits, hk.saved⟩
    rw [hok] at hd
    cases hd
  | ok k =>
    obtain ⟨hopened, hwell, hadmits, hsaved⟩ := decryptCallControl_eq_ok.1 hd
    have haside := hretain.trans (aside_receive (s := s.retainSigners) (k := k))
    -- the control is taken in its order, or in any
    have hiff : ((if k.action.isMedia then (s.retainSigners.book, true)
        else s.retainSigners.book.receive k.signer k.sequence).2 || k.action.terminal) = true ↔
        k.action.isMedia = true ∨ (s.retainSigners.book.receive k.signer k.sequence).2 = true ∨
          k.action.terminal = true := by
      by_cases hmedia : k.action.isMedia = true
      · simp [hmedia]
      · simp [hmedia]
    dsimp only [receiveControl]
    generalize (if k.action.isMedia then (s.retainSigners.book, true)
      else s.retainSigners.book.receive k.signer k.sequence) = received at haside hiff
    split
    · next horder =>
      refine .inr ⟨_, k, haside, ⟨not_not.1 hsession, hopened, ?_, ?_, hsaved, hiff.1 horder⟩, rfl⟩
      · exact (s.retainSigners_checks k k.signer).1.symm.trans hwell
      · exact (s.retainSigners_checks k k.signer).2.symm.trans hadmits
    · next horder =>
      refine .inl ⟨haside, fun k' hk' => horder (hiff.2 ?_)⟩
      obtain rfl : k = k' := congrArg Prod.fst (Except.ok.inj (hopened.symm.trans hk'.opened))
      exact hk'.inOrder

theorem Accepted.is_heard {envelope : CallEnvelope} (hk : Accepted s h envelope k) :
    CallSession.heard (.control envelope) = some k := by
  rw [CallSession.heard, hk.opened]
  rfl

end Control

/-! ## Steps -/

theorem ledger_handleCallControl (envelope : CallEnvelope) :
    Ledger (CallSession.heard (.control envelope)) s (s.handleCallControl h envelope).1 := by
  rcases s.handleCallControl_cases h envelope with ⟨haside, -⟩ | ⟨t, k, haside, hk, heq⟩
  · exact haside.plain.toLedger
  · rw [heq, hk.is_heard]
    exact haside.ledger ledger_applyCallControl

theorem aside_publish_list (h : CallHost) (due : List (String × CallAction)) (t : CallSession) :
    Aside t (due.foldl (fun t d => (publishAuthenticatedCall t h d.1 d.2).1) t) := by
  induction due generalizing t with
  | nil => exact .refl t
  | cons d rest ih =>
    rw [List.foldl_cons]
    exact (aside_publish t h d.1 d.2).trans (ih _)

theorem aside_publishDue (s : CallSession) (h : CallHost) : Aside s (s.publishDue h) :=
  (aside_ends s (s.ends.due h.now).1).trans (aside_publish_list h (s.ends.due h.now).2 _)

/-- Without a control, what follows a step that writes nothing down is what the two do. -/
theorem Plain.ledger (hplain : Plain s t) (hcore : t.core = s.core) (hledger : Ledger none t s') :
    Ledger none s s' := by
  obtain ⟨closes, hclosings, hclosed, hreason⟩ := hledger.closes
  obtain ⟨rows, hrows, hevent⟩ := hledger.rows
  rw [hcore] at hreason hevent
  refine ⟨⟨closes, hplain.closings ▸ hclosings, ?_, ?_⟩, ⟨rows, hplain.messages ▸ hrows, ?_⟩, ?_⟩
  · rw [hclosed]
    exact CallProtocolBook.closed_closeAll_congr hplain.closed
  · exact .inr (hreason.resolve_left fun ⟨_, hk, _⟩ => nomatch hk)
  · intro row hrow
    obtain ⟨event, hmem, hx | ⟨_, hk, _⟩⟩ := hevent row hrow
    · exact ⟨event, hmem, .inl hx⟩
    · cases hk
  · intro entry he
    rcases hledger.reserved entry he with he | ⟨_, hk, _⟩
    · exact .inl (hplain.devices entry he)
    · cases hk

theorem ledger_pumpCallSignaling : Ledger none s (s.pumpCallSignaling h) := by
  have hexpire : Plain s { s with occupancy := s.occupancy.expire h.now } :=
    ⟨rfl, rfl, rfl, fun _ he => (List.mem_filter.1 he).1⟩
  have hdue := aside_publishDue { s with occupancy := s.occupancy.expire h.now } h
  rw [pumpCallSignaling]
  refine (hexpire.trans hdue.plain).ledger hdue.core ?_
  generalize publishDue { s with occupancy := s.occupancy.expire h.now } h = t
  cases t.call with
  | none => exact (Plain.refl t).toLedger
  | some call =>
    dsimp only
    split
    · exact ledger_callEnd _ _
    split
    · exact (Plain.refl t).toLedger
    cases call.outboundControl with
    | none => exact (Plain.refl t).toLedger
    | some action =>
      have haside := aside_publish t h call.callId action
      dsimp only
      cases hp : t.publishAuthenticatedCall h call.callId action with
      | mk u outcome =>
        rw [hp] at haside
        cases outcome with
        | error _ => exact haside.plain.toLedger
        | ok _ => exact Plain.toLedger (haside.plain.trans ⟨rfl, rfl, rfl, fun _ => id⟩)

/-- What a step writes down, and why. -/
theorem ledger_step (input : CallInput) : Ledger (CallSession.heard input) s (s.step h input) := by
  cases input with
  | start =>
    rw [step, callStart]
    split
    · exact (Plain.refl s).toLedger
    split
    · exact (Plain.refl s).toLedger
    cases h.token with
    | error error => exact (Plain.refl s).toLedger
    | ok callId =>
      have haside := aside_publish { s with call := some (s.outgoingCall callId) } h callId .offer
      dsimp only [publishCallOffer]
      cases hp : publishAuthenticatedCall { s with call := some (s.outgoingCall callId) } h callId
          .offer with
      | mk t outcome =>
        rw [hp] at haside
        cases outcome with
        | error error =>
          exact Plain.toLedger ⟨haside.closed, haside.closings, haside.messages,
            haside.plain.devices⟩
        | ok u =>
          exact Plain.toLedger ⟨haside.closed, haside.closings, haside.messages,
            haside.plain.devices⟩
  | accept callId =>
    rw [step, callAccept]
    cases s.call with
    | none => exact (Plain.refl s).toLedger
    | some call =>
      dsimp only
      split
      · exact (Plain.refl s).toLedger
      have haside := aside_publish s h callId .answer
      dsimp only [publishCallAccept]
      cases hp : s.publishAuthenticatedCall h callId .answer with
      | mk t outcome =>
        rw [hp] at haside
        cases outcome with
        | error error => exact haside.plain.toLedger
        | ok u => exact Plain.toLedger (haside.plain.trans ⟨rfl, rfl, rfl, fun _ => id⟩)
  | decline callId reason => exact ledger_callDecline callId reason
  | «end» callId reason => exact ledger_callEnd callId reason
  | control envelope => exact ledger_handleCallControl envelope
  | pump => exact ledger_pumpCallSignaling
  | media callId signal =>
    rw [step, publishNativeMedia]
    split
    · exact (Plain.refl s).toLedger
    · exact (aside_publish s h callId (.media signal)).plain.toLedger
  | drain => exact Plain.toLedger ⟨rfl, rfl, rfl, fun _ => id⟩
  | reconcile =>
    rw [step, reconcileCallAuthority]
    split
    · exact ledger_finishCall _ _
    · exact (Plain.refl s).toLedger
  | members _ _ => exact Plain.toLedger ⟨rfl, rfl, rfl, fun _ => id⟩
  | admission _ => exact Plain.toLedger ⟨rfl, rfl, rfl, fun _ => id⟩

/-! ## Calls that have ended -/

section Ended

variable {k : CallControl}

/-- A control of a call that has ended for certain does nothing to the call or to the history. -/
theorem ignored_of_confirmed {input : CallInput} (hk : CallSession.heard input = some k)
    (hclosed : s.book.confirmedClosed k.callId = true) :
    (s.step h input).call = s.call ∧ (s.step h input).messages = s.messages := by
  cases input with
  | control envelope =>
    rw [step]
    rcases s.handleCallControl_cases h envelope with ⟨haside, -⟩ | ⟨t, k', haside, hk', heq⟩
    · exact ⟨haside.call, haside.messages⟩
    · obtain rfl : k' = k := Option.some.inj (hk'.is_heard.symm.trans hk)
      rw [heq, applyCallControl, if_pos ((haside.confirmedClosed k'.callId).trans hclosed)]
      exact ⟨haside.call, haside.messages⟩
  | _ => cases hk

/-- An offer of a call that has ended does nothing to the call. -/
theorem core_of_closed {input : CallInput} (hk : CallSession.heard input = some k)
    (haction : k.action = .offer) (hclosed : s.closedCallOffer k.callId = true) :
    (s.step h input).core = s.core := by
  cases input with
  | control envelope =>
    rw [step]
    rcases s.handleCallControl_cases h envelope with ⟨haside, -⟩ | ⟨t, k', haside, hk', heq⟩
    · exact haside.core
    · obtain rfl : k' = k := Option.some.inj (hk'.is_heard.symm.trans hk)
      have hlate : t.closedCallOffer k'.callId = true :=
        (haside.plain.closedCallOffer k'.callId).trans hclosed
      rw [heq, applyCallControl]
      split
      · exact haside.core
      split
      · exact haside.core
      split
      · exact quiet_observeOwnCall.core.trans haside.core
      rw [haction]
      dsimp only
      rw [receiveCallOffer, if_pos (by rw [hlate, Bool.true_or])]
      exact haside.core
  | _ => cases hk

end Ended

end CallSession

end Mosh.Calls
