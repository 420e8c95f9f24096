import Mosh.Calls.Session

/-!
# What a step of a session does to its call

Of a call, other devices only depend on its id, who called, which device takes part and how far it
is (`CallCore`). Every step of a session either leaves this core alone or takes it one turn on
(`Turn`), and every control that it sends says what the call is before or after the step (`Says`).

* `CallSession.publish_cases`: what sending a control does;
* `CallSession.effect_step`: what a step does;
* `CallSession.Proper`: what holds of the call of a session in every state.
-/

namespace Mosh.Calls

open DmDevices Conversation Checked

/-! ## The core of a call -/

/-- What other devices depend on. -/
structure CallCore where
  callId : String
  direction : CallDirection
  phase : CallPhase
  callerSigner : String
  selectedSigner : Option String
  mergedCallId : Option String
  deriving DecidableEq, Repr

def CallState.core (call : CallState) : CallCore :=
  ⟨call.callId, call.direction, call.phase, call.callerSigner, call.selectedSigner,
    call.mergedCallId⟩

def CallSession.core (s : CallSession) : Option CallCore := s.call.map (·.core)

/-- The core of a call that rings. -/
def CallCore.incoming (k : CallControl) : CallCore :=
  ⟨k.callId, .callee, .ringing, k.signer, none, none⟩

/-- What a step is taken for: the device, the control that it has received, the id that it draws
    for a new call, the protocol of its engine, and whether it may end the call. -/
structure Cause where
  own : String
  heard : Option CallControl
  token : Option String
  mediaProtocol : Nat
  ends : Prop

/-- The turns of a call. -/
inductive Turn (cause : Cause) : Option CallCore → Option CallCore → Prop
  | idle {c : Option CallCore} : Turn cause c c
  | start {id : String} (token : cause.token = some id) :
      Turn cause none (some ⟨id, .caller, .outgoing, cause.own, none, none⟩)
  | ended {x : CallCore} (ends : cause.ends) : Turn cause (some x) none
  /-- The caller has chosen another device. -/
  | dismissed {x : CallCore} {k : CallControl} {r : String} (heard : cause.heard = some k)
      (action : k.action = .selected r) (other : r ≠ cause.own) (callId : x.callId = k.callId)
      (signer : x.callerSigner = k.signer) (direction : x.direction = .callee)
      (phase : x.phase ≠ .active) : Turn cause (some x) none
  | accepted {x : CallCore} (phase : x.phase = .ringing ∨ x.phase = .accepting) :
      Turn cause (some x) (some { x with phase := .accepting })
  | installed {k : CallControl} (heard : cause.heard = some k) (action : k.action = .offer)
      (signer : k.signer ≠ cause.own) : Turn cause none (some (.incoming k))
  /-- Both sides call each other, and the call of this side goes on. -/
  | noted {x : CallCore} {k : CallControl} (heard : cause.heard = some k)
      (action : k.action = .offer) (phase : x.phase = .outgoing) (callId : x.callId ≠ k.callId)
      (before : ¬ CallSession.callBefore k.signer k.callId x.callerSigner x.callId) :
      Turn cause (some x) (some { x with mergedCallId := some k.callId })
  /-- Both sides call each other, and the call of the other side goes on. -/
  | replaced {x : CallCore} {k : CallControl} (heard : cause.heard = some k)
      (action : k.action = .offer) (signer : k.signer ≠ cause.own) (phase : x.phase = .outgoing)
      (callId : x.callId ≠ k.callId) (protocol : k.mediaProtocol = cause.mediaProtocol)
      (before : CallSession.callBefore k.signer k.callId x.callerSigner x.callId) :
      Turn cause (some x)
        (some { CallCore.incoming k with phase := .accepting, mergedCallId := some x.callId })
  /-- The caller chooses the device that has answered. -/
  | selects {x : CallCore} {k : CallControl} (heard : cause.heard = some k)
      (action : k.action = .answer) (callId : x.callId = k.callId)
      (direction : x.direction = .caller) (phase : x.phase = .outgoing)
      (protocol : k.mediaProtocol = cause.mediaProtocol) (signer : k.signer ≠ cause.own) :
      Turn cause (some x) (some { x with phase := .active, selectedSigner := some k.signer })
  /-- The caller has chosen this device. -/
  | selected {x : CallCore} {k : CallControl} (heard : cause.heard = some k)
      (action : k.action = .selected cause.own) (callId : x.callId = k.callId)
      (signer : x.callerSigner = k.signer) (direction : x.direction = .callee)
      (phase : x.phase = .accepting) :
      Turn cause (some x) (some { x with phase := .active, selectedSigner := some cause.own })

/-- What a control of a device says of its call: a device offers the call that it makes, answers
    one that it takes, and names the device that it has chosen. -/
def Says (c : Option CallCore) (k : CallControl) : Prop :=
  match k.action with
  | .offer => ∃ x ∈ c, x.callId = k.callId ∧ x.phase = .outgoing
  | .answer => ∃ x ∈ c, x.callId = k.callId ∧ (x.phase = .accepting ∨ x.phase = .active ∧
      x.callerSigner ≠ k.signer)
  | .selected r => ∃ x ∈ c, x.callId = k.callId ∧ x.direction = .caller ∧ x.phase = .active ∧
      x.selectedSigner = some r
  | _ => True

theorem Says.of_terminal {c : Option CallCore} {k : CallControl} (h : k.action.terminal = true) :
    Says c k := by
  rw [Says]
  cases hk : k.action with
  | decline _ => trivial
  | «end» _ _ => trivial
  | _ => simp [hk, CallAction.terminal] at h

/-! ## Sending -/

namespace CallSession

variable {s s' : CallSession} {h : CallHost} {cause : Cause}

/-- What sending a control does: the sequence number is used up, and the transport takes the
    control or not. -/
theorem publish_cases (s : CallSession) (h : CallHost) (callId : String) (action : CallAction) :
    ∃ book, book.closed = s.book.closed ∧ book.received = s.book.received ∧
      ((∃ error, s.publishAuthenticatedCall h callId action = ({ s with book }, .error error)) ∨
        ∃ peer sequence, s.publishAuthenticatedCall h callId action =
          ({ s with book, sent := s.sent ++ [s.control callId peer action sequence] }, .ok ())) := by
  rw [publishAuthenticatedCall]
  cases hseq : s.book.allocateSequence with
  | none => exact ⟨s.book, rfl, rfl, .inl ⟨_, rfl⟩⟩
  | some next =>
    obtain ⟨sequence, book⟩ := next
    obtain ⟨n, -, hn⟩ := Option.map_eq_some_iff.1 hseq
    obtain ⟨rfl, rfl⟩ := Prod.mk.injEq .. ▸ hn
    refine ⟨{ s.book with nextSequence := n }, rfl, rfl, ?_⟩
    cases h.localPeer with
    | none => exact .inl ⟨_, rfl⟩
    | some peer =>
      cases hsend : h.send (s.control callId peer action n) with
      | error error => exact .inl ⟨error, by simp [hsend]⟩
      | ok u => exact .inr ⟨peer, n, by simp [hsend]⟩

/-- The end of a call. -/
theorem finishCall_some {call : CallState} (h : CallHost) (kind : String) (durationMs : Nat)
    (hcall : s.call = some call) : ∃ book closings occupancy messages,
      s.finishCall h kind durationMs = { s with call := none, book, closings, occupancy, messages } ∧
        call.callId ∈ closings ∧ s.closings <+: closings := by
  rw [finishCall, hcall]
  dsimp only
  cases hmerged : call.mergedCallId with
  | none =>
    exact ⟨_, _, _, _, rfl, List.mem_append_right _ (List.mem_singleton.2 rfl), s.closings.prefix_append _⟩
  | some id =>
    refine ⟨_, _, _, _, rfl, ?_, ?_⟩
    · exact List.mem_append_left _ (List.mem_append_right _ (List.mem_singleton.2 rfl))
    · exact (List.prefix_append _ _).trans (List.prefix_append _ _)

/-! ## Effects -/

/-- The control is one of the session. -/
def Signed (s : CallSession) (k : CallControl) : Prop :=
  k.signer = s.own ∧ k.mediaProtocol = s.mediaProtocol ∧ k.sessionId = s.sessionId

/-- Only controls that end a call are repeated after it. -/
def EndsTerminal (s : CallSession) : Prop := ∀ e ∈ s.ends, e.action.terminal = true

/-- A session does not become another one, and its histories only grow. -/
structure Kept (s s' : CallSession) : Prop where
  own : s'.own = s.own
  mediaProtocol : s'.mediaProtocol = s.mediaProtocol
  sessionId : s'.sessionId = s.sessionId
  ends : s.EndsTerminal → s'.EndsTerminal
  closings : s.closings <+: s'.closings

/-- What a step does. -/
structure Effect (cause : Cause) (s s' : CallSession) : Prop extends Kept s s' where
  turn : Turn cause s.core s'.core
  sent : ∃ ks, s'.sent = s.sent ++ ks ∧ ∀ k ∈ ks, s.Signed k ∧ (Says s.core k ∨ Says s'.core k)
  /-- A caller that has no call any more was told that it is over. -/
  closed : ∀ x ∈ s.core, x.direction = .caller → s'.core = none → x.callId ∈ s'.closings
  /-- A new call of this device is offered. -/
  offers : s.core = none → ∀ x ∈ s'.core, x.phase = .outgoing →
    ∃ k ∈ s'.sent, k.action = .offer ∧ k.callId = x.callId

namespace Kept

theorem refl (s : CallSession) : Kept s s := ⟨rfl, rfl, rfl, id, List.prefix_refl _⟩

theorem trans {t : CallSession} (h₁ : Kept s t) (h₂ : Kept t s') : Kept s s' where
  own := h₂.own.trans h₁.own
  mediaProtocol := h₂.mediaProtocol.trans h₁.mediaProtocol
  sessionId := h₂.sessionId.trans h₁.sessionId
  ends := h₂.ends ∘ h₁.ends
  closings := h₁.closings.trans h₂.closings

theorem signed {t : CallSession} (h : Kept s t) {k : CallControl} (hk : t.Signed k) : s.Signed k :=
  ⟨hk.1.trans h.own, hk.2.1.trans h.mediaProtocol, hk.2.2.trans h.sessionId⟩

end Kept

/-- A step that leaves the call alone. -/
structure Quiet (s s' : CallSession) : Prop extends Kept s s' where
  core : s'.core = s.core
  sent : ∃ ks, s'.sent = s.sent ++ ks ∧ ∀ k ∈ ks, s.Signed k ∧ Says s.core k

namespace Quiet

theorem refl (s : CallSession) : Quiet s s :=
  ⟨.refl s, rfl, [], (List.append_nil _).symm, fun _ hk => absurd hk List.not_mem_nil⟩

/-- Nothing is sent and the call stays the same. -/
theorem of_eq (hkept : Kept s s') (hcore : s'.core = s.core) (hsent : s'.sent = s.sent) :
    Quiet s s' :=
  ⟨hkept, hcore, [], by rw [hsent, List.append_nil], fun _ hk => absurd hk List.not_mem_nil⟩

theorem trans {t : CallSession} (h₁ : Quiet s t) (h₂ : Quiet t s') : Quiet s s' := by
  obtain ⟨ks₁, hs₁, hk₁⟩ := h₁.sent
  obtain ⟨ks₂, hs₂, hk₂⟩ := h₂.sent
  refine ⟨h₁.toKept.trans h₂.toKept, h₂.core.trans h₁.core, ks₁ ++ ks₂, ?_, fun k hk => ?_⟩
  · rw [hs₂, hs₁, List.append_assoc]
  · rcases List.mem_append.1 hk with hk | hk
    · exact hk₁ k hk
    · exact ⟨h₁.toKept.signed (hk₂ k hk).1, h₁.core ▸ (hk₂ k hk).2⟩

/-- What follows a step that leaves the call alone is what the two do. -/
theorem effect {t : CallSession} (h₁ : Quiet s t) (h₂ : Effect cause t s') : Effect cause s s' := by
  obtain ⟨ks₁, hs₁, hk₁⟩ := h₁.sent
  obtain ⟨ks₂, hs₂, hk₂⟩ := h₂.sent
  refine ⟨h₁.toKept.trans h₂.toKept, h₁.core ▸ h₂.turn, ⟨ks₁ ++ ks₂, ?_, fun k hk => ?_⟩,
    h₁.core ▸ h₂.closed, h₁.core ▸ h₂.offers⟩
  · rw [hs₂, hs₁, List.append_assoc]
  · rcases List.mem_append.1 hk with hk | hk
    · exact ⟨(hk₁ k hk).1, .inl (hk₁ k hk).2⟩
    · exact ⟨h₁.toKept.signed (hk₂ k hk).1, h₁.core ▸ (hk₂ k hk).2⟩

/-- A step that leaves the call alone is a step. -/
theorem toEffect (h : Quiet s s') : Effect cause s s' := by
  obtain ⟨ks, hs, hk⟩ := h.sent
  refine ⟨h.toKept, h.core ▸ .idle, ⟨ks, hs, fun k hmem => ?_⟩, fun x hx _ hnone => ?_,
    fun hnone x hx => ?_⟩
  · exact ⟨(hk k hmem).1, .inl (hk k hmem).2⟩
  · rw [← h.core, hnone] at hx
    cases hx
  · rw [h.core, hnone] at hx
    cases hx

end Quiet

/-- A step that takes the call one turn on, to a call that is not a new one of this device. -/
theorem Effect.of_some {y : CallCore} {ks : List CallControl} (hkept : Kept s s')
    (hcore : s'.core = some y) (hturn : Turn cause s.core (some y)) (hsent : s'.sent = s.sent ++ ks)
    (hsaid : ∀ k ∈ ks, s.Signed k ∧ Says (some y) k) (hold : s.core ≠ none ∨ y.phase ≠ .outgoing) :
    Effect cause s s' := by
  refine ⟨hkept, hcore ▸ hturn, ⟨ks, hsent, fun k hk => ?_⟩, fun _ _ _ hnone => ?_,
    fun hnone x hx hphase => ?_⟩
  · exact ⟨(hsaid k hk).1, .inr (hcore ▸ (hsaid k hk).2)⟩
  · exact absurd (hcore.symm.trans hnone) (Option.some_ne_none y)
  · obtain rfl := Option.some.inj (hcore.symm.trans hx)
    rcases hold with hold | hold
    · exact absurd hnone hold
    · exact absurd hphase hold

/-- Sending a control that says what the call is leaves the call alone. -/
theorem quiet_publish {callId : String} {action : CallAction}
    (hsaid : ∀ peer n, Says s.core (s.control callId peer action n)) :
    Quiet s (s.publishAuthenticatedCall h callId action).1 := by
  obtain ⟨book, -, -, ⟨error, hp⟩ | ⟨peer, n, hp⟩⟩ := s.publish_cases h callId action
  · rw [hp]
    exact .of_eq ⟨rfl, rfl, rfl, id, List.prefix_refl _⟩ rfl rfl
  · rw [hp]
    refine ⟨⟨rfl, rfl, rfl, id, List.prefix_refl _⟩, rfl, _, rfl, fun k hk => ?_⟩
    rw [List.mem_singleton.1 hk]
    exact ⟨⟨rfl, rfl, rfl⟩, hsaid peer n⟩

/-- Sending a control that ends a call leaves the call alone. -/
theorem quiet_publish_terminal {callId : String} {action : CallAction}
    (haction : action.terminal = true) :
    Quiet s (s.publishAuthenticatedCall h callId action).1 :=
  quiet_publish fun _ _ => .of_terminal haction

theorem mem_remember {controls : CallEndRetries} {callId : String} {action : CallAction} {now : Nat}
    {e : TerminalControl} (he : e ∈ controls.remember callId action now) :
    e ∈ controls ∨ e.action = action := by
  rw [CallEndRetries.remember] at he
  rcases List.mem_append.1 he with he | he
  · left
    split at he
    · exact (List.mem_filter.1 (List.mem_of_mem_tail he)).1
    · exact (List.mem_filter.1 he).1
  · right
    rw [List.mem_singleton.1 he]

/-- Remembering a control that ends a call leaves the call alone. -/
theorem quiet_remember {callId : String} {action : CallAction} {now : Nat}
    (haction : action.terminal = true) :
    Quiet s { s with ends := s.ends.remember callId action now } := by
  refine .of_eq ⟨rfl, rfl, rfl, fun hends e he => ?_, List.prefix_refl _⟩ rfl rfl
  rcases mem_remember he with he | he
  · exact hends e he
  · rw [he, haction]

/-- A call ends. -/
theorem effect_finishCall {kind : String} {durationMs : Nat} (hends : cause.ends) :
    Effect cause s (s.finishCall h kind durationMs) := by
  cases hcall : s.call with
  | none =>
    rw [finishCall, hcall]
    exact (Quiet.refl s).toEffect
  | some call =>
    obtain ⟨book, closings, occupancy, messages, heq, hmem, hgrow⟩ :=
      finishCall_some h kind durationMs hcall
    have hcore : s.core = some call.core := by rw [core, hcall]; rfl
    rw [heq]
    refine ⟨⟨rfl, rfl, rfl, id, hgrow⟩, ?_, ⟨[], (List.append_nil _).symm, ?_⟩, ?_, ?_⟩
    · rw [hcore]
      exact .ended hends
    · exact fun _ hk => absurd hk List.not_mem_nil
    · intro x hx _ _
      rw [hcore] at hx
      cases hx
      exact hmem
    · exact fun _ _ hx => nomatch hx

/-- A message leaves the call alone. -/
theorem quiet_appendCallEventMessage {caller kind callId : String} {own : Bool} {durationMs : Nat} :
    Quiet s (s.appendCallEventMessage h caller own kind durationMs callId) :=
  .of_eq ⟨rfl, rfl, rfl, id, List.prefix_refl _⟩ rfl rfl

theorem core_some {call : CallState} (hcall : s.call = some call) : s.core = some call.core := by
  rw [core, hcall]
  rfl

/-! ## What the user does -/

/-- A call with an id has a core with it. -/
theorem filter_eq_some {call : CallState} {p : CallState → Bool} (hf : s.call.filter p = some call) :
    s.call = some call ∧ p call = true := by
  obtain ⟨hcall, hp⟩ := Option.filter_eq_some_iff.1 hf
  exact ⟨hcall, hp⟩

theorem effect_callStart (hown : cause.own = s.own) (htoken : cause.token = h.token.toOption) :
    Effect cause s (s.callStart h).1 := by
  rw [callStart]
  split
  · exact (Quiet.refl s).toEffect
  split
  · exact (Quiet.refl s).toEffect
  next hnone =>
  cases hid : h.token with
  | error error => exact (Quiet.refl s).toEffect
  | ok callId =>
    have hcore : s.core = none := by
      rw [core, Option.not_isSome_iff_eq_none.1 hnone]
      rfl
    dsimp only [publishCallOffer]
    obtain ⟨book, -, -, ⟨error, hp⟩ | ⟨peer, n, hp⟩⟩ :=
      ({ s with call := some (s.outgoingCall callId) } : CallSession).publish_cases h callId .offer
    · rw [hp]
      dsimp only
      refine Quiet.toEffect (.of_eq ⟨rfl, rfl, rfl, id, List.prefix_refl _⟩ ?_ rfl)
      exact hcore.symm
    · rw [hp]
      refine ⟨⟨rfl, rfl, rfl, id, List.prefix_refl _⟩, ?_, ⟨_, rfl, fun k hk => ?_⟩, ?_, ?_⟩
      · rw [hcore]
        have hstart : Turn cause none (some ⟨callId, .caller, .outgoing, cause.own, none, none⟩) :=
          .start (by rw [htoken, hid]; rfl)
        rw [hown] at hstart
        exact hstart
      · rw [List.mem_singleton.1 hk]
        exact ⟨⟨rfl, rfl, rfl⟩, .inr ⟨_, rfl, rfl, rfl⟩⟩
      · intro x hx
        rw [hcore] at hx
        cases hx
      · rintro - x ⟨⟩ -
        exact ⟨_, List.mem_append_right _ (List.mem_singleton.2 rfl), rfl, rfl⟩

theorem effect_callAccept (callId : String) : Effect cause s (s.callAccept h callId).1 := by
  rw [callAccept]
  cases hcall : s.call with
  | none => exact (Quiet.refl s).toEffect
  | some call =>
    dsimp only
    split
    · exact (Quiet.refl s).toEffect
    next hphase =>
    have hcore := core_some hcall
    simp only [ne_eq, Bool.or_eq_true, Bool.and_eq_true, decide_eq_true_eq, not_or, not_not,
      not_and] at hphase
    obtain ⟨hid, hphase⟩ := hphase
    have hphase' : call.phase = .ringing ∨ call.phase = .accepting := by
      by_cases hr : call.phase = .ringing
      · exact .inl hr
      · exact .inr (hphase hr)
    dsimp only [publishCallAccept]
    obtain ⟨book, -, -, ⟨error, hp⟩ | ⟨peer, n, hp⟩⟩ := s.publish_cases h callId .answer
    · rw [hp]
      exact Quiet.toEffect (.of_eq ⟨rfl, rfl, rfl, id, List.prefix_refl _⟩ rfl rfl)
    · rw [hp]
      have hcore' : core { s with
          book := book
          sent := s.sent ++ [s.control callId peer .answer n]
          call := s.call.map fun call => ({ call with phase := .accepting }).markOfferSent h.now } =
          some { call.core with phase := .accepting } := by
        rw [core, hcall]
        rfl
      refine .of_some ⟨rfl, rfl, rfl, id, List.prefix_refl _⟩ hcore' ?_ rfl (fun k hk => ?_) ?_
      · rw [hcore]
        exact .accepted hphase'
      · rw [List.mem_singleton.1 hk]
        exact ⟨⟨rfl, rfl, rfl⟩, _, rfl, hid, .inl rfl⟩
      · exact .inr nofun

theorem effect_callDecline (callId reason : String) (hends : cause.ends) :
    Effect cause s (s.callDecline h callId reason).1 := by
  rw [callDecline]
  split
  · exact (Quiet.refl s).toEffect
  have hquiet : Quiet s (s.publishAuthenticatedCall h callId (.decline reason)).1 :=
    quiet_publish_terminal rfl
  cases hp : s.publishAuthenticatedCall h callId (.decline reason) with
  | mk t outcome =>
    rw [hp] at hquiet
    cases outcome with
    | error error => exact hquiet.toEffect
    | ok u =>
      have hremember : Quiet t { t with ends := t.ends.remember callId (.decline reason) h.now } :=
        quiet_remember rfl
      exact hquiet.effect (hremember.effect (effect_finishCall hends))

theorem effect_callEnd (callId reason : String) (hends : cause.ends) :
    Effect cause s (s.callEnd h callId reason).1 := by
  rw [callEnd]
  cases s.call.filter (·.matchesId callId) with
  | none => exact (Quiet.refl s).toEffect
  | some call =>
    have hremember : Quiet s { s with
        ends := s.ends.remember call.callId (.end call.callerSigner reason) h.now } :=
      quiet_remember rfl
    exact hremember.effect (Quiet.effect (quiet_publish_terminal rfl) (effect_finishCall hends))

/-! ## Controls -/

section Control

variable {k : CallControl}

theorem quiet_observeOwnCall : Quiet s (s.observeOwnCall h k) := by
  rw [observeOwnCall]
  by_cases hend : s.authoritativeCallEnd k = true
  · rw [if_pos hend]
    exact .of_eq ⟨rfl, rfl, rfl, id, List.prefix_append _ _⟩ rfl rfl
  · rw [if_neg hend]
    exact .of_eq ⟨rfl, rfl, rfl, id, List.prefix_refl _⟩ rfl rfl

theorem quiet_observeCallSelection {receiver : String} :
    Quiet s (s.observeCallSelection h k receiver) := by
  rw [observeCallSelection]
  split
  · exact .of_eq ⟨rfl, rfl, rfl, id, List.prefix_refl _⟩ rfl rfl
  · exact .refl s

theorem quiet_receiveNativeMedia {signal : Signal} : Quiet s (s.receiveNativeMedia k signal) := by
  rw [receiveNativeMedia]
  cases hcall : s.call.filter fun call => call.phase = .active && call.callId = k.callId with
  | none => exact .refl s
  | some call =>
    have hcore := core_some (filter_eq_some hcall).1
    dsimp only
    split
    · exact .refl s
    split
    · split
      · exact .refl s
      · exact .of_eq ⟨rfl, rfl, rfl, id, List.prefix_refl _⟩ hcore.symm rfl
    · exact .of_eq ⟨rfl, rfl, rfl, id, List.prefix_refl _⟩ hcore.symm rfl

theorem quiet_refuseOtherEngine : Quiet s (s.refuseOtherEngine h k).1 := by
  rw [refuseOtherEngine]
  have happend : Quiet s (s.appendCallEventMessage h k.name false updateRequired 0 k.callId) :=
    quiet_appendCallEventMessage
  exact happend.trans (Quiet.trans (quiet_remember rfl) (quiet_publish_terminal rfl))

theorem effect_mergeCrossCall {call : CallState} (hheard : cause.heard = some k)
    (hown : cause.own = s.own) (hprotocol : k.mediaProtocol = cause.mediaProtocol)
    (haction : k.action = .offer) (hsigner : k.signer ≠ s.own)
    (hcall : s.call = some call) (hphase : call.phase = .outgoing) (hid : call.callId ≠ k.callId) :
    Effect cause s (s.mergeCrossCall h call k).1 := by
  have hcore := core_some hcall
  rw [mergeCrossCall]
  split
  · next hbefore =>
    have hbefore' : ¬ callBefore k.signer k.callId call.callerSigner call.callId = true := by
      simpa using hbefore
    refine .of_some ⟨rfl, rfl, rfl, id, List.prefix_refl _⟩ rfl ?_ (List.append_nil _).symm
      (fun _ hk => absurd hk List.not_mem_nil) (.inl (by simp [hcore]))
    rw [hcore]
    exact .noted hheard haction hphase hid hbefore'
  · next hbefore =>
    have hbefore' : callBefore k.signer k.callId call.callerSigner call.callId = true := by
      simpa using hbefore
    dsimp only [installIncomingCall, publishCallAccept, Option.map_some]
    obtain ⟨book, -, -, hp⟩ := publish_cases { s with
      call := some ({ incomingCall h.now k with
        mergedCallId := some call.callId, phase := .accepting }.markOfferSent h.now)
      occupancy := s.occupancy.admitOffer k.callId k.signer } h k.callId .answer
    have hturn : Turn cause s.core (some { CallCore.incoming k with
        phase := .accepting, mergedCallId := some call.callId }) := by
      rw [hcore]
      exact .replaced hheard haction (hown ▸ hsigner) hphase hid hprotocol hbefore'
    rcases hp with ⟨error, hp⟩ | ⟨peer, n, hp⟩
    · rw [hp]
      exact .of_some ⟨rfl, rfl, rfl, id, List.prefix_refl _⟩ rfl hturn (List.append_nil _).symm
        (fun _ hk => absurd hk List.not_mem_nil) (.inr nofun)
    · rw [hp]
      refine .of_some ⟨rfl, rfl, rfl, id, List.prefix_refl _⟩ rfl hturn rfl (fun k' hk => ?_)
        (.inr nofun)
      rw [List.mem_singleton.1 hk]
      exact ⟨⟨rfl, rfl, rfl⟩, _, rfl, rfl, .inl rfl⟩

theorem effect_receiveCallOffer (hheard : cause.heard = some k) (hown : cause.own = s.own)
    (hprotocol : cause.mediaProtocol = s.mediaProtocol) (haction : k.action = .offer) (hsigner : k.signer ≠ s.own) :
    Effect cause s (s.receiveCallOffer h k).1 := by
  rw [receiveCallOffer]
  split
  · exact (Quiet.refl s).toEffect
  split
  · exact quiet_refuseOtherEngine.toEffect
  next hsame =>
  have hsame' : k.mediaProtocol = cause.mediaProtocol := (not_not.1 hsame).trans hprotocol.symm
  cases hcall : s.call with
  | some call =>
    have hcore := core_some hcall
    dsimp only
    split
    · next hmerge =>
      simp only [Bool.and_eq_true, decide_eq_true_eq, ne_eq] at hmerge
      exact effect_mergeCrossCall hheard hown hsame' haction hsigner hcall hmerge.1 hmerge.2
    split
    · next hanswer =>
      simp only [Bool.and_eq_true, Bool.or_eq_true, decide_eq_true_eq] at hanswer
      obtain ⟨⟨hid, hcaller⟩, hphase⟩ := hanswer
      refine Quiet.toEffect (quiet_publish fun peer n => ⟨_, hcore, hid, ?_⟩)
      rcases hphase with hphase | hphase
      · exact .inl hphase
      · exact .inr ⟨hphase, fun he => hsigner (hcaller.symm.trans he)⟩
    · exact (Quiet.refl s).toEffect
  | none =>
    dsimp only
    split
    · exact Quiet.toEffect (quiet_publish_terminal rfl)
    · have hcore : s.core = none := by rw [core, hcall]; rfl
      refine .of_some ⟨rfl, rfl, rfl, id, List.prefix_refl _⟩ rfl ?_ (List.append_nil _).symm
        (fun _ hk => absurd hk List.not_mem_nil) (.inr nofun)
      rw [hcore]
      exact .installed hheard haction (hown ▸ hsigner)

theorem effect_receiveCallAnswer (hheard : cause.heard = some k) (hown : cause.own = s.own)
    (hprotocol : cause.mediaProtocol = s.mediaProtocol) (haction : k.action = .answer)
    (hsigner : k.signer ≠ s.own) (hends : k.mediaProtocol ≠ s.mediaProtocol → cause.ends) :
    Effect cause s (s.receiveCallAnswer h k).1 := by
  rw [receiveCallAnswer]
  cases hf : s.call.filter fun call => decide (call.callId = k.callId) with
  | none => exact (Quiet.refl s).toEffect
  | some call =>
    obtain ⟨hcall, hid⟩ := filter_eq_some hf
    have hcore := core_some hcall
    have hid' : call.callId = k.callId := of_decide_eq_true hid
    dsimp only
    split
    · exact (Quiet.refl s).toEffect
    next hdirection =>
    have hdirection' : call.direction = .caller := not_not.1 hdirection
    split
    · next hactive =>
      cases hselected : call.selectedSigner with
      | none => exact (Quiet.refl s).toEffect
      | some receiver =>
        refine Quiet.toEffect (quiet_publish fun peer n => ?_)
        exact ⟨_, hcore, hid', hdirection', hactive, hselected⟩
    split
    · exact (Quiet.refl s).toEffect
    next houtgoing =>
    split
    · next hother => exact effect_callEnd _ _ (hends hother)
    next hsame =>
    obtain ⟨book, -, -, ⟨error, hp⟩ | ⟨peer, n, hp⟩⟩ :=
      s.publish_cases h k.callId (.selected k.signer)
    · rw [hp]
      exact Quiet.toEffect (.of_eq ⟨rfl, rfl, rfl, id, List.prefix_refl _⟩ rfl rfl)
    · rw [hp, hcall]
      refine .of_some ⟨rfl, rfl, rfl, id, List.prefix_refl _⟩ rfl ?_ rfl (fun k' hk => ?_)
        (.inr nofun)
      · rw [hcore]
        exact .selects hheard haction hid' hdirection' (not_not.1 houtgoing)
          ((not_not.1 hsame).trans hprotocol.symm) (hown ▸ hsigner)
      · rw [List.mem_singleton.1 hk]
        exact ⟨⟨rfl, rfl, rfl⟩, _, rfl, hid', hdirection', rfl, rfl⟩

theorem effect_receiveCallSelection {receiver : String} (hheard : cause.heard = some k)
    (hown : cause.own = s.own) (haction : k.action = .selected receiver) :
    Effect cause s (s.receiveCallSelection h k receiver) := by
  rw [receiveCallSelection]
  cases hcall : s.call with
  | none =>
    have hquiet : Quiet s (s.observeCallSelection h k receiver) := quiet_observeCallSelection
    have hnone : (s.observeCallSelection h k receiver).call = none := by
      have hcore := hquiet.core
      rw [core, core, hcall, Option.map_none] at hcore
      exact Option.map_eq_none_iff.1 hcore
    simp only [Option.isNone_none, if_true, hnone, Option.filter_none]
    exact hquiet.toEffect
  | some call =>
    have hcore := core_some hcall
    simp only [Option.isNone_some, Bool.false_eq_true, if_false, hcall]
    cases hf : (some call).filter fun call => decide (call.callId = k.callId) with
    | none => exact (Quiet.refl s).toEffect
    | some call' =>
      obtain ⟨hsame, hid⟩ := Option.filter_eq_some_iff.1 hf
      obtain rfl := Option.some.inj hsame
      have hid' : call.callId = k.callId := of_decide_eq_true hid
      dsimp only
      split
      · exact (Quiet.refl s).toEffect
      next hcaller =>
      simp only [ne_eq, Bool.or_eq_true, decide_eq_true_eq, not_or, not_not] at hcaller
      split
      · exact (Quiet.refl s).toEffect
      next hinactive =>
      split
      · next hother =>
        have hquiet : Quiet s (s.observeCallSelection h k receiver) := quiet_observeCallSelection
        refine hquiet.effect ⟨⟨rfl, rfl, rfl, id, List.prefix_refl _⟩, ?_,
          ⟨[], (List.append_nil _).symm, ?_⟩, ?_, ?_⟩
        · rw [hquiet.core, hcore]
          exact .dismissed hheard haction (hown ▸ hother) hid' hcaller.1 hcaller.2 hinactive
        · exact fun _ hk => absurd hk List.not_mem_nil
        · intro x hx hdirection _
          rw [hquiet.core, hcore] at hx
          cases hx
          exact absurd (hdirection.symm.trans hcaller.2) (by decide)
        · exact fun _ _ hx => nomatch hx
      next hme =>
      split
      · exact (Quiet.refl s).toEffect
      · next hphase =>
        refine .of_some ⟨rfl, rfl, rfl, id, List.prefix_refl _⟩ rfl ?_ (List.append_nil _).symm
          (fun _ hk => absurd hk List.not_mem_nil) (.inr nofun)
        rw [hcore]
        have hreceiver : receiver = cause.own := (not_not.1 hme).trans hown.symm
        subst hreceiver
        exact .selected hheard haction hid' hcaller.1 hcaller.2 (not_not.1 hphase)

theorem effect_receiveCallTermination (hends : cause.ends) :
    Effect cause s (s.receiveCallTermination h k) := by
  rw [receiveCallTermination]
  have hquiet : Quiet s { s with occupancy := s.occupancy.receiveEnd k.signer k.callId } :=
    .of_eq ⟨rfl, rfl, rfl, id, List.prefix_refl _⟩ rfl rfl
  refine hquiet.effect ?_
  generalize ({ s with occupancy := s.occupancy.receiveEnd k.signer k.callId } : CallSession) = s
  dsimp only
  cases hf : s.call.filter (·.matchesId k.callId) with
  | none =>
    dsimp only
    split
    · exact Quiet.toEffect (.of_eq ⟨rfl, rfl, rfl, id, List.prefix_append _ _⟩ rfl rfl)
    · exact (Quiet.refl s).toEffect
  | some call =>
    obtain ⟨hcall, -⟩ := filter_eq_some hf
    dsimp only
    split
    · exact (Quiet.refl s).toEffect
    split
    · refine Quiet.toEffect (.of_eq ⟨rfl, rfl, rfl, id, List.prefix_refl _⟩ ?_ rfl)
      rw [ringOnAfterEngineRefusal, core, core, hcall]
      rfl
    have hclose : Quiet s (s.close call.callId true) :=
      .of_eq ⟨rfl, rfl, rfl, id, List.prefix_append _ _⟩ rfl rfl
    refine hclose.effect ?_
    split
    · refine Quiet.effect ?_ (effect_finishCall hends)
      exact Quiet.trans (quiet_remember rfl) (quiet_publish_terminal rfl)
    · exact effect_finishCall hends

theorem effect_applyCallControl (hheard : cause.heard = some k) (hown : cause.own = s.own)
    (hprotocol : cause.mediaProtocol = s.mediaProtocol)
    (hends : k.action.terminal = true ∨ (k.action = .answer ∧ k.mediaProtocol ≠ s.mediaProtocol) →
      cause.ends) :
    Effect cause s (s.applyCallControl h k).1 := by
  rw [applyCallControl]
  split
  · exact (Quiet.refl s).toEffect
  split
  · exact (Quiet.refl s).toEffect
  next hsigner =>
  split
  · exact quiet_observeOwnCall.toEffect
  cases haction : k.action with
  | media signal => exact quiet_receiveNativeMedia.toEffect
  | offer => exact effect_receiveCallOffer hheard hown hprotocol haction hsigner
  | answer =>
    exact effect_receiveCallAnswer hheard hown hprotocol haction hsigner
      fun hother => hends (.inr ⟨haction, hother⟩)
  | occupied _ _ => exact (Quiet.refl s).toEffect
  | selected receiver => exact effect_receiveCallSelection hheard hown haction
  | decline _ => exact effect_receiveCallTermination (hends (.inl (by rw [haction]; rfl)))
  | «end» _ _ => exact effect_receiveCallTermination (hends (.inl (by rw [haction]; rfl)))

theorem quiet_retainSigners : Quiet s s.retainSigners := by
  rw [retainSigners]
  split
  · exact .of_eq ⟨rfl, rfl, rfl, id, List.prefix_refl _⟩ rfl rfl
  · exact .refl s

/-- A control that the session takes is one that opens, with its signer. -/
theorem decryptCallControl_eq_ok {opened : Except PrivateDmRuntimeError (CallControl × String)} :
    s.decryptCallControl h opened = .ok k ↔ opened = .ok (k, k.signer) ∧
      s.wellFormed k k.signer = true ∧ s.admits k = true ∧ h.saveOpened = .ok () := by
  constructor
  · intro hk
    obtain ⟨⟨k', signer⟩, hopened, hk⟩ := bind_eq_ok.1 hk
    obtain ⟨_, hwell, hk⟩ := bind_eq_ok.1 hk
    obtain ⟨_, hadmits, hk⟩ := bind_eq_ok.1 hk
    obtain ⟨_, hsave, hk⟩ := bind_eq_ok.1 hk
    obtain rfl := Except.ok.inj hk
    rw [check_eq_ok] at hwell hadmits
    have hsigner : k'.signer = signer := by
      have hw := hwell
      simp only [wellFormed, Bool.and_eq_true, decide_eq_true_eq] at hw
      exact hw.1.1.1.1.2
    subst hsigner
    exact ⟨hopened, hwell, hadmits, hsave⟩
  · rintro ⟨rfl, hwell, hadmits, hsave⟩
    refine bind_eq_ok.2 ⟨_, rfl, bind_eq_ok.2 ⟨(), check_eq_ok.2 hwell, ?_⟩⟩
    exact bind_eq_ok.2 ⟨(), check_eq_ok.2 hadmits, bind_eq_ok.2 ⟨(), hsave, rfl⟩⟩

theorem effect_receiveControl (hheard : cause.heard = some k) (hown : cause.own = s.own)
    (hprotocol : cause.mediaProtocol = s.mediaProtocol)
    (hends : k.action.terminal = true ∨ (k.action = .answer ∧ k.mediaProtocol ≠ s.mediaProtocol) →
      cause.ends) :
    Effect cause s (s.receiveControl h k).1 := by
  rw [receiveControl]
  generalize (if k.action.isMedia then (s.book, true) else s.book.receive k.signer k.sequence) =
    received
  have hquiet : Quiet s { s with book := received.1 } :=
    .of_eq ⟨rfl, rfl, rfl, id, List.prefix_refl _⟩ rfl rfl
  refine hquiet.effect ?_
  split
  · exact effect_applyCallControl hheard hown hprotocol hends
  · exact (Quiet.refl _).toEffect

end Control

/-! ## Steps -/

/-- The controls that are sent again are remembered ones. -/
theorem terminal_due (hends : s.EndsTerminal) (now : Nat) :
    (∀ e ∈ (s.ends.due now).1, e.action.terminal = true) ∧
      ∀ d ∈ (s.ends.due now).2, d.2.terminal = true := by
  constructor
  · intro e he
    obtain ⟨e', he', rfl⟩ := List.mem_map.1 he
    have hterminal := hends e' (List.mem_filter.1 he').1
    split
    · exact hterminal
    · exact hterminal
  · intro d hd
    obtain ⟨e, he, rfl⟩ := List.mem_map.1 hd
    exact hends e (List.mem_filter.1 (List.mem_filter.1 he).1).1

/-- Sending leaves the call as it is. -/
@[simp]
theorem publish_call (s : CallSession) (h : CallHost) (callId : String) (action : CallAction) :
    (s.publishAuthenticatedCall h callId action).1.call = s.call := by
  obtain ⟨book, -, -, ⟨error, hp⟩ | ⟨peer, n, hp⟩⟩ := s.publish_cases h callId action
  · rw [hp]
  · rw [hp]

/-- Sending controls that end calls leaves the call alone. -/
theorem quiet_publish_list {due : List (String × CallAction)}
    (hdue : ∀ d ∈ due, d.2.terminal = true) :
    Quiet s (due.foldl (fun t d => (publishAuthenticatedCall t h d.1 d.2).1) s) ∧
      (due.foldl (fun t d => (publishAuthenticatedCall t h d.1 d.2).1) s).call = s.call := by
  induction due generalizing s with
  | nil => exact ⟨.refl s, rfl⟩
  | cons d rest ih =>
    rw [List.foldl_cons]
    have hfirst : Quiet s (s.publishAuthenticatedCall h d.1 d.2).1 :=
      quiet_publish_terminal (hdue d List.mem_cons_self)
    obtain ⟨hquiet, hcall⟩ := ih (s := (s.publishAuthenticatedCall h d.1 d.2).1)
      fun d' hd' => hdue d' (List.mem_cons_of_mem _ hd')
    exact ⟨hfirst.trans hquiet, hcall.trans (publish_call s h d.1 d.2)⟩

theorem quiet_publishDue (hends : s.EndsTerminal) :
    Quiet s (s.publishDue h) ∧ (s.publishDue h).call = s.call := by
  obtain ⟨hkeep, hdue⟩ := terminal_due hends h.now
  have hquiet : Quiet s { s with ends := (s.ends.due h.now).1 } :=
    .of_eq ⟨rfl, rfl, rfl, fun _ => hkeep, List.prefix_refl _⟩ rfl rfl
  obtain ⟨hlist, hcall⟩ :=
    quiet_publish_list (s := { s with ends := (s.ends.due h.now).1 }) (h := h) hdue
  exact ⟨hquiet.trans hlist, hcall⟩

/-- The control of its phase says what the call is. -/
theorem says_outboundControl {call : CallState} {action : CallAction} {peer : String} {n : Nat}
    (hcall : s.call = some call) (haction : call.outboundControl = some action) :
    Says s.core (s.control call.callId peer action n) := by
  have hcore := core_some hcall
  rw [CallState.outboundControl] at haction
  cases hphase : call.phase with
  | outgoing =>
    rw [hphase] at haction
    cases haction
    exact ⟨_, hcore, rfl, hphase⟩
  | accepting =>
    rw [hphase] at haction
    cases haction
    exact ⟨_, hcore, rfl, .inl hphase⟩
  | active =>
    rw [hphase] at haction
    by_cases hdirection : call.direction = .caller
    · simp only [if_pos hdirection, Option.map_eq_some_iff] at haction
      obtain ⟨receiver, hselected, rfl⟩ := haction
      exact ⟨_, hcore, rfl, hdirection, hphase, hselected⟩
    · simp only [if_neg hdirection] at haction
      cases haction
      trivial
  | ringing =>
    rw [hphase] at haction
    cases haction
    trivial

/-- The call has rung for too long. -/
def RingsTooLong (s : CallSession) (h : CallHost) : Prop :=
  ∃ call ∈ s.call, call.phase ≠ .active ∧ callRingTimeoutMs ≤ h.now - call.offerFirstMs

theorem effect_pumpCallSignaling (hterminal : s.EndsTerminal)
    (hends : s.RingsTooLong h → cause.ends) : Effect cause s (s.pumpCallSignaling h) := by
  rw [pumpCallSignaling]
  have hexpire : Quiet s { s with occupancy := s.occupancy.expire h.now } :=
    .of_eq ⟨rfl, rfl, rfl, id, List.prefix_refl _⟩ rfl rfl
  obtain ⟨hdue, hsame⟩ :=
    quiet_publishDue (s := { s with occupancy := s.occupancy.expire h.now }) (h := h) hterminal
  refine (hexpire.trans hdue).effect ?_
  generalize publishDue { s with occupancy := s.occupancy.expire h.now } h = t at hsame
  cases hcall : t.call with
  | none => exact (Quiet.refl t).toEffect
  | some call =>
    dsimp only
    split
    · next hlong =>
      simp only [ne_eq, Bool.and_eq_true, decide_eq_true_eq] at hlong
      exact effect_callEnd _ _ (hends ⟨call, hsame.symm.trans hcall, hlong.1, hlong.2⟩)
    split
    · exact (Quiet.refl t).toEffect
    cases haction : call.outboundControl with
    | none => exact (Quiet.refl t).toEffect
    | some action =>
      have hquiet : Quiet t (t.publishAuthenticatedCall h call.callId action).1 :=
        quiet_publish fun _ _ => says_outboundControl hcall haction
      have hkept := t.publish_call h call.callId action
      dsimp only
      cases hp : t.publishAuthenticatedCall h call.callId action with
      | mk u outcome =>
        rw [hp] at hquiet hkept
        cases outcome with
        | error _ => exact hquiet.toEffect
        | ok _ =>
          refine Quiet.toEffect (Quiet.trans hquiet (.of_eq ⟨rfl, rfl, rfl, id, List.prefix_refl _⟩ ?_ rfl))
          have hu : u.call = some call := hkept.trans hcall
          rw [core, core]
          dsimp only
          rw [hu]
          rfl

/-- The control that an input brings. -/
def heard : CallInput → Option CallControl
  | .control envelope => envelope.opened.toOption.map (·.1)
  | _ => none

/-- The inputs that may end the call: what the user does, time, the loss of the authority to be in
    it, an end, and the answer of an engine of another protocol. -/
def mayEnd (s : CallSession) (h : CallHost) : CallInput → Prop
  | .decline _ _ | .end _ _ | .reconcile => True
  | .pump => s.RingsTooLong h
  | .control envelope => ∃ k ∈ heard (.control envelope),
      k.action.terminal = true ∨ (k.action = .answer ∧ k.mediaProtocol ≠ s.mediaProtocol)
  | _ => False

/-- What a step is taken for. -/
def causeOf (s : CallSession) (h : CallHost) (input : CallInput) : Cause where
  own := s.own
  heard := heard input
  token := match input with
    | .start => h.token.toOption
    | _ => none
  mediaProtocol := s.mediaProtocol
  ends := s.mayEnd h input

theorem effect_handleCallControl (envelope : CallEnvelope) :
    Effect (s.causeOf h (.control envelope)) s (s.handleCallControl h envelope).1 := by
  rw [handleCallControl]
  split
  · exact (Quiet.refl s).toEffect
  have hretain : Quiet s s.retainSigners := quiet_retainSigners
  refine hretain.effect ?_
  dsimp only
  cases hk : s.retainSigners.decryptCallControl h envelope.opened with
  | error error => exact (Quiet.refl _).toEffect
  | ok k =>
    obtain ⟨hopened, -⟩ := decryptCallControl_eq_ok.1 hk
    have hheard : heard (.control envelope) = some k := by
      rw [heard, hopened]
      rfl
    have hown : (s.causeOf h (.control envelope)).own = s.retainSigners.own := hretain.own.symm
    have hprotocol : (s.causeOf h (.control envelope)).mediaProtocol = s.retainSigners.mediaProtocol :=
      hretain.mediaProtocol.symm
    exact effect_receiveControl hheard hown hprotocol
      fun hend => ⟨k, hheard, hretain.mediaProtocol ▸ hend⟩

/-- What a step does to the call, and what it sends. -/
theorem effect_step (hterminal : s.EndsTerminal) (input : CallInput) :
    Effect (s.causeOf h input) s (s.step h input) := by
  cases input with
  | start => exact effect_callStart rfl rfl
  | accept callId => exact effect_callAccept callId
  | decline callId reason => exact effect_callDecline callId reason trivial
  | «end» callId reason => exact effect_callEnd callId reason trivial
  | control envelope => exact effect_handleCallControl envelope
  | pump => exact effect_pumpCallSignaling hterminal id
  | media callId signal =>
    rw [step, publishNativeMedia]
    split
    · exact (Quiet.refl s).toEffect
    · exact Quiet.toEffect (quiet_publish fun _ _ => trivial)
  | drain =>
    refine Quiet.toEffect (.of_eq ⟨rfl, rfl, rfl, id, List.prefix_refl _⟩ ?_ rfl)
    rw [step, drainNativeControls, core, core, Option.map_map]
    rfl
  | reconcile =>
    rw [step, reconcileCallAuthority]
    split
    · exact effect_finishCall trivial
    · exact (Quiet.refl s).toEffect
  | members _ _ =>
    exact Quiet.toEffect (.of_eq ⟨rfl, rfl, rfl, id, List.prefix_refl _⟩ rfl rfl)
  | admission _ =>
    exact Quiet.toEffect (.of_eq ⟨rfl, rfl, rfl, id, List.prefix_refl _⟩ rfl rfl)

end CallSession

/-! ## What holds of every call -/

/-- A caller waits or has chosen another device; a receiver rings, has answered or is chosen. -/
inductive CallCore.Proper (own : String) (x : CallCore) : Prop
  | waits (direction : x.direction = .caller) (callerSigner : x.callerSigner = own)
      (phase : x.phase = .outgoing) (selected : x.selectedSigner = none)
  | talks {r : String} (direction : x.direction = .caller) (callerSigner : x.callerSigner = own)
      (phase : x.phase = .active) (selected : x.selectedSigner = some r) (other : r ≠ own)
  | rings (direction : x.direction = .callee) (callerSigner : x.callerSigner ≠ own)
      (phase : x.phase = .ringing ∨ x.phase = .accepting) (selected : x.selectedSigner = none)
  | takes (direction : x.direction = .callee) (callerSigner : x.callerSigner ≠ own)
      (phase : x.phase = .active) (selected : x.selectedSigner = some own)

/-- What holds of a session in every state. -/
structure CallSession.Proper (s : CallSession) : Prop where
  ends : s.EndsTerminal
  call : ∀ x ∈ s.core, x.Proper s.own

namespace CallCore.Proper

variable {own : String} {x : CallCore}

theorem of_outgoing (h : x.Proper own) (hphase : x.phase = .outgoing) :
    x.direction = .caller ∧ x.callerSigner = own ∧ x.selectedSigner = none := by
  cases h with
  | waits hdirection hcaller _ hselected => exact ⟨hdirection, hcaller, hselected⟩
  | talks _ _ h => exact absurd (h.symm.trans hphase) (by decide)
  | rings _ _ h =>
    rcases h with h | h
    · exact absurd (h.symm.trans hphase) (by decide)
    · exact absurd (h.symm.trans hphase) (by decide)
  | takes _ _ h => exact absurd (h.symm.trans hphase) (by decide)

theorem of_caller (h : x.Proper own) (hdirection : x.direction = .caller) :
    x.callerSigner = own ∧ (x.phase = .outgoing ∧ x.selectedSigner = none ∨
      x.phase = .active ∧ ∃ r, r ≠ own ∧ x.selectedSigner = some r) := by
  cases h with
  | waits _ hcaller hphase hselected => exact ⟨hcaller, .inl ⟨hphase, hselected⟩⟩
  | talks _ hcaller hphase hselected hother => exact ⟨hcaller, .inr ⟨hphase, _, hother, hselected⟩⟩
  | rings h => exact absurd (h.symm.trans hdirection) (by decide)
  | takes h => exact absurd (h.symm.trans hdirection) (by decide)

theorem of_callee (h : x.Proper own) (hdirection : x.direction = .callee) :
    x.callerSigner ≠ own ∧ ((x.phase = .ringing ∨ x.phase = .accepting) ∧ x.selectedSigner = none ∨
      x.phase = .active ∧ x.selectedSigner = some own) := by
  cases h with
  | waits h => exact absurd (h.symm.trans hdirection) (by decide)
  | talks h => exact absurd (h.symm.trans hdirection) (by decide)
  | rings _ hcaller hphase hselected => exact ⟨hcaller, .inl ⟨hphase, hselected⟩⟩
  | takes _ hcaller hphase hselected => exact ⟨hcaller, .inr ⟨hphase, hselected⟩⟩

end CallCore.Proper

/-- A turn keeps what holds of every call. -/
theorem Turn.proper {cause : Cause} {c c' : Option CallCore} (hturn : Turn cause c c')
    (hc : ∀ x ∈ c, x.Proper cause.own) : ∀ x ∈ c', x.Proper cause.own := by
  cases hturn with
  | idle => exact hc
  | start => rintro _ ⟨⟩; exact .waits rfl rfl rfl rfl
  | ended => rintro _ ⟨⟩
  | dismissed => rintro _ ⟨⟩
  | @accepted x hphase =>
    rintro _ ⟨⟩
    cases hc x rfl with
    | waits _ _ h => simp [h] at hphase
    | talks _ _ h => simp [h] at hphase
    | rings hdirection hcaller _ hselected => exact .rings hdirection hcaller (.inr rfl) hselected
    | takes _ _ h => simp [h] at hphase
  | installed _ _ hsigner => rintro _ ⟨⟩; exact .rings rfl hsigner (.inl rfl) rfl
  | @noted x k _ _ hphase =>
    rintro _ ⟨⟩
    obtain ⟨hdirection, hcaller, hselected⟩ := (hc x rfl).of_outgoing hphase
    exact .waits hdirection hcaller hphase hselected
  | replaced _ _ hsigner => rintro _ ⟨⟩; exact .rings rfl hsigner (.inr rfl) rfl
  | @selects x k _ _ _ hdirection _ _ hsigner =>
    rintro _ ⟨⟩
    exact .talks hdirection ((hc x rfl).of_caller hdirection).1 rfl rfl hsigner
  | @selected x k _ _ _ _ hdirection =>
    rintro _ ⟨⟩
    exact .takes hdirection ((hc x rfl).of_callee hdirection).1 rfl rfl

/-- Where a call comes from: it is the one before, a new one of this device, or one that another
    device has offered. -/
theorem Turn.origin {cause : Cause} {c c' : Option CallCore} (hturn : Turn cause c c') {x' : CallCore}
    (hx' : x' ∈ c') :
    (∃ x ∈ c, x'.callId = x.callId ∧ x'.callerSigner = x.callerSigner ∧ x'.direction = x.direction) ∨
    (c = none ∧ cause.token = some x'.callId ∧ x'.callerSigner = cause.own ∧ x'.phase = .outgoing) ∨
    ∃ k, cause.heard = some k ∧ k.action = .offer ∧ k.signer ≠ cause.own ∧ x'.callId = k.callId ∧
      x'.callerSigner = k.signer ∧ x'.direction = .callee := by
  cases hturn with
  | idle => exact .inl ⟨x', hx', rfl, rfl, rfl⟩
  | start htoken => cases hx'; exact .inr (.inl ⟨rfl, htoken, rfl, rfl⟩)
  | ended => cases hx'
  | dismissed => cases hx'
  | accepted => cases hx'; exact .inl ⟨_, rfl, rfl, rfl, rfl⟩
  | installed hheard haction hsigner =>
    cases hx'
    exact .inr (.inr ⟨_, hheard, haction, hsigner, rfl, rfl, rfl⟩)
  | noted => cases hx'; exact .inl ⟨_, rfl, rfl, rfl, rfl⟩
  | replaced hheard haction hsigner =>
    cases hx'
    exact .inr (.inr ⟨_, hheard, haction, hsigner, rfl, rfl, rfl⟩)
  | selects => cases hx'; exact .inl ⟨_, rfl, rfl, rfl, rfl⟩
  | selected => cases hx'; exact .inl ⟨_, rfl, rfl, rfl, rfl⟩

/-- A call that is active goes on or ends. -/
theorem Turn.of_active {cause : Cause} {x : CallCore} {c' : Option CallCore}
    (hturn : Turn cause (some x) c') (hphase : x.phase = .active) :
    c' = some x ∨ c' = none ∧ cause.ends := by
  cases hturn with
  | idle => exact .inl rfl
  | ended hends => exact .inr ⟨rfl, hends⟩
  | dismissed _ _ _ _ _ _ h => exact absurd hphase h
  | accepted h => simp [hphase] at h
  | noted _ _ h => simp [hphase] at h
  | replaced _ _ _ h => simp [hphase] at h
  | selects _ _ _ _ h => simp [hphase] at h
  | selected _ _ _ _ _ h => simp [hphase] at h

/-- A device that takes a call was chosen for it. -/
theorem Turn.to_takes {cause : Cause} {c c' : Option CallCore} (hturn : Turn cause c c')
    {x' : CallCore} (hx' : x' ∈ c') (hdirection : x'.direction = .callee) (hphase : x'.phase = .active) :
    x' ∈ c ∨ ∃ k, cause.heard = some k ∧ k.action = .selected cause.own ∧ k.callId = x'.callId ∧
      k.signer = x'.callerSigner := by
  cases hturn with
  | idle => exact .inl hx'
  | start => cases hx'; cases hphase
  | ended => cases hx'
  | dismissed => cases hx'
  | accepted => cases hx'; cases hphase
  | installed => cases hx'; cases hphase
  | noted _ _ h => cases hx'; exact absurd (h.symm.trans hphase) (by decide)
  | replaced => cases hx'; cases hphase
  | selects _ _ _ h => cases hx'; exact absurd (h.symm.trans hdirection) (by decide)
  | selected hheard haction hid hsigner =>
    cases hx'
    exact .inr ⟨_, hheard, haction, hid.symm, hsigner.symm⟩

/-- A call that waits for an answer waited before, or is new. -/
theorem Turn.to_outgoing {cause : Cause} {c c' : Option CallCore} (hturn : Turn cause c c')
    {x' : CallCore} (hx' : x' ∈ c') (hphase : x'.phase = .outgoing) :
    (∃ x ∈ c, x.callId = x'.callId ∧ x.callerSigner = x'.callerSigner ∧ x.phase = .outgoing) ∨
      cause.token = some x'.callId := by
  cases hturn with
  | idle => exact .inl ⟨x', hx', rfl, rfl, hphase⟩
  | start htoken => cases hx'; exact .inr htoken
  | ended => cases hx'
  | dismissed => cases hx'
  | accepted => cases hx'; cases hphase
  | installed => cases hx'; cases hphase
  | noted _ _ h => cases hx'; exact .inl ⟨_, rfl, rfl, rfl, h⟩
  | replaced => cases hx'; cases hphase
  | selects => cases hx'; cases hphase
  | selected => cases hx'; cases hphase

/-- A step keeps what holds of a session. -/
theorem CallSession.Proper.step {s : CallSession} (hs : s.Proper) (h : CallHost)
    (input : CallInput) : (s.step h input).Proper := by
  have heffect : Effect (s.causeOf h input) s (s.step h input) := effect_step hs.ends input
  refine ⟨heffect.ends hs.ends, fun x hx => ?_⟩
  rw [heffect.own]
  exact heffect.turn.proper hs.call x hx

end Mosh.Calls
