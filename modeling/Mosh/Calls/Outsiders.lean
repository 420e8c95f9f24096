import Mosh.Calls.Ledger

/-!
# Outsiders and a call that is running

A call that is active has two participants, the caller and the device that it has chosen. Other
devices of either user may still send controls that name the call: they neither end it nor change
it. One of them leaves a trace all the same: an offer from an engine of another protocol that names
the call is refused like the offer of a new call, so that the history gets an end of the call that
is running, and its other participant a decline.

* `Undisturbed`: what an outsider must not change;
* `Refused`: the offers that leave a trace;
* `undisturbed_iff`: an outsider disturbs a call with these controls and with no others.
-/

namespace Mosh.Calls

open DmDevices Conversation

namespace CallSession

variable {s t : CallSession} {h : CallHost} {k : CallControl} {call : CallState}
  {envelope : CallEnvelope}

/-- The messages that record an end of a call with one of the ids of the call. -/
def eventsOf (s : CallSession) (call : CallState) : List ChatMessage :=
  s.messages.messages.filter fun message =>
    message.callEvent.any fun event => call.matchesId event.callId

/-- The call goes on as it is, is not noted as ended, and gets no end in the history. -/
structure Undisturbed (call : CallState) (s s' : CallSession) : Prop where
  goesOn : ∃ call' ∈ s'.call, call'.callId = call.callId ∧ call'.phase = call.phase ∧
    call'.direction = call.direction ∧ call'.callerSigner = call.callerSigner ∧
    call'.selectedSigner = call.selectedSigner ∧ call'.remotePeer = call.remotePeer ∧
    call'.nativeControls = call.nativeControls ∧ call'.mergedCallId = call.mergedCallId
  closings : ∃ ids, s'.closings = s.closings ++ ids ∧ ∀ id ∈ ids, call.matchesId id = false
  events : s'.eventsOf call = s.eventsOf call

/-- The message that records the refusal of an offer, and the log with its id drawn. -/
def refusal (s : CallSession) (h : CallHost) (k : CallControl) :
    ChatMessage × MessageLog ChatMessage :=
  s.messages.stamp h.now h.occurrence (callEventMessage k.name false updateRequired 0 k.callId)

/-- The offer names the call, and comes from an engine of another protocol. It is taken as one of a
    new call: the call has not been noted, no sibling is in it, and its sender is neither this
    device nor a sibling. -/
structure Refused (s : CallSession) (h : CallHost) (envelope : CallEnvelope) (k : CallControl)
    (call : CallState) : Prop where
  accepted : Accepted s h envelope k
  offer : k.action = .offer
  names : call.matchesId k.callId = true
  protocol : k.mediaProtocol ≠ s.mediaProtocol
  signer : k.signer ≠ s.own
  stranger : s.membership.any (·.callOwn k.signer) = false
  unknown : s.closedCallOffer k.callId = false
  free : s.occupancy.selected k.callId h.now = false
  /-- The id of the message is not one of an erased message. -/
  recorded : (s.refusal h k).2.knowsErased (s.refusal h k).1 = false

/-! ## Undisturbed calls -/

theorem undisturbed_of_eq {s' : CallSession} (hcall : s.call = some call) (hsame : s'.call = s.call)
    (hmessages : s'.messages = s.messages) {ids : List String}
    (hclosings : s'.closings = s.closings ++ ids) (hids : ∀ id ∈ ids, call.matchesId id = false) :
    Undisturbed call s s' := by
  refine ⟨⟨call, hsame.trans hcall, rfl, rfl, rfl, rfl, rfl, rfl, rfl, rfl⟩, ⟨ids, hclosings, hids⟩, ?_⟩
  rw [eventsOf, hmessages, eventsOf]

theorem Aside.undisturbed {s' : CallSession} (haside : Aside s s') (hcall : s.call = some call) :
    Undisturbed call s s' :=
  undisturbed_of_eq hcall haside.call haside.messages (by rw [haside.closings, List.append_nil])
    fun _ hid => absurd hid List.not_mem_nil

theorem Undisturbed.of_aside {s' : CallSession} (haside : Aside s t) (h : Undisturbed call t s') :
    Undisturbed call s s' := by
  obtain ⟨ids, hclosings, hids⟩ := h.closings
  refine ⟨h.goesOn, ⟨ids, haside.closings ▸ hclosings, hids⟩, h.events.trans ?_⟩
  rw [eventsOf, haside.messages, eventsOf]

/-- An end that an outsider sends for the call is not authoritative. -/
theorem not_matchesId_of_authoritative (hcall : s.call = some call)
    (hcaller : k.signer ≠ call.callerSigner) (hselected : call.selectedSigner ≠ some k.signer)
    (hend : s.authoritativeCallEnd k = true) : call.matchesId k.callId = false := by
  by_contra hmatches
  rw [Bool.not_eq_false] at hmatches
  rw [authoritativeCallEnd, hcall, Option.filter_some, if_pos hmatches] at hend
  split at hend
  · simp [hcaller, hselected] at hend
  · cases hend

section Handlers

variable (hcall : s.call = some call) (hactive : call.phase = .active)
  (hcaller : k.signer ≠ call.callerSigner) (hselected : call.selectedSigner ≠ some k.signer)

include hcall hcaller hselected in
theorem undisturbed_observeOwnCall : Undisturbed call s (s.observeOwnCall h k) := by
  by_cases hend : s.authoritativeCallEnd k = true
  · rw [observeOwnCall, if_pos hend]
    refine undisturbed_of_eq hcall rfl rfl rfl fun id hid => ?_
    rw [List.mem_singleton.1 hid]
    exact not_matchesId_of_authoritative hcall hcaller hselected hend
  · rw [observeOwnCall, if_neg hend]
    exact undisturbed_of_eq hcall rfl rfl (List.append_nil _).symm
      fun _ hid => absurd hid List.not_mem_nil

include hcall hcaller hselected in
theorem undisturbed_receiveNativeMedia {signal : Signal} :
    Undisturbed call s (s.receiveNativeMedia k signal) := by
  rw [receiveNativeMedia]
  cases hf : s.call.filter fun call => call.phase = .active && call.callId = k.callId with
  | none => exact (Aside.refl s).undisturbed hcall
  | some call' =>
    obtain rfl : call' = call := Option.some.inj ((filter_eq_some hf).1.symm.trans hcall)
    have hremote : remoteSigner call' ≠ some k.signer := by
      rw [remoteSigner]
      split
      · exact hselected
      · exact fun he => hcaller (Option.some.inj he).symm
    dsimp only
    rw [if_pos (by simp [hremote])]
    exact (Aside.refl s).undisturbed hcall

include hcall hactive in
theorem undisturbed_receiveCallAnswer : Undisturbed call s (s.receiveCallAnswer h k).1 := by
  rw [receiveCallAnswer]
  cases hf : s.call.filter fun call => decide (call.callId = k.callId) with
  | none => exact (Aside.refl s).undisturbed hcall
  | some call' =>
    obtain rfl : call' = call := Option.some.inj ((filter_eq_some hf).1.symm.trans hcall)
    dsimp only
    split
    · exact (Aside.refl s).undisturbed hcall
    cases call'.selectedSigner with
    | none => exact (Aside.refl s).undisturbed hcall
    | some receiver => exact (aside_publish s h k.callId (.selected receiver)).undisturbed hcall

include hcall hcaller in
theorem undisturbed_receiveCallSelection {receiver : String} :
    Undisturbed call s (s.receiveCallSelection h k receiver) := by
  rw [receiveCallSelection]
  simp only [hcall, Option.isNone_some, Bool.false_eq_true, if_false]
  cases hf : (some call).filter fun call => decide (call.callId = k.callId) with
  | none => exact (Aside.refl s).undisturbed hcall
  | some call' =>
    obtain rfl : call = call' := Option.some.inj (Option.filter_eq_some_iff.1 hf).1
    dsimp only
    rw [if_pos (by simp [Ne.symm hcaller])]
    exact (Aside.refl s).undisturbed hcall

include hcall hactive hcaller hselected in
theorem undisturbed_receiveCallTermination :
    Undisturbed call s (s.receiveCallTermination h k) := by
  rw [receiveCallTermination]
  dsimp only
  cases hf : s.call.filter (·.matchesId k.callId) with
  | none =>
    dsimp only
    split
    · next hend =>
      refine undisturbed_of_eq hcall rfl rfl rfl fun id hid => ?_
      rw [List.mem_singleton.1 hid]
      exact not_matchesId_of_authoritative hcall hcaller hselected hend
    · exact undisturbed_of_eq hcall rfl rfl (List.append_nil _).symm
        fun _ hid => absurd hid List.not_mem_nil
  | some call' =>
    obtain rfl : call' = call := Option.some.inj ((filter_eq_some hf).1.symm.trans hcall)
    have hpermitted : permitted call' k.signer = false := by
      rw [permitted, if_pos hactive]
      simp [hcaller, hselected]
    dsimp only
    rw [if_pos (by rw [hpermitted]; rfl)]
    exact undisturbed_of_eq hcall rfl rfl (List.append_nil _).symm
      fun _ hid => absurd hid List.not_mem_nil

/-! ## Offers -/

/-- Sending the refusal of an offer adds nothing to its message. -/
theorem refuseOtherEngine_writes (s : CallSession) (h : CallHost) (k : CallControl) :
    Aside { s with messages := (s.refusal h k).2.push (s.refusal h k).1 } (s.refuseOtherEngine h k).1 := by
  rw [refuseOtherEngine]
  exact (aside_ends _ _).trans (aside_publish _ _ _ _)

/-- The ends of the call in the history after an offer is refused. -/
theorem eventsOf_refuseOtherEngine : (s.refuseOtherEngine h k).1.eventsOf call =
    if call.matchesId k.callId && !(s.refusal h k).2.knowsErased (s.refusal h k).1 then
      s.eventsOf call ++ [(s.refusal h k).1]
    else s.eventsOf call := by
  obtain ⟨hevent, hmessages⟩ := stamp_callEvent s.messages h.now h.occurrence
    (callEventMessage k.name false updateRequired 0 k.callId)
  have hmatch : ((s.refusal h k).1.callEvent.any fun event => call.matchesId event.callId) =
      call.matchesId k.callId := by
    rw [refusal, hevent]
    rfl
  have hlog : (s.refusal h k).2.messages = s.messages.messages := hmessages
  rw [eventsOf, (refuseOtherEngine_writes s h k).messages, messages_push, hlog, eventsOf]
  by_cases hknown : (s.refusal h k).2.knowsErased (s.refusal h k).1 = true
  · simp [hknown]
  · by_cases hnames : call.matchesId k.callId = true
    · simp [hknown, hnames, List.filter_append, hmatch]
    · simp [hknown, hnames, List.filter_append, hmatch]

include hcall in
/-- A refusal disturbs the call if it names it. -/
theorem undisturbed_refuseOtherEngine : Undisturbed call s (s.refuseOtherEngine h k).1 ↔
    ¬ (call.matchesId k.callId = true ∧ (s.refusal h k).2.knowsErased (s.refusal h k).1 = false) := by
  have haside := refuseOtherEngine_writes s h k
  constructor
  · rintro hfree ⟨hnames, hrecorded⟩
    have hevents := hfree.events
    rw [eventsOf_refuseOtherEngine, hnames, hrecorded] at hevents
    simp at hevents
  · intro hfree
    refine ⟨⟨call, haside.call.trans hcall, rfl, rfl, rfl, rfl, rfl, rfl, rfl, rfl⟩,
      ⟨[], haside.closings.trans (List.append_nil _).symm, nofun⟩, ?_⟩
    rw [eventsOf_refuseOtherEngine, if_neg]
    simpa using hfree

include hcall hactive hcaller in
/-- An offer disturbs the call if it is refused and names it. -/
theorem undisturbed_receiveCallOffer : Undisturbed call s (s.receiveCallOffer h k).1 ↔
    ¬ (s.closedCallOffer k.callId = false ∧ s.occupancy.selected k.callId h.now = false ∧
      k.mediaProtocol ≠ s.mediaProtocol ∧ call.matchesId k.callId = true ∧
      (s.refusal h k).2.knowsErased (s.refusal h k).1 = false) := by
  rw [receiveCallOffer]
  by_cases hlate : (s.closedCallOffer k.callId || s.occupancy.selected k.callId h.now) = true
  · rw [if_pos hlate]
    refine iff_of_true ((Aside.refl s).undisturbed hcall) fun hbad => ?_
    obtain ⟨hopen, hfree, -⟩ := hbad
    rw [hopen, hfree] at hlate
    cases hlate
  rw [if_neg hlate]
  rw [Bool.or_eq_true, not_or, Bool.not_eq_true, Bool.not_eq_true] at hlate
  by_cases hprotocol : k.mediaProtocol ≠ s.mediaProtocol
  · rw [if_pos hprotocol, undisturbed_refuseOtherEngine hcall]
    simp [hlate.1, hlate.2, hprotocol]
  · rw [if_neg hprotocol, hcall]
    refine iff_of_true ?_ fun hbad => hprotocol hbad.2.2.1
    dsimp only
    rw [if_neg (by simp [hactive]), if_neg (by simp [Ne.symm hcaller])]
    exact (Aside.refl s).undisturbed hcall

end Handlers

/-! ## Controls -/

/-- Which controls of an outsider disturb a call that is active: the offers from an engine of
    another protocol that name the call, taken for offers of a new one. -/
theorem undisturbed_iff {signer : String} (hcall : s.call = some call)
    (hactive : call.phase = .active) (hopened : envelope.opened = .ok (k, signer))
    (hcaller : k.signer ≠ call.callerSigner) (hselected : call.selectedSigner ≠ some k.signer) :
    Undisturbed call s (s.handleCallControl h envelope).1 ↔ ¬ Refused s h envelope k call := by
  rcases s.handleCallControl_cases h envelope with ⟨haside, hdropped⟩ | ⟨t, k', haside, hk, heq⟩
  · exact iff_of_true (haside.undisturbed hcall) fun hbad => hdropped k hbad.accepted
  obtain rfl : k' = k := congrArg Prod.fst (Except.ok.inj (hk.opened.symm.trans hopened))
  have htcall : t.call = some call := haside.call.trans hcall
  -- what is asked of `s` is asked of `t`
  have hiff : Undisturbed call s (t.applyCallControl h k').1 ↔
      Undisturbed call t (t.applyCallControl h k').1 :=
    ⟨.of_aside haside.symm, .of_aside haside⟩
  have hrefusal : t.refusal h k' = s.refusal h k' := by rw [refusal, haside.messages, refusal]
  rw [heq, hiff, applyCallControl]
  split
  · next hclosed =>
    refine iff_of_true ((Aside.refl t).undisturbed htcall) fun hbad => ?_
    have hknown := CallProtocolBook.isClosed_of_confirmed
      ((haside.confirmedClosed k'.callId).symm.trans hclosed)
    have hunknown := hbad.unknown
    rw [closedCallOffer, hknown, Bool.true_or] at hunknown
    cases hunknown
  split
  · next hown =>
    exact iff_of_true ((Aside.refl t).undisturbed htcall) fun hbad =>
      hbad.signer (hown.trans haside.own)
  next hown =>
  split
  · next hsibling =>
    refine iff_of_true (undisturbed_observeOwnCall htcall hcaller hselected) fun hbad => ?_
    rw [haside.membership, hbad.stranger] at hsibling
    cases hsibling
  next hstranger =>
  -- only an offer can disturb the call
  have hother (hno : k'.action ≠ .offer) {s' : CallSession} (hfree : Undisturbed call t s') :
      Undisturbed call t s' ↔ ¬ Refused s h envelope k' call :=
    iff_of_true hfree fun hbad => hno hbad.offer
  cases haction : k'.action with
  | media signal =>
    exact hother (by simp [haction]) (undisturbed_receiveNativeMedia htcall hcaller hselected)
  | answer => exact hother (by simp [haction]) (undisturbed_receiveCallAnswer htcall hactive)
  | occupied _ _ => exact hother (by simp [haction]) ((Aside.refl t).undisturbed htcall)
  | selected receiver =>
    exact hother (by simp [haction]) (undisturbed_receiveCallSelection htcall hcaller)
  | decline _ =>
    exact hother (by simp [haction])
      (undisturbed_receiveCallTermination htcall hactive hcaller hselected)
  | «end» _ _ =>
    exact hother (by simp [haction])
      (undisturbed_receiveCallTermination htcall hactive hcaller hselected)
  | offer =>
    dsimp only
    rw [undisturbed_receiveCallOffer htcall hactive hcaller, haside.plain.closedCallOffer,
      haside.occupancy, haside.mediaProtocol, hrefusal, not_iff_not]
    constructor
    · rintro ⟨hunknown, hfree, hprotocol, hnames, hrecorded⟩
      refine ⟨hk, haction, hnames, hprotocol, fun he => hown (he.trans haside.own.symm), ?_, hunknown,
        hfree, hrecorded⟩
      rw [← haside.membership]
      exact Bool.eq_false_iff.2 hstranger
    · intro hbad
      exact ⟨hbad.unknown, hbad.free, hbad.protocol, hbad.names, hbad.recorded⟩

/-- The call of a phone that a caller has chosen. -/
def runningCall : CallState :=
  { CallState.ringing "call" "caller" with
    phase := .active
    startedAtMs := 1
    callerSigner := "caller"
    selectedSigner := some "phone"
    remotePeer := "address" }

def running : CallSession := { unused "phone" with call := some runningCall }

/-- Another device of the caller says that the call has ended. -/
def strangerEnds : CallEnvelope :=
  ⟨"dm", .ok (.said "laptop" 1 (.end "laptop" "hangup"), "laptop")⟩

/-- Another device of the caller, with an older engine, offers the call. -/
def strangerOffers : CallEnvelope :=
  ⟨"dm", .ok ({ CallControl.said "laptop" 1 .offer with mediaProtocol := 0 }, "laptop")⟩

theorem undisturbed_iff_ends :
    Undisturbed runningCall running (running.handleCallControl .clear strangerEnds).1 :=
  (undisturbed_iff (s := running) (h := .clear) (k := .said "laptop" 1 (.end "laptop" "hangup"))
    rfl rfl rfl (by decide) (by decide)).2 fun hbad => nomatch hbad.offer

/-- The offer of a stranger puts an end of the running call into the history, and declines it: the
    decline is one of a participant, on which the caller ends the call. -/
theorem running_disturbed :
    running.call = some runningCall ∧ runningCall.phase = .active ∧
    "laptop" ≠ runningCall.callerSigner ∧ runningCall.selectedSigner ≠ some "laptop" ∧
    ¬ Undisturbed runningCall running (running.handleCallControl .clear strangerOffers).1 ∧
    (running.handleCallControl .clear strangerOffers).1.sent =
      [.said "phone" 1 (.decline updateRequired)] := by
  refine ⟨rfl, rfl, by decide, by decide, fun hfree => ?_, by decide +kernel⟩
  have hevents : ((running.handleCallControl .clear strangerOffers).1.eventsOf runningCall).length =
      (running.eventsOf runningCall).length := congrArg _ hfree.events
  exact absurd hevents (by decide +kernel)

end CallSession

end Mosh.Calls
