import Mosh.Calls.State
import Mosh.Conversation.MessageLog

/-!
# Calls of a session

What a session does with its call (`private_dm_runtime/calls`): it starts, accepts, declines and
ends calls for its user, repeats its controls, and handles the controls of other devices. A
control that a caller, a receiver or a sibling sends is inside an MLS message, so that its signer
is known. The caller confirms the one device that takes part: a receiver that has answered waits
for it.

The transport, the store and the MLS state are only seen through their answers to a call
(`CallHost`). What the transport took is kept in `sent`; a send that fails leaves nothing there.
Every id that the book is told to close is kept in `closings`.

`CallSession.step` is the session after any one of these calls.
-/

namespace Mosh.DmDevices.DeviceMembership

variable {Key Signature : Type} (c : EvidenceCrypto Key Signature)

/-- The signer is a device of this user. -/
def callOwn (m : DeviceMembership) (signer : String) : Bool := m.topology.own signer

/-- The transport address of a signer, if its device is authorized. -/
def callPeer (m : DeviceMembership) (signer : String) : Option String := do
  let client ← m.topology.client signer
  let device ← (client.device c.toClaimCrypto).toOption
  if m.authorized c device client.roster.userId then some device.mossPeerId else none

end Mosh.DmDevices.DeviceMembership

namespace Mosh.Calls

open DmDevices Conversation Checked

/-! ## The session -/

/-- What a session asks of its membership about a signer. -/
structure CallMembers where
  callOwn : String → Bool
  callPeer : String → Option String

/-- The devices of a session as its calls see them. -/
def membersOf {Key Signature : Type} (c : EvidenceCrypto Key Signature) (m : DeviceMembership) :
    CallMembers where
  callOwn := m.callOwn
  callPeer := m.callPeer c

/-- The answers of the transport, of the store and of the MLS state during a call, and the time. -/
structure CallHost where
  now : Nat
  /-- The session is connected. -/
  ready : Bool := true
  /-- The address of this device. -/
  localPeer : Option String
  /-- The id for a new call. -/
  token : Except PrivateDmRuntimeError String := .error .notReady
  /-- What encrypting, saving and sending a control says. -/
  send : CallControl → Except PrivateDmRuntimeError Unit
  /-- What the store says to the MLS state after a control was opened, and after it was handled. -/
  saveOpened : Except PrivateDmRuntimeError Unit := .ok ()
  saveApplied : Except PrivateDmRuntimeError Unit := .ok ()
  /-- The random part of the id of a message. -/
  occurrence : String := ""
  /-- This device is authorized, and the leaves of the group. -/
  authorized : Bool := true
  memberSigners : List String := []

/-- The part of a session that calls use. -/
structure CallSession where
  sessionId : String
  deviceId : String
  /-- The signer of this device. -/
  own : String
  /-- The protocol of the media engine of this device. -/
  mediaProtocol : Nat
  peerMossId : Option String := none
  membership : Option CallMembers := none
  call : Option CallState := none
  book : CallProtocolBook := {}
  ends : CallEndRetries := []
  occupancy : CallOccupancy := {}
  admissionBlocked : Bool := false
  messages : MessageLog ChatMessage := {}
  /-- The controls that the transport took, and the ids that the book was told to close. These two
      are histories: no function reads them. -/
  sent : List CallControl := []
  closings : List String := []

/-- What the session says to a start. -/
structure CallStarted where
  sessionId : String
  callId : String
  deriving DecidableEq, Repr

/-- A control as it arrives: the session it names, and what opening its message gives: the control
    in it and the leaf that signed it. -/
structure CallEnvelope where
  sessionId : String
  opened : Except PrivateDmRuntimeError (CallControl × String)

namespace CallSession

variable (s : CallSession) (h : CallHost)

/-! ## Sending -/

/-- The control that is sent next. -/
def control (callId peer : String) (action : CallAction) (sequence : Nat) : CallControl where
  sessionId := s.sessionId
  callId := callId
  signer := s.own
  sequence := sequence
  peer := peer
  name := s.deviceId
  action := action
  mediaProtocol := s.mediaProtocol

/-- Send a control under the next sequence number. The number is used up in any case. -/
def publishAuthenticatedCall (callId : String) (action : CallAction) :
    CallSession × Except PrivateDmRuntimeError Unit :=
  match s.book.allocateSequence with
  | none => (s, .error .notReady)
  | some (sequence, book) =>
    match h.localPeer with
    | none => ({ s with book }, .error .notReady)
    | some peer =>
      match h.send (s.control callId peer action sequence) with
      | .error error => ({ s with book }, .error error)
      | .ok () => ({ s with book, sent := s.sent ++ [s.control callId peer action sequence] }, .ok ())

def publishCallOffer (callId : String) : CallSession × Except PrivateDmRuntimeError Unit :=
  s.publishAuthenticatedCall h callId .offer

def publishCallAccept (callId : String) : CallSession × Except PrivateDmRuntimeError Unit :=
  s.publishAuthenticatedCall h callId .answer

/-! ## The end of a call -/

/-- The book is told that a call has ended. -/
def close (callId : String) (confirmed : Bool) : CallSession :=
  { s with book := s.book.close callId confirmed, closings := s.closings ++ [callId] }

/-- The message that records the end of a call. -/
def callEventMessage (caller : String) (own : Bool) (kind : String) (durationMs : Nat)
    (callId : String) : ChatMessage where
  metadata := some { isOwn := some own }
  fromDevice := caller
  body := ""
  callEvent := some ⟨kind, durationMs, callId⟩

def appendCallEventMessage (caller : String) (own : Bool) (kind : String) (durationMs : Nat)
    (callId : String) : CallSession :=
  { s with
    messages := s.messages.pushStamped h.now h.occurrence
      (callEventMessage caller own kind durationMs callId) }

/-- The call is over: it is noted in the book, with the one it replaced, and in the history. -/
def finishCall (kind : String) (durationMs : Nat) : CallSession :=
  match s.call with
  | none => s
  | some call =>
    let confirmed := call.direction = .caller || call.phase = .active ||
      s.book.confirmedClosed call.callId
    let s := ({ s with call := none }).close call.callId confirmed
    let s := match call.mergedCallId with
      | some id => s.close id confirmed
      | none => s
    let own := call.direction = .caller
    ({ s with occupancy := s.occupancy.finish call.callId confirmed }).appendCallEventMessage h
      (if own then s.deviceId else call.remoteDevice) own kind durationMs call.callId

/-! ## What the user does -/

def holdsCall (callId : String) : Bool := s.call.any (·.matchesId callId)

/-- The call that this device makes. -/
def outgoingCall (callId : String) : CallState :=
  { CallState.outgoing callId "" with callerSigner := s.own }

def callStart : CallSession × Except PrivateDmRuntimeError CallStarted :=
  if !h.ready then (s, .error .notReady)
  else if s.call.isSome then (s, .error (.attachment "another call is already in flight"))
  else
    match h.token with
    | .error error => (s, .error error)
    | .ok callId =>
      match ({ s with call := some (s.outgoingCall callId) }).publishCallOffer h callId with
      | (s, .error error) => ({ s with call := none }, .error error)
      | (s, .ok ()) =>
        ({ s with call := s.call.map (·.markOfferSent h.now) }, .ok ⟨s.sessionId, callId⟩)

def callAccept (callId : String) : CallSession × Except PrivateDmRuntimeError Unit :=
  match s.call with
  | none => (s, .error .missingSession)
  | some call =>
    if call.callId ≠ callId || (call.phase ≠ .ringing && call.phase ≠ .accepting) then
      (s, .error .missingSession)
    else
      match s.publishCallAccept h callId with
      | (s, .error error) => (s, .error error)
      | (s, .ok ()) =>
        ({ s with
            call := s.call.map fun call => ({ call with phase := .accepting }).markOfferSent h.now },
          .ok ())

def callDecline (callId reason : String) : CallSession × Except PrivateDmRuntimeError Unit :=
  if !s.holdsCall callId then (s, .ok ())
  else
    match s.publishAuthenticatedCall h callId (.decline reason) with
    | (s, .error error) => (s, .error error)
    | (s, .ok ()) =>
      (({ s with ends := s.ends.remember callId (.decline reason) h.now }).finishCall h "missed" 0,
        .ok ())

/-- The call ends here even if its end could not be sent. -/
def callEnd (callId reason : String) : CallSession × Except PrivateDmRuntimeError Unit :=
  match s.call.filter (·.matchesId callId) with
  | none => (s, .ok ())
  | some call =>
    let action := CallAction.end call.callerSigner reason
    let (s, outcome) := ({ s with ends := s.ends.remember call.callId action h.now })
      |>.publishAuthenticatedCall h call.callId action
    (s.finishCall h (endKind call reason) (call.durationMs h.now), outcome)

/-! ## Controls of siblings -/

/-- The caller says which device takes part. -/
def observeCallSelection (control : CallControl) (receiver : String) : CallSession :=
  if s.membership.any (·.callOwn receiver) then
    { s with
      occupancy := s.occupancy.reserveSelected receiver control.callId control.signer h.now }
  else s

/-- The control ends its call for certain. -/
def authoritativeCallEnd (control : CallControl) : Bool :=
  match control.action with
  | .end caller _ =>
    match s.call.filter (·.matchesId control.callId) with
    | some call => control.signer = call.callerSigner || call.selectedSigner = some control.signer
    | none =>
      (s.occupancy.permitsEnd control.signer control.callId).getD (caller = control.signer)
  | _ => false

/-- What a control of a sibling says of the call that it is in. The caller is the one that this
    device knows, where the control does not name one. -/
def observeSibling (occupancy : CallOccupancy) (control : CallControl) (caller : String)
    (now : Nat) : CallOccupancy :=
  match control.action with
  | .end _ _ | .decline _ => occupancy.release control.signer control.callId
  | .occupied caller receiver =>
    occupancy.reserve control.signer control.callId caller receiver now
  | .selected receiver =>
    occupancy.reserve control.signer control.callId control.signer (some receiver) now
  | _ => occupancy.reserve control.signer control.callId caller none now

def observeOwnCall (control : CallControl) : CallSession :=
  let s := if s.authoritativeCallEnd control then
      { s.close control.callId true with occupancy := s.occupancy.finish control.callId true }
    else s
  let caller := ((s.call.filter (·.callId = control.callId)).map (·.callerSigner)).getD
    control.signer
  { s with occupancy := observeSibling s.occupancy control caller h.now }

/-! ## Offers -/

/-- A call with this id has been here. -/
def closedCallOffer (id : String) : Bool :=
  s.book.isClosed id ||
    s.messages.messages.any fun message => message.callEvent.any fun event => event.callId = id

/-- The engines cannot talk: record why the call did not ring, and let the caller end it the same
    way. -/
def refuseOtherEngine (control : CallControl) : CallSession × Except PrivateDmRuntimeError Unit :=
  let s := s.appendCallEventMessage h control.name false updateRequired 0 control.callId
  let decline := CallAction.decline updateRequired
  ({ s with ends := s.ends.remember control.callId decline h.now }).publishAuthenticatedCall h
    control.callId decline

def incomingCall (now : Nat) (control : CallControl) : CallState :=
  { (CallState.ringing control.callId control.name).markOfferSent now with
    callerSigner := control.signer
    remotePeer := control.peer }

def installIncomingCall (control : CallControl) : CallSession :=
  { s with
    call := some (incomingCall h.now control)
    occupancy := s.occupancy.admitOffer control.callId control.signer }

/-- Signer and id of one call are before those of another. -/
def callBefore (signer callId signer' callId' : String) : Bool :=
  signer < signer' || (signer = signer' && callId < callId')

/-- Both sides call each other. The call with the smaller pair of signer and id goes on. -/
def mergeCrossCall (call : CallState) (control : CallControl) :
    CallSession × Except PrivateDmRuntimeError Unit :=
  if !callBefore control.signer control.callId call.callerSigner call.callId then
    ({ s with call := some { call with mergedCallId := some control.callId } }, .ok ())
  else
    let s := s.installIncomingCall h control
    let s := { s with
      call := s.call.map fun (incoming : CallState) =>
        ({ incoming with mergedCallId := some call.callId, phase := .accepting }).markOfferSent h.now }
    -- an outgoing call already carries the will to answer; the answer is repeated if it fails
    s.publishCallAccept h control.callId

def receiveCallOffer (control : CallControl) : CallSession × Except PrivateDmRuntimeError Unit :=
  if s.closedCallOffer control.callId || s.occupancy.selected control.callId h.now then (s, .ok ())
  else if control.mediaProtocol ≠ s.mediaProtocol then s.refuseOtherEngine h control
  else
    match s.call with
    | some call =>
      if call.phase = .outgoing && call.callId ≠ control.callId then s.mergeCrossCall h call control
      else if call.callId = control.callId && call.callerSigner = control.signer &&
          (call.phase = .accepting || call.phase = .active) then
        s.publishCallAccept h control.callId
      else (s, .ok ())
    | none =>
      if s.admissionBlocked || (s.occupancy.calls h.now).any (· ≠ control.callId) then
        s.publishAuthenticatedCall h control.callId (.decline "busy")
      else (s.installIncomingCall h control, .ok ())

/-! ## Answers, selections and ends -/

/-- The signer of the other side of a call. -/
def remoteSigner (call : CallState) : Option String :=
  if call.direction = .caller then call.selectedSigner else some call.callerSigner

/-- The description is one of the call. -/
def describes (call : CallState) : Signal → Bool
  | .description d => d.binding.sessionId = s.sessionId && d.binding.callId = call.callId &&
      d.binding.caller = call.callerSigner && call.selectedSigner = some d.binding.callee &&
      d.offer = decide (call.direction = .callee)
  | _ => true

/-- At most 16 signals wait for the engine. -/
def pushSignal (controls : List Signal) (signal : Signal) : List Signal :=
  (if 16 ≤ controls.length then controls.tail else controls) ++ [signal]

def receiveNativeMedia (control : CallControl) (signal : Signal) : CallSession :=
  match s.call.filter fun call => call.phase = .active && call.callId = control.callId with
  | none => s
  | some call =>
    if !signal.bounded || remoteSigner call ≠ some control.signer ||
        call.remotePeer ≠ control.peer || !s.describes call signal then s
    else
      match signal with
      | .camera _ _ =>
        if control.sequence ≤ call.nativeCameraSequence then s
        else
          { s with
            call := some { call with
              nativeCameraSequence := control.sequence
              nativeControls := pushSignal call.nativeControls signal } }
      | _ =>
        { s with
          call := some { call with nativeControls := pushSignal call.nativeControls signal } }

def receiveCallAnswer (control : CallControl) : CallSession × Except PrivateDmRuntimeError Unit :=
  match s.call.filter (·.callId = control.callId) with
  | none => (s, .ok ())
  | some call =>
    if call.direction ≠ .caller then (s, .ok ())
    else if call.phase = .active then
      match call.selectedSigner with
      | some receiver => s.publishAuthenticatedCall h control.callId (.selected receiver)
      | none => (s, .ok ())
    else if call.phase ≠ .outgoing then (s, .ok ())
    else if control.mediaProtocol ≠ s.mediaProtocol then s.callEnd h control.callId updateRequired
    else
      match s.publishAuthenticatedCall h control.callId (.selected control.signer) with
      | (s, .error error) => (s, .error error)
      | (s, .ok ()) =>
        ({ s with
            call := s.call.map fun call =>
              ({ call with
                selectedSigner := some control.signer
                remotePeer := control.peer
                remoteDevice := control.name }).becomeActive h.now }, .ok ())

def receiveCallSelection (control : CallControl) (receiver : String) : CallSession :=
  let s := if s.call.isNone then s.observeCallSelection h control receiver else s
  match s.call.filter (·.callId = control.callId) with
  | none => s
  | some call =>
    if call.callerSigner ≠ control.signer || call.direction ≠ .callee then s
    else if call.phase = .active then s
    else if receiver ≠ s.own then { (s.observeCallSelection h control receiver) with call := none }
    else if call.phase ≠ .accepting then s
    else
      { s with call := some (({ call with selectedSigner := some receiver }).becomeActive h.now) }

/-- The sender of a terminal control may end the call. -/
def permitted (call : CallState) (signer : String) : Bool :=
  if call.phase = .active then
    signer = call.callerSigner || call.selectedSigner = some signer
  else call.direction = .caller || signer = call.callerSigner

/-- Other devices of the receiver ring on. -/
def ringOnAfterEngineRefusal : CallSession :=
  { s with call := s.call.map fun call => { call with refusedByOtherEngine := true } }

def receiveCallTermination (control : CallControl) : CallSession :=
  let authoritative := s.authoritativeCallEnd control
  let s := { s with occupancy := s.occupancy.receiveEnd control.signer control.callId }
  match s.call.filter (·.matchesId control.callId) with
  | none => if authoritative then s.close control.callId true else s
  | some call =>
    let reason := control.action.endReason
    if !permitted call control.signer then s
    else if reason = updateRequired && call.phase = .outgoing then s.ringOnAfterEngineRefusal
    else
      let s := s.close call.callId true
      let s := if call.direction = .caller then
          let action := CallAction.end call.callerSigner "ended"
          (({ s with ends := s.ends.remember call.callId action h.now }).publishAuthenticatedCall h
            call.callId action).1
        else s
      s.finishCall h (endKind call reason) (call.durationMs h.now)

/-! ## Controls -/

/-- A control does what its action says, unless its call has ended for certain or it is one of
    this device or of a sibling. -/
def applyCallControl (control : CallControl) : CallSession × Except PrivateDmRuntimeError Unit :=
  if s.book.confirmedClosed control.callId then (s, .ok ())
  else if control.signer = s.own then (s, .ok ())
  else if s.membership.any (·.callOwn control.signer) then (s.observeOwnCall h control, .ok ())
  else
    match control.action with
    | .media signal => (s.receiveNativeMedia control signal, .ok ())
    | .offer => s.receiveCallOffer h control
    | .answer => s.receiveCallAnswer h control
    | .occupied _ _ => (s, .ok ())
    | .selected receiver => (s.receiveCallSelection h control receiver, .ok ())
    | .decline _ | .end _ _ => (s.receiveCallTermination h control, .ok ())

/-- The control has a session, an id, a signer, a name and a number that can be. -/
def wellFormed (control : CallControl) (signer : String) : Bool :=
  control.sessionId = s.sessionId && control.signer = signer && !control.callId.isEmpty &&
    decide (control.callId.utf8ByteSize ≤ 128) && decide (control.name.utf8ByteSize ≤ 256) &&
    decide (control.sequence ≠ 0)

/-- The devices that the control names may take part. -/
def admittedParticipants (members : CallMembers) (control : CallControl) : Bool :=
  match control.action with
  | .selected receiver => (members.callPeer receiver).isSome &&
      members.callOwn receiver != members.callOwn control.signer
  | .occupied caller receiver => (members.callPeer caller).isSome &&
      receiver.all (· = control.signer)
  | .end caller _ => (members.callPeer caller).isSome
  | _ => true

/-- The sender of the control may take part. -/
def admits (control : CallControl) : Bool :=
  match s.membership with
  | some members => members.callPeer control.signer = some control.peer &&
      admittedParticipants members control
  | none => control.signer ≠ s.own && s.peerMossId = some control.peer

def retainSigners : CallSession :=
  match s.membership with
  | some members =>
    { s with book := s.book.retainSigners fun signer => (members.callPeer signer).isSome }
  | none => s

/-- The control in a message, if it is one that this session takes. -/
def decryptCallControl (opened : Except PrivateDmRuntimeError (CallControl × String)) :
    Except PrivateDmRuntimeError CallControl := do
  let (control, signer) ← opened
  check (.openMls "invalid authenticated call control") (s.wellFormed control signer)
  check (.openMls "call device is not an admitted participant") (s.admits control)
  h.saveOpened
  return control

/-- Controls are taken in the order of their numbers. A control of the media engines has its own
    rules, and an end is always taken. -/
def receiveControl (control : CallControl) : CallSession × Except PrivateDmRuntimeError Unit :=
  let received := if control.action.isMedia then (s.book, true)
    else s.book.receive control.signer control.sequence
  let s := { s with book := received.1 }
  if received.2 || control.action.terminal then s.applyCallControl h control else (s, .ok ())

def handleCallControl (envelope : CallEnvelope) : CallSession × Except PrivateDmRuntimeError Unit :=
  if envelope.sessionId ≠ s.sessionId then (s, .ok ())
  else
    let s := s.retainSigners
    match s.decryptCallControl h envelope.opened with
    | .error error => (s, .error error)
    | .ok control =>
      let (s, outcome) := s.receiveControl h control
      (s, do h.saveApplied; outcome)

/-! ## Time -/

def callRingTimeoutMs : Nat := 30000

/-- Controls that end a call are repeated for a while. -/
def publishDue : CallSession :=
  let (ends, due) := s.ends.due h.now
  due.foldl (fun s d => (s.publishAuthenticatedCall h d.1 d.2).1) { s with ends }

/-- A call that nobody answers ends; and the control of the phase of a call is repeated. -/
def pumpCallSignaling : CallSession :=
  let s := ({ s with occupancy := s.occupancy.expire h.now }).publishDue h
  match s.call with
  | none => s
  | some call =>
    if call.phase ≠ .active && callRingTimeoutMs ≤ h.now - call.offerFirstMs then
      (s.callEnd h call.callId "no_answer").1
    else if h.now - call.offerLastMs < CallEndRetries.callResendMs then s
    else
      match call.outboundControl with
      | none => s
      | some action =>
        match s.publishAuthenticatedCall h call.callId action with
        | (s, .error _) => s
        | (s, .ok ()) => { s with call := s.call.map (·.markOfferSent h.now) }

/-! ## Media -/

def publishNativeMedia (callId : String) (signal : Signal) :
    CallSession × Except PrivateDmRuntimeError Unit :=
  if !signal.bounded || !s.call.any (fun call => call.phase = .active && call.callId = callId) then
    (s, .ok ())
  else s.publishAuthenticatedCall h callId (.media signal)

/-- The engine takes the signals that wait for it. -/
def drainNativeControls : CallSession :=
  { s with call := s.call.map fun call => { call with nativeControls := [] } }

/-- The devices of the call may still take part in it. -/
def callAuthorized : Bool :=
  match s.call with
  | none => true
  | some call =>
    h.authorized && (call.callerSigner.isEmpty ||
      (call.callerSigner ∈ h.memberSigners && call.selectedSigner.all (· ∈ h.memberSigners) &&
        s.membership.all fun members =>
          (members.callPeer s.own).isSome && (members.callPeer call.callerSigner).isSome &&
          call.selectedSigner.all (fun selected => (members.callPeer selected).isSome) &&
          (remoteSigner call).all fun signer => members.callPeer signer = some call.remotePeer))

def reconcileCallAuthority : CallSession :=
  if s.call.isSome && !s.callAuthorized h then
    s.finishCall h "ended" ((s.call.map (·.durationMs h.now)).getD 0)
  else s

end CallSession

/-! ## Steps -/

/-- A call of the session. -/
inductive CallInput
  | start
  | accept (callId : String)
  | decline (callId reason : String)
  | «end» (callId reason : String)
  | control (envelope : CallEnvelope)
  | pump
  | media (callId : String) (signal : Signal)
  | drain
  | reconcile
  /-- The devices of the session, or the calls of other sessions, change. -/
  | members (peerMossId : Option String) (membership : Option CallMembers)
  | admission (blocked : Bool)

namespace CallSession

/-- The session after a call. -/
def step (s : CallSession) (h : CallHost) : CallInput → CallSession
  | .start => (s.callStart h).1
  | .accept callId => (s.callAccept h callId).1
  | .decline callId reason => (s.callDecline h callId reason).1
  | .end callId reason => (s.callEnd h callId reason).1
  | .control envelope => (s.handleCallControl h envelope).1
  | .pump => s.pumpCallSignaling h
  | .media callId signal => (s.publishNativeMedia h callId signal).1
  | .drain => s.drainNativeControls
  | .reconcile => s.reconcileCallAuthority h
  | .members peerMossId membership => { s with peerMossId, membership }
  | .admission blocked => { s with admissionBlocked := blocked }

end CallSession

/-! ## A plain line

Values for examples: a device without a call, a host for which everything goes well, and a control
about one call. -/

def CallSession.unused (device : String) : CallSession where
  sessionId := "dm"
  deviceId := device
  own := device
  mediaProtocol := 1
  peerMossId := some "address"

def CallHost.clear : CallHost where
  now := 1
  localPeer := some "address"
  token := .ok "call"
  send _ := .ok ()

def CallControl.said (signer : String) (sequence : Nat) (action : CallAction) : CallControl where
  sessionId := "dm"
  callId := "call"
  signer := signer
  sequence := sequence
  peer := "address"
  name := signer
  action := action
  mediaProtocol := 1

/-- The control arrives. -/
def CallInput.hears (control : CallControl) : CallInput :=
  .control ⟨"dm", .ok (control, control.signer)⟩

end Mosh.Calls
