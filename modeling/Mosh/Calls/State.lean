import Mosh.DmDevices.Session
import Mosh.Library.Recent

/-!
# The state of a call

What a session knows about calls (`private_dm_runtime/calls`): the call it holds, the book of
sequence numbers and of calls that have ended, the calls that other devices of the account are in,
and the terminal controls that are repeated for a while.

* `CallProtocolBook.WellFormed.close`: the book holds at most 512 ended calls, no two with the
  same id;
* `CallProtocolBook.ids_close`: these are the most recent ones;
* `CallProtocolBook.confirmed_close`: a call that is confirmed as ended stays so, as long as it is
  in the book.
-/

namespace Mosh.Calls

open DmDevices

/-! ## Controls -/

inductive CallDirection
  | caller
  | callee
  deriving DecidableEq, Repr

inductive CallPhase
  | outgoing
  | ringing
  | accepting
  | active
  deriving DecidableEq, Repr

/-- What binds a description to a call. -/
structure Binding where
  sessionId : String
  callId : String
  caller : String
  callee : String
  mediaSession : List UInt8
  deriving DecidableEq, Repr

structure Description where
  binding : Binding
  offer : Bool
  parameters : List UInt8
  deriving DecidableEq, Repr

/-- A message between the media engines. -/
inductive Signal
  | description (description : Description)
  | candidates (nonce : List UInt8) (candidates : List String)
  | camera (nonce : List UInt8) (enabled : Bool)
  deriving DecidableEq, Repr

/-- The signal keeps its bounds. -/
def Signal.bounded : Signal → Bool
  | .description d => decide (d.parameters.length ≤ 16384) && decide (d.binding.mediaSession.length = 16)
  | .candidates nonce list => decide (nonce.length = 16) && decide (list.length ≤ 8) &&
      list.all fun candidate => decide (candidate.utf8ByteSize ≤ 2048)
  | .camera nonce _ => decide (nonce.length = 16)

inductive CallAction
  | media (signal : Signal)
  | offer
  | answer
  | occupied (caller : String) (receiver : Option String)
  | selected (receiver : String)
  | decline (reason : String)
  | «end» (caller reason : String)
  deriving DecidableEq, Repr

/-- The reason a `Decline` or `End` gives; empty for other actions. -/
def CallAction.endReason : CallAction → String
  | .decline reason => reason
  | .end _ reason => reason
  | _ => ""

/-- The action ends a call. -/
def CallAction.terminal : CallAction → Bool
  | .decline _ | .end _ _ => true
  | _ => false

/-- The action is one of the media engines. -/
def CallAction.isMedia : CallAction → Bool
  | .media _ => true
  | _ => false

/-- A control: routing, identity and action. -/
structure CallControl where
  sessionId : String
  callId : String
  signer : String
  sequence : Nat
  peer : String
  name : String
  action : CallAction
  mediaProtocol : Nat
  deriving DecidableEq, Repr

/-- Reason and call event kind for peers whose media engines cannot talk. -/
def updateRequired : String := "update_required"

/-! ## The call -/

structure CallState where
  callId : String
  direction : CallDirection
  phase : CallPhase
  startedAtMs : Nat := 0
  remoteDevice : String
  callerSigner : String := ""
  selectedSigner : Option String := none
  remotePeer : String := ""
  mergedCallId : Option String := none
  offerFirstMs : Nat := 0
  offerLastMs : Nat := 0
  nativeControls : List Signal := []
  nativeCameraSequence : Nat := 0
  refusedByOtherEngine : Bool := false
  deriving DecidableEq, Repr

namespace CallState

variable (call : CallState)

def outgoing (callId remoteDevice : String) : CallState where
  callId := callId
  direction := .caller
  phase := .outgoing
  remoteDevice := remoteDevice

def ringing (callId remoteDevice : String) : CallState where
  callId := callId
  direction := .callee
  phase := .ringing
  remoteDevice := remoteDevice

def becomeActive (now : Nat) : CallState := { call with phase := .active, startedAtMs := now }

def matchesId (id : String) : Bool := call.callId = id || call.mergedCallId = some id

/-- The first offer sets the deadline of the ring. -/
def markOfferSent (now : Nat) : CallState :=
  { call with
    offerFirstMs := if call.offerFirstMs = 0 then now else call.offerFirstMs
    offerLastMs := now }

/-- A call that never became active is missed. -/
def endKind : String := if call.phase ≠ .active then "missed" else "completed"

def durationMs (now : Nat) : Nat :=
  if call.startedAtMs = 0 || now < call.startedAtMs then 0 else now - call.startedAtMs

/-- The control that is repeated in the phase of the call. -/
def outboundControl : Option CallAction :=
  match call.phase with
  | .outgoing => some .offer
  | .accepting => some .answer
  | .active =>
    if call.direction = .caller then call.selectedSigner.map .selected
    else some (.occupied call.callerSigner call.selectedSigner)
  | .ringing => some (.occupied call.callerSigner call.selectedSigner)

end CallState

/-- The call event that is recorded when a call ends for a reason. -/
def endKind (call : CallState) (reason : String) : String :=
  if reason = updateRequired || (call.refusedByOtherEngine && call.endKind = "missed") then
    updateRequired
  else call.endKind

/-! ## The book -/

/-- A call that has ended, on this device or for certain. -/
structure ClosedCall where
  id : String
  confirmed : Bool
  deriving DecidableEq, Repr

/-- Sequence numbers and ended calls. -/
structure CallProtocolBook where
  nextSequence : Nat := 0
  received : String → Option Nat := fun _ => none
  closed : List ClosedCall := []

namespace CallProtocolBook

variable (book : CallProtocolBook)

/-- The most ended calls that a book holds. -/
def maxClosed : Nat := 512

/-- The next sequence number, if it fits into 64 bits. -/
def allocateSequence : Option (Nat × CallProtocolBook) :=
  (checkedSucc book.nextSequence).map fun next => (next, { book with nextSequence := next })

/-- The numbers of other signers are forgotten. -/
def retainSigners (admitted : String → Bool) : CallProtocolBook :=
  { book with received := fun signer => if admitted signer then book.received signer else none }

/-- A control is taken once, and not after a later one. -/
def receive (signer : String) (sequence : Nat) : CallProtocolBook × Bool :=
  if sequence = 0 || (book.received signer).any fun old => decide (sequence ≤ old) then (book, false)
  else ({ book with received := Function.update book.received signer (some sequence) }, true)

/-- The entry of a call, confirmed from now on if it was not before. -/
def confirm (id : String) (confirmed : Bool) : List ClosedCall → List ClosedCall
  | [] => []
  | call :: rest =>
    if call.id = id then { call with confirmed := call.confirmed || confirmed } :: rest
    else call :: confirm id confirmed rest

/-- A call has ended. A full book forgets its oldest entry. -/
def close (id : String) (confirmed : Bool) : CallProtocolBook :=
  { book with
    closed :=
      if book.closed.any (·.id = id) then confirm id confirmed book.closed
      else (if book.closed.length = maxClosed then book.closed.tail else book.closed) ++
        [⟨id, confirmed⟩] }

def isClosed (id : String) : Bool := book.closed.any (·.id = id)

def confirmedClosed (id : String) : Bool := book.closed.any fun call => call.id = id && call.confirmed

end CallProtocolBook

/-! ## Calls of other devices -/

/-- Another device of the account is in a call, for a while. -/
structure Reservation where
  callId : String
  caller : String
  receiver : Option String
  expires : Nat
  deriving DecidableEq, Repr

/-- The offer that this device has shown. -/
structure AdmittedOffer where
  callId : String
  caller : String
  deriving DecidableEq, Repr

/-- The calls that other devices of the account are in. -/
structure CallOccupancy where
  devices : List (String × Reservation) := []
  admittedOffer : Option AdmittedOffer := none
  deriving DecidableEq, Repr

namespace CallOccupancy

variable (occupancy : CallOccupancy)

def leaseMs : Nat := 15000

/-- The most devices with a reservation. -/
def maxDevices : Nat := 64

/-- A time later on, in 64 bits. -/
def saturatingAdd (a b : Nat) : Nat := min (a + b) (2 ^ 64 - 1)

def admitOffer (callId caller : String) : CallOccupancy :=
  { occupancy with admittedOffer := some ⟨callId, caller⟩ }

def expire (now : Nat) : CallOccupancy :=
  { occupancy with devices := occupancy.devices.filter fun (_, r) => decide (now < r.expires) }

/-- The reservation of a device. -/
def get (device : String) : Option Reservation :=
  (occupancy.devices.find? fun (d, _) => d = device).map (·.2)

def reserve (device callId caller : String) (receiver : Option String) (now : Nat) :
    CallOccupancy :=
  let occupancy := occupancy.expire now
  if maxDevices ≤ occupancy.devices.length && (occupancy.get device).isNone then occupancy
  else
    { occupancy with
      devices := occupancy.devices.filter (fun (d, _) => d ≠ device) ++
        [(device, ⟨callId, caller, receiver, saturatingAdd now leaseMs⟩)] }

/-- A selected sibling is in the call that this device was offered. -/
def reserveSelected (device callId caller : String) (now : Nat) : CallOccupancy :=
  let occupancy := occupancy.expire now
  if !occupancy.admittedOffer.any fun offer => offer.callId = callId && offer.caller = caller then
    occupancy
  else if (occupancy.get device).any fun r => r.callId ≠ callId || r.caller ≠ caller then occupancy
  else occupancy.reserve device callId caller (some device) now

/-- Whether a sender may end a call that is reserved; unknown for a call that is not. -/
def permitsEnd (sender callId : String) : Option Bool :=
  let reservations := (occupancy.devices.map (·.2)).filter fun r => r.callId = callId
  if reservations.isEmpty then none
  else some (reservations.any fun r => r.caller = sender || r.receiver = some sender)

/-- A sibling was selected for the call. -/
def selected (callId : String) (now : Nat) : Bool :=
  occupancy.devices.any fun (_, r) => r.callId = callId && r.receiver.isSome && decide (now < r.expires)

def release (device callId : String) : CallOccupancy :=
  if (occupancy.get device).any fun r => r.callId = callId then
    { occupancy with devices := occupancy.devices.filter fun (d, _) => d ≠ device }
  else occupancy

def forgetOffer (callId : String) : CallOccupancy :=
  if occupancy.admittedOffer.any fun offer => offer.callId = callId then
    { occupancy with admittedOffer := none }
  else occupancy

def finish (callId : String) (confirmed : Bool) : CallOccupancy :=
  let occupancy :=
    { occupancy with devices := occupancy.devices.filter fun (_, r) => r.callId ≠ callId }
  if confirmed then occupancy.forgetOffer callId else occupancy

def receiveEnd (sender callId : String) : CallOccupancy :=
  let occupancy :=
    if occupancy.admittedOffer.any fun offer => offer.callId = callId && offer.caller = sender then
      occupancy.forgetOffer callId
    else occupancy
  { occupancy with
    devices := occupancy.devices.filter fun (_, r) =>
      r.callId ≠ callId || (r.caller ≠ sender && r.receiver ≠ some sender) }

def calls (now : Nat) : List String :=
  (occupancy.devices.filter fun (_, r) => decide (now < r.expires)).map fun (_, r) => r.callId

end CallOccupancy

/-! ## Terminal controls -/

/-- A terminal control that is repeated until it expires. -/
structure TerminalControl where
  callId : String
  action : CallAction
  expires : Nat
  lastSent : Nat
  deriving DecidableEq, Repr

/-- The terminal controls that are repeated. -/
abbrev CallEndRetries := List TerminalControl

namespace CallEndRetries

def retryWindowMs : Nat := 15000

def maxTerminalControls : Nat := 32

def callResendMs : Nat := 2000

def remember (controls : CallEndRetries) (callId : String) (action : CallAction) (now : Nat) :
    CallEndRetries :=
  let kept := controls.filter fun control => control.callId ≠ callId && decide (now < control.expires)
  (if kept.length = maxTerminalControls then kept.tail else kept) ++
    [⟨callId, action, CallOccupancy.saturatingAdd now retryWindowMs, now⟩]

/-- The controls that are due, and those that are left. -/
def due (controls : CallEndRetries) (now : Nat) : CallEndRetries × List (String × CallAction) :=
  let kept := controls.filter fun control => decide (now < control.expires)
  let isDue (control : TerminalControl) : Bool := !decide (now - control.lastSent < callResendMs)
  (kept.map fun control => if isDue control then { control with lastSent := now } else control,
    (kept.filter isDue).map fun control => (control.callId, control.action))

end CallEndRetries

/-! ## What closing a call does to the book -/

namespace CallProtocolBook

variable {book : CallProtocolBook} {id c : String} {confirmed : Bool} {closed : List ClosedCall}

/-- The ids of the ended calls. -/
def ids (book : CallProtocolBook) : List String := book.closed.map (·.id)

/-- The book holds at most 512 ended calls, each once. -/
structure WellFormed (book : CallProtocolBook) : Prop where
  nodup : book.ids.Nodup
  bounded : book.closed.length ≤ maxClosed

theorem length_ids : book.ids.length = book.closed.length := List.length_map _

theorem isClosed_iff : book.isClosed id = true ↔ id ∈ book.ids := by
  simp [isClosed, ids]

/-- Confirming an entry does not change which calls have ended. -/
@[simp]
theorem map_confirm : (confirm id confirmed closed).map (·.id) = closed.map (·.id) := by
  induction closed with
  | nil => rfl
  | cons call rest ih =>
    rw [confirm]
    split
    · rfl
    · rw [List.map_cons, List.map_cons, ih]

/-- The ended calls after another one. -/
theorem ids_close : (book.close id confirmed).ids = Recent.push maxClosed id book.ids := by
  by_cases h : id ∈ book.ids
  · have hany : (book.closed.any fun call => decide (call.id = id)) = true := isClosed_iff.2 h
    rw [Recent.push_of_mem h, ids, close, if_pos hany, map_confirm, ids]
  · have hany : (book.closed.any fun call => decide (call.id = id)) = false :=
      Bool.eq_false_iff.2 fun h' => h (isClosed_iff.1 h')
    rw [Recent.push_of_not_mem h, length_ids, ids, close, hany, if_neg Bool.false_ne_true,
      List.map_append]
    split
    · rw [ids, List.map_tail]
      rfl
    · rfl

/-- The book stays well formed. -/
theorem WellFormed.close (h : book.WellFormed) (id : String) (confirmed : Bool) :
    (book.close id confirmed).WellFormed := by
  refine ⟨?_, ?_⟩
  · rw [ids_close]
    exact Recent.nodup_push h.nodup
  · rw [← length_ids, ids_close]
    exact Recent.length_push_le (by decide) (length_ids ▸ h.bounded)

/-- Whether an entry is a confirmed one. -/
theorem confirmedClosed_iff : book.confirmedClosed id = true ↔
    ∃ call ∈ book.closed, call.id = id ∧ call.confirmed = true := by
  simp [confirmedClosed]

theorem isClosed_of_confirmed (h : book.confirmedClosed id = true) : book.isClosed id = true := by
  obtain ⟨call, hcall, hid, -⟩ := confirmedClosed_iff.1 h
  exact isClosed_iff.2 (List.mem_map.2 ⟨call, hcall, hid⟩)

/-- A confirmed entry stays confirmed when another one is confirmed. -/
theorem exists_confirm (h : ∃ call ∈ closed, call.id = c ∧ call.confirmed = true) :
    ∃ call ∈ confirm id confirmed closed, call.id = c ∧ call.confirmed = true := by
  induction closed with
  | nil =>
    obtain ⟨call, hcall, -⟩ := h
    cases hcall
  | cons first rest ih =>
    obtain ⟨call, hcall, hid, hconfirmed⟩ := h
    rw [confirm]
    split
    · rcases List.mem_cons.1 hcall with rfl | hrest
      · exact ⟨_, List.mem_cons_self, hid, by simp [hconfirmed]⟩
      · exact ⟨call, List.mem_cons_of_mem _ hrest, hid, hconfirmed⟩
    · rcases List.mem_cons.1 hcall with rfl | hrest
      · exact ⟨call, List.mem_cons_self, hid, hconfirmed⟩
      · obtain ⟨call', hcall', h'⟩ := ih ⟨call, hrest, hid, hconfirmed⟩
        exact ⟨call', List.mem_cons_of_mem _ hcall', h'⟩

/-- What is confirmed stays so while it is in the book. -/
theorem confirmed_close (hbook : book.WellFormed) (h : book.confirmedClosed c = true)
    (hstays : c ∈ (book.close id confirmed).ids) :
    (book.close id confirmed).confirmedClosed c = true := by
  rw [confirmedClosed_iff] at h ⊢
  by_cases hany : (book.closed.any fun call => decide (call.id = id)) = true
  · rw [close, if_pos hany]
    exact exists_confirm h
  · obtain ⟨call, hcall, hid, hconfirmed⟩ := h
    have hnew : id ∉ book.ids := fun hmem => hany (isClosed_iff.2 hmem)
    have hmem : c ∈ book.ids := List.mem_map.2 ⟨call, hcall, hid⟩
    rw [ids_close, Recent.push_of_not_mem hnew, length_ids] at hstays
    rw [close, if_neg hany]
    split at hstays
    · next hfull =>
      rw [if_pos hfull]
      -- the entry is not the oldest one
      have hne : c ≠ id := fun he => hnew (he ▸ hmem)
      have htail : c ∈ book.ids.tail := by
        rcases List.mem_append.1 hstays with h | h
        · exact h
        · exact absurd (List.mem_singleton.1 h) hne
      rw [ids, ← List.map_tail] at htail
      obtain ⟨call', hcall', hid'⟩ := List.mem_map.1 htail
      obtain rfl : call' = call := List.inj_on_of_nodup_map hbook.nodup (List.mem_of_mem_tail hcall')
        hcall (hid'.trans hid.symm)
      exact ⟨call', List.mem_append_left _ hcall', hid, hconfirmed⟩
    · next hroom =>
      rw [if_neg hroom]
      exact ⟨call, List.mem_append_left _ hcall, hid, hconfirmed⟩

/-- A call that ends for certain is confirmed. -/
theorem confirmedClosed_close_self : (book.close id true).confirmedClosed id = true := by
  have hconfirm (closed : List ClosedCall) (h : (closed.any fun call => decide (call.id = id)) = true) :
      (confirm id true closed).any (fun call => call.id = id && call.confirmed) = true := by
    induction closed with
    | nil => cases h
    | cons call rest ih =>
      rw [confirm]
      split
      · next he => simp [he]
      · next he =>
        rw [List.any_cons, decide_eq_false he, Bool.false_or] at h
        rw [List.any_cons, ih h, Bool.or_true]
  rw [confirmedClosed, close]
  dsimp only
  split
  · next hany => exact hconfirm book.closed hany
  · simp

/-! ## Several calls -/

/-- Several calls have ended, one after the other. -/
def closeAll (book : CallProtocolBook) (closes : List (String × Bool)) : CallProtocolBook :=
  closes.foldl (fun book call => book.close call.1 call.2) book

variable {closes more : List (String × Bool)} {F : Finset String}

theorem closeAll_cons {call : String × Bool} :
    book.closeAll (call :: closes) = (book.close call.1 call.2).closeAll closes := rfl

theorem closeAll_append : book.closeAll (closes ++ more) = (book.closeAll closes).closeAll more :=
  List.foldl_append

/-- Which calls have ended only depends on which had. -/
theorem closed_closeAll_congr {book' : CallProtocolBook} (h : book.closed = book'.closed) :
    (book.closeAll closes).closed = (book'.closeAll closes).closed := by
  induction closes generalizing book book' with
  | nil => exact h
  | cons call rest ih =>
    refine ih ?_
    simp only [close, h]

theorem WellFormed.closeAll (h : book.WellFormed) : (book.closeAll closes).WellFormed := by
  induction closes generalizing book with
  | nil => exact h
  | cons call rest ih => exact ih (h.close call.1 call.2)

theorem mem_of_mem_closeAll (h : c ∈ (book.closeAll closes).ids) :
    c ∈ book.ids ∨ c ∈ closes.map (·.1) := by
  induction closes generalizing book with
  | nil => exact .inl h
  | cons call rest ih =>
    rw [List.map_cons, List.mem_cons]
    rcases ih h with h | h
    · rw [ids_close] at h
      rcases Recent.mem_of_mem_push h with h | h
      · exact .inl h
      · exact .inr (.inl h)
    · exact .inr (.inr h)

/-- A call stays in the book as long as fewer than 512 others end after it. -/
theorem holds_closeAll (hbook : book.WellFormed) (h : Recent.Holds F c book.ids)
    (hcloses : ∀ call ∈ closes, call.1 ≠ c → call.1 ∈ F) (hF : F.card < maxClosed) :
    Recent.Holds F c (book.closeAll closes).ids := by
  induction closes generalizing book with
  | nil => exact h
  | cons call rest ih =>
    refine ih (hbook.close call.1 call.2) ?_ fun d hd => hcloses d (List.mem_cons_of_mem _ hd)
    rw [ids_close]
    exact h.push hbook.nodup (hcloses call List.mem_cons_self) hF

/-- So does its confirmation. -/
theorem confirmed_closeAll (hbook : book.WellFormed) (h : Recent.Holds F c book.ids)
    (hcloses : ∀ call ∈ closes, call.1 ≠ c → call.1 ∈ F) (hF : F.card < maxClosed)
    (hconfirmed : book.confirmedClosed c = true) :
    (book.closeAll closes).confirmedClosed c = true := by
  induction closes generalizing book with
  | nil => exact hconfirmed
  | cons call rest ih =>
    have hholds : Recent.Holds F c (book.close call.1 call.2).ids := by
      rw [ids_close]
      exact h.push hbook.nodup (hcloses call List.mem_cons_self) hF
    exact ih (hbook.close call.1 call.2) hholds (fun d hd => hcloses d (List.mem_cons_of_mem _ hd))
      (confirmed_close hbook hconfirmed hholds.mem)

end CallProtocolBook

end Mosh.Calls
