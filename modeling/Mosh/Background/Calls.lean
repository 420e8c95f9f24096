import Mosh.Background.Notifications
import Mosh.Calls.Session
import Mosh.Library.Checked
import Mosh.Library.Hex

/-!
# Background calls

While the app is not in front, calls are shown with buttons
(`persistence/background_calls.rs`). A button acts by a random capability; the ledger holds one
record for a call, with the capabilities that are shown.

* `Delivery.syncBackgroundCalls`: the calls of the runtime are noted;
* `Delivery.takeBackgroundCallAction`: a button is used up;
* `CallLedger.step`: what happens to the ledger;
* `Follows`, `Grown`: what becomes of a record, and of a table;
* `CallLedger.Sound`: what holds along every run;
* `call_buttons_single_use`: over all runs, a button acts once, records show the calls, and a call
  that is over is shown until that is acknowledged.
-/

namespace Mosh.Background

open Checked Conversation
open Run (Runs)

inductive BackgroundCallAction
  | answer | decline | hangup
  deriving DecidableEq, Repr

/-- The name of the process that the buttons are for. -/
def ownerNonce (random : List UInt8) : String := Hex.encode random

/-- What is noted of the call of a session. -/
def callState (sessionId : String) (call : Calls.CallState) : BackgroundCallState :=
  let phase : BackgroundCallPhase := match call.phase with
    | .outgoing => .outgoing
    | .ringing => .incoming
    | .accepting => .accepting
    | .active => .active
  { sessionId
    callId := call.callId
    phase
    expiresAtMs :=
      if phase = .active then 0
      else min (call.offerFirstMs + Calls.CallSession.callRingTimeoutMs) (2 ^ 64 - 1)
    sender := call.remoteDevice
    binding := call.callerSigner ++ "\x00" ++ call.selectedSigner.getD "" ++ "\x00" ++
      match call.direction with
      | .caller => "caller"
      | .callee => "callee" }

/-- The call of a session is not over, and the owner has a name. -/
theorem phase_callState (sessionId : String) (call : Calls.CallState) :
    (callState sessionId call).phase ≠ .ended := by
  rw [callState]
  rcases call.phase <;> nofun

theorem ownerNonce_ne {random : List UInt8} (h : random.length = 32) : ownerNonce random ≠ "" := by
  intro hempty
  have hsize := Hex.utf8ByteSize_encode random
  rw [← ownerNonce, hempty, h] at hsize
  cases hsize

/-- Random bytes, for an id and for buttons. -/
structure Draw where
  id : List UInt8
  answer : List UInt8
  decline : List UInt8
  hangup : List UInt8
  deriving DecidableEq, Repr

/-- Nothing is drawn. -/
def Draw.none : Draw := ⟨[], [], [], []⟩

namespace CallRecord

variable (record : CallRecord)

/-- A new revision, for a state. The buttons are those of its phase. -/
def replace (draw : Draw) (owner : String) (state : BackgroundCallState) :
    Except String CallRecord :=
  if record.revision + 1 < 2 ^ 64 then
    .ok
      { record with
        revision := record.revision + 1
        owner
        state
        acknowledged := false
        answer := if state.phase = .incoming then some (Hex.encode draw.answer) else none
        decline := if state.phase = .incoming then some (Hex.encode draw.decline) else none
        hangup :=
          if state.phase = .outgoing ∨ state.phase = .accepting ∨ state.phase = .active then
            some (Hex.encode draw.hangup)
          else none }
  else .error "call revision exhausted"

/-- The button that a capability is for. -/
def action (capability : String) : Option BackgroundCallAction :=
  if record.answer = some capability then some .answer
  else if record.decline = some capability then some .decline
  else if record.hangup = some capability then some .hangup
  else none

end CallRecord

/-- The state of a call that is over. -/
def BackgroundCallState.ended (state : BackgroundCallState) : BackgroundCallState :=
  { state with phase := .ended, expiresAtMs := 0 }

/-! ## The ledger -/

section Ledger

variable (digest : String → List UInt8)

/-- The key of a call: a digest of its session and its id. -/
def callKey (state : BackgroundCallState) : String :=
  "call/" ++ Hex.encode (digest (state.sessionId ++ "\x00" ++ state.callId))

/-- The record of a call that is new. -/
def newRecord (draw : Draw) (state : BackgroundCallState) : CallRecord where
  id := "background-call-" ++ Hex.encode draw.id
  owner := ""
  revision := 0
  acknowledged := false
  state := state
  answer := none
  decline := none
  hangup := none

/-- A table of records, and whether it has changed. -/
abbrev Synced := Std.ExtTreeMap String CallRecord compare × Bool

/-- A call that is there is noted, with what is drawn for it. -/
def syncState (owner : String) (found : Synced) (entry : BackgroundCallState × Draw) :
    Except String Synced :=
  let key := callKey digest entry.1
  let record := found.1[key]?.getD (newRecord entry.2 entry.1)
  if record.owner ≠ owner ∨ record.state ≠ entry.1 then do
    let record ← record.replace entry.2 owner entry.1
    return (found.1.insert key record, true)
  else return (found.1.insert key record, found.2)

/-- A record whose call is not there any more is ended. Nothing is drawn for it. -/
def endRecord (owner : String) (live : List String) (found : Synced) (row : String × CallRecord) :
    Except String Synced :=
  if row.1 ∉ live ∧ row.2.state.phase ≠ .ended then do
    let record ← row.2.replace .none owner row.2.state.ended
    return (found.1.insert row.1 record, true)
  else return found

namespace Delivery

variable {M E : Type} (s : Delivery M E)

/-- The calls that are there are noted, and records of others are ended. -/
def syncBackgroundCalls (owner : String) (current : List (BackgroundCallState × Draw)) :
    Except String (Delivery M E) := do
  let found ← current.foldlM (syncState digest owner) (s.calls, false)
  let live := current.map fun entry => callKey digest entry.1
  let (records, changed) ← found.1.toList.foldlM (endRecord owner live) found
  return if changed then s.writeCallRecords records else s

/-- A capability is used up. Its record gets new ones in the same write. -/
def takeBackgroundCallAction (capability owner : String) (current : BackgroundCallState) (now : Nat)
    (draw : Draw) : Except String (Delivery M E × Option BackgroundCallAction) :=
  if capability.utf8ByteSize ≠ 64 ∨
      ¬ capability.toList.all fun ch => Hex.isHexDigit ch && !ch.isUpper then .ok (s, none)
  else
    let key := callKey digest current
    match s.calls[key]? with
    | none => .ok (s, none)
    | some record =>
      if record.owner ≠ owner ∨ record.state ≠ current ∨
          (record.state.expiresAtMs ≠ 0 ∧ record.state.expiresAtMs ≤ now) then .ok (s, none)
      else
        match record.action capability with
        | none => .ok (s, none)
        | some action => do
          let record ← record.replace draw owner current
          return ({ s with calls := s.calls.insert key record }, some action)

/-- The calls that the app is told about. -/
def pendingCallNotifications (limit : Nat) : List BackgroundNotification :=
  collect limit ofCall s.calls.toList []

end Delivery

end Ledger

/-! ## What happens to the ledger -/

/-- A button: what it acts on. -/
structure Button where
  capability : String
  action : BackgroundCallAction
  owner : String
  state : BackgroundCallState
  deriving DecidableEq, Repr

/-- The buttons that are shown of a call. -/
def CallRecord.buttons (record : CallRecord) : List Button :=
  (record.answer.map fun capability => ⟨capability, .answer, record.owner, record.state⟩).toList ++
  (record.decline.map fun capability => ⟨capability, .decline, record.owner, record.state⟩).toList ++
  (record.hangup.map fun capability => ⟨capability, .hangup, record.owner, record.state⟩).toList

/-- The buttons that can be made of what is drawn. -/
def Draw.buttons (draw : Draw) (owner : String) (state : BackgroundCallState) : List Button :=
  [⟨Hex.encode draw.answer, .answer, owner, state⟩,
    ⟨Hex.encode draw.decline, .decline, owner, state⟩,
    ⟨Hex.encode draw.hangup, .hangup, owner, state⟩]

/-- An event at the ledger. A restart is an event with a new owner. -/
inductive CallEvent
  | sync (owner : String) (current : List (BackgroundCallState × Draw))
  | take (capability owner : String) (current : BackgroundCallState) (now : Nat) (draw : Draw)
  | acknowledge (id : String) (revision : Nat)

namespace CallEvent

/-- The calls that are noted in an event, with what is drawn for them. -/
def current : CallEvent → List (BackgroundCallState × Draw)
  | .sync _ current => current
  | _ => []

/-- The buttons that are drawn in an event. -/
def buttons : CallEvent → List Button
  | .sync owner current => current.flatMap fun entry => entry.2.buttons owner entry.1
  | .take _ owner current _ draw => draw.buttons owner current
  | .acknowledge .. => []

/-- The ids that are drawn in an event. -/
def ids (e : CallEvent) : List String := e.current.map fun entry => (newRecord entry.2 entry.1).id

end CallEvent

/-- A button that acted, and when. -/
structure Taken where
  button : Button
  now : Nat
  deriving DecidableEq, Repr

/-- A store, with what was drawn for it, the buttons that acted, and the calls that were noted last
    and for whom. -/
structure CallLedger (M E : Type) where
  store : Delivery M E
  buttons : List Button
  ids : List String
  taken : List Taken
  synced : String × List BackgroundCallState

namespace CallLedger

variable {M E : Type} (digest : String → List UInt8)

/-- Nothing has happened to a store. -/
def start (store : Delivery M E) : CallLedger M E := ⟨store, [], [], [], ("", [])⟩

/-- The ledger after an event. A transaction that fails leaves the store. -/
def step (t : CallLedger M E) (e : CallEvent) : CallLedger M E :=
  let t' := { t with buttons := t.buttons ++ e.buttons, ids := t.ids ++ e.ids }
  match e with
  | .sync owner current =>
    match t.store.syncBackgroundCalls digest owner current with
    | .ok store => { t' with store, synced := (owner, current.map (·.1)) }
    | .error _ => t'
  | .take capability owner current now draw =>
    match t.store.takeBackgroundCallAction digest capability owner current now draw with
    | .ok (store, some action) =>
      { t' with store, taken := t.taken ++ [⟨⟨capability, action, owner, current⟩, now⟩] }
    | _ => t'
  | .acknowledge id revision => { t' with store := t.store.ackCallNotification id revision }

/-- What is drawn in an event is new. -/
def Fresh (t : CallLedger M E) (e : CallEvent) : Prop :=
  ((t.buttons ++ e.buttons).map (·.capability)).Nodup ∧ (t.ids ++ e.ids).Nodup

end CallLedger

/-! ## Records -/

/-- A record whose call is not there any more. -/
def CallRecord.over (record : CallRecord) (owner : String) : CallRecord :=
  { record with
    revision := record.revision + 1
    owner
    state := record.state.ended
    acknowledged := false
    answer := none
    decline := none
    hangup := none }

/-- What becomes of a record: it is acknowledged, or there is a new revision with buttons of
    these. -/
structure Follows (new : List Button) (record record' : CallRecord) : Prop where
  id : record'.id = record.id
  grows : record' = record ∨ record' = { record with acknowledged := true } ∨
    record.revision < record'.revision ∧ ∀ b ∈ record'.buttons, b ∈ new

namespace Follows

variable {new : List Button} {record record' record'' : CallRecord}

theorem refl (record : CallRecord) : Follows new record record := ⟨rfl, .inl rfl⟩

theorem trans (h : Follows new record record') (h' : Follows new record' record'') :
    Follows new record record'' := by
  refine ⟨h'.id.trans h.id, ?_⟩
  rcases h'.grows with rfl | rfl | ⟨hlt', hnew'⟩
  · exact h.grows
  · rcases h.grows with rfl | rfl | ⟨hlt, hnew⟩
    · exact .inr (.inl rfl)
    · exact .inr (.inl rfl)
    · exact .inr (.inr ⟨hlt, hnew⟩)
  · refine .inr (.inr ⟨?_, hnew'⟩)
    rcases h.grows with rfl | rfl | ⟨hlt, -⟩
    · exact hlt'
    · exact hlt'
    · exact hlt.trans hlt'

theorem buttons (h : Follows new record record') {b : Button} (hb : b ∈ record'.buttons) :
    b ∈ record.buttons ∨ b ∈ new := by
  rcases h.grows with rfl | rfl | ⟨-, hnew⟩
  · exact .inl hb
  · exact .inl hb
  · exact .inr (hnew b hb)

end Follows

namespace CallRecord

variable {record record' : CallRecord} {draw : Draw} {owner : String} {state : BackgroundCallState}

/-- Buttons are for the owner and the state of their record, which is not over. -/
theorem of_mem_buttons {b : Button} (h : b ∈ record.buttons) :
    b.owner = record.owner ∧ b.state = record.state := by
  simp only [buttons, List.mem_append, Option.mem_toList, Option.map_eq_some_iff] at h
  rcases h with (⟨_, -, rfl⟩ | ⟨_, -, rfl⟩) | ⟨_, -, rfl⟩ <;> exact ⟨rfl, rfl⟩

/-- The action of a capability is that of its button. -/
theorem mem_buttons_of_action {capability : String} {action : BackgroundCallAction}
    (h : record.action capability = some action) :
    (⟨capability, action, record.owner, record.state⟩ : Button) ∈ record.buttons := by
  rw [CallRecord.action] at h
  simp only [buttons, List.mem_append, Option.mem_toList, Option.map_eq_some_iff]
  split at h
  · next hanswer =>
    obtain rfl := Option.some.inj h
    exact .inl (.inl ⟨_, hanswer, rfl⟩)
  · split at h
    · next hdecline =>
      obtain rfl := Option.some.inj h
      exact .inl (.inr ⟨_, hdecline, rfl⟩)
    · split at h
      · next hhangup =>
        obtain rfl := Option.some.inj h
        exact .inr ⟨_, hhangup, rfl⟩
      · cases h

/-- A new revision. -/
theorem replace_spec (h : record.replace draw owner state = .ok record') :
    Follows (draw.buttons owner state) record record' ∧ record'.revision = record.revision + 1 ∧
      record'.owner = owner ∧ record'.state = state ∧ record'.acknowledged = false ∧
      (state.phase = .ended → record'.buttons = []) := by
  rw [replace] at h
  split at h
  · obtain rfl := Except.ok.inj h
    refine ⟨⟨rfl, .inr (.inr ⟨Nat.lt_succ_self _, fun b hb => ?_⟩)⟩, rfl, rfl, rfl, rfl,
      fun hended => ?_⟩
    · simp only [buttons, List.mem_append, Option.mem_toList, Option.map_eq_some_iff] at hb
      rw [Draw.buttons]
      rcases hb with (⟨capability, hanswer, rfl⟩ | ⟨capability, hdecline, rfl⟩) |
        ⟨capability, hhangup, rfl⟩
      · split at hanswer
        · obtain rfl := Option.some.inj hanswer
          simp
        · cases hanswer
      · split at hdecline
        · obtain rfl := Option.some.inj hdecline
          simp
        · cases hdecline
      · split at hhangup
        · obtain rfl := Option.some.inj hhangup
          simp
        · cases hhangup
    · simp [buttons, hended]
  · cases h

/-- A call that is over has no buttons. -/
theorem replace_ended (h : record.replace draw owner record.state.ended = .ok record') :
    record' = record.over owner := by
  rw [replace] at h
  split at h
  · rw [← Except.ok.inj h]
    rfl
  · cases h

end CallRecord

/-! ## Tables -/

section Tables

variable (digest : String → List UInt8)

/-- A record as it is kept: under the key of its call, not over and acknowledged, and without buttons
    if its call is over. -/
structure CallRecord.Kept (key : String) (record : CallRecord) : Prop where
  key : callKey digest record.state = key
  open' : ¬ (record.acknowledged = true ∧ record.state.phase = .ended)
  buttons : record.state.phase = .ended → record.buttons = []

/-- The records are as they are kept. -/
def WellKept (table : Std.ExtTreeMap String CallRecord compare) : Prop :=
  ∀ (key : String) (record : CallRecord), table[key]? = some record → record.Kept digest key

/-- What becomes of a table: of its records, and records of calls that are new. -/
structure Grown (new : List Button) (current : List (BackgroundCallState × Draw))
    (table table' : Std.ExtTreeMap String CallRecord compare) : Prop where
  origin : ∀ (key : String) (record' : CallRecord), table'[key]? = some record' →
    (∃ record, table[key]? = some record ∧ Follows new record record') ∨
      (∃ entry ∈ current, callKey digest entry.1 = key ∧
        record'.id = (newRecord entry.2 entry.1).id) ∧
      ∀ b ∈ record'.buttons, b ∈ new
  kept : WellKept digest table → WellKept digest table'

variable {digest} {new : List Button} {current : List (BackgroundCallState × Draw)}
  {table table' table'' : Std.ExtTreeMap String CallRecord compare} {key owner : String}
  {found found' : Synced} {live : List String}

theorem Grown.refl (table : Std.ExtTreeMap String CallRecord compare) :
    Grown digest new current table table :=
  ⟨fun _ record h => .inl ⟨record, h, .refl record⟩, id⟩

theorem Grown.trans (h : Grown digest new current table table')
    (h' : Grown digest new current table' table'') : Grown digest new current table table'' := by
  refine ⟨fun key record'' hrecord => ?_, h'.kept ∘ h.kept⟩
  rcases h'.origin key record'' hrecord with ⟨record', hmid, hfollows'⟩ | hfresh
  · rcases h.origin key record' hmid with ⟨record, hfirst, hfollows⟩ | ⟨hentry, hnew⟩
    · exact .inl ⟨record, hfirst, hfollows.trans hfollows'⟩
    · refine .inr ⟨?_, fun b hb => (hfollows'.buttons hb).elim (hnew b) id⟩
      rw [hfollows'.id]
      exact hentry
  · exact .inr hfresh

/-- A record is put into a table. -/
theorem Grown.insert {record' : CallRecord}
    (h : (∃ record, table[key]? = some record ∧ Follows new record record') ∨
      (∃ entry ∈ current, callKey digest entry.1 = key ∧
        record'.id = (newRecord entry.2 entry.1).id) ∧
      ∀ b ∈ record'.buttons, b ∈ new)
    (hkept : WellKept digest table → record'.Kept digest key) :
    Grown digest new current table (table.insert key record') := by
  constructor
  · intro other record hrecord
    rw [Table.getElem?_insert] at hrecord
    split at hrecord
    · next heq =>
      obtain rfl := Option.some.inj hrecord
      exact heq ▸ h
    · exact .inl ⟨record, hrecord, .refl record⟩
  · intro hwell other record hrecord
    rw [Table.getElem?_insert] at hrecord
    split at hrecord
    · next heq =>
      obtain rfl := Option.some.inj hrecord
      exact heq ▸ hkept hwell
    · exact hwell other record hrecord

/-- A new revision of a record is kept. -/
theorem CallRecord.kept_replace {record record' : CallRecord} {draw : Draw}
    {state : BackgroundCallState} (h : record.replace draw owner state = .ok record') :
    record'.Kept digest (callKey digest state) := by
  obtain ⟨-, -, -, hstate, hack, hbuttons⟩ := CallRecord.replace_spec h
  refine ⟨by rw [hstate], fun hover => ?_, fun hended => hbuttons (hstate ▸ hended)⟩
  rw [hack] at hover
  exact absurd hover.1 Bool.false_ne_true

/-- A call that is there is noted. -/
theorem syncState_spec {entry : BackgroundCallState × Draw}
    (h : syncState digest owner found entry = .ok found') (hmem : entry ∈ current)
    (hnew : ∀ b ∈ entry.2.buttons owner entry.1, b ∈ new) :
    Grown digest new current found.1 found'.1 ∧
      (∃ record, found'.1 = found.1.insert (callKey digest entry.1) record ∧
        record.owner = owner ∧ record.state = entry.1) ∧
      (owner ≠ "" → found'.2 = false → found.2 = false ∧ ∀ key : String,
        found'.1[key]? = found.1[key]?) := by
  have hold : (∃ record, found.1[callKey digest entry.1]? = some record ∧
      found.1[callKey digest entry.1]?.getD (newRecord entry.2 entry.1) = record) ∨
      found.1[callKey digest entry.1]? = none ∧
        found.1[callKey digest entry.1]?.getD (newRecord entry.2 entry.1) =
          newRecord entry.2 entry.1 := by
    rcases found.1[callKey digest entry.1]? with - | record
    · exact .inr ⟨rfl, rfl⟩
    · exact .inl ⟨record, rfl, rfl⟩
  rw [syncState] at h
  generalize found.1[callKey digest entry.1]?.getD (newRecord entry.2 entry.1) = record at h hold
  split at h
  · -- there is a new revision
    obtain ⟨record', hreplace, hfound⟩ := bind_eq_ok.1 h
    obtain rfl := Except.ok.inj hfound
    obtain ⟨hfollows, -, howner, hstate, -⟩ := CallRecord.replace_spec hreplace
    refine ⟨.insert ?_ fun _ => CallRecord.kept_replace hreplace, ⟨record', rfl, howner, hstate⟩,
      fun _ hchanged => by cases hchanged⟩
    rcases hold with ⟨old, hget, rfl⟩ | ⟨-, rfl⟩
    · exact .inl ⟨_, hget, hfollows.id, hfollows.grows.imp_right (.imp_right (.imp_right
        fun hbuttons b hb => hnew b (hbuttons b hb)))⟩
    · refine .inr ⟨⟨entry, hmem, rfl, hfollows.id⟩, fun b hb => ?_⟩
      rcases hfollows.buttons hb with hnone | hb
      · cases hnone
      · exact hnew b hb
  · next hsame =>
    obtain ⟨howner, hstate⟩ := not_or.1 hsame
    rw [not_not] at howner hstate
    obtain rfl := Except.ok.inj h
    refine ⟨.insert ?_ ?_, ⟨record, rfl, howner, hstate⟩, fun hname hchanged => ⟨hchanged, ?_⟩⟩
    · rcases hold with ⟨old, hget, rfl⟩ | ⟨-, rfl⟩
      · exact .inl ⟨_, hget, .refl _⟩
      · exact .inr ⟨⟨entry, hmem, rfl, rfl⟩, nofun⟩
    · intro hwell
      rcases hold with ⟨old, hget, rfl⟩ | ⟨-, rfl⟩
      · exact hwell _ _ hget
      · exact ⟨rfl, fun hover => Bool.false_ne_true hover.1, fun _ => rfl⟩
    · -- a record that was there is put back
      intro key
      rcases hold with ⟨old, hget, rfl⟩ | ⟨-, rfl⟩
      · dsimp only
        rw [Table.getElem?_insert]
        split
        · next heq => rw [← heq, hget]
        · rfl
      · exact absurd howner.symm hname

/-- The last state under a key counts, and other records stay. -/
theorem syncStates_last {l : List (BackgroundCallState × Draw)}
    (h : l.foldlM (syncState digest owner) found = .ok found') (key : String) :
    (∀ entry, l.reverse.find? (fun entry => callKey digest entry.1 = key) = some entry →
      ∃ record, found'.1[key]? = some record ∧ record.owner = owner ∧ record.state = entry.1) ∧
    (l.reverse.find? (fun entry => callKey digest entry.1 = key) = none →
      found'.1[key]? = found.1[key]?) := by
  induction l generalizing found with
  | nil =>
    obtain rfl := Except.ok.inj h
    exact ⟨nofun, fun _ => rfl⟩
  | cons entry l ih =>
    rw [List.foldlM_cons, bind_eq_ok] at h
    obtain ⟨mid, hentry, hrest⟩ := h
    obtain ⟨hlast, hother⟩ := ih hrest
    obtain ⟨-, ⟨record, hinsert, howner, hstate⟩, -⟩ :=
      syncState_spec hentry (List.mem_cons_self : entry ∈ entry :: l) fun b hb => hb
    rw [List.reverse_cons, List.find?_append, List.find?_singleton]
    rcases hfind : l.reverse.find? (fun entry => callKey digest entry.1 = key) with - | later
    · rw [hfind, Option.none_or, hother hfind, hinsert, Table.getElem?_insert]
      by_cases hkey : callKey digest entry.1 = key
      · rw [if_pos hkey, if_pos (decide_eq_true hkey)]
        refine ⟨fun found hfound => ⟨record, rfl, howner, ?_⟩, nofun⟩
        rw [hstate, Option.some.inj hfound]
      · rw [if_neg hkey, if_neg (by simpa using hkey)]
        exact ⟨nofun, fun _ => rfl⟩
    · rw [hfind, Option.some_or]
      exact ⟨fun found hfound => hlast found (hfind.trans hfound), nofun⟩

/-- All calls that are there are noted. -/
theorem syncStates_spec (h : current.foldlM (syncState digest owner) found = .ok found') :
    Grown digest (current.flatMap fun entry => entry.2.buttons owner entry.1) current found.1
        found'.1 ∧
      (owner ≠ "" → found'.2 = false → found.2 = false ∧ ∀ key : String,
        found'.1[key]? = found.1[key]?) := by
  constructor
  · refine foldlM_invariant (R := fun mid : Synced => Grown digest _ current found.1 mid.1) h
      (fun entry hmem mid mid' hgrown hstep => ?_) (.refl _)
    exact hgrown.trans (syncState_spec hstep hmem fun b hb =>
      List.mem_flatMap.2 ⟨entry, hmem, hb⟩).1
  · intro hname
    refine foldlM_invariant (R := fun mid : Synced => mid.2 = false → found.2 = false ∧
      ∀ key : String, mid.1[key]? = found.1[key]?) h (fun entry hmem mid mid' hmid hstep hchanged => ?_)
      fun hchanged => ⟨hchanged, fun _ => rfl⟩
    obtain ⟨hbefore, hsame⟩ :=
      (syncState_spec hstep hmem fun b hb => hb).2.2 hname hchanged
    obtain ⟨hfirst, hsame'⟩ := hmid hbefore
    exact ⟨hfirst, fun key => (hsame key).trans (hsame' key)⟩

/-- A record whose call is not there any more is ended. -/
theorem endRecord_spec {row : String × CallRecord}
    (h : endRecord owner live found row = .ok found') (hrow : found.1[row.1]? = some row.2) :
    (∀ key, found'.1[key]? = if row.1 = key then
      some (if key ∉ live ∧ row.2.state.phase ≠ .ended then row.2.over owner else row.2)
      else found.1[key]?) ∧
    (found'.2 = false → found' = found) := by
  rw [endRecord] at h
  split at h
  · next hgone =>
    obtain ⟨record, hreplace, hfound⟩ := bind_eq_ok.1 h
    obtain rfl := Except.ok.inj hfound
    refine ⟨fun key => ?_, fun hchanged => by cases hchanged⟩
    rw [Table.getElem?_insert, CallRecord.replace_ended hreplace]
    split
    · next heq => rw [← heq, if_pos hgone]
    · rfl
  · next hstays =>
    obtain rfl := Except.ok.inj h
    refine ⟨fun key => ?_, fun _ => rfl⟩
    split
    · next heq => rw [← heq, if_neg hstays, hrow]
    · rfl

/-- Records whose calls are not there any more are ended, and the others stay. -/
theorem endRecords_spec {rows : List (String × CallRecord)}
    (h : rows.foldlM (endRecord owner live) found = .ok found')
    (hdistinct : (rows.map Prod.fst).Nodup)
    (hrows : ∀ row ∈ rows, found.1[row.1]? = some row.2) :
    (∀ key record, (key, record) ∈ rows → found'.1[key]? =
      some (if key ∉ live ∧ record.state.phase ≠ .ended then record.over owner else record)) ∧
    (∀ key, key ∉ rows.map Prod.fst → found'.1[key]? = found.1[key]?) ∧
    (found'.2 = false → found' = found) := by
  induction rows generalizing found with
  | nil =>
    obtain rfl := Except.ok.inj h
    exact ⟨nofun, fun _ _ => rfl, fun _ => rfl⟩
  | cons row rows ih =>
    rw [List.foldlM_cons, bind_eq_ok] at h
    obtain ⟨mid, hrow, hrest⟩ := h
    rw [List.map_cons, List.nodup_cons] at hdistinct
    obtain ⟨hnew, hdistinct⟩ := hdistinct
    obtain ⟨hmid, hsame⟩ := endRecord_spec hrow (hrows row List.mem_cons_self)
    -- the other rows are as they were
    have hrows' : ∀ other ∈ rows, mid.1[other.1]? = some other.2 := by
      intro other hother
      have hne : row.1 ≠ other.1 := fun heq => hnew (List.mem_map.2 ⟨other, hother, heq.symm⟩)
      rw [hmid, if_neg hne]
      exact hrows other (.tail _ hother)
    obtain ⟨hended, hstay, hsame'⟩ := ih hrest hdistinct hrows'
    refine ⟨fun key record hmem => ?_, fun key hkey => ?_, fun hchanged => ?_⟩
    · rcases List.mem_cons.1 hmem with rfl | hmem
      · rw [hstay _ hnew, hmid, if_pos rfl]
      · exact hended key record hmem
    · rw [List.map_cons, List.mem_cons, not_or] at hkey
      rw [hstay key hkey.2, hmid, if_neg (Ne.symm hkey.1)]
    · obtain rfl := hsame' hchanged
      exact hsame hchanged

end Tables

/-! ## Operations -/

section Operations

variable {digest : String → List UInt8} {M E : Type} {s s' : Delivery M E} {owner : String}
  {current : List (BackgroundCallState × Draw)}

theorem kept_open_iff {record : CallRecord} :
    (!(record.acknowledged && record.state.phase = .ended)) = true ↔
      ¬ (record.acknowledged = true ∧ record.state.phase = .ended) := by
  rw [Bool.not_eq_true', ← Bool.not_eq_true, Bool.and_eq_true, decide_eq_true_eq]

theorem getElem?_writeCallRecords (records : Std.ExtTreeMap String CallRecord compare)
    (key : String) : (s.writeCallRecords records).calls[key]? = records[key]?.filter fun record =>
      !(record.acknowledged && record.state.phase = .ended) :=
  Std.ExtTreeMap.getElem?_filter'

/-- What a sync does to the records. -/
structure SyncSpec (digest : String → List UInt8) (owner : String)
    (current : List (BackgroundCallState × Draw)) (s s' : Delivery M E) : Prop where
  grown : Grown digest (current.flatMap fun entry => entry.2.buttons owner entry.1) current s.calls
    s'.calls
  /-- The last state of a call is that of its record. -/
  shows : owner ≠ "" → ∀ key entry,
    current.reverse.find? (fun entry => callKey digest entry.1 = key) = some entry →
      ∃ record, s'.calls[key]? = some record ∧ record.owner = owner ∧ record.state = entry.1
  /-- The record of a call that is not there any more is ended. -/
  ends : ∀ key record, s.calls[key]? = some record →
    key ∉ current.map (fun entry => callKey digest entry.1) → s'.calls[key]? =
      some (if record.state.phase ≠ .ended then record.over owner else record)

/-- A record of a call that is over follows the one before. -/
theorem CallRecord.follows_over (new : List Button) (record : CallRecord) :
    Follows new record (record.over owner) :=
  ⟨rfl, .inr (.inr ⟨Nat.lt_succ_self _, nofun⟩)⟩

theorem CallRecord.Kept.over {key : String} {record : CallRecord} (h : record.Kept digest key) :
    (record.over owner).Kept digest key :=
  ⟨h.key, fun hover => Bool.false_ne_true hover.1, fun _ => rfl⟩

/-- Ended records take the place of those they are made of. -/
theorem grown_ends {new : List Button} {live : List String}
    {table table' : Std.ExtTreeMap String CallRecord compare}
    (h : ∀ key : String, table'[key]? = table[key]?.map fun record =>
      if key ∉ live ∧ record.state.phase ≠ .ended then record.over owner else record) :
    Grown digest new current table table' := by
  constructor
  · intro key record' hrecord
    rw [h, Option.map_eq_some_iff] at hrecord
    obtain ⟨record, hget, rfl⟩ := hrecord
    refine .inl ⟨record, hget, ?_⟩
    split
    · exact record.follows_over new
    · exact .refl record
  · intro hwell key record' hrecord
    rw [h, Option.map_eq_some_iff] at hrecord
    obtain ⟨record, hget, rfl⟩ := hrecord
    split
    · exact (hwell key record hget).over
    · exact hwell key record hget

theorem syncBackgroundCalls_spec (hkept : WellKept digest s.calls)
    (h : s.syncBackgroundCalls digest owner current = .ok s') :
    SyncSpec digest owner current s s' := by
  obtain ⟨mid, hmid, h⟩ := bind_eq_ok.1 h
  obtain ⟨⟨records, changed⟩, hend, hs'⟩ := bind_eq_ok.1 h
  obtain ⟨hgrown, hquiet⟩ := syncStates_spec hmid
  have hlast := syncStates_last hmid
  have hdistinct : (mid.1.toList.map Prod.fst).Nodup := by
    rw [Std.ExtTreeMap.map_fst_toList_eq_keys]
    exact Std.ExtTreeMap.nodup_keys
  obtain ⟨hended, hstay, hsame⟩ := endRecords_spec hend hdistinct fun row hrow =>
    Std.ExtTreeMap.mem_toList_iff_getElem?_eq_some.1 hrow
  have hkeptMid := hgrown.kept hkept
  -- what the second loop makes of the records of the first one
  have hrecords : ∀ key : String, records[key]? = mid.1[key]?.map fun record =>
      if key ∉ current.map (fun entry => callKey digest entry.1) ∧ record.state.phase ≠ .ended then
        record.over owner
      else record := by
    intro key
    rcases hget : mid.1[key]? with - | record
    · refine (hstay key fun hkey => ?_).trans hget
      obtain ⟨row, hrow, rfl⟩ := List.mem_map.1 hkey
      rw [Std.ExtTreeMap.mem_toList_iff_getElem?_eq_some.1 hrow] at hget
      cases hget
    · exact hended key record (Std.ExtTreeMap.mem_toList_iff_getElem?_eq_some.2 hget)
  have hother : ∀ key : String, key ∉ current.map (fun entry => callKey digest entry.1) →
      mid.1[key]? = s.calls[key]? := by
    refine fun key hkey => (hlast key).2 (List.find?_eq_none.2 fun entry hentry heq => hkey ?_)
    exact List.mem_map.2 ⟨entry, List.mem_reverse.1 hentry, of_decide_eq_true heq⟩
  rcases changed with - | -
  · -- nothing has changed, and nothing is written
    obtain rfl : s = s' := Except.ok.inj hs'
    obtain rfl : (records, false) = mid := hsame rfl
    refine ⟨.refl _, fun hname key entry hfind => ?_, fun key record hget hkey => ?_⟩
    · obtain ⟨record, hget, hrecord⟩ := (hlast key).1 entry hfind
      exact ⟨record, ((hquiet hname rfl).2 key).symm.trans hget, hrecord⟩
    · have hsecond := hrecords key
      rw [hother key hkey, hget, Option.map_some] at hsecond
      rw [hget, hsecond]
      simp only [hkey, not_false_eq_true, true_and]
  · obtain rfl : s.writeCallRecords records = s' := Except.ok.inj hs'
    -- none of the records that are written is over and acknowledged
    have hwritten : ∀ key : String, (s.writeCallRecords records).calls[key]? =
        mid.1[key]?.map fun record =>
          if key ∉ current.map (fun entry => callKey digest entry.1) ∧
              record.state.phase ≠ .ended then record.over owner
          else record := by
      intro key
      rw [getElem?_writeCallRecords, ← hrecords key]
      rcases hget : records[key]? with - | record
      · rfl
      · have hends : Grown digest [] [] mid.1 records := grown_ends hrecords
        have hopen := (hends.kept hkeptMid key record hget).open'
        rw [Option.filter_some, if_pos (kept_open_iff.2 hopen)]
    refine ⟨hgrown.trans (grown_ends hwritten), fun hname key entry hfind => ?_,
      fun key record hget hkey => ?_⟩
    · obtain ⟨record, hget, hrecord⟩ := (hlast key).1 entry hfind
      have hlive : key ∈ current.map (fun entry => callKey digest entry.1) := by
        refine List.mem_map.2 ⟨entry, List.mem_reverse.1 (List.mem_of_find?_eq_some hfind), ?_⟩
        exact of_decide_eq_true (List.find?_some (p := fun entry : BackgroundCallState × Draw =>
          decide (callKey digest entry.1 = key)) hfind)
      refine ⟨record, ?_, hrecord⟩
      rw [hwritten, hget, Option.map_some, if_neg fun h => h.1 hlive]
    · rw [hwritten, hother key hkey, hget, Option.map_some]
      simp only [hkey, not_false_eq_true, true_and]

/-- A button acts if its record is for the owner, shows the call as it is, and has not expired. The
    record has new buttons then. -/
theorem takeBackgroundCallAction_eq_some {capability : String} {state : BackgroundCallState}
    {now : Nat} {draw : Draw} {action : BackgroundCallAction}
    (h : s.takeBackgroundCallAction digest capability owner state now draw = .ok (s', some action)) :
    ∃ record record', s.calls[callKey digest state]? = some record ∧ record.owner = owner ∧
      record.state = state ∧ (state.expiresAtMs = 0 ∨ now < state.expiresAtMs) ∧
      record.action capability = some action ∧ record.replace draw owner state = .ok record' ∧
      s'.calls = s.calls.insert (callKey digest state) record' := by
  rw [Delivery.takeBackgroundCallAction] at h
  split at h
  · cases h
  · dsimp only at h
    split at h
    · cases h
    · next record hget =>
      split at h
      · cases h
      · next hfits =>
        obtain ⟨howner, hrest⟩ := not_or.1 hfits
        obtain ⟨hstate, hexpiry⟩ := not_or.1 hrest
        rw [not_not] at howner hstate
        obtain rfl := hstate
        split at h
        · cases h
        · next action' haction =>
          obtain ⟨record', hreplace, hs'⟩ := bind_eq_ok.1 h
          obtain ⟨rfl, hsome⟩ := Prod.mk.inj (Except.ok.inj hs')
          obtain rfl := Option.some.inj hsome
          refine ⟨record, record', hget, howner, rfl, ?_, haction, hreplace, rfl⟩
          by_contra hlate
          rw [not_or, not_lt] at hlate
          exact hexpiry hlate

/-- What an acknowledgement makes of a record. -/
theorem getElem?_ackCallNotification (id : String) (revision : Nat) (key : String) :
    (s.ackCallNotification id revision).calls[key]? = (s.calls[key]?.map fun record =>
      if record.id = id ∧ record.revision = revision then { record with acknowledged := true }
      else record).filter fun record => !(record.acknowledged && record.state.phase = .ended) := by
  rw [Delivery.ackCallNotification, getElem?_writeCallRecords, Std.ExtTreeMap.getElem?_map]

/-- Records of other revisions stay. -/
theorem ackCallNotification_other (hkept : WellKept digest s.calls) {id key : String}
    {revision : Nat} {record : CallRecord} (h : s.calls[key]? = some record)
    (hother : ¬ (record.id = id ∧ record.revision = revision)) :
    (s.ackCallNotification id revision).calls[key]? = some record := by
  have hopen := (hkept key record h).open'
  rw [getElem?_ackCallNotification, h, Option.map_some, if_neg hother, Option.filter_some,
    if_pos (kept_open_iff.2 hopen)]

theorem ackCallNotification_grown (id : String) (revision : Nat) :
    Grown digest [] [] s.calls (s.ackCallNotification id revision).calls := by
  constructor
  · intro key record' hrecord
    rw [getElem?_ackCallNotification, Option.filter_eq_some_iff, Option.map_eq_some_iff] at hrecord
    obtain ⟨⟨record, hget, rfl⟩, -⟩ := hrecord
    refine .inl ⟨record, hget, ?_⟩
    split
    · exact ⟨rfl, .inr (.inl rfl)⟩
    · exact .refl record
  · intro hwell key record' hrecord
    rw [getElem?_ackCallNotification, Option.filter_eq_some_iff, Option.map_eq_some_iff] at hrecord
    obtain ⟨⟨record, hget, rfl⟩, hopen⟩ := hrecord
    have hkept := hwell key record hget
    refine ⟨?_, kept_open_iff.1 hopen, ?_⟩
    · split
      · exact hkept.key
      · exact hkept.key
    · split
      · exact hkept.buttons
      · exact hkept.buttons

end Operations

/-! ## Runs -/

namespace CallLedger

variable {digest : String → List UInt8} {M E : Type} {t t' : CallLedger M E} {e : CallEvent}
  {es : List CallEvent}

/-- What holds along every run. -/
structure Sound (digest : String → List UInt8) (t : CallLedger M E) : Prop where
  kept : WellKept digest t.store.calls
  /-- The buttons of records were drawn, and have not acted. -/
  shown : ∀ (key : String) (record : CallRecord), t.store.calls[key]? = some record →
    ∀ b ∈ record.buttons, b ∈ t.buttons ∧ ∀ x ∈ t.taken, x.button.capability ≠ b.capability
  named : ∀ (key : String) (record : CallRecord), t.store.calls[key]? = some record →
    record.id ∈ t.ids
  apart : ∀ (key key' : String) (record record' : CallRecord), t.store.calls[key]? = some record →
    t.store.calls[key']? = some record' → record.id = record'.id → key = key'
  drawn : (t.buttons.map (·.capability)).Nodup
  once : (t.taken.map (·.button.capability)).Nodup
  acted : ∀ x ∈ t.taken, x.button ∈ t.buttons ∧
    (x.button.state.expiresAtMs = 0 ∨ x.now < x.button.state.expiresAtMs)
  /-- The last state of a call is that of its record. -/
  synced : t.synced.1 ≠ "" → ∀ (key : String) (state : BackgroundCallState),
    t.synced.2.reverse.find? (fun state => callKey digest state = key) = some state →
    state.phase ≠ .ended → ∃ record, t.store.calls[key]? = some record ∧
      record.owner = t.synced.1 ∧ record.state = state

/-- What an event does to the records. -/
theorem step_grown (hkept : WellKept digest t.store.calls) (e : CallEvent) :
    Grown digest e.buttons e.current t.store.calls (t.step digest e).store.calls := by
  cases e with
  | sync owner current =>
    rw [step]
    split
    · next store hsync => exact (syncBackgroundCalls_spec hkept hsync).grown
    · exact .refl _
  | take capability owner current now draw =>
    rw [step]
    split
    · next store action htake =>
      obtain ⟨record, record', hget, -, -, -, -, hreplace, hcalls⟩ :=
        takeBackgroundCallAction_eq_some htake
      dsimp only
      rw [hcalls]
      exact .insert (.inl ⟨record, hget, (CallRecord.replace_spec hreplace).1⟩)
        fun _ => CallRecord.kept_replace hreplace
    · exact .refl _
  | acknowledge id revision => exact ackCallNotification_grown id revision

/-- What is drawn in an event, whether it succeeds or not. -/
theorem step_drawn (digest : String → List UInt8) (t : CallLedger M E) (e : CallEvent) :
    (t.step digest e).buttons = t.buttons ++ e.buttons ∧
      (t.step digest e).ids = t.ids ++ e.ids := by
  cases e with
  | sync owner current =>
    rw [step]
    split <;> exact ⟨rfl, rfl⟩
  | take capability owner current now draw =>
    rw [step]
    split <;> exact ⟨rfl, rfl⟩
  | acknowledge id revision => exact ⟨rfl, rfl⟩

/-- The buttons that have acted after an event. -/
theorem step_taken (digest : String → List UInt8) (t : CallLedger M E) (e : CallEvent) :
    (t.step digest e).taken = t.taken ∨
    ∃ capability owner state now draw action record record',
      e = .take capability owner state now draw ∧
      t.store.calls[callKey digest state]? = some record ∧
      (⟨capability, action, owner, state⟩ : Button) ∈ record.buttons ∧
      (state.expiresAtMs = 0 ∨ now < state.expiresAtMs) ∧
      record.replace draw owner state = .ok record' ∧
      (t.step digest e).store.calls = t.store.calls.insert (callKey digest state) record' ∧
      (t.step digest e).taken = t.taken ++ [⟨⟨capability, action, owner, state⟩, now⟩] := by
  cases e with
  | sync owner current =>
    rw [step]
    split <;> exact .inl rfl
  | take capability owner current now draw =>
    rw [step]
    split
    · next store action htake =>
      obtain ⟨record, record', hget, howner, hstate, hexpiry, haction, hreplace, hcalls⟩ :=
        takeBackgroundCallAction_eq_some htake
      refine .inr ⟨capability, owner, current, now, draw, action, record, record', rfl, hget, ?_,
        hexpiry, hreplace, hcalls, rfl⟩
      have hmem := CallRecord.mem_buttons_of_action haction
      rwa [howner, hstate] at hmem
    · exact .inl rfl
  | acknowledge id revision => exact .inl rfl

/-- The calls that were noted last have their records after an event. -/
theorem Sound.step_synced (h : t.Sound digest) (e : CallEvent)
    (hname : (t.step digest e).synced.1 ≠ "") {key : String} {state : BackgroundCallState}
    (hfind : (t.step digest e).synced.2.reverse.find? (fun state => callKey digest state = key) =
      some state) (hphase : state.phase ≠ .ended) :
    ∃ record, (t.step digest e).store.calls[key]? = some record ∧
      record.owner = (t.step digest e).synced.1 ∧ record.state = state := by
  cases e with
  | sync owner current =>
    rcases hsync : t.store.syncBackgroundCalls digest owner current with error | store
    · simp only [step, hsync] at hname hfind ⊢
      exact h.synced hname key state hfind hphase
    · simp only [step, hsync] at hname hfind ⊢
      rw [← List.map_reverse, List.find?_map, Option.map_eq_some_iff] at hfind
      obtain ⟨entry, hentry, rfl⟩ := hfind
      exact (syncBackgroundCalls_spec h.kept hsync).shows hname key entry hentry
  | take capability owner current now draw =>
    have hsame : (t.step digest (.take capability owner current now draw)).synced = t.synced := by
      rw [step]
      split <;> rfl
    rw [hsame] at hname hfind ⊢
    rw [step]
    split
    · next store action htake =>
      obtain ⟨record, record', hget, howner, hstate, -, -, hreplace, hcalls⟩ :=
        takeBackgroundCallAction_eq_some htake
      obtain ⟨shown, hshown, hshownOwner, hshownState⟩ := h.synced hname key state hfind hphase
      obtain ⟨-, -, howner', hstate', -⟩ := CallRecord.replace_spec hreplace
      dsimp only
      rw [hcalls, Table.getElem?_insert]
      split
      · next heq =>
        -- the new revision is for the same call and the same owner
        rw [← heq, hget] at hshown
        obtain rfl := Option.some.inj hshown
        exact ⟨record', rfl, by rw [howner', ← howner, hshownOwner], by
          rw [hstate', ← hstate, hshownState]⟩
      · exact ⟨shown, hshown, hshownOwner, hshownState⟩
    · exact h.synced hname key state hfind hphase
  | acknowledge id revision =>
    obtain ⟨record, hget, howner, hstate⟩ := h.synced hname key state hfind hphase
    change ∃ record, (t.store.ackCallNotification id revision).calls[key]? = some record ∧ _
    rw [getElem?_ackCallNotification, hget, Option.map_some]
    -- the call is not over, so its record is kept
    rw [Option.filter_some]
    split
    · refine ⟨_, if_pos ?_, howner, hstate⟩
      exact (@kept_open_iff { record with acknowledged := true }).2 fun hover =>
        hphase (hstate ▸ hover.2)
    · exact ⟨_, if_pos (kept_open_iff.2 fun hover => hphase (hstate ▸ hover.2)), howner, hstate⟩

/-- The buttons of records after an event were drawn, and have not acted before. -/
theorem Sound.step_shown (h : t.Sound digest) (hfresh : t.Fresh e) {key : String}
    {record : CallRecord} (hget : (t.step digest e).store.calls[key]? = some record) {b : Button}
    (hb : b ∈ record.buttons) : b ∈ t.buttons ++ e.buttons ∧
      ∀ x ∈ t.taken, x.button.capability ≠ b.capability := by
  have hdrawn : b ∈ e.buttons → b ∈ t.buttons ++ e.buttons ∧
      ∀ x ∈ t.taken, x.button.capability ≠ b.capability := by
    refine fun hnew => ⟨List.mem_append_right _ hnew, fun x hx heq => ?_⟩
    have hdisjoint := (List.nodup_append.1 (List.map_append ▸ hfresh.1)).2.2
    exact hdisjoint _ (List.mem_map_of_mem (h.acted x hx).1) _ (List.mem_map_of_mem hnew) heq
  rcases (step_grown h.kept e).origin key record hget with ⟨before, hbefore, hfollows⟩ | ⟨-, hnew⟩
  · rcases hfollows.buttons hb with hold | hnew
    · obtain ⟨hmem, hunused⟩ := h.shown key before hbefore b hold
      exact ⟨List.mem_append_left _ hmem, hunused⟩
    · exact hdrawn hnew
  · exact hdrawn (hnew b hb)

/-- An event keeps what holds along runs. -/
theorem Sound.step (h : t.Sound digest) (hfresh : t.Fresh e) : (t.step digest e).Sound digest := by
  have hgrown := step_grown h.kept e
  obtain ⟨hbuttons, hids⟩ := step_drawn digest t e
  have hunique : ∀ b ∈ t.buttons, ∀ b' ∈ t.buttons, b.capability = b'.capability → b = b' :=
    fun b hb b' hb' => List.inj_on_of_nodup_map h.drawn hb hb'
  obtain ⟨-, hidsNew, hidsApart⟩ := List.nodup_append.1 hfresh.2
  refine ⟨hgrown.kept h.kept, fun key record hget b hb => ?_, fun key record hget => ?_,
    fun key key' record record' hget hget' hid => ?_, by rw [hbuttons]; exact hfresh.1, ?_, ?_,
    fun hname key state => h.step_synced e hname⟩
  · obtain ⟨hmem, hunused⟩ := h.step_shown hfresh hget hb
    refine ⟨hbuttons ▸ hmem, ?_⟩
    rcases step_taken digest t e with htaken |
      ⟨capability, owner, state, now, draw, action, old, new, rfl,
      hold, hused, -, hreplace, hcalls, htaken⟩
    · rwa [htaken]
    · rw [htaken]
      intro x hx
      rcases List.mem_append.1 hx with hx | hx
      · exact hunused x hx
      · obtain rfl := List.mem_singleton.1 hx
        intro hsame
        have husedMem := (h.shown _ old hold _ hused).1
        rw [hcalls, Table.getElem?_insert] at hget
        split at hget
        · -- the buttons of the new revision are new
          obtain rfl := Option.some.inj hget
          obtain ⟨hfollows, hrevision, -⟩ := CallRecord.replace_spec hreplace
          have hnew : b ∈ draw.buttons owner state := by
            rcases hfollows.grows with heq | heq | ⟨-, hnew⟩
            · exact absurd (heq ▸ hrevision) (Nat.lt_succ_self _).ne
            · exact absurd (heq ▸ hrevision) (Nat.lt_succ_self _).ne
            · exact hnew b hb
          have hdisjoint := (List.nodup_append.1 (List.map_append ▸ hfresh.1)).2.2
          exact hdisjoint _ (List.mem_map_of_mem husedMem) _ (List.mem_map_of_mem hnew) hsame
        · next hne =>
          -- another record shows another call
          obtain rfl := hunique _ husedMem b (h.shown key record hget b hb).1 hsame
          have hstate : state = record.state := (CallRecord.of_mem_buttons hb).2
          exact hne (hstate ▸ (h.kept key record hget).key)
  · rw [hids]
    rcases hgrown.origin key record hget with ⟨before, hbefore, hfollows⟩ |
      ⟨⟨entry, hentry, -, hid⟩, -⟩
    · rw [hfollows.id]
      exact List.mem_append_left _ (h.named key before hbefore)
    · rw [hid]
      exact List.mem_append_right _ (List.mem_map.2 ⟨entry, hentry, rfl⟩)
  · rcases hgrown.origin key record hget with ⟨before, hbefore, hfollows⟩ |
      ⟨⟨entry, hentry, hkey, hentryId⟩, -⟩
    · rcases hgrown.origin key' record' hget' with ⟨before', hbefore', hfollows'⟩ |
        ⟨⟨entry', hentry', -, hentryId'⟩, -⟩
      · rw [hfollows.id, hfollows'.id] at hid
        exact h.apart key key' before before' hbefore hbefore' hid
      · refine absurd ?_ (hidsApart _ (h.named key before hbefore) _
          (List.mem_map.2 ⟨entry', hentry', rfl⟩))
        rw [← hfollows.id, hid, hentryId']
    · rcases hgrown.origin key' record' hget' with ⟨before', hbefore', hfollows'⟩ |
        ⟨⟨entry', hentry', hkey', hentryId'⟩, -⟩
      · refine absurd ?_ (hidsApart _ (h.named key' before' hbefore') _
          (List.mem_map.2 ⟨entry, hentry, rfl⟩))
        rw [← hfollows'.id, ← hid, hentryId]
      · rw [hentryId, hentryId'] at hid
        rw [← hkey, ← hkey', List.inj_on_of_nodup_map hidsNew hentry hentry' hid]
  · rcases step_taken digest t e with htaken |
      ⟨capability, owner, state, now, draw, action, old, new, rfl,
      hold, hused, -, -, -, htaken⟩
    · rw [htaken]
      exact h.once
    · rw [htaken, List.map_append, List.nodup_append]
      refine ⟨h.once, List.nodup_singleton _, fun c hc c' hc' => ?_⟩
      obtain ⟨x, hx, rfl⟩ := List.mem_map.1 hc
      obtain rfl := List.mem_singleton.1 hc'
      exact (h.shown _ old hold _ hused).2 x hx
  · rcases step_taken digest t e with htaken |
      ⟨capability, owner, state, now, draw, action, old, new, rfl,
      hold, hused, hexpiry, -, -, htaken⟩
    · rw [htaken, hbuttons]
      exact fun x hx => ⟨List.mem_append_left _ (h.acted x hx).1, (h.acted x hx).2⟩
    · rw [htaken, hbuttons]
      intro x hx
      rcases List.mem_append.1 hx with hx | hx
      · exact ⟨List.mem_append_left _ (h.acted x hx).1, (h.acted x hx).2⟩
      · obtain rfl := List.mem_singleton.1 hx
        exact ⟨List.mem_append_left _ (h.shown _ old hold _ hused).1, hexpiry⟩

theorem Sound.runs (h : t.Sound digest) (hrun : Runs (CallLedger.step digest) Fresh t es t') :
    t'.Sound digest :=
  hrun.invariant (fun _ _ hfresh hsound => Sound.step hsound hfresh) h

theorem sound_start {store : Delivery M E} (h : store.calls = ∅) : (start store).Sound digest := by
  have hnone : ∀ key : String, (start store).store.calls[key]? = none := by
    intro key
    rw [start, h]
    exact Std.ExtTreeMap.getElem?_empty
  constructor
  · intro key record hget
    rw [hnone] at hget
    cases hget
  · intro key record hget
    rw [hnone] at hget
    cases hget
  · intro key record hget
    rw [hnone] at hget
    cases hget
  · intro key key' record record' hget
    rw [hnone] at hget
    cases hget
  · exact List.nodup_nil
  · exact List.nodup_nil
  · nofun
  · exact fun hname => absurd rfl hname

/-! ## Revisions -/

/-- A ledger later in a run: records are new, or follow those that were there. -/
structure Later (t t' : CallLedger M E) : Prop where
  ids : t.ids <+: t'.ids
  buttons : t.buttons <+: t'.buttons
  records : ∀ (key : String) (record' : CallRecord), t'.store.calls[key]? = some record' →
    record'.id ∉ t.ids ∨
      ∃ record, t.store.calls[key]? = some record ∧ Follows t'.buttons record record'

theorem Later.refl (t : CallLedger M E) : Later t t :=
  ⟨List.prefix_refl _, List.prefix_refl _, fun _ record h => .inr ⟨record, h, .refl record⟩⟩

theorem Later.trans {t'' : CallLedger M E} (h : Later t t') (h' : Later t' t'') : Later t t'' := by
  refine ⟨h.ids.trans h'.ids, h.buttons.trans h'.buttons, fun key record'' hget => ?_⟩
  rcases h'.records key record'' hget with hnew | ⟨record', hget', hfollows'⟩
  · exact .inl fun hold => hnew (h.ids.subset hold)
  · rcases h.records key record' hget' with hnew | ⟨record, hget, hfollows⟩
    · exact .inl (hfollows'.id ▸ hnew)
    · refine .inr ⟨record, hget, Follows.trans ⟨hfollows.id, ?_⟩ hfollows'⟩
      exact hfollows.grows.imp_right (.imp_right (.imp_right fun hbuttons b hb =>
        h'.buttons.subset (hbuttons b hb)))

theorem Sound.later (h : t.Sound digest) (hfresh : t.Fresh e) : Later t (t.step digest e) := by
  obtain ⟨hbuttons, hids⟩ := step_drawn digest t e
  refine ⟨hids ▸ List.prefix_append _ _, hbuttons ▸ List.prefix_append _ _,
    fun key record' hget => ?_⟩
  rcases (step_grown h.kept e).origin key record' hget with ⟨record, hold, hfollows⟩ |
    ⟨⟨entry, hentry, -, hid⟩, -⟩
  · refine .inr ⟨record, hold, hfollows.id, ?_⟩
    exact hfollows.grows.imp_right (.imp_right (.imp_right fun hnew b hb =>
      hbuttons ▸ List.mem_append_right _ (hnew b hb)))
  · refine .inl fun hold => ?_
    exact (List.nodup_append.1 hfresh.2).2.2 _ hold _ (List.mem_map.2 ⟨entry, hentry, rfl⟩) hid

theorem Sound.later_runs (h : t.Sound digest) (hrun : Runs (CallLedger.step digest) Fresh t es t') :
    Later t t' := by
  refine (hrun.invariant (P := fun u => u.Sound digest ∧ Later t u)
    (fun u e hfresh hu => ⟨Sound.step hu.1 hfresh, hu.2.trans (hu.1.later hfresh)⟩)
    ⟨h, .refl t⟩).2

end CallLedger

/-! ## Calls that are over -/

/-- The event does not note the call, and does not acknowledge exactly this revision. -/
def CallEvent.Spares (digest : String → List UInt8) (key : String) (record : CallRecord)
    (e : CallEvent) : Prop :=
  key ∉ e.current.map (fun entry => callKey digest entry.1) ∧
    e ≠ .acknowledge record.id record.revision

namespace CallLedger

variable {digest : String → List UInt8} {M E : Type} {t t' : CallLedger M E} {e : CallEvent}
  {es : List CallEvent} {key : String} {record : CallRecord}

/-- The record of a call that is over stays. -/
theorem Sound.over_step (h : t.Sound digest) (hget : t.store.calls[key]? = some record)
    (hover : record.state.phase = .ended) (hspares : e.Spares digest key record) :
    (t.step digest e).store.calls[key]? = some record := by
  cases e with
  | sync owner current =>
    rw [CallLedger.step]
    split
    · next store hsync =>
      have hends := (syncBackgroundCalls_spec h.kept hsync).ends key record hget hspares.1
      rwa [if_neg (not_not.2 hover)] at hends
    · exact hget
  | take capability owner current now draw =>
    rw [CallLedger.step]
    split
    · next store action htake =>
      obtain ⟨old, new, hold, -, -, -, haction, -, hcalls⟩ := takeBackgroundCallAction_eq_some htake
      dsimp only
      rw [hcalls, Table.getElem?_insert, if_neg, hget]
      -- it has no buttons
      intro heq
      rw [heq, hget] at hold
      obtain rfl := Option.some.inj hold
      have hbutton := CallRecord.mem_buttons_of_action haction
      rw [(h.kept key record hget).buttons hover] at hbutton
      cases hbutton
    · exact hget
  | acknowledge id revision =>
    refine ackCallNotification_other h.kept hget fun hsame => hspares.2 ?_
    rw [hsame.1, hsame.2]

theorem Sound.over_runs (h : t.Sound digest) (hrun : Runs (CallLedger.step digest) Fresh t es t')
    (hget : t.store.calls[key]? = some record) (hover : record.state.phase = .ended)
    (hspares : ∀ e ∈ es, e.Spares digest key record) : t'.store.calls[key]? = some record := by
  induction hrun with
  | nil => exact hget
  | cons hfresh _ ih =>
    exact ih (Sound.step h hfresh) (h.over_step hget hover (hspares _ List.mem_cons_self))
      fun e he => hspares e (.tail _ he)

/-- A record that is not acknowledged is shown, unless as many as were asked for are shown before. -/
theorem mem_pendingCallNotifications {s : Delivery M E} (hget : s.calls[key]? = some record)
    (hopen : record.acknowledged = false) {limit : Nat} (hlimit : 0 < limit) :
    record.notification ∈ s.pendingCallNotifications limit ∨
      (s.pendingCallNotifications limit).length = limit := by
  have hmem : record.notification ∈ s.calls.toList.filterMap Delivery.ofCall := by
    refine List.mem_filterMap.2 ⟨(key, record),
      Std.ExtTreeMap.mem_toList_iff_getElem?_eq_some.2 hget, ?_⟩
    rw [Delivery.ofCall, hopen]
    rfl
  rw [Delivery.pendingCallNotifications, collect_eq Delivery.ofCall s.calls.toList hlimit,
    List.nil_append]
  rcases Nat.lt_or_ge limit (s.calls.toList.filterMap Delivery.ofCall).length with hfull | hroom
  · exact .inr (List.length_take_of_le hfull.le)
  · exact .inl ((List.take_of_length_le hroom).symm ▸ hmem)

end CallLedger

section Claim

variable {digest : String → List UInt8} {M E : Type} {store : Delivery M E} {es : List CallEvent}
  {t : CallLedger M E}

open CallLedger

/-- Call buttons are single-use and current.

    * A button acts at most once, for the owner and the state that it was drawn for, and before it
      expires. Those of a record were drawn, and have not acted.
    * A call that was noted has one record, which shows its last state.
    * Revisions of a record increase, and an acknowledgement of another revision hides nothing.
    * A call that is not noted any more is shown as over, until exactly that is acknowledged. -/
theorem call_buttons_single_use (hempty : store.calls = ∅)
    (hrun : Runs (CallLedger.step digest) Fresh (start store) es t) :
    ((t.taken.map (·.button.capability)).Nodup ∧ (t.buttons.map (·.capability)).Nodup ∧
      (∀ x ∈ t.taken, x.button ∈ t.buttons ∧
        (x.button.state.expiresAtMs = 0 ∨ x.now < x.button.state.expiresAtMs)) ∧
      ∀ (key : String) (record : CallRecord), t.store.calls[key]? = some record →
        ∀ b ∈ record.buttons, b.owner = record.owner ∧ b.state = record.state ∧ b ∈ t.buttons ∧
          ∀ x ∈ t.taken, x.button.capability ≠ b.capability) ∧
    (t.synced.1 ≠ "" → ∀ (key : String) (state : BackgroundCallState),
      t.synced.2.reverse.find? (fun state => callKey digest state = key) = some state →
      state.phase ≠ .ended → ∃ record, t.store.calls[key]? = some record ∧
        record.owner = t.synced.1 ∧ record.state = state ∧
        ∀ (key' : String) (record' : CallRecord), t.store.calls[key']? = some record' →
          callKey digest record'.state = key → record' = record) ∧
    (∀ (key : String) (record : CallRecord), t.store.calls[key]? = some record →
      (∀ es' t', Runs (CallLedger.step digest) Fresh t es' t' →
        ∀ (key' : String) (record' : CallRecord), t'.store.calls[key']? = some record' →
          record'.id = record.id → key' = key ∧ (record' = record ∨
            record' = { record with acknowledged := true } ∨ record.revision < record'.revision)) ∧
      ∀ id revision, ¬ (record.id = id ∧ record.revision = revision) →
        (t.store.ackCallNotification id revision).calls[key]? = some record) ∧
    ∀ (key : String) (record : CallRecord), t.store.calls[key]? = some record →
      record.state.phase ≠ .ended → ∀ owner current store',
      t.store.syncBackgroundCalls digest owner current = .ok store' →
      t.Fresh (.sync owner current) →
      key ∉ current.map (fun entry => callKey digest entry.1) →
      ∀ es' t', Runs (CallLedger.step digest) Fresh (t.step digest (.sync owner current)) es' t' →
        (∀ e ∈ es', e.Spares digest key (record.over owner)) →
        t'.store.calls[key]? = some (record.over owner) ∧
        (∀ limit, 0 < limit →
          (record.over owner).notification ∈ t'.store.pendingCallNotifications limit ∨
            (t'.store.pendingCallNotifications limit).length = limit) ∧
        (t'.store.ackCallNotification record.id (record.revision + 1)).calls[key]? = none := by
  have hsound : t.Sound digest := (sound_start hempty).runs hrun
  refine ⟨⟨hsound.once, hsound.drawn, hsound.acted, fun key record hget b hb => ?_⟩,
    fun hname key state hfind hphase => ?_, fun key record hget => ⟨fun es' t' hlater key' record'
      hget' hid => ?_, fun id revision hother => ackCallNotification_other hsound.kept hget hother⟩,
    fun key record hget hphase owner current store' hsync hfresh hgone es' t' hrest hspares => ?_⟩
  · obtain ⟨howner, hstate⟩ := CallRecord.of_mem_buttons hb
    exact ⟨howner, hstate, hsound.shown key record hget b hb⟩
  · obtain ⟨record, hget, howner, hstate⟩ := hsound.synced hname key state hfind hphase
    refine ⟨record, hget, howner, hstate, fun key' record' hget' hkey => ?_⟩
    rw [(hsound.kept key' record' hget').key] at hkey
    rw [hkey, hget] at hget'
    exact (Option.some.inj hget').symm
  · rcases (hsound.later_runs hlater).records key' record' hget' with hnew |
      ⟨before, hbefore, hfollows⟩
    · exact absurd (hid ▸ hsound.named key record hget) hnew
    · obtain rfl := hsound.apart key' key before record hbefore hget (hfollows.id.symm.trans hid)
      rw [hget] at hbefore
      obtain rfl := Option.some.inj hbefore
      exact ⟨rfl, hfollows.grows.imp_right (.imp_right And.left)⟩
  · have hends := (syncBackgroundCalls_spec hsound.kept hsync).ends key record hget hgone
    rw [if_pos hphase] at hends
    have hstart : (t.step digest (.sync owner current)).store.calls[key]? =
        some (record.over owner) := by
      simp only [CallLedger.step, hsync]
      exact hends
    have hstays := (Sound.step hsound hfresh).over_runs hrest hstart rfl hspares
    refine ⟨hstays, fun limit hlimit => mem_pendingCallNotifications hstays rfl hlimit, ?_⟩
    rw [getElem?_ackCallNotification, hstays, Option.map_some, if_pos ⟨rfl, rfl⟩]
    rfl

end Claim

/-! ## A call that rings -/

/-- The bytes that are drawn for a call. -/
def sampleDraw (n : UInt8) : Draw where
  id := List.replicate 16 n
  answer := List.replicate 32 n
  decline := List.replicate 32 (n + 1)
  hangup := List.replicate 32 (n + 2)

/-- A call that rings. -/
def ringingCall : BackgroundCallState := callState "session"
  { callId := "call", direction := .callee, phase := .ringing, remoteDevice := "phone" }

/-- The call is shown, and its answer is used twice. -/
def answeredTwice : List CallEvent :=
  let owner := ownerNonce (List.replicate 32 7)
  let answer := Hex.encode (List.replicate 32 1)
  [.sync owner [(ringingCall, sampleDraw 1)], .take answer owner ringingCall 2 (sampleDraw 11),
    .take answer owner ringingCall 3 (sampleDraw 21)]

/-- The second use of an answer does nothing. -/
theorem call_buttons_single_use_answer :
    ((answeredTwice.foldl (CallLedger.step DeviceLink.textBytes) (.start quietStore)).taken.map
      fun x => (x.button.action, x.button.state, x.now)) = [(.answer, ringingCall, 2)] ∧
    ((answeredTwice.foldl (CallLedger.step DeviceLink.textBytes) (.start quietStore)).taken.map
      (·.button.capability)).Nodup := by
  have hrun : Runs (CallLedger.step DeviceLink.textBytes) CallLedger.Fresh (.start quietStore)
      answeredTwice _ :=
    .cons ⟨by decide +kernel, by decide +kernel⟩ (.cons ⟨by decide +kernel, by decide +kernel⟩
      (.cons ⟨by decide +kernel, by decide +kernel⟩ (.nil _)))
  exact ⟨by decide +kernel, (call_buttons_single_use rfl hrun).1.1⟩

end Mosh.Background
