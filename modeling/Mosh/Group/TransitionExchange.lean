import Mosh.Deletion.Fragments
import Mosh.Deletion.Index
import Mosh.Group.Intervals
import Mosh.Library.Checked
import Mosh.Library.Run
import Mosh.Library.Table
import Mosh.Recovery.Fragment

/-!
# The evidence for missed epochs

A member that is behind the head of its group replays the commits that it missed
(`private_group_runtime/history/transition_exchange.rs`). It asks the members that are at the head
for the transition out of its own context, receives it in fragments, and installs it when it is
whole. What it holds of a transition is saved under one key, whoever sent it.

* `receive_page`: what a page does;
* `filed_step`: who a saved transfer is from;
* `kept_step`, `overwritten_step`: a step keeps what every holder sent unless it is the first page
  of one holder while a transfer of another one is saved;
* `evidence_kept_exactly`: hence what every run keeps.
-/

namespace Mosh.Group.Exchange

open Checked
open Deletion (DeletionRows)
open History (Context)
open Recovery (FragmentCodec PageFragment PartialRecord fragment fragmentOffset held chunk)
open Run (Runs)
open Std (ExtTreeMap)

/-- The head of a group, with the roster of its organization. -/
structure CurrentHead where
  context : Context
  orgRosterVersion : Option Nat
  orgRosterHash : Option String
  deriving DecidableEq, Repr

/-- A transition, with its commit. -/
structure NativeTransition extends History.NativeTransition where
  originalCommitB64 : String

inductive EvidenceMessage
  | pull (have' : Context) (target : CurrentHead) (offset : Nat)
  | page (have' : Context) (target : CurrentHead) (fragment : PageFragment)
  deriving DecidableEq, Repr

/-- What is held of a transition, and whose pages it is made of. -/
structure EvidenceTransfer where
  source : String
  have' : Context
  target : CurrentHead
  part : Option PartialRecord
  deriving DecidableEq, Repr

/-- The member: its MLS state, and the transfers it saved. -/
structure Member (σ : Type) where
  deletionsContext : String
  crypto : σ
  recovery : ExtTreeMap String EvidenceTransfer compare

/-- A member at the head, and the transitions it retained, as JSON. -/
structure Holder where
  head : CurrentHead
  retainedTransition : Context → Except PrivateGroupError (List UInt8)

/-- MLS, the codecs, and what the organization and the database say to a transition. -/
structure Evidence (σ : Type) where
  codec : FragmentCodec
  decodeJson : List UInt8 → Except PrivateGroupError NativeTransition
  decode : String → Except PrivateGroupError (List UInt8)
  historyContext : σ → Except PrivateGroupError Context
  stageMembership : σ → List UInt8 → Except PrivateGroupError (StagedMembership σ (List UInt8))
  verifyTransitionAuthority : σ → NativeTransition → StagedMembership σ (List UInt8) →
    List UInt8 → Except PrivateGroupError Unit
  commitHistoryAdmission : σ → NativeTransition → StagedMembership σ (List UInt8) →
    List UInt8 → Except PrivateGroupError Unit

variable {σ : Type} (e : Evidence σ)

/-! ## Pulls and pages -/

/-- A head that can replace a context: a later one of the same group, and not too far. -/
def CurrentHead.replaces (head : CurrentHead) (have' : Context) : Bool :=
  head.context.groupId = have'.groupId && have'.epoch < head.context.epoch &&
    head.context.epoch - have'.epoch ≤ 4096

/-- A text without its end. -/
def stripSuffix (suffix text : String) : Option String :=
  if suffix.toList.isSuffixOf text.toList then
    some (String.ofList (text.toList.take (text.toList.length - suffix.toList.length)))
  else none

namespace Member

variable (m : Member σ)

def checkpointKey : String := m.deletionsContext ++ "\x01local"

/-- The key of a transfer. It does not depend on the peer. -/
def evidenceTransferKey (_peer : String) : String :=
  m.checkpointKey ++ "\x01evidence-transfer\x01state"

/-- The saved transfer, if it is that of a peer for a context and a head. -/
def savedTransfer (peer : String) (have' : Context) (target : CurrentHead) :
    Option EvidenceTransfer :=
  m.recovery[m.evidenceTransferKey peer]?.filter fun saved =>
    saved.have' = have' && saved.target = target && saved.source = peer

def saveRecovery (key : String) (state : EvidenceTransfer) : Member σ :=
  { m with recovery := m.recovery.insert key state }

/-- The rows without those that continue a key. -/
def deletePrefix (start : Option String) : ExtTreeMap String EvidenceTransfer compare :=
  start.elim m.recovery fun start => m.recovery.filter fun key _ => !DeletionRows.inRange start key

/-- Ask the sender of a frame for the transition out of the own context. -/
def requestTransitionEvidence (senderKey : String) (head : CurrentHead) :
    Except PrivateGroupError EvidenceMessage := do
  let have' ← e.historyContext m.crypto
  check (.codec "history head cannot replace our branch") (head.replaces have')
  let offset := fragmentOffset ((m.savedTransfer senderKey have' head).bind (·.part))
  .ok (.pull have' head offset)

/-- Replay a transition that is there as a whole. -/
def installTransitionEvidence (have' : Context) (target : CurrentHead) (bytes : List UInt8)
    (partialKey : String) : Except PrivateGroupError (Member σ) := do
  let transition ← e.decodeJson bytes
  let raw ← e.decode transition.originalCommitB64
  let staged ← e.stageMembership m.crypto raw
  check (.codec "evidence commit differs from own branch")
    (staged.prior = have' && transition.prior = staged.prior && transition.next = staged.context &&
      staged.context.epoch ≤ target.context.epoch &&
      (staged.context.epoch ≠ target.context.epoch || staged.context = target.context) &&
      !staged.removed)
  e.verifyTransitionAuthority m.crypto transition staged raw
  e.commitHistoryAdmission m.crypto transition staged raw
  .ok
    { m with
      crypto := staged.next
      recovery := m.deletePrefix (stripSuffix "\x01state" partialKey) }

/-- Take a fragment in, and ask for what is missing then. -/
def acceptTransitionFragment (senderKey : String) (have' : Context) (target : CurrentHead)
    (f : PageFragment) : Except PrivateGroupError (Member σ × Option EvidenceMessage) := do
  let key := m.evidenceTransferKey senderKey
  let state := (m.savedTransfer senderKey have' target).getD ⟨senderKey, have', target, none⟩
  let (part, complete) ← (PartialRecord.accept e.codec state.part f).mapError .codec
  let next ← complete.elim (.ok (m.saveRecovery key { state with part })) fun bytes =>
    m.installTransitionEvidence e have' target bytes key
  let current ← e.historyContext next.crypto
  .ok (next,
    if current ≠ target.context then some (.pull current target (fragmentOffset part)) else none)

/-- Receive a page, in a frame of a sender at a head. -/
def receiveTransitionPage (senderKey : String) (head : CurrentHead) (have' : Context)
    (target : CurrentHead) (f : PageFragment) :
    Except PrivateGroupError (Member σ × Option EvidenceMessage) := do
  let current ← e.historyContext m.crypto
  check (.codec "evidence page cursor differs")
    (current = have' && head = target && target.replaces have')
  m.acceptTransitionFragment e senderKey have' target f

end Member

/-- Answer a pull with the page at its offset. -/
def Holder.answerTransitionEvidence (h : Holder) (have' : Context) (target : CurrentHead)
    (offset : Nat) : Except PrivateGroupError PageFragment := do
  check (.codec "evidence pull head differs") (target = h.head && target.replaces have')
  let bytes ← h.retainedTransition have'
  (fragment e.codec bytes offset).mapError .codec

/-! ## A member and the holders -/

/-- The member with the pulls it sent. `delivered` says how many pages of a holder were delivered,
    in their order, since the member came to its context. -/
structure State (σ : Type) where
  member : Member σ
  sent : List (String × EvidenceMessage) := []
  delivered : String → Nat := fun _ => 0

/-- A frame of a holder makes the member ask, or a page of a holder for a context arrives. -/
inductive Event
  | request (sender : String)
  | page (sender : String) (have' : Context) (offset : Nat)
  deriving DecidableEq, Repr

section System

variable (holders : String → Holder) (target : CurrentHead)

namespace State

/-- The next page of a holder for the own context was delivered. -/
def heard (s : State σ) (sender : String) (have' : Context) (offset : Nat) : State σ :=
  if (e.historyContext s.member.crypto).toOption = some have' ∧
      offset = s.delivered sender * chunk then
    { s with delivered := Function.update s.delivered sender (s.delivered sender + 1) }
  else s

/-- The member moves on. In a new context nothing was delivered yet. -/
def moved (s : State σ) (sender : String) (next : Member σ) (reply : Option EvidenceMessage) :
    State σ where
  member := next
  sent := reply.toList.map (sender, ·) ++ s.sent
  delivered :=
    if (e.historyContext next.crypto).toOption = (e.historyContext s.member.crypto).toOption then
      s.delivered
    else fun _ => 0

def step (s : State σ) : Event → State σ
  | .request sender =>
    match s.member.requestTransitionEvidence e sender target with
    | .error _ => s
    | .ok message => { s with sent := (sender, message) :: s.sent }
  | .page sender have' offset =>
    match (holders sender).answerTransitionEvidence e have' target offset with
    | .error _ => s
    | .ok f =>
      match s.member.receiveTransitionPage e sender (holders sender).head have' target f with
      | .error _ => s.heard e sender have' offset
      | .ok (next, reply) => (s.heard e sender have' offset).moved e sender next reply

/-- A page answers a pull that was sent. -/
def Answers (s : State σ) : Event → Prop
  | .request _ => True
  | .page sender have' offset => (sender, .pull have' target offset) ∈ s.sent

/-- The first page of several is delivered while a transfer from another holder is saved for the
    same context and head. -/
def Overwrites (s : State σ) : Event → Prop
  | .request _ => False
  | .page sender have' offset =>
    e.historyContext s.member.crypto = .ok have' ∧ offset = 0 ∧
      (∃ f, (holders sender).answerTransitionEvidence e have' target offset = .ok f ∧
        chunk < f.total) ∧
      ∃ saved, s.member.recovery[s.member.evidenceTransferKey sender]? = some saved ∧
        saved.have' = have' ∧ saved.target = target ∧ saved.source ≠ sender

/-- What a holder delivered is kept, and it did not deliver everything without the transition being
    installed. -/
def Kept (s : State σ) : Prop :=
  ∀ sender have', e.historyContext s.member.crypto = .ok have' → 0 < s.delivered sender →
    ∃ bytes, (holders sender).retainedTransition have' = .ok bytes ∧
      s.delivered sender * chunk < bytes.length ∧
      s.member.savedTransfer sender have' target = some ⟨sender, have', target,
        held e.codec bytes (s.delivered sender * chunk)⟩

/-- Nothing was asked for yet, and nothing is saved. -/
structure Start (s : State σ) : Prop where
  sent : s.sent = []
  delivered (sender : String) : s.delivered sender = 0
  recovery (sender : String) : s.member.recovery[s.member.evidenceTransferKey sender]? = none

/-- A saved transfer for the own context is of a holder that delivered its first page. -/
def Filed (s : State σ) : Prop :=
  ∀ have' saved, e.historyContext s.member.crypto = .ok have' →
    s.member.recovery[s.member.evidenceTransferKey saved.source]? = some saved →
    saved.have' = have' → saved.target = target → 0 < s.delivered saved.source

end State

/-- The holders retained the genuine transitions: whoever is in the context before can replay it,
    comes to the next epoch, and the organization and the database take it. -/
def Genuine : Prop :=
  ∀ sender x have' bytes, e.historyContext x = .ok have' →
    (holders sender).retainedTransition have' = .ok bytes → target.replaces have' = true →
    ∃ transition raw staged, e.decodeJson bytes = .ok transition ∧
      e.decode transition.originalCommitB64 = .ok raw ∧
      e.stageMembership x raw = .ok staged ∧
      staged.prior = have' ∧ transition.prior = have' ∧ transition.next = staged.context ∧
      staged.context.epoch = have'.epoch + 1 ∧
      (staged.context.epoch = target.context.epoch → staged.context = target.context) ∧
      staged.removed = false ∧
      e.verifyTransitionAuthority x transition staged raw = .ok () ∧
      e.commitHistoryAdmission x transition staged raw = .ok () ∧
      e.historyContext staged.next = .ok staged.context

end System

/-! ## What a page does -/

variable {e} {m next : Member σ} {sender peer : String} {have' : Context} {target : CurrentHead}
  {f : PageFragment} {bytes : List UInt8} {offset : Nat}

theorem stripSuffix_append (text suffix : String) :
    stripSuffix suffix (text ++ suffix) = some text := by
  have hsuffix : suffix.toList.isSuffixOf (text ++ suffix).toList = true := by
    rw [String.toList_append, List.isSuffixOf_iff_suffix]
    exact List.suffix_append _ _
  rw [stripSuffix, if_pos hsuffix, String.toList_append, List.length_append,
    Nat.add_sub_cancel, List.take_left, String.ofList_toList]

theorem Holder.answer_eq_ok {h : Holder} :
    h.answerTransitionEvidence e have' target offset = .ok f ↔
      target = h.head ∧ target.replaces have' = true ∧
        ∃ bytes, h.retainedTransition have' = .ok bytes ∧
          fragment e.codec bytes offset = .ok f := by
  rw [Holder.answerTransitionEvidence]
  simp only [bind_eq_ok, check_eq_ok, mapError_eq_ok, Bool.and_eq_true, decide_eq_true_eq,
    exists_const]
  tauto

namespace Member

theorem savedTransfer_eq_some {saved : EvidenceTransfer} :
    m.savedTransfer peer have' target = some saved ↔
      m.recovery[m.evidenceTransferKey peer]? = some saved ∧ saved.have' = have' ∧
        saved.target = target ∧ saved.source = peer := by
  rw [savedTransfer, Option.filter_eq_some_iff]
  simp only [Bool.and_eq_true, decide_eq_true_eq, and_assoc]

/-- The transfer a page is added to, with a new part. -/
theorem getD_savedTransfer (part : Option PartialRecord) :
    { (m.savedTransfer peer have' target).getD ⟨peer, have', target, none⟩ with part } =
      (⟨peer, have', target, part⟩ : EvidenceTransfer) := by
  rcases h : m.savedTransfer peer have' target with - | ⟨source, have'', target', part'⟩
  · rfl
  · obtain ⟨-, rfl, rfl, rfl⟩ := savedTransfer_eq_some.1 h
    rfl

theorem part_getD_savedTransfer :
    ((m.savedTransfer peer have' target).getD ⟨peer, have', target, none⟩).part =
      (m.savedTransfer peer have' target).bind (·.part) := by
  cases m.savedTransfer peer have' target <;> rfl

/-- The one key belongs to the transfer that is saved, whoever asks. -/
theorem savedTransfer_saveRecovery (part : Option PartialRecord) :
    (m.saveRecovery (m.evidenceTransferKey sender) ⟨sender, have', target, part⟩).savedTransfer
        peer have' target =
      if sender = peer then some ⟨sender, have', target, part⟩ else none := by
  have hrow : (m.recovery.insert (m.evidenceTransferKey sender)
      ⟨sender, have', target, part⟩)[m.evidenceTransferKey peer]? =
        some (⟨sender, have', target, part⟩ : EvidenceTransfer) := by
    rw [Table.getElem?_insert]
    exact if_pos rfl
  rw [savedTransfer]
  change Option.filter _ ((m.recovery.insert (m.evidenceTransferKey sender)
    ⟨sender, have', target, part⟩)[m.evidenceTransferKey peer]?) = _
  rw [hrow, Option.filter_some]
  simp

/-- An installed transition leaves no transfer. -/
theorem getElem?_deletePrefix :
    (m.deletePrefix (stripSuffix "\x01state" (m.evidenceTransferKey sender)))[
      m.evidenceTransferKey peer]? = none := by
  have hkey : m.evidenceTransferKey sender =
      m.checkpointKey ++ "\x01evidence-transfer" ++ "\x01state" := by
    rw [evidenceTransferKey, String.append_assoc]
    rfl
  have hrange : DeletionRows.inRange (m.checkpointKey ++ "\x01evidence-transfer")
      (m.evidenceTransferKey peer) = true := by
    have := DeletionRows.inRange_separator (m.checkpointKey ++ "\x01evidence-transfer") "state"
    rwa [String.append_assoc, String.append_assoc] at this
  rw [hkey, stripSuffix_append, deletePrefix, Option.elim_some, ExtTreeMap.getElem?_filter',
    Option.filter_eq_none_iff]
  intro saved _
  simp [hrange]

theorem install_eq_ok {key : String}
    (h : m.installTransitionEvidence e have' target bytes key = .ok next) :
    next.deletionsContext = m.deletionsContext ∧
      next.recovery = m.deletePrefix (stripSuffix "\x01state" key) := by
  rw [installTransitionEvidence] at h
  simp only [bind_eq_ok] at h
  obtain ⟨transition, -, raw, -, staged, -, -, -, -, -, -, -, h⟩ := h
  obtain rfl := Except.ok.inj h
  exact ⟨rfl, rfl⟩

/-- What is received is added to what is saved, or it is the end of the transition. -/
theorem receive_eq_ok {head : CurrentHead} {reply : Option EvidenceMessage}
    (h : m.receiveTransitionPage e sender head have' target f = .ok (next, reply)) :
    e.historyContext m.crypto = .ok have' ∧ ∃ part complete,
      PartialRecord.accept e.codec ((m.savedTransfer sender have' target).bind (·.part)) f =
        .ok (part, complete) ∧
      ((complete = none ∧ next = m.saveRecovery (m.evidenceTransferKey sender)
          ⟨sender, have', target, part⟩) ∨
        ∃ bytes, complete = some bytes ∧ m.installTransitionEvidence e have' target bytes
          (m.evidenceTransferKey sender) = .ok next) := by
  rw [receiveTransitionPage] at h
  simp only [bind_eq_ok, check_eq_ok, Bool.and_eq_true, decide_eq_true_eq, exists_const] at h
  obtain ⟨current, hcurrent, ⟨⟨rfl, -⟩, -⟩, h⟩ := h
  rw [acceptTransitionFragment] at h
  simp only [bind_eq_ok, mapError_eq_ok, part_getD_savedTransfer, getD_savedTransfer] at h
  obtain ⟨⟨part, complete⟩, haccept, next', hnext, current', -, h⟩ := h
  obtain ⟨rfl, -⟩ := Prod.mk.inj (Except.ok.inj h)
  refine ⟨hcurrent, part, complete, haccept, ?_⟩
  rcases complete with - | bytes
  · exact .inl ⟨rfl, (Except.ok.inj hnext).symm⟩
  · exact .inr ⟨bytes, rfl, hnext⟩

section Receive

variable (hcontext : e.historyContext m.crypto = .ok have') (hahead : target.replaces have' = true)
include hcontext hahead

theorem receive_page :
    m.receiveTransitionPage e sender target have' target f =
      m.acceptTransitionFragment e sender have' target f := by
  rw [receiveTransitionPage, hcontext, ok_bind]
  simp [check, hahead, ok_bind]

theorem receive_refused {error : String}
    (haccept : PartialRecord.accept e.codec
      ((m.savedTransfer sender have' target).bind (·.part)) f =
      .error error) :
    m.receiveTransitionPage e sender target have' target f = .error (.codec error) := by
  rw [receive_page hcontext hahead, acceptTransitionFragment]
  simp only [part_getD_savedTransfer, haccept]
  rfl

/-- A page that does not end the transition is saved, and the next one is asked for. -/
theorem receive_saved {part : Option PartialRecord}
    (haccept : PartialRecord.accept e.codec
      ((m.savedTransfer sender have' target).bind (·.part)) f =
      .ok (part, none)) :
    m.receiveTransitionPage e sender target have' target f =
      .ok (m.saveRecovery (m.evidenceTransferKey sender) ⟨sender, have', target, part⟩,
        some (.pull have' target (fragmentOffset part))) := by
  have hne : have' ≠ target.context := by
    rintro rfl
    simp [CurrentHead.replaces] at hahead
  rw [receive_page hcontext hahead, acceptTransitionFragment]
  simp only [part_getD_savedTransfer, haccept, Except.mapError, ok_bind, getD_savedTransfer,
    Option.elim_none]
  have hcontext' : e.historyContext (m.saveRecovery (m.evidenceTransferKey sender)
      ⟨sender, have', target, part⟩).crypto = .ok have' := hcontext
  rw [hcontext', ok_bind, if_pos hne]

/-- The page that ends a genuine transition brings the member to the next epoch. -/
theorem receive_whole {holders : String → Holder} (hgenuine : Genuine e holders target)
    (hbytes : (holders peer).retainedTransition have' = .ok bytes) {part : Option PartialRecord}
    (haccept : PartialRecord.accept e.codec
      ((m.savedTransfer sender have' target).bind (·.part)) f =
      .ok (part, some bytes)) :
    ∃ next reply context', m.receiveTransitionPage e sender target have' target f =
        .ok (next, reply) ∧ e.historyContext next.crypto = .ok context' ∧ context' ≠ have' := by
  obtain ⟨transition, raw, staged, hjson, hdecode, hstage, hprior, hprior', hnext, hepoch, hlast,
    hremoved, hauthority, hcommit, hcontext'⟩ :=
      hgenuine peer m.crypto have' bytes hcontext hbytes hahead
  have hle : staged.context.epoch ≤ target.context.epoch := by
    rw [CurrentHead.replaces, Bool.and_eq_true, Bool.and_eq_true] at hahead
    have := of_decide_eq_true hahead.1.2
    omega
  have hchecks : (staged.prior = have' && transition.prior = staged.prior &&
      transition.next = staged.context && staged.context.epoch ≤ target.context.epoch &&
      (staged.context.epoch ≠ target.context.epoch || staged.context = target.context) &&
      !staged.removed) = true := by
    simp only [Bool.and_eq_true, Bool.or_eq_true, decide_eq_true_eq, Bool.not_eq_true']
    exact ⟨⟨⟨⟨⟨hprior, hprior'.trans hprior.symm⟩, hnext⟩, hle⟩,
      Classical.or_iff_not_imp_left.2 fun h => hlast (not_not.1 h)⟩, hremoved⟩
  refine ⟨{ m with
      crypto := staged.next
      recovery := m.deletePrefix (stripSuffix "\x01state" (m.evidenceTransferKey sender)) },
    if staged.context ≠ target.context then
      some (.pull staged.context target (fragmentOffset part)) else none,
    staged.context, ?_, hcontext', ?_⟩
  · rw [receive_page hcontext hahead, acceptTransitionFragment]
    simp only [part_getD_savedTransfer, haccept, Except.mapError, ok_bind, Option.elim_some,
      installTransitionEvidence, hjson, hdecode, hstage, check, hchecks, if_true, hauthority,
      hcommit, hcontext']
  · rintro heq
    rw [heq] at hepoch
    omega

end Receive

end Member

/-! ## What a step keeps -/

namespace State

variable {holders : String → Holder} {s : State σ} {event : Event}

theorem member_heard : (s.heard e sender have' offset).member = s.member := by
  rw [heard]
  split <;> rfl

theorem le_delivered_heard (peer : String) :
    s.delivered peer ≤ (s.heard e sender have' offset).delivered peer := by
  rw [heard]
  split
  · change _ ≤ Function.update s.delivered sender (s.delivered sender + 1) peer
    rcases eq_or_ne peer sender with rfl | hne
    · rw [Function.update_self]
      exact Nat.le_succ _
    · rw [Function.update_of_ne hne]
  · exact le_rfl

theorem delivered_heard_of_ne (hne : peer ≠ sender) :
    (s.heard e sender have' offset).delivered peer = s.delivered peer := by
  rw [heard]
  split
  · exact Function.update_of_ne hne ..
  · rfl

/-- The next page of a holder was delivered. -/
theorem delivered_heard (hcontext : e.historyContext s.member.crypto = .ok have')
    (hoffset : offset = s.delivered sender * chunk) :
    (s.heard e sender have' offset).delivered sender = s.delivered sender + 1 := by
  rw [heard, if_pos ⟨by rw [hcontext]; rfl, hoffset⟩]
  exact Function.update_self ..

theorem heard_elsewhere (hoffset : offset ≠ s.delivered sender * chunk) :
    s.heard e sender have' offset = s :=
  if_neg fun h => hoffset h.2

theorem heard_of_context {context' : Context}
    (hcontext : e.historyContext s.member.crypto = .ok context') (hne : context' ≠ have') :
    s.heard e sender have' offset = s := by
  refine if_neg fun h => hne ?_
  rw [hcontext] at h
  exact Option.some.inj h.1

theorem delivered_moved_of_eq {reply : Option EvidenceMessage}
    (h : e.historyContext next.crypto = e.historyContext s.member.crypto) :
    (s.moved e sender next reply).delivered = s.delivered :=
  if_pos (by rw [h])

/-- Nothing was delivered yet in a new context. -/
theorem delivered_moved_of_ne {reply : Option EvidenceMessage} {context context' : Context}
    (hcontext : e.historyContext s.member.crypto = .ok context)
    (hcontext' : e.historyContext next.crypto = .ok context') (hne : context' ≠ context) :
    (s.moved e sender next reply).delivered = fun _ => 0 := by
  refine if_neg fun h => hne ?_
  rw [hcontext, hcontext'] at h
  exact Option.some.inj h

/-- Nothing is saved of a holder that delivered nothing. -/
theorem savedTransfer_eq_none (h : s.Filed e target)
    (hcontext : e.historyContext s.member.crypto = .ok have') (hzero : s.delivered sender = 0) :
    s.member.savedTransfer sender have' target = none := by
  refine Option.eq_none_iff_forall_ne_some.2 fun saved hsome => ?_
  obtain ⟨hrow, hhave, htarget, rfl⟩ := Member.savedTransfer_eq_some.1 hsome
  exact (h have' saved hcontext hrow hhave htarget).ne' hzero

/-- Who sent a saved transfer delivered its first page. -/
theorem filed_step (hc : e.codec.Lawful) (h : s.Filed e target) (event : Event) :
    (s.step e holders target event).Filed e target := by
  cases event with
  | request sender =>
    rw [step]
    split
    · exact h
    · exact h
  | page sender have' offset =>
    rw [step]
    split
    · exact h
    · next f hanswer =>
      split
      · -- A refused page may be the next one, but nothing is saved.
        intro context saved hcontext hsaved hhave htarget
        rw [member_heard] at hcontext hsaved
        exact (h context saved hcontext hsaved hhave htarget).trans_le (le_delivered_heard _)
      · next next reply hreceive =>
        intro context saved hcontext hsaved hhave htarget
        obtain ⟨hcontext', part, complete, haccept, hnext⟩ := Member.receive_eq_ok hreceive
        rcases hnext with ⟨-, rfl⟩ | ⟨bytes, -, hinstall⟩
        · -- The transfer is that of the sender of the page now.
          change (s.member.recovery.insert (s.member.evidenceTransferKey sender)
            ⟨sender, have', target, part⟩)[s.member.evidenceTransferKey sender]? = _ at hsaved
          rw [Table.getElem?_insert, if_pos rfl] at hsaved
          obtain rfl := Option.some.inj hsaved
          rw [delivered_moved_of_eq (by rw [member_heard]; rfl)]
          rcases Nat.eq_zero_or_pos (s.delivered sender) with hzero | hpos
          · -- Nothing of the sender was saved, so this is its first page.
            have hnone : s.member.savedTransfer sender have' target = none :=
              savedTransfer_eq_none h hcontext' hzero
            obtain ⟨-, -, bytes, -, hfragment⟩ := Holder.answer_eq_ok.1 hanswer
            have hoffset : offset = 0 := by
              by_contra hne
              have := Recovery.accept_elsewhere hc (Nat.zero_le _) hne hfragment
              rw [Recovery.held_zero] at this
              rw [hnone, Option.bind_none, this] at haccept
              cases haccept
            rw [delivered_heard hcontext' (by rw [hoffset, hzero, Nat.zero_mul])]
            exact Nat.succ_pos _
          · exact hpos.trans_le (le_delivered_heard _)
        · -- An installed transition leaves no transfer.
          obtain ⟨hdeletions, hrecovery⟩ := Member.install_eq_ok hinstall
          change next.recovery[_]? = _ at hsaved
          have hkey : next.evidenceTransferKey saved.source =
              s.member.evidenceTransferKey saved.source := by
            simp only [Member.evidenceTransferKey, Member.checkpointKey, hdeletions]
          rw [State.moved, hrecovery, hkey, Member.getElem?_deletePrefix] at hsaved
          cases hsaved

/-- What the next page of a holder is added to. -/
theorem part_savedTransfer (hfiled : s.Filed e target) (hkept : s.Kept e holders target)
    (hcontext : e.historyContext s.member.crypto = .ok have')
    (hbytes : (holders sender).retainedTransition have' = .ok bytes) :
    s.delivered sender * chunk ≤ bytes.length ∧
      (s.member.savedTransfer sender have' target).bind (·.part) =
        held e.codec bytes (s.delivered sender * chunk) := by
  rcases Nat.eq_zero_or_pos (s.delivered sender) with hzero | hpos
  · rw [savedTransfer_eq_none hfiled hcontext hzero, hzero, Nat.zero_mul, Recovery.held_zero]
    exact ⟨Nat.zero_le _, rfl⟩
  · obtain ⟨bytes', hbytes', hlt, hsaved⟩ := hkept sender have' hcontext hpos
    obtain rfl := Except.ok.inj (hbytes.symm.trans hbytes')
    rw [hsaved]
    exact ⟨hlt.le, rfl⟩

/-- After the next page of a holder that does not end the transition, the transfer of that holder
    is saved. -/
theorem kept_saved (hcontext : e.historyContext s.member.crypto = .ok have')
    (hbytes : (holders sender).retainedTransition have' = .ok bytes)
    (hmore : s.delivered sender * chunk + chunk < bytes.length)
    (hoffset : offset = s.delivered sender * chunk) {reply : Option EvidenceMessage}
    (hothers : ∀ peer, peer ≠ sender → s.delivered peer = 0) :
    ((s.heard e sender have' offset).moved e sender
      (s.member.saveRecovery (s.member.evidenceTransferKey sender) ⟨sender, have', target,
        held e.codec bytes (s.delivered sender * chunk + chunk)⟩) reply).Kept e holders target := by
  intro peer context hcontext' hpos
  obtain rfl := Except.ok.inj (hcontext.symm.trans hcontext')
  rw [delivered_moved_of_eq (by rw [member_heard]; rfl)] at hpos ⊢
  rcases eq_or_ne peer sender with rfl | hne
  · rw [delivered_heard hcontext hoffset, Nat.succ_mul]
    refine ⟨bytes, hbytes, hmore, ?_⟩
    exact Member.savedTransfer_saveRecovery _ |>.trans (if_pos rfl)
  · rw [delivered_heard_of_ne hne, hothers peer hne] at hpos
    exact absurd hpos (lt_irrefl 0)

/-- A step keeps what every holder sent if it does not overwrite it. -/
theorem kept_step (hc : e.codec.Lawful) (hgenuine : Genuine e holders target)
    (hfiled : s.Filed e target) (hkept : s.Kept e holders target)
    (hspares : ¬ s.Overwrites e holders target event) :
    (s.step e holders target event).Kept e holders target := by
  cases event with
  | request sender =>
    rw [step]
    split
    · exact hkept
    · exact hkept
  | page sender have' offset =>
    rw [step]
    split
    · exact hkept
    next f hanswer =>
    obtain ⟨hhead, hahead, bytes, hbytes, hfragment⟩ := Holder.answer_eq_ok.1 hanswer
    by_cases hcontext : e.historyContext s.member.crypto = .ok have'
    swap
    · -- A page for another context is refused.
      have hheard : s.heard e sender have' offset = s := by
        refine if_neg fun h => hcontext ?_
        rcases hresult : e.historyContext s.member.crypto with error | context
        · rw [hresult] at h
          cases h.1
        · rw [hresult] at h
          rw [Option.some.inj h.1]
      split
      · rw [hheard]
        exact hkept
      · next next reply hreceive => exact absurd (Member.receive_eq_ok hreceive).1 hcontext
    obtain ⟨hle, hpart⟩ := part_savedTransfer hfiled hkept hcontext hbytes
    by_cases hoffset : offset = s.delivered sender * chunk
    swap
    · -- So is a page that is not the next one.
      have haccept := Recovery.accept_elsewhere hc hle hoffset hfragment
      rw [← hpart] at haccept
      rw [← hhead, Member.receive_refused hcontext hahead haccept]
      simp only
      rw [heard_elsewhere hoffset]
      exact hkept
    have haccept := Recovery.accept_fragment hc hle (hoffset ▸ hfragment)
    rw [← hpart] at haccept
    split at haccept
    · next hmore =>
      rw [← hhead, Member.receive_saved hcontext hahead haccept]
      refine kept_saved hcontext hbytes hmore hoffset fun other hne => ?_
      -- A transfer of another holder would be overwritten by this page.
      by_contra hpos
      obtain ⟨bytes', -, -, hother⟩ := hkept other have' hcontext (Nat.pos_of_ne_zero hpos)
      obtain ⟨hrow, -, -, -⟩ := Member.savedTransfer_eq_some.1 hother
      rcases Nat.eq_zero_or_pos (s.delivered sender) with hzero | hown
      · have htotal := (Recovery.decode_of_fragment hc hfragment).2.1
        have hmany : chunk < f.total := by
          rw [hzero] at hmore
          omega
        exact hspares ⟨hcontext, by rw [hoffset, hzero, Nat.zero_mul], ⟨f, hanswer, hmany⟩,
          _, hrow, rfl, rfl, hne⟩
      · obtain ⟨bytes'', -, -, hsaved⟩ := hkept sender have' hcontext hown
        obtain ⟨hrow', -, -, -⟩ := Member.savedTransfer_eq_some.1 hsaved
        have heq := Option.some.inj (hrow.symm.trans hrow')
        exact hne (congrArg EvidenceTransfer.source heq)
    · obtain ⟨next, reply, context', hreceive, hcontext', hne⟩ :=
        Member.receive_whole hcontext hahead hgenuine hbytes haccept
      rw [← hhead, hreceive]
      intro peer context hcontext₁ hpos
      change 0 < ((s.heard e sender have' offset).moved e sender next reply).delivered peer at hpos
      rw [delivered_moved_of_ne (by rw [member_heard]; exact hcontext) hcontext' hne] at hpos
      exact absurd hpos (lt_irrefl 0)

/-- The first of several pages, of a holder of whom nothing is saved, is saved. -/
theorem step_first (hc : e.codec.Lawful) (hcontext : e.historyContext s.member.crypto = .ok have')
    (hanswer : (holders sender).answerTransitionEvidence e have' target 0 = .ok f)
    (hbytes : (holders sender).retainedTransition have' = .ok bytes)
    (hmany : chunk < bytes.length) (hnone : s.member.savedTransfer sender have' target = none) :
    s.step e holders target (.page sender have' 0) =
      (s.heard e sender have' 0).moved e sender
        (s.member.saveRecovery (s.member.evidenceTransferKey sender)
          ⟨sender, have', target, held e.codec bytes chunk⟩)
        (some (.pull have' target chunk)) := by
  obtain ⟨hhead, hahead, bytes', hbytes', hfragment⟩ := Holder.answer_eq_ok.1 hanswer
  obtain rfl := Except.ok.inj (hbytes.symm.trans hbytes')
  have haccept := Recovery.accept_fragment hc (Nat.zero_le _) hfragment
  rw [Nat.zero_add, if_pos hmany, Recovery.held_zero] at haccept
  have hpart : PartialRecord.accept e.codec
      ((s.member.savedTransfer sender have' target).bind (·.part)) f =
        .ok (held e.codec bytes chunk, none) := by
    rw [hnone]
    exact haccept
  have hreceive := Member.receive_saved hcontext hahead hpart
  rw [Recovery.fragmentOffset_held hmany.le] at hreceive
  rw [step, hanswer]
  simp only
  rw [← hhead, hreceive]

/-- After the first page of one holder nothing is kept of another one. -/
theorem overwritten_step (hc : e.codec.Lawful) (hfiled : s.Filed e target)
    (h : s.Overwrites e holders target event) :
    ¬ (s.step e holders target event).Kept e holders target := by
  cases event with
  | request sender => exact absurd h id
  | page sender have' offset =>
    obtain ⟨hcontext, rfl, ⟨f, hanswer, hmany⟩, saved, hrow, hhave, htarget, hne⟩ := h
    obtain ⟨hhead, hahead, bytes, hbytes, hfragment⟩ := Holder.answer_eq_ok.1 hanswer
    rw [(Recovery.decode_of_fragment hc hfragment).2.1] at hmany
    have hnone : s.member.savedTransfer sender have' target = none := by
      refine Option.eq_none_iff_forall_ne_some.2 fun other hother => hne ?_
      obtain ⟨hrow', -, -, hsource⟩ := Member.savedTransfer_eq_some.1 hother
      rw [Option.some.inj (hrow.symm.trans hrow'), hsource]
    have hpos : 0 < s.delivered saved.source := hfiled have' saved hcontext hrow hhave htarget
    rw [step_first hc hcontext hanswer hbytes hmany hnone]
    intro hkept
    have hdelivered : 0 < ((s.heard e sender have' 0).moved e sender
        (s.member.saveRecovery (s.member.evidenceTransferKey sender)
          ⟨sender, have', target, held e.codec bytes chunk⟩)
        (some (.pull have' target chunk))).delivered saved.source := by
      rw [delivered_moved_of_eq (by rw [member_heard]; rfl), delivered_heard_of_ne hne]
      exact hpos
    obtain ⟨bytes', -, -, hsaved⟩ := hkept saved.source have' hcontext hdelivered
    have hlost : (s.member.saveRecovery (s.member.evidenceTransferKey sender)
        ⟨sender, have', target, held e.codec bytes chunk⟩).savedTransfer saved.source have' target =
          none :=
      (Member.savedTransfer_saveRecovery _).trans (if_neg (Ne.symm hne))
    cases hsaved.symm.trans hlost

/-! ## Runs -/

theorem Start.filed (h : s.Start) : s.Filed e target := by
  intro have' saved _ hsaved
  rw [h.recovery] at hsaved
  cases hsaved

theorem Start.kept (h : s.Start) : s.Kept e holders target := by
  intro sender have' _ hpos
  rw [h.delivered] at hpos
  exact absurd hpos (lt_irrefl 0)

end State

open State

/-! ## Two holders -/

namespace State

variable {holders : String → Holder} {s : State σ}

/-- A page after the first one is refused if nothing of its holder is saved. -/
theorem step_refused (hc : e.codec.Lawful) (hcontext : e.historyContext s.member.crypto = .ok have')
    (hanswer : (holders sender).answerTransitionEvidence e have' target offset = .ok f)
    (hoffset : offset ≠ 0) (hnone : s.member.savedTransfer sender have' target = none) :
    s.step e holders target (.page sender have' offset) = s.heard e sender have' offset := by
  obtain ⟨hhead, hahead, bytes, -, hfragment⟩ := Holder.answer_eq_ok.1 hanswer
  have haccept := Recovery.accept_elsewhere hc (Nat.zero_le _) hoffset hfragment
  rw [Recovery.held_zero] at haccept
  have hpart : PartialRecord.accept e.codec
      ((s.member.savedTransfer sender have' target).bind (·.part)) f =
        .error "history fragment window differs" := by
    rw [hnone]
    exact haccept
  rw [step, hanswer]
  simp only
  rw [← hhead, Member.receive_refused hcontext hahead hpart]

/-- Who has nothing of a holder asks it for its first page. -/
theorem step_request (hcontext : e.historyContext s.member.crypto = .ok have')
    (hahead : target.replaces have' = true)
    (hnone : s.member.savedTransfer sender have' target = none) :
    s.step e holders target (.request sender) =
      { s with sent := (sender, .pull have' target 0) :: s.sent } := by
  rw [step, Member.requestTransitionEvidence, hcontext, ok_bind, hnone]
  simp only [check, hahead, if_true, ok_bind]
  rfl

end State

/-- Nothing is saved, or the beginning of what one holder sends. -/
structure Undecided (e : Evidence σ) (target : CurrentHead) (have' : Context) (s : State σ)
    (source : Option String) : Prop where
  context : e.historyContext s.member.crypto = .ok have'
  others : ∀ peer, source ≠ some peer → s.member.savedTransfer peer have' target = none

namespace Undecided

variable (holders : String → Holder) {s : State σ} {source : Option String}

theorem request (h : Undecided e target have' s source) (hahead : target.replaces have' = true)
    (sender : String) (hne : source ≠ some sender) :
    ∃ t, s.step e holders target (.request sender) = t ∧ Undecided e target have' t source ∧
      t.delivered = s.delivered ∧ t.sent = (sender, .pull have' target 0) :: s.sent :=
  ⟨_, step_request h.context hahead (h.others sender hne), ⟨h.context, h.others⟩, rfl, rfl⟩

theorem first (h : Undecided e target have' s source) (hc : e.codec.Lawful) (sender : String)
    (hanswer : (holders sender).answerTransitionEvidence e have' target 0 = .ok f)
    (hbytes : (holders sender).retainedTransition have' = .ok bytes)
    (hmany : chunk < bytes.length) (hne : source ≠ some sender) :
    ∃ t, s.step e holders target (.page sender have' 0) = t ∧
      Undecided e target have' t (some sender) ∧
      t.delivered = (s.heard e sender have' 0).delivered ∧
      t.sent = (sender, .pull have' target chunk) :: s.sent := by
  refine ⟨_, step_first hc h.context hanswer hbytes hmany (h.others sender hne), ?_⟩
  refine ⟨⟨h.context, fun peer hpeer => ?_⟩, delivered_moved_of_eq (by rw [member_heard]; rfl), ?_⟩
  · exact (Member.savedTransfer_saveRecovery _).trans (if_neg fun heq => hpeer (congrArg some heq))
  · rw [moved, heard]
    split <;> rfl

theorem refused (h : Undecided e target have' s source) (hc : e.codec.Lawful) (sender : String)
    (hanswer : (holders sender).answerTransitionEvidence e have' target offset = .ok f)
    (hoffset : offset ≠ 0) (hne : source ≠ some sender) :
    ∃ t, s.step e holders target (.page sender have' offset) = t ∧
      Undecided e target have' t source ∧
      t.delivered = (s.heard e sender have' offset).delivered ∧ t.sent = s.sent := by
  refine ⟨_, step_refused hc h.context hanswer hoffset (h.others sender hne), ?_⟩
  rw [heard]
  split <;> exact ⟨⟨h.context, h.others⟩, rfl, rfl⟩

end Undecided

def behind : Context := ⟨[1], 4, "behind"⟩
def groupHead : CurrentHead := ⟨⟨[1], 5, "head"⟩, none, none⟩

/-- A group of which one commit was missed. -/
def replay : Evidence Context where
  codec := Deletion.FragmentBuffer.plainPages.toFragmentCodec
  decodeJson _ := .ok ⟨⟨behind, groupHead.context, [], []⟩, "Y29tbWl0"⟩
  decode _ := .ok [99]
  historyContext := .ok
  stageMembership x _ := .ok ⟨groupHead.context, x, groupHead.context, [], false⟩
  verifyTransitionAuthority _ _ _ _ := .ok ()
  commitHistoryAdmission _ _ _ _ := .ok ()

/-- A member that retained a transition of two pages. -/
def twoPages : Holder where
  head := groupHead
  retainedTransition context :=
    if context = behind then .ok (List.replicate 4000 0) else .error .notReady

def behindStart : State Context where
  member := ⟨"private_group room", behind, ∅⟩

/-- Two holders are asked, and each page of one comes after one of the other. -/
def rivalRun : List Event :=
  [.request "anna", .request "bob", .page "anna" behind 0, .page "bob" behind 0,
    .page "anna" behind chunk, .request "anna", .page "anna" behind 0, .page "bob" behind chunk]

theorem replay_genuine : Genuine replay (fun _ => twoPages) groupHead := by
  intro sender x have' bytes hcontext hbytes hahead
  obtain rfl := Except.ok.inj hcontext
  change (if x = behind then _ else _) = _ at hbytes
  split at hbytes
  · next heq =>
    subst heq
    exact ⟨_, _, _, rfl, rfl, rfl, rfl, rfl, rfl, rfl, fun _ => rfl, rfl, rfl, rfl, rfl⟩
  · cases hbytes

theorem behindStart_start : behindStart.Start where
  sent := rfl
  delivered _ := rfl
  recovery _ := ExtTreeMap.getElem?_empty

theorem retained_twoPages : twoPages.retainedTransition behind = .ok (List.replicate 4000 0) := by
  change (if behind = behind then Except.ok (List.replicate 4000 0) else .error .notReady) = _
  exact if_pos rfl

theorem answer_twoPages (hoffset : offset = 0 ∨ offset = chunk) :
    ∃ f, twoPages.answerTransitionEvidence replay behind groupHead offset = .ok f := by
  have hlength : (List.replicate 4000 (0 : UInt8)).length = 4000 := List.length_replicate
  have hfragment := Recovery.fragment_eq_ok (c := replay.codec) (n := offset)
    (List.ne_nil_of_length_pos (by rw [hlength]; decide))
    (by rw [hlength]; decide) (by rw [hlength]; rcases hoffset with rfl | rfl <;> decide)
    (by rcases hoffset with rfl | rfl <;> decide)
  exact ⟨_, Holder.answer_eq_ok.2 ⟨rfl, by decide, _, retained_twoPages, hfragment⟩⟩

/-- What the holders sent of a transition is kept, and once one of them delivered it, it is
    installed, in every run in which no first page of several arrives while a transfer of another
    holder is saved. Such a page takes from the other holder what it sent. -/
theorem evidence_kept_exactly {holders : String → Holder} (hc : e.codec.Lawful)
    (hgenuine : Genuine e holders target) {start : State σ} (hstart : start.Start) :
    (∀ events s, Runs (step e holders target)
        (fun s event => s.Answers target event ∧ ¬ s.Overwrites e holders target event)
        start events s → s.Kept e holders target) ∧
      ∀ events s event, Runs (step e holders target) (fun s event => s.Answers target event)
        start events s → s.Overwrites e holders target event →
          ¬ (s.step e holders target event).Kept e holders target := by
  constructor
  · intro events s hrun
    have hinvariant := hrun.invariant (P := fun s => s.Filed e target ∧ s.Kept e holders target)
      (fun s event hguard h =>
        ⟨filed_step hc h.1 event, kept_step hc hgenuine h.1 h.2 hguard.2⟩)
      ⟨hstart.filed, hstart.kept⟩
    exact hinvariant.2
  · intro events s event hrun hoverwrites
    have hfiled := hrun.invariant (P := fun s => s.Filed e target)
      (fun s event _ h => filed_step hc h event) hstart.filed
    exact overwritten_step hc hfiled hoverwrites

/-- What one holder sent is kept. -/
theorem evidence_kept_first_page :
    ∃ s, Runs (step replay (fun _ => twoPages) groupHead)
        (fun s event => s.Answers groupHead event ∧
          ¬ s.Overwrites replay (fun _ => twoPages) groupHead event)
        behindStart [.request "anna", .page "anna" behind 0] s ∧
      s.Kept replay (fun _ => twoPages) groupHead := by
  have hc : replay.codec.Lawful := Deletion.FragmentBuffer.plainPages_lawful.toLawful
  have h₀ : Undecided replay groupHead behind behindStart none :=
    ⟨rfl, fun peer _ => by
      rw [Member.savedTransfer, behindStart_start.recovery]
      rfl⟩
  obtain ⟨s₁, e₁, h₁, d₁, p₁⟩ := h₀.request (fun _ => twoPages) (by decide) "anna" nofun
  have hmember : s₁.member = behindStart.member := by
    rw [← e₁, step_request rfl (by decide) (h₀.others _ nofun)]
  have hrun : Runs (step replay (fun _ => twoPages) groupHead)
      (fun s event => s.Answers groupHead event ∧
        ¬ s.Overwrites replay (fun _ => twoPages) groupHead event)
      behindStart [.request "anna", .page "anna" behind 0]
        (s₁.step replay (fun _ => twoPages) groupHead (.page "anna" behind 0)) := by
    refine .cons ⟨trivial, id⟩ ?_
    rw [e₁]
    refine .single ⟨by simp [Answers, p₁], ?_⟩
    rintro ⟨-, -, -, saved, hsaved, -⟩
    rw [hmember, behindStart_start.recovery] at hsaved
    cases hsaved
  exact ⟨_, hrun, (evidence_kept_exactly hc replay_genuine behindStart_start).1 _ _ hrun⟩

/-- Both holders delivered the transition, every page of it in its order, and it is not
    installed. -/
theorem rivals_undo :
    Genuine replay (fun _ => twoPages) groupHead ∧ behindStart.Start ∧
      ∃ s, Runs (step replay (fun _ => twoPages) groupHead)
          (fun s event => s.Answers groupHead event) behindStart rivalRun s ∧
        replay.historyContext s.member.crypto = .ok behind ∧
        ∀ sender ∈ ["anna", "bob"], ∃ bytes, twoPages.retainedTransition behind = .ok bytes ∧
          bytes.length ≤ s.delivered sender * chunk := by
  obtain ⟨f, hfirst⟩ := answer_twoPages (.inl rfl)
  obtain ⟨g, hsecond⟩ := answer_twoPages (.inr rfl)
  have hc : replay.codec.Lawful := Deletion.FragmentBuffer.plainPages_lawful.toLawful
  have hahead : groupHead.replaces behind = true := by decide
  have hmany : chunk < (List.replicate 4000 (0 : UInt8)).length := by
    rw [List.length_replicate]
    decide
  have h₀ : Undecided replay groupHead behind behindStart none :=
    ⟨rfl, fun peer _ => by
      rw [Member.savedTransfer, behindStart_start.recovery]
      rfl⟩
  let holders : String → Holder := fun _ => twoPages
  -- Both are asked.
  obtain ⟨s₁, e₁, h₁, d₁, p₁⟩ := h₀.request holders hahead "anna" nofun
  obtain ⟨s₂, e₂, h₂, d₂, p₂⟩ := h₁.request holders hahead "bob" nofun
  -- The first page of Bob takes the place of that of Anna, so her second one is refused.
  obtain ⟨s₃, e₃, h₃, d₃, p₃⟩ := h₂.first holders hc "anna" hfirst retained_twoPages hmany nofun
  obtain ⟨s₄, e₄, h₄, d₄, p₄⟩ :=
    h₃.first holders hc "bob" hfirst retained_twoPages hmany (by decide)
  obtain ⟨s₅, e₅, h₅, d₅, p₅⟩ := h₄.refused holders hc "anna" hsecond (by decide) (by decide)
  -- Anna is asked again, and then it is the second page of Bob that is refused.
  obtain ⟨s₆, e₆, h₆, d₆, p₆⟩ := h₅.request holders hahead "anna" (by decide)
  obtain ⟨s₇, e₇, h₇, d₇, p₇⟩ :=
    h₆.first holders hc "anna" hfirst retained_twoPages hmany (by decide)
  obtain ⟨s₈, e₈, h₈, d₈, p₈⟩ := h₇.refused holders hc "bob" hsecond (by decide) (by decide)
  -- What was delivered, counted.
  have a₂ : s₂.delivered "anna" = 0 := by rw [d₂, d₁]; rfl
  have b₂ : s₂.delivered "bob" = 0 := by rw [d₂, d₁]; rfl
  have a₃ : s₃.delivered "anna" = 1 := by
    rw [d₃, delivered_heard h₂.context (by rw [a₂, Nat.zero_mul]), a₂]
  have b₃ : s₃.delivered "bob" = 0 := by rw [d₃, delivered_heard_of_ne (by decide), b₂]
  have a₄ : s₄.delivered "anna" = 1 := by rw [d₄, delivered_heard_of_ne (by decide), a₃]
  have b₄ : s₄.delivered "bob" = 1 := by
    rw [d₄, delivered_heard h₃.context (by rw [b₃, Nat.zero_mul]), b₃]
  have a₅ : s₅.delivered "anna" = 2 := by
    rw [d₅, delivered_heard h₄.context (by rw [a₄, Nat.one_mul]), a₄]
  have b₅ : s₅.delivered "bob" = 1 := by rw [d₅, delivered_heard_of_ne (by decide), b₄]
  have a₇ : s₇.delivered "anna" = 2 := by
    rw [d₇, heard_elsewhere (by rw [d₆, a₅]; decide), d₆, a₅]
  have b₇ : s₇.delivered "bob" = 1 := by rw [d₇, delivered_heard_of_ne (by decide), d₆, b₅]
  have a₈ : s₈.delivered "anna" = 2 := by rw [d₈, delivered_heard_of_ne (by decide), a₇]
  have b₈ : s₈.delivered "bob" = 2 := by
    rw [d₈, delivered_heard h₇.context (by rw [b₇, Nat.one_mul]), b₇]
  have hlength : (List.replicate 4000 (0 : UInt8)).length ≤ 2 * chunk := by
    rw [List.length_replicate]
    decide
  refine ⟨replay_genuine, behindStart_start, s₈, ?_, h₈.context, ?_⟩
  · refine .cons trivial ?_
    rw [e₁]
    refine .cons trivial ?_
    rw [e₂]
    refine .cons (by simp [Answers, p₂, p₁]) ?_
    rw [e₃]
    refine .cons (by simp [Answers, p₃, p₂]) ?_
    rw [e₄]
    refine .cons (by simp [Answers, p₄, p₃]) ?_
    rw [e₅]
    refine .cons trivial ?_
    rw [e₆]
    refine .cons (by simp [Answers, p₆]) ?_
    rw [e₇]
    refine .cons (by simp [Answers, p₇, p₆, p₅, p₄]) ?_
    rw [e₈]
    exact .nil _
  · intro sender hsender
    refine ⟨_, retained_twoPages, hlength.trans (Nat.mul_le_mul_right _ ?_)⟩
    rcases List.mem_cons.1 hsender with rfl | hsender
    · exact a₈.ge
    · rw [List.mem_singleton.1 hsender]
      exact b₈.ge

end Mosh.Group.Exchange
