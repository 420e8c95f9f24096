import Mosh.Group.Sequencing

/-!
# The session of a plain group

What a joined member of a plain group does with a control frame (`commits.rs`,
`control.rs`, `org_gate.rs`, `history/own_transition.rs`, `history/admission.rs`,
`history/transition_exchange.rs`): merge commits in epoch order, ask the admin
for a replay when a gap remains, merge a replay, admit a member, commit a
departure, and re-derive the admin from the tree once the frame is handled.

The MLS state moves in four ways, the calls of a session (`Call`): through the
sequencer for a received commit or a replay, and past it for an own change and
for evidence of a transition. `handleControl_cases` says that a frame comes down
to at most one call.

A session also records the frames it tried to publish (`sent`); a refusal by the
network does not take them back.
-/

namespace Mosh.Group

open Std (ExtTreeMap)

variable {σ Text Bytes Fp Tree : Type}

/-- The control frames of a plain group that move the tree, or ask for what does. -/
inductive ControlEnvelope (Text Fp : Type)
  | keyPackage (participantId : String) (keyPackageB64 : Text)
  | welcome (forParticipantId : String) (fromFingerprint : Fp) (commitB64 : Text)
  | commit (fromFingerprint : Fp) (commitB64 : Text)
  | selfRemove (fromFingerprint : Fp) (proposalB64 : Text)
  | resyncRequest (fromFingerprint : Fp) (haveEpoch : Nat)
  | resyncResponse (forFingerprint : Fp) (commits : List (ResyncCommit Text))
  deriving DecidableEq, Repr

/-- The session of a joined member of a plain group. `sent` is not in the program:
    it records the frames the session tried to publish, oldest first. -/
structure GroupSession (σ Text Bytes Fp : Type) where
  groupId : String
  participantId : String
  member : Member σ Text Bytes
  isAdmin : Bool
  currentAdminFingerprint : Fp
  needsRejoin : Bool
  sent : List (ControlEnvelope Text Fp)

/-- The session of a member that has just joined. -/
def GroupSession.joined (groupId participantId : String) (crypto : σ) (isAdmin : Bool)
    (currentAdminFingerprint : Fp) : GroupSession σ Text Bytes Fp :=
  ⟨groupId, participantId, .joined crypto, isAdmin, currentAdminFingerprint, false, []⟩

variable (mls : Mls σ Text Bytes Fp Tree) (faults : Faults σ Bytes)

/-- Try to publish a frame. -/
def publishControl (g : GroupSession σ Text Bytes Fp) (frame : ControlEnvelope Text Fp) :
    Except PrivateGroupError Unit × GroupSession σ Text Bytes Fp :=
  (faults.publish.elim (.ok ()) .error, { g with sent := g.sent ++ [frame] })

/-! ## Commits and replays -/

/-- Ask for a replay if a gap remains, once for every epoch. The reservation is
    undone when the request could not be published. -/
def requestResyncIfGapped (g : GroupSession σ Text Bytes Fp) :
    Except PrivateGroupError Unit × GroupSession σ Text Bytes Fp :=
  match mls.epoch g.member.crypto with
  | .none => (.ok (), g)
  | .some current =>
    if !g.member.sequencer.gap current then (.ok (), g)
    else
      match g.member.sequencer.shouldRequest current with
      | (false, q) => (.ok (), { g with member := { g.member with sequencer := q } })
      | (true, q) =>
        match publishControl faults { g with member := { g.member with sequencer := q } }
            (.resyncRequest (mls.fingerprint g.member.crypto) current) with
        | (.ok (), g) => (.ok (), g)
        | (.error e, g) =>
          (.error e, { g with member := { g.member with sequencer := g.member.sequencer.rearm } })

variable [DecidableEq Text]

/-- Merge a commit of the control channel. -/
def applyCommitSequenced (g : GroupSession σ Text Bytes Fp) (commitB64 : Text) :
    Except PrivateGroupError Unit × GroupSession σ Text Bytes Fp :=
  match sequenceCommit mls faults g.groupId g.member commitB64 with
  | (.error e, m) => (.error e, { g with member := m })
  | (.ok .done, m) => (.ok (), { g with member := m, needsRejoin := false })
  | (.ok .gapped, m) => requestResyncIfGapped mls faults { g with member := m }

/-- Merge an admin's replay, and ask once more if a gap remains. If there is still
    one then, the member has to rejoin. -/
def absorbResyncResponse (g : GroupSession σ Text Bytes Fp)
    (commits : List (Faults σ Bytes × ResyncCommit Text)) :
    Except PrivateGroupError Unit × GroupSession σ Text Bytes Fp :=
  match absorbResyncCommits mls g.groupId g.member commits with
  | (false, m) => (.ok (), { g with member := m, needsRejoin := false })
  | (true, m) =>
    match requestResyncIfGapped mls faults
        { g with member := { m with sequencer := m.sequencer.rearm } } with
    | (.error e, g) => (.error e, g)
    | (.ok (), g) =>
      (.ok (), if stuck mls g.member then { g with needsRejoin := true } else g)

omit [DecidableEq Text] in
/-- The rows of the commit log from an epoch on: the last write of an epoch counts. -/
def listGroupCommitsFrom (store : GroupStore σ Bytes) (fromEpoch : Nat) : List (Nat × Bytes) :=
  (store.commitLog.foldl (fun rows row => rows.insert row.1 row.2)
    (∅ : ExtTreeMap Nat Bytes compare)).toList.filter fun row => fromEpoch ≤ row.1

omit [DecidableEq Text] in
/-- Answer a member's request with the logged commits. -/
def serveResyncRequest (g : GroupSession σ Text Bytes Fp) (forFingerprint : Fp)
    (haveEpoch : Nat) : Except PrivateGroupError Unit × GroupSession σ Text Bytes Fp :=
  match g.member.persistence with
  | .none => (.ok (), g)
  | .some store =>
    let commits := (listGroupCommitsFrom store haveEpoch).map fun row =>
      { epoch := row.1, commitB64 := mls.encode row.2 }
    publishControl faults g (.resyncResponse forFingerprint commits)

/-! ## Changes past the sequencer -/

omit [DecidableEq Text] in
/-- Save an own change and install it: the state and the evidence in one
    transaction, then the commit log. -/
def installOwn (g : GroupSession σ Text Bytes Fp) (candidate : σ) (raw : Bytes) :
    Except PrivateGroupError (GroupSession σ Text Bytes Fp) :=
  match mls.historyContext g.member.crypto with
  | .error e => .error e
  | .ok prior =>
    match mls.historyContext candidate with
    | .error e => .error e
    | .ok context =>
      match faults.prepare with
      | .some e => .error e
      | .none =>
        match persistMembership mls faults g.member.crypto
            ⟨candidate, prior, context, mls.signerPublic g.member.crypto, false⟩
            g.member.persistence raw with
        | .error e => .error e
        | .ok store => .ok { g with member := { g.member with
            crypto := candidate
            persistence := logGroupCommit faults g.groupId store prior.epoch raw
            merged := g.member.merged ++ [raw] } }

omit [DecidableEq Text] in
/-- Install an own removal and publish its commit. -/
def publishMembershipChange (g : GroupSession σ Text Bytes Fp) (candidate : σ) (raw : Bytes) :
    Except PrivateGroupError Unit × GroupSession σ Text Bytes Fp :=
  match installOwn mls faults g candidate raw with
  | .error e => (.error e, g)
  | .ok g' => publishControl faults g'
      (.commit (mls.fingerprint g.member.crypto) (mls.encode raw))

omit [DecidableEq Text] in
/-- Admit the owner of a key package, and publish the welcome and the commit. -/
def admitHistoryMember (g : GroupSession σ Text Bytes Fp) (participant : String)
    (package : Bytes) : Except PrivateGroupError Unit × GroupSession σ Text Bytes Fp :=
  match mls.historyContext g.member.crypto with
  | .error e => (.error e, g)
  | .ok _ =>
    match mls.author (.addMembers package) g.member.crypto with
    | .error e => (.error e, g)
    | .ok (candidate, raw) =>
      match installOwn mls faults g candidate raw with
      | .error e => (.error e, g)
      | .ok g' =>
        let own := mls.fingerprint g.member.crypto
        match publishControl faults g' (.welcome participant own (mls.encode raw)) with
        | (.error e, g') => (.error e, g')
        | (.ok (), g') => publishControl faults g' (.commit own (mls.encode raw))

variable [LinearOrder Fp]

omit [DecidableEq Text] in
/-- The successor of a departing admin: the lowest fingerprint of the others. -/
def successorOf (members : List Fp) (departing : Fp) : Option Fp :=
  (members.filter (· ≠ departing)).min?

omit [DecidableEq Text] in
/-- Re-derive the admin from the tree: once the admin holds no leaf any more, the
    successor takes over. -/
def reconcileAdmin (g : GroupSession σ Text Bytes Fp) : GroupSession σ Text Bytes Fp :=
  let members := mls.memberFingerprints g.member.crypto
  if g.currentAdminFingerprint ∈ members then g
  else
    match successorOf members g.currentAdminFingerprint with
    | .none => g
    | .some next =>
      { g with
        isAdmin := decide (next = mls.fingerprint g.member.crypto)
        currentAdminFingerprint := next }

omit [DecidableEq Text] in
/-- The admin after a look at the tree, from the admin before it. -/
def look (mls : Mls σ Text Bytes Fp Tree) (admin : Fp) (tree : Tree) : Fp :=
  if admin ∈ mls.leaves tree then admin else (successorOf (mls.leaves tree) admin).getD admin

omit [DecidableEq Text] in
/-- Whether this member is the one to commit a departure: the admin, or its
    successor if the admin is the one who leaves. -/
def shouldCommitDeparture (g : GroupSession σ Text Bytes Fp) (leaver : Fp) : Bool :=
  if leaver ≠ g.currentAdminFingerprint then g.isAdmin
  else
    (successorOf (mls.memberFingerprints g.member.crypto) leaver).any fun next =>
      decide (next = mls.fingerprint g.member.crypto)

omit [DecidableEq Text] in
/-- Install a transition from the evidence another member retained of it. -/
def installTransitionEvidence [DecidableEq Bytes] (g : GroupSession σ Text Bytes Fp)
    (have' target : MlsHistoryContext Bytes) (transition : NativeTransition Bytes) :
    Except PrivateGroupError Unit × GroupSession σ Text Bytes Fp :=
  let raw := transition.originalCommit
  match mls.stageMembership g.member.crypto raw with
  | .error e => (.error e, g)
  | .ok staged =>
    if staged.prior ≠ have' ∨ transition.prior ≠ staged.prior ∨ transition.next ≠ staged.context ∨
        target.epoch < staged.context.epoch ∨
        (staged.context.epoch = target.epoch ∧ staged.context ≠ target) ∨ staged.removed then
      (.error (.codec "evidence commit differs from own branch"), g)
    else if g.member.persistence.isNone then (.error .notReady, g)
    else
      match faults.prepare with
      | .some e => (.error e, g)
      | .none =>
        match persistMembership mls faults g.member.crypto staged g.member.persistence raw with
        | .error e => (.error e, g)
        | .ok store =>
          (.ok (), { reconcileAdmin mls { g with member := { g.member with
              crypto := staged.next, persistence := store, merged := g.member.merged ++ [raw] } }
            with needsRejoin := false })

omit [DecidableEq Text] [LinearOrder Fp] in
/-- Author the commit of a departure and publish it. -/
def commitDeparture (g : GroupSession σ Text Bytes Fp) (proposal : Bytes) :
    Except PrivateGroupError Unit × GroupSession σ Text Bytes Fp :=
  match mls.author (.commitDeparture proposal) g.member.crypto with
  | .error e => (.error e, g)
  | .ok (candidate, raw) => publishMembershipChange mls faults g candidate raw

/-! ## Calls and frames -/

/-- The calls that move the MLS state of a session. -/
inductive Call (σ Text Bytes : Type)
  | applyCommitSequenced (commitB64 : Text)
  | absorbResyncResponse (commits : List (Faults σ Bytes × ResyncCommit Text))
  | admitHistoryMember (participant : String) (package : Bytes)
  | commitDeparture (proposal : Bytes)
  | installTransitionEvidence (have' target : MlsHistoryContext Bytes)
      (transition : NativeTransition Bytes)

variable [DecidableEq Bytes]

/-- A call, and what it returns. -/
def Call.run (g : GroupSession σ Text Bytes Fp) :
    Call σ Text Bytes → Except PrivateGroupError Unit × GroupSession σ Text Bytes Fp
  | .applyCommitSequenced commitB64 => Group.applyCommitSequenced mls faults g commitB64
  | .absorbResyncResponse commits => Group.absorbResyncResponse mls faults g commits
  | .admitHistoryMember participant package =>
    Group.admitHistoryMember mls faults g participant package
  | .commitDeparture proposal => Group.commitDeparture mls faults g proposal
  | .installTransitionEvidence have' target transition =>
    Group.installTransitionEvidence mls faults g have' target transition

omit [DecidableEq Text] [LinearOrder Fp] in
/-- The call passes the sequencer by. -/
def Call.PassesSequencer : Call σ Text Bytes → Prop
  | .applyCommitSequenced _ | .absorbResyncResponse _ => False
  | .admitHistoryMember _ _ | .commitDeparture _ | .installTransitionEvidence _ _ _ => True

/-- A session takes a call, together with what is refused meanwhile. -/
def GroupSession.step (g : GroupSession σ Text Bytes Fp)
    (input : Faults σ Bytes × Call σ Text Bytes) : GroupSession σ Text Bytes Fp :=
  (input.2.run mls input.1 g).2

/-- A control frame as it is delivered: with what is refused while it is handled,
    and, if it is a replay, while each of its entries is fed. -/
structure Delivery (σ Text Bytes Fp : Type) where
  frame : ControlEnvelope Text Fp
  faults : Faults σ Bytes
  entryFaults : Nat → Faults σ Bytes

omit [DecidableEq Bytes] in
/-- Admit a joiner, if this member is the admin and the joiner holds no leaf yet. -/
def acceptKeyPackage (g : GroupSession σ Text Bytes Fp) (participantId : String)
    (keyPackageB64 : Text) : Except PrivateGroupError Unit × GroupSession σ Text Bytes Fp :=
  if !g.isAdmin then (.ok (), g)
  else
    match mls.decode keyPackageB64 with
    | .error e => (.error e, g)
    | .ok keyPackage =>
      match faults.retain with
      | .some e => (.error e, g)
      | .none =>
        match mls.keyPackageSignerIsMember g.member.crypto keyPackage with
        | .error e => (.error e, g)
        | .ok true => (.ok (), g)
        | .ok false => admitHistoryMember mls faults g participantId keyPackage

omit [DecidableEq Bytes] in
/-- Commit a member's departure, if this member is the one to do so. -/
def acceptDeparture (g : GroupSession σ Text Bytes Fp) (fromFingerprint : Fp)
    (proposalB64 : Text) : Except PrivateGroupError Unit × GroupSession σ Text Bytes Fp :=
  match faults.retain with
  | .some e => (.error e, g)
  | .none =>
    if !shouldCommitDeparture mls g fromFingerprint then (.ok (), g)
    else
      match mls.decode proposalB64 with
      | .error e => (.error e, g)
      | .ok proposal => commitDeparture mls faults g proposal

omit faults [DecidableEq Bytes] in
/-- What a frame of the control channel does. -/
def handleControl (g : GroupSession σ Text Bytes Fp) (d : Delivery σ Text Bytes Fp) :
    Except PrivateGroupError Unit × GroupSession σ Text Bytes Fp :=
  let own := mls.fingerprint g.member.crypto
  match d.frame with
  | .keyPackage participantId keyPackageB64 =>
    if g.participantId ≠ participantId then
      acceptKeyPackage mls d.faults g participantId keyPackageB64
    else (.ok (), g)
  | .welcome _ fromFingerprint commitB64 =>
    if g.isAdmin then (.ok (), g)
    else
      match d.faults.retain with
      | .some e => (.error e, g)
      | .none =>
        if fromFingerprint = g.currentAdminFingerprint then
          applyCommitSequenced mls d.faults g commitB64
        else (.ok (), g)
  | .commit fromFingerprint commitB64 =>
    match d.faults.retain with
    | .some e => (.error e, g)
    | .none =>
      -- The own commit comes back around; it was merged when it was authored.
      if fromFingerprint = own then (.ok (), g)
      else applyCommitSequenced mls d.faults g commitB64
  | .selfRemove fromFingerprint proposalB64 =>
    if fromFingerprint ≠ own then acceptDeparture mls d.faults g fromFingerprint proposalB64
    else (.ok (), g)
  | .resyncRequest fromFingerprint haveEpoch =>
    if fromFingerprint ≠ own ∧ g.isAdmin then
      serveResyncRequest mls d.faults g fromFingerprint haveEpoch
    else (.ok (), g)
  | .resyncResponse forFingerprint commits =>
    if forFingerprint = own then
      absorbResyncResponse mls d.faults g (commits.mapIdx fun i c => (d.entryFaults i, c))
    else (.ok (), g)

omit faults [DecidableEq Bytes] in
/-- Handle a frame of the control channel, then re-derive the admin, also when the
    frame failed: it may have changed the tree before that. -/
def handleMossMessage (g : GroupSession σ Text Bytes Fp) (d : Delivery σ Text Bytes Fp) :
    Except PrivateGroupError Unit × GroupSession σ Text Bytes Fp :=
  let result := handleControl mls g d
  (result.1, reconcileAdmin mls result.2)

/-! ## What a call changes -/

omit [DecidableEq Text] [LinearOrder Fp] [DecidableEq Bytes] in
/-- The member, with another epoch noted as the one of the last request. -/
def Member.withRequested (m : Member σ Text Bytes) (epoch : Option Nat) : Member σ Text Bytes :=
  { m with sequencer := { m.sequencer with lastRequestedEpoch := epoch } }

section Requested

omit [DecidableEq Text] [LinearOrder Fp] [DecidableEq Bytes]

variable {m : Member σ Text Bytes} {l : Option Nat} {k : Nat}

@[simp] theorem Member.crypto_withRequested : (m.withRequested l).crypto = m.crypto := rfl

@[simp] theorem Member.merged_withRequested : (m.withRequested l).merged = m.merged := rfl

@[simp] theorem Member.applied_withRequested :
    (m.withRequested l).sequencer.applied = m.sequencer.applied := rfl

@[simp] theorem Member.peekReady_withRequested :
    (m.withRequested l).sequencer.peekReady k = m.sequencer.peekReady k := rfl

@[simp] theorem Member.buffers_withRequested :
    (m.withRequested l).sequencer.Buffers k ↔ m.sequencer.Buffers k := Iff.rfl

@[simp] theorem Member.gap_withRequested :
    (m.withRequested l).sequencer.gap k = m.sequencer.gap k := rfl

@[simp] theorem Member.lastRequestedEpoch_withRequested :
    (m.withRequested l).sequencer.lastRequestedEpoch = l := rfl

theorem Member.withRequested_self : m.withRequested m.sequencer.lastRequestedEpoch = m := rfl

end Requested

variable {mls faults} {g : GroupSession σ Text Bytes Fp} {e : Nat}

omit [DecidableEq Text] [LinearOrder Fp] [DecidableEq Bytes] in
variable (faults) in
/-- What a request changes: nothing without a gap, and nothing but the note of the
    request and the frame with one. -/
theorem requestResyncIfGapped_cases (hc : mls.epoch g.member.crypto = some e) :
    (g.member.sequencer.gap e = false ∧ requestResyncIfGapped mls faults g = (.ok (), g)) ∨
    (g.member.sequencer.gap e = true ∧ g.member.sequencer.lastRequestedEpoch = some e ∧
      requestResyncIfGapped mls faults g = (.ok (), g)) ∨
    (g.member.sequencer.gap e = true ∧ g.member.sequencer.lastRequestedEpoch ≠ some e ∧
      ∃ l, (l = some e ∨ l = none) ∧ requestResyncIfGapped mls faults g =
        (faults.publish.elim (.ok ()) .error, { g with
          member := g.member.withRequested l
          sent := g.sent ++ [.resyncRequest (mls.fingerprint g.member.crypto) e] })) := by
  cases hgap : g.member.sequencer.gap e with
  | false => exact .inl ⟨rfl, by simp [requestResyncIfGapped, hc, hgap]⟩
  | true =>
    by_cases hlast : g.member.sequencer.lastRequestedEpoch = some e
    · exact .inr (.inl ⟨rfl, hlast,
        by simp [requestResyncIfGapped, hc, hgap, CommitSequencer.shouldRequest, hlast]⟩)
    · refine .inr (.inr ⟨rfl, hlast, ?_⟩)
      cases hp : faults.publish with
      | none =>
        exact ⟨some e, .inl rfl, by
          simp [requestResyncIfGapped, hc, hgap, CommitSequencer.shouldRequest, hlast,
            publishControl, hp, Member.withRequested]⟩
      | some err =>
        exact ⟨none, .inr rfl, by
          simp [requestResyncIfGapped, hc, hgap, CommitSequencer.shouldRequest, hlast,
            publishControl, hp, Member.withRequested, CommitSequencer.rearm]⟩

omit [DecidableEq Text] [LinearOrder Fp] [DecidableEq Bytes] in
variable (mls faults g) in
theorem requestResyncIfGapped_snd :
    ∃ l frames, (requestResyncIfGapped mls faults g).2 =
      { g with member := g.member.withRequested l, sent := g.sent ++ frames } := by
  have hsame : g = { g with
      member := g.member.withRequested g.member.sequencer.lastRequestedEpoch
      sent := g.sent ++ [] } := by
    rw [Member.withRequested_self, List.append_nil]
  cases hc : mls.epoch g.member.crypto with
  | none => exact ⟨_, [], by rw [← hsame]; simp [requestResyncIfGapped, hc]⟩
  | some e =>
    rcases requestResyncIfGapped_cases faults hc with ⟨-, hr⟩ | ⟨-, -, hr⟩ |
      ⟨-, -, l, -, hr⟩
    · exact ⟨_, [], by rw [← hsame, hr]⟩
    · exact ⟨_, [], by rw [← hsame, hr]⟩
    · exact ⟨l, _, by rw [hr]⟩

omit [LinearOrder Fp] [DecidableEq Bytes] in
variable (mls faults g) in
/-- A merged commit changes the member as sequencing does. -/
theorem applyCommitSequenced_snd (commitB64 : Text) :
    ∃ l frames rejoin, (applyCommitSequenced mls faults g commitB64).2 =
      { g with
        member := (sequenceCommit mls faults g.groupId g.member commitB64).2.withRequested l
        needsRejoin := rejoin
        sent := g.sent ++ frames } := by
  unfold applyCommitSequenced
  split <;> rename_i m h
  · exact ⟨_, [], _, by rw [h, List.append_nil, Member.withRequested_self]⟩
  · exact ⟨_, [], _, by rw [h, List.append_nil, Member.withRequested_self]⟩
  · obtain ⟨l, frames, hr⟩ := requestResyncIfGapped_snd mls faults { g with member := m }
    exact ⟨l, frames, _, by rw [hr, h]⟩

omit [LinearOrder Fp] [DecidableEq Bytes] in
variable (mls faults g) in
/-- A replay changes the member as sequencing its entries does. -/
theorem absorbResyncResponse_snd (commits : List (Faults σ Bytes × ResyncCommit Text)) :
    ∃ l frames rejoin, (absorbResyncResponse mls faults g commits).2 =
      { g with
        member := (absorbResyncCommits mls g.groupId g.member commits).2.withRequested l
        needsRejoin := rejoin
        sent := g.sent ++ frames } := by
  unfold absorbResyncResponse
  split <;> rename_i m h
  · exact ⟨_, [], _, by rw [h, List.append_nil, Member.withRequested_self]⟩
  · obtain ⟨l, frames, hr⟩ := requestResyncIfGapped_snd mls faults
      { g with member := { m with sequencer := m.sequencer.rearm } }
    split <;> rename_i g' hg
    · rw [hg] at hr
      exact ⟨l, frames, _, by rw [hr, h]; rfl⟩
    · rw [hg] at hr
      dsimp only at hr
      subst hr
      split
      · exact ⟨l, frames, true, by rw [h]; rfl⟩
      · exact ⟨l, frames, g.needsRejoin, by rw [h]; rfl⟩

section Invariant

omit [LinearOrder Fp] [DecidableEq Bytes]

variable {P : Member σ Text Bytes → Prop} (hP : ∀ m l, P m → P (m.withRequested l))
  (hmove : ∀ faults text m m', Move mls faults g.groupId text m m' → P m → P m')
include hP hmove

/-- What every move keeps, whatever is requested, a merged commit keeps. -/
theorem applyCommitSequenced_invariant {commitB64 : Text} (h : P g.member) :
    P (applyCommitSequenced mls faults g commitB64).2.member := by
  obtain ⟨l, frames, rejoin, hr⟩ := applyCommitSequenced_snd mls faults g commitB64
  rw [hr]
  exact hP _ _ (sequenceCommit_invariant (hmove faults commitB64) h)

/-- What every move keeps, whatever is requested, a replay keeps. -/
theorem absorbResyncResponse_invariant {commits : List (Faults σ Bytes × ResyncCommit Text)}
    (h : P g.member) : P (absorbResyncResponse mls faults g commits).2.member := by
  obtain ⟨l, frames, rejoin, hr⟩ := absorbResyncResponse_snd mls faults g commits
  rw [hr]
  refine hP _ _ (absorbResyncCommits_invariant (fun entry _ m hm => ?_) h)
  exact sequenceCommit_invariant (hmove entry.1 entry.2.commitB64) hm

end Invariant

/-- A change of the MLS state past the sequencer: an own change, or evidence. -/
inductive Overtakes (mls : Mls σ Text Bytes Fp Tree) (x y : σ) (raw : Bytes) : Prop
  | author {change : OwnChange Bytes} : mls.author change x = .ok (y, raw) → Overtakes mls x y raw
  | stage {staged : StagedMembership σ Bytes} :
      mls.stageMembership x raw = .ok staged → staged.next = y → Overtakes mls x y raw

omit [DecidableEq Text] [LinearOrder Fp] [DecidableEq Bytes] in
/-- An own change that was installed. -/
theorem installOwn_eq_ok {candidate : σ} {raw : Bytes} {g' : GroupSession σ Text Bytes Fp}
    (h : installOwn mls faults g candidate raw = .ok g') :
    ∃ store, g' = { g with member := { g.member with
      crypto := candidate, persistence := store, merged := g.member.merged ++ [raw] } } := by
  unfold installOwn at h
  split at h
  · cases h
  · split at h
    · cases h
    · split at h
      · cases h
      · split at h
        · cases h
        · exact ⟨_, (Except.ok.inj h).symm⟩

/-- What a session becomes when its member moves past the sequencer, or not at all. -/
inductive Overtaken (mls : Mls σ Text Bytes Fp Tree) (g g' : GroupSession σ Text Bytes Fp) : Prop
  | stays : g'.member = g.member → (∃ frames, g'.sent = g.sent ++ frames) → Overtaken mls g g'
  | moves {y : σ} {raw : Bytes} {store : Option (GroupStore σ Bytes)} :
      Overtakes mls g.member.crypto y raw →
      g'.member = { g.member with
        crypto := y, persistence := store, merged := g.member.merged ++ [raw] } →
      (∃ frames, g'.sent = g.sent ++ frames) → Overtaken mls g g'

omit [DecidableEq Text] [LinearOrder Fp] [DecidableEq Bytes] in
theorem Overtaken.refl : Overtaken mls g g := .stays rfl ⟨[], by rw [List.append_nil]⟩

omit [DecidableEq Text] [LinearOrder Fp] [DecidableEq Bytes] in
variable (mls faults g) in
theorem admitHistoryMember_overtaken (participant : String) (package : Bytes) :
    Overtaken mls g (admitHistoryMember mls faults g participant package).2 := by
  unfold admitHistoryMember
  split
  · exact .refl
  · split
    · exact .refl
    · next candidate raw ha =>
      split
      · exact .refl
      · next g' hg =>
        obtain ⟨store, rfl⟩ := installOwn_eq_ok hg
        dsimp only
        split <;> rename_i h <;> obtain rfl := (Prod.mk.inj h).2
        · exact .moves (.author ha) rfl ⟨_, rfl⟩
        · exact .moves (.author ha) rfl ⟨_, List.append_assoc ..⟩

omit [DecidableEq Text] [LinearOrder Fp] [DecidableEq Bytes] in
variable (mls faults g) in
theorem commitDeparture_overtaken (proposal : Bytes) :
    Overtaken mls g (commitDeparture mls faults g proposal).2 := by
  unfold commitDeparture
  split
  · exact .refl
  · next candidate raw ha =>
    unfold publishMembershipChange
    split
    · exact .refl
    · next g' hg =>
      obtain ⟨store, rfl⟩ := installOwn_eq_ok hg
      exact .moves (.author ha) rfl ⟨_, rfl⟩

omit [DecidableEq Text] [DecidableEq Bytes] in
@[simp] theorem member_reconcileAdmin : (reconcileAdmin mls g).member = g.member := by
  unfold reconcileAdmin
  dsimp only
  split
  · rfl
  · split <;> rfl

omit [DecidableEq Text] [DecidableEq Bytes] in
@[simp] theorem sent_reconcileAdmin : (reconcileAdmin mls g).sent = g.sent := by
  unfold reconcileAdmin
  dsimp only
  split
  · rfl
  · split <;> rfl

omit [DecidableEq Text] in
variable (mls faults g) in
theorem installTransitionEvidence_overtaken (have' target : MlsHistoryContext Bytes)
    (transition : NativeTransition Bytes) :
    Overtaken mls g (installTransitionEvidence mls faults g have' target transition).2 := by
  unfold installTransitionEvidence
  dsimp only
  split
  · exact .refl
  · next staged hs =>
    split
    · exact .refl
    · split
      · exact .refl
      · split
        · exact .refl
        · split
          · exact .refl
          · exact .moves (.stage hs rfl) member_reconcileAdmin
              ⟨[], by rw [List.append_nil]; exact sent_reconcileAdmin⟩

variable (mls faults g) in
/-- A call that passes the sequencer by moves the member at most once. -/
theorem Call.overtaken {c : Call σ Text Bytes} (hc : c.PassesSequencer) :
    Overtaken mls g (c.run mls faults g).2 := by
  cases c with
  | applyCommitSequenced => exact hc.elim
  | absorbResyncResponse => exact hc.elim
  | admitHistoryMember participant package =>
    exact admitHistoryMember_overtaken mls faults g participant package
  | commitDeparture proposal => exact commitDeparture_overtaken mls faults g proposal
  | installTransitionEvidence have' target transition =>
    exact installTransitionEvidence_overtaken mls faults g have' target transition

/-- What every move keeps and every change past the sequencer that is admitted, a step
    of the session keeps. -/
theorem step_invariant {P : Member σ Text Bytes → Prop}
    {input : Faults σ Bytes × Call σ Text Bytes}
    (hP : ∀ m l, P m → P (m.withRequested l))
    (hmove : ∀ faults text m m', Move mls faults g.groupId text m m' → P m → P m')
    (hover : input.2.PassesSequencer → ∀ g', Overtaken mls g g' → P g.member → P g'.member)
    (h : P g.member) : P (g.step mls input).member := by
  obtain ⟨faults, c⟩ := input
  by_cases hc : c.PassesSequencer
  · exact hover hc _ (Call.overtaken mls faults g hc) h
  cases c with
  | applyCommitSequenced commitB64 => exact applyCommitSequenced_invariant hP hmove h
  | absorbResyncResponse commits => exact absorbResyncResponse_invariant hP hmove h
  | admitHistoryMember => exact absurd trivial hc
  | commitDeparture => exact absurd trivial hc
  | installTransitionEvidence => exact absurd trivial hc

/-! ## What a frame does -/

/-- A session that only tried to publish something. -/
def Idle (g g' : GroupSession σ Text Bytes Fp) : Prop :=
  ∃ frames, g' = { g with sent := g.sent ++ frames }

omit [DecidableEq Text] [LinearOrder Fp] [DecidableEq Bytes] in
theorem Idle.refl : Idle g g := ⟨[], by rw [List.append_nil]⟩

variable (mls faults g) in
/-- A call leaves the admin alone, unless it is one for evidence. -/
theorem Call.run_admin {c : Call σ Text Bytes}
    (hc : ∀ have' target transition, c ≠ .installTransitionEvidence have' target transition) :
    (c.run mls faults g).2.isAdmin = g.isAdmin ∧
      (c.run mls faults g).2.currentAdminFingerprint = g.currentAdminFingerprint := by
  cases c with
  | applyCommitSequenced commitB64 =>
    obtain ⟨l, frames, rejoin, hr⟩ := applyCommitSequenced_snd mls faults g commitB64
    rw [Call.run, hr]
    exact ⟨rfl, rfl⟩
  | absorbResyncResponse commits =>
    obtain ⟨l, frames, rejoin, hr⟩ := absorbResyncResponse_snd mls faults g commits
    rw [Call.run, hr]
    exact ⟨rfl, rfl⟩
  | admitHistoryMember participant package =>
    rw [Call.run, Group.admitHistoryMember]
    split
    · exact ⟨rfl, rfl⟩
    · split
      · exact ⟨rfl, rfl⟩
      · split
        · exact ⟨rfl, rfl⟩
        · next g' hg =>
          obtain ⟨store, rfl⟩ := installOwn_eq_ok hg
          dsimp only
          split <;> rename_i h <;> obtain rfl := (Prod.mk.inj h).2
          · exact ⟨rfl, rfl⟩
          · exact ⟨rfl, rfl⟩
  | commitDeparture proposal =>
    rw [Call.run, Group.commitDeparture]
    split
    · exact ⟨rfl, rfl⟩
    · rw [publishMembershipChange]
      split
      · exact ⟨rfl, rfl⟩
      · next g' hg =>
        obtain ⟨store, rfl⟩ := installOwn_eq_ok hg
        exact ⟨rfl, rfl⟩
  | installTransitionEvidence have' target transition => exact absurd rfl (hc _ _ _)

variable (mls g) in
/-- A frame comes down to at most one call, and never to one for evidence. -/
theorem handleControl_cases (d : Delivery σ Text Bytes Fp) :
    Idle g (handleControl mls g d).2 ∨
    ∃ c : Call σ Text Bytes, handleControl mls g d = c.run mls d.faults g ∧
      ∀ have' target transition, c ≠ .installTransitionEvidence have' target transition := by
  unfold handleControl
  dsimp only
  cases d.frame with
  | keyPackage participantId keyPackageB64 =>
    dsimp only
    split
    · unfold acceptKeyPackage
      split
      · exact .inl .refl
      · split
        · exact .inl .refl
        · next keyPackage _ =>
          split
          · exact .inl .refl
          · split
            · exact .inl .refl
            · exact .inl .refl
            · exact .inr ⟨.admitHistoryMember participantId keyPackage, rfl, by simp⟩
    · exact .inl .refl
  | welcome forParticipantId fromFingerprint commitB64 =>
    dsimp only
    split
    · exact .inl .refl
    · split
      · exact .inl .refl
      · split
        · exact .inr ⟨.applyCommitSequenced commitB64, rfl, by simp⟩
        · exact .inl .refl
  | commit fromFingerprint commitB64 =>
    dsimp only
    split
    · exact .inl .refl
    · split
      · exact .inl .refl
      · exact .inr ⟨.applyCommitSequenced commitB64, rfl, by simp⟩
  | selfRemove fromFingerprint proposalB64 =>
    dsimp only
    split
    · unfold acceptDeparture
      split
      · exact .inl .refl
      · split
        · exact .inl .refl
        · split
          · exact .inl .refl
          · next proposal _ => exact .inr ⟨.commitDeparture proposal, rfl, by simp⟩
    · exact .inl .refl
  | resyncRequest fromFingerprint haveEpoch =>
    dsimp only
    split
    · unfold serveResyncRequest
      split
      · exact .inl .refl
      · exact .inl ⟨_, rfl⟩
    · exact .inl .refl
  | resyncResponse forFingerprint commits =>
    dsimp only
    split
    · exact .inr ⟨.absorbResyncResponse (commits.mapIdx fun i c => (d.entryFaults i, c)), rfl,
        by simp⟩
    · exact .inl .refl

end Mosh.Group
