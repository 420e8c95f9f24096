import Mosh.Library.Run
import Mosh.Group.Session

/-!
# Revoked members of an organization's group

In the group of an organization, authority comes from the signed roster
(`org_gate.rs`): its admins commit membership changes, and whoever is absent from the
roster is to lose their leaf. A session looks at the roster now and then
(`syncRosterState`). It only does its work when the version differs from the one it has
seen last, and it notes the version before the work is done.

* `OrgSession.syncRosterState`: one pass, with what is refused during it;
* `OrgSession.step`: all that moves a session;
* `reconcileRosterMembership_clean`: a pass that does its work without a fault leaves no
  revoked leaf;
* `revoked_removed_iff`: what a pass without a fault leaves in general, and in which runs
  it leaves no revoked leaf;
* `revoked_survives`: a pass that is refused once is not made up for.
-/

namespace Mosh.Group

open Run (Runs)

variable {σ Text Bytes Fp Tree : Type}

/-! ## Rosters and leaves -/

structure RosterMember where
  mossPeerId : String
  role : String
  deriving DecidableEq, Repr

/-- A verified roster of the organization. -/
structure OrgRoster where
  version : Nat
  members : List RosterMember
  deriving DecidableEq, Repr

namespace OrgRoster

def contains (r : OrgRoster) (peerId : String) : Bool := r.members.any (·.mossPeerId = peerId)

def roleIsAdmin (r : OrgRoster) (peerId : String) : Bool :=
  r.members.any fun m => m.mossPeerId = peerId ∧ m.role = "admin"

theorem contains_of_roleIsAdmin {r : OrgRoster} {peerId : String}
    (h : r.roleIsAdmin peerId = true) : r.contains peerId = true := by
  obtain ⟨m, hm, heq⟩ := List.any_eq_true.1 h
  exact List.any_eq_true.2 ⟨m, hm, decide_eq_true (of_decide_eq_true heq).1⟩

end OrgRoster

/-- A leaf, with the identity of its credential if that is a basic one. -/
structure OrgLeaf where
  index : Nat
  identity : Option String
  deriving DecidableEq, Repr

/-- The leaves of a group, and which one is the own. -/
structure OrgTree where
  own : Nat
  leaves : List OrgLeaf
  deriving DecidableEq, Repr

/-- What an organization's group uses of MLS, beyond what every group does. -/
structure OrgMls (σ Text Bytes Fp Tree : Type) extends Mls σ Text Bytes Fp Tree where
  /-- The leaves; `none` before the group exists. -/
  group : σ → Option OrgTree
  /-- Remove leaves in one commit, on a copy of the state. -/
  removeLeaves : σ → List Nat → σ × Bytes

/-- A removal takes exactly the leaves it names, and a group that exists has a context. -/
structure OrgMls.Lawful (mls : OrgMls σ Text Bytes Fp Tree) : Prop where
  group_removeLeaves {x : σ} {t : OrgTree} {targets : List Nat} : mls.group x = some t →
    mls.group (mls.removeLeaves x targets).1 =
      some { t with leaves := t.leaves.filter (·.index ∉ targets) }
  historyContext {x : σ} {t : OrgTree} : mls.group x = some t →
    ∃ context, mls.historyContext x = .ok context

namespace OrgMls

variable (mls : OrgMls σ Text Bytes Fp Tree)

def memberIdentities (x : σ) : List String :=
  (mls.group x).elim [] fun t => t.leaves.filterMap (·.identity)

/-- The identities of the leaves other than the own one. -/
def otherIdentities (x : σ) : List String :=
  (mls.group x).elim [] fun t => (t.leaves.filter (·.index ≠ t.own)).filterMap (·.identity)

/-- The leaves with an identity, except the own one. -/
def leafIndicesMatching (t : OrgTree) (identity : String) : List Nat :=
  (t.leaves.filter fun l => l.index ≠ t.own ∧ l.identity = some identity).map (·.index)

/-- Remove every leaf with the identity in one commit. -/
def removeMembersByIdentity (x : σ) (identity : String) :
    Except PrivateGroupError (σ × Bytes) :=
  match mls.group x with
  | .none => .error .notReady
  | .some t =>
    let targets := leafIndicesMatching t identity
    if targets = [] then .error (.openMls s!"no member with identity {identity}")
    else .ok (mls.removeLeaves x targets)

variable {mls} {x y : σ} {t : OrgTree} {raw : Bytes} {identity : String}

theorem mem_otherIdentities :
    identity ∈ mls.otherIdentities x ↔ ∃ t, mls.group x = some t ∧
      ∃ l ∈ t.leaves, l.index ≠ t.own ∧ l.identity = some identity := by
  rw [otherIdentities]
  cases mls.group x with
  | none => simp
  | some t => simp [and_assoc]

theorem mem_memberIdentities_of_other (h : identity ∈ mls.otherIdentities x) :
    identity ∈ mls.memberIdentities x := by
  obtain ⟨t, ht, l, hl, -, hidentity⟩ := mem_otherIdentities.1 h
  rw [memberIdentities, ht]
  exact List.mem_filterMap.2 ⟨l, hl, hidentity⟩

/-- A removal leaves none of the other leaves with the identity, and adds none. -/
theorem otherIdentities_of_remove (hlaw : mls.Lawful)
    (h : mls.removeMembersByIdentity x identity = .ok (y, raw)) :
    (∀ id ∈ mls.otherIdentities y, id ∈ mls.otherIdentities x ∧ id ≠ identity) ∧
      ∃ t, mls.group x = some t ∧ (mls.group y).isSome := by
  rw [removeMembersByIdentity] at h
  cases ht : mls.group x with
  | none =>
    rw [ht] at h
    cases h
  | some t =>
    simp only [ht] at h
    split at h
    · cases h
    · have hy : (mls.removeLeaves x (leafIndicesMatching t identity)).1 = y :=
        congrArg Prod.fst (Except.ok.inj h)
      have hgroup : mls.group (mls.removeLeaves x (leafIndicesMatching t identity)).1 = some _ :=
        hlaw.group_removeLeaves ht
      rw [hy] at hgroup
      refine ⟨fun id hid => ?_, t, rfl, by rw [hgroup]; rfl⟩
      obtain ⟨t', ht', l, hl, hother, hidentity⟩ := mem_otherIdentities.1 hid
      obtain rfl := Option.some.inj (hgroup.symm.trans ht')
      obtain ⟨hleaf, hkept⟩ := List.mem_filter.1 hl
      refine ⟨mem_otherIdentities.2 ⟨t, ht, l, hleaf, hother, hidentity⟩, ?_⟩
      rintro rfl
      refine of_decide_eq_true hkept (List.mem_map_of_mem (List.mem_filter.2 ⟨hleaf, ?_⟩))
      exact decide_eq_true ⟨hother, hidentity⟩

/-- Where nothing can be removed, no other leaf has the identity. -/
theorem notMem_of_remove_error {e : PrivateGroupError}
    (h : mls.removeMembersByIdentity x identity = .error e) :
    identity ∉ mls.otherIdentities x := by
  intro hmem
  obtain ⟨t, ht, l, hl, hother, hidentity⟩ := mem_otherIdentities.1 hmem
  simp only [removeMembersByIdentity, ht] at h
  split at h
  · next hnil =>
    have hl' : l.index ∈ leafIndicesMatching t identity :=
      List.mem_map_of_mem (List.mem_filter.2 ⟨hl, decide_eq_true ⟨hother, hidentity⟩⟩)
    rw [hnil] at hl'
    cases hl'
  · cases h

end OrgMls

/-! ## The session -/

/-- A commit of somebody who is not yet an admin of the roster at hand. -/
structure RosterLaggedCommit (Text : Type) where
  rosterVersion : Nat
  senderPeerId : String
  commitB64 : Text

/-- Bounds of the buffer of such commits, and of the lead of the version they claim. -/
def rosterLagCap : Nat := 16
def rosterLagHorizon : Nat := 64

/-- The session of a member of an organization's group. `own` is its Moss identity, which is
    both the device fingerprint and the peer id of its signer; `roster` is the roster in the
    store. -/
structure OrgSession (σ Text Bytes Fp : Type) where
  group : GroupSession σ Text Bytes Fp
  own : String
  joined : Bool
  roster : Option OrgRoster
  lastRosterVersionSeen : Option Nat
  rosterLag : List (RosterLaggedCommit Text)

/-- What is refused during a pass. Every read of the roster may be, and of the commits and
    the members to remove each one by itself. -/
structure PassFaults (σ Bytes : Type) where
  version : Bool
  lagVersion : Bool
  lagRole : Nat → Bool
  lagCommit : Nat → Faults σ Bytes
  roster : Bool
  admin : Bool
  candidate : Nat → Option PrivateGroupError
  remove : Nat → Option PrivateGroupError
  publish : Nat → Faults σ Bytes

/-- Nothing is refused. -/
def PassFaults.none : PassFaults σ Bytes :=
  ⟨false, false, fun _ => false, fun _ => .none, false, false, fun _ => .none, fun _ => .none,
    fun _ => .none⟩

/-- What is refused while a commit arrives. -/
structure OrgCommitFaults (σ Bytes : Type) where
  role : Bool
  version : Bool
  horizon : Bool
  commit : Faults σ Bytes

namespace OrgSession

variable (mls : OrgMls σ Text Bytes Fp Tree)

/-- The verified roster, unless it cannot be read. -/
def orgRoster (s : OrgSession σ Text Bytes Fp) (refused : Bool) : Option OrgRoster :=
  if refused then .none else s.roster

def rosterRoleIsAdmin (s : OrgSession σ Text Bytes Fp) (refused : Bool) (peerId : String) : Bool :=
  (s.orgRoster refused).any (·.roleIsAdmin peerId)

def ownRosterVersion (s : OrgSession σ Text Bytes Fp) (refused : Bool) : Option Nat :=
  (s.orgRoster refused).map (·.version)

def actingAdmin (s : OrgSession σ Text Bytes Fp) (refused : Bool) : Bool :=
  s.rosterRoleIsAdmin refused s.own

/-- `Some(version) > other`. -/
def newer (version : Nat) (other : Option Nat) : Bool := other.all (· < version)

/-- May the author move the group? Somebody else commits in the name of an own change only
    while it is an admin of the roster that was read last. -/
def orgHistoryGuard (roster : OrgRoster) (author own : String) : Except PrivateGroupError Unit :=
  if roster.roleIsAdmin author && roster.contains own then .ok () else .error .notReady

variable [DecidableEq Text]

/-- Take a commit of the organization: of an admin at once, and of somebody who claims a newer
    roster later on. -/
def applyOrgCommit (faults : OrgCommitFaults σ Bytes) (s : OrgSession σ Text Bytes Fp)
    (commitB64 : Text) (authorRosterVersion : Option Nat) (senderPeerId : Option String) :
    OrgSession σ Text Bytes Fp :=
  match senderPeerId with
  | .none => s
  | .some sender =>
    if s.rosterRoleIsAdmin faults.role sender then
      { s with group := (applyCommitSequenced mls.toMls faults.commit s.group commitB64).2 }
    else if authorRosterVersion.any (newer · (s.ownRosterVersion faults.version)) then
      let claimed := authorRosterVersion.getD 0
      let horizon := (s.ownRosterVersion faults.horizon).getD 0 + rosterLagHorizon
      if horizon < 2 ^ 64 ∧ claimed ≤ horizon then
        let lag := if s.rosterLag.length ≥ rosterLagCap then s.rosterLag.drop 1 else s.rosterLag
        { s with rosterLag := lag ++ [⟨claimed, sender, commitB64⟩] }
      else s
    else s

/-- Take the buffered commits whose author is an admin by now, and drop those that no roster
    to come can help. -/
def retryLagged (faults : PassFaults σ Bytes) (mine : Option Nat) :
    Nat → List (RosterLaggedCommit Text) → OrgSession σ Text Bytes Fp → OrgSession σ Text Bytes Fp
  | _, [], s => s
  | i, entry :: pending, s =>
    retryLagged faults mine (i + 1) pending <|
      if s.rosterRoleIsAdmin (faults.lagRole i) entry.senderPeerId then
        { s with group :=
            (applyCommitSequenced mls.toMls (faults.lagCommit i) s.group entry.commitB64).2 }
      else if newer entry.rosterVersion mine then { s with rosterLag := s.rosterLag ++ [entry] }
      else s

def retryRosterLagged (faults : PassFaults σ Bytes) (s : OrgSession σ Text Bytes Fp) :
    OrgSession σ Text Bytes Fp :=
  if s.rosterLag = [] then s
  else retryLagged mls faults (s.ownRosterVersion faults.lagVersion) 0 s.rosterLag
    { s with rosterLag := [] }

omit [DecidableEq Text] in
/-- Save an own change and publish it, while the roster names this device as an admin. -/
def publishMembershipChange (faults : Faults σ Bytes) (roster : OrgRoster) (own : String)
    (g : GroupSession σ Text Bytes Fp) (candidate : σ) (raw : Bytes) :
    Except PrivateGroupError Unit × GroupSession σ Text Bytes Fp :=
  match g.member.persistence, orgHistoryGuard roster own own with
  | .some _, .error e => (.error e, g)
  | _, _ => Group.publishMembershipChange mls.toMls faults g candidate raw

omit [DecidableEq Text] in
/-- Remove a revoked member; what fails is only logged. -/
def kick (faults : PassFaults σ Bytes) (roster : OrgRoster) (own : String) (i : Nat)
    (g : GroupSession σ Text Bytes Fp) (peerId : String) : GroupSession σ Text Bytes Fp :=
  match faults.candidate i, faults.remove i with
  | .none, .none =>
    match mls.removeMembersByIdentity g.member.crypto peerId with
    | .error _ => g
    | .ok (candidate, raw) =>
      (publishMembershipChange mls (faults.publish i) roster own g candidate raw).2
  | _, _ => g

omit [DecidableEq Text] in
/-- Remove the revoked members one after the other. -/
def kickAll (faults : PassFaults σ Bytes) (roster : OrgRoster) (own : String) :
    Nat → List String → GroupSession σ Text Bytes Fp → GroupSession σ Text Bytes Fp
  | _, [], g => g
  | i, peerId :: revoked, g =>
    kickAll faults roster own (i + 1) revoked (kick mls faults roster own i g peerId)

omit [DecidableEq Text] in
/-- The members whose leaf is to go. -/
def revoked (roster : OrgRoster) (own : String) (identities : List String) : List String :=
  (identities.filter (· ≠ own)).filter fun identity => !roster.contains identity

omit [DecidableEq Text] in
/-- Remove every leaf whose identity is absent from the roster. -/
def reconcileRosterMembership (faults : PassFaults σ Bytes) (s : OrgSession σ Text Bytes Fp) :
    OrgSession σ Text Bytes Fp :=
  match s.orgRoster faults.roster with
  | .none => s
  | .some roster =>
    if !s.joined || !s.actingAdmin faults.admin then s
    else
      let identities := mls.memberIdentities s.group.member.crypto
      { s with group := kickAll mls faults roster s.own 0 (revoked roster s.own identities) s.group }

/-- One pass for every version of the roster. -/
def syncRosterState (faults : PassFaults σ Bytes) (s : OrgSession σ Text Bytes Fp) :
    OrgSession σ Text Bytes Fp :=
  let current := s.ownRosterVersion faults.version
  if current ≠ s.lastRosterVersionSeen then
    reconcileRosterMembership mls faults
      (retryRosterLagged mls faults { s with lastRosterVersionSeen := current })
  else s

/-! ## What moves a session -/

/-- What happens to a session. -/
inductive Event (σ Text Bytes : Type)
  /-- A look at the roster. -/
  | sync (faults : PassFaults σ Bytes)
  /-- A verified roster arrives; roles change this way. -/
  | roster (next : OrgRoster)
  | commit (faults : OrgCommitFaults σ Bytes) (commitB64 : Text)
      (authorRosterVersion : Option Nat) (senderPeerId : Option String)
  /-- An admin's replay of commits. -/
  | replay (refused : Bool) (faults : Faults σ Bytes)
      (commits : List (Faults σ Bytes × ResyncCommit Text)) (senderPeerId : Option String)
  /-- An admin's welcome. -/
  | join (crypto : σ)
  /-- An own change of the membership. -/
  | change (faults : Faults σ Bytes) (candidate : σ) (raw : Bytes)

def step (s : OrgSession σ Text Bytes Fp) : Event σ Text Bytes → OrgSession σ Text Bytes Fp
  | .sync faults => s.syncRosterState mls faults
  | .roster next =>
    -- only a newer roster passes the verification
    if s.roster.all (·.version < next.version) then { s with roster := some next } else s
  | .commit faults commitB64 authorRosterVersion senderPeerId =>
    s.applyOrgCommit mls faults commitB64 authorRosterVersion senderPeerId
  | .replay refused faults commits senderPeerId =>
    if senderPeerId.any (s.rosterRoleIsAdmin refused) then
      { s with group := (absorbResyncResponse mls.toMls faults s.group commits).2 }
    else s
  | .join crypto =>
    { s with joined := true, group := { s.group with member := { s.group.member with crypto } } }
  | .change faults candidate raw =>
    match s.roster with
    | .none => s
    | .some roster =>
      { s with group := (publishMembershipChange mls faults roster s.own s.group candidate raw).2 }

omit [DecidableEq Text] in
/-- No leaf other than the own one has an identity that is absent from the roster. -/
def Clean (s : OrgSession σ Text Bytes Fp) : Prop :=
  ∀ roster ∈ s.roster, ∀ identity ∈ mls.otherIdentities s.group.member.crypto,
    roster.contains identity = true

/-! ## A pass that does its work -/

variable {mls} {s : OrgSession σ Text Bytes Fp} {g : GroupSession σ Text Bytes Fp}
  {roster : OrgRoster} {faults : PassFaults σ Bytes} {own : String}

omit [DecidableEq Text] in
/-- An own change of an admin is installed. -/
theorem crypto_publishMembershipChange (hlaw : mls.Lawful) (hadmin : roster.roleIsAdmin own = true)
    {candidate : σ} {raw : Bytes} (hgroup : (mls.group g.member.crypto).isSome)
    (hcandidate : (mls.group candidate).isSome) :
    (publishMembershipChange mls .none roster own g candidate raw).2.member.crypto = candidate := by
  have hguard : orgHistoryGuard roster own own = .ok () := by
    rw [orgHistoryGuard, hadmin, OrgRoster.contains_of_roleIsAdmin hadmin]
    rfl
  obtain ⟨t, ht⟩ := Option.isSome_iff_exists.1 hgroup
  obtain ⟨t', ht'⟩ := Option.isSome_iff_exists.1 hcandidate
  obtain ⟨prior, hprior⟩ := hlaw.historyContext ht
  obtain ⟨context, hcontext⟩ := hlaw.historyContext ht'
  rw [publishMembershipChange, hguard]
  cases hstore : g.member.persistence with
  | none => simp [Group.publishMembershipChange, installOwn, hprior, hcontext, hstore, Faults.none,
      persistMembership, publishControl]
  | some store => simp [Group.publishMembershipChange, installOwn, hprior, hcontext, hstore,
      Faults.none, persistMembership, publishControl]

omit [DecidableEq Text] in
/-- A member that is removed has no leaf any more, and nobody gets one. -/
theorem otherIdentities_kick (hlaw : mls.Lawful) (hadmin : roster.roleIsAdmin own = true) (i : Nat)
    (peerId : String) : ∀ id ∈ mls.otherIdentities (kick mls .none roster own i g peerId).member.crypto,
      id ∈ mls.otherIdentities g.member.crypto ∧ id ≠ peerId := by
  intro id hid
  rw [kick] at hid
  cases hremove : mls.removeMembersByIdentity g.member.crypto peerId with
  | error e =>
    simp only [PassFaults.none, hremove] at hid
    refine ⟨hid, ?_⟩
    rintro rfl
    exact OrgMls.notMem_of_remove_error hremove hid
  | ok result =>
    obtain ⟨candidate, raw⟩ := result
    obtain ⟨hother, t, ht, hsome⟩ := OrgMls.otherIdentities_of_remove hlaw hremove
    simp only [PassFaults.none, hremove] at hid
    rw [crypto_publishMembershipChange hlaw hadmin (by rw [ht]; rfl) hsome] at hid
    exact hother id hid

omit [DecidableEq Text] in
theorem otherIdentities_kickAll (hlaw : mls.Lawful) (hadmin : roster.roleIsAdmin own = true)
    (i : Nat) (peers : List String) :
    ∀ id ∈ mls.otherIdentities (kickAll mls .none roster own i peers g).member.crypto,
      id ∈ mls.otherIdentities g.member.crypto ∧ id ∉ peers := by
  induction peers generalizing g i with
  | nil => exact fun id hid => ⟨hid, List.not_mem_nil⟩
  | cons peerId peers ih =>
    intro id hid
    obtain ⟨hkept, hrest⟩ := ih (i + 1) id hid
    obtain ⟨hold, hne⟩ := otherIdentities_kick hlaw hadmin i peerId id hkept
    exact ⟨hold, fun hmem => (List.mem_cons.1 hmem).elim hne hrest⟩

omit [DecidableEq Text] in
theorem reconcileRosterMembership_none (hroster : s.roster = some roster)
    (hjoined : s.joined = true) (hadmin : roster.roleIsAdmin s.own = true) :
    s.reconcileRosterMembership mls .none = { s with
      group := kickAll mls .none roster s.own 0
        (revoked roster s.own (mls.memberIdentities s.group.member.crypto)) s.group } := by
  simp [reconcileRosterMembership, orgRoster, actingAdmin, rosterRoleIsAdmin, hroster, hjoined,
    hadmin, PassFaults.none]

omit [DecidableEq Text] in
theorem exists_roster_of_actingAdmin (h : s.actingAdmin false = true) :
    ∃ roster, s.roster = some roster ∧ roster.roleIsAdmin s.own = true := by
  rw [actingAdmin, rosterRoleIsAdmin, orgRoster] at h
  cases hroster : s.roster with
  | none =>
    rw [hroster] at h
    cases h
  | some roster =>
    rw [hroster] at h
    exact ⟨roster, rfl, h⟩

omit [DecidableEq Text] in
/-- A reconciliation without a fault leaves no revoked leaf. -/
theorem reconcileRosterMembership_clean (hlaw : mls.Lawful) (hjoined : s.joined = true)
    (hadmin : s.actingAdmin false = true) : (s.reconcileRosterMembership mls .none).Clean mls := by
  obtain ⟨roster, hroster, hrole⟩ := exists_roster_of_actingAdmin hadmin
  rw [reconcileRosterMembership_none hroster hjoined hrole]
  intro roster' hroster' identity hidentity
  obtain rfl : roster = roster' := Option.some.inj (hroster.symm.trans hroster')
  obtain ⟨hold, hkept⟩ := otherIdentities_kickAll hlaw hrole 0 _ identity hidentity
  by_contra habsent
  by_cases hown : identity = s.own
  · rw [hown] at habsent
    exact habsent (OrgRoster.contains_of_roleIsAdmin hrole)
  · refine hkept (List.mem_filter.2 ⟨List.mem_filter.2 ⟨?_, decide_eq_true hown⟩, ?_⟩)
    · exact OrgMls.mem_memberIdentities_of_other hold
    · rw [Bool.eq_false_iff.2 habsent]
      rfl

/-! ## What a step keeps -/

omit [DecidableEq Text] in
/-- The roster, the version seen last and the own place in the group are the same. -/
structure Keeps (s s' : OrgSession σ Text Bytes Fp) : Prop where
  roster : s'.roster = s.roster
  joined : s'.joined = s.joined
  own : s'.own = s.own
  seen : s'.lastRosterVersionSeen = s.lastRosterVersionSeen

section Keeps

variable {s' s'' : OrgSession σ Text Bytes Fp}

omit [DecidableEq Text]

theorem Keeps.trans (h : Keeps s s') (h' : Keeps s' s'') : Keeps s s'' :=
  ⟨h'.roster.trans h.roster, h'.joined.trans h.joined, h'.own.trans h.own, h'.seen.trans h.seen⟩

theorem Keeps.actingAdmin (h : Keeps s s') : s'.actingAdmin false = s.actingAdmin false := by
  simp only [OrgSession.actingAdmin, rosterRoleIsAdmin, orgRoster, h.roster, h.own]

theorem Keeps.ownRosterVersion (h : Keeps s s') :
    s'.ownRosterVersion false = s.ownRosterVersion false := by
  simp only [OrgSession.ownRosterVersion, orgRoster, h.roster]

variable (mls s faults)

theorem keeps_reconcileRosterMembership : Keeps s (s.reconcileRosterMembership mls faults) := by
  rw [reconcileRosterMembership]
  split
  · exact ⟨rfl, rfl, rfl, rfl⟩
  · split
    · exact ⟨rfl, rfl, rfl, rfl⟩
    · exact ⟨rfl, rfl, rfl, rfl⟩

variable [DecidableEq Text]

theorem keeps_retryLagged (mine : Option Nat) (i : Nat) (pending : List (RosterLaggedCommit Text)) :
    Keeps s (retryLagged mls faults mine i pending s) := by
  induction pending generalizing s i with
  | nil => exact ⟨rfl, rfl, rfl, rfl⟩
  | cons entry pending ih =>
    rw [retryLagged]
    refine Keeps.trans ?_ (ih _ (i + 1))
    split
    · exact ⟨rfl, rfl, rfl, rfl⟩
    · split
      · exact ⟨rfl, rfl, rfl, rfl⟩
      · exact ⟨rfl, rfl, rfl, rfl⟩

theorem keeps_retryRosterLagged : Keeps s (s.retryRosterLagged mls faults) := by
  rw [retryRosterLagged]
  split
  · exact ⟨rfl, rfl, rfl, rfl⟩
  · have hkeeps := keeps_retryLagged mls { s with rosterLag := [] } faults
      (s.ownRosterVersion faults.lagVersion) 0 s.rosterLag
    exact ⟨hkeeps.roster, hkeeps.joined, hkeeps.own, hkeeps.seen⟩

/-- A pass notes the version that it has read, and keeps the rest. -/
theorem keeps_syncRosterState :
    Keeps { s with lastRosterVersionSeen := s.ownRosterVersion faults.version }
      (s.syncRosterState mls faults) := by
  rw [syncRosterState]
  split
  · exact (keeps_retryRosterLagged ..).trans (keeps_reconcileRosterMembership ..)
  · next heq => exact ⟨rfl, rfl, rfl, (not_not.1 heq).symm⟩

theorem keeps_applyOrgCommit (faults : OrgCommitFaults σ Bytes) (commitB64 : Text)
    (authorRosterVersion : Option Nat) (senderPeerId : Option String) :
    Keeps s (s.applyOrgCommit mls faults commitB64 authorRosterVersion senderPeerId) := by
  cases senderPeerId with
  | none => exact ⟨rfl, rfl, rfl, rfl⟩
  | some sender =>
    simp only [applyOrgCommit]
    split
    · exact ⟨rfl, rfl, rfl, rfl⟩
    · split
      · split
        · exact ⟨rfl, rfl, rfl, rfl⟩
        · exact ⟨rfl, rfl, rfl, rfl⟩
      · exact ⟨rfl, rfl, rfl, rfl⟩

end Keeps

/-! ## Runs -/

omit [DecidableEq Text] in
variable (mls) in
/-- The step brings nobody into the tree who is absent from the roster. -/
def BringsMembers (s s' : OrgSession σ Text Bytes Fp) : Prop :=
  ∀ roster ∈ s.roster, ∀ identity ∈ mls.otherIdentities s'.group.member.crypto,
    identity ∈ mls.otherIdentities s.group.member.crypto ∨ roster.contains identity = true

variable (mls) in
/-- The pass at a version that was not seen before is made by a joined member, and nothing is
    refused during it; and as long as that version is the one of the roster, whoever gets a leaf
    is named by it. Only the admins of the roster count. -/
def Heeds (s : OrgSession σ Text Bytes Fp) : Event σ Text Bytes → Prop
  | .sync faults => ∀ version, s.ownRosterVersion faults.version = some version →
      s.lastRosterVersionSeen ≠ some version → s.actingAdmin false = true →
      faults = .none ∧ s.joined = true
  | .roster _ => True
  | .join crypto => s.ownRosterVersion false = s.lastRosterVersionSeen →
      ∀ roster ∈ s.roster, ∀ identity ∈ mls.otherIdentities crypto, roster.contains identity = true
  | event => s.ownRosterVersion false = s.lastRosterVersionSeen →
      s.BringsMembers mls (s.step mls event)

omit [DecidableEq Text] in
variable (mls) in
/-- What holds in every state: no version has been seen that is newer than the roster, and at the
    version that was seen last there is no revoked leaf. -/
structure Swept (s : OrgSession σ Text Bytes Fp) : Prop where
  seen : ∀ version ∈ s.lastRosterVersionSeen, ∃ roster ∈ s.roster, version ≤ roster.version
  clean : s.ownRosterVersion false = s.lastRosterVersionSeen → s.joined = true →
    s.actingAdmin false = true → s.Clean mls

omit [DecidableEq Text] in
theorem Swept.of_keeps {s' : OrgSession σ Text Bytes Fp} (h : s.Swept mls) (hkeeps : Keeps s s')
    (hbrings : s.ownRosterVersion false = s.lastRosterVersionSeen → s.BringsMembers mls s') :
    s'.Swept mls where
  seen version hversion := by
    rw [hkeeps.roster]
    exact h.seen version (hkeeps.seen ▸ hversion)
  clean hseen hjoined hadmin roster hroster identity hidentity := by
    rw [hkeeps.ownRosterVersion, hkeeps.seen] at hseen
    rw [hkeeps.roster] at hroster
    rw [hkeeps.joined] at hjoined
    rw [hkeeps.actingAdmin] at hadmin
    rcases hbrings hseen roster hroster identity hidentity with hold | hnamed
    · exact h.clean hseen hjoined hadmin roster hroster identity hold
    · exact hnamed

/-- A pass without a fault that does its work leaves no revoked leaf. -/
theorem syncRosterState_clean (hlaw : mls.Lawful)
    (hseen : s.ownRosterVersion false ≠ s.lastRosterVersionSeen) (hjoined : s.joined = true)
    (hadmin : s.actingAdmin false = true) : (s.syncRosterState mls .none).Clean mls := by
  have hpass : s.syncRosterState mls .none = reconcileRosterMembership mls .none
      (retryRosterLagged mls .none { s with
        lastRosterVersionSeen := s.ownRosterVersion false }) := if_pos hseen
  have hkeeps := keeps_retryRosterLagged mls
    { s with lastRosterVersionSeen := s.ownRosterVersion false } .none
  rw [hpass]
  exact reconcileRosterMembership_clean hlaw (hkeeps.joined.trans hjoined)
    (hkeeps.actingAdmin.trans hadmin)

theorem Swept.sync (hlaw : mls.Lawful) (h : s.Swept mls) (faults : PassFaults σ Bytes)
    (hheeds : s.Heeds mls (.sync faults)) : (s.syncRosterState mls faults).Swept mls := by
  have hkeeps := keeps_syncRosterState mls s faults
  refine ⟨fun version hversion => ?_, fun hseen hjoined hadmin => ?_⟩
  · rw [hkeeps.seen] at hversion
    rw [hkeeps.roster]
    obtain ⟨roster, hroster, rfl⟩ := Option.mem_map.1 hversion
    rw [orgRoster] at hroster
    split at hroster
    · cases hroster
    · exact ⟨roster, hroster, le_rfl⟩
  · have hadmin' : s.actingAdmin false = true := hkeeps.actingAdmin.symm.trans hadmin
    obtain ⟨roster, hroster, -⟩ := exists_roster_of_actingAdmin hadmin'
    have hcurrent : s.ownRosterVersion false = some roster.version := by
      rw [ownRosterVersion, orgRoster, hroster]
      rfl
    -- the version could be read, as it is the one that is noted
    have hread : s.ownRosterVersion faults.version = some roster.version := by
      have hnoted := hkeeps.seen.symm.trans (hseen.symm.trans hkeeps.ownRosterVersion)
      exact hnoted.trans hcurrent
    by_cases hold : s.lastRosterVersionSeen = some roster.version
    · have hidle : s.syncRosterState mls faults = s := if_neg (not_not.2 (hread.trans hold.symm))
      rw [hidle] at hjoined ⊢
      exact h.clean (hcurrent.trans hold.symm) hjoined hadmin'
    · obtain ⟨rfl, hjoined'⟩ := hheeds _ hread hold hadmin'
      exact syncRosterState_clean hlaw (fun h => hold (h.symm.trans hcurrent)) hjoined' hadmin'

/-- A step that meets the condition keeps it so. -/
theorem Swept.step (hlaw : mls.Lawful) (h : s.Swept mls) {event : Event σ Text Bytes}
    (hheeds : s.Heeds mls event) : (s.step mls event).Swept mls := by
  cases event with
  | sync faults => exact h.sync hlaw faults hheeds
  | roster next =>
    rw [OrgSession.step]
    split
    · next hnewer =>
      -- a newer version has not been seen yet
      refine ⟨fun version hversion => ?_, fun hseen => ?_⟩
      · obtain ⟨roster, hroster, hle⟩ := h.seen version hversion
        exact ⟨next, rfl, hle.trans (of_decide_eq_true ((Option.all_eq_true _ _).1 hnewer _ hroster)).le⟩
      · have hversion : s.lastRosterVersionSeen = some next.version := hseen.symm
        obtain ⟨roster, hroster, hle⟩ := h.seen next.version hversion
        have hlt := of_decide_eq_true ((Option.all_eq_true _ _).1 hnewer _ hroster)
        omega
    · exact h
  | commit faults commitB64 authorRosterVersion senderPeerId =>
    exact h.of_keeps (keeps_applyOrgCommit ..) hheeds
  | replay refused faults commits senderPeerId =>
    refine h.of_keeps ?_ hheeds
    rw [OrgSession.step]
    split
    · exact ⟨rfl, rfl, rfl, rfl⟩
    · exact ⟨rfl, rfl, rfl, rfl⟩
  | join crypto => exact ⟨h.seen, fun hseen _ _ => hheeds hseen⟩
  | change faults candidate raw =>
    refine h.of_keeps ?_ hheeds
    rw [OrgSession.step]
    split
    · exact ⟨rfl, rfl, rfl, rfl⟩
    · exact ⟨rfl, rfl, rfl, rfl⟩

omit [DecidableEq Text] in
/-- A session that has not seen a roster yet. -/
theorem Swept.initial (hseen : s.lastRosterVersionSeen = none) : s.Swept mls where
  seen version hversion := by
    rw [hseen] at hversion
    cases hversion
  clean hversion _ hadmin := by
    obtain ⟨roster, hroster, -⟩ := exists_roster_of_actingAdmin hadmin
    rw [hseen, ownRosterVersion, orgRoster, hroster] at hversion
    cases hversion

variable (mls) in
/-- What a pass without a fault is to achieve: the admin of the roster that is in the group is rid
    of every revoked leaf. -/
def Removes (s : OrgSession σ Text Bytes Fp) : Prop :=
  (s.syncRosterState mls .none).joined = true →
    (s.syncRosterState mls .none).actingAdmin false = true → (s.syncRosterState mls .none).Clean mls

/-- A pass without a fault leaves no revoked leaf exactly if the version of the roster is not the
    one that was seen last, unless there is none anyway. And it leaves none in every state of a run
    in which the pass at a new version is made by a joined member without a fault, and as long as
    that version is the one of the roster, whoever gets a leaf is named by it. -/
theorem revoked_removed_iff (hlaw : mls.Lawful) (s₀ : OrgSession σ Text Bytes Fp)
    (h₀ : s₀.lastRosterVersionSeen = none) :
    (∀ s : OrgSession σ Text Bytes Fp, s.Removes mls ↔
      s.ownRosterVersion false ≠ s.lastRosterVersionSeen ∨ s.joined = false ∨
        s.actingAdmin false = false ∨ s.Clean mls) ∧
    ∀ events s, Runs (step mls) (Heeds mls) s₀ events s → s.Removes mls := by
  have hiff : ∀ s : OrgSession σ Text Bytes Fp, s.Removes mls ↔
      s.ownRosterVersion false ≠ s.lastRosterVersionSeen ∨ s.joined = false ∨
        s.actingAdmin false = false ∨ s.Clean mls := by
    intro s
    have hkeeps := keeps_syncRosterState mls s .none
    have hadmin : (s.syncRosterState mls .none).actingAdmin false = s.actingAdmin false :=
      hkeeps.actingAdmin
    rw [Removes, hadmin, hkeeps.joined]
    by_cases hseen : s.ownRosterVersion false = s.lastRosterVersionSeen
    · have hidle : s.syncRosterState mls .none = s := if_neg (not_not.2 hseen)
      rw [hidle]
      cases hjoined : s.joined <;> cases hadmin' : s.actingAdmin false <;> simp [hseen]
    · simp only [ne_eq, hseen, not_false_eq_true, true_or, iff_true]
      exact syncRosterState_clean hlaw hseen
  refine ⟨hiff, fun events s hrun => (hiff s).2 ?_⟩
  have hswept : s.Swept mls :=
    hrun.invariant (P := fun s => s.Swept mls) (fun _ _ hheeds h => h.step hlaw hheeds)
      (.initial h₀)
  by_cases hseen : s.ownRosterVersion false = s.lastRosterVersionSeen
  · cases hjoined : s.joined with
    | false => exact .inr (.inl rfl)
    | true =>
      cases hadmin : s.actingAdmin false with
      | false => exact .inr (.inr (.inl rfl))
      | true => exact .inr (.inr (.inr (hswept.clean hseen hjoined hadmin)))
  · exact .inl hseen

end OrgSession

/-! ## A pass that is refused -/

/-- A symbolic commit: the epoch it is for, and the leaves that it removes. -/
structure Removal where
  epoch : Nat
  targets : List Nat
  deriving DecidableEq, Repr

/-- A symbolic MLS state. -/
structure RemovalState where
  epoch : Nat
  tree : OrgTree
  deriving DecidableEq, Repr

namespace Removal

def advance (x : RemovalState) (targets : List Nat) : RemovalState :=
  ⟨x.epoch + 1, { x.tree with leaves := x.tree.leaves.filter (·.index ∉ targets) }⟩

def context (x : RemovalState) : MlsHistoryContext Removal := ⟨⟨0, []⟩, x.epoch, ""⟩

/-- The implementation whose commits remove leaves. -/
def mls : OrgMls RemovalState (Option Removal) Removal Nat OrgTree where
  decode text := text.elim (.error (.codec "base64")) .ok
  encode := some
  commitEpoch commit := .ok commit.epoch
  epoch x := some x.epoch
  historyContext x := .ok (context x)
  tree := RemovalState.tree
  leaves t := t.leaves.map (·.index)
  fingerprint x := x.tree.own
  signerPublic x := ⟨x.tree.own, []⟩
  memberSigners x := x.tree.leaves.map fun l => l.identity.getD ""
  keyPackageSignerIsMember _ _ := .ok false
  stageMembership x commit :=
    if commit.epoch = x.epoch then
      let next := advance x commit.targets
      .ok ⟨next, context x, context next, commit, decide (x.tree.own ∈ commit.targets)⟩
    else .error (.openMls "commit does not apply")
  author _ _ := .error (.openMls "nobody joins")
  group x := some x.tree
  removeLeaves x targets := (advance x targets, ⟨x.epoch, targets⟩)

theorem lawful : mls.Lawful where
  group_removeLeaves h := by
    obtain rfl := Option.some.inj h
    rfl
  historyContext _ := ⟨_, rfl⟩

/-- The roster of the admin `a`, with or without `b`. -/
def roster (version : Nat) (others : List String) : OrgRoster :=
  ⟨version, ⟨"a", "admin"⟩ :: others.map (⟨·, "member"⟩)⟩

/-- The session of `a` in a group with `b`, before it looks at its roster. -/
def pair : OrgSession RemovalState (Option Removal) Removal Nat where
  group := .joined "g" "a" ⟨1, ⟨0, [⟨0, some "a"⟩, ⟨1, some "b"⟩]⟩⟩ false 0
  own := "a"
  joined := true
  roster := some (roster 1 ["b"])
  lastRosterVersionSeen := none
  rosterLag := []

/-- The store refuses every commit. -/
def full : Faults RemovalState Removal :=
  ⟨fun _ _ => some (.persistence "full"), fun _ => false, .none, .none, .none⟩

def refuses : PassFaults RemovalState Removal := { PassFaults.none with publish := fun _ => full }

/-- The roster of the admin does not name `b` any more, and the pass after it removes its leaf. -/
theorem revoked_removed_iff_pair :
    mls.otherIdentities (([.sync .none, .roster (roster 2 []), .sync .none].foldl
      (OrgSession.step mls) pair).group.member.crypto) = [] := by
  have hrun : Runs (OrgSession.step mls) (OrgSession.Heeds mls) pair
      [.sync .none, .roster (roster 2 [])]
      ([.sync .none, .roster (roster 2 [])].foldl (OrgSession.step mls) pair) :=
    .cons (fun _ _ _ _ => ⟨rfl, rfl⟩) (.cons trivial (.nil _))
  have hclean := (OrgSession.revoked_removed_iff lawful pair rfl).2 _ _ hrun (by decide +kernel)
    (by decide +kernel)
  refine List.eq_nil_iff_forall_not_mem.2 fun identity hidentity => ?_
  have hnamed := hclean (roster 2 []) (by decide +kernel) identity hidentity
  rw [show identity = "a" by simpa [OrgRoster.contains, roster, eq_comm] using hnamed] at hidentity
  revert hidentity
  decide +kernel

/-- The pass after the new roster is refused once by the store. Nothing is refused any more in the
    next one, at whose end the session is joined and its peer is an admin of the roster, but the
    leaf of `b` is still there. -/
theorem revoked_survives :
    let s := [.sync .none, .roster (roster 2 []), .sync refuses].foldl (OrgSession.step mls) pair
    (s.syncRosterState mls .none).joined = true ∧
      (s.syncRosterState mls .none).actingAdmin false = true ∧
      ¬ (s.syncRosterState mls .none).Clean mls := by
  refine ⟨by decide +kernel, by decide +kernel, fun hclean => ?_⟩
  have hnamed := hclean (roster 2 []) (by decide +kernel) "b" (by decide +kernel)
  revert hnamed
  decide

end Removal

end Mosh.Group
