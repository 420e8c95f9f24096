import Mosh.DmDevices.Session

/-!
# What a call can do

Everything that the calls of a session can do to it, said once. A call leaves the session as it
is, up to the MLS state of a message that it read (`Effect.idle`); notes something beside the
topology, such as a pinned roster (`Effect.note`); adds a claim in place (`Effect.claim`);
installs a commit (`Effect.commit`); or is the handshake with the first counterpart
(`Effect.handshake`).

* `step_effect`: every call has one of these effects;
* `step_of_inPlace`: a call that gets as far as adding a claim in place does so.
-/

namespace Mosh.DmDevices

open DeviceLink Checked

/-- What the sessions rely on: a copy of an MLS state and one that has read a message are in the
    same epoch with the same members, and an own commit leads to the next epoch. -/
structure OpenMls.Lawful {σ : Type} (mls : OpenMls σ) : Prop where
  restore_epoch : ∀ {x y}, mls.restore x = .ok y → mls.epoch y = mls.epoch x
  restore_members : ∀ {x y}, mls.restore x = .ok y → mls.members y = mls.members x
  receive_epoch : ∀ x b, mls.epoch (mls.processMessage x b).1 = mls.epoch x
  receive_members : ∀ x b, mls.members (mls.processMessage x b).1 = mls.members x
  addMembers_epoch : ∀ {x y package outcome}, mls.addMembers x package = .ok (y, outcome) →
    ∃ e, mls.epoch x = some e ∧ mls.epoch y = some (e + 1)
  removeLeaves_epoch : ∀ {x y leaves commit}, mls.removeLeaves x leaves = .ok (y, commit) →
    ∃ e, mls.epoch x = some e ∧ mls.epoch y = some (e + 1)
  /-- Epochs are numbers of 64 bits. -/
  epoch_lt : ∀ {x e}, mls.epoch x = some e → e < 2 ^ 64

variable {Key Signature σ : Type} {c : DmCrypto Key Signature σ}

/-- Two MLS states are in the same epoch of a group with the same members. -/
structure SameGroup (c : DmCrypto Key Signature σ) (x y : σ) : Prop where
  epoch : c.mls.epoch y = c.mls.epoch x
  members : c.mls.members y = c.mls.members x

namespace SameGroup

theorem refl (x : σ) : SameGroup c x x := ⟨rfl, rfl⟩

theorem restore (hl : c.mls.Lawful) {x y : σ} (h : c.mls.restore x = .ok y) : SameGroup c x y :=
  ⟨hl.restore_epoch h, hl.restore_members h⟩

theorem memberSigners {x y : σ} (h : SameGroup c x y) : c.memberSigners y = c.memberSigners x := by
  rw [DmCrypto.memberSigners, DmCrypto.memberSigners, h.members]

end SameGroup

namespace DeviceMembership

/-- The epochs of which the evidence is retained. -/
def evidence (m : DeviceMembership) : List Nat :=
  m.epochRecords.map (·.epoch) ++ m.removals.map (·.evidence.epoch)

/-- The evidence of an epoch is retained: it is there already, or is added. -/
def Retains (m m' : DeviceMembership) (e : Nat) : Prop :=
  (e ∈ m.evidence ∧ m'.evidence = m.evidence) ∨
    (e ∉ m.evidence ∧ m'.evidence.Perm (e :: m.evidence))

/-- Something was noted beside the topology. A roster is only pinned if it is accepted and
    extends the current one. -/
structure Notes (c : DmCrypto Key Signature σ) (m m' : DeviceMembership) : Prop where
  topology : m'.topology = m.topology
  joining : m'.joining = m.joining
  evidence : m'.evidence = m.evidence
  pins : m'.pendingRosters = m.pendingRosters ∨
    ∃ roster, m'.pendingRosters = (m.setPending roster).pendingRosters ∧
      (∃ devices, roster.devices c.toRosterCrypto = .ok devices) ∧
      ∀ current, m.currentRoster c.toEvidenceCrypto roster.userId = some current →
        roster.extends c.toRosterCrypto current = .ok true

theorem Notes.refl (m : DeviceMembership) : Notes c m m := ⟨rfl, rfl, rfl, .inl rfl⟩

end DeviceMembership

/-- The rosters of a topology are replaced by newer ones only. -/
def DmTopology.Grows (c : DmCrypto Key Signature σ) (t t' : DmTopology) : Prop :=
  ∀ user, t'.roster user = t.roster user ∨ ∃ roster, t'.roster user = some roster ∧
    (∃ devices, roster.devices c.toRosterCrypto = .ok devices) ∧
    ∀ base, t.roster user = some base → roster.extends c.toRosterCrypto base = .ok true

namespace PrivateDmSession

variable (s : PrivateDmSession σ)

/-- A commit that was installed: it leads to an epoch and is valid for the leaves of that epoch.
    It is the next commit of the group, or the one with which this device joined it. -/
structure Commits (c : DmCrypto Key Signature σ) (s : PrivateDmSession σ) (m : DeviceMembership)
    (y : σ) (m' : DeviceMembership) (e : Nat) : Prop where
  epoch : c.mls.epoch y = some e
  valid : m'.topology.validate c.toClaimCrypto s.sessionId (c.memberSigners y) = .ok ()
  grows : m.topology.Grows c m'.topology
  pins : m'.pendingRosters = m.pendingRosters
  advance : (m.joining.isSome ∧ m'.joining = none) ∨
    (m'.joining = m.joining ∧ ∃ before, c.mls.epoch s.crypto = some before ∧ e = before + 1)

end PrivateDmSession

/-! ## Rosters -/

namespace DmTopology

variable {t t' : DmTopology} {claim : IdentityClaim} {roster : DeviceRoster}

theorem Grows.refl (t : DmTopology) : t.Grows c t := fun _ => .inl rfl

/-- A newer roster is installed. -/
theorem grows_updateRoster (hdevices : ∃ devices, roster.devices c.toRosterCrypto = .ok devices)
    (h : t.updateRoster c.toClaimCrypto roster = .ok t') : t.Grows c t' := by
  obtain ⟨rfl, hext, -⟩ := updateRoster_eq_ok.1 h
  intro user
  rw [roster_setRoster]
  by_cases huser : roster.userId = user
  · rw [if_pos huser]
    exact .inr ⟨roster, rfl, hdevices, fun base hbase => hext base (huser ▸ hbase)⟩
  · rw [if_neg huser]
    exact .inl rfl

/-- The roster of a claim is noted. -/
theorem grows_noteRoster (hdevice : ∃ device, claim.device c.toClaimCrypto = .ok device)
    (h : t.noteRoster c.toClaimCrypto claim = .ok t') : t.Grows c t' := by
  obtain ⟨rfl, -⟩ | hupdate := noteRoster_eq_ok h
  · exact Grows.refl t'
  · obtain ⟨device, hdevice⟩ := hdevice
    obtain ⟨devices, hdevices, -⟩ := IdentityClaim.device_eq_ok hdevice
    exact grows_updateRoster ⟨devices, hdevices⟩ hupdate

/-- A claim is added. -/
theorem grows_addClient (t : DmTopology) (claim : IdentityClaim) :
    t.Grows c (t.addClient c.toClaimCrypto claim).1 := by
  rcases addClient_cases (c := c.toClaimCrypto) t claim with
    ⟨hsame, -⟩ | ⟨t', hverify, hnoted, hcases⟩
  · rw [hsame]
    exact Grows.refl t
  · have hgrows := grows_noteRoster (IdentityClaim.verify_eq_ok hverify).2 hnoted
    rcases hcases with ⟨hrefused, -⟩ | ⟨-, hok⟩ | ⟨-, -, hok⟩
    · rw [hrefused]
      exact hgrows
    · rw [hok]
      exact hgrows
    · rw [hok]
      exact hgrows

end DmTopology

/-! ## Evidence -/

namespace DeviceMembership

variable {m m' : DeviceMembership}

/-- What is not looked at when evidence is retained. -/
structure SameBeside (m m' : DeviceMembership) : Prop where
  topology : m'.topology = m.topology
  joining : m'.joining = m.joining
  pins : m'.pendingRosters = m.pendingRosters

/-- Retaining the evidence of an admission. -/
theorem retainEpoch_eq_ok {record : EpochRecord} (h : m.retainEpoch record = .ok m') :
    SameBeside m m' ∧ m.Retains m' record.epoch := by
  obtain ⟨_, hremovals, h⟩ := bind_eq_ok.1 h
  have hfresh : record.epoch ∉ m.removals.map (·.evidence.epoch) := by
    simpa [List.mem_map] using hremovals
  cases hfind : m.epochRecords.find? fun existing => decide (existing.epoch = record.epoch) with
  | some existing =>
    rw [hfind] at h
    obtain ⟨_, -, h⟩ := bind_eq_ok.1 h
    obtain rfl := Except.ok.inj h
    have hepoch : existing.epoch = record.epoch := by simpa using List.find?_some hfind
    refine ⟨⟨rfl, rfl, rfl⟩, .inl ⟨List.mem_append_left _ ?_, rfl⟩⟩
    exact List.mem_map.2 ⟨existing, List.mem_of_find?_eq_some hfind, hepoch⟩
  | none =>
    rw [hfind] at h
    obtain rfl := Except.ok.inj h
    refine ⟨⟨rfl, rfl, rfl⟩, .inr ⟨?_, ?_⟩⟩
    · rw [evidence, List.mem_append, not_or]
      refine ⟨?_, hfresh⟩
      simpa [List.mem_map] using List.find?_eq_none.1 hfind
    · show (_ ++ _ : List Nat).Perm _
      rw [List.map_append, List.map_singleton, List.append_assoc]
      exact List.perm_middle

/-- Retaining the evidence of a removal. -/
theorem retainRemoval_eq_ok {record : RemovalRecord} {localDevice : String}
    (h : m.retainRemoval c.toEvidenceCrypto record localDevice = .ok m') :
    SameBeside m m' ∧ m.Retains m' record.epoch := by
  obtain ⟨_, hrecords, h⟩ := bind_eq_ok.1 h
  have hfresh : record.epoch ∉ m.epochRecords.map (·.epoch) := by
    simpa [List.mem_map] using hrecords
  cases hfind : m.removals.find? fun journal => decide (journal.evidence.epoch = record.epoch) with
  | some existing =>
    rw [hfind] at h
    obtain ⟨_, -, h⟩ := bind_eq_ok.1 h
    obtain ⟨_, -, h⟩ := bind_eq_ok.1 h
    obtain ⟨_, -, h⟩ := bind_eq_ok.1 h
    obtain rfl := Except.ok.inj h
    have hepoch : existing.evidence.epoch = record.epoch := by simpa using List.find?_some hfind
    refine ⟨⟨rfl, rfl, rfl⟩, .inl ⟨List.mem_append_right _ ?_, rfl⟩⟩
    exact List.mem_map.2 ⟨existing, List.mem_of_find?_eq_some hfind, hepoch⟩
  | none =>
    rw [hfind] at h
    obtain ⟨waiting, -, h⟩ := bind_eq_ok.1 h
    obtain rfl := Except.ok.inj h
    refine ⟨⟨rfl, rfl, rfl⟩, .inr ⟨?_, ?_⟩⟩
    · rw [evidence, List.mem_append, not_or]
      refine ⟨hfresh, ?_⟩
      simpa [List.mem_map] using List.find?_eq_none.1 hfind
    · show (_ ++ _ : List Nat).Perm _
      rw [List.map_append, List.map_singleton, ← List.append_assoc]
      exact List.perm_append_singleton _ _

/-- A removed device is forgotten in the journals only. -/
theorem forgetRemovedPeer_eq_ok {target : String}
    (h : m.forgetRemovedPeer c.toEvidenceCrypto target = .ok m') :
    SameBeside m m' ∧ m'.evidence = m.evidence := by
  obtain ⟨client, -, h⟩ := bind_eq_ok.1 h
  obtain ⟨device, -, h⟩ := bind_eq_ok.1 h
  obtain rfl := Except.ok.inj h
  refine ⟨⟨rfl, rfl, rfl⟩, ?_⟩
  rw [evidence, evidence, List.map_map]
  rfl

/-- A roster is pinned only if it extends the current one. -/
theorem pinRoster_eq_ok {roster : DeviceRoster}
    (hdevices : ∃ devices, roster.devices c.toRosterCrypto = .ok devices)
    (h : m.pinRoster c.toEvidenceCrypto roster = .ok m') : Notes c m m' := by
  rw [pinRoster] at h
  cases hcurrent : m.currentRoster c.toEvidenceCrypto roster.userId with
  | none =>
    rw [hcurrent] at h
    obtain rfl := Except.ok.inj h
    refine ⟨rfl, rfl, rfl, .inr ⟨roster, rfl, hdevices, fun current h => ?_⟩⟩
    rw [hcurrent] at h
    cases h
  | some current =>
    rw [hcurrent] at h
    obtain ⟨known, -, h⟩ := bind_eq_ok.1 h
    cases known with
    | true =>
      obtain rfl := Except.ok.inj h
      exact Notes.refl m
    | false =>
      obtain ⟨newer, hnewer, h⟩ := bind_eq_ok.1 h
      obtain ⟨_, hcheck, h⟩ := bind_eq_ok.1 h
      obtain rfl := Except.ok.inj h
      rw [check_eq_ok] at hcheck
      rw [orError_eq_ok, hcheck] at hnewer
      refine ⟨rfl, rfl, rfl, .inr ⟨roster, rfl, hdevices, fun current' h => ?_⟩⟩
      rw [hcurrent] at h
      rwa [← Option.some.inj h]

/-- A roster that removes something is accepted. -/
theorem removesClient_devices {roster : DeviceRoster}
    (h : m.removesClient c.toEvidenceCrypto roster = true) :
    ∃ devices, roster.devices c.toRosterCrypto = .ok devices := by
  rw [removesClient, Bool.or_eq_true, Option.any_eq_true, List.any_eq_true] at h
  rcases h with ⟨base, -, h⟩ | ⟨client, -, h⟩
  · obtain ⟨_, hext, -⟩ := bind_eq_ok.1 (holds_eq_true.1 h)
    obtain ⟨devices, hdevices, -⟩ := bind_eq_ok.1 hext
    exact ⟨devices, hdevices⟩
  · obtain ⟨_, hext, -⟩ := bind_eq_ok.1 (holds_eq_true.1 (Bool.and_eq_true _ _ ▸ h).2)
    obtain ⟨devices, hdevices, -⟩ := bind_eq_ok.1 hext
    exact ⟨devices, hdevices⟩

/-- A roster that removes something is pinned. -/
theorem observeRosterRemoval_eq_ok {roster : DeviceRoster} {removed : Bool}
    (h : m.observeRosterRemoval c.toEvidenceCrypto roster = .ok (m', removed)) :
    Notes c m m' ∧ (removed = false → m' = m ∧ m.removesClient c.toEvidenceCrypto roster = false) := by
  rw [observeRosterRemoval] at h
  cases hremoves : m.removesClient c.toEvidenceCrypto roster with
  | false =>
    rw [hremoves] at h
    obtain ⟨rfl, rfl⟩ := Prod.mk.inj (Except.ok.inj h)
    exact ⟨Notes.refl m, fun _ => ⟨rfl, rfl⟩⟩
  | true =>
    rw [hremoves] at h
    obtain ⟨pinned, hpinned, h⟩ := bind_eq_ok.1 h
    obtain ⟨rfl, rfl⟩ := Prod.mk.inj (Except.ok.inj h)
    exact ⟨pinRoster_eq_ok (removesClient_devices hremoves) hpinned, fun h => (nomatch h)⟩

end DeviceMembership

/-! ## Commits -/

namespace PrivateDmSession

open DeviceMembership

variable {s : PrivateDmSession σ} {m m' : DeviceMembership} {y : σ} {e : Nat}
  {staged : Option (σ × DeviceMembership)} {identity : DeviceIdentity}

/-- The epoch after the one of a session. -/
theorem nextEpoch_eq_some {x : σ} (h : (c.mls.epoch x).bind checkedSucc = some e) :
    ∃ before, c.mls.epoch x = some before ∧ e = before + 1 := by
  obtain ⟨before, hbefore, h⟩ := Option.bind_eq_some_iff.1 h
  rw [checkedSucc] at h
  split at h
  · exact ⟨before, hbefore, (Option.some.inj h).symm⟩
  · cases h

/-- The membership after a removal. -/
theorem nextMembership_eq_ok {evidence : RemovalRecord} {localDevice : String}
    (hdevices : ∃ devices, evidence.roster.devices c.toRosterCrypto = .ok devices)
    (h : s.nextMembership c evidence y localDevice = .ok m') :
    ∃ m, s.membership = some m ∧ c.mls.epoch y = some evidence.epoch ∧
      m'.topology.validate c.toClaimCrypto s.sessionId (c.memberSigners y) = .ok () ∧
      m.topology.Grows c m'.topology ∧ m'.pendingRosters = m.pendingRosters ∧
      m'.joining = m.joining ∧ m.Retains m' evidence.epoch := by
  obtain ⟨m, hm, h⟩ := bind_eq_ok.1 h
  obtain ⟨forgot, hforgot, h⟩ := bind_eq_ok.1 h
  obtain ⟨topology, hupdate, h⟩ := bind_eq_ok.1 h
  obtain ⟨_, hvalid, h⟩ := bind_eq_ok.1 h
  obtain ⟨_, hcheck, h⟩ := bind_eq_ok.1 h
  obtain ⟨next, hretain, h⟩ := bind_eq_ok.1 h
  obtain rfl := Except.ok.inj h
  obtain ⟨hsame, hevidence⟩ := forgetRemovedPeer_eq_ok hforgot
  obtain ⟨hbeside, hretains⟩ := retainRemoval_eq_ok hretain
  rw [check_eq_ok, Bool.and_eq_true, decide_eq_true_eq] at hcheck
  refine ⟨m, getOr_eq_ok.1 hm, hcheck.1, ?_, ?_, ?_, ?_, ?_⟩
  · show next.topology.validate _ _ _ = _
    rw [hbeside.topology]
    exact hvalid
  · show m.topology.Grows c next.topology
    have hgrows := DmTopology.grows_updateRoster hdevices hupdate
    rw [hsame.topology] at hgrows
    rw [hbeside.topology]
    exact hgrows
  · exact hbeside.pins.trans hsame.pins
  · exact hbeside.joining.trans hsame.joining
  · have hsame : ({ forgot with topology } : DeviceMembership).evidence = m.evidence := hevidence
    rw [Retains, hsame] at hretains
    exact hretains

/-- The roster of the next removal is a verified one. -/
theorem nextLocalRemoval_devices {target : IdentityClaim} {roster : DeviceRoster}
    (h : m.nextLocalRemoval c.toEvidenceCrypto identity = .ok (some (target, roster))) :
    ∃ devices, roster.devices c.toRosterCrypto = .ok devices := by
  obtain ⟨next, -, h⟩ := bind_eq_ok.1 h
  rcases next with _ | ⟨target', roster'⟩
  · cases h
  · obtain ⟨author, hauthor, h⟩ := bind_eq_ok.1 h
    obtain ⟨devices, hdevices, -⟩ := bind_eq_ok.1 (orError_eq_ok.1 hauthor)
    have hsame := Except.ok.inj h
    split at hsame
    · obtain ⟨rfl, rfl⟩ := Prod.mk.inj (Option.some.inj hsame)
      exact ⟨devices, hdevices⟩
    · cases hsame

/-- A removal that is verified carries a verified roster. -/
theorem verify_devices {evidence : RemovalRecord} {author : String}
    (h : evidence.verify c s = .ok author) :
    ∃ devices, evidence.roster.devices c.toRosterCrypto = .ok devices := by
  obtain ⟨claim, hauthor, -⟩ := bind_eq_ok.1 h
  obtain ⟨m, -, hauthor⟩ := bind_eq_ok.1 hauthor
  obtain ⟨client, -, hauthor⟩ := bind_eq_ok.1 hauthor
  obtain ⟨base, -, hauthor⟩ := bind_eq_ok.1 hauthor
  obtain ⟨device, -, hauthor⟩ := bind_eq_ok.1 hauthor
  obtain ⟨devices, -, hauthor⟩ := bind_eq_ok.1 hauthor
  obtain ⟨_, -, hauthor⟩ := bind_eq_ok.1 hauthor
  obtain ⟨_, hcontext, -⟩ := bind_eq_ok.1 hauthor
  obtain ⟨groupId, -, hcontext⟩ := bind_eq_ok.1 hcontext
  obtain ⟨_, -, hcontext⟩ := bind_eq_ok.1 hcontext
  obtain ⟨_, hremoval, -⟩ := bind_eq_ok.1 hcontext
  rw [orError_eq_ok, DeviceRoster.verifiesRemovalExtension] at hremoval
  cases hlast : evidence.roster.getLast? with
  | none =>
    rw [hlast] at hremoval
    cases hremoval
  | some last =>
    rw [hlast] at hremoval
    obtain ⟨«extends», hext, -⟩ := bind_eq_ok.1 hremoval
    obtain ⟨devices, hdevices, -⟩ := bind_eq_ok.1 hext
    exact ⟨devices, hdevices⟩

/-- A removal that is staged is the next commit of the group. -/
theorem stageRemoval_eq_ok {evidence : RemovalRecord} {localDevice : String}
    (h : s.stageRemoval c evidence localDevice = .ok (y, m')) :
    ∃ m, s.membership = some m ∧ Commits c s m y m' evidence.epoch ∧
      m.Retains m' evidence.epoch := by
  obtain ⟨author, hverify, h⟩ := bind_eq_ok.1 h
  obtain ⟨_, hcheck, h⟩ := bind_eq_ok.1 h
  obtain ⟨copy, -, h⟩ := bind_eq_ok.1 h
  obtain ⟨crypto, -, h⟩ := bind_eq_ok.1 h
  obtain ⟨next, hnext, h⟩ := bind_eq_ok.1 h
  obtain ⟨rfl, rfl⟩ := Prod.mk.inj (Except.ok.inj h)
  rw [check_eq_ok, decide_eq_true_eq] at hcheck
  obtain ⟨m, hm, hepoch, hvalid, hgrows, hpins, hjoining, hretains⟩ :=
    nextMembership_eq_ok (verify_devices hverify) hnext
  exact ⟨m, hm, ⟨hepoch, hvalid, hgrows, hpins, .inr ⟨hjoining, nextEpoch_eq_some hcheck⟩⟩,
    hretains⟩

/-- The evidence of an own removal carries its roster. -/
theorem create_roster {session target : String} {roster : DeviceRoster} {commit : List UInt8}
    {evidence : RemovalRecord}
    (h : RemovalRecord.create c identity session target roster y commit = .ok evidence) :
    evidence.roster = roster := by
  obtain ⟨groupId, -, h⟩ := bind_eq_ok.1 h
  obtain ⟨epoch, -, h⟩ := bind_eq_ok.1 h
  obtain ⟨bytes, -, h⟩ := bind_eq_ok.1 h
  rw [← Except.ok.inj h]

/-- An own removal is the next commit of the group. -/
theorem stageOwnRemoval_eq_ok (hl : c.mls.Lawful)
    (h : s.stageOwnRemoval c identity = .ok (some (y, m'))) :
    ∃ m e, s.membership = some m ∧ Commits c s m y m' e ∧ m.Retains m' e := by
  obtain ⟨revoked, -, h⟩ := bind_eq_ok.1 h
  cases revoked with
  | true => cases h
  | false =>
    cases hm : s.membership with
    | none =>
      rw [hm] at h
      cases h
    | some m =>
      rw [hm] at h
      cases hwait : m.joining.isSome || !s.peerJoined with
      | true =>
        simp only [hwait] at h
        cases h
      | false =>
        simp only [hwait] at h
        obtain ⟨next, hnext, h⟩ := bind_eq_ok.1 h
        rcases next with _ | ⟨target, roster⟩
        · cases h
        · obtain ⟨copy, hcopy, h⟩ := bind_eq_ok.1 h
          obtain ⟨⟨crypto, commit⟩, hremove, h⟩ := bind_eq_ok.1 h
          obtain ⟨evidence, hevidence, h⟩ := bind_eq_ok.1 h
          obtain ⟨after, hafter, h⟩ := bind_eq_ok.1 h
          obtain ⟨rfl, rfl⟩ := Prod.mk.inj (Option.some.inj (Except.ok.inj h))
          have hdevices : ∃ devices, evidence.roster.devices c.toRosterCrypto = .ok devices := by
            rw [create_roster hevidence]
            exact nextLocalRemoval_devices hnext
          obtain ⟨leaf, -, hremove⟩ := bind_eq_ok.1 hremove
          obtain ⟨before, hbefore, hnext⟩ := hl.removeLeaves_epoch hremove
          obtain ⟨m₀, hm₀, hepoch, hvalid, hgrows, hpins, hjoining, hretains⟩ :=
            nextMembership_eq_ok hdevices hafter
          rw [hm] at hm₀
          obtain rfl := Option.some.inj hm₀
          rw [hl.restore_epoch hcopy] at hbefore
          rw [hnext] at hepoch
          have hadvance : evidence.epoch = before + 1 := (Option.some.inj hepoch).symm
          exact ⟨m, evidence.epoch, rfl, ⟨hnext.trans hepoch, hvalid, hgrows, hpins,
            .inr ⟨hjoining, before, hbefore, hadvance⟩⟩, hretains⟩

/-- An admission that is staged is the next commit of the group, or the one with which this
    device joins it. -/
theorem stageAdmission_eq_ok (hl : c.mls.Lawful) {time : Option Nat} {admission : Admission}
    (h : s.stageAdmission c time admission = .ok (y, m')) :
    ∃ m, s.membership = some m ∧ Commits c s m y m' admission.epoch ∧
      m'.evidence = m.evidence := by
  obtain ⟨m, hm, h⟩ := bind_eq_ok.1 h
  obtain ⟨copy, hcopy, h⟩ := bind_eq_ok.1 h
  obtain ⟨crypto, hcrypto, h⟩ := bind_eq_ok.1 h
  rcases hadd : m.topology.addClient c.toClaimCrypto admission.request.claim with ⟨topology, added⟩
  simp only [hadd] at h
  obtain ⟨_, -, h⟩ := bind_eq_ok.1 h
  obtain ⟨_, hvalid, h⟩ := bind_eq_ok.1 h
  obtain ⟨_, hcheck, h⟩ := bind_eq_ok.1 h
  obtain ⟨rfl, rfl⟩ := Prod.mk.inj (Except.ok.inj h)
  rw [check_eq_ok, Bool.and_eq_true, decide_eq_true_eq] at hcheck
  refine ⟨m, getOr_eq_ok.1 hm, ⟨hcheck.1, hvalid, ?_, rfl, ?_⟩, rfl⟩
  · have hgrows := DmTopology.grows_addClient (c := c) m.topology admission.request.claim
    rw [hadd] at hgrows
    exact hgrows
  · cases hjoin : m.joining with
    | some join => exact .inl ⟨rfl, rfl⟩
    | none =>
      simp only [hjoin] at hcrypto
      obtain ⟨_, hnext, -⟩ := bind_eq_ok.1 hcrypto
      rw [check_eq_ok, Bool.and_eq_true, decide_eq_true_eq] at hnext
      obtain ⟨before, hbefore, hadvance⟩ := nextEpoch_eq_some hnext.1
      rw [hl.restore_epoch hcopy] at hbefore
      exact .inr ⟨rfl, before, hbefore, hadvance⟩

/-- Evidence that is retained leaves a staged commit as it is. -/
theorem Commits.retain (h : Commits c s m y m' e) {m'' : DeviceMembership}
    (hsame : SameBeside m' m'') : Commits c s m y m'' e := by
  refine ⟨h.epoch, ?_, ?_, hsame.pins.trans h.pins, ?_⟩
  · rw [hsame.topology]
    exact h.valid
  · rw [hsame.topology]
    exact h.grows
  · rw [hsame.joining]
    exact h.advance

/-- The admission of a device that asks to join is the next commit of the group. -/
theorem stageJoin_eq_ok (hl : c.mls.Lawful) {host : Host} {sender : DeviceDescriptor}
    {request : JoinRequest}
    (h : s.stageJoin c host identity sender request = .ok (some (y, m'))) :
    ∃ m e, s.membership = some m ∧ Commits c s m y m' e ∧ m.Retains m' e := by
  obtain ⟨_, -, h⟩ := bind_eq_ok.1 h
  obtain ⟨m, hm, h⟩ := bind_eq_ok.1 h
  obtain ⟨_, -, h⟩ := bind_eq_ok.1 h
  obtain ⟨_, -, h⟩ := bind_eq_ok.1 h
  obtain ⟨_, -, h⟩ := bind_eq_ok.1 h
  obtain ⟨_, -, h⟩ := bind_eq_ok.1 h
  obtain ⟨_, -, h⟩ := bind_eq_ok.1 h
  obtain ⟨_, -, h⟩ := bind_eq_ok.1 h
  cases hdone : (m.topology.client request.claim.mlsSigner).isSome || m.delivery.isSome with
  | true =>
    simp only [hdone] at h
    cases h
  | false =>
    simp only [hdone] at h
    obtain ⟨_, -, h⟩ := bind_eq_ok.1 h
    obtain ⟨copy, hcopy, h⟩ := bind_eq_ok.1 h
    obtain ⟨⟨crypto, outcome⟩, hcommit, h⟩ := bind_eq_ok.1 h
    rcases hadd : m.topology.addClient c.toClaimCrypto request.claim with ⟨topology, added⟩
    simp only [hadd] at h
    obtain ⟨_, -, h⟩ := bind_eq_ok.1 h
    obtain ⟨_, hvalid, h⟩ := bind_eq_ok.1 h
    obtain ⟨groupId, -, h⟩ := bind_eq_ok.1 h
    obtain ⟨epoch, hepoch, h⟩ := bind_eq_ok.1 h
    obtain ⟨evidence, hevidence, h⟩ := bind_eq_ok.1 h
    obtain ⟨next, hretain, h⟩ := bind_eq_ok.1 h
    obtain ⟨journal, -, h⟩ := bind_eq_ok.1 h
    obtain ⟨rfl, rfl⟩ := Prod.mk.inj (Option.some.inj (Except.ok.inj h))
    rw [getOr_eq_ok] at hepoch
    obtain ⟨bytes, -, hevidence⟩ := bind_eq_ok.1 hevidence
    have hrecord : evidence.epoch = epoch := by rw [← Except.ok.inj hevidence]; rfl
    obtain ⟨hsame, hretains⟩ := retainEpoch_eq_ok hretain
    obtain ⟨before, hbefore, hnext⟩ := hl.addMembers_epoch hcommit
    rw [hl.restore_epoch hcopy] at hbefore
    have hgrows := DmTopology.grows_addClient (c := c) m.topology request.claim
    rw [hadd] at hgrows
    have hadvance : epoch = before + 1 := by
      rw [hepoch] at hnext
      exact Option.some.inj hnext
    have hcommits : Commits c s m crypto { m with topology } epoch :=
      ⟨hepoch, hvalid, hgrows, rfl, .inr ⟨rfl, before, hbefore, hadvance⟩⟩
    refine ⟨m, epoch, getOr_eq_ok.1 hm, ?_, ?_⟩
    · exact hcommits.retain ⟨hsame.topology, hsame.joining, hsame.pins⟩
    · rw [hrecord] at hretains
      exact hretains

/-- The evidence that comes with an admission is of its epoch. -/
theorem fromAdmission_epoch {sender : DeviceDescriptor} {roster : DeviceRoster}
    {admission : Admission} {evidence : Option EpochRecord}
    (h : EpochRecord.fromAdmission c.toEvidenceCrypto sender roster admission = .ok evidence) :
    (evidence = none ∧ admission.recoveryAuthorization = none) ∨
      ∃ record, evidence = some record ∧ record.epoch = admission.epoch := by
  rw [EpochRecord.fromAdmission] at h
  cases hauth : admission.recoveryAuthorization with
  | none =>
    rw [hauth] at h
    exact .inl ⟨(Except.ok.inj h).symm, rfl⟩
  | some authorization =>
    rw [hauth] at h
    obtain ⟨_, -, h⟩ := bind_eq_ok.1 h
    obtain ⟨_, -, h⟩ := bind_eq_ok.1 h
    obtain ⟨_, -, h⟩ := bind_eq_ok.1 h
    obtain ⟨_, -, h⟩ := bind_eq_ok.1 h
    exact .inr ⟨_, (Except.ok.inj h).symm, rfl⟩

/-- An admission that another device sends. -/
theorem stageReceivedAdmission_eq_ok (hl : c.mls.Lawful) {sender : DeviceDescriptor}
    {senderRoster : DeviceRoster} {admission : Admission}
    (h : s.stageReceivedAdmission c identity sender senderRoster admission =
      .ok (some (y, m'))) :
    ∃ m e, s.membership = some m ∧ Commits c s m y m' e ∧
      (m.Retains m' e ∨ admission.recoveryAuthorization = none ∧ m'.evidence = m.evidence) := by
  obtain ⟨_, -, h⟩ := bind_eq_ok.1 h
  obtain ⟨_, -, h⟩ := bind_eq_ok.1 h
  obtain ⟨_, -, h⟩ := bind_eq_ok.1 h
  obtain ⟨_, -, h⟩ := bind_eq_ok.1 h
  obtain ⟨_, -, h⟩ := bind_eq_ok.1 h
  obtain ⟨evidence, hevidence, h⟩ := bind_eq_ok.1 h
  split at h
  · cases h
  · obtain ⟨⟨crypto, next⟩, hstage, h⟩ := bind_eq_ok.1 h
    obtain ⟨m, hm, hcommits, hsame⟩ := stageAdmission_eq_ok hl hstage
    rcases fromAdmission_epoch hevidence with ⟨rfl, hnone⟩ | ⟨record, rfl, hepoch⟩
    · obtain ⟨rfl, rfl⟩ := Prod.mk.inj (Option.some.inj (Except.ok.inj h))
      exact ⟨m, _, hm, hcommits, .inr ⟨hnone, hsame⟩⟩
    · obtain ⟨retained, hretain, h⟩ := bind_eq_ok.1 h
      obtain ⟨rfl, rfl⟩ := Prod.mk.inj (Option.some.inj (Except.ok.inj h))
      obtain ⟨hbeside, hretains⟩ := retainEpoch_eq_ok hretain
      rw [Retains, hepoch, hsame] at hretains
      exact ⟨m, _, hm, hcommits.retain hbeside, .inl hretains⟩

/-- The evidence of an admission that was missed. -/
theorem stageRecoveryEpoch_eq_ok (hl : c.mls.Lawful) {host : Host} {sender : DeviceDescriptor}
    {roster : DeviceRoster} {response : RecoveryEpoch}
    (h : s.stageRecoveryEpoch c host sender roster response = .ok staged) :
    ∃ y m' m, staged = some (y, m') ∧ s.membership = some m ∧
      Commits c s m y m' response.evidence.epoch ∧ m.Retains m' response.evidence.epoch ∧
      s.nextEpoch c = some response.evidence.epoch := by
  obtain ⟨_, -, h⟩ := bind_eq_ok.1 h
  obtain ⟨_, -, h⟩ := bind_eq_ok.1 h
  obtain ⟨_, -, h⟩ := bind_eq_ok.1 h
  obtain ⟨_, -, h⟩ := bind_eq_ok.1 h
  obtain ⟨_, -, h⟩ := bind_eq_ok.1 h
  obtain ⟨_, hnext, h⟩ := bind_eq_ok.1 h
  obtain ⟨_, -, h⟩ := bind_eq_ok.1 h
  obtain ⟨_, -, h⟩ := bind_eq_ok.1 h
  obtain ⟨_, -, h⟩ := bind_eq_ok.1 h
  obtain ⟨_, -, h⟩ := bind_eq_ok.1 h
  obtain ⟨⟨crypto, next⟩, hstage, h⟩ := bind_eq_ok.1 h
  obtain ⟨retained, hretain, h⟩ := bind_eq_ok.1 h
  obtain ⟨_, -, h⟩ := bind_eq_ok.1 h
  obtain ⟨_, -, h⟩ := bind_eq_ok.1 h
  obtain ⟨m, hm, hcommits, hsame⟩ := stageAdmission_eq_ok hl hstage
  obtain ⟨hbeside, hretains⟩ := retainEpoch_eq_ok hretain
  rw [Retains, hsame] at hretains
  rw [check_eq_ok, Bool.and_eq_true, decide_eq_true_eq] at hnext
  exact ⟨crypto, _, m, (Except.ok.inj h).symm, hm,
    (hcommits.retain hbeside).retain ⟨rfl, rfl, rfl⟩, hretains, hnext.1⟩

/-- The evidence of a removal that was missed. -/
theorem stageRecoveryRemoval_eq_ok {host : Host} {sender : DeviceDescriptor}
    {roster : DeviceRoster} {response : RecoveryRemoval}
    (h : s.stageRecoveryRemoval c host identity sender roster response = .ok staged) :
    ∃ y m' m, staged = some (y, m') ∧ s.membership = some m ∧
      Commits c s m y m' response.evidence.epoch ∧ m.Retains m' response.evidence.epoch := by
  obtain ⟨_, -, h⟩ := bind_eq_ok.1 h
  obtain ⟨_, -, h⟩ := bind_eq_ok.1 h
  obtain ⟨_, -, h⟩ := bind_eq_ok.1 h
  obtain ⟨_, -, h⟩ := bind_eq_ok.1 h
  obtain ⟨_, -, h⟩ := bind_eq_ok.1 h
  obtain ⟨⟨crypto, next⟩, hstage, h⟩ := bind_eq_ok.1 h
  obtain ⟨_, -, h⟩ := bind_eq_ok.1 h
  obtain ⟨_, -, h⟩ := bind_eq_ok.1 h
  obtain ⟨m, hm, hcommits, hretains⟩ := stageRemoval_eq_ok hstage
  exact ⟨crypto, _, m, (Except.ok.inj h).symm, hm, hcommits.retain ⟨rfl, rfl, rfl⟩, hretains⟩

/-- A removal that another device sends. -/
theorem stageReceivedRemoval_eq_ok {sender : DeviceDescriptor} {roster : DeviceRoster}
    {evidence : RemovalRecord}
    (h : s.stageReceivedRemoval c identity sender roster evidence = .ok (some (y, m'))) :
    ∃ m e, s.membership = some m ∧ Commits c s m y m' e ∧ m.Retains m' e := by
  obtain ⟨_, -, h⟩ := bind_eq_ok.1 h
  obtain ⟨_, -, h⟩ := bind_eq_ok.1 h
  obtain ⟨m, -, h⟩ := bind_eq_ok.1 h
  split at h
  · obtain ⟨_, -, h⟩ := bind_eq_ok.1 h
    obtain ⟨_, -, h⟩ := bind_eq_ok.1 h
    obtain ⟨_, -, h⟩ := bind_eq_ok.1 h
    cases h
  · obtain ⟨⟨crypto, next⟩, hstage, h⟩ := bind_eq_ok.1 h
    obtain ⟨rfl, rfl⟩ := Prod.mk.inj (Option.some.inj (Except.ok.inj h))
    obtain ⟨m, hm, hcommits, hretains⟩ := stageRemoval_eq_ok hstage
    exact ⟨m, _, hm, hcommits, hretains⟩

end PrivateDmSession

/-! ## Effects -/

namespace DeviceCall

/-- The call is the handshake with the first counterpart. -/
def isHandshake : DeviceCall → Bool
  | .answerKeyPackage .. | .acceptWelcome .. => true
  | _ => false

/-- An admission carries its recovery authorization. -/
def carriesEvidence : DeviceCall → Bool
  | .applyDeviceAdmission _ _ _ _ admission => admission.recoveryAuthorization.isSome
  | _ => true

end DeviceCall

namespace PrivateDmSession

open DeviceMembership

/-- The call gets as far as adding a claim in place: of a client, or the own one. -/
inductive InPlace (c : DmCrypto Key Signature σ) (s : PrivateDmSession σ) :
    DeviceCall → σ → DeviceMembership → IdentityClaim → Prop
  | accepted {ciphertext body signer : List UInt8} {x : σ} {m : DeviceMembership}
      {claim : IdentityClaim}
      (decrypts : c.decryptWithSigner s.crypto ciphertext = (x, .ok (body, signer)))
      (checked : PrivateDmSession.checkClaim c { s with crypto := x } body signer =
        .ok (claim, m))
      (keeps : m.removesClient c.toEvidenceCrypto claim.roster = false)
      (known : checkKnown c m claim = .ok ()) :
      InPlace c s (.acceptIdentityClaim (.ok ciphertext)) x m claim
  | own {identity : DeviceIdentity} {claim : IdentityClaim}
      (active : s.membership.any (·.revoked) = false)
      (makes : s.currentDeviceClaim c identity = .ok claim)
      (user : (s.startMembership identity).topology.ownUserId = identity.roster.userId)
      (changed : claimChanged c (s.startMembership identity) claim = .ok true) :
      InPlace c s (.refreshDeviceIdentity identity) s.crypto (s.startMembership identity) claim

/-- What a call does to a session. -/
inductive Effect (c : DmCrypto Key Signature σ) (s : PrivateDmSession σ) (l : DeviceCall) :
    PrivateDmSession σ → Prop
  | idle {x : σ} (same : SameGroup c s.crypto x) : Effect c s l { s with crypto := x }
  | start (identity : DeviceIdentity) :
      Effect c s l { s with membership := some (s.startMembership identity) }
  | note {x : σ} {m m' : DeviceMembership} (same : SameGroup c s.crypto x)
      (had : s.membership = some m) (notes : Notes c m m') :
      Effect c s l { s with crypto := x, membership := some m' }
  | claim {x : σ} {m : DeviceMembership} {claim : IdentityClaim} {joined : Bool}
      (same : SameGroup c s.crypto x) (inPlace : InPlace c s l x m claim)
      (stays : s.peerJoined = true → joined = true) :
      Effect c s l { s with
        crypto := x
        membership := some { m with topology := (m.topology.addClient c.toClaimCrypto claim).1 }
        peerJoined := joined }
  | commit {y : σ} {m m' : DeviceMembership} {e : Nat} (device : l.isHandshake = false)
      (had : s.membership = some m)
      (commits : Commits c s m y m' e)
      (retains : m.Retains m' e ∨ l.carriesEvidence = false ∧ m'.evidence = m.evidence) :
      Effect c s l (s.installed c y m')
  | handshake {y : σ} {joined : Bool} (first : l.isHandshake = true) (fresh : s.peerJoined = false)
      (epoch : c.mls.epoch y = c.mls.epoch s.crypto ∨ (c.mls.epoch s.crypto).isSome ∨
        ∀ m, s.membership = some m → m.joining = none) :
      Effect c s l { s with crypto := y, peerJoined := joined }

variable {s : PrivateDmSession σ} {l : DeviceCall} {host : Host}

theorem Effect.unchanged (s : PrivateDmSession σ) (l : DeviceCall) : Effect c s l s :=
  .idle (SameGroup.refl s.crypto)

/-- A staged commit is installed, or nothing is. -/
theorem transition_cases (s : PrivateDmSession σ) (host : Host)
    (staged : Except PrivateDmRuntimeError (Option (σ × DeviceMembership)))
    (after : Except PrivateDmRuntimeError Unit) :
    (s.transition c host staged after).1 = s ∨ ∃ y m', staged = .ok (some (y, m')) ∧
      (s.transition c host staged after).1 = s.installed c y m' := by
  rcases staged with e | _ | ⟨y, m'⟩
  · exact .inl rfl
  · exact .inl rfl
  · simp only [transition, installDeviceTransition]
    cases (do ← getOr invalid host.store : Except PrivateDmRuntimeError Unit) with
    | error e => exact .inl rfl
    | ok _ => exact .inr ⟨y, m', rfl, rfl⟩

/-- The effect of a commit. -/
theorem effect_transition {staged : Except PrivateDmRuntimeError (Option (σ × DeviceMembership))}
    {after : Except PrivateDmRuntimeError Unit} (hdevice : l.isHandshake = false)
    (h : ∀ y m', staged = .ok (some (y, m')) → ∃ m e, s.membership = some m ∧
      Commits c s m y m' e ∧
      (m.Retains m' e ∨ l.carriesEvidence = false ∧ m'.evidence = m.evidence)) :
    Effect c s l (s.transition c host staged after).1 := by
  rcases transition_cases (c := c) s host staged after with hsame | ⟨y, m', hstaged, hinstalled⟩
  · rw [hsame]
    exact Effect.unchanged s l
  · rw [hinstalled]
    obtain ⟨m, e, hm, hcommits, hretains⟩ := h y m' hstaged
    exact .commit hdevice hm hcommits hretains

/-- A membership is saved. -/
theorem effect_save {m m' : DeviceMembership} (hm : s.membership = some m) (h : Notes c m m') :
    Effect c s l (s.saveRecoveryMembership host m').1 := by
  rw [saveRecoveryMembership]
  cases (do ← getOr invalid host.store : Except PrivateDmRuntimeError Unit) with
  | error e => exact Effect.unchanged s l
  | ok _ => exact .note (SameGroup.refl _) hm h

/-- A message that is read leaves the group as it is. -/
theorem decrypt_same (hl : c.mls.Lawful) (x : σ) (b : List UInt8) :
    SameGroup c x (c.decryptWithSigner x b).1 :=
  ⟨hl.receive_epoch x b, hl.receive_members x b⟩

/-- The membership to which a claim is added. -/
theorem checkClaim_membership {body signer : List UInt8} {claim : IdentityClaim}
    {m : DeviceMembership} (h : s.checkClaim c body signer = .ok (claim, m)) :
    s.membership = some m := by
  obtain ⟨claim', -, h⟩ := bind_eq_ok.1 h
  obtain ⟨_, -, h⟩ := bind_eq_ok.1 h
  obtain ⟨_, -, h⟩ := bind_eq_ok.1 h
  obtain ⟨m', hm, h⟩ := bind_eq_ok.1 h
  have hsame : m' = m := by
    split at h
    · obtain ⟨_, -, h⟩ := bind_eq_ok.1 h
      exact (Prod.mk.inj (Except.ok.inj h)).2
    · obtain ⟨_, -, h⟩ := bind_eq_ok.1 h
      exact (Prod.mk.inj (Except.ok.inj h)).2
  rw [← hsame]
  exact getOr_eq_ok.1 hm

/-- The effect of a claim that is received. -/
theorem effect_acceptIdentityClaim (hl : c.mls.Lawful)
    (ciphertext : Except PrivateDmRuntimeError (List UInt8)) :
    Effect c s (.acceptIdentityClaim ciphertext) (s.acceptIdentityClaim c ciphertext).1 := by
  rcases ciphertext with e | bytes
  · exact Effect.unchanged s _
  · rw [acceptIdentityClaim]
    have hsame := decrypt_same hl s.crypto bytes
    rcases hdecrypt : c.decryptWithSigner s.crypto bytes with ⟨x, e | ⟨body, signer⟩⟩
    · rw [hdecrypt] at hsame
      exact .idle hsame
    · rw [hdecrypt] at hsame
      simp only [acceptClaim]
      cases hcheck : PrivateDmSession.checkClaim c { s with crypto := x } body signer with
      | error e => exact .idle hsame
      | ok checked =>
        obtain ⟨claim, m⟩ := checked
        simp only
        have hm : s.membership = some m := checkClaim_membership (s := { s with crypto := x }) hcheck
        cases hobserve : m.observeRosterRemoval c.toEvidenceCrypto claim.roster with
        | error e => exact .idle hsame
        | ok observed =>
          obtain ⟨m', removed⟩ := observed
          obtain ⟨hnotes, hkeep⟩ := observeRosterRemoval_eq_ok hobserve
          cases removed with
          | true => exact .note hsame hm hnotes
          | false =>
            obtain ⟨rfl, hkeep⟩ := hkeep rfl
            simp only
            cases hknown : checkKnown c m' claim with
            | error e => exact .idle hsame
            | ok _ =>
              have hplace := InPlace.accepted hdecrypt hcheck hkeep hknown
              have hclaim : ∀ joined, _ → Effect c s _ { s with
                  crypto := x
                  membership := some { m' with
                    topology := (m'.topology.addClient c.toClaimCrypto claim).1 }
                  peerJoined := joined } := fun joined => Effect.claim hsame hplace
              rcases hadd : m'.topology.addClient c.toClaimCrypto claim with ⟨topology, e | _⟩
              · simp only [hadd] at hclaim
                simp only [addClaim, hadd]
                exact hclaim _ id
              · simp only [hadd] at hclaim
                simp only [addClaim, hadd]
                refine hclaim _ fun hj => ?_
                rw [hj]
                rfl

/-- The effect of the own claim. -/
theorem effect_refreshDeviceIdentity (identity : DeviceIdentity) :
    Effect c s (.refreshDeviceIdentity identity) (s.refreshDeviceIdentity c identity).1 := by
  rw [refreshDeviceIdentity]
  split
  · exact Effect.unchanged s _
  · next hactive =>
    split
    · exact Effect.unchanged s _
    · next claim hclaim =>
      simp only
      split
      · exact .start identity
      · next huser =>
        cases hchanged : claimChanged c (s.startMembership identity) claim with
        | error e => exact .start identity
        | ok changed =>
          cases changed with
          | false => exact .start identity
          | true =>
            exact .claim (SameGroup.refl _) (InPlace.own (by simpa using hactive) hclaim
              (not_not.1 huser) hchanged) id

/-- The effect of a newer roster of the own account. -/
theorem effect_noteRosterRevocation (identity : DeviceIdentity) :
    Effect c s l (s.noteRosterRevocation c identity).1 := by
  rw [noteRosterRevocation]
  cases hm : s.membership with
  | none => exact Effect.unchanged s l
  | some m =>
    simp only
    split
    · exact Effect.unchanged s l
    · next next hnext =>
      refine .note (SameGroup.refl _) hm ?_
      obtain ⟨revoked, hrevoked, hnext⟩ := bind_eq_ok.1 hnext
      obtain ⟨devices, hdevices, -⟩ := bind_eq_ok.1 hrevoked
      rw [orError_eq_ok] at hdevices
      split at hnext
      · obtain rfl := Except.ok.inj hnext
        exact ⟨rfl, rfl, rfl, .inl rfl⟩
      · split at hnext
        · next hnone =>
          obtain rfl := Except.ok.inj hnext
          refine ⟨rfl, rfl, rfl, .inr ⟨identity.roster, rfl, ⟨devices, hdevices⟩,
            fun current hcurrent => ?_⟩⟩
          rw [hnone] at hcurrent
          cases hcurrent
        · next known hknown =>
          split at hnext
          · obtain rfl := Except.ok.inj hnext
            exact Notes.refl m
          · obtain ⟨newer, hnewer, hnext⟩ := bind_eq_ok.1 hnext
            cases newer with
            | false =>
              obtain rfl := Except.ok.inj hnext
              exact Notes.refl m
            | true =>
              obtain rfl := Except.ok.inj hnext
              refine ⟨rfl, rfl, rfl, .inr ⟨identity.roster, rfl, ⟨devices, hdevices⟩,
            fun current hcurrent => ?_⟩⟩
              rw [hknown] at hcurrent
              rw [← Option.some.inj hcurrent]
              exact orError_eq_ok.1 hnewer

/-- A membership that is installed in the same epoch. -/
theorem installed_same {y : σ} {m' : DeviceMembership} (h : SameGroup c s.crypto y) :
    s.installed c y m' = { s with crypto := y, membership := some m' } := by
  rw [installed, h.epoch]
  simp

/-- The effect of an admission that was saved elsewhere. -/
theorem effect_acknowledgeDeviceAdmission (hl : c.mls.Lawful) {sender : DeviceDescriptor}
    {roster : DeviceRoster} {id request : String} {epoch : Nat} :
    Effect c s l (s.acknowledgeDeviceAdmission c host sender roster id request epoch).1 := by
  rw [acknowledgeDeviceAdmission]
  rcases transition_cases (c := c) s host _ (.ok ()) with
    hsame | ⟨y, m', hstaged, hinstalled⟩
  · rw [hsame]
    exact Effect.unchanged s l
  · rw [hinstalled]
    obtain ⟨_, -, hstaged⟩ := bind_eq_ok.1 hstaged
    obtain ⟨m, hm, hstaged⟩ := bind_eq_ok.1 hstaged
    obtain ⟨_, -, hstaged⟩ := bind_eq_ok.1 hstaged
    obtain ⟨_, -, hstaged⟩ := bind_eq_ok.1 hstaged
    obtain ⟨_, -, hstaged⟩ := bind_eq_ok.1 hstaged
    obtain ⟨_, -, hstaged⟩ := bind_eq_ok.1 hstaged
    split at hstaged
    · cases hstaged
    · obtain ⟨_, -, hstaged⟩ := bind_eq_ok.1 hstaged
      obtain ⟨done, -, hstaged⟩ := bind_eq_ok.1 hstaged
      obtain ⟨copy, hcopy, hstaged⟩ := bind_eq_ok.1 hstaged
      obtain ⟨rfl, rfl⟩ := Prod.mk.inj (Option.some.inj (Except.ok.inj hstaged))
      have hgroup := SameGroup.restore hl hcopy
      rw [installed_same hgroup]
      exact .note hgroup (getOr_eq_ok.1 hm) ⟨rfl, rfl, rfl, .inl rfl⟩

/-- A value of a list that is changed keeps what the change keeps. -/
theorem map_modify_eq {α β : Type} {f : α → α} {g : α → β} (h : ∀ a, g (f a) = g a)
    (l : List α) (i : Nat) : (l.modify i f).map g = l.map g := by
  refine List.ext_getElem? fun j => ?_
  rw [List.getElem?_map, List.getElem?_map, List.getElem?_modify]
  by_cases hij : i = j
  · simp [hij, Option.map_map, Function.comp_def, h]
  · simp [hij]

/-- The effect of a removal that was saved elsewhere. -/
theorem effect_acknowledgeRemoval {sender : DeviceDescriptor} {roster : DeviceRoster}
    {id digest : String} {epoch : Nat} :
    Effect c s l (s.acknowledgeRemoval c host sender roster id epoch digest).1 := by
  rw [acknowledgeRemoval]
  simp only
  split
  · exact Effect.unchanged s l
  · next next hnext =>
    obtain ⟨_, -, hnext⟩ := bind_eq_ok.1 hnext
    obtain ⟨_, -, hnext⟩ := bind_eq_ok.1 hnext
    obtain ⟨m, hm, hnext⟩ := bind_eq_ok.1 hnext
    obtain ⟨_, -, hnext⟩ := bind_eq_ok.1 hnext
    obtain ⟨_, -, hnext⟩ := bind_eq_ok.1 hnext
    obtain ⟨_, -, hnext⟩ := bind_eq_ok.1 hnext
    obtain rfl := Except.ok.inj hnext
    refine effect_save (getOr_eq_ok.1 hm) ⟨rfl, rfl, ?_, .inl rfl⟩
    refine congrArg (m.epochRecords.map (·.epoch) ++ ·) ?_
    refine map_modify_eq ?_ _ _
    intro journal
    rfl

/-- A removal that is ahead is noted. -/
theorem bootstrapFutureRemoval_eq_ok {sender : DeviceDescriptor} {roster : DeviceRoster}
    {evidence : RemovalRecord} {next : DeviceMembership}
    (h : s.bootstrapFutureRemoval c host sender roster evidence = .ok (some next)) :
    ∃ m, s.membership = some m ∧ Notes c m next := by
  obtain ⟨_, -, h⟩ := bind_eq_ok.1 h
  obtain ⟨_, -, h⟩ := bind_eq_ok.1 h
  obtain ⟨_, -, h⟩ := bind_eq_ok.1 h
  obtain ⟨_, -, h⟩ := bind_eq_ok.1 h
  split at h
  · cases h
  · obtain ⟨_, -, h⟩ := bind_eq_ok.1 h
    obtain ⟨_, hhint, h⟩ := bind_eq_ok.1 h
    obtain ⟨m, hm, h⟩ := bind_eq_ok.1 h
    obtain ⟨pinned, hpinned, h⟩ := bind_eq_ok.1 h
    obtain rfl := Option.some.inj (Except.ok.inj h)
    obtain ⟨_, -, hhint⟩ := bind_eq_ok.1 hhint
    obtain ⟨_, -, hhint⟩ := bind_eq_ok.1 hhint
    obtain ⟨devices, hdevices, -⟩ := bind_eq_ok.1 hhint
    have hnotes := pinRoster_eq_ok ⟨devices, orError_eq_ok.1 hdevices⟩ hpinned
    exact ⟨m, getOr_eq_ok.1 hm, hnotes.topology, hnotes.joining, hnotes.evidence, hnotes.pins⟩

/-- The effect of a removal that is received. -/
theorem effect_receiveRemoval (hdevice : l.isHandshake = false) {identity : DeviceIdentity}
    {sender : DeviceDescriptor} {roster : DeviceRoster} {evidence : RemovalRecord} :
    Effect c s l (s.receiveRemoval c host identity sender roster evidence).1 := by
  rw [receiveRemoval]
  split
  · exact Effect.unchanged s l
  · next next hnext =>
    obtain ⟨m, hm, hnotes⟩ := bootstrapFutureRemoval_eq_ok hnext
    have heffect : Effect c s l (s.saveRecoveryMembership host next).1 := effect_save hm hnotes
    rcases hsave : s.saveRecoveryMembership host next with ⟨s', e | _⟩
    · rw [hsave] at heffect
      exact heffect
    · rw [hsave] at heffect
      exact heffect
  · refine effect_transition hdevice fun y m' hstaged => ?_
    obtain ⟨m, e, hm, hcommits, hretains⟩ := stageReceivedRemoval_eq_ok hstaged
    exact ⟨m, e, hm, hcommits, .inl hretains⟩

/-- The effect of the handshake with the first counterpart, on the side of the invitation. -/
theorem effect_answerKeyPackage (hl : c.mls.Lawful) {package : List UInt8} :
    Effect c s (.answerKeyPackage host package) (s.answerKeyPackage c host package).1 := by
  rw [answerKeyPackage]
  split
  · exact Effect.unchanged s _
  · next hfresh =>
    have hfresh : s.peerJoined = false := by simpa using hfresh
    split
    · exact Effect.unchanged s _
    · next crypto outcome hadd =>
      obtain ⟨e, he, -⟩ := hl.addMembers_epoch hadd
      have hsome : (c.mls.epoch s.crypto).isSome := by rw [he]; rfl
      split
      · split
        · exact .handshake rfl hfresh (.inr (.inl hsome))
        · exact .handshake rfl hfresh (.inr (.inl hsome))
      · exact .handshake rfl hfresh (.inr (.inl hsome))

/-- The effect of the handshake with the first counterpart, on the other side. -/
theorem effect_acceptWelcome {welcome tree : List UInt8} :
    Effect c s (.acceptWelcome welcome tree) (s.acceptWelcome c welcome tree).1 := by
  rw [acceptWelcome]
  split
  · exact Effect.unchanged s _
  · next hguard =>
    obtain ⟨hjoining, hfresh⟩ : s.membership.any (·.joining.isSome) = false ∧
        s.peerJoined = false := by simpa using hguard
    split
    · exact Effect.unchanged s _
    · refine .handshake rfl hfresh (.inr (.inr fun m hm => ?_))
      rw [hm] at hjoining
      simpa using hjoining

/-- Every call has one of the effects. -/
theorem step_effect (hl : c.mls.Lawful) (s : PrivateDmSession σ) (l : DeviceCall) :
    Effect c s l (s.step c l) := by
  cases l with
  | acceptIdentityClaim ciphertext => exact effect_acceptIdentityClaim hl ciphertext
  | refreshDeviceIdentity identity => exact effect_refreshDeviceIdentity identity
  | noteRosterRevocation identity => exact effect_noteRosterRevocation identity
  | authorizeDeviceJoin host identity sender request =>
    refine effect_transition rfl fun y m' hstaged => ?_
    obtain ⟨m, e, hm, hcommits, hretains⟩ := stageJoin_eq_ok hl hstaged
    exact ⟨m, e, hm, hcommits, .inl hretains⟩
  | applyDeviceAdmission host identity sender senderRoster admission =>
    refine effect_transition rfl fun y m' hstaged => ?_
    obtain ⟨m, e, hm, hcommits, hretains⟩ := stageReceivedAdmission_eq_ok hl hstaged
    refine ⟨m, e, hm, hcommits, hretains.imp_right fun h => ⟨?_, h.2⟩⟩
    rw [DeviceCall.carriesEvidence, h.1]
    rfl
  | acknowledgeDeviceAdmission host sender roster id request epoch =>
    exact effect_acknowledgeDeviceAdmission hl
  | originateRemoval host identity =>
    refine effect_transition rfl fun y m' hstaged => ?_
    obtain ⟨m, e, hm, hcommits, hretains⟩ := stageOwnRemoval_eq_ok hl hstaged
    exact ⟨m, e, hm, hcommits, .inl hretains⟩
  | receiveRemoval host identity sender roster evidence => exact effect_receiveRemoval rfl
  | acknowledgeRemoval host sender roster id epoch digest => exact effect_acknowledgeRemoval
  | receiveRecoveryEpoch host sender roster response =>
    refine effect_transition rfl fun y m' hstaged => ?_
    obtain ⟨y', m'', m, hsame, hm, hcommits, hretains, -⟩ := stageRecoveryEpoch_eq_ok hl hstaged
    obtain ⟨rfl, rfl⟩ := Prod.mk.inj (Option.some.inj hsame)
    exact ⟨m, _, hm, hcommits, .inl hretains⟩
  | receiveRecoveryRemoval host identity sender roster response =>
    refine effect_transition rfl fun y m' hstaged => ?_
    obtain ⟨y', m'', m, hsame, hm, hcommits, hretains⟩ := stageRecoveryRemoval_eq_ok hstaged
    obtain ⟨rfl, rfl⟩ := Prod.mk.inj (Option.some.inj hsame)
    exact ⟨m, _, hm, hcommits, .inl hretains⟩
  | answerKeyPackage host package => exact effect_answerKeyPackage hl
  | acceptWelcome welcome tree => exact effect_acceptWelcome

end PrivateDmSession

/-! ## A plain group -/

/-- A group that is not encrypted. -/
structure PlainGroup where
  epoch : Option Nat
  members : List Member
  own : Nat
  signer : List UInt8
  deriving DecidableEq, Repr

namespace PlainGroup

/-- The device and the signature key of a key package. -/
def package : List UInt8 → Except PrivateDmRuntimeError (String × List UInt8)
  | [device, key] => .ok ((plainDevice device).deviceId, List.replicate 32 key)
  | _ => .error .notReady

/-- The group in its next epoch, with other members. -/
def next (x : PlainGroup) (members : List Member) : Except PrivateDmRuntimeError PlainGroup := do
  let epoch ← getOr .notReady (x.epoch.bind checkedSucc)
  return { x with epoch := some epoch, members }

/-- A member is added, with the next free leaf. -/
def add (x : PlainGroup) (bytes : List UInt8) : Except PrivateDmRuntimeError PlainGroup := do
  let (_, key) ← package bytes
  x.next (x.members ++ [⟨(x.members.map (·.index)).foldl max 0 + 1, key⟩])

/-- Leaves are removed. -/
def remove (x : PlainGroup) (leaves : List Nat) : Except PrivateDmRuntimeError PlainGroup :=
  x.next (x.members.filter fun member => member.index ∉ leaves)

/-- A commit names its author, and the key package of the new member or the removed leaves. -/
def stage (x : PlainGroup) : List UInt8 → Except PrivateDmRuntimeError (Option Nat × PlainGroup)
  | author :: 0 :: bytes => do return (some author.toNat, ← x.add bytes)
  | author :: _ :: leaves => do return (some author.toNat, ← x.remove (leaves.map (·.toNat)))
  | _ => .error .notReady

/-- A welcome names the epoch, and a tree the keys of the members. -/
def join (x : PlainGroup) : List UInt8 → List UInt8 → Except PrivateDmRuntimeError PlainGroup
  | [epoch], tree => .ok { x with
      epoch := some epoch.toNat
      members := tree.mapIdx fun index key => ⟨index, List.replicate 32 key⟩
      own := tree.length - 1 }
  | _, _ => .error .notReady

end PlainGroup

/-- The operations on a plain group. A message is the leaf of its sender with the text. -/
def plainMls : OpenMls PlainGroup where
  epoch x := x.epoch.filter (· < 2 ^ 64)
  groupId x := x.epoch.map fun _ => [7]
  members := PlainGroup.members
  ownLeafIndex := PlainGroup.own
  signerPublic := PlainGroup.signer
  restore := .ok
  processMessage x
    | index :: body => (x, .ok (some index.toNat, some body))
    | [] => (x, .error .notReady)
  addMembers x bytes := do
    let y ← x.add bytes
    return (y, ⟨UInt8.ofNat x.own :: 0 :: bytes, [], []⟩)
  removeLeaves x leaves := do
    let y ← x.remove leaves
    return (y, UInt8.ofNat x.own :: 1 :: leaves.map UInt8.ofNat)
  stageCommit _ := PlainGroup.stage
  joinWelcome := PlainGroup.join
  joinWelcomePinned := PlainGroup.join
  keyPackage _ := PlainGroup.package

/-- The next epoch of a plain group. -/
theorem PlainGroup.next_epoch {x y : PlainGroup} {members : List Member}
    (h : x.next members = .ok y) :
    ∃ e, plainMls.epoch x = some e ∧ plainMls.epoch y = some (e + 1) := by
  obtain ⟨epoch, hepoch, h⟩ := bind_eq_ok.1 h
  obtain rfl := Except.ok.inj h
  obtain ⟨e, he, hnext⟩ := Option.bind_eq_some_iff.1 (getOr_eq_ok.1 hepoch)
  rw [checkedSucc] at hnext
  split at hnext
  · next hlt =>
    obtain rfl := Option.some.inj hnext
    refine ⟨e, ?_, ?_⟩
    · simp only [plainMls, he, Option.filter_some]
      rw [if_pos (decide_eq_true (by omega))]
    · simp only [plainMls, Option.filter_some]
      rw [if_pos (decide_eq_true hlt)]
  · cases hnext

/-- A plain group does what sessions rely on. -/
theorem plainMls_lawful : plainMls.Lawful where
  restore_epoch h := by rw [Except.ok.inj h]
  restore_members h := by rw [Except.ok.inj h]
  receive_epoch x b := by cases b <;> rfl
  receive_members x b := by cases b <;> rfl
  addMembers_epoch h := by
    obtain ⟨y, hadd, h⟩ := bind_eq_ok.1 h
    obtain ⟨rfl, -⟩ := Prod.mk.inj (Except.ok.inj h)
    obtain ⟨_, -, hnext⟩ := bind_eq_ok.1 hadd
    exact PlainGroup.next_epoch hnext
  removeLeaves_epoch h := by
    obtain ⟨y, hremove, h⟩ := bind_eq_ok.1 h
    obtain ⟨rfl, -⟩ := Prod.mk.inj (Except.ok.inj h)
    exact PlainGroup.next_epoch hremove
  epoch_lt h := of_decide_eq_true (Option.filter_eq_some_iff.1 h).2

/-- A request to join, as text. -/
def JoinRequest.plain (request : JoinRequest) : List UInt8 :=
  textBytes request.requestId ++ request.keyPackage ++ textBytes request.claim.signature

/-- What a session over a plain group uses: what is signed is written as plain text. A message
    with a claim is read by `decodeClaim`. -/
def plainDm (decodeClaim : List UInt8 → Except PrivateDmRuntimeError IdentityClaim) :
    DmCrypto (List UInt8) (List UInt8) PlainGroup where
  toRosterCrypto := plainCrypto
  claimJson := fun (session, roster, device, signer, name) => do
    return textBytes (",".intercalate [session, device, signer, name]) ++
      (← plainCrypto.rosterJson roster)
  epochJson := fun (author, roster, request, commit, group, epoch) => do
    return textBytes author ++ (← plainCrypto.rosterJson roster) ++ request.plain ++ commit ++
      group ++ timeBytes epoch
  removalJson := fun (session, author, target, roster, commit, group, epoch) => do
    return textBytes (",".intercalate [session, author, target]) ++
      (← plainCrypto.rosterJson roster) ++ commit ++ group ++ timeBytes epoch
  removalRecordJson := fun record => do
    return textBytes (",".intercalate [record.author, record.target, record.signature]) ++
      (← plainCrypto.rosterJson record.roster) ++ record.commit ++ timeBytes record.epoch
  mls := plainMls
  decodeClaim

/-- The signatures of a plain device. -/
def plainSign (device : UInt8) (bytes : List UInt8) : String :=
  hexText (List.replicate 32 device ++ checksum bytes)

/-- An installation with a plain device. -/
def plainIdentity (device : UInt8) (roster : DeviceRoster) : DeviceIdentity where
  device := plainDevice device
  roster := roster
  sign := plainSign device

/-- The claim of a plain device to a leaf. -/
def plainClaim (device key : UInt8) (roster : DeviceRoster) : IdentityClaim :=
  let claim : IdentityClaim := ⟨"dm", roster, (plainDevice device).deviceId,
    hexText (List.replicate 32 key), "Name", ""⟩
  { claim with
    signature :=
      plainSign device ((claim.bytes (plainDm fun _ => .error .notReady).toClaimCrypto).toOption.getD []) }

/-- The roster of a plain account: the device that founds it, then each entry with its version,
    its signer and its device. -/
def plainAccount (founder : UInt8) (entries : List (Nat × UInt8 × UInt8)) : DeviceRoster :=
  entries.foldl (fun roster (version, signer, device) =>
    roster ++ [plainEntry version roster signer (plainDevice device)])
    [plainEntry rosterVersion [] founder (plainDevice founder)]

/-- A session of two users with a device each, in its first epoch. The account of one has a
    second device. -/
def PrivateDmSession.pairSession : PrivateDmSession PlainGroup where
  sessionId := "dm"
  deviceId := "Name"
  crypto := ⟨some 1, [⟨0, List.replicate 32 11⟩, ⟨1, List.replicate 32 13⟩], 0,
    List.replicate 32 11⟩
  peerJoined := true
  membership := some
    { topology := ⟨(plainAccount 1 [(1, 1, 2)]).userId,
        [plainClaim 1 11 (plainAccount 1 [(1, 1, 2)]), plainClaim 3 13 (plainAccount 3 [])],
        [plainAccount 1 [(1, 1, 2)], plainAccount 3 []]⟩ }

end Mosh.DmDevices
