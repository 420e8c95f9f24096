import Mosh.DmDevices.Evidence

/-!
# Removals that are known

A session learns of a removal before the commit that carries it out: the roster with the removal
is pinned beside the topology, and counts as the current one of its user
(`devices/revocation/mod.rs`). A claim or an admission with a roster of its own must not bring
back what the pinned one has removed.

* `removal_kept`: along every run in which no roster is installed that forks from the current one,
  current rosters are only extended; and a device that is known to be removed is authorized again
  only with a claim made after its removal, or without a claim if its leaf is gone and the roster
  lists it again.
* `removal_forgotten`: both conditions are needed.
-/

namespace Mosh.DmDevices

open DeviceLink Checked Run

variable {Key Signature σ : Type} (c : DmCrypto Key Signature σ)

namespace DeviceMembership

/-- The pinned rosters are accepted ones. -/
def PinsAccepted (m : DeviceMembership) : Prop :=
  ∀ roster ∈ m.pendingRosters, ∃ devices, roster.devices c.toRosterCrypto = .ok devices

variable {c} {m m' : DeviceMembership} {user : String} {roster base : DeviceRoster}

/-- The pinned roster of a user is one of theirs. -/
theorem pending_mem (h : m.pending user = some roster) :
    roster ∈ m.pendingRosters ∧ roster.userId = user :=
  ⟨List.mem_of_find?_eq_some h, by simpa using List.find?_some h⟩

/-- The pinned rosters after one is set. -/
theorem pending_setPending : (m.setPending roster).pending user =
    if roster.userId = user then some roster else m.pending user := by
  have h : ((⟨"", [], m.pendingRosters⟩ : DmTopology).setRoster roster).roster user = _ :=
    DmTopology.roster_setRoster user
  exact h

/-- When a pinned roster extends an installed one. -/
theorem extends_of_le (haccepted : ∃ devices, roster.devices c.toRosterCrypto = .ok devices)
    (h : base <+: roster) : holds (roster.extends c.toRosterCrypto base) = true :=
  holds_eq_true.2 (DeviceRoster.extends_eq_true.2 ⟨haccepted, h⟩)

/-- The current roster of a user: the pinned one if it extends the installed one, else the
    installed one. -/
theorem currentRoster_cases (h : m.currentRoster c.toEvidenceCrypto user = some roster) :
    (m.pending user = some roster ∧ ∀ base, m.topology.roster user = some base →
      holds (roster.extends c.toRosterCrypto base) = true) ∨
    (m.topology.roster user = some roster ∧ ∀ pinned, m.pending user = some pinned →
      holds (pinned.extends c.toRosterCrypto roster) = false) := by
  rw [currentRoster] at h
  cases hpending : m.pending user with
  | none =>
    rw [hpending] at h
    exact .inr ⟨h, fun pinned hpinned => (nomatch hpinned)⟩
  | some pinned =>
    rw [hpending] at h
    simp only at h
    split at h
    · next hall =>
      obtain rfl := Option.some.inj h
      refine .inl ⟨rfl, fun base hbase => ?_⟩
      rw [hbase] at hall
      exact hall
    · next hall =>
      refine .inr ⟨h, fun pinned' hpinned' => ?_⟩
      obtain rfl := Option.some.inj hpinned'
      rw [h, Option.all_some] at hall
      exact Bool.eq_false_iff.2 hall

/-- A pinned roster that extends the installed one is the current one. -/
theorem currentRoster_of_pending (hpending : m.pending user = some roster)
    (h : ∀ base, m.topology.roster user = some base →
      holds (roster.extends c.toRosterCrypto base) = true) :
    m.currentRoster c.toEvidenceCrypto user = some roster := by
  rw [currentRoster, hpending]
  refine if_pos ?_
  cases hbase : m.topology.roster user with
  | none => rfl
  | some base => exact h base hbase

/-- The installed roster is the current one unless a pinned one extends it. -/
theorem currentRoster_of_installed (hroster : m.topology.roster user = some roster)
    (h : ∀ pinned, m.pending user = some pinned →
      holds (pinned.extends c.toRosterCrypto roster) = false) :
    m.currentRoster c.toEvidenceCrypto user = some roster := by
  rw [currentRoster]
  cases hpending : m.pending user with
  | none => exact hroster
  | some pinned =>
    simp only
    rw [if_neg]
    · exact hroster
    · rw [hroster, Option.all_some, h pinned hpending]
      exact Bool.false_ne_true

/-- What is noted beside the topology extends the current rosters. -/
theorem Notes.current (h : Notes c m m') (hroster : m.currentRoster c.toEvidenceCrypto user = some roster) :
    ∃ roster', m'.currentRoster c.toEvidenceCrypto user = some roster' ∧ roster <+: roster' := by
  rcases h.pins with hpins | ⟨pinned, hpins, haccepted, hext⟩
  · refine ⟨roster, ?_, List.prefix_rfl⟩
    rw [currentRoster, pending, hpins, h.topology]
    exact hroster
  · have hpending : m'.pending user = if pinned.userId = user then some pinned else m.pending user := by
      rw [pending, hpins]
      exact pending_setPending
    by_cases huser : pinned.userId = user
    · -- the pinned roster extends the current one, and with it the installed one
      rw [if_pos huser] at hpending
      subst huser
      have hnew := (DeviceRoster.extends_eq_true.1 (hext roster hroster)).2
      refine ⟨pinned, currentRoster_of_pending hpending fun base hbase => ?_, hnew⟩
      rw [h.topology] at hbase
      refine extends_of_le haccepted (List.IsPrefix.trans ?_ hnew)
      rcases currentRoster_cases hroster with ⟨-, hall⟩ | ⟨hinstalled, -⟩
      · exact (DeviceRoster.extends_eq_true.1 (holds_eq_true.1 (hall base hbase))).2
      · rw [hbase] at hinstalled
        exact Option.some.inj hinstalled ▸ List.prefix_rfl
    · rw [if_neg huser] at hpending
      refine ⟨roster, ?_, List.prefix_rfl⟩
      rw [currentRoster, hpending, h.topology]
      exact hroster

/-- Newer rosters are installed: the current ones are extended, if the new ones do not fork from
    them. -/
theorem Grows.current (hgrows : m.topology.Grows c m'.topology)
    (hpins : m'.pendingRosters = m.pendingRosters) (haccepted : m.PinsAccepted c)
    (hroster : m.currentRoster c.toEvidenceCrypto user = some roster)
    (hfork : ∀ installed, m'.topology.roster user = some installed →
      roster <+: installed ∨ installed <+: roster) :
    ∃ roster', m'.currentRoster c.toEvidenceCrypto user = some roster' ∧ roster <+: roster' := by
  have hpending : m'.pending user = m.pending user := by rw [pending, hpins, pending]
  rcases hgrows user with hsame | ⟨installed, hinstalled, hdevices, hext⟩
  · refine ⟨roster, ?_, List.prefix_rfl⟩
    rw [currentRoster, hpending, hsame]
    exact hroster
  · rcases currentRoster_cases hroster with ⟨hpinned, hall⟩ | ⟨hbase, hnone⟩
    · -- the current roster is a pinned one: it stays, or the installed one extends it
      rcases hfork installed hinstalled with hup | hdown
      · by_cases hstays : holds (roster.extends c.toRosterCrypto installed) = true
        · refine ⟨roster, currentRoster_of_pending (hpending.trans hpinned) fun base hbase => ?_,
            List.prefix_rfl⟩
          rwa [← Option.some.inj (hinstalled.symm.trans hbase)]
        · refine ⟨installed, currentRoster_of_installed hinstalled fun pinned hpinned' => ?_, hup⟩
          rw [hpending, hpinned] at hpinned'
          rw [← Option.some.inj hpinned']
          exact Bool.eq_false_iff.2 hstays
      · refine ⟨roster, currentRoster_of_pending (hpending.trans hpinned) fun base hbase => ?_,
          List.prefix_rfl⟩
        rw [← Option.some.inj (hinstalled.symm.trans hbase)]
        exact extends_of_le (haccepted roster (pending_mem hpinned).1) hdown
    · -- a pinned roster that does not extend the old one does not extend the new one
      have hnew := (DeviceRoster.extends_eq_true.1 (hext roster hbase)).2
      refine ⟨installed, currentRoster_of_installed hinstalled fun pinned hpinned => ?_, hnew⟩
      rw [hpending] at hpinned
      refine Bool.eq_false_iff.2 fun hholds => ?_
      obtain ⟨hdevices, hextends⟩ := DeviceRoster.extends_eq_true.1 (holds_eq_true.1 hholds)
      have hold := hnone pinned hpinned
      rw [extends_of_le hdevices (hnew.trans hextends)] at hold
      cases hold

/-- What is noted keeps the pinned rosters accepted. -/
theorem PinsAccepted.note (haccepted : m.PinsAccepted c) (h : Notes c m m') :
    m'.PinsAccepted c := by
  intro roster hroster
  rcases h.pins with hpins | ⟨pinned, hpins, hdevices, -⟩
  · rw [hpins] at hroster
    exact haccepted roster hroster
  · rw [hpins] at hroster
    rcases List.mem_append.1 hroster with hold | hnew
    · exact haccepted roster (List.mem_filter.1 hold).1
    · rwa [List.mem_singleton.1 hnew]

/-- The roster ends with the removal of a device. -/
def EndsWithRemoval (roster : DeviceRoster) (device : String) : Prop :=
  ∃ before entry, roster = before ++ [entry] ∧ DeviceRoster.removes device entry = true

/-- A removed device that is authorized has made its claim after the removal; or it is not a
    client, and the current roster lists it again. -/
theorem authorized_of_removed {removed : DeviceRoster} {device : DeviceDescriptor}
    (hcurrent : m.currentRoster c.toEvidenceCrypto user = some roster)
    (hremoved : removed <+: roster) (hlast : EndsWithRemoval removed device.deviceId)
    (h : m.authorized c.toEvidenceCrypto device user = true) :
    (∃ client, m.deviceClient device.deviceId = some client ∧ removed <+: client.roster) ∨
      (m.deviceClient device.deviceId = none ∧
        ∃ devices, roster.devices c.toRosterCrypto = .ok devices ∧ device ∈ devices) := by
  rw [authorized, hcurrent, Option.any_some, Bool.and_eq_true] at h
  obtain ⟨-, h⟩ := h
  cases hclient : m.deviceClient device.deviceId with
  | none =>
    rw [hclient] at h
    refine .inr ⟨rfl, ?_⟩
    cases hdevices : roster.devices c.toRosterCrypto with
    | error e =>
      rw [hdevices] at h
      cases h
    | ok devices =>
      rw [hdevices] at h
      exact ⟨devices, rfl, of_decide_eq_true h⟩
  | some client =>
    rw [hclient] at h
    refine .inl ⟨client, rfl, ?_⟩
    obtain ⟨revoked, hrevoked, h⟩ := bind_eq_ok.1 (holds_eq_true.1 h)
    obtain ⟨newer, hnewer, hrevoked⟩ := bind_eq_ok.1 hrevoked
    cases newer with
    | false => cases hrevoked
    | true =>
      obtain ⟨-, rest, rfl⟩ := DeviceRoster.extends_eq_true.1 hnewer
      rw [List.drop_left] at hrevoked
      obtain rfl := Except.ok.inj hrevoked
      -- a removal that stands after the roster of the claim would revoke it
      rcases List.prefix_or_prefix_of_prefix hremoved (List.prefix_append client.roster rest) with
        hup | hdown
      · exact hup
      · obtain ⟨middle, rfl⟩ := hdown
        obtain ⟨before, entry, hsplit, hremoves⟩ := hlast
        rcases List.eq_nil_or_concat middle with rfl | ⟨middle, entry', rfl⟩
        · rw [List.append_nil]
        · rw [List.concat_eq_append, ← List.append_assoc] at hsplit
          obtain ⟨-, hentry⟩ := List.append_inj' hsplit rfl
          obtain rfl := List.singleton_injective hentry
          have hmem : entry' ∈ rest := by
            obtain ⟨tail, htail⟩ := (List.prefix_append_right_inj _).1 hremoved
            rw [← htail, List.concat_eq_append]
            simp
          rw [List.any_eq_true.2 ⟨entry', hmem, hremoves⟩] at h
          cases h

end DeviceMembership

namespace PrivateDmSession

open DeviceMembership

/-- The roster that counts for a user. -/
def currentRoster (s : PrivateDmSession σ) (user : String) : Option DeviceRoster :=
  s.membership.bind fun m => m.currentRoster c.toEvidenceCrypto user

/-- The roster of a user that is installed after a call is not a fork of the current one: one of
    them is the start of the other. -/
def Forkless (s : PrivateDmSession σ) (l : DeviceCall) : Prop :=
  ∀ user roster m installed, s.currentRoster c user = some roster →
    (s.step c l).membership = some m → m.topology.roster user = some installed →
    roster <+: installed ∨ installed <+: roster

variable {c} {s t : PrivateDmSession σ} {l : DeviceCall} {ls : List DeviceCall}

/-- A call keeps the pinned rosters accepted, and extends the current ones. -/
theorem step_current (hl : c.mls.Lawful) (hforkless : s.Forkless c l)
    (haccepted : ∀ m, s.membership = some m → m.PinsAccepted c) :
    (∀ m, (s.step c l).membership = some m → m.PinsAccepted c) ∧
      ∀ user roster, s.currentRoster c user = some roster →
        ∃ roster', (s.step c l).currentRoster c user = some roster' ∧ roster <+: roster' := by
  have heffect := step_effect hl s l
  rw [Forkless] at hforkless
  generalize s.step c l = s' at heffect hforkless
  -- nothing is known before there is a membership
  have hsome : ∀ {user roster}, s.currentRoster c user = some roster →
      ∃ m, s.membership = some m ∧ m.currentRoster c.toEvidenceCrypto user = some roster :=
    fun h => Option.bind_eq_some_iff.1 h
  cases heffect with
  | idle same => exact ⟨haccepted, fun user roster h => ⟨roster, h, List.prefix_rfl⟩⟩
  | start identity =>
    cases hm : s.membership with
    | none =>
      refine ⟨fun m h => ?_, fun user roster h => ?_⟩
      · rw [startMembership, hm] at h
        obtain rfl := Option.some.inj h
        exact List.forall_mem_nil _
      · rw [currentRoster, hm] at h
        cases h
    | some m =>
      have hstart : s.startMembership identity = m := by rw [startMembership, hm]; rfl
      refine ⟨fun m' h => ?_, fun user roster h => ⟨roster, ?_, List.prefix_rfl⟩⟩
      · obtain rfl := Option.some.inj h
        rw [hstart]
        exact haccepted m hm
      · rw [currentRoster, hm] at h
        rw [currentRoster, hstart]
        exact h
  | @note x m m' same had notes =>
    refine ⟨fun next h => ?_, fun user roster h => ?_⟩
    · obtain rfl := Option.some.inj h
      exact (haccepted m had).note notes
    · obtain ⟨m₀, hm₀, h⟩ := hsome h
      obtain rfl := Option.some.inj (had.symm.trans hm₀)
      exact notes.current h
  | @claim x m claim joined same inPlace stays =>
    rcases inPlace.membership with had | ⟨hnone, -⟩
    · refine ⟨fun next h => ?_, fun user roster h => ?_⟩
      · obtain rfl := Option.some.inj h
        exact haccepted m had
      · obtain ⟨m₀, hm₀, hcurrent⟩ := hsome h
        obtain rfl := Option.some.inj (had.symm.trans hm₀)
        have hgrows : m.topology.Grows c ({ m with
            topology := (m.topology.addClient c.toClaimCrypto claim).1 } :
              DeviceMembership).topology := DmTopology.grows_addClient _ _
        exact Grows.current hgrows rfl (haccepted m had) hcurrent
          fun installed hinstalled => hforkless user roster _ installed h rfl hinstalled
    · refine ⟨fun next h => ?_, fun user roster h => ?_⟩
      · obtain rfl := Option.some.inj h
        cases inPlace with
        | accepted decrypts checked keeps known =>
          have := checkClaim_membership (s := { s with crypto := x }) checked
          rw [show s.membership = some m from this] at hnone
          cases hnone
        | own active makes user changed =>
          rw [startMembership, hnone]
          exact List.forall_mem_nil _
      · rw [currentRoster, hnone] at h
        cases h
  | @commit y m m' e device had commits retains =>
    refine ⟨fun next h => ?_, fun user roster h => ?_⟩
    · obtain rfl := Option.some.inj h
      intro roster hroster
      rw [commits.pins] at hroster
      exact haccepted m had roster hroster
    · obtain ⟨m₀, hm₀, hcurrent⟩ := hsome h
      obtain rfl := Option.some.inj (had.symm.trans hm₀)
      exact Grows.current commits.grows commits.pins (haccepted m had) hcurrent
        fun installed hinstalled => hforkless user roster m' installed h rfl hinstalled
  | @handshake y joined first fresh epoch =>
    exact ⟨haccepted, fun user roster h => ⟨roster, h, List.prefix_rfl⟩⟩

/-- Along a run, current rosters are only extended. -/
theorem run_current (hl : c.mls.Lawful) (haccepted : ∀ m, s.membership = some m → m.PinsAccepted c)
    (h : Runs (step c) (Forkless c) s ls t) (user : String) (roster : DeviceRoster)
    (hcurrent : s.currentRoster c user = some roster) :
    ∃ roster', t.currentRoster c user = some roster' ∧ roster <+: roster' := by
  induction h generalizing roster with
  | nil => exact ⟨roster, hcurrent, List.prefix_rfl⟩
  | cons hforkless _ ih =>
    obtain ⟨hpins, hstep⟩ := step_current hl hforkless haccepted
    obtain ⟨roster₁, hroster₁, hextends₁⟩ := hstep user roster hcurrent
    obtain ⟨roster₂, hroster₂, hextends₂⟩ := ih hpins roster₁ hroster₁
    exact ⟨roster₂, hroster₂, hextends₁.trans hextends₂⟩

/-- A known removal is kept. Along every run in which no roster is installed that forks from the
    current one, the current roster of every user is only extended; and where it was known that a
    device is removed, the device is authorized again only with a claim whose roster extends the
    removal, or as no client at all, if the current roster lists it again. -/
theorem removal_kept (hl : c.mls.Lawful)
    (haccepted : ∀ m, s.membership = some m → m.PinsAccepted c)
    (h : Runs (step c) (Forkless c) s ls t) :
    ∀ user roster, s.currentRoster c user = some roster →
      (∃ roster', t.currentRoster c user = some roster' ∧ roster <+: roster') ∧
      ∀ removed device m, removed <+: roster → EndsWithRemoval removed device.deviceId →
        t.membership = some m → m.authorized c.toEvidenceCrypto device user = true →
        (∃ client, m.deviceClient device.deviceId = some client ∧ removed <+: client.roster) ∨
        (m.deviceClient device.deviceId = none ∧ ∃ roster' devices,
          t.currentRoster c user = some roster' ∧
          roster'.devices c.toRosterCrypto = .ok devices ∧ device ∈ devices) := by
  intro user roster hcurrent
  obtain ⟨roster', hroster', hextends⟩ := run_current hl haccepted h user roster hcurrent
  refine ⟨⟨roster', hroster', hextends⟩, fun removed device m hremoved hlast hm hauthorized => ?_⟩
  have hroster := hroster'
  rw [currentRoster, hm, Option.bind_some] at hroster
  rcases authorized_of_removed hroster (hremoved.trans hextends) hlast hauthorized with
    hclient | ⟨hnone, devices, hdevices, hmem⟩
  · exact .inl hclient
  · exact .inr ⟨hnone, roster', devices, hroster', hdevices, hmem⟩

/-- The account of three devices, with later entries. -/
def trioAccount (entries : List (Nat × UInt8 × UInt8)) : DeviceRoster :=
  plainAccount 1 ([(1, 1, 2), (1, 1, 3)] ++ entries)

/-- The session of the third device with another user, in which the first device is a client too.
    The removal of the second device is pinned. -/
def trioSession : PrivateDmSession PlainGroup where
  sessionId := "dm"
  deviceId := "Name"
  crypto := ⟨some 1, [⟨0, List.replicate 32 11⟩, ⟨1, List.replicate 32 13⟩,
    ⟨2, List.replicate 32 15⟩], 1, List.replicate 32 13⟩
  peerJoined := true
  membership := some
    { topology := ⟨(trioAccount []).userId,
        [plainClaim 1 11 (trioAccount []), plainClaim 3 13 (trioAccount []),
          plainClaim 5 15 (plainAccount 5 [])],
        [trioAccount [], plainAccount 5 []]⟩
      pendingRosters := [trioAccount [(2, 1, 2)]] }

/-- Cryptography for these sessions, in which no claim is received. -/
abbrev trioDm : DmCrypto (List UInt8) (List UInt8) PlainGroup := plainDm fun _ => .error .notReady

/-- The second device, as far as a session knows. -/
def secondAuthorized (s : PrivateDmSession PlainGroup) : Option Bool :=
  s.membership.map fun m =>
    m.authorized trioDm.toEvidenceCrypto (plainDevice 2) (trioAccount []).userId

/-- The own account adds a device after the removal: the removal is kept. -/
theorem removal_kept_trio :
    ∃ roster, (trioSession.step trioDm (.noteRosterRevocation
        (plainIdentity 3 (trioAccount [(2, 1, 2), (1, 1, 4)])))).currentRoster trioDm
          (trioAccount []).userId = some roster ∧ trioAccount [(2, 1, 2)] <+: roster := by
  have haccepted : ∀ m, trioSession.membership = some m → m.PinsAccepted trioDm := by
    intro m hm roster hroster
    obtain rfl := Option.some.inj hm
    obtain rfl := List.mem_singleton.1 hroster
    exact ⟨[plainDevice 1, plainDevice 3], by decide +kernel⟩
  have hforkless : trioSession.Forkless trioDm (.noteRosterRevocation
      (plainIdentity 3 (trioAccount [(2, 1, 2), (1, 1, 4)]))) := by
    intro user roster m installed hcurrent hm hinstalled
    -- the topology is not touched
    have htopology : (trioSession.step trioDm (.noteRosterRevocation
        (plainIdentity 3 (trioAccount [(2, 1, 2), (1, 1, 4)])))).membership.map (·.topology) =
          trioSession.membership.map (·.topology) := by decide +kernel
    rw [hm] at htopology
    have hsame : m.topology = _ := Option.some.inj htopology
    rw [hsame] at hinstalled
    obtain ⟨hmem, rfl⟩ := DmTopology.roster_mem hinstalled
    simp only [List.mem_cons, List.not_mem_nil, or_false] at hmem
    rcases hmem with rfl | rfl
    · obtain rfl : trioAccount [(2, 1, 2)] = roster :=
        Option.some.inj (Eq.trans (by decide +kernel) hcurrent)
      exact .inr (by decide +kernel)
    · obtain rfl : plainAccount 5 [] = roster :=
        Option.some.inj (Eq.trans (by decide +kernel) hcurrent)
      exact .inl List.prefix_rfl
  exact (removal_kept plainMls_lawful haccepted (.single hforkless) (trioAccount []).userId
    (trioAccount [(2, 1, 2)]) (by decide +kernel)).1

/-- What is known of the removal is lost in two ways. The own account may add the device again,
    which has no claim. And the own claim may install a roster that the removed device has made
    and that forks from the pinned one. -/
theorem removal_forgotten :
    trioSession.currentRoster trioDm (trioAccount []).userId = some (trioAccount [(2, 1, 2)]) ∧
    secondAuthorized trioSession = some false ∧
    secondAuthorized (trioSession.step trioDm (.noteRosterRevocation
      (plainIdentity 3 (trioAccount [(2, 1, 2), (1, 1, 2)])))) = some true ∧
    (trioSession.step trioDm (.noteRosterRevocation
      (plainIdentity 3 (trioAccount [(2, 1, 2), (1, 1, 2)])))).membership.bind
        (·.deviceClient (plainDevice 2).deviceId) = none ∧
    (trioSession.step trioDm (.refreshDeviceIdentity
      (plainIdentity 3 (trioAccount [(1, 2, 4)])))).currentRoster trioDm
        (trioAccount []).userId = some (trioAccount [(1, 2, 4)]) ∧
    ¬ trioAccount [(2, 1, 2)] <+: trioAccount [(1, 2, 4)] ∧
    secondAuthorized (trioSession.step trioDm (.refreshDeviceIdentity
      (plainIdentity 3 (trioAccount [(1, 2, 4)])))) = some true := by
  decide +kernel

end PrivateDmSession

end Mosh.DmDevices
