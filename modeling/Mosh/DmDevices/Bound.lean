import Mosh.DmDevices.Effects

/-!
# The topology and the tree

The topology of a session is checked against the leaves of its group whenever a commit is
installed. Claims are noted in between: a claim of another client when it is received
(`accept_identity_claim`), the own one when the own roster has changed
(`refresh_device_identity`). Neither checks the topology again.

* `bound_step_iff`: a call leaves a valid topology valid, except for two kinds of claims
  (`Spoils`). One is a claim with a newer roster in a topology whose two rosters are of the same
  user, which `validate` does not notice: both are replaced by the new one. The other is the own
  claim of a device whose leaf is gone.
* `step_of_inPlace`: a call that gets as far as adding a claim does so.
-/

namespace Mosh.DmDevices

open DeviceLink Checked

variable {Key Signature σ : Type} (c : DmCrypto Key Signature σ)

namespace PrivateDmSession

/-- The topology of the session is that of the leaves of its group. -/
def Valid (s : PrivateDmSession σ) : Prop :=
  ∃ m, s.membership = some m ∧
    m.topology.validate c.toClaimCrypto s.sessionId (c.memberSigners s.crypto) = .ok ()

/-- A claim has a newer roster than the known one of its user. -/
def Newer (t : DmTopology) (claim : IdentityClaim) : Prop :=
  ∃ base, t.roster claim.roster.userId = some base ∧
    base.extends c.toRosterCrypto claim.roster = .ok false ∧
    claim.roster.extends c.toRosterCrypto base = .ok true

/-- A call adds a verified claim in place, which has a newer roster where both rosters are of the
    same user, or a leaf that is not in the group and a device that is not in the topology. -/
def Spoils (s : PrivateDmSession σ) (l : DeviceCall) : Prop :=
  ∃ x m claim, InPlace c s l x m claim ∧ claim.verify c.toClaimCrypto claim.sessionId = .ok () ∧
    ((¬ (m.topology.rosters.map (·.userId)).Nodup ∧ Newer c m.topology claim) ∨
      (claim.mlsSigner ∉ c.memberSigners s.crypto ∧
        (∃ t, m.topology.noteRoster c.toClaimCrypto claim = .ok t) ∧
        claim.deviceId ∉ m.topology.clients.map (·.deviceId)))

variable {c} {s : PrivateDmSession σ} {l : DeviceCall} {x : σ} {m : DeviceMembership}
  {claim : IdentityClaim}

/-! ## A claim in place -/

/-- A call that gets as far as adding a claim in place does so. -/
theorem step_of_inPlace (h : InPlace c s l x m claim) :
    (s.step c l).membership =
        some { m with topology := (m.topology.addClient c.toClaimCrypto claim).1 } ∧
      (s.step c l).crypto = x ∧ (s.step c l).sessionId = s.sessionId := by
  cases h with
  | @accepted ciphertext body signer _ _ _ decrypts checked keeps known =>
    have hobserve : m.observeRosterRemoval c.toEvidenceCrypto claim.roster = .ok (m, false) := by
      rw [DeviceMembership.observeRosterRemoval, keeps]
      rfl
    rw [step, call, acceptIdentityClaim]
    simp only [decrypts]
    rw [acceptClaim, checked]
    simp only [hobserve, known, addClaim]
    rcases hadd : m.topology.addClient c.toClaimCrypto claim with ⟨topology, e | _⟩
    · exact ⟨rfl, rfl, rfl⟩
    · exact ⟨rfl, rfl, rfl⟩
  | @own identity _ active makes user changed =>
    rw [step, call, refreshDeviceIdentity, active, makes]
    simp only [Bool.false_eq_true, if_false, ne_eq, user, not_true_eq_false, changed, addClaim]
    exact ⟨trivial, trivial, trivial⟩

/-- The leaf of a message is one of the group. -/
theorem decryptWithSigner_signer {x' : σ} {ciphertext body signer : List UInt8}
    (h : c.decryptWithSigner x ciphertext = (x', .ok (body, signer))) :
    c.hexEncode signer ∈ c.memberSigners x' := by
  obtain rfl : (c.decryptWithSigner x ciphertext).1 = x' := congrArg Prod.fst h
  have h : (c.decryptWithSigner x ciphertext).2 = .ok (body, signer) := congrArg Prod.snd h
  obtain ⟨⟨sender, text⟩, -, h⟩ := bind_eq_ok.1 h
  obtain ⟨index, -, h⟩ := bind_eq_ok.1 h
  obtain ⟨member, hmember, h⟩ := bind_eq_ok.1 h
  obtain ⟨_, -, h⟩ := bind_eq_ok.1 h
  obtain ⟨-, rfl⟩ := Prod.mk.inj (Except.ok.inj h)
  exact List.mem_map_of_mem (List.mem_of_find?_eq_some (getOr_eq_ok.1 hmember))

/-- What is checked of a claim. -/
theorem checkClaim_eq_ok {body signer : List UInt8} (h : s.checkClaim c body signer = .ok (claim, m)) :
    claim.verify c.toClaimCrypto s.sessionId = .ok () ∧ claim.mlsSigner = c.hexEncode signer := by
  obtain ⟨claim', -, h⟩ := bind_eq_ok.1 h
  obtain ⟨_, hverify, h⟩ := bind_eq_ok.1 h
  obtain ⟨_, hsigner, h⟩ := bind_eq_ok.1 h
  obtain ⟨m', -, h⟩ := bind_eq_ok.1 h
  have hclaim : claim' = claim := by
    split at h
    · obtain ⟨_, -, h⟩ := bind_eq_ok.1 h
      exact (Prod.mk.inj (Except.ok.inj h)).1
    · obtain ⟨_, -, h⟩ := bind_eq_ok.1 h
      exact (Prod.mk.inj (Except.ok.inj h)).1
  rw [← hclaim]
  exact ⟨hverify, of_decide_eq_true (check_eq_ok.1 hsigner)⟩

/-- The own claim has the roster of the installation or the installed one, and the latter if the
    former removes something. -/
theorem currentDeviceClaim_eq_ok {identity : DeviceIdentity} (hm : s.membership = some m)
    (h : s.currentDeviceClaim c identity = .ok claim) :
    claim.sessionId = s.sessionId ∧
      (m.topology.roster identity.roster.userId = some claim.roster ∨
        claim.roster = identity.roster ∧ ∀ base,
          m.topology.roster identity.roster.userId = some base →
            holds (identity.roster.hasRemovalSince c.toRosterCrypto base) = false) := by
  have hown : ∀ {roster : DeviceRoster}, s.ownClaim c identity roster = .ok claim →
      claim.sessionId = s.sessionId ∧ claim.roster = roster := by
    intro roster h
    obtain ⟨_, -, h⟩ := bind_eq_ok.1 h
    obtain ⟨_, -, h⟩ := bind_eq_ok.1 h
    obtain ⟨_, -, h⟩ := bind_eq_ok.1 h
    obtain ⟨_, -, h⟩ := bind_eq_ok.1 h
    obtain ⟨_, -, h⟩ := bind_eq_ok.1 h
    obtain ⟨_, -, h⟩ := bind_eq_ok.1 h
    obtain rfl := Except.ok.inj h
    exact ⟨rfl, rfl⟩
  rw [currentDeviceClaim, hm, Option.bind_some] at h
  cases hroster : m.topology.roster identity.roster.userId with
  | none =>
    rw [hroster] at h
    obtain ⟨hsession, hsame⟩ := hown h
    exact ⟨hsession, .inr ⟨hsame, fun base hbase => (nomatch hbase)⟩⟩
  | some base =>
    rw [hroster] at h
    simp only at h
    split at h
    · obtain ⟨hsession, rfl⟩ := hown h
      exact ⟨hsession, .inl rfl⟩
    · next hpending =>
      obtain ⟨newer, -, h⟩ := bind_eq_ok.1 h
      cases newer with
      | true =>
        obtain ⟨hsession, rfl⟩ := hown h
        exact ⟨hsession, .inl rfl⟩
      | false =>
        obtain ⟨hsession, hsame⟩ := hown h
        refine ⟨hsession, .inr ⟨hsame, fun base' hbase' => ?_⟩⟩
        obtain rfl := Option.some.inj hbase'
        rw [Option.any_some, Bool.or_eq_true, Bool.or_eq_true, not_or, not_or] at hpending
        exact Bool.eq_false_iff.2 hpending.1.2

/-- A claim in place is for the session, and its roster has removed nothing since the installed
    one. -/
theorem InPlace.keeps (h : InPlace c s l x m claim) (hm : s.membership = some m) :
    claim.sessionId = s.sessionId ∧
      ∀ base, m.topology.roster claim.roster.userId = some base →
        claim.roster.extends c.toRosterCrypto base = .ok true →
        claim.roster.hasRemovalSince c.toRosterCrypto base = .ok false := by
  have hquery : ∀ base : DeviceRoster, claim.roster.extends c.toRosterCrypto base = .ok true →
      holds (claim.roster.hasRemovalSince c.toRosterCrypto base) = false →
      claim.roster.hasRemovalSince c.toRosterCrypto base = .ok false := by
    intro base hext hnone
    obtain ⟨⟨devices, hdevices⟩, more, hmore⟩ := DeviceRoster.extends_eq_true.1 hext
    rw [← hmore] at hdevices hnone ⊢
    rw [DeviceRoster.hasRemovalSince_append hdevices] at hnone ⊢
    exact congrArg Except.ok hnone
  cases h with
  | @accepted ciphertext body signer _ _ _ decrypts checked keeps known =>
    obtain ⟨hverify, -⟩ := checkClaim_eq_ok checked
    refine ⟨(IdentityClaim.verify_eq_ok hverify).1, fun base hbase hext => hquery base hext ?_⟩
    rw [DeviceMembership.removesClient, hbase, Bool.or_eq_false_iff] at keeps
    simpa using keeps.1
  | @own identity _ active makes user changed =>
    obtain ⟨hsession, hroster⟩ := currentDeviceClaim_eq_ok hm makes
    refine ⟨hsession, fun base hbase hext => ?_⟩
    rcases hroster with hinstalled | ⟨hsame, hkeep⟩
    · -- the claim has the installed roster
      obtain ⟨-, huser⟩ := DmTopology.roster_mem hinstalled
      rw [huser, hinstalled] at hbase
      obtain rfl := Option.some.inj hbase
      obtain ⟨⟨devices, hdevices⟩, -⟩ := DeviceRoster.extends_eq_true.1 hext
      have hnone := DeviceRoster.hasRemovalSince_append (A := claim.roster) (D := [])
        (by rwa [List.append_nil])
      rwa [List.append_nil] at hnone
    · rw [hsame] at hbase hext ⊢
      refine hsame ▸ hquery base (hsame ▸ hext) ?_
      rw [hsame]
      exact hkeep base hbase

end PrivateDmSession

/-! ## A claim that is added to a topology -/

namespace DmTopology

variable {c : ClaimCrypto Key Signature} {t t' : DmTopology} {session : String}
  {signers : List String} {claim : IdentityClaim}

/-- The roster of a claim is installed only if the known one is not as new. -/
theorem noteRoster_newer (h : t.noteRoster c claim = .ok t') :
    (t' = t ∧ ∃ current, t.roster claim.roster.userId = some current ∧
      Authorizes c current claim) ∨
    t' = t.setRoster claim.roster ∧ (t.roster claim.roster.userId = none →
      t.rosters.length < dmUsers) ∧ ∀ base, t.roster claim.roster.userId = some base →
        base.extends c.toRosterCrypto claim.roster = .ok false ∧
        claim.roster.extends c.toRosterCrypto base = .ok true := by
  by_cases hold : ∃ base, t.roster claim.roster.userId = some base ∧
      base.extends c.toRosterCrypto claim.roster ≠ .ok false
  · obtain ⟨base, hbase, hold⟩ := hold
    refine .inl ?_
    rw [noteRoster, hbase] at h
    obtain ⟨newer, hnewer, h⟩ := bind_eq_ok.1 h
    cases newer with
    | false => exact absurd (orError_eq_ok.1 hnewer) hold
    | true =>
      obtain ⟨device, hdevice, h⟩ := bind_eq_ok.1 h
      obtain ⟨admits, hadmits, h⟩ := bind_eq_ok.1 h
      obtain ⟨_, hcheck, h⟩ := bind_eq_ok.1 h
      rw [check_eq_ok] at hcheck
      rw [orError_eq_ok, hcheck, authorizesAdmitted_iff hdevice] at hadmits
      exact ⟨(Except.ok.inj h).symm, base, hbase, hadmits⟩
  · push Not at hold
    refine .inr ?_
    have hupdate : t.updateRoster c claim.roster = .ok t' := by
      rw [noteRoster] at h
      cases hbase : t.roster claim.roster.userId with
      | none =>
        rw [hbase] at h
        exact h
      | some base =>
        rw [hbase] at h
        obtain ⟨newer, hnewer, h⟩ := bind_eq_ok.1 h
        rw [orError_eq_ok, hold base hbase] at hnewer
        obtain rfl := Except.ok.inj hnewer
        exact h
    obtain ⟨hset, hext, hroom⟩ := updateRoster_eq_ok.1 hupdate
    exact ⟨hset, hroom, fun base hbase => ⟨hold base hbase, hext base hbase⟩⟩

/-- The rosters after a claim that is verified and whose roster is noted; a claim with a new leaf
    and a new device is added. -/
theorem addClient_noted (hverify : claim.verify c claim.sessionId = .ok ())
    (hnoted : t.noteRoster c claim = .ok t') :
    (t.addClient c claim).1.rosters = t'.rosters ∧
      (claim.mlsSigner ∉ t'.clients.map (·.mlsSigner) →
        claim.deviceId ∉ t'.clients.map (·.deviceId) →
        (t.addClient c claim).1.clients = t'.clients ++ [claim]) := by
  refine ⟨?_, fun hsigner hdevice => by rw [addClient_fresh hverify hnoted hsigner hdevice]⟩
  have hok : (do claim.verify c claim.sessionId; t.noteRoster c claim) = .ok t' :=
    bind_eq_ok.2 ⟨(), hverify, hnoted⟩
  rw [addClient, hok]
  simp only
  split
  · split <;> rfl
  · split <;> rfl

end DmTopology

namespace Bound

variable {c : ClaimCrypto Key Signature} {t t' : DmTopology} {session : String}
  {signers : List String} {claim : IdentityClaim}

/-- A newer roster takes the place of both rosters, if they are of the same user. -/
theorem setRoster_length (h : Bound c t session signers)
    (husers : ¬ (t.rosters.map (·.userId)).Nodup) {roster base : DeviceRoster}
    (hbase : t.roster roster.userId = some base) : (t.setRoster roster).rosters.length = 1 := by
  obtain ⟨hmem, huser⟩ := DmTopology.roster_mem hbase
  have hfilter : t.rosters.filter (fun r => decide (r.userId ≠ roster.userId)) = [] := by
    obtain ⟨r₁, r₂, hrosters⟩ := List.length_eq_two.1 h.rosters
    rw [hrosters] at husers hmem ⊢
    have hsame : r₁.userId = r₂.userId := by simpa using husers
    have hboth : ∀ r ∈ [r₁, r₂], r.userId = roster.userId := by
      intro r hr
      rw [← huser]
      simp only [List.mem_cons, List.not_mem_nil, or_false] at hr hmem
      rcases hr with rfl | rfl <;> rcases hmem with rfl | rfl <;> simp [hsame]
    refine List.filter_eq_nil_iff.2 fun r hr => ?_
    simp [hboth r hr]
  rw [DmTopology.setRoster, hfilter]
  rfl

/-- A claim whose roster removes nothing leaves a bound topology bound, unless it has a newer
    roster and both rosters are of the same user, or it is a new client. -/
theorem addClient_iff (h : Bound c t session signers) (hsession : claim.sessionId = session)
    (hkeep : ∀ base, t.roster claim.roster.userId = some base →
      claim.roster.extends c.toRosterCrypto base = .ok true →
      claim.roster.hasRemovalSince c.toRosterCrypto base = .ok false) :
    Bound c (t.addClient c claim).1 session signers ↔
      ¬ (claim.verify c claim.sessionId = .ok () ∧
        ((¬ (t.rosters.map (·.userId)).Nodup ∧ ∃ base, t.roster claim.roster.userId = some base ∧
          base.extends c.toRosterCrypto claim.roster = .ok false ∧
          claim.roster.extends c.toRosterCrypto base = .ok true) ∨
        (claim.mlsSigner ∉ signers ∧ (∃ t', t.noteRoster c claim = .ok t') ∧
          claim.deviceId ∉ t.clients.map (·.deviceId)))) := by
  -- the clients do not change when a roster is noted
  have hclients : ∀ {t'}, t.noteRoster c claim = .ok t' → t'.clients = t.clients := by
    intro t' hnoted
    rcases DmTopology.noteRoster_newer hnoted with ⟨rfl, -⟩ | ⟨rfl, -⟩ <;> rfl
  have hleaves : claim.mlsSigner ∈ t.clients.map (·.mlsSigner) ↔ claim.mlsSigner ∈ signers :=
    h.leaves.mem_iff
  constructor
  · rintro hafter ⟨hverify, ⟨husers, base, hbase, hold, hnew⟩ | ⟨hsigner, ⟨t', hnoted⟩, hdevice⟩⟩
    · -- both rosters are replaced by the new one
      have hnoted : t.noteRoster c claim = .ok (t.setRoster claim.roster) := by
        rw [DmTopology.noteRoster, hbase]
        refine bind_eq_ok.2 ⟨false, orError_eq_ok.2 hold, DmTopology.updateRoster_eq_ok.2
          ⟨rfl, fun base' hbase' => ?_, fun hnone => ?_⟩⟩
        · rwa [← Option.some.inj (hbase.symm.trans hbase')]
        · rw [hbase] at hnone
          cases hnone
      have hlength := hafter.rosters
      rw [(DmTopology.addClient_noted hverify hnoted).1, h.setRoster_length husers hbase] at hlength
      cases hlength
    · -- there is one client more than leaves
      have hadd := (DmTopology.addClient_noted hverify hnoted).2
      rw [hclients hnoted] at hadd
      have hlength := hafter.leaves.length_eq
      rw [hadd (fun hs => hsigner (hleaves.1 hs)) hdevice, List.length_map, List.length_append,
        ← h.leaves.length_eq, List.length_map] at hlength
      simp at hlength
  · intro hspoils
    rcases DmTopology.addClient_cases (c := c) t claim with
      ⟨hsame, -⟩ | ⟨t', hverify, hnoted, hcases⟩
    · rwa [hsame]
    · rw [not_and] at hspoils
      obtain ⟨husers, hfresh⟩ := not_or.1 (hspoils hverify)
      have hverify' : claim.verify c session = .ok () := hsession ▸ hverify
      obtain ⟨-, device, hdevice⟩ := IdentityClaim.verify_eq_ok hverify'
      have hnoted' : Bound c t' session signers ∧
          ∃ current, t'.roster claim.roster.userId = some current ∧ Authorizes c current claim := by
        rcases DmTopology.noteRoster_newer hnoted with ⟨rfl, hauth⟩ | ⟨rfl, hroom, hnewer⟩
        · exact ⟨h, hauth⟩
        · have hnodup : (t.rosters.map (·.userId)).Nodup := by
            by_contra hnot
            cases hbase : t.roster claim.roster.userId with
            | none => exact absurd (hroom hbase) (by rw [h.rosters]; exact lt_irrefl _)
            | some base => exact husers ⟨hnot, base, hbase, hnewer base hbase⟩
          obtain ⟨hbound, -, -, hauth⟩ := h.noteRoster hnodup hdevice hkeep hnoted
          exact ⟨hbound, hauth⟩
      rcases hcases with ⟨hrefused, -⟩ | ⟨⟨existing, hexisting, hid, -⟩, hok⟩ | ⟨hnone, hnew, -⟩
      · rw [hrefused]
        exact hnoted'.1
      · rw [hok]
        exact hnoted'.1.replaceClient hverify' ⟨existing, hexisting, hid⟩ hnoted'.2
      · rw [DmTopology.client_eq_none, hclients hnoted] at hnone
        rw [hclients hnoted] at hnew
        exact absurd ⟨fun hs => hnone (hleaves.2 hs), ⟨t', hnoted⟩, hnew⟩ hfresh

end Bound

namespace PrivateDmSession

variable {c} {s : PrivateDmSession σ} {l : DeviceCall}

/-- A call for the devices of a session leaves its valid topology valid exactly if it does not
    spoil it. -/
theorem bound_step_iff (hl : c.mls.Lawful) (hs : s.Valid c) (hdevice : l.isHandshake = false) :
    (s.step c l).Valid c ↔ ¬ s.Spoils c l := by
  obtain ⟨m, hm, hvalid⟩ := hs
  have hbound := DmTopology.validate_eq_ok.1 hvalid
  -- the topology after a claim in place
  have hinPlace : ∀ {x claim m'}, InPlace c s l x m' claim → SameGroup c s.crypto x →
      m' = m ∧ ((s.step c l).Valid c ↔
        Bound c.toClaimCrypto (m.topology.addClient c.toClaimCrypto claim).1 s.sessionId
          (c.memberSigners s.crypto)) := by
    intro x claim m' hplace hsame
    obtain rfl : m' = m := by
      cases hplace with
      | accepted decrypts checked keeps known =>
        have := checkClaim_membership (s := { s with crypto := x }) checked
        exact Option.some.inj (this.symm.trans hm)
      | own active makes user changed =>
        rw [startMembership, hm]
        rfl
    obtain ⟨hmembership, hcrypto, hsession⟩ := step_of_inPlace hplace
    refine ⟨rfl, ?_⟩
    rw [Valid, hmembership, hcrypto, hsession, hsame.memberSigners, ← DmTopology.validate_eq_ok]
    constructor
    · rintro ⟨next, hnext, h⟩
      obtain rfl := Option.some.inj hnext
      exact h
    · exact fun h => ⟨_, rfl, h⟩
  have hsigners : ∀ {x claim m'}, InPlace c s l x m' claim → SameGroup c s.crypto x := by
    intro x claim m' hplace
    cases hplace with
    | @accepted ciphertext body signer _ _ _ decrypts checked keeps known =>
      have hsame := decrypt_same hl s.crypto ciphertext
      rw [decrypts] at hsame
      exact hsame
    | own active makes user changed => exact SameGroup.refl _
  have hclaim : ∀ {x claim}, InPlace c s l x m claim →
      ((s.step c l).Valid c ↔ ¬ (claim.verify c.toClaimCrypto claim.sessionId = .ok () ∧
        ((¬ (m.topology.rosters.map (·.userId)).Nodup ∧ Newer c m.topology claim) ∨
          (claim.mlsSigner ∉ c.memberSigners s.crypto ∧
            (∃ t, m.topology.noteRoster c.toClaimCrypto claim = .ok t) ∧
            claim.deviceId ∉ m.topology.clients.map (·.deviceId))))) := by
    intro x claim hplace
    obtain ⟨hsession, hkeep⟩ := hplace.keeps hm
    rw [(hinPlace hplace (hsigners hplace)).2]
    exact hbound.addClient_iff hsession hkeep
  constructor
  · rintro hafter ⟨x, m', claim, hplace, hspoils⟩
    obtain ⟨rfl, -⟩ := hinPlace hplace (hsigners hplace)
    exact (hclaim hplace).1 hafter hspoils
  · intro hspoils
    have heffect := step_effect hl s l
    generalize hstep : s.step c l = s' at heffect
    cases heffect with
    | @idle x same =>
      refine ⟨m, hm, ?_⟩
      show m.topology.validate c.toClaimCrypto s.sessionId (c.memberSigners x) = .ok ()
      rwa [same.memberSigners]
    | start identity =>
      refine ⟨m, ?_, hvalid⟩
      show some (s.startMembership identity) = some m
      rw [startMembership, hm]
      rfl
    | @note x m₀ m' same had notes =>
      obtain rfl := Option.some.inj (hm.symm.trans had)
      refine ⟨m', rfl, ?_⟩
      show m'.topology.validate c.toClaimCrypto s.sessionId (c.memberSigners x) = .ok ()
      rwa [notes.topology, same.memberSigners]
    | @claim x m₀ claim joined same inPlace stays =>
      obtain ⟨rfl, -⟩ := hinPlace inPlace same
      rw [← hstep]
      refine (hclaim inPlace).2 fun hspoil => hspoils ⟨x, m₀, claim, inPlace, hspoil⟩
    | @commit y m₀ m' e device had commits retains => exact ⟨m', rfl, commits.valid⟩
    | @handshake y joined first fresh epoch =>
      rw [hdevice] at first
      cases first

/-- Whether the topology of a session is valid, as a value that can be evaluated. -/
theorem valid_iff : s.Valid c ↔ (s.membership.map fun m =>
    m.topology.validate c.toClaimCrypto s.sessionId (c.memberSigners s.crypto)) = some (.ok ()) := by
  rw [Valid, Option.map_eq_some_iff]

/-- Cryptography for the sessions below, in which no claim is received. -/
abbrev quietDm : DmCrypto (List UInt8) (List UInt8) PlainGroup := plainDm fun _ => .error .notReady

/-- A third device is added to the account, and the own claim made again: nothing is spoilt. -/
theorem bound_step_iff_pair : pairSession.Valid quietDm ∧
    ¬ pairSession.Spoils quietDm (.refreshDeviceIdentity
      (plainIdentity 1 (plainAccount 1 [(1, 1, 2), (1, 1, 3)]))) := by
  have hvalid : pairSession.Valid quietDm := valid_iff.2 (by decide +kernel)
  exact ⟨hvalid, (bound_step_iff plainMls_lawful hvalid rfl).1 (valid_iff.2 (by decide +kernel))⟩

/-- A session between two devices of the same account, whose roster is there twice. -/
def twinSession : PrivateDmSession PlainGroup where
  sessionId := "dm"
  deviceId := "Name"
  crypto := ⟨some 1, [⟨0, List.replicate 32 11⟩, ⟨1, List.replicate 32 12⟩], 0,
    List.replicate 32 11⟩
  peerJoined := true
  membership := some
    { topology := ⟨(plainAccount 1 [(1, 1, 2)]).userId,
        [plainClaim 1 11 (plainAccount 1 [(1, 1, 2)]), plainClaim 2 12 (plainAccount 1 [(1, 1, 2)])],
        [plainAccount 1 [(1, 1, 2)], plainAccount 1 [(1, 1, 2)]]⟩ }

/-- Its topology is valid, and is not any more when a device is added to the account. -/
theorem refresh_spoils_twins : twinSession.Valid quietDm ∧
    ¬ (twinSession.step quietDm (.refreshDeviceIdentity
      (plainIdentity 1 (plainAccount 1 [(1, 1, 2), (1, 1, 3)])))).Valid quietDm := by
  rw [valid_iff, valid_iff]
  exact ⟨by decide +kernel, by decide +kernel⟩

end PrivateDmSession

end Mosh.DmDevices
