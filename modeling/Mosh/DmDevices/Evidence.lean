import Mosh.DmDevices.Effects

/-!
# Evidence without gaps

A device that has missed commits of the group pulls them from another device, one after the other
(`devices/recovery/source.rs`): the answer to a pull is the signed evidence of the commit that
follows on the epoch of the device that asks. For this to lead anywhere, every session has to
retain the evidence of every commit since the first one that changed its devices.

* `evidence_gapless`: once a session has made or accepted its first device transition, its
  evidence covers every epoch since, once each; every pull within them is answered with the next
  commit, and a device that applies the answers reaches the epoch of the source.
-/

namespace Mosh.DmDevices

open DeviceLink Checked Run

/-- The evidence is that of the epochs from one to another, once each. -/
structure Gapless (first current : Nat) (evidence : List Nat) : Prop where
  nodup : evidence.Nodup
  covers : ∀ e, e ∈ evidence ↔ first ≤ e ∧ e ≤ current

/-- The evidence of the first commit. -/
theorem Gapless.single {m m' : DeviceMembership} {e : Nat} (hnone : m.evidence = [])
    (h : m.Retains m' e) : Gapless e e m'.evidence := by
  have hevidence : m'.evidence = [e] := by
    rcases h with ⟨hmem, -⟩ | ⟨-, hperm⟩
    · rw [hnone] at hmem
      cases hmem
    · rw [hnone] at hperm
      exact List.perm_singleton.1 hperm
  rw [hevidence]
  refine ⟨List.nodup_singleton e, fun k => ?_⟩
  rw [List.mem_singleton]
  omega

/-- The evidence of the next commit. -/
theorem Gapless.succ {m m' : DeviceMembership} {first current : Nat} (hle : first ≤ current)
    (h : Gapless first current m.evidence) (hretains : m.Retains m' (current + 1)) :
    Gapless first (current + 1) m'.evidence := by
  rcases hretains with ⟨hmem, -⟩ | ⟨hfresh, hperm⟩
  · have := (h.covers _).1 hmem
    omega
  · refine ⟨hperm.nodup_iff.2 (List.nodup_cons.2 ⟨hfresh, h.nodup⟩), fun k => ?_⟩
    rw [hperm.mem_iff, List.mem_cons, h.covers]
    omega

variable {Key Signature σ : Type} (c : DmCrypto Key Signature σ)

namespace PrivateDmSession

/-- A call is a device transition: it leads to another epoch. (The handshake with the first
    counterpart is not one.) -/
def Transitions (s : PrivateDmSession σ) (l : DeviceCall) : Prop :=
  l.isHandshake = false ∧ c.mls.epoch (s.step c l).crypto ≠ c.mls.epoch s.crypto

/-- A session without evidence. A device that is about to join has no group yet. -/
def Unlinked (s : PrivateDmSession σ) : Prop :=
  ∀ m, s.membership = some m →
    m.evidence = [] ∧ (m.joining.isSome → c.mls.epoch s.crypto = none)

/-- A session with all the evidence since an epoch. -/
def Linked (first : Nat) (s : PrivateDmSession σ) : Prop :=
  s.peerJoined = true ∧ ∃ m current, s.membership = some m ∧ m.joining = none ∧
    c.mls.epoch s.crypto = some current ∧ first ≤ current ∧ Gapless first current m.evidence

variable {c} {s : PrivateDmSession σ} {l : DeviceCall}

/-- The membership in which a claim is added is that of the session, or a new one. -/
theorem InPlace.membership {x : σ} {m : DeviceMembership} {claim : IdentityClaim}
    (h : InPlace c s l x m claim) :
    s.membership = some m ∨ s.membership = none ∧ m.evidence = [] ∧ m.joining = none := by
  cases h with
  | accepted decrypts checked keeps known => 
    exact .inl (checkClaim_membership (s := { s with crypto := x }) checked)
  | @own identity claim active makes user changed =>
    cases hm : s.membership with
    | none =>
      rw [startMembership, hm]
      exact .inr ⟨rfl, rfl, rfl⟩
    | some m =>
      rw [startMembership, hm]
      exact .inl rfl

/-- Before the first transition, a call leaves a session without evidence; the first transition
    retains its own. -/
theorem step_unlinked (hl : c.mls.Lawful) (hs : s.Unlinked c) (hcarries : l.carriesEvidence = true) :
    (¬ s.Transitions c l → (s.step c l).Unlinked c) ∧
      (s.Transitions c l → ∃ first, c.mls.epoch (s.step c l).crypto = some first ∧
        (s.step c l).Linked c first) := by
  have heffect := step_effect hl s l
  rw [Transitions]
  generalize s.step c l = s' at heffect
  cases heffect with
  | idle same =>
    refine ⟨fun _ m hm => ?_, fun h => absurd same.epoch h.2⟩
    show m.evidence = [] ∧ (m.joining.isSome → c.mls.epoch _ = none)
    rw [same.epoch]
    exact hs m hm
  | start identity =>
    refine ⟨fun _ m hm => ?_, fun h => absurd rfl h.2⟩
    cases hs' : s.membership with
    | none =>
      rw [startMembership, hs'] at hm
      obtain rfl := Option.some.inj hm
      exact ⟨rfl, fun h => (nomatch h)⟩
    | some before =>
      rw [startMembership, hs'] at hm
      exact hs m (hs'.trans hm)
  | @note x m m' same had notes =>
    refine ⟨fun _ next hm => ?_, fun h => absurd same.epoch h.2⟩
    obtain rfl := Option.some.inj hm
    rw [notes.evidence, notes.joining]
    show m.evidence = [] ∧ (m.joining.isSome → c.mls.epoch x = none)
    rw [same.epoch]
    exact hs m had
  | @claim x m claim joined same inPlace stays =>
    refine ⟨fun _ next hm => ?_, fun h => absurd same.epoch h.2⟩
    obtain rfl := Option.some.inj hm
    show m.evidence = [] ∧ (m.joining.isSome → c.mls.epoch x = none)
    rw [same.epoch]
    rcases inPlace.membership with hm | ⟨-, hevidence, hjoining⟩
    · exact hs m hm
    · exact ⟨hevidence, fun h => by rw [hjoining] at h; cases h⟩
  | @commit y m m' e device had commits retains =>
    obtain ⟨hnone, hjoining⟩ := hs m had
    have hretains : m.Retains m' e := by
      rcases retains with h | ⟨h, -⟩
      · exact h
      · rw [hcarries] at h
        cases h
    -- the epoch is a new one, also for a device that joins
    have hnew : c.mls.epoch y ≠ c.mls.epoch s.crypto ∧ m'.joining = none := by
      rcases commits.advance with ⟨hjoins, hnone⟩ | ⟨hsame, before, hbefore, rfl⟩
      · rw [commits.epoch, hjoining hjoins]
        exact ⟨Option.some_ne_none e, hnone⟩
      · rw [commits.epoch, hbefore, hsame]
        refine ⟨by simp, ?_⟩
        cases hj : m.joining with
        | none => rfl
        | some join =>
          rw [hjoining (by rw [hj]; rfl)] at hbefore
          cases hbefore
    refine ⟨fun h => absurd ⟨device, hnew.1⟩ h, fun _ => ⟨e, commits.epoch, ?_, ?_⟩⟩
    · show (s.peerJoined || decide _) = true
      rw [decide_eq_true hnew.1.symm, Bool.or_true]
    · exact ⟨m', e, rfl, hnew.2, commits.epoch, le_rfl, Gapless.single hnone hretains⟩
  | @handshake y joined first fresh epoch =>
    refine ⟨fun _ m hm => ?_, fun h => ?_⟩
    · obtain ⟨hnone, hjoining⟩ := hs m hm
      refine ⟨hnone, fun hjoins => ?_⟩
      rcases epoch with hsame | hsome | hnone
      · exact hsame.trans (hjoining hjoins)
      · rw [hjoining hjoins] at hsome
        cases hsome
      · rw [hnone m hm] at hjoins
        cases hjoins
    · rw [first] at h
      exact absurd h.1 Bool.noConfusion

/-- After the first transition, a call keeps the evidence complete. -/
theorem step_linked (hl : c.mls.Lawful) {first : Nat} (hs : s.Linked c first)
    (hcarries : l.carriesEvidence = true) : (s.step c l).Linked c first := by
  obtain ⟨hpeer, m, current, hm, hjoining, hepoch, hle, hgapless⟩ := hs
  have heffect := step_effect hl s l
  generalize s.step c l = s' at heffect
  cases heffect with
  | idle same => exact ⟨hpeer, m, current, hm, hjoining, same.epoch.trans hepoch, hle, hgapless⟩
  | start identity =>
    refine ⟨hpeer, m, current, ?_, hjoining, hepoch, hle, hgapless⟩
    show some (s.startMembership identity) = some m
    rw [startMembership, hm]
    rfl
  | @note x m₀ m' same had notes =>
    obtain rfl := Option.some.inj (hm.symm.trans had)
    exact ⟨hpeer, m', current, rfl, notes.joining.trans hjoining, same.epoch.trans hepoch, hle,
      notes.evidence ▸ hgapless⟩
  | @claim x m₀ claim joined same inPlace stays =>
    rcases inPlace.membership with had | ⟨hnone, -⟩
    · obtain rfl := Option.some.inj (hm.symm.trans had)
      exact ⟨stays hpeer, _, current, rfl, hjoining, same.epoch.trans hepoch, hle, hgapless⟩
    · rw [hm] at hnone
      cases hnone
  | @commit y m₀ m' e device had commits retains =>
    obtain rfl := Option.some.inj (hm.symm.trans had)
    have hretains : m.Retains m' e := by
      rcases retains with h | ⟨h, -⟩
      · exact h
      · rw [hcarries] at h
        cases h
    rcases commits.advance with ⟨hjoins, -⟩ | ⟨hsame, before, hbefore, rfl⟩
    · rw [hjoining] at hjoins
      cases hjoins
    · obtain rfl := Option.some.inj (hepoch.symm.trans hbefore)
      refine ⟨?_, m', current + 1, rfl, hsame.trans hjoining, commits.epoch, by omega,
        hgapless.succ hle hretains⟩
      show (s.peerJoined || _) = true
      rw [hpeer, Bool.true_or]
  | @handshake y joined first fresh epoch =>
    rw [hpeer] at fresh
    cases fresh

end PrivateDmSession

/-! ## Pulls -/

namespace RecoveryAnswer

/-- The epoch to which the commit of an answer leads. -/
def evidenceEpoch : RecoveryAnswer → Option Nat
  | .epoch response => some response.evidence.epoch
  | .removal response => some response.evidence.epoch
  | .batch => none

/-- The call with which a device applies an answer that it gets from a sender. -/
def received (host : Host) (identity : DeviceIdentity) (sender : DeviceDescriptor)
    (roster : DeviceRoster) : RecoveryAnswer → Option DeviceCall
  | .epoch response => some (.receiveRecoveryEpoch host sender roster response)
  | .removal response => some (.receiveRecoveryRemoval host identity sender roster response)
  | .batch => none

end RecoveryAnswer

namespace PrivateDmSession

/-- A device pulls from a source with its own epoch and applies the answer, some number of
    times. -/
inductive CatchesUp (source : PrivateDmSession σ) :
    PrivateDmSession σ → Nat → PrivateDmSession σ → Prop
  | done (d : PrivateDmSession σ) : CatchesUp source d 0 d
  | pull {d d₁ d₂ : PrivateDmSession σ} {n : Nat} {pull : RecoveryPull} {answer : RecoveryAnswer}
      {l : DeviceCall} {host : Host} {identity : DeviceIdentity} {asking sender : DeviceDescriptor}
      {askingRoster roster : DeviceRoster} (asks : c.mls.epoch d.crypto = some pull.epoch)
      (answers : source.receiveRecoveryPull c asking askingRoster pull = .ok answer)
      (receives : answer.received host identity sender roster = some l)
      (applies : d.call c l = (d₁, .ok ())) (rest : CatchesUp source d₁ n d₂) :
      CatchesUp source d (n + 1) d₂

variable {c} {s d d' : PrivateDmSession σ}

/-- What a call that returns normally has installed. -/
theorem transition_eq_ok {host : Host}
    {staged : Except PrivateDmRuntimeError (Option (σ × DeviceMembership))}
    {after : Except PrivateDmRuntimeError Unit}
    (h : s.transition c host staged after = (d', .ok ())) :
    staged = .ok none ∨ ∃ y m', staged = .ok (some (y, m')) ∧ d' = s.installed c y m' := by
  rcases staged with e | _ | ⟨y, m'⟩
  · cases h
  · exact .inl rfl
  · simp only [transition, installDeviceTransition] at h
    cases hstore : (do ← getOr invalid host.store : Except PrivateDmRuntimeError Unit) with
    | error e =>
      rw [hstore] at h
      cases h
    | ok _ =>
      rw [hstore] at h
      exact .inr ⟨y, m', rfl, (Prod.mk.inj h).1.symm⟩

/-- An answer that is applied leads to the epoch of its evidence. -/
theorem call_received (hl : c.mls.Lawful) {answer : RecoveryAnswer} {l : DeviceCall} {host : Host}
    {identity : DeviceIdentity} {sender : DeviceDescriptor} {roster : DeviceRoster}
    (hreceived : answer.received host identity sender roster = some l)
    (h : d.call c l = (d', .ok ())) : c.mls.epoch d'.crypto = answer.evidenceEpoch := by
  cases answer with
  | epoch response =>
    obtain rfl := Option.some.inj hreceived
    rcases transition_eq_ok h with hnone | ⟨y, m', hstaged, rfl⟩
    · obtain ⟨y, m', m, hsome, -⟩ := stageRecoveryEpoch_eq_ok hl hnone
      cases hsome
    · obtain ⟨y', m'', m, hsome, -, hcommits, -⟩ := stageRecoveryEpoch_eq_ok hl hstaged
      obtain ⟨rfl, rfl⟩ := Prod.mk.inj (Option.some.inj hsome)
      exact hcommits.epoch
  | removal response =>
    obtain rfl := Option.some.inj hreceived
    rcases transition_eq_ok h with hnone | ⟨y, m', hstaged, rfl⟩
    · obtain ⟨y, m', m, hsome, -⟩ := stageRecoveryRemoval_eq_ok hnone
      cases hsome
    · obtain ⟨y', m'', m, hsome, -, hcommits, -⟩ := stageRecoveryRemoval_eq_ok hstaged
      obtain ⟨rfl, rfl⟩ := Prod.mk.inj (Option.some.inj hsome)
      exact hcommits.epoch
  | batch => cases hreceived

/-- Evidence that is there is found. -/
theorem recoveryEpochPacket_of_mem {m : DeviceMembership} {pull : RecoveryPull}
    (hm : s.membership = some m) (hlt : pull.epoch + 1 < 2 ^ 64)
    (hmem : pull.epoch + 1 ∈ m.evidence) : ∃ answer, s.recoveryEpochPacket pull = .ok answer ∧
      answer.evidenceEpoch = some (pull.epoch + 1) := by
  have hnext : checkedSucc pull.epoch = some (pull.epoch + 1) := if_pos hlt
  cases hrecord : m.epochRecords.find? fun record => decide (record.epoch = pull.epoch + 1) with
  | some record =>
    have hepoch : record.epoch = pull.epoch + 1 := by simpa using List.find?_some hrecord
    refine ⟨.epoch ⟨pull.round, pull.requestId, record⟩, ?_, congrArg some hepoch⟩
    refine bind_eq_ok.2 ⟨m, getOr_eq_ok.2 hm, bind_eq_ok.2 ⟨_, getOr_eq_ok.2 hnext, ?_⟩⟩
    rw [hrecord]
    rfl
  | none =>
    -- without a record of an admission, the evidence is that of a removal
    have hremoval : pull.epoch + 1 ∈ m.removals.map (·.evidence.epoch) := by
      rcases List.mem_append.1 hmem with h | h
      · obtain ⟨record, hin, hepoch⟩ := List.mem_map.1 h
        exact absurd (decide_eq_true hepoch) (List.find?_eq_none.1 hrecord record hin)
      · exact h
    cases hfind : m.removals.find? fun journal =>
        decide (journal.evidence.epoch = pull.epoch + 1) with
    | none =>
      obtain ⟨journal, hin, hepoch⟩ := List.mem_map.1 hremoval
      exact absurd (decide_eq_true hepoch) (List.find?_eq_none.1 hfind journal hin)
    | some journal =>
      have hepoch : journal.evidence.epoch = pull.epoch + 1 := by simpa using List.find?_some hfind
      refine ⟨.removal ⟨pull.round, pull.requestId, journal.evidence⟩, ?_, congrArg some hepoch⟩
      refine bind_eq_ok.2 ⟨m, getOr_eq_ok.2 hm, bind_eq_ok.2 ⟨_, getOr_eq_ok.2 hnext, ?_⟩⟩
      rw [hrecord]
      exact bind_eq_ok.2 ⟨journal, getOr_eq_ok.2 hfind, rfl⟩

/-- A pull within the evidence of a session is answered with the next commit. -/
theorem Linked.receiveRecoveryPull (hl : c.mls.Lawful) {first : Nat} {m : DeviceMembership}
    {current : Nat} (hm : s.membership = some m) (hepoch : c.mls.epoch s.crypto = some current)
    (hgapless : Gapless first current m.evidence) {sender : DeviceDescriptor}
    {roster : DeviceRoster} {pull : RecoveryPull}
    (hauthorized : s.authorizeRecoveryDevice c sender roster = .ok ())
    (hsession : pull.sessionId = s.sessionId) (hfirst : first ≤ pull.epoch + 1)
    (hlast : pull.epoch + 1 ≤ current) :
    ∃ answer, s.receiveRecoveryPull c sender roster pull = .ok answer ∧
      answer.evidenceEpoch = some (pull.epoch + 1) := by
  have hmem := (hgapless.covers (pull.epoch + 1)).2 ⟨hfirst, hlast⟩
  have hlt : pull.epoch + 1 < 2 ^ 64 := lt_of_le_of_lt hlast (hl.epoch_lt hepoch)
  obtain ⟨answer, hanswer, hevidence⟩ := recoveryEpochPacket_of_mem hm hlt hmem
  refine ⟨answer, ?_, hevidence⟩
  refine bind_eq_ok.2 ⟨(), check_eq_ok.2 (decide_eq_true hsession), bind_eq_ok.2 ⟨(), hauthorized,
    bind_eq_ok.2 ⟨current, getOr_eq_ok.2 hepoch, ?_⟩⟩⟩
  rw [if_pos (by omega), hanswer]

/-- Only a pull behind the epoch of the source is answered with a commit. -/
theorem receiveRecoveryPull_behind {sender : DeviceDescriptor} {roster : DeviceRoster}
    {pull : RecoveryPull} {answer : RecoveryAnswer} {current e : Nat}
    (hepoch : c.mls.epoch s.crypto = some current)
    (h : s.receiveRecoveryPull c sender roster pull = .ok answer)
    (hevidence : answer.evidenceEpoch = some e) :
    pull.epoch < current ∧ s.recoveryEpochPacket pull = .ok answer := by
  obtain ⟨_, -, h⟩ := bind_eq_ok.1 h
  obtain ⟨_, -, h⟩ := bind_eq_ok.1 h
  obtain ⟨current', hcurrent, h⟩ := bind_eq_ok.1 h
  obtain rfl := Option.some.inj (hepoch.symm.trans (getOr_eq_ok.1 hcurrent))
  split at h
  · next hlt => exact ⟨hlt, h⟩
  · obtain ⟨_, -, h⟩ := bind_eq_ok.1 h
    obtain rfl := Except.ok.inj h
    cases hevidence

/-- A device that catches up with a source goes from epoch to epoch. -/
theorem CatchesUp.epoch (hl : c.mls.Lawful) {first current : Nat} {m : DeviceMembership}
    (hm : s.membership = some m) (hepoch : c.mls.epoch s.crypto = some current)
    (hgapless : Gapless first current m.evidence) {n e : Nat} (h : CatchesUp c s d n d')
    (he : c.mls.epoch d.crypto = some e) (hfirst : first ≤ e + 1) (hlast : e ≤ current) :
    c.mls.epoch d'.crypto = some (e + n) ∧ e + n ≤ current := by
  induction h generalizing e with
  | done d => exact ⟨he, hlast⟩
  | @pull d d₁ d₂ n pull answer l host identity asking sender askingRoster roster asks answers
      receives applies rest ih =>
    obtain rfl := Option.some.inj (asks.symm.trans he)
    obtain ⟨k, hk⟩ : ∃ k, answer.evidenceEpoch = some k := by
      cases answer with
      | epoch response => exact ⟨_, rfl⟩
      | removal response => exact ⟨_, rfl⟩
      | batch => cases receives
    obtain ⟨hlt, hpacket⟩ := receiveRecoveryPull_behind hepoch answers hk
    have hmem := (hgapless.covers (pull.epoch + 1)).2 ⟨hfirst, hlt⟩
    have hbound : pull.epoch + 1 < 2 ^ 64 := lt_of_le_of_lt hlt (hl.epoch_lt hepoch)
    obtain ⟨answer', hanswer, hevidence⟩ := recoveryEpochPacket_of_mem hm hbound hmem
    obtain rfl := Except.ok.inj (hpacket.symm.trans hanswer)
    have hnext : c.mls.epoch d₁.crypto = some (pull.epoch + 1) :=
      (call_received hl receives applies).trans hevidence
    obtain ⟨hreached, hle⟩ := ih hnext (by omega) hlt
    rw [show pull.epoch + (n + 1) = pull.epoch + 1 + n by omega]
    exact ⟨hreached, hle⟩

/-- Epoch evidence is gapless. Along every run in which the admissions carry their authorization,
    once the first device transition is made, the evidence is that of every epoch from the one of
    this transition up to the current one, once each. Every pull of an authorized device within
    these epochs is answered with the evidence of the next one, and a device that applies the
    answers to its pulls goes from epoch to epoch, up to that of the source. -/
theorem evidence_gapless (hl : c.mls.Lawful) {s before t : PrivateDmSession σ} {l : DeviceCall}
    {pre post : List DeviceCall} (hs : s.Unlinked c)
    (hpre : Runs (step c) (fun s l => l.carriesEvidence = true ∧ ¬ s.Transitions c l) s pre before)
    (hcarries : l.carriesEvidence = true) (hfirst : before.Transitions c l)
    (hpost : Runs (step c) (fun _ l => l.carriesEvidence = true) (before.step c l) post t) :
    ∃ first current m, c.mls.epoch (before.step c l).crypto = some first ∧
      c.mls.epoch t.crypto = some current ∧ t.membership = some m ∧ first ≤ current ∧
      Gapless first current m.evidence ∧
      (∀ sender roster pull, t.authorizeRecoveryDevice c sender roster = .ok () →
        pull.sessionId = t.sessionId → first ≤ pull.epoch + 1 → pull.epoch + 1 ≤ current →
        ∃ answer, t.receiveRecoveryPull c sender roster pull = .ok answer ∧
          answer.evidenceEpoch = some (pull.epoch + 1)) ∧
      ∀ d n d' e, CatchesUp c t d n d' → c.mls.epoch d.crypto = some e → first ≤ e + 1 →
        e ≤ current → c.mls.epoch d'.crypto = some (e + n) ∧ e + n ≤ current := by
  have hbefore : before.Unlinked c :=
    hpre.invariant (fun s l hl' hs => (step_unlinked hl hs hl'.1).1 hl'.2) hs
  obtain ⟨first, hepoch, hlinked⟩ := (step_unlinked hl hbefore hcarries).2 hfirst
  obtain ⟨-, m, current, hm, -, hcurrent, hle, hgapless⟩ : t.Linked c first :=
    hpost.invariant (fun s l hcarries hs => step_linked hl hs hcarries) hlinked
  refine ⟨first, current, m, hepoch, hcurrent, hm, hle, hgapless, ?_, ?_⟩
  · exact fun sender roster pull hauthorized hsession hfirst hlast =>
      Linked.receiveRecoveryPull hl hm hcurrent hgapless hauthorized hsession hfirst hlast
  · exact fun d n d' e h he hfirst hlast => h.epoch hl hm hcurrent hgapless he hfirst hlast

/-- The second device asks to join. -/
def pairJoin : DeviceCall :=
  .authorizeDeviceJoin ⟨1000, some (.ok ()), .ok (), .ok ()⟩
    (plainIdentity 1 (plainAccount 1 [(1, 1, 2)])) (plainDevice 2)
    ⟨"join", plainClaim 2 12 (plainAccount 1 [(1, 1, 2)]), [2, 12]⟩

/-- The second device is admitted: it is the first transition, and its evidence is retained. -/
theorem evidence_gapless_pair :
    ∃ current m, (plainDm fun _ => .error .notReady).mls.epoch
        (pairSession.step (plainDm fun _ => .error .notReady) pairJoin).crypto = some current ∧
      (pairSession.step (plainDm fun _ => .error .notReady) pairJoin).membership = some m ∧
      Gapless current current m.evidence := by
  have hfirst : pairSession.Transitions (plainDm fun _ => .error .notReady) pairJoin :=
    ⟨rfl, by decide +kernel⟩
  have hs : pairSession.Unlinked (plainDm fun _ => .error .notReady) := by
    intro m hm
    obtain rfl := Option.some.inj hm
    exact ⟨rfl, fun h => (nomatch h)⟩
  obtain ⟨first, current, m, hepoch, hcurrent, hm, -, hgapless, -⟩ :=
    evidence_gapless (c := plainDm fun _ => .error .notReady) plainMls_lawful hs (.nil _) rfl
      hfirst (.nil _)
  obtain rfl := Option.some.inj (hepoch.symm.trans hcurrent)
  exact ⟨first, m, hepoch, hm, hgapless⟩

end PrivateDmSession

end Mosh.DmDevices
