import Mosh.Library.Run
import Mosh.Group.Session

/-!
# Gaps, requests and the rejoin hint

A member is stuck when a commit is buffered for a later epoch and nothing brings
it there. The sequencer looks at the first buffered epoch only (`gap`), so it
reports this as long as no entry is left over from an epoch that has passed
(`NoStale`). Sequencing leaves none. An own change does, when it passes an entry
that is buffered for its epoch.

* `no_hidden_gap`: in a run in which no change past the sequencer overtakes a
  buffered commit, every gap is reported;
* `stuck_member_asks`: a member asks for a replay when it is stuck, unless a
  blob that fails to stage sits in front of the commits it is waiting for;
* `needsRejoin_eq_false_iff`: when the hint to rejoin is cleared at the head of
  the group.
-/

namespace Mosh.Group

open Run (Runs)

variable {σ Text Bytes Fp Tree : Type} {mls : Mls σ Text Bytes Fp Tree} {faults : Faults σ Bytes}
  {groupId : String} {m m' : Member σ Text Bytes} {g g₀ g' : GroupSession σ Text Bytes Fp}
  {text : Text} {e k : Nat}

/-! ## Entries of epochs that have passed -/

/-- No commit is buffered for an epoch that has passed. -/
def NoStale (mls : Mls σ Text Bytes Fp Tree) (m : Member σ Text Bytes) : Prop :=
  ∀ e, mls.epoch m.crypto = some e → ∀ k, m.sequencer.Buffers k → e ≤ k

namespace NoStale

theorem of_empty (h : ∀ k, ¬m.sequencer.Buffers k) : NoStale mls m :=
  fun _ _ k hk => absurd hk (h k)

/-- Without left-over entries the gap is reported whenever a later commit is buffered
    and none for the current epoch. -/
theorem gap (h : NoStale mls m) (he : mls.epoch m.crypto = some e)
    (hnone : ¬m.sequencer.Buffers e) (hlt : e < k) (hk : m.sequencer.Buffers k) :
    m.sequencer.gap e = true := by
  refine CommitSequencer.gap_iff.2 ⟨⟨k, hk⟩, fun j hj => ?_⟩
  have hne : j ≠ e := by
    rintro rfl
    exact hnone hj
  exact lt_of_le_of_ne (h e he j hj) hne.symm

/-- Sequencing leaves no entry behind: what it moves past, it drops. -/
theorem move [DecidableEq Text] (hlaw : mls.Lawful) (h : NoStale mls m)
    (hmove : Move mls faults groupId text m m') : NoStale mls m' := by
  cases hmove with
  | buffer hc hw hlt hx hb hsize =>
    rename_i current wire
    intro e he k hk
    obtain rfl : current = e := Option.some.inj (hc.symm.trans he)
    rcases CommitSequencer.buffers_insert.1 hk with rfl | hk
    · exact hlt.le
    · exact h _ hc k hk
  | settle hc hd hfrom hs =>
    rename_i current next bytes
    obtain ⟨staged, store, hstage, -, rfl⟩ := settle_eq_ok hs
    obtain ⟨-, hepoch⟩ := hlaw.stage_epoch hstage hc
    intro e he k hk
    obtain rfl : current + 1 = e := Option.some.inj (hepoch.symm.trans he)
    rw [CommitSequencer.buffers_confirm, CommitSequencer.buffers_drainReady] at hk
    exact lt_of_le_of_ne (h _ hc k hk.2) hk.1.symm

end NoStale

/-- A change past the sequencer moves on by one epoch. -/
theorem Overtakes.epoch (hlaw : mls.Lawful) {x y : σ} {raw : Bytes} (h : Overtakes mls x y raw)
    (he : mls.epoch x = some e) : mls.epoch y = some (e + 1) := by
  cases h with
  | author ha => exact hlaw.author_epoch ha he
  | stage hs hn => rw [← hn]; exact (hlaw.stage_epoch hs he).2

/-- A change past the sequencer leaves no entry behind if there is none to pass. -/
theorem NoStale.overtaken (hlaw : mls.Lawful) (h : NoStale mls g.member)
    (hepoch : ∃ e, mls.epoch g.member.crypto = some e)
    (hnone : ∀ e, mls.epoch g.member.crypto = some e → ¬g.member.sequencer.Buffers e)
    (hover : Overtaken mls g g') : NoStale mls g'.member := by
  rcases hover with ⟨hm, -⟩ | ⟨hy, hm, -⟩
  · rw [hm]
    exact h
  · rw [hm]
    obtain ⟨e, he⟩ := hepoch
    intro e' he' k hk
    obtain rfl : e + 1 = e' := Option.some.inj ((hy.epoch hlaw he).symm.trans he')
    have hne : k ≠ e := by
      rintro rfl
      exact hnone k he hk
    exact lt_of_le_of_ne (h e he k hk) hne.symm

variable [DecidableEq Text] [DecidableEq Bytes] [LinearOrder Fp]

omit [DecidableEq Bytes] [LinearOrder Fp] in
/-- A member that knows its epoch keeps knowing it. -/
theorem Move.epoch (hlaw : mls.Lawful) (hmove : Move mls faults groupId text m m')
    (h : ∃ e, mls.epoch m.crypto = some e) : ∃ e, mls.epoch m'.crypto = some e := by
  cases hmove with
  | buffer => exact h
  | settle hc _ _ hs =>
    obtain ⟨staged, store, hstage, -, rfl⟩ := settle_eq_ok hs
    exact ⟨_, (hlaw.stage_epoch hstage hc).2⟩

omit [DecidableEq Text] [DecidableEq Bytes] [LinearOrder Fp] in
theorem Overtaken.epoch (hlaw : mls.Lawful) (hover : Overtaken mls g g')
    (h : ∃ e, mls.epoch g.member.crypto = some e) : ∃ e, mls.epoch g'.member.crypto = some e := by
  rcases hover with ⟨hm, -⟩ | ⟨hy, hm, -⟩
  · rw [hm]
    exact h
  · obtain ⟨e, he⟩ := h
    rw [hm]
    exact ⟨e + 1, hy.epoch hlaw he⟩

/-- A step keeps the epoch known. -/
theorem step_epoch (hlaw : mls.Lawful) {input : Faults σ Bytes × Call σ Text Bytes}
    (h : ∃ e, mls.epoch g.member.crypto = some e) :
    ∃ e, mls.epoch (g.step mls input).member.crypto = some e :=
  step_invariant (P := fun m => ∃ e, mls.epoch m.crypto = some e) (fun _ _ h => h)
    (fun _ _ _ _ hmove => hmove.epoch hlaw) (fun _ _ hover => hover.epoch hlaw) h

/-! ## The gap is reported -/

/-- No change past the sequencer is made while a commit is buffered for the current
    epoch: it would be overtaken, and stay. -/
def OvertakesNothing (mls : Mls σ Text Bytes Fp Tree) (g : GroupSession σ Text Bytes Fp)
    (input : Faults σ Bytes × Call σ Text Bytes) : Prop :=
  input.2.PassesSequencer →
    ∀ e, mls.epoch g.member.crypto = some e → ¬g.member.sequencer.Buffers e

/-- No hidden gap. Take any run of a session that starts with an empty buffer: commits
    and replays, genuine or forged, own changes and evidence, all of which may fail at
    any point. If no change past the sequencer is made while a commit is buffered for
    the current epoch, then in every state reached the gap is reported whenever a later
    commit is buffered and none for the current epoch. -/
theorem no_hidden_gap (hlaw : mls.Lawful) {inputs : List (Faults σ Bytes × Call σ Text Bytes)}
    (hempty : ∀ k, ¬g₀.member.sequencer.Buffers k)
    (hepoch : ∃ e, mls.epoch g₀.member.crypto = some e)
    (hrun : Runs (GroupSession.step mls) (OvertakesNothing mls) g₀ inputs g)
    (he : mls.epoch g.member.crypto = some e) (hlt : e < k) (hk : g.member.sequencer.Buffers k)
    (hnone : ¬g.member.sequencer.Buffers e) : g.member.sequencer.gap e = true := by
  have hinv : NoStale mls g.member ∧ ∃ e, mls.epoch g.member.crypto = some e := by
    refine hrun.invariant
      (P := fun g => NoStale mls g.member ∧ ∃ e, mls.epoch g.member.crypto = some e) ?_
      ⟨.of_empty hempty, hepoch⟩
    rintro g input hguard ⟨hstale, hepoch⟩
    refine ⟨?_, step_epoch hlaw hepoch⟩
    exact step_invariant (P := NoStale mls) (fun _ _ h => h)
      (fun _ _ _ _ hmove h => h.move hlaw hmove)
      (fun hc g' hover h => h.overtaken hlaw hepoch (hguard hc) hover) hstale
  exact hinv.1.gap he hnone hlt hk

/-- A change past a forged commit that is buffered for its epoch: the commit for the
    epoch 5 cannot be reached, and the sequencer does not report it. -/
theorem gap_hidden_by_own_changes :
    let mls := Term.mls []
    let invite (fp : String) : Faults TermState Term × Call TermState (Option Term) Term :=
      (.none, .admitHistoryMember fp ⟨0, .add fp⟩)
    let receive (epoch : Nat) : Faults TermState Term × Call TermState (Option Term) Term :=
      (.none, .applyCommitSequenced (some ⟨epoch, .add "z"⟩))
    let g := [receive 2, invite "b", invite "c", receive 5].foldl (GroupSession.step mls)
      (.joined "g" "p" ⟨1, ["a"], "a"⟩ true "a")
    mls.epoch g.member.crypto = some 3 ∧ (g.member.sequencer.peekReady 5).isSome ∧
      g.member.sequencer.peekReady 3 = none ∧ g.member.sequencer.gap 3 = false := by
  decide +kernel

/-- The gap behind a commit that arrives too early is reported. -/
theorem no_hidden_gap_early :
    (GroupSession.step (Term.mls []) (.joined "g" "p" ⟨1, ["a"], "a"⟩ true "a")
      (.none, .applyCommitSequenced (some ⟨3, .add "z"⟩))).member.sequencer.gap 1 = true :=
  no_hidden_gap (Term.lawful : (Term.mls []).Lawful) (fun _ => CommitSequencer.not_buffers_new)
    ⟨1, rfl⟩ (.single fun h => h.elim) (k := 3) (by decide +kernel) (by decide)
    (CommitSequencer.buffers_of_peekReady (x := some ⟨3, .add "z"⟩) (by decide +kernel))
    (CommitSequencer.not_buffers_iff.2 (by decide +kernel))

/-! ## A stuck member asks -/

omit [DecidableEq Text] [DecidableEq Bytes] [LinearOrder Fp] in
/-- The session tried to publish a request for the replay from the epoch `e` on. -/
def Asked (g : GroupSession σ Text Bytes Fp) (e : Nat) : Prop :=
  ∃ fp, ControlEnvelope.resyncRequest fp e ∈ g.sent

omit [DecidableEq Text] [DecidableEq Bytes] [LinearOrder Fp] in
/-- If the member is stuck, in that a later commit is buffered and no buffered commit
    of the current epoch stages, then it has asked for a replay from there on. -/
def StuckAsked (mls : Mls σ Text Bytes Fp Tree) (g : GroupSession σ Text Bytes Fp) : Prop :=
  ∀ e, mls.epoch g.member.crypto = some e → (∃ k, e < k ∧ g.member.sequencer.Buffers k) →
    (∀ x b, g.member.sequencer.peekReady e = some x → mls.decode x = .ok b →
      ¬mls.Stages g.member.crypto b) → Asked g e

omit [DecidableEq Text] [DecidableEq Bytes] [LinearOrder Fp] in
/-- The commit `b` stages in the state `y`, and the store of the member saves it. -/
def Accepts (mls : Mls σ Text Bytes Fp Tree) (faults : Faults σ Bytes) (m : Member σ Text Bytes)
    (y : σ) (b : Bytes) (staged : StagedMembership σ Bytes) : Prop :=
  mls.stageMembership y b = .ok staged ∧ (m.persistence.isSome → faults.admission y b = none)

omit [DecidableEq Text] [DecidableEq Bytes] [LinearOrder Fp] in
/-- The commit `x` is buffered for the epoch `k`, or it is the commit `text` that was
    just received, and is going to be. -/
def Holds (mls : Mls σ Text Bytes Fp Tree) (m : Member σ Text Bytes) (text : Text) (k : Nat)
    (x : Text) : Prop :=
  m.sequencer.peekReady k = some x ∨
    (x = text ∧ mls.WireEpoch text k ∧ (∀ e, mls.epoch m.crypto = some e → e < k) ∧
      text ∉ m.sequencer.applied ∧ ¬m.sequencer.Buffers k ∧
      m.sequencer.buffered.size < bufferCap)

/-- The states which the commit `text` and the buffered ones after it lead to. A call
    that is cut short does not come to the buffered ones. -/
inductive Leads (mls : Mls σ Text Bytes Fp Tree) (faults : Faults σ Bytes) (groupId : String)
    (m : Member σ Text Bytes) (text : Text) : σ → Prop
  | start : (∀ e b staged, mls.epoch m.crypto = some e → mls.decode text = .ok b →
      mls.commitEpoch b = .ok e → text ∉ m.sequencer.applied →
      ¬Accepts mls faults m m.crypto b staged) → Leads mls faults groupId m text m.crypto
  | merge {e : Nat} {b : Bytes} {staged : StagedMembership σ Bytes} :
      mls.epoch m.crypto = some e → mls.decode text = .ok b → mls.commitEpoch b = .ok e →
      text ∉ m.sequencer.applied → Accepts mls faults m m.crypto b staged →
      Leads mls faults groupId m text staged.next
  | follow {y : σ} {k : Nat} {x : Text} {b : Bytes} {staged : StagedMembership σ Bytes} :
      ¬Cut mls faults groupId m text → Leads mls faults groupId m text y →
      mls.epoch y = some k → Holds mls m text k x → mls.decode x = .ok b →
      Accepts mls faults m y b staged → Leads mls faults groupId m text staged.next

/-- The commit `text` leads to an epoch the member has not asked at, where a blob that
    fails to stage is buffered and a later commit behind it. -/
def Blocked (mls : Mls σ Text Bytes Fp Tree) (faults : Faults σ Bytes)
    (g : GroupSession σ Text Bytes Fp) (text : Text) : Prop :=
  ∃ y e x, Leads mls faults g.groupId g.member text y ∧ mls.epoch y = some e ∧
    Holds mls g.member text e x ∧ (∀ b, mls.decode x = .ok b → ¬mls.Stages y b) ∧
    (∃ k z, e < k ∧ Holds mls g.member text k z) ∧ ¬Asked g e

section Leads

omit [DecidableEq Text] [DecidableEq Bytes] [LinearOrder Fp] in
/-- What the store saves is not refused, and a store stays one. -/
theorem persistMembership_accepts {x : σ} {staged : StagedMembership σ Bytes} {b : Bytes}
    {store store' : Option (GroupStore σ Bytes)}
    (h : persistMembership mls faults x staged store b = .ok store') :
    (store.isSome → faults.admission x b = none) ∧ store'.isSome = store.isSome := by
  cases store with
  | none =>
    obtain rfl := Except.ok.inj h
    exact ⟨fun hs => absurd hs (by simp), rfl⟩
  | some store =>
    simp only [persistMembership] at h
    split at h
    · cases h
    · next ha =>
      obtain rfl := Except.ok.inj h
      exact ⟨fun _ => ha, rfl⟩

omit [DecidableEq Bytes] [LinearOrder Fp] in
/-- A commit is settled exactly if it is accepted. -/
theorem settle_accepts {next : Text} {b : Bytes}
    (h : settle mls faults groupId m k next b = .ok m') :
    ∃ staged, Accepts mls faults m m.crypto b staged ∧ m'.crypto = staged.next ∧
      m'.persistence.isSome = m.persistence.isSome ∧
      ∀ j x, m'.sequencer.peekReady j = some x → m.sequencer.peekReady j = some x := by
  obtain ⟨staged, store, hstage, hp, rfl⟩ := settle_eq_ok h
  obtain ⟨hadm, hstore⟩ := persistMembership_accepts hp
  refine ⟨staged, ⟨hstage, hadm⟩, rfl, ?_, fun j x hx => ?_⟩
  · rw [← hstore]
    simp [logGroupCommit]
  · rw [CommitSequencer.peekReady_confirm, CommitSequencer.peekReady_drainReady] at hx
    split at hx
    · cases hx
    · exact hx

omit [DecidableEq Bytes] [LinearOrder Fp] in
variable (groupId k) in
theorem exists_settle_of_accepts (next : Text) {b : Bytes} {staged : StagedMembership σ Bytes}
    (h : Accepts mls faults m m.crypto b staged) :
    ∃ m', settle mls faults groupId m k next b = .ok m' := by
  obtain ⟨hstage, hadm⟩ := h
  cases hp : m.persistence with
  | none => exact ⟨_, by simp only [settle, acceptCommit, hstage, persistMembership, hp]; rfl⟩
  | some store =>
    rw [hp] at hadm
    exact ⟨_, by simp only [settle, acceptCommit, hstage, persistMembership, hp, hadm rfl]; rfl⟩

omit [DecidableEq Bytes] [LinearOrder Fp] in
/-- Draining follows the buffered commits. -/
theorem Leads.drains {m₁ m₂ : Member σ Text Bytes}
    (hcut : ¬Cut mls faults groupId m text)
    (hdrains : Relation.ReflTransGen (Drains mls faults groupId) m₁ m₂)
    (hlead : Leads mls faults groupId m text m₁.crypto)
    (hheld : ∀ k x, m₁.sequencer.peekReady k = some x → Holds mls m text k x)
    (hstore : m₁.persistence.isSome = m.persistence.isSome) :
    Leads mls faults groupId m text m₂.crypto ∧
      ∀ k x, m₂.sequencer.peekReady k = some x → Holds mls m text k x := by
  have hall : Leads mls faults groupId m text m₂.crypto ∧
      (∀ k x, m₂.sequencer.peekReady k = some x → Holds mls m text k x) ∧
      m₂.persistence.isSome = m.persistence.isSome := by
    induction hdrains with
    | refl => exact ⟨hlead, hheld, hstore⟩
    | tail _ hturn ih =>
      obtain ⟨hlead, hheld, hstore⟩ := ih
      obtain ⟨current, next, b, hc, hd, hp, hs⟩ := hturn
      obtain ⟨staged, ⟨hstage, hadm⟩, hnext, hsome, hpeek⟩ := settle_accepts hs
      rw [hstore] at hadm
      rw [hnext]
      exact ⟨.follow hcut hlead hc (hheld _ _ hp) hd ⟨hstage, hadm⟩,
        fun k x hx => hheld k x (hpeek k x hx), hsome.trans hstore⟩
  exact ⟨hall.1, hall.2.1⟩

omit [DecidableEq Bytes] [LinearOrder Fp] in
variable (mls faults groupId m text) in
/-- A call ends in a state its commit leads to, and buffers nothing else. -/
theorem sequenceCommit_leads :
    Leads mls faults groupId m text (sequenceCommit mls faults groupId m text).2.crypto ∧
      ∀ k x, (sequenceCommit mls faults groupId m text).2.sequencer.peekReady k = some x →
        Holds mls m text k x := by
  rcases sequenceCommit_cases mls faults groupId m text with ⟨hcut, hm, -⟩ |
    ⟨current, b, wire, m₁, hc, hd, hw, hcall, hm₁⟩
  · rw [hm]
    refine ⟨.start fun e b staged he hd hw hx hacc => ?_, fun k x hx => .inl hx⟩
    rcases hcut with habsent | hmal | ⟨hc', hd', hw', -, hrefused⟩
    · exact absurd (habsent.symm.trans he) (by simp)
    · exact hmal e ⟨b, hd, hw⟩
    · rename_i current b'
      obtain rfl := Except.ok.inj (hd.symm.trans hd')
      obtain ⟨m', hs⟩ := exists_settle_of_accepts groupId current text hacc
      exact hrefused m' hs
  · rw [hcall, drainAndReport_snd]
    have hdrains := drainLoop_drains mls faults groupId m₁.sequencer.buffered.size m₁
    have hcut : ¬Cut mls faults groupId m text := by
      rintro (habsent | hmal | ⟨hc', hd', hw', hx, hrefused⟩)
      · exact absurd (habsent.symm.trans hc) (by simp)
      · exact hmal wire ⟨b, hd, hw⟩
      · rename_i current' b'
        obtain rfl := Option.some.inj (hc.symm.trans hc')
        obtain rfl := Except.ok.inj (hd.symm.trans hd')
        obtain rfl := Except.ok.inj (hw.symm.trans hw')
        rcases hm₁ with ⟨-, hold⟩ | ⟨-, -, hs⟩ | ⟨-, -, hlt, -⟩ | ⟨-, hlt, -⟩
        · exact hold.elim hx (lt_irrefl _)
        · exact hrefused m₁ hs
        · exact lt_irrefl _ hlt
        · exact lt_irrefl _ hlt
    -- The commit is of another epoch, or was applied before: the call starts where it is.
    have hstart : wire ≠ current ∨ text ∈ m.sequencer.applied →
        Leads mls faults groupId m text m.crypto := by
      refine fun hne => .start fun e b' staged he hd' hw' hx _ => ?_
      obtain rfl := Except.ok.inj (hd.symm.trans hd')
      obtain rfl := Except.ok.inj (hw.symm.trans hw')
      obtain rfl := Option.some.inj (hc.symm.trans he)
      rcases hne with hne | hne
      · exact hne rfl
      · exact hx hne
    rcases hm₁ with ⟨rfl, hold⟩ | ⟨rfl, hx, hs⟩ | ⟨rfl, -, hlt, -⟩ | ⟨hx, hlt, hb, hsize, rfl⟩
    · refine Leads.drains hcut hdrains (hstart ?_) (fun k x hx => .inl hx) rfl
      rcases hold with hold | hold
      · exact .inr hold
      · exact .inl hold.ne
    · obtain ⟨staged, hacc, hnext, hsome, hpeek⟩ := settle_accepts hs
      refine Leads.drains hcut hdrains ?_ (fun k x hk => .inl (hpeek k x hk)) hsome
      rw [hnext]
      exact .merge hc hd hw hx hacc
    · exact Leads.drains hcut hdrains (hstart (.inl hlt.ne')) (fun k x hx => .inl hx) rfl
    · refine Leads.drains hcut hdrains (hstart (.inl hlt.ne')) (fun k x hk => ?_) rfl
      rw [CommitSequencer.peekReady_insert] at hk
      split at hk
      · next heq =>
        obtain rfl := heq
        obtain rfl := Option.some.inj hk
        refine .inr ⟨rfl, ⟨b, hd, hw⟩, fun e he => ?_, hx, hb, hsize⟩
        exact Option.some.inj (hc.symm.trans he) ▸ hlt
      · exact .inl hk

end Leads

omit [DecidableEq Text] [DecidableEq Bytes] [LinearOrder Fp] in
theorem Asked.append {frames : List (ControlEnvelope Text Fp)} (h : Asked g e)
    (hsent : g'.sent = g.sent ++ frames) : Asked g' e := by
  obtain ⟨fp, hfp⟩ := h
  exact ⟨fp, hsent ▸ List.mem_append_left _ hfp⟩

/-- What a session keeps to between its calls: no entry is left over, a later commit is
    only buffered behind an epoch without one if it has asked there, and the epoch it
    notes as requested is one it asked at. -/
structure Watchful (mls : Mls σ Text Bytes Fp Tree) (g : GroupSession σ Text Bytes Fp) : Prop where
  epoch : ∃ e, mls.epoch g.member.crypto = some e
  noStale : NoStale mls g.member
  asked {e k : Nat} : mls.epoch g.member.crypto = some e → ¬g.member.sequencer.Buffers e →
    e < k → g.member.sequencer.Buffers k → Asked g e
  reserved {e : Nat} : g.member.sequencer.lastRequestedEpoch = some e → Asked g e

namespace Watchful

omit [DecidableEq Text] [DecidableEq Bytes] [LinearOrder Fp] in
/-- A request in front of a gap, from a state that keeps to everything but to having
    asked. -/
theorem request (hepoch : mls.epoch g.member.crypto = some e) (hstale : NoStale mls g.member)
    (hgap : g.member.sequencer.gap e = true)
    (hres : ∀ e, g.member.sequencer.lastRequestedEpoch = some e → Asked g e) :
    Watchful mls (requestResyncIfGapped mls faults g).2 := by
  rcases requestResyncIfGapped_cases faults hepoch with ⟨hno, -⟩ | ⟨-, hlast, hr⟩ |
    ⟨-, -, l, hl, hr⟩
  · exact absurd (hno.symm.trans hgap) (by simp)
  · rw [hr]
    refine ⟨⟨e, hepoch⟩, hstale, fun he _ _ _ => ?_, fun hl => hres _ hl⟩
    obtain rfl := Option.some.inj (hepoch.symm.trans he)
    exact hres _ hlast
  · rw [hr]
    have hasked : Asked { g with
        member := g.member.withRequested l
        sent := g.sent ++ [.resyncRequest (mls.fingerprint g.member.crypto) e] } e :=
      ⟨mls.fingerprint g.member.crypto, by simp⟩
    refine ⟨⟨e, hepoch⟩, hstale, fun he _ _ _ => ?_, fun {e'} hlast => ?_⟩
    · obtain rfl := Option.some.inj (hepoch.symm.trans he)
      exact hasked
    · rcases hl with rfl | rfl
      · obtain rfl := Option.some.inj hlast
        exact hasked
      · cases hlast

omit [DecidableEq Text] [DecidableEq Bytes] [LinearOrder Fp] in
/-- Without a gap there is nothing to ask for. -/
theorem of_not_gap (hepoch : mls.epoch g.member.crypto = some e) (hstale : NoStale mls g.member)
    (hgap : g.member.sequencer.gap e = false)
    (hres : ∀ e, g.member.sequencer.lastRequestedEpoch = some e → Asked g e) :
    Watchful mls g := by
  refine ⟨⟨e, hepoch⟩, hstale, fun he hnone hlt hk => ?_, fun hl => hres _ hl⟩
  obtain rfl := Option.some.inj (hepoch.symm.trans he)
  exact absurd (hgap.symm.trans (hstale.gap hepoch hnone hlt hk)) (by simp)

omit [DecidableEq Bytes] [LinearOrder Fp] in
variable (faults text) in
/-- Sequencing keeps the epoch known, leaves nothing behind and requests nothing. -/
theorem sequenced (hlaw : mls.Lawful) (h : Watchful mls g) :
    (∃ e, mls.epoch (sequenceCommit mls faults g.groupId g.member text).2.crypto = some e) ∧
    NoStale mls (sequenceCommit mls faults g.groupId g.member text).2 ∧
    (sequenceCommit mls faults g.groupId g.member text).2.sequencer.lastRequestedEpoch =
      g.member.sequencer.lastRequestedEpoch := by
  refine ⟨?_, ?_, ?_⟩
  · exact sequenceCommit_invariant (P := fun m => ∃ e, mls.epoch m.crypto = some e)
      (fun _ _ hmove => hmove.epoch hlaw) h.epoch
  · exact sequenceCommit_invariant (fun _ _ hmove h => h.move hlaw hmove) h.noStale
  · exact sequenceCommit_invariant
      (P := fun m => m.sequencer.lastRequestedEpoch = g.member.sequencer.lastRequestedEpoch)
      (fun _ _ hmove h => hmove.lastRequestedEpoch.trans h) rfl

omit [DecidableEq Bytes] [LinearOrder Fp] in
/-- Merging a commit keeps a session watchful. -/
theorem applyCommitSequenced (hlaw : mls.Lawful) (h : Watchful mls g) :
    Watchful mls (applyCommitSequenced mls faults g text).2 := by
  obtain ⟨⟨e, he⟩, hstale, hlast⟩ := h.sequenced faults text hlaw
  have hres : ∀ e, (sequenceCommit mls faults g.groupId g.member text).2.sequencer.lastRequestedEpoch
      = some e → Asked { g with
        member := (sequenceCommit mls faults g.groupId g.member text).2 } e :=
    fun e' he' => h.reserved (hlast ▸ he')
  have hend := sequenceCommit_end mls faults g.groupId g.member text h.epoch he
  unfold Group.applyCommitSequenced
  rcases hcall : sequenceCommit mls faults g.groupId g.member text with ⟨r, m'⟩
  rw [hcall] at he hstale hlast hres hend
  dsimp only at he hstale hlast hres hend
  rcases hend with ⟨rfl, err, rfl⟩ | ⟨o, rfl, ⟨rfl, hgap⟩ | ⟨rfl, hgap⟩, hp⟩ |
    ⟨err, next, rfl, hp⟩
  · exact h
  · exact request (g := { g with member := m' }) he hstale hgap hres
  · exact of_not_gap (g := { g with member := m', needsRejoin := false }) he hstale hgap hres
  · refine ⟨⟨e, he⟩, hstale, fun he' hnone _ _ => ?_, fun hl => hres _ hl⟩
    obtain rfl := Option.some.inj (he.symm.trans he')
    exact absurd (CommitSequencer.buffers_of_peekReady hp) hnone

omit [DecidableEq Bytes] [LinearOrder Fp] in
/-- A replay keeps a session watchful. -/
theorem absorbResyncResponse (hlaw : mls.Lawful) (h : Watchful mls g)
    {commits : List (Faults σ Bytes × ResyncCommit Text)} :
    Watchful mls (absorbResyncResponse mls faults g commits).2 := by
  have hinv : ∀ {P : Member σ Text Bytes → Prop}, (∀ faults text m m',
      Move mls faults g.groupId text m m' → P m → P m') → P g.member →
        P (absorbResyncCommits mls g.groupId g.member commits).2 :=
    fun hmove hP => absorbResyncCommits_invariant
      (fun entry _ m hm => sequenceCommit_invariant (hmove entry.1 entry.2.commitB64) hm) hP
  obtain ⟨e, he⟩ := hinv (P := fun m => ∃ e, mls.epoch m.crypto = some e)
    (fun _ _ _ _ hmove => hmove.epoch hlaw) h.epoch
  have hstale : NoStale mls (absorbResyncCommits mls g.groupId g.member commits).2 :=
    hinv (fun _ _ _ _ hmove h => h.move hlaw hmove) h.noStale
  have hlast : (absorbResyncCommits mls g.groupId g.member commits).2.sequencer.lastRequestedEpoch
      = g.member.sequencer.lastRequestedEpoch :=
    hinv (P := fun m => m.sequencer.lastRequestedEpoch = g.member.sequencer.lastRequestedEpoch)
      (fun _ _ _ _ hmove h => hmove.lastRequestedEpoch.trans h) rfl
  have hstuck : (absorbResyncCommits mls g.groupId g.member commits).1 =
      (absorbResyncCommits mls g.groupId g.member commits).2.sequencer.gap e := by
    rw [absorbResyncCommits_fst, stuck, he, Option.any_some]
  unfold Group.absorbResyncResponse
  rcases hcall : absorbResyncCommits mls g.groupId g.member commits with ⟨r, m'⟩
  rw [hcall] at he hstale hlast hstuck
  obtain rfl : r = m'.sequencer.gap e := hstuck
  cases hgap : m'.sequencer.gap e with
  | false =>
    refine of_not_gap (g := { g with member := m', needsRejoin := false }) he hstale hgap ?_
    exact fun e' he' => h.reserved (hlast ▸ he')
  | true =>
    have hreq : Watchful mls (requestResyncIfGapped mls faults
        { g with member := { m' with sequencer := m'.sequencer.rearm } }).2 :=
      request (e := e) he hstale hgap fun e' he' => by cases he'
    dsimp only
    split <;> rename_i hg <;> rw [hg] at hreq
    · exact hreq
    · dsimp only
      split
      · exact ⟨hreq.epoch, hreq.noStale, hreq.asked, hreq.reserved⟩
      · exact hreq

omit [DecidableEq Text] [DecidableEq Bytes] [LinearOrder Fp] in
/-- A change past the sequencer keeps a session watchful, if nothing is buffered but
    for the epoch it leads to. -/
theorem overtaken (hlaw : mls.Lawful) (h : Watchful mls g)
    (hnext : ∀ e k, mls.epoch g.member.crypto = some e → g.member.sequencer.Buffers k → k = e + 1)
    (hover : Overtaken mls g g') : Watchful mls g' := by
  have hstale : NoStale mls g'.member := h.noStale.overtaken hlaw h.epoch
    (fun e he hb => absurd (hnext e e he hb) (by omega)) hover
  refine ⟨hover.epoch hlaw h.epoch, hstale, ?_, ?_⟩
  · intro e' k he' hnone hlt hk
    rcases hover with ⟨hm, frames, hsent⟩ | ⟨hy, hm, -⟩
    · rw [hm] at he' hnone hk
      exact (h.asked he' hnone hlt hk).append hsent
    · obtain ⟨e, he⟩ := h.epoch
      rw [hm] at he' hk
      obtain rfl := Option.some.inj ((hy.epoch hlaw he).symm.trans he')
      exact absurd (hnext e k he hk) hlt.ne'
  · intro e' hlast
    rcases hover with ⟨hm, frames, hsent⟩ | ⟨-, hm, frames, hsent⟩
    · rw [hm] at hlast
      exact (h.reserved hlast).append hsent
    · rw [hm] at hlast
      exact (h.reserved hlast).append hsent

end Watchful

/-- No change past the sequencer is made while a commit is buffered for another epoch
    than the one it leads to. -/
def OvertakesNoLater (mls : Mls σ Text Bytes Fp Tree) (g : GroupSession σ Text Bytes Fp)
    (input : Faults σ Bytes × Call σ Text Bytes) : Prop :=
  input.2.PassesSequencer →
    ∀ e k, mls.epoch g.member.crypto = some e → g.member.sequencer.Buffers k → k = e + 1

theorem Watchful.step (hlaw : mls.Lawful) {input : Faults σ Bytes × Call σ Text Bytes}
    (hinput : OvertakesNoLater mls g input) (h : Watchful mls g) :
    Watchful mls (g.step mls input) := by
  obtain ⟨faults, c⟩ := input
  by_cases hc : c.PassesSequencer
  · exact h.overtaken hlaw (hinput hc) (Call.overtaken mls faults g hc)
  cases c with
  | applyCommitSequenced commitB64 => exact h.applyCommitSequenced hlaw
  | absorbResyncResponse commits => exact h.absorbResyncResponse hlaw
  | admitHistoryMember => exact absurd trivial hc
  | commitDeparture => exact absurd trivial hc
  | installTransitionEvidence => exact absurd trivial hc

/-- A stuck member asks for help. Take any run of a session that starts with a new
    sequencer, over any received commits and replays, genuine or forged, own changes and
    evidence, all of which may fail at any point, in which no change past the sequencer is
    made in front of later buffered commits. Whenever a received commit was handled that
    is not blocked, normally or with an error, and the member is stuck then, it has asked
    for a replay from its epoch on. -/
theorem stuck_member_asks (hlaw : mls.Lawful)
    {inputs : List (Faults σ Bytes × Call σ Text Bytes)}
    (hnew : g₀.member.sequencer = .new) (hepoch : ∃ e, mls.epoch g₀.member.crypto = some e)
    (hrun : Runs (GroupSession.step mls) (OvertakesNoLater mls) g₀ inputs g)
    (hinput : ¬Blocked mls faults g text) :
    StuckAsked mls (applyCommitSequenced mls faults g text).2 := by
  have hnone : ∀ k, ¬g₀.member.sequencer.Buffers k := fun k =>
    hnew ▸ CommitSequencer.not_buffers_new
  have hstart : Watchful mls g₀ :=
    { epoch := hepoch
      noStale := .of_empty hnone
      asked := fun _ _ _ hk => absurd hk (hnone _)
      reserved := fun hl => by simp [hnew, CommitSequencer.new] at hl }
  have h : Watchful mls g := hrun.invariant (fun _ _ hinput h => h.step hlaw hinput) hstart
  have h' : Watchful mls (applyCommitSequenced mls faults g text).2 := h.applyCommitSequenced hlaw
  rintro e he ⟨k, hlt, hk⟩ hfails
  cases hp : (applyCommitSequenced mls faults g text).2.member.sequencer.peekReady e with
  | none => exact h'.asked he (CommitSequencer.not_buffers_iff.2 hp) hlt hk
  | some x =>
    -- The call ended in front of a blob: the member asked here before, or it was blocked.
    obtain ⟨l, frames, rejoin, hr⟩ := applyCommitSequenced_snd mls faults g text
    obtain ⟨hlead, hheld⟩ := sequenceCommit_leads mls faults g.groupId g.member text
    obtain ⟨z, hz⟩ := CommitSequencer.buffers_iff.1 hk
    have hfails' := fun b => hfails x b hp
    rw [hr] at he hp hz hfails' ⊢
    by_contra hnot
    refine hinput ⟨_, e, x, hlead, he, hheld e x hp, hfails', ⟨k, z, hlt, hheld k z hz⟩, ?_⟩
    exact fun hasked => hnot (hasked.append rfl)

/-- A forged commit is buffered first for the epoch 2, and the commit for the epoch 3
    behind it. The commit that leads to the epoch 2 fails in front of the forged one, and
    the member never asks for what it is missing. -/
theorem stuck_member_silent :
    let mls := Term.mls [⟨1, .add "b"⟩, ⟨2, .add "c"⟩, ⟨3, .add "d"⟩]
    let receive (text : Term) : Faults TermState Term × Call TermState (Option Term) Term :=
      (.none, .applyCommitSequenced (some text))
    let g := [receive ⟨2, .add "z"⟩, receive ⟨3, .add "d"⟩].foldl (GroupSession.step mls)
      (.joined "g" "p" ⟨1, ["a"], "a"⟩ false "x")
    let r := applyCommitSequenced mls .none g (some ⟨1, .add "b"⟩)
    mls.epoch r.2.member.crypto = some 2 ∧ r.2.member.sequencer.Buffers 3 ∧
      (∀ x b, r.2.member.sequencer.peekReady 2 = some x → mls.decode x = .ok b →
        ¬mls.Stages r.2.member.crypto b) ∧ ¬Asked r.2 2 := by
  intro mls receive g r
  refine ⟨by decide +kernel, ?_, ?_, ?_⟩
  · exact CommitSequencer.buffers_of_peekReady (x := some ⟨3, .add "d"⟩) (by decide +kernel)
  · rintro x b hx hb ⟨staged, hs⟩
    have hpeek : r.2.member.sequencer.peekReady 2 = some (some ⟨2, .add "z"⟩) := by
      decide +kernel
    obtain rfl : some ⟨2, .add "z"⟩ = x := Option.some.inj (hpeek.symm.trans hx)
    obtain rfl : ⟨2, .add "z"⟩ = b := Except.ok.inj hb
    exact absurd (Term.stage_eq_ok hs).1 (by decide)
  · rintro ⟨fp, hfp⟩
    have hsent : r.2.sent = [.resyncRequest "a" 1] := by decide +kernel
    rw [hsent] at hfp
    simp at hfp

/-- A member asks for the commits before one that arrived too early. -/
theorem stuck_member_asks_early :
    Asked (applyCommitSequenced (Term.mls [⟨3, .add "d"⟩]) .none
      (.joined "g" "p" ⟨1, ["a"], "a"⟩ false "x") (some ⟨3, .add "d"⟩)).2 1 := by
  have hmls : (Term.mls [⟨3, .add "d"⟩]).Lawful := Term.lawful
  have hholds : ∀ k x, Holds (Term.mls [⟨3, .add "d"⟩])
      (Member.joined ⟨1, ["a"], "a"⟩) (some ⟨3, .add "d"⟩) k x → k = 3 := by
    rintro k x (hk | ⟨-, hw, -⟩)
    · exact absurd hk (by simp [Member.joined])
    · exact hw.unique ⟨_, rfl, rfl⟩
  have hlead : ∀ y, Leads (Term.mls [⟨3, .add "d"⟩]) Faults.none "g"
      (Member.joined ⟨1, ["a"], "a"⟩) (some ⟨3, .add "d"⟩) y → y.epoch = 1 := by
    intro y hy
    induction hy with
    | start => rfl
    | merge hc hd hw =>
      obtain rfl := Except.ok.inj hd
      obtain rfl := Except.ok.inj hw
      cases hc
    | follow _ _ hk hheld _ _ ih =>
      have h₃ := hholds _ _ hheld
      have h₁ := Option.some.inj hk
      omega
  have hstuck : StuckAsked (Term.mls [⟨3, .add "d"⟩]) (applyCommitSequenced
      (Term.mls [⟨3, .add "d"⟩]) .none (.joined "g" "p" ⟨1, ["a"], "a"⟩ false "x")
      (some ⟨3, .add "d"⟩)).2 := by
    refine stuck_member_asks hmls rfl ⟨1, rfl⟩ (.nil _) ?_
    rintro ⟨y, e, x, hy, he, hheld, -⟩
    have h₃ := hholds _ _ hheld
    have h₁ := Option.some.inj he
    have := hlead y hy
    omega
  refine hstuck 1 (by decide +kernel) ⟨3, by decide, ?_⟩ ?_
  · exact CommitSequencer.buffers_of_peekReady (x := some ⟨3, .add "d"⟩) (by decide +kernel)
  · intro x b hx
    have hpeek : (applyCommitSequenced (Term.mls [⟨3, .add "d"⟩]) .none
        (.joined "g" "p" ⟨1, ["a"], "a"⟩ false "x" : GroupSession _ _ _ String)
        (some ⟨3, .add "d"⟩)).2.member.sequencer.peekReady 1 = none := by decide +kernel
    exact absurd (hpeek.symm.trans hx) (by simp)

/-! ## The hint to rejoin -/

omit [DecidableEq Text] [DecidableEq Bytes] [LinearOrder Fp] in
/-- Every applied commit is of an epoch that has passed. -/
def AppliedOld (mls : Mls σ Text Bytes Fp Tree) (m : Member σ Text Bytes) : Prop :=
  ∀ x ∈ m.sequencer.applied, ∀ k, mls.WireEpoch x k → ∀ e, mls.epoch m.crypto = some e → k < e

omit [DecidableEq Bytes] [LinearOrder Fp] in
theorem AppliedOld.move (hlaw : mls.Lawful) (h : AppliedOld mls m)
    (hmove : Move mls faults groupId text m m') : AppliedOld mls m' := by
  cases hmove with
  | buffer => exact h
  | settle hc hd hfrom hs =>
    rename_i current next b
    obtain ⟨staged, store, hstage, -, rfl⟩ := settle_eq_ok hs
    obtain ⟨hw, hnext⟩ := hlaw.stage_epoch hstage hc
    intro x hx k hk e he
    obtain rfl : current + 1 = e := Option.some.inj (hnext.symm.trans he)
    rcases CommitSequencer.mem_applied_confirm.1 hx with rfl | hx
    · have hwire : mls.WireEpoch x current := ⟨b, hd, hw⟩
      have := hk.unique hwire
      omega
    · have := h x hx k hk current hc
      omega

omit [DecidableEq Text] [DecidableEq Bytes] [LinearOrder Fp] in
theorem AppliedOld.overtaken (hlaw : mls.Lawful) (hepoch : ∃ e, mls.epoch g.member.crypto = some e)
    (h : AppliedOld mls g.member) (hover : Overtaken mls g g') : AppliedOld mls g'.member := by
  rcases hover with ⟨hm, -⟩ | ⟨hy, hm, -⟩
  · rw [hm]
    exact h
  · obtain ⟨e, he⟩ := hepoch
    rw [hm]
    intro x hx k hk e' he'
    obtain rfl := Option.some.inj ((hy.epoch hlaw he).symm.trans he')
    have := h x hx k hk e he
    omega

section Commit

variable {b : Bytes} {staged : StagedMembership σ Bytes}

omit [DecidableEq Bytes] [LinearOrder Fp] in
variable (groupId) in
/-- Merging the newest commit of the group: the call ends at the next epoch, in an error
    if something is buffered for it, and with what else was buffered otherwise. -/
theorem sequenceCommit_newest (hlaw : mls.Lawful) (hold : AppliedOld mls m)
    (he : mls.epoch m.crypto = some e) (hd : mls.decode text = .ok b)
    (hstage : mls.stageMembership m.crypto b = .ok staged)
    (hquiet : ∀ x b, faults.admission x b = none)
    (hnewest : ∀ b, ¬mls.Stages staged.next b) :
    (m.sequencer.Buffers (e + 1) ∧
      ∃ err, (sequenceCommit mls faults groupId m text).1 = .error err) ∨
    (¬m.sequencer.Buffers (e + 1) ∧
      mls.epoch (sequenceCommit mls faults groupId m text).2.crypto = some (e + 1) ∧
      (∃ o, (sequenceCommit mls faults groupId m text).1 = .ok o ∧
        Reports (sequenceCommit mls faults groupId m text).2 (e + 1) o) ∧
      ∀ k, (sequenceCommit mls faults groupId m text).2.sequencer.Buffers k ↔
        k ≠ e ∧ m.sequencer.Buffers k) := by
  obtain ⟨hw, hnext⟩ := hlaw.stage_epoch hstage he
  have hfresh : text ∉ m.sequencer.applied := fun hx =>
    lt_irrefl e (hold text hx e ⟨b, hd, hw⟩ e he)
  obtain ⟨store, hsettle, -⟩ := settle_quiet groupId text e hquiet hstage
  rw [sequenceCommit_of_settle he hd hw hfresh hsettle]
  -- Nothing stages after the newest commit, so draining does nothing.
  set m₁ : Member σ Text Bytes := ⟨staged.next, (m.sequencer.drainReady e).confirm text,
    logGroupCommit faults groupId store e b, m.merged ++ [b]⟩
  have hstay : (drainAndReport mls faults groupId m₁).2 = m₁ := by
    rw [drainAndReport_snd]
    rcases (Relation.ReflTransGen.cases_head
      (drainLoop_drains mls faults groupId m₁.sequencer.buffered.size m₁)) with hm | ⟨m₂, hdr, -⟩
    · exact hm.symm
    · obtain ⟨current, next, b', -, -, -, hs⟩ := hdr
      obtain ⟨staged', -, hs', -, -⟩ := settle_eq_ok hs
      exact absurd ⟨staged', hs'⟩ (hnewest b')
  have hbuf : ∀ k, m₁.sequencer.Buffers k ↔ k ≠ e ∧ m.sequencer.Buffers k := fun k => by
    rw [CommitSequencer.buffers_confirm, CommitSequencer.buffers_drainReady]
  have hnext₁ : mls.epoch (drainAndReport mls faults groupId m₁).2.crypto = some (e + 1) := by
    rw [hstay]
    exact hnext
  have hend := drainAndReport_end mls faults groupId m₁ hnext₁
  rw [hstay] at hend ⊢
  rcases hend with ⟨o, ho, hrep, hp⟩ | ⟨err, next, herr, hp, -⟩
  · refine .inr ⟨fun hb => ?_, hnext, ⟨o, ho, hrep⟩, hbuf⟩
    exact CommitSequencer.not_buffers_iff.2 hp ((hbuf (e + 1)).2 ⟨by omega, hb⟩)
  · exact .inl ⟨((hbuf (e + 1)).1 (CommitSequencer.buffers_of_peekReady hp)).2, err, herr⟩

omit [DecidableEq Bytes] [LinearOrder Fp] in
/-- When merging the newest commit of the group clears the hint. -/
theorem needsRejoin_applyCommitSequenced (hlaw : mls.Lawful) (hold : AppliedOld mls g.member)
    (he : mls.epoch g.member.crypto = some e) (hd : mls.decode text = .ok b)
    (hstage : mls.stageMembership g.member.crypto b = .ok staged)
    (hquiet : ∀ x b, faults.admission x b = none)
    (hnewest : ∀ b, ¬mls.Stages staged.next b) :
    (applyCommitSequenced mls faults g text).2.needsRejoin = false ↔
      g.needsRejoin = false ∨ (¬g.member.sequencer.Buffers (e + 1) ∧
        ((∀ k, g.member.sequencer.Buffers k → k ≤ e) ∨ ∃ k < e, g.member.sequencer.Buffers k)) := by
  have hcall := sequenceCommit_newest g.groupId hlaw hold he hd hstage hquiet hnewest
  unfold applyCommitSequenced
  rcases hr : sequenceCommit mls faults g.groupId g.member text with ⟨r, m'⟩
  rw [hr] at hcall
  dsimp only at hcall
  rcases hcall with ⟨hb, err, rfl⟩ | ⟨hnb, he', ⟨o, rfl, hrep⟩, hbuf⟩
  · exact ⟨.inl, fun h => h.elim id fun h => absurd hb h.1⟩
  · rcases hrep with ⟨rfl, hgap⟩ | ⟨rfl, hgap⟩
    · -- The gap remains: something later is buffered, and nothing is left over.
      obtain ⟨l, frames, hreq⟩ := requestResyncIfGapped_snd mls faults { g with member := m' }
      obtain ⟨⟨k, hk⟩, hall⟩ := CommitSequencer.gap_iff.1 hgap
      rw [hreq]
      refine ⟨.inl, fun h => h.elim id fun h => ?_⟩
      rcases h.2 with hle | ⟨j, hj, hbj⟩
      · have := hall k hk
        have := hle k ((hbuf k).1 hk).2
        omega
      · have := hall j ((hbuf j).2 ⟨hj.ne, hbj⟩)
        omega
    · refine iff_of_true rfl (.inr ⟨hnb, ?_⟩)
      by_contra hnot
      push Not at hnot
      obtain ⟨⟨k, hk, hlt⟩, hnone⟩ := hnot
      refine absurd hgap (Bool.not_eq_false _ ▸ CommitSequencer.gap_iff.2 ⟨⟨k, ?_⟩, ?_⟩)
      · exact (hbuf k).2 ⟨by omega, hk⟩
      · intro j hj
        obtain ⟨hne, hbj⟩ := (hbuf j).1 hj
        have h₁ : ¬j < e := fun hlt => hnone j hlt hbj
        have h₂ : j ≠ e + 1 := by
          rintro rfl
          exact hnb hbj
        omega

end Commit

section Replay

variable {commits : List (Faults σ Bytes × ResyncCommit Text)}

/-- The member `m'` came out of `m` at the head of the group, at the epoch `e`: it stayed
    there, and buffered nothing but commits of `texts` for later epochs. -/
structure AtHead (mls : Mls σ Text Bytes Fp Tree) (e : Nat) (texts : Set Text)
    (m m' : Member σ Text Bytes) : Prop where
  crypto : m'.crypto = m.crypto
  applied : m'.sequencer.applied = m.sequencer.applied
  keeps {k : Nat} : m.sequencer.Buffers k → m'.sequencer.Buffers k
  adds {k : Nat} : m'.sequencer.Buffers k →
    m.sequencer.Buffers k ∨ e < k ∧ ∃ x ∈ texts, mls.WireEpoch x k

namespace AtHead

variable {texts : Set Text}

omit [DecidableEq Text] [DecidableEq Bytes] [LinearOrder Fp] in
theorem refl : AtHead mls e texts m m := ⟨rfl, rfl, id, .inl⟩

omit [DecidableEq Bytes] [LinearOrder Fp] in
variable (faults groupId) in
/-- A call at the head of the group. -/
theorem call (hhead : ∀ b, ¬mls.Stages m.crypto b) (he : mls.epoch m.crypto = some e)
    (htext : text ∈ texts) (h : AtHead mls e texts m m') :
    AtHead mls e texts m (sequenceCommit mls faults groupId m' text).2 := by
  refine sequenceCommit_invariant (P := AtHead mls e texts m) (fun m₁ m₂ hmove h => ?_) h
  cases hmove with
  | buffer hc hw hlt hx hb hsize =>
    rename_i current wire
    rw [h.crypto] at hc
    obtain rfl : e = current := Option.some.inj (he.symm.trans hc)
    refine ⟨h.crypto, h.applied, fun hk => ?_, fun hk => ?_⟩
    · exact CommitSequencer.buffers_insert.2 (.inr (h.keeps hk))
    · rcases CommitSequencer.buffers_insert.1 hk with rfl | hk
      · exact .inr ⟨hlt, text, htext, hw⟩
      · exact h.adds hk
  | settle hc hd hfrom hs =>
    obtain ⟨staged, -, hstage, -, -⟩ := settle_eq_ok hs
    rw [h.crypto] at hstage
    exact absurd ⟨staged, hstage⟩ (hhead _)

omit [DecidableEq Bytes] [LinearOrder Fp] in
/-- A commit for a later epoch leaves something buffered. -/
theorem call_later (hhead : ∀ b, ¬mls.Stages m.crypto b) (he : mls.epoch m.crypto = some e)
    (hold : AppliedOld mls m) (h : AtHead mls e texts m m') (hw : mls.WireEpoch text k)
    (hlt : e < k) : ∃ j, (sequenceCommit mls faults groupId m' text).2.sequencer.Buffers j := by
  have hfresh : text ∉ m'.sequencer.applied := fun hx =>
    absurd (hold text (h.applied ▸ hx) k hw e he) (by omega)
  rcases sequenceCommit_cases mls faults groupId m' text with ⟨hcut, -⟩ |
    ⟨current, b, wire, m₁, hc, hd, hwire, hcall, hm₁⟩
  · rcases hcut with habsent | hmal | ⟨hc', hd', hw', -, -⟩
    · rw [h.crypto] at habsent
      exact absurd (habsent.symm.trans he) (by simp)
    · exact absurd hw (hmal k)
    · rename_i current b
      rw [h.crypto] at hc'
      have h₁ := Option.some.inj (he.symm.trans hc')
      have h₂ := hw.unique ⟨b, hd', hw'⟩
      omega
  · rw [h.crypto] at hc
    obtain rfl := Option.some.inj (he.symm.trans hc)
    obtain rfl := hw.unique ⟨b, hd, hwire⟩
    have hm₁' : m₁.crypto = m.crypto ∧ ∃ j, m₁.sequencer.Buffers j := by
      rcases hm₁ with ⟨-, hold⟩ | ⟨heq, -⟩ | ⟨rfl, -, -, hfull⟩ | ⟨-, -, -, -, rfl⟩
      · exact absurd hold (by simp [hfresh, hlt.le])
      · omega
      · refine ⟨h.crypto, ?_⟩
        rcases hfull with hb | hfull
        · exact ⟨k, hb⟩
        · by_contra hnone
          push Not at hnone
          rw [CommitSequencer.buffered_eq_empty hnone] at hfull
          exact absurd hfull (by simp [bufferCap])
      · exact ⟨h.crypto, k, CommitSequencer.buffers_insert.2 (.inl rfl)⟩
    rw [hcall, drainAndReport_snd]
    rcases (Relation.ReflTransGen.cases_head
      (drainLoop_drains mls faults groupId m₁.sequencer.buffered.size m₁)) with hm | ⟨m₂, hdr, -⟩
    · rw [← hm]
      exact hm₁'.2
    · obtain ⟨_, _, b', -, -, -, hs⟩ := hdr
      obtain ⟨staged', -, hs', -, -⟩ := settle_eq_ok hs
      rw [hm₁'.1] at hs'
      exact absurd ⟨staged', hs'⟩ (hhead b')

omit [DecidableEq Bytes] [LinearOrder Fp] in
variable (groupId commits) in
/-- A replay at the head of the group. -/
theorem replay (hhead : ∀ b, ¬mls.Stages m.crypto b) (he : mls.epoch m.crypto = some e)
    (hold : AppliedOld mls m) (hsub : ∀ entry ∈ commits, entry.2.commitB64 ∈ texts)
    (h : AtHead mls e texts m m') :
    AtHead mls e texts m (absorbResyncCommits mls groupId m' commits).2 ∧
    ((∃ j, m'.sequencer.Buffers j) ∨
        (∃ entry ∈ commits, ∃ k, mls.WireEpoch entry.2.commitB64 k ∧ e < k) →
      ∃ j, (absorbResyncCommits mls groupId m' commits).2.sequencer.Buffers j) := by
  change AtHead mls e texts m (commits.foldl _ m') ∧
    (_ → ∃ j, (commits.foldl _ m').sequencer.Buffers j)
  induction commits generalizing m' with
  | nil => exact ⟨h, fun hj => by simpa using hj⟩
  | cons entry commits ih =>
    have hcall := h.call entry.1 groupId hhead he (hsub entry List.mem_cons_self)
    obtain ⟨hh, hsome⟩ := ih (fun y hy => hsub y (List.mem_cons_of_mem _ hy)) hcall
    refine ⟨hh, fun hex => hsome ?_⟩
    rcases hex with ⟨j, hj⟩ | ⟨y, hy, k, hw, hlt⟩
    · -- What is buffered stays: nothing stages here.
      exact .inl ⟨j, (AtHead.refl.call entry.1 groupId (h.crypto ▸ hhead)
        (h.crypto ▸ he) (Set.mem_univ _)).keeps hj⟩
    · rcases List.mem_cons.1 hy with rfl | hy
      · exact .inl (h.call_later hhead he hold hw hlt)
      · exact .inr ⟨y, hy, k, hw, hlt⟩

end AtHead

omit [DecidableEq Bytes] [LinearOrder Fp] in
/-- When a replay at the head of the group clears the hint. -/
theorem needsRejoin_absorbResyncResponse (hold : AppliedOld mls g.member)
    (he : mls.epoch g.member.crypto = some e) (hhead : ∀ b, ¬mls.Stages g.member.crypto b) :
    (absorbResyncResponse mls faults g commits).2.needsRejoin = false ↔
      (∃ k ≤ e, g.member.sequencer.Buffers k) ∨
      ((∀ k, ¬g.member.sequencer.Buffers k) ∧
        ∀ entry ∈ commits, ∀ k, mls.WireEpoch entry.2.commitB64 k → k ≤ e) ∨
      (faults.publish ≠ none ∧ g.needsRejoin = false) := by
  let texts : Set Text := {x | ∃ entry ∈ commits, entry.2.commitB64 = x}
  have hsub : ∀ entry ∈ commits, entry.2.commitB64 ∈ texts := fun entry hentry =>
    ⟨entry, hentry, rfl⟩
  obtain ⟨hh, hsome⟩ := AtHead.refl.replay g.groupId commits hhead he hold hsub
  have hstuck : (absorbResyncCommits mls g.groupId g.member commits).1 =
      (absorbResyncCommits mls g.groupId g.member commits).2.sequencer.gap e := by
    rw [absorbResyncCommits_fst, stuck, hh.crypto, he, Option.any_some]
  unfold absorbResyncResponse
  rcases hcall : absorbResyncCommits mls g.groupId g.member commits with ⟨r, m'⟩
  rw [hcall] at hh hsome hstuck
  dsimp only at hh hsome hstuck
  subst hstuck
  have he' : mls.epoch m'.crypto = some e := by rw [hh.crypto, he]
  cases hgap : m'.sequencer.gap e with
  | false =>
    refine iff_of_true rfl ?_
    by_cases hex : ∃ j, m'.sequencer.Buffers j
    · -- Something is buffered, so it is not all for later epochs.
      have hnot : ¬∀ k, m'.sequencer.Buffers k → e < k := fun hall =>
        absurd (hgap.symm.trans (CommitSequencer.gap_iff.2 ⟨hex, hall⟩)) (by simp)
      push Not at hnot
      obtain ⟨k, hk, hle⟩ := hnot
      rcases hh.adds hk with hk | ⟨hlt, -⟩
      · exact .inl ⟨k, hle, hk⟩
      · omega
    · refine .inr (.inl ⟨fun k hk => hex ⟨k, hh.keeps hk⟩, fun entry hentry k hw => ?_⟩)
      by_contra hlt
      exact hex (hsome (.inr ⟨entry, hentry, k, hw, not_le.1 hlt⟩))
  | true =>
    obtain ⟨⟨j, hj⟩, hall⟩ := CommitSequencer.gap_iff.1 hgap
    have hfirst : ¬∃ k ≤ e, g.member.sequencer.Buffers k := by
      rintro ⟨k, hle, hk⟩
      exact absurd (hall k (hh.keeps hk)) (by omega)
    have hsecond : ¬((∀ k, ¬g.member.sequencer.Buffers k) ∧
        ∀ entry ∈ commits, ∀ k, mls.WireEpoch entry.2.commitB64 k → k ≤ e) := by
      rintro ⟨hnone, hle⟩
      rcases hh.adds hj with hj | ⟨hlt, x, ⟨entry, hentry, rfl⟩, hw⟩
      · exact hnone j hj
      · exact absurd (hle entry hentry j hw) (by omega)
    simp only [hfirst, hsecond, false_or]
    have hreq := requestResyncIfGapped_cases faults
      (g := { g with member := { m' with sequencer := m'.sequencer.rearm } }) he'
    rcases hreq with ⟨hno, -⟩ | ⟨-, hlast, -⟩ | ⟨-, -, l, -, hreq⟩
    · exact absurd (hno.symm.trans hgap) (by simp)
    · cases hlast
    · rw [hreq]
      cases hpub : faults.publish with
      | none =>
        have hstuck : stuck mls (m'.withRequested l) = true := by
          rw [stuck, Member.crypto_withRequested, he', Option.any_some, Member.gap_withRequested, hgap]
        have htrue : stuck mls (Member.withRequested
            { m' with sequencer := m'.sequencer.rearm } l) = true := hstuck
        simp [htrue]
      | some err => simp

end Replay

/-- The rejoin hint at the head of the group. Take any run of a session that starts with a
    new sequencer, over any received commits and replays, genuine or forged, own changes
    and evidence, that brought the member to the epoch `e`.

    If `text` is the newest commit of the group, and the store saves it, then the hint is
    off after it exactly if it was off before, or if nothing is buffered for the next epoch
    and nothing for a later one either (or an entry of a passed epoch hides that there is).

    If nothing more stages, then the hint is off after a replay exactly if something is
    buffered for the current or a passed epoch, or nothing is buffered and the replay names
    no later epoch, or the hint was off and the new request could not be published. -/
theorem needsRejoin_eq_false_iff (hlaw : mls.Lawful)
    {inputs : List (Faults σ Bytes × Call σ Text Bytes)}
    (hnew : g₀.member.sequencer = .new) (hepoch : ∃ e, mls.epoch g₀.member.crypto = some e)
    (hrun : Runs (GroupSession.step mls) (fun _ _ => True) g₀ inputs g)
    (he : mls.epoch g.member.crypto = some e) :
    (∀ (faults : Faults σ Bytes) text b staged, mls.decode text = .ok b →
      mls.stageMembership g.member.crypto b = .ok staged →
      (∀ x b, faults.admission x b = none) → (∀ b, ¬mls.Stages staged.next b) →
      ((applyCommitSequenced mls faults g text).2.needsRejoin = false ↔
        g.needsRejoin = false ∨ (¬g.member.sequencer.Buffers (e + 1) ∧
          ((∀ k, g.member.sequencer.Buffers k → k ≤ e) ∨
            ∃ k < e, g.member.sequencer.Buffers k)))) ∧
    ∀ (faults : Faults σ Bytes) commits, (∀ b, ¬mls.Stages g.member.crypto b) →
      ((absorbResyncResponse mls faults g commits).2.needsRejoin = false ↔
        (∃ k ≤ e, g.member.sequencer.Buffers k) ∨
        ((∀ k, ¬g.member.sequencer.Buffers k) ∧
          ∀ entry ∈ commits, ∀ k, mls.WireEpoch entry.2.commitB64 k → k ≤ e) ∨
        (faults.publish ≠ none ∧ g.needsRejoin = false)) := by
  have hinv : AppliedOld mls g.member ∧ ∃ e, mls.epoch g.member.crypto = some e := by
    refine hrun.invariant
      (P := fun g => AppliedOld mls g.member ∧ ∃ e, mls.epoch g.member.crypto = some e) ?_
      ⟨fun x hx => by simp [hnew, CommitSequencer.new] at hx, hepoch⟩
    rintro g input - ⟨hold, hepoch⟩
    refine ⟨?_, step_epoch hlaw hepoch⟩
    exact step_invariant (P := AppliedOld mls) (fun _ _ h => h)
      (fun _ _ _ _ hmove h => h.move hlaw hmove)
      (fun _ g' hover h => h.overtaken hlaw hepoch hover) hold
  refine ⟨fun faults text b staged hd hstage hquiet hnewest => ?_, fun faults commits hhead => ?_⟩
  · exact needsRejoin_applyCommitSequenced hlaw hinv.1 he hd hstage hquiet hnewest
  · exact needsRejoin_absorbResyncResponse hinv.1 he hhead

/-- A forged commit for the epoch 100 turns the hint on when a replay is absorbed, and
    the genuine commit that follows does not turn it off. -/
theorem needsRejoin_wedged :
    let mls := Term.mls [⟨1, .add "b"⟩]
    let g := [(.none, .applyCommitSequenced (some ⟨100, .add "z"⟩)),
      (.none, .absorbResyncResponse [])].foldl (GroupSession.step mls)
      (.joined "g" "p" ⟨1, ["a"], "a"⟩ false "x")
    let r := applyCommitSequenced mls .none g (some ⟨1, .add "b"⟩)
    mls.epoch g.member.crypto = some 1 ∧ g.needsRejoin = true ∧
      r.1 = .ok () ∧ mls.epoch r.2.member.crypto = some 2 ∧ r.2.needsRejoin = true := by
  decide +kernel

/-- Without forged commits the hint stays off. -/
theorem needsRejoin_eq_false_iff_joined :
    (applyCommitSequenced (Term.mls [⟨1, .add "b"⟩]) .none
      (.joined "g" "p" ⟨1, ["a"], "a"⟩ false "x") (some ⟨1, .add "b"⟩)).2.needsRejoin = false := by
  have hlaw : (Term.mls [⟨1, .add "b"⟩]).Lawful := Term.lawful
  refine ((needsRejoin_eq_false_iff hlaw rfl ⟨1, rfl⟩ (.nil _) rfl).1 .none (some ⟨1, .add "b"⟩)
    ⟨1, .add "b"⟩ _ rfl rfl (fun _ _ => rfl) ?_).2 (.inl rfl)
  rintro b ⟨staged, hs⟩
  obtain ⟨hmem, hb, -⟩ := Term.stage_eq_ok hs
  obtain rfl := List.mem_singleton.1 hmem
  exact absurd hb (by decide)

end Mosh.Group
