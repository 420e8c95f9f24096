import Mosh.Group.Chain

/-!
# Storage that refuses commits

A member merges the commits of a chain while its store refuses to save some of them
(`sequencing.rs`). What is in memory is what was saved last, and what was refused is not lost: it is
delivered again.

* `Keeps`: what the state of a member says about a chain, whatever was refused;
* `Keeps.sequenceCommit`: what a call does, refused or not;
* `Keeps.deliver`: where a member ends that receives commits while nothing is refused;
* `refusals_never_diverge`: a member to which everything is delivered again ends where it would
  have been without refusals.
-/

namespace Mosh.Group

variable {σ Text Bytes Fp Tree : Type} {mls : Mls σ Text Bytes Fp Tree} {groupId : String}
  {s t a : Nat} {C : Chain mls s t}

/-- The commit of the chain for the epoch `k` was confirmed. -/
def Confirmed (C : Chain mls s t) (m : Member σ Text Bytes) (k : Nat) : Prop :=
  ∃ x ∈ m.sequencer.applied, C.Carries x k

/-- The store refuses to save the commit of the chain for the epoch `k`. -/
def Refuses (C : Chain mls s t) (faults : Faults σ Bytes) (m : Member σ Text Bytes) (k : Nat) :
    Prop :=
  m.persistence.isSome ∧ faults.admission (C.state k) (C.commit k) ≠ none

/-- The member `m`, which was `m₀` at the epoch `a`, has merged, saved and confirmed the chain up to
    the epoch `e`, and its buffer has nothing but commits of the chain from there on. -/
structure Keeps (C : Chain mls s t) (a : Nat) (m₀ m : Member σ Text Bytes) (e : Nat) : Prop where
  lower : a ≤ e
  upper : e ≤ t
  crypto : m.crypto = C.state e
  saved {store : GroupStore σ Bytes} : m.persistence = some store → store.snapshot = some m.crypto
  isSome : m.persistence.isSome = m₀.persistence.isSome
  merged : m.merged = m₀.merged ++ C.commits a e
  buffered {k : Nat} {x : Text} : m.sequencer.peekReady k = some x → e ≤ k ∧ a < k ∧ C.Carries x k
  confirmed {k : Nat} : a ≤ k → k < e → Confirmed C m k
  fresh {k : Nat} {x : Text} : C.Carries x k → e ≤ k → x ∉ m.sequencer.applied

variable {faults : Faults σ Bytes} {m₀ m m' : Member σ Text Bytes} {e k : Nat} {x : Text}

namespace Keeps

theorem epoch (hsa : s ≤ a) (h : Keeps C a m₀ m e) : mls.epoch m.crypto = some e := by
  rw [h.crypto, C.epoch_state (hsa.trans h.lower) h.upper]

/-- The commits up to the current epoch are those that are confirmed. -/
theorem confirmed_iff (h : Keeps C a m₀ m e) (hk : a ≤ k) : Confirmed C m k ↔ k < e := by
  constructor
  · rintro ⟨x, hx, hcar⟩
    by_contra hle
    exact h.fresh hcar (not_lt.1 hle) hx
  · exact h.confirmed hk

theorem refuses_congr {m₁ : Member σ Text Bytes} (h : Keeps C a m₀ m e) {e₁ : Nat}
    (h₁ : Keeps C a m₀ m₁ e₁) : Refuses C faults m₁ k ↔ Refuses C faults m k := by
  rw [Refuses, Refuses, h.isSome, h₁.isSome]

variable [DecidableEq Text]

variable (groupId faults) in
/-- A commit of the current epoch is settled, or else the store refuses it. -/
theorem settle_cases (hsa : s ≤ a) (h : Keeps C a m₀ m e) (hx : C.Carries x e) :
    (¬Refuses C faults m e ∧
      ∃ m', Group.settle mls faults groupId m e x (C.commit e) = .ok m' ∧
        Keeps C a m₀ m' (e + 1) ∧ m'.sequencer = (m.sequencer.drainReady e).confirm x) ∨
    (Refuses C faults m e ∧
      ∃ err, Group.settle mls faults groupId m e x (C.commit e) = .error err) := by
  obtain ⟨staged, hstage, hnext⟩ := C.stage_commit hx.1 hx.2.1
  rw [← h.crypto] at hstage
  -- What the state is after the commit, however it is stored.
  have hkeeps : ∀ store : Option (GroupStore σ Bytes),
      (∀ row, store = some row → row.snapshot = some staged.next) →
      store.isSome = m.persistence.isSome →
      Keeps C a m₀
        { crypto := staged.next
          sequencer := (m.sequencer.drainReady e).confirm x
          persistence := logGroupCommit faults groupId store e (C.commit e)
          merged := m.merged ++ [C.commit e] } (e + 1) := by
    intro store hrow hsome
    refine
      { lower := h.lower.trans e.le_succ
        upper := hx.2.1
        crypto := hnext
        saved := ?_
        isSome := ?_
        merged := ?_
        buffered := ?_
        confirmed := ?_
        fresh := ?_ }
    · intro row hlogged
      rw [logGroupCommit, Option.map_eq_some_iff] at hlogged
      obtain ⟨row', hrow', rfl⟩ := hlogged
      split
      · exact hrow row' hrow'
      · exact hrow row' hrow'
    · rw [← h.isSome, ← hsome]
      simp [logGroupCommit]
    · rw [h.merged, Chain.commits_succ h.lower, List.append_assoc]
    · intro k y hy
      rw [CommitSequencer.peekReady_confirm, CommitSequencer.peekReady_drainReady] at hy
      split at hy
      · cases hy
      · obtain ⟨hle, hlt, hcar⟩ := h.buffered hy
        exact ⟨by omega, hlt, hcar⟩
    · intro k hk hlt
      rcases Nat.lt_succ_iff_lt_or_eq.1 hlt with hlt | rfl
      · obtain ⟨y, hy, hcar⟩ := h.confirmed hk hlt
        exact ⟨y, CommitSequencer.mem_applied_confirm.2 (.inr hy), hcar⟩
      · exact ⟨x, CommitSequencer.mem_applied_confirm.2 (.inl rfl), hx⟩
    · intro k y hcar hk hy
      rcases CommitSequencer.mem_applied_confirm.1 hy with rfl | hy
      · have := hcar.unique hx
        omega
      · exact h.fresh hcar (by omega) hy
  cases hp : m.persistence with
  | none =>
    refine .inl ⟨?_, _, ?_, hkeeps none ?_ ?_, rfl⟩
    · rintro ⟨hsome, -⟩
      rw [hp] at hsome
      cases hsome
    · simp only [Group.settle, acceptCommit, hstage, persistMembership, hp]
    · rintro row ⟨⟩
    · rw [hp]
  | some store =>
    cases hadm : faults.admission m.crypto (C.commit e) with
    | none =>
      refine .inl ⟨?_, _, ?_, hkeeps (some { store with
        snapshot := some staged.next
        transitions := store.transitions.insert staged.prior.epoch
          { prior := staged.prior
            next := staged.context
            originalAuthorMlsKey := staged.author
            originalCommit := C.commit e
            previousMemberKeys := mls.memberSigners m.crypto
            nextMemberKeys := mls.memberSigners staged.next
            selfRemoved := staged.removed } }) ?_ ?_, rfl⟩
      · rintro ⟨-, hrefuses⟩
        rw [← h.crypto] at hrefuses
        exact hrefuses hadm
      · simp only [Group.settle, acceptCommit, hstage, persistMembership, hp, hadm]
      · rintro row ⟨⟩
        rfl
      · rw [hp]
        rfl
    | some err =>
      refine .inr ⟨⟨by rw [hp]; rfl, ?_⟩, err, ?_⟩
      · rw [← h.crypto, hadm]
        rintro ⟨⟩
      · simp only [Group.settle, acceptCommit, hstage, persistMembership, hp, hadm]

variable (groupId faults) in
/-- Draining merges what is ready up to the first commit that is refused, and what is refused stays
    in the buffer. -/
theorem drainLoop (hsa : s ≤ a) {turns : Nat} (h : Keeps C a m₀ m e)
    (hsize : m.sequencer.buffered.size ≤ turns) :
    ∃ e', e ≤ e' ∧ Keeps C a m₀ (Group.drainLoop mls faults groupId turns m).2 e' ∧
      (∀ j, e ≤ j → j < e' → ¬Refuses C faults m j ∧ m.sequencer.Buffers j) ∧
      (∀ j, e' ≤ j → (Group.drainLoop mls faults groupId turns m).2.sequencer.peekReady j =
        m.sequencer.peekReady j) ∧
      (((Group.drainLoop mls faults groupId turns m).1 = .ok () ∧
          ¬m.sequencer.Buffers e') ∨
        ((∃ err, (Group.drainLoop mls faults groupId turns m).1 = .error err) ∧
          Refuses C faults m e' ∧ m.sequencer.Buffers e')) := by
  induction turns generalizing m e with
  | zero =>
    refine ⟨e, le_rfl, h, fun j hle hlt => absurd hlt (by omega), fun j _ => rfl, .inl ⟨rfl, ?_⟩⟩
    intro hb
    obtain ⟨x, hx⟩ := CommitSequencer.buffers_iff.1 hb
    have := CommitSequencer.size_drainReady hx
    omega
  | succ turns ih =>
    cases hp : m.sequencer.peekReady e with
    | none =>
      rw [drainLoop_of_peekReady_eq_none (h.epoch hsa) hp]
      exact ⟨e, le_rfl, h, fun j hle hlt => absurd hlt (by omega), fun j _ => rfl,
        .inl ⟨rfl, CommitSequencer.not_buffers_iff.2 hp⟩⟩
    | some x =>
      obtain ⟨-, -, hcar⟩ := h.buffered hp
      have hbuffers := CommitSequencer.buffers_of_peekReady hp
      rcases h.settle_cases groupId faults hsa hcar with
        ⟨hsaved, m₁, hsettle, h₁, hsequencer⟩ | ⟨hrefused, err, hsettle⟩
      · rw [drainLoop_of_settle (h.epoch hsa) hp hcar.2.2 hsettle]
        have hpeek : ∀ j, e < j → m₁.sequencer.peekReady j = m.sequencer.peekReady j := by
          intro j hj
          rw [hsequencer, CommitSequencer.peekReady_confirm, CommitSequencer.peekReady_drainReady,
            if_neg (by omega)]
        have hbuffer : ∀ j, e < j → (m₁.sequencer.Buffers j ↔ m.sequencer.Buffers j) := by
          intro j hj
          rw [CommitSequencer.buffers_iff, CommitSequencer.buffers_iff, hpeek j hj]
        have hsize₁ : m₁.sequencer.buffered.size ≤ turns := by
          have := CommitSequencer.size_drainReady hp
          rw [hsequencer]
          change (m.sequencer.drainReady e).buffered.size ≤ turns
          omega
        obtain ⟨e', hle, h', hmerged, hkept, hend⟩ := ih h₁ hsize₁
        refine ⟨e', by omega, h', fun j hej hje => ?_, fun j hj => ?_, ?_⟩
        · rcases hej.eq_or_lt with rfl | hlt
          · exact ⟨hsaved, hbuffers⟩
          · obtain ⟨hnot, hb⟩ := hmerged j hlt hje
            rw [h.refuses_congr h₁] at hnot
            exact ⟨hnot, (hbuffer j hlt).1 hb⟩
        · rw [hkept j hj, hpeek j (by omega)]
        · rw [h.refuses_congr h₁, hbuffer e' (by omega)] at hend
          exact hend
      · have hstop : Group.drainLoop mls faults groupId (turns + 1) m = (.error err, m) := by
          simp only [Group.drainLoop, h.epoch hsa, hp, hcar.2.2, hsettle]
        rw [hstop]
        exact ⟨e, le_rfl, h, fun j hle hlt => absurd hlt (by omega), fun j _ => rfl,
          .inr ⟨⟨err, rfl⟩, hrefused, hbuffers⟩⟩

variable (groupId faults) in
/-- What a call reports tells whether something that was ready was refused. -/
theorem drainAndReport (hsa : s ≤ a) (h : Keeps C a m₀ m e) :
    ∃ e', e ≤ e' ∧ Keeps C a m₀ (Group.drainAndReport mls faults groupId m).2 e' ∧
      (∀ j, e ≤ j → j < e' → ¬Refuses C faults m j ∧ m.sequencer.Buffers j) ∧
      (∀ j, e' ≤ j → (Group.drainAndReport mls faults groupId m).2.sequencer.peekReady j =
        m.sequencer.peekReady j) ∧
      (((∃ o, (Group.drainAndReport mls faults groupId m).1 = .ok o) ∧
          ¬m.sequencer.Buffers e') ∨
        ((∃ err, (Group.drainAndReport mls faults groupId m).1 = .error err) ∧
          Refuses C faults m e' ∧ m.sequencer.Buffers e')) := by
  obtain ⟨e', hle, h', hmerged, hkept, hend⟩ :=
    h.drainLoop groupId faults hsa le_rfl
  rw [drainAndReport_snd]
  refine ⟨e', hle, h', hmerged, hkept, ?_⟩
  rw [Group.drainAndReport]
  rcases hend with ⟨hok, hnot⟩ | ⟨⟨err, herr⟩, hrefused⟩
  · refine .inl ⟨?_, hnot⟩
    split <;> rename_i hdrain
    · rw [hdrain] at hok
      cases hok
    · exact ⟨_, rfl⟩
  · refine .inr ⟨?_, hrefused⟩
    split <;> rename_i hdrain
    · exact ⟨_, rfl⟩
    · rw [hdrain] at herr
      cases herr

omit [DecidableEq Text] in
/-- The commits that are still to come fit into the buffer. -/
theorem size_lt (hlen : t - a ≤ bufferCap + 1) (h : Keeps C a m₀ m e) (hek : e < k) (hkt : k < t)
    (hnot : ¬m.sequencer.Buffers k) : m.sequencer.buffered.size < bufferCap := by
  have hmem : ∀ j, m.sequencer.Buffers j → j ∈ (Finset.Ico (a + 1) t).erase k := by
    intro j hj
    obtain ⟨y, hy⟩ := CommitSequencer.buffers_iff.1 hj
    obtain ⟨-, hlt, -, hjt, -⟩ := h.buffered hy
    refine Finset.mem_erase.2 ⟨?_, Finset.mem_Ico.2 ⟨hlt, hjt⟩⟩
    rintro rfl
    exact hnot hj
  have hcard := CommitSequencer.size_buffered_le hmem
  have hk : k ∈ Finset.Ico (a + 1) t :=
    Finset.mem_Ico.2 ⟨Nat.succ_le_of_lt (h.lower.trans_lt hek), hkt⟩
  rw [Finset.card_erase_of_mem hk, Nat.card_Ico] at hcard
  have := h.lower
  omega

omit [DecidableEq Text] in
/-- A commit of a later epoch is put into the buffer. -/
theorem hold (h : Keeps C a m₀ m e) (hx : C.Carries x k) (hek : e < k) :
    Keeps C a m₀ { m with sequencer :=
      { m.sequencer with buffered := m.sequencer.buffered.insert k x } } e := by
  refine { h with buffered := ?_ }
  intro j y hy
  rw [CommitSequencer.peekReady_insert] at hy
  split at hy
  · next hkj =>
    obtain rfl := hkj
    obtain rfl := Option.some.inj hy
    exact ⟨hek.le, h.lower.trans_lt hek, hx⟩
  · exact h.buffered hy

variable (groupId faults) in
/-- A call is refused in front of its own commit and changes nothing, or it comes to drain the
    buffer with the commit merged, held or dropped. -/
theorem sequenceCommit_first (hsa : s ≤ a) (h : Keeps C a m₀ m e) (hx : C.Carries x k) :
    ((Group.sequenceCommit mls faults groupId m x).2 = m ∧ k = e ∧ Refuses C faults m e ∧
      ∃ err, (Group.sequenceCommit mls faults groupId m x).1 = .error err) ∨
    ∃ m₁ e₁, Group.sequenceCommit mls faults groupId m x =
        Group.drainAndReport mls faults groupId m₁ ∧ e ≤ e₁ ∧ Keeps C a m₀ m₁ e₁ ∧
      (∀ j, e ≤ j → j < e₁ → ¬Refuses C faults m j ∧ j = k) ∧
      (∀ j y, e₁ ≤ j → m.sequencer.peekReady j = some y → m₁.sequencer.peekReady j = some y) ∧
      (∀ j, m₁.sequencer.Buffers j → m.sequencer.Buffers j ∨ j = k) ∧
      (t - a ≤ bufferCap + 1 → e < k → m₁.sequencer.Buffers k) ∧ (k = e → e < e₁) := by
  rcases sequenceCommit_cases mls faults groupId m x with ⟨hcut, hm, herr⟩ |
    ⟨current, bytes, wire, m₁, hc, hd, hw, hcall, hm₁⟩
  · rcases hcut with habsent | hmal | ⟨hc, hd, hw, -, hrefused⟩
    · exact absurd (habsent.symm.trans (h.epoch hsa)) (by simp)
    · exact absurd hx.wireEpoch (hmal k)
    · rename_i current bytes
      obtain rfl : e = current := Option.some.inj ((h.epoch hsa).symm.trans hc)
      obtain rfl : k = e := hx.wireEpoch.unique ⟨bytes, hd, hw⟩
      obtain rfl : C.commit k = bytes := Except.ok.inj (hx.2.2.symm.trans hd)
      rcases h.settle_cases groupId faults hsa hx with
        ⟨-, m', hsettle, -⟩ | ⟨hstored, -⟩
      · exact absurd hsettle (hrefused m')
      · exact .inl ⟨hm, rfl, hstored, herr ⟨k, hc⟩⟩
  right
  obtain rfl : e = current := Option.some.inj ((h.epoch hsa).symm.trans hc)
  obtain rfl : k = wire := hx.wireEpoch.unique ⟨bytes, hd, hw⟩
  obtain rfl : C.commit k = bytes := Except.ok.inj (hx.2.2.symm.trans hd)
  rcases hm₁ with ⟨rfl, hold⟩ | ⟨rfl, -, hs⟩ | ⟨rfl, -, hlt, hfull⟩ | ⟨-, hlt, hb, -, rfl⟩
  · -- The commit was applied before.
    have hbefore : k < e := by
      rcases hold with happlied | hlt
      · by_contra hle
        exact h.fresh hx (not_lt.1 hle) happlied
      · exact hlt
    exact ⟨m₁, e, hcall, le_rfl, h, fun j hle hlt => absurd hlt (by omega), fun j y _ hy => hy,
      fun j => .inl, fun _ hlt => absurd hlt (by omega), fun heq => absurd heq (by omega)⟩
  · -- It is merged.
    rcases h.settle_cases groupId faults hsa hx with
      ⟨hsaved, m', hs', h', hsequencer⟩ | ⟨-, err, hs'⟩
    · obtain rfl : m₁ = m' := Except.ok.inj (hs.symm.trans hs')
      refine ⟨m₁, k + 1, hcall, k.le_succ, h', fun j hle hlt => ?_, fun j y hle hy => ?_,
        fun j hj => ?_, fun _ hlt => absurd hlt (by omega), fun _ => k.lt_succ_self⟩
      · obtain rfl : j = k := by omega
        exact ⟨hsaved, rfl⟩
      · rw [hsequencer, CommitSequencer.peekReady_confirm, CommitSequencer.peekReady_drainReady,
          if_neg (by omega)]
        exact hy
      · rw [hsequencer, CommitSequencer.buffers_confirm, CommitSequencer.buffers_drainReady] at hj
        exact .inl hj.2
    · rw [hs'] at hs
      cases hs
  · -- It is of a later epoch, which has its commit already, or there is no room for it.
    refine ⟨m₁, e, hcall, le_rfl, h, fun j hle hlt => absurd hlt (by omega), fun j y _ hy => hy,
      fun j => .inl, fun hlen _ => ?_, fun heq => absurd heq (by omega)⟩
    rcases hfull with hb | hfull
    · exact hb
    · by_contra hnot
      have := h.size_lt hlen hlt hx.2.1 hnot
      omega
  · -- It is of a later epoch, and held.
    refine ⟨_, e, hcall, le_rfl, h.hold hx hlt, fun j hle hlt => absurd hlt (by omega), ?_, ?_, ?_,
      fun heq => absurd heq (by omega)⟩
    · intro j y _ hy
      rw [CommitSequencer.peekReady_insert]
      split
      · next hkj =>
        rw [← hkj, CommitSequencer.not_buffers_iff.1 hb] at hy
        cases hy
      · exact hy
    · intro j hj
      rcases CommitSequencer.buffers_insert.1 hj with rfl | hj
      · exact .inr rfl
      · exact .inl hj
    · exact fun _ _ => CommitSequencer.buffers_insert.2 (.inl rfl)

variable (groupId faults) in
/-- A call merges, saves and confirms what the store does not refuse. When it fails, it has come to
    a commit that the store refuses, and that commit stays in the buffer, or else the call has
    changed nothing. -/
theorem sequenceCommit (hsa : s ≤ a) (h : Keeps C a m₀ m e) (hx : C.Carries x k) :
    ∃ e', e ≤ e' ∧ Keeps C a m₀ (Group.sequenceCommit mls faults groupId m x).2 e' ∧
      (∀ j, e ≤ j → j < e' → ¬Refuses C faults m j ∧ (m.sequencer.Buffers j ∨ j = k)) ∧
      (∀ j y, e' ≤ j → m.sequencer.peekReady j = some y →
        (Group.sequenceCommit mls faults groupId m x).2.sequencer.peekReady j = some y) ∧
      (∀ j, (Group.sequenceCommit mls faults groupId m x).2.sequencer.Buffers j →
        m.sequencer.Buffers j ∨ j = k) ∧
      (t - a ≤ bufferCap + 1 → e < k → e' ≤ k →
        (Group.sequenceCommit mls faults groupId m x).2.sequencer.Buffers k) ∧
      (((∃ o, (Group.sequenceCommit mls faults groupId m x).1 = .ok o) ∧
          ¬(Group.sequenceCommit mls faults groupId m x).2.sequencer.Buffers e' ∧
          (k = e → e < e')) ∨
        ((∃ err, (Group.sequenceCommit mls faults groupId m x).1 = .error err) ∧
          Refuses C faults m e' ∧
          ((Group.sequenceCommit mls faults groupId m x).2.sequencer.Buffers e' ∨
            (Group.sequenceCommit mls faults groupId m x).2 = m ∧ k = e))) := by
  rcases h.sequenceCommit_first groupId faults hsa hx with
    ⟨hm, rfl, hrefused, herr⟩ |
    ⟨m₁, e₁, hcall, hle₁, h₁, hsaved₁, hpeek₁, hbuffers₁, hheld₁, hahead₁⟩
  · rw [hm]
    exact ⟨k, le_rfl, h, fun j hle hlt => absurd hlt (by omega), fun j y _ hy => hy,
      fun j => .inl, fun _ hlt => absurd hlt (by omega), .inr ⟨herr, hrefused, .inr ⟨rfl, rfl⟩⟩⟩
  · rw [hcall]
    obtain ⟨e', hle, h', hsaved, hpeek, hend⟩ :=
      h₁.drainAndReport groupId faults hsa
    have hbuffers : ∀ j, e' ≤ j →
        ((Group.drainAndReport mls faults groupId m₁).2.sequencer.Buffers j ↔
          m₁.sequencer.Buffers j) := by
      intro j hj
      rw [CommitSequencer.buffers_iff, CommitSequencer.buffers_iff, hpeek j hj]
    refine ⟨e', hle₁.trans hle, h', fun j hej hje => ?_, fun j y hj hy => ?_, fun j hj => ?_,
      fun hlen hek hk => ?_, ?_⟩
    · rcases Nat.lt_or_ge j e₁ with hlt | hge
      · exact ⟨(hsaved₁ j hej hlt).1, .inr (hsaved₁ j hej hlt).2⟩
      · obtain ⟨hnot, hb⟩ := hsaved j hge hje
        rw [h.refuses_congr h₁] at hnot
        exact ⟨hnot, hbuffers₁ j hb⟩
    · rw [hpeek j hj]
      exact hpeek₁ j y (hle.trans hj) hy
    · obtain ⟨y, hy⟩ := CommitSequencer.buffers_iff.1 hj
      exact hbuffers₁ j ((hbuffers j (h'.buffered hy).1).1 hj)
    · exact (hbuffers k hk).2 (hheld₁ hlen hek)
    · rw [h.refuses_congr h₁] at hend
      rcases hend with ⟨hok, hnot⟩ | ⟨herr, hrefused, hb⟩
      · refine .inl ⟨hok, fun hb => hnot ((hbuffers e' le_rfl).1 hb), fun heq => ?_⟩
        exact (hahead₁ heq).trans_le hle
      · exact .inr ⟨herr, hrefused, .inl ((hbuffers e' le_rfl).2 hb)⟩

end Keeps

/-! ## Deliveries -/

variable [DecidableEq Text]

variable (mls groupId) in
/-- The member after some commits were delivered to it, each together with what is refused
    meanwhile. -/
def deliverRefusing (m : Member σ Text Bytes) (ds : List (Faults σ Bytes × Text)) :
    Member σ Text Bytes :=
  ds.foldl (fun m d => (sequenceCommit mls d.1 groupId m d.2).2) m

/-- The commit of the chain for the epoch `k` is among those texts. -/
def Delivered (C : Chain mls s t) (xs : List Text) (k : Nat) : Prop := ∃ x ∈ xs, C.Carries x k

variable (mls groupId) in
theorem deliver_eq (m : Member σ Text Bytes) (xs : List Text) :
    deliver mls groupId m xs =
      deliverRefusing mls groupId m (xs.map fun x => (Faults.none, x)) := by
  rw [deliver, deliverRefusing, List.foldl_map]

omit [DecidableEq Text] in
theorem delivered_cons {xs : List Text} :
    Delivered C (x :: xs) k ↔ C.Carries x k ∨ Delivered C xs k := by
  simp [Delivered]

omit [DecidableEq Text] in
theorem not_refuses_none : ¬Refuses C Faults.none m k := fun h => h.2 rfl

namespace Keeps

variable (groupId) in
/-- What deliveries merge and hold was in the buffer or is delivered, whatever is refused. -/
theorem deliverRefusing (hsa : s ≤ a) (ds : List (Faults σ Bytes × Text))
    (h : Keeps C a m₀ m e) (hds : ∀ d ∈ ds, ∃ k, C.Carries d.2 k) :
    ∃ e', e ≤ e' ∧ Keeps C a m₀ (Group.deliverRefusing mls groupId m ds) e' ∧
      (∀ j, e ≤ j → j < e' → m.sequencer.Buffers j ∨ Delivered C (ds.map (·.2)) j) ∧
      ∀ j, (Group.deliverRefusing mls groupId m ds).sequencer.Buffers j →
        m.sequencer.Buffers j ∨ Delivered C (ds.map (·.2)) j := by
  induction ds generalizing m e with
  | nil => exact ⟨e, le_rfl, h, fun j hle hlt => absurd hlt (by omega), fun j => .inl⟩
  | cons d ds ih =>
    obtain ⟨k, hk⟩ := hds d List.mem_cons_self
    obtain ⟨e₁, hle₁, h₁, hmerged₁, -, hbuffers₁, -⟩ :=
      h.sequenceCommit groupId d.1 hsa hk
    obtain ⟨e', hle, h', hmerged, hbuffers⟩ :=
      ih h₁ fun d' hd' => hds d' (List.mem_cons_of_mem _ hd')
    -- What is held after the call was held before it, or is its commit.
    have hfirst : ∀ j, (Group.sequenceCommit mls d.1 groupId m d.2).2.sequencer.Buffers j ∨
        Delivered C (ds.map (·.2)) j →
        m.sequencer.Buffers j ∨ Delivered C ((d :: ds).map (·.2)) j := by
      rintro j (hj | hj)
      · rcases hbuffers₁ j hj with hj | rfl
        · exact .inl hj
        · exact .inr (delivered_cons.2 (.inl hk))
      · exact .inr (delivered_cons.2 (.inr hj))
    refine ⟨e', hle₁.trans hle, h', fun j hej hje => ?_, fun j hj => hfirst j (hbuffers j hj)⟩
    rcases Nat.lt_or_ge j e₁ with hlt | hge
    · rcases (hmerged₁ j hej hlt).2 with hj | rfl
      · exact .inl hj
      · exact .inr (delivered_cons.2 (.inl hk))
    · exact hfirst j (hmerged j hge hje)

variable (groupId) in
/-- While nothing is refused, the commits that are delivered are merged or held, and nothing that is
    ready stays behind. -/
theorem deliver (hsa : s ≤ a) (hlen : t - a ≤ bufferCap + 1) {xs : List Text}
    (h : Keeps C a m₀ m e) (hxs : ∀ x ∈ xs, ∃ k, C.Carries x k) :
    ∃ e', e ≤ e' ∧ Keeps C a m₀ (Group.deliver mls groupId m xs) e' ∧
      (∀ j, e' ≤ j → m.sequencer.Buffers j ∨ Delivered C xs j →
        (Group.deliver mls groupId m xs).sequencer.Buffers j) ∧
      (xs ≠ [] → ¬(Group.deliver mls groupId m xs).sequencer.Buffers e') := by
  induction xs generalizing m e with
  | nil =>
    refine ⟨e, le_rfl, h, ?_, fun hne => absurd rfl hne⟩
    rintro j - (hj | ⟨x, hx, -⟩)
    · exact hj
    · cases hx
  | cons x xs ih =>
    obtain ⟨k, hk⟩ := hxs x List.mem_cons_self
    obtain ⟨e₁, hle₁, h₁, -, hkept₁, -, hheld₁, hend₁⟩ :=
      h.sequenceCommit groupId Faults.none hsa hk
    obtain ⟨-, hready₁, hahead₁⟩ :=
      hend₁.resolve_right fun ⟨_, hrefused, _⟩ => not_refuses_none hrefused
    obtain ⟨e', hle, h', hheld, hready⟩ := ih h₁ fun y hy => hxs y (List.mem_cons_of_mem _ hy)
    refine ⟨e', hle₁.trans hle, h', fun j hj hj' => hheld j hj ?_, fun _ => ?_⟩
    · rw [delivered_cons] at hj'
      rcases hj' with hb | hcar | hd
      · obtain ⟨y, hy⟩ := CommitSequencer.buffers_iff.1 hb
        exact .inl (CommitSequencer.buffers_of_peekReady (hkept₁ j y (hle.trans hj) hy))
      · -- Its own commit is of a later epoch than the one it came at.
        obtain rfl := hcar.unique hk
        rcases lt_trichotomy e j with hlt | rfl | hgt
        · exact .inl (hheld₁ hlen hlt (hle.trans hj))
        · exact absurd (hahead₁ rfl) (by omega)
        · exact absurd hgt (by omega)
      · exact .inr hd
    · rcases eq_or_ne xs [] with rfl | hne
      · -- The epoch after the last call is the one at the end.
        have hsame : some e₁ = some e' := (h₁.epoch hsa).symm.trans (h'.epoch hsa)
        rw [← Option.some.inj hsame]
        exact hready₁
      · exact hready hne

variable (groupId) in
/-- While nothing is refused, a commit of the current epoch is merged once it is delivered. -/
theorem deliver_ahead (hsa : s ≤ a) {xs : List Text} {k : Nat} (h : Keeps C a m₀ m e)
    (hxs : ∀ x ∈ xs, ∃ k, C.Carries x k) (hk : k ≤ e) :
    ∃ e', e ≤ e' ∧ Keeps C a m₀ (Group.deliver mls groupId m xs) e' ∧
      (Delivered C xs k → k < e') := by
  induction xs generalizing m e with
  | nil => exact ⟨e, le_rfl, h, fun ⟨_, hx, _⟩ => absurd hx List.not_mem_nil⟩
  | cons x xs ih =>
    obtain ⟨j, hj⟩ := hxs x List.mem_cons_self
    obtain ⟨e₁, hle₁, h₁, -, -, -, -, hend₁⟩ :=
      h.sequenceCommit groupId Faults.none hsa hj
    obtain ⟨-, -, hahead₁⟩ :=
      hend₁.resolve_right fun ⟨_, hrefused, _⟩ => not_refuses_none hrefused
    obtain ⟨e', hle, h', hahead⟩ :=
      ih h₁ (fun y hy => hxs y (List.mem_cons_of_mem _ hy)) (hk.trans hle₁)
    refine ⟨e', hle₁.trans hle, h', fun hd => ?_⟩
    rcases delivered_cons.1 hd with hcar | hd
    · obtain rfl := hcar.unique hj
      rcases hk.eq_or_lt with rfl | hlt
      · exact (hahead₁ rfl).trans_le hle
      · omega
    · exact hahead hd

variable (groupId) in
/-- What was delivered, whatever was refused of it, is delivered again while nothing is refused. The
    member comes to the first commit that was not delivered, and holds the others. -/
theorem again (hsa : s ≤ a) (hlen : t - a ≤ bufferCap + 1) (ds : List (Faults σ Bytes × Text))
    {xs : List Text} (h : Keeps C a m₀ m₀ a) (hempty : ∀ k, ¬m₀.sequencer.Buffers k)
    (hds : ∀ d ∈ ds, ∃ k, C.Carries d.2 k) (hxs : ∀ x ∈ xs, ∃ k, C.Carries x k)
    (hsub : ∀ k, Delivered C (ds.map (·.2)) k → Delivered C xs k) :
    ∃ e, Keeps C a m₀
        (Group.deliver mls groupId (Group.deliverRefusing mls groupId m₀ ds) xs) e ∧
      (∀ j, a ≤ j → j < e → Delivered C xs j) ∧ ¬Delivered C xs e ∧
      ∀ j, (Group.deliver mls groupId (Group.deliverRefusing mls groupId m₀ ds)
        xs).sequencer.Buffers j ↔ e ≤ j ∧ Delivered C xs j := by
  obtain ⟨e₁, hle₁, h₁, hmerged₁, hbuffers₁⟩ := h.deliverRefusing groupId hsa ds hds
  have hfrom₁ : ∀ j, (Group.deliverRefusing mls groupId m₀ ds).sequencer.Buffers j →
      Delivered C xs j := fun j hj => hsub j ((hbuffers₁ j hj).resolve_left (hempty j))
  obtain ⟨e, hle, h', hheld, hready⟩ := h₁.deliver groupId hsa hlen hxs
  -- The second time is a delivery too, of which the same can be said as of the first.
  obtain ⟨e', -, h'', hmerged', hbuffers'⟩ := h₁.deliverRefusing groupId hsa
    (xs.map fun x => (Faults.none, x)) fun d hd => by
      obtain ⟨x, hx, rfl⟩ := List.mem_map.1 hd
      exact hxs x hx
  rw [← deliver_eq] at h'' hbuffers'
  obtain rfl : e = e' := Option.some.inj ((h'.epoch hsa).symm.trans (h''.epoch hsa))
  rw [List.map_map, show ((·.2) ∘ fun x => ((Faults.none : Faults σ Bytes), x)) = (id : Text → Text)
    from rfl, List.map_id] at hmerged' hbuffers'
  refine ⟨e, h', fun j haj hje => ?_, fun hd => ?_, fun j => ⟨fun hj => ?_, fun ⟨hej, hd⟩ => ?_⟩⟩
  · rcases Nat.lt_or_ge j e₁ with hlt | hge
    · exact hsub j ((hmerged₁ j haj hlt).resolve_left (hempty j))
    · rcases hmerged' j hge hje with hb | hd
      · exact hfrom₁ j hb
      · exact hd
  · have hne : xs ≠ [] := by
      rintro rfl
      obtain ⟨x, hx, -⟩ := hd
      cases hx
    exact hready hne (hheld e le_rfl (.inr hd))
  · obtain ⟨y, hy⟩ := CommitSequencer.buffers_iff.1 hj
    refine ⟨(h'.buffered hy).1, ?_⟩
    rcases hbuffers' j hj with hb | hd
    · exact hfrom₁ j hb
    · exact hd
  · exact hheld j hej (.inr hd)

end Keeps

/-! ## Nothing is lost -/

/-- A member at the epoch `a` that has saved its state and waits for the commits from there on. -/
structure Waits (C : Chain mls s t) (a : Nat) (m₀ : Member σ Text Bytes) : Prop where
  lower : s ≤ a
  upper : a ≤ t
  crypto : m₀.crypto = C.state a
  saved {store : GroupStore σ Bytes} :
    m₀.persistence = some store → store.snapshot = some m₀.crypto
  empty : m₀.sequencer.buffered = ∅
  fresh {k : Nat} {x : Text} : C.Carries x k → a ≤ k → x ∉ m₀.sequencer.applied

omit [DecidableEq Text] in
theorem Waits.not_buffers (h : Waits C a m₀) (k : Nat) : ¬m₀.sequencer.Buffers k := by
  rw [CommitSequencer.Buffers, h.empty]
  exact Std.ExtTreeMap.not_mem_empty

omit [DecidableEq Text] in
theorem Waits.keeps (h : Waits C a m₀) : Keeps C a m₀ m₀ a where
  lower := le_rfl
  upper := h.upper
  crypto := h.crypto
  saved := h.saved
  isSome := rfl
  merged := by rw [Chain.commits_self, List.append_nil]
  buffered hy := absurd (CommitSequencer.buffers_of_peekReady hy) (h.not_buffers _)
  confirmed hle hlt := absurd hlt (by omega)
  fresh := h.fresh

variable (groupId) in
/-- While nothing is refused, as many deliveries as there are commits are enough. -/
theorem Keeps.deliver_iterate (hsa : s ≤ a) {xs : List Text} (h : Keeps C a m₀ m e)
    (hxs : ∀ x ∈ xs, ∃ k, C.Carries x k) (hall : ∀ k, a ≤ k → k < t → Delivered C xs k) (n : Nat) :
    ∃ e', Keeps C a m₀ ((fun m => Group.deliver mls groupId m xs)^[n] m) e' ∧
      min t (e + n) ≤ e' := by
  induction n generalizing m e with
  | zero => exact ⟨e, h, min_le_right _ _⟩
  | succ n ih =>
    obtain ⟨e₁, hle, h₁, hahead⟩ := h.deliver_ahead groupId hsa hxs le_rfl
    obtain ⟨e', h', hmin⟩ := ih h₁
    refine ⟨e', h', le_trans ?_ hmin⟩
    rcases h.upper.eq_or_lt with heq | hlt
    · -- All commits are merged already.
      rw [min_eq_left (by omega), min_eq_left (by omega)]
    · have := hahead (hall e h.lower hlt)
      omega

variable (groupId) in
/-- Refusals of the store never diverge a member. Let a member that waits at the epoch `a` receive
    commits of the chain, in any order and with any repetitions, while its store may refuse to save
    any of them. What it has in memory is what was saved last, with exactly the commits up to its
    epoch merged and confirmed. A call that fails has merged and confirmed what the store accepted,
    up to a commit that the store refused; if that commit was ready in the buffer, it still is.

    Let all of it be delivered again, with nothing refused. If there are at most 65 commits to come,
    so that the buffer has room for all of them but the first, then the member is where it would be
    if nothing had been refused, and holds the same commits: none, if all were delivered. However
    many there are, delivering them as often as there are commits merges all of them. -/
theorem refusals_never_diverge (C : Chain mls s t) (m₀ : Member σ Text Bytes) (h₀ : Waits C a m₀)
    (ds : List (Faults σ Bytes × Text)) (hds : ∀ d ∈ ds, ∃ k, C.Carries d.2 k) :
    (∃ e, mls.epoch (deliverRefusing mls groupId m₀ ds).crypto = some e ∧ a ≤ e ∧
      (deliverRefusing mls groupId m₀ ds).merged = m₀.merged ++ C.commits a e ∧
      (∀ store, (deliverRefusing mls groupId m₀ ds).persistence = some store →
        store.snapshot = some (deliverRefusing mls groupId m₀ ds).crypto) ∧
      (∀ k, a ≤ k → (Confirmed C (deliverRefusing mls groupId m₀ ds) k ↔ k < e)) ∧
      ∀ faults x, (∃ k, C.Carries x k) → ∃ e', e ≤ e' ∧
        mls.epoch (sequenceCommit mls faults groupId
          (deliverRefusing mls groupId m₀ ds) x).2.crypto = some e' ∧
        (sequenceCommit mls faults groupId (deliverRefusing mls groupId m₀ ds) x).2.merged =
          m₀.merged ++ C.commits a e' ∧
        (∀ k, a ≤ k → (Confirmed C (sequenceCommit mls faults groupId
          (deliverRefusing mls groupId m₀ ds) x).2 k ↔ k < e')) ∧
        (∀ k, e ≤ k → k < e' → ¬Refuses C faults (deliverRefusing mls groupId m₀ ds) k) ∧
        ((∃ err, (sequenceCommit mls faults groupId
            (deliverRefusing mls groupId m₀ ds) x).1 = .error err) →
          Refuses C faults (deliverRefusing mls groupId m₀ ds) e' ∧
          (∀ y, (deliverRefusing mls groupId m₀ ds).sequencer.peekReady e' = some y →
            (sequenceCommit mls faults groupId
              (deliverRefusing mls groupId m₀ ds) x).2.sequencer.peekReady e' = some y) ∧
          ((sequenceCommit mls faults groupId
              (deliverRefusing mls groupId m₀ ds) x).2.sequencer.Buffers e' ∨
            (sequenceCommit mls faults groupId (deliverRefusing mls groupId m₀ ds) x).2 =
              deliverRefusing mls groupId m₀ ds))) ∧
    (t - a ≤ 65 →
      (deliver mls groupId (deliverRefusing mls groupId m₀ ds) (ds.map (·.2))).crypto =
        (deliver mls groupId m₀ (ds.map (·.2))).crypto ∧
      (deliver mls groupId (deliverRefusing mls groupId m₀ ds) (ds.map (·.2))).merged =
        (deliver mls groupId m₀ (ds.map (·.2))).merged ∧
      (∀ k, a ≤ k → (Confirmed C (deliver mls groupId (deliverRefusing mls groupId m₀ ds)
          (ds.map (·.2))) k ↔ Confirmed C (deliver mls groupId m₀ (ds.map (·.2))) k)) ∧
      (∀ k, (deliver mls groupId (deliverRefusing mls groupId m₀ ds)
          (ds.map (·.2))).sequencer.Buffers k ↔
        (deliver mls groupId m₀ (ds.map (·.2))).sequencer.Buffers k) ∧
      ((∀ k, a ≤ k → k < t → Delivered C (ds.map (·.2)) k) →
        mls.epoch (deliver mls groupId (deliverRefusing mls groupId m₀ ds)
          (ds.map (·.2))).crypto = some t ∧
        (deliver mls groupId (deliverRefusing mls groupId m₀ ds)
          (ds.map (·.2))).sequencer.buffered = ∅)) ∧
    ((∀ k, a ≤ k → k < t → Delivered C (ds.map (·.2)) k) → ∀ n, t - a ≤ n →
      mls.epoch ((fun m => deliver mls groupId m (ds.map (·.2)))^[n]
        (deliverRefusing mls groupId m₀ ds)).crypto = some t ∧
      ((fun m => deliver mls groupId m (ds.map (·.2)))^[n]
        (deliverRefusing mls groupId m₀ ds)).merged = m₀.merged ++ C.commits a t ∧
      ((fun m => deliver mls groupId m (ds.map (·.2)))^[n]
        (deliverRefusing mls groupId m₀ ds)).sequencer.buffered = ∅) := by
  have hsa := h₀.lower
  have hxs : ∀ x ∈ ds.map (·.2), ∃ k, C.Carries x k := fun x hx => by
    obtain ⟨d, hd, rfl⟩ := List.mem_map.1 hx
    exact hds d hd
  obtain ⟨e, hae, h, -⟩ := h₀.keeps.deliverRefusing groupId hsa ds hds
  refine ⟨⟨e, h.epoch hsa, hae, h.merged, fun store => h.saved, fun k hk => h.confirmed_iff hk, ?_⟩,
    fun hlen => ?_, fun hall n hn => ?_⟩
  · rintro faults x ⟨k, hk⟩
    obtain ⟨e', hle, h', hsaved, hkept, -, -, hend⟩ :=
      h.sequenceCommit groupId faults hsa hk
    refine ⟨e', hle, h'.epoch hsa, h'.merged, fun j hj => h'.confirmed_iff hj,
      fun j hej hje => (hsaved j hej hje).1, fun ⟨err, herr⟩ => ?_⟩
    rcases hend with ⟨⟨o, hok⟩, -⟩ | ⟨-, hrefused, hwhere⟩
    · rw [herr] at hok
      cases hok
    · exact ⟨hrefused, fun y hy => hkept e' y le_rfl hy, hwhere.imp_right And.left⟩
  · -- With refusals and without, the member comes to the first commit that was not delivered.
    obtain ⟨e₁, h₁, hall₁, hmissing₁, hbuffers₁⟩ := h₀.keeps.again groupId hsa hlen ds
      h₀.not_buffers hds hxs fun _ => id
    obtain ⟨e₂, h₂, hall₂, hmissing₂, hbuffers₂⟩ := h₀.keeps.again groupId hsa hlen []
      h₀.not_buffers (fun _ hd => absurd hd List.not_mem_nil) hxs
        fun _ ⟨_, hx, _⟩ => absurd hx List.not_mem_nil
    change Keeps C a m₀ (deliver mls groupId m₀ _) e₂ at h₂
    obtain rfl : e₁ = e₂ := by
      rcases lt_trichotomy e₁ e₂ with hlt | heq | hgt
      · exact absurd (hall₂ e₁ h₁.lower hlt) hmissing₁
      · exact heq
      · exact absurd (hall₁ e₂ h₂.lower hgt) hmissing₂
    refine ⟨h₁.crypto.trans h₂.crypto.symm, h₁.merged.trans h₂.merged.symm, fun k hk => ?_,
      fun k => (hbuffers₁ k).trans (hbuffers₂ k).symm, fun hall => ?_⟩
    · rw [h₁.confirmed_iff hk, h₂.confirmed_iff hk]
    · obtain rfl : e₁ = t := by
        by_contra hne
        exact hmissing₁ (hall e₁ h₁.lower (lt_of_le_of_ne h₁.upper hne))
      refine ⟨h₁.epoch hsa, CommitSequencer.buffered_eq_empty fun k hk => ?_⟩
      obtain ⟨hle, x, -, -, hlt, -⟩ := (hbuffers₁ k).1 hk
      omega
  · obtain ⟨e', h', hmin⟩ := h.deliver_iterate groupId hsa hxs hall n
    obtain rfl : e' = t := by
      have := h'.upper
      omega
    refine ⟨h'.epoch hsa, h'.merged, CommitSequencer.buffered_eq_empty fun k hk => ?_⟩
    obtain ⟨x, hx⟩ := CommitSequencer.buffers_iff.1 hk
    obtain ⟨hle, -, -, hlt, -⟩ := h'.buffered hx
    omega

omit [DecidableEq Text] in
theorem Waits.joined {crypto : σ} {C : Chain mls s t} (hst : s ≤ t) (hcrypto : crypto = C.state s) :
    Waits C s (.joined crypto : Member σ Text Bytes) where
  lower := le_rfl
  upper := hst
  crypto := hcrypto
  saved := by
    rintro store ⟨⟩
    rfl
  empty := rfl
  fresh _ _ := by simp [Member.joined, CommitSequencer.new]

/-- The store refuses to save any commit. -/
def full : Faults TermState Term :=
  ⟨fun _ _ => some (.persistence "database is full"), fun _ => false, none, none, none⟩

/-- The second commit comes first. The store refuses the first one when it comes, and both are
    merged when they come again. -/
theorem refusals_never_diverge_visit :
    Term.visitMls.epoch (deliver Term.visitMls "g" (deliverRefusing Term.visitMls "g"
      (.joined Term.host) [(.none, some ⟨2, .remove "b"⟩), (full, some ⟨1, .add "b"⟩)])
      [some ⟨2, .remove "b"⟩, some ⟨1, .add "b"⟩]).crypto = some 3 := by
  have h₁ : Term.visit.Carries (some ⟨1, .add "b"⟩) 1 := ⟨by decide, by decide, rfl⟩
  have h₂ : Term.visit.Carries (some ⟨2, .remove "b"⟩) 2 := ⟨by decide, by decide, rfl⟩
  have hagain := (refusals_never_diverge "g" Term.visit (.joined Term.host)
    (.joined (by decide) rfl) [(.none, some ⟨2, .remove "b"⟩), (full, some ⟨1, .add "b"⟩)]
    (by simpa using ⟨⟨2, h₂⟩, ⟨1, h₁⟩⟩)).2.1 (by decide)
  refine (hagain.2.2.2.2 fun k hs ht => ?_).1
  interval_cases k
  · exact ⟨_, by simp, h₁⟩
  · exact ⟨_, by simp, h₂⟩

/-- The commits of 66 changes, the last one first. -/
def backlog : List (Option Term) := (List.range 66).reverse.map fun i => some ⟨1 + i, .add "b"⟩

/-- The implementation in which these are the genuine commits. -/
def backlogMls : Mls TermState (Option Term) Term String (List String) :=
  Term.mls (Term.commits 1 (List.replicate 66 (.add "b")))

/-- The buffer has room for 64 commits. Of 66 that come in reverse, the second one finds it full,
    and the store refuses the first one. When all of them come again, the second one finds no room
    again, so that the member has merged one commit and still has a full buffer. Without the
    refusal, it would have merged them all. -/
theorem refusals_diverge_past_cap :
    (deliver backlogMls "g" (deliverRefusing backlogMls "g" (.joined Term.host)
      (backlog.map fun x => (if x = some ⟨1, .add "b"⟩ then full else .none, x)))
      backlog).crypto.epoch = 2 ∧
    (deliver backlogMls "g" (deliverRefusing backlogMls "g" (.joined Term.host)
      (backlog.map fun x => (if x = some ⟨1, .add "b"⟩ then full else .none, x)))
      backlog).sequencer.buffered.size = 64 ∧
    (deliver backlogMls "g" (deliver backlogMls "g" (.joined Term.host) backlog)
      backlog).crypto.epoch = 67 := by
  refine ⟨?_, ?_, ?_⟩
  · decide +kernel
  · decide +kernel
  · decide +kernel

end Mosh.Group
