import Mosh.Library.Run
import Mosh.Group.Sequencing

/-!
# Delivering a chain of commits

The genuine commits of a group form a `Chain`: one for every epoch, each of
which stages in the state the ones before it lead to. Gossip delivers them in
any order and any number of times, in between commits that somebody made up.

* `deliver_any_order`: a member that receives every commit of a chain at least
  once, in any order, merges and logs every one of them exactly once and in
  epoch order;
* `absorbResyncCommits_recovers`: a replay that carries the missing commits in
  order brings a member forward, whatever was made up before and in between.

Both follow what the member's state says about the chain, a call at a time:
`InStep` for the first, `OnChain` for the second.
-/

namespace Mosh.Group

open Std (ExtTreeMap)

variable {σ Text Bytes Fp Tree : Type}

/-- The genuine commits of the epochs from `s` to `t`, and the states of a member
    that merges them: each commit stages in the state of its epoch, and leads to
    the next one. -/
structure Chain (mls : Mls σ Text Bytes Fp Tree) (s t : Nat) where
  state : Nat → σ
  commit : Nat → Bytes
  commitEpoch_commit {k : Nat} : s ≤ k → k < t → mls.commitEpoch (commit k) = .ok k
  epoch_state {k : Nat} : s ≤ k → k ≤ t → mls.epoch (state k) = some k
  stage_commit {k : Nat} : s ≤ k → k < t →
    ∃ staged, mls.stageMembership (state k) (commit k) = .ok staged ∧ staged.next = state (k + 1)

namespace Chain

variable {mls : Mls σ Text Bytes Fp Tree} {s t : Nat} (C : Chain mls s t)

/-- The text `x` is the commit of the chain for the epoch `k`. -/
def Carries (x : Text) (k : Nat) : Prop := s ≤ k ∧ k < t ∧ mls.decode x = .ok (C.commit k)

/-- The commits of the chain for the epochs from `a` to `b`. -/
def commits (a b : Nat) : List Bytes := (List.range' a (b - a)).map C.commit

/-- Nothing but the chain stages along it: every other commit is forged. -/
def OnlyGenuine : Prop :=
  ∀ k b staged, s ≤ k → k ≤ t → mls.stageMembership (C.state k) b = .ok staged →
    k < t ∧ b = C.commit k ∧ staged.next = C.state (k + 1)

variable {C} {x : Text} {a b j k : Nat}

theorem Carries.wireEpoch (h : C.Carries x k) : mls.WireEpoch x k :=
  ⟨C.commit k, h.2.2, C.commitEpoch_commit h.1 h.2.1⟩

theorem Carries.unique (hj : C.Carries x j) (hk : C.Carries x k) : j = k :=
  hj.wireEpoch.unique hk.wireEpoch

theorem range'_succ_right (h : a ≤ b) :
    List.range' a (b + 1 - a) = List.range' a (b - a) ++ [b] := by
  have hb : a + 1 * (b - a) = b := by omega
  rw [show b + 1 - a = b - a + 1 by omega, List.range'_concat, hb]

theorem commits_succ (h : a ≤ b) : C.commits a (b + 1) = C.commits a b ++ [C.commit b] := by
  rw [commits, commits, range'_succ_right h, List.map_append, List.map_singleton]

theorem commits_self : C.commits a a = [] := by simp [commits]

theorem commits_eq_append (hab : a ≤ b) (hbk : b ≤ k) :
    C.commits a k = C.commits a b ++ C.commits b k := by
  induction k, hbk using Nat.le_induction with
  | base => rw [commits_self, List.append_nil]
  | succ k hbk ih =>
    rw [commits_succ (hab.trans hbk), ih, commits_succ hbk, List.append_assoc]

theorem commits_eq_cons (h : a < b) : C.commits a b = C.commit a :: C.commits (a + 1) b := by
  rw [commits, show b - a = b - (a + 1) + 1 by omega, List.range'_succ, List.map_cons]
  rfl

theorem commits_eq_nil (h : b ≤ a) : C.commits a b = [] := by
  rw [commits, Nat.sub_eq_zero_of_le h, List.range'_zero, List.map_nil]

/-- The first commit of a part of the chain. -/
theorem eq_commit_of_cons_prefix {c : Bytes} {rest : List Bytes}
    (h : c :: rest <+: C.commits a b) : a < b ∧ c = C.commit a ∧ rest <+: C.commits (a + 1) b := by
  rcases Nat.lt_or_ge a b with hlt | hle
  · rw [commits_eq_cons hlt, List.cons_prefix_cons] at h
    exact ⟨hlt, h⟩
  · rw [commits_eq_nil hle] at h
    exact absurd (List.prefix_nil.1 h) (by simp)

end Chain

/-! ## Chains of symbolic commits -/

namespace Term

/-- The commits for a list of changes, the first one at the epoch `s`. -/
def commits (s : Nat) (changes : List TreeChange) : List Term :=
  changes.mapIdx fun i change => ⟨s + i, change⟩

variable {x : TermState} {changes : List TreeChange}

theorem epoch_foldl_advance : (changes.foldl advance x).epoch = x.epoch + changes.length := by
  induction changes generalizing x with
  | nil => rfl
  | cons change changes ih =>
    rw [List.foldl_cons, ih, List.length_cons]
    simp only [advance]
    omega

theorem mem_commits {s : Nat} {b : Term} :
    b ∈ commits s changes ↔ ∃ i, ∃ h : i < changes.length, ⟨s + i, changes[i]⟩ = b := by
  simp [commits, List.mem_mapIdx]

variable (x changes) in
/-- Every list of changes gives a chain, from any state on. -/
def chain : Chain (mls (commits x.epoch changes)) x.epoch (x.epoch + changes.length) where
  state k := (changes.take (k - x.epoch)).foldl advance x
  commit k := ⟨k, changes[k - x.epoch]?.getD (.add "")⟩
  commitEpoch_commit _ _ := rfl
  epoch_state {k} hs ht := by
    change some _ = some k
    rw [epoch_foldl_advance, List.length_take, Option.some.injEq]
    omega
  stage_commit {k} hs ht := by
    have hi : k - x.epoch < changes.length := by omega
    have hepoch : ((changes.take (k - x.epoch)).foldl advance x).epoch = k := by
      rw [epoch_foldl_advance, List.length_take]
      omega
    have hmem : (⟨k, changes[k - x.epoch]?.getD (.add "")⟩ : Term) ∈ commits x.epoch changes :=
      mem_commits.2 ⟨k - x.epoch, hi, by simp [hi]; omega⟩
    refine ⟨_, if_pos ⟨hmem, hepoch.symm⟩, ?_⟩
    rw [show k + 1 - x.epoch = k - x.epoch + 1 by omega, List.take_add_one, List.foldl_append]
    simp [hi]

/-- Nothing else stages along it. -/
theorem chain_onlyGenuine : (chain x changes).OnlyGenuine := by
  intro k b staged hs ht hstage
  obtain ⟨hmem, hb, hnext⟩ := stage_eq_ok hstage
  have hepoch : ((chain x changes).state k).epoch = k := by
    simpa [mls] using (chain x changes).epoch_state hs ht
  obtain ⟨i, hi, rfl⟩ := mem_commits.1 hmem
  obtain rfl : x.epoch + i = k := hb.trans hepoch
  have hlt : x.epoch + i < x.epoch + changes.length := by omega
  have hcommit : (⟨x.epoch + i, changes[i]⟩ : Term) = (chain x changes).commit (x.epoch + i) := by
    simp [chain, hi]
  refine ⟨hlt, hcommit, ?_⟩
  obtain ⟨staged', hstage', hnext'⟩ := (chain x changes).stage_commit hs hlt
  rw [← hcommit] at hstage'
  rw [Except.ok.inj (hstage.symm.trans hstage')]
  exact hnext'

/-- The member `a` of a group with `c`. -/
def host : TermState := ⟨1, ["a", "c"], "a"⟩

/-- The member `b` joins them and leaves again. -/
def visitMls : Mls TermState (Option Term) Term String (List String) :=
  mls (commits 1 [.add "b", .remove "b"])

/-- The two commits of the visit. -/
def visit : Chain visitMls 1 3 := chain host [.add "b", .remove "b"]

end Term

variable [DecidableEq Text] {mls : Mls σ Text Bytes Fp Tree} {groupId : String} {s t : Nat}

/-! ## Any order, any repetition -/

section Deliver

variable {C : Chain mls s t} {m₀ m : Member σ Text Bytes} {e k : Nat} {x : Text} {rs xs : List Text}

variable (mls groupId) in
/-- The member after the commits `xs` were delivered to it, with storage that
    refuses nothing. -/
def deliver (m : Member σ Text Bytes) (xs : List Text) : Member σ Text Bytes :=
  xs.foldl (fun m x => (sequenceCommit mls .none groupId m x).2) m

/-- The member `m`, which was `m₀` at the epoch `s`, has merged and logged the chain
    up to the epoch `e`, and holds what it received of the rest (`rs`) in its buffer. -/
structure InStep (C : Chain mls s t) (m₀ m : Member σ Text Bytes) (e : Nat)
    (rs : List Text) : Prop where
  lower : s ≤ e
  upper : e ≤ t
  crypto : m.crypto = C.state e
  merged : m.merged = m₀.merged ++ C.commits s e
  logged : m.persistence.map GroupStore.commitLog =
    m₀.persistence.map fun store =>
      store.commitLog ++ (List.range' s (e - s)).map fun k => (k, C.commit k)
  buffered {k : Nat} {x : Text} : m.sequencer.peekReady k = some x → e ≤ k ∧ C.Carries x k
  held {k : Nat} {x : Text} : x ∈ rs → C.Carries x k → e ≤ k → m.sequencer.Buffers k
  fresh {k : Nat} {x : Text} : C.Carries x k → e ≤ k → x ∉ m.sequencer.applied

namespace InStep

omit [DecidableEq Text] in
theorem epoch (h : InStep C m₀ m e rs) : mls.epoch m.crypto = some e := by
  rw [h.crypto, C.epoch_state h.lower h.upper]

omit [DecidableEq Text] in
/-- A commit that was received and is merged or held. -/
theorem receive (h : InStep C m₀ m e rs)
    (hx : ∀ k, C.Carries x k → e ≤ k → m.sequencer.Buffers k) : InStep C m₀ m e (x :: rs) :=
  { h with
    held := fun hy hc hk => by
      rcases List.mem_cons.1 hy with rfl | hy
      · exact hx _ hc hk
      · exact h.held hy hc hk }

/-- The commit of the current epoch is settled. -/
theorem settle (hid : '/' ∉ groupId.toList) (h : InStep C m₀ m e rs) (hx : C.Carries x e) :
    ∃ m', Group.settle mls .none groupId m e x (C.commit e) = .ok m' ∧
      InStep C m₀ m' (e + 1) rs := by
  obtain ⟨staged, hstage, hnext⟩ := C.stage_commit h.lower hx.2.1
  rw [← h.crypto] at hstage
  obtain ⟨store, hsettle, hlog⟩ :=
    settle_quiet groupId x e (fun _ _ => rfl : ∀ x b, Faults.none.admission x b = none) hstage
  refine ⟨_, hsettle, ?_⟩
  refine
    { lower := h.lower.trans e.le_succ
      upper := hx.2.1
      crypto := hnext
      merged := ?_
      logged := ?_
      buffered := ?_
      held := ?_
      fresh := ?_ }
  · rw [h.merged, Chain.commits_succ h.lower, List.append_assoc]
  · have hlogged : (logGroupCommit Faults.none groupId store e (C.commit e)).map
        GroupStore.commitLog =
          (store.map GroupStore.commitLog).map (· ++ [(e, C.commit e)]) := by
      cases store <;> simp [logGroupCommit, Faults.none, hid]
    rw [hlogged, hlog, h.logged, Option.map_map, Chain.range'_succ_right h.lower]
    simp [Function.comp_def]
  · intro k y hy
    rw [CommitSequencer.peekReady_confirm, CommitSequencer.peekReady_drainReady] at hy
    split at hy
    · cases hy
    · obtain ⟨hle, hcar⟩ := h.buffered hy
      exact ⟨by omega, hcar⟩
  · intro k y hy hcar hk
    rw [CommitSequencer.buffers_confirm, CommitSequencer.buffers_drainReady]
    exact ⟨by omega, h.held hy hcar (by omega)⟩
  · intro k y hcar hk
    rw [CommitSequencer.mem_applied_confirm]
    rintro (rfl | hy)
    · have := hcar.unique hx
      omega
    · exact h.fresh hcar (by omega) hy

/-- Draining ends in front of the first commit that was not received. -/
theorem drainLoop (hid : '/' ∉ groupId.toList) {turns : Nat} (h : InStep C m₀ m e rs)
    (hsize : m.sequencer.buffered.size ≤ turns) :
    ∃ m' e', Group.drainLoop mls .none groupId turns m = (.ok (), m') ∧
      InStep C m₀ m' e' rs ∧ m'.sequencer.peekReady e' = none := by
  induction turns generalizing m e with
  | zero =>
    refine ⟨m, e, rfl, h, CommitSequencer.not_buffers_iff.1 fun hb => ?_⟩
    obtain ⟨x, hx⟩ := CommitSequencer.buffers_iff.1 hb
    have := CommitSequencer.size_drainReady hx
    omega
  | succ turns ih =>
    cases hp : m.sequencer.peekReady e with
    | none => exact ⟨m, e, drainLoop_of_peekReady_eq_none h.epoch hp, h, hp⟩
    | some x =>
      obtain ⟨-, hcar⟩ := h.buffered hp
      obtain ⟨m₁, hsettle, h₁⟩ := h.settle hid hcar
      have hsize₁ : m₁.sequencer.buffered.size ≤ turns := by
        obtain ⟨staged, store, -, -, rfl⟩ := settle_eq_ok hsettle
        have := CommitSequencer.size_drainReady hp
        change (m.sequencer.drainReady e).buffered.size ≤ turns
        omega
      rw [drainLoop_of_settle h.epoch hp hcar.2.2 hsettle]
      exact ih h₁ hsize₁

omit [DecidableEq Text] in
/-- At the end of the chain nothing is buffered. -/
theorem not_buffers (h : InStep C m₀ m t rs) (k : Nat) : ¬m.sequencer.Buffers k := by
  rw [CommitSequencer.buffers_iff]
  rintro ⟨x, hx⟩
  obtain ⟨hle, -, hlt, -⟩ := h.buffered hx
  omega

theorem drainAndReport (hid : '/' ∉ groupId.toList) (h : InStep C m₀ m e rs) :
    ∃ m' e' o, Group.drainAndReport mls .none groupId m = (.ok o, m') ∧
      InStep C m₀ m' e' rs ∧ m'.sequencer.peekReady e' = none ∧ (e' = t → o = .done) := by
  obtain ⟨m', e', hdrain, h', hp⟩ := h.drainLoop hid le_rfl
  refine ⟨m', e', _, by rw [Group.drainAndReport, hdrain], h', hp, ?_⟩
  rintro rfl
  refine if_neg fun hstuck => ?_
  rw [stuck, h'.epoch, Option.any_some, CommitSequencer.gap_iff] at hstuck
  obtain ⟨⟨k, hk⟩, -⟩ := hstuck
  exact h'.not_buffers k hk

omit [DecidableEq Text] in
/-- The commits that are still missing fit into the buffer. -/
theorem size_lt (hlen : t - s ≤ bufferCap) (h : InStep C m₀ m e rs) (het : e < t)
    (hp : m.sequencer.peekReady e = none) : m.sequencer.buffered.size < bufferCap := by
  have hmem : ∀ k, m.sequencer.Buffers k → k ∈ Finset.Ioo e t := by
    intro k hk
    obtain ⟨x, hx⟩ := CommitSequencer.buffers_iff.1 hk
    obtain ⟨hle, -, hlt, -⟩ := h.buffered hx
    have hne : k ≠ e := by
      rintro rfl
      exact absurd (hp.symm.trans hx) (by simp)
    exact Finset.mem_Ioo.2 ⟨by omega, hlt⟩
  have hcard := CommitSequencer.size_buffered_le hmem
  rw [Nat.card_Ioo] at hcard
  have := h.lower
  omega

omit [DecidableEq Text] in
/-- A commit of the chain is held in the buffer. -/
theorem hold (h : InStep C m₀ m e rs) (hx : C.Carries x k) (hle : e ≤ k) :
    InStep C m₀ { m with sequencer :=
      { m.sequencer with buffered := m.sequencer.buffered.insert k x } } e (x :: rs) := by
  have hpeek : ∀ {j : Nat}, ({ m.sequencer with
      buffered := m.sequencer.buffered.insert k x } : CommitSequencer Text).peekReady j =
        if k = j then some x else m.sequencer.peekReady j := CommitSequencer.peekReady_insert
  refine
    { lower := h.lower, upper := h.upper, crypto := h.crypto, merged := h.merged
      logged := h.logged, buffered := ?_, held := ?_, fresh := h.fresh }
  · intro j y hy
    rw [hpeek] at hy
    split at hy
    · next hkj =>
      obtain rfl := hkj
      obtain rfl := Option.some.inj hy
      exact ⟨hle, hx⟩
    · exact h.buffered hy
  · intro j y hy hcar hle'
    rw [CommitSequencer.buffers_iff, hpeek]
    split
    · exact ⟨x, rfl⟩
    · next hkj =>
      rcases List.mem_cons.1 hy with rfl | hy
      · exact absurd (hx.unique hcar) hkj
      · exact CommitSequencer.buffers_iff.1 (h.held hy hcar hle')

/-- A call for a commit of the chain is not cut short. -/
theorem not_cut (hid : '/' ∉ groupId.toList) (h : InStep C m₀ m e rs) (hx : C.Carries x k) :
    ¬Cut mls .none groupId m x := by
  rintro (habsent | hmal | ⟨hc, hd, hw, -, hrefused⟩)
  · exact absurd (habsent.symm.trans h.epoch) (by simp)
  · exact hmal k hx.wireEpoch
  · rename_i current bytes
    obtain rfl : e = current := Option.some.inj (h.epoch.symm.trans hc)
    obtain rfl : k = e := hx.wireEpoch.unique ⟨bytes, hd, hw⟩
    obtain rfl : C.commit k = bytes := Except.ok.inj (hx.2.2.symm.trans hd)
    obtain ⟨m', hs, -⟩ := h.settle hid hx
    exact hrefused m' hs

/-- The call for a commit of the chain. -/
theorem sequenceCommit (hid : '/' ∉ groupId.toList) (hlen : t - s ≤ bufferCap)
    (h : InStep C m₀ m e rs) (hp : m.sequencer.peekReady e = none) (hx : C.Carries x k) :
    ∃ m' e' o, Group.sequenceCommit mls .none groupId m x = (.ok o, m') ∧
      InStep C m₀ m' e' (x :: rs) ∧ m'.sequencer.peekReady e' = none ∧
      (e' = t → o = .done) := by
  rcases sequenceCommit_cases mls .none groupId m x with ⟨hcut, -⟩ |
    ⟨current, bytes, wire, m₁, hc, hd, hw, hcall, hm₁⟩
  · -- The commits of the chain are well formed and stage, so no call is cut short.
    exact absurd hcut (h.not_cut hid hx)
  obtain rfl : e = current := Option.some.inj (h.epoch.symm.trans hc)
  obtain rfl : k = wire := hx.wireEpoch.unique ⟨bytes, hd, hw⟩
  obtain rfl : C.commit k = bytes := Except.ok.inj (hx.2.2.symm.trans hd)
  rw [hcall]
  rcases hm₁ with ⟨rfl, hold⟩ | ⟨rfl, -, hs⟩ | ⟨rfl, -, hlt, hfull⟩ | ⟨-, hlt, -, -, rfl⟩
  · refine (h.receive fun j hj hle => ?_).drainAndReport hid
    obtain rfl := hj.unique hx
    rcases hold with hold | hold
    · exact absurd hold (h.fresh hj hle)
    · omega
  · obtain ⟨m', hs', h'⟩ := h.settle hid hx
    obtain rfl : m₁ = m' := Except.ok.inj (hs.symm.trans hs')
    refine (h'.receive fun j hj hle => ?_).drainAndReport hid
    have := hj.unique hx
    omega
  · refine (h.receive fun j hj _ => ?_).drainAndReport hid
    obtain rfl := hj.unique hx
    rcases hfull with hb | hfull
    · exact hb
    · have := h.size_lt hlen (hlt.trans hx.2.1) hp
      omega
  · exact (h.hold hx hlt.le).drainAndReport hid

/-- Delivering commits of the chain keeps the member in step. -/
theorem deliver (hid : '/' ∉ groupId.toList) (hlen : t - s ≤ bufferCap)
    (h : InStep C m₀ m e rs) (hp : m.sequencer.peekReady e = none)
    (hxs : ∀ x ∈ xs, ∃ k, C.Carries x k) :
    ∃ e' rs', InStep C m₀ (deliver mls groupId m xs) e' rs' ∧
      (∀ x, x ∈ rs' ↔ x ∈ xs ∨ x ∈ rs) ∧
      (deliver mls groupId m xs).sequencer.peekReady e' = none := by
  induction xs generalizing m e rs with
  | nil => exact ⟨e, rs, h, by simp, hp⟩
  | cons x xs ih =>
    obtain ⟨k, hk⟩ := hxs x List.mem_cons_self
    obtain ⟨m₁, e₁, o, hcall, h₁, hp₁, -⟩ := h.sequenceCommit hid hlen hp hk
    obtain ⟨e', rs', h', hmem, hp'⟩ := ih h₁ hp₁ fun y hy => hxs y (List.mem_cons_of_mem _ hy)
    have hstep : Group.deliver mls groupId m (x :: xs) = Group.deliver mls groupId m₁ xs := by
      rw [Group.deliver, List.foldl_cons, hcall]
      rfl
    rw [hstep]
    refine ⟨e', rs', h', fun y => ?_, hp'⟩
    rw [hmem, List.mem_cons, List.mem_cons]
    tauto

end InStep

/-- Commit delivery does not depend on the order. Let a member at the epoch `s`
    receive commits of the chain, every one of them at least once, in any order
    and with any repetitions, with storage that refuses nothing. Then every call
    returns normally, and the one that completes the chain without a gap; the
    member ends at the epoch `t`, has merged and logged every commit exactly once
    and in epoch order, and its buffer is empty. -/
theorem deliver_any_order (C : Chain mls s t) (hlen : t - s ≤ 64) (hid : '/' ∉ groupId.toList)
    (m : Member σ Text Bytes) (store : GroupStore σ Bytes) (hcrypto : m.crypto = C.state s)
    (hst : s ≤ t) (hstore : m.persistence = some store) (hempty : m.sequencer.buffered = ∅)
    (hfresh : ∀ x k, C.Carries x k → x ∉ m.sequencer.applied)
    (xs : List Text) (hxs : ∀ x ∈ xs, ∃ k, C.Carries x k)
    (hall : ∀ k, s ≤ k → k < t → ∃ x ∈ xs, C.Carries x k) :
    (∀ pre x post, xs = pre ++ x :: post →
      ∃ o, (sequenceCommit mls .none groupId (deliver mls groupId m pre) x).1 = .ok o ∧
        (mls.epoch (deliver mls groupId m (pre ++ [x])).crypto = some t → o = .done)) ∧
    mls.epoch (deliver mls groupId m xs).crypto = some t ∧
    (deliver mls groupId m xs).merged = m.merged ++ (List.range' s (t - s)).map C.commit ∧
    (deliver mls groupId m xs).persistence.map GroupStore.commitLog =
      some (store.commitLog ++ (List.range' s (t - s)).map fun k => (k, C.commit k)) ∧
    (deliver mls groupId m xs).sequencer.buffered = ∅ := by
  have hnone : ∀ k, m.sequencer.peekReady k = none := fun k => by
    simp [CommitSequencer.peekReady, hempty]
  have hstart : InStep C m m s [] :=
    { lower := le_rfl
      upper := hst
      crypto := hcrypto
      merged := by simp [Chain.commits_self]
      logged := by simp
      buffered := fun hx => absurd ((hnone _).symm.trans hx) (by simp)
      held := fun hx => absurd hx List.not_mem_nil
      fresh := fun hx _ => hfresh _ _ hx }
  refine ⟨fun pre x post hsplit => ?_, ?_⟩
  · obtain ⟨e, rs, h, -, hp⟩ := hstart.deliver hid hlen (hnone s) fun y (hy : y ∈ pre) =>
      hxs y (hsplit ▸ List.mem_append_left _ hy)
    obtain ⟨k, hk⟩ := hxs x (hsplit ▸ by simp)
    obtain ⟨m', e', o, hcall, h', -, hdone⟩ := h.sequenceCommit hid hlen hp hk
    refine ⟨o, by rw [hcall], fun hepoch => hdone ?_⟩
    have hm' : deliver mls groupId m (pre ++ [x]) = m' := by
      rw [deliver, List.foldl_append, List.foldl_cons, List.foldl_nil]
      change (sequenceCommit mls .none groupId (deliver mls groupId m pre) x).2 = m'
      rw [hcall]
    rw [hm', h'.epoch] at hepoch
    exact Option.some.inj hepoch
  · obtain ⟨e, rs, h, hmem, hp⟩ := hstart.deliver hid hlen (hnone s) hxs
    have he : e = t := by
      by_contra hne
      obtain ⟨x, hx, hcar⟩ := hall e h.lower (lt_of_le_of_ne h.upper hne)
      have hb := h.held ((hmem x).2 (.inl hx)) hcar le_rfl
      exact CommitSequencer.not_buffers_iff.2 hp hb
    subst he
    refine ⟨h.epoch, h.merged, ?_, CommitSequencer.buffered_eq_empty h.not_buffers⟩
    rw [h.logged, hstore, Option.map_some]

/-- Two commits that arrive in the wrong order, one of them twice. -/
theorem deliver_any_order_swapped :
    let m := deliver Term.visitMls "g" (.joined Term.host)
      [some ⟨2, .remove "b"⟩, some ⟨1, .add "b"⟩, some ⟨2, .remove "b"⟩]
    Term.visitMls.epoch m.crypto = some 3 ∧
      m.merged = [⟨1, .add "b"⟩, ⟨2, .remove "b"⟩] ∧ m.sequencer.buffered = ∅ := by
  have h₁ : Term.visit.Carries (some ⟨1, .add "b"⟩) 1 := ⟨by decide, by decide, rfl⟩
  have h₂ : Term.visit.Carries (some ⟨2, .remove "b"⟩) 2 := ⟨by decide, by decide, rfl⟩
  have hall : ∀ k, 1 ≤ k → k < 3 → ∃ x ∈ [some ⟨2, .remove "b"⟩, some ⟨1, .add "b"⟩,
      some ⟨2, .remove "b"⟩], Term.visit.Carries x k := by
    intro k hs ht
    interval_cases k
    · exact ⟨_, by simp, h₁⟩
    · exact ⟨_, by simp, h₂⟩
  obtain ⟨-, hepoch, hmerged, -, hempty⟩ :=
    deliver_any_order Term.visit (by decide) (by decide : '/' ∉ "g".toList) (.joined Term.host) _
      rfl (by decide) rfl rfl (fun _ _ _ => by simp [Member.joined, CommitSequencer.new]) _
      (by simpa using ⟨⟨2, h₂⟩, ⟨1, h₁⟩, ⟨2, h₂⟩⟩) hall
  exact ⟨hepoch, hmerged, hempty⟩

end Deliver

/-! ## Forged commits -/

section Recover

variable {C : Chain mls s t} {m₀ m m' : Member σ Text Bytes} {faults : Faults σ Bytes}
  {E T e : Nat} {text : Text}

/-- The member `m`, which was `m₀` at the epoch `E`, has merged the genuine commits
    up to the epoch `e` and nothing else. Those from the epoch `T` on were buffered
    in `m₀` already. -/
structure OnChain (C : Chain mls s t) (E T : Nat) (m₀ m : Member σ Text Bytes) (e : Nat) :
    Prop where
  lower : E ≤ e
  upper : e ≤ t
  crypto : m.crypto = C.state e
  merged : m.merged = m₀.merged ++ C.commits E e
  old {k : Nat} {x : Text} : x ∈ m.sequencer.applied → mls.WireEpoch x k → k < e
  ahead {k : Nat} {x : Text} : T ≤ k → m.sequencer.peekReady k = some x → C.Carries x k →
    m₀.sequencer.peekReady k = some x
  beyond {k : Nat} : T ≤ k → k < e → ∃ x, m₀.sequencer.peekReady k = some x ∧ C.Carries x k

namespace OnChain

omit [DecidableEq Text] in
theorem epoch (hs : s ≤ E) (h : OnChain C E T m₀ m e) : mls.epoch m.crypto = some e := by
  rw [h.crypto, C.epoch_state (hs.trans h.lower) h.upper]

omit [DecidableEq Text] in
/-- Counting starts anew. -/
theorem restart (h : OnChain C s t m₀ m E) (hET : E ≤ T) : OnChain C E T m m E :=
  { lower := le_rfl
    upper := h.upper
    crypto := h.crypto
    merged := by rw [Chain.commits_self, List.append_nil]
    old := h.old
    ahead := fun _ hx _ => hx
    beyond := fun hk hlt => absurd hk (by omega) }

/-- A settled commit is the genuine one of the current epoch. -/
theorem settled (hgen : C.OnlyGenuine) (hs : s ≤ E) (h : OnChain C E T m₀ m e) {next : Text}
    {bytes : Bytes} (hd : mls.decode next = .ok bytes)
    (hbefore : T ≤ e → C.Carries next e → m₀.sequencer.peekReady e = some next)
    (hsettle : settle mls faults groupId m e next bytes = .ok m') :
    OnChain C E T m₀ m' (e + 1) := by
  obtain ⟨staged, store, hstage, -, rfl⟩ := settle_eq_ok hsettle
  rw [h.crypto] at hstage
  have hse : s ≤ e := hs.trans h.lower
  obtain ⟨het, rfl, hnext⟩ := hgen e bytes staged hse h.upper hstage
  have hcar : C.Carries next e := ⟨hse, het, hd⟩
  refine
    { lower := h.lower.trans e.le_succ
      upper := het
      crypto := hnext
      merged := ?_
      old := ?_
      ahead := ?_
      beyond := ?_ }
  · rw [h.merged, Chain.commits_succ h.lower, List.append_assoc]
  · intro k x hx hk
    rcases CommitSequencer.mem_applied_confirm.1 hx with rfl | hx
    · have := hcar.wireEpoch.unique hk
      omega
    · have := h.old hx hk
      omega
  · intro k x hTk hx hk
    rw [CommitSequencer.peekReady_confirm, CommitSequencer.peekReady_drainReady] at hx
    split at hx
    · cases hx
    · exact h.ahead hTk hx hk
  · intro k hTk hk
    rcases Nat.lt_succ_iff_lt_or_eq.1 hk with hk | rfl
    · exact h.beyond hTk hk
    · exact ⟨next, hbefore hTk hcar, hcar⟩

/-- A move of a call keeps the member on the chain, and never moves it back. -/
theorem move (hgen : C.OnlyGenuine) (hs : s ≤ E) (htext : ∀ k, C.Carries text k → k < T)
    (h : OnChain C E T m₀ m e) (hmove : Move mls faults groupId text m m') :
    ∃ e', e ≤ e' ∧ OnChain C E T m₀ m' e' := by
  cases hmove with
  | @buffer _ wire _ _ _ hb _ =>
    refine ⟨e, le_rfl, { h with ahead := fun {k x} hTk hx hk => ?_ }⟩
    rw [CommitSequencer.peekReady_insert] at hx
    split at hx
    · obtain rfl := Option.some.inj hx
      exact absurd (htext k hk) (by omega)
    · exact h.ahead hTk hx hk
  | settle hc hd hfrom hsettle =>
    rename_i current next bytes
    obtain rfl : e = current := Option.some.inj ((h.epoch hs).symm.trans hc)
    refine ⟨e + 1, e.le_succ, h.settled hgen hs hd (fun hTe hcar => ?_) hsettle⟩
    rcases hfrom with ⟨rfl, -, -⟩ | hp
    · exact absurd (htext e hcar) (by omega)
    · exact h.ahead hTe hp hcar

variable (faults groupId) in
/-- A call keeps the member on the chain, and never moves it back. -/
theorem call (hgen : C.OnlyGenuine) (hs : s ≤ E) (htext : ∀ k, C.Carries text k → k < T)
    (h : OnChain C E T m₀ m e) :
    ∃ e', e ≤ e' ∧ OnChain C E T m₀ (sequenceCommit mls faults groupId m text).2 e' := by
  refine sequenceCommit_invariant (P := fun m => ∃ e', e ≤ e' ∧ OnChain C E T m₀ m e') ?_
    ⟨e, le_rfl, h⟩
  rintro m m' hmove ⟨e₁, hle, h₁⟩
  obtain ⟨e₂, hle₂, h₂⟩ := h₁.move hgen hs htext hmove
  exact ⟨e₂, hle.trans hle₂, h₂⟩

/-- The genuine commit of the current epoch is merged, whatever is buffered. -/
theorem call_genuine (hgen : C.OnlyGenuine) (hs : s ≤ E) (htext : ∀ k, C.Carries text k → k < T)
    (hquiet : ∀ x b, faults.admission x b = none) (h : OnChain C E T m₀ m e)
    (hcar : C.Carries text e) :
    ∃ e', e < e' ∧ OnChain C E T m₀ (sequenceCommit mls faults groupId m text).2 e' := by
  obtain ⟨staged, hstage, -⟩ := C.stage_commit hcar.1 hcar.2.1
  rw [← h.crypto] at hstage
  obtain ⟨store, hsettle, -⟩ := settle_quiet groupId text e hquiet hstage
  have hfresh : text ∉ m.sequencer.applied := fun hx =>
    absurd (h.old hx hcar.wireEpoch) (lt_irrefl e)
  have h₁ := h.settled hgen hs hcar.2.2 (fun hTe hk => absurd (htext e hk) (by omega)) hsettle
  rw [sequenceCommit_of_settle (h.epoch hs) hcar.2.2 (C.commitEpoch_commit hcar.1 hcar.2.1) hfresh
    hsettle]
  -- Draining only moves on from there.
  refine drainAndReport_invariant text (P := fun m => ∃ e', e < e' ∧ OnChain C E T m₀ m e') ?_
    ⟨e + 1, e.lt_succ_self, h₁⟩
  rintro m₁ m₂ hmove ⟨e₁, hlt, h'⟩
  obtain ⟨e₂, hle, h''⟩ := h'.move hgen hs htext hmove
  exact ⟨e₂, hlt.trans_le hle, h''⟩

variable (groupId) in
/-- A replay that carries the genuine commits from the current epoch on, in order. -/
theorem replay (hgen : C.OnlyGenuine) (hs : s ≤ E)
    {commits replay : List (Faults σ Bytes × ResyncCommit Text)} {n lo : Nat}
    (hsub : replay.Sublist commits)
    (hreplay : List.Forall₂ (fun entry k => C.Carries entry.2.commitB64 k) replay
      (List.range' lo n))
    (hquiet : ∀ entry ∈ commits, ∀ x b, entry.1.admission x b = none)
    (hforged : ∀ entry ∈ commits, ∀ k, C.Carries entry.2.commitB64 k → k < T)
    (h : OnChain C E T m₀ m e) (hlo : lo ≤ e) :
    ∃ e', lo + n ≤ e' ∧ OnChain C E T m₀ (absorbResyncCommits mls groupId m commits).2 e' := by
  change ∃ e', lo + n ≤ e' ∧ OnChain C E T m₀ (commits.foldl _ m) e'
  -- Along the replay, what was merged never falls behind what was replayed.
  induction hsub generalizing m e lo n with
  | slnil =>
    cases n with
    | zero => exact ⟨e, hlo, h⟩
    | succ n => rw [List.range'_succ] at hreplay; cases hreplay
  | cons entry _ ih =>
    obtain ⟨e₁, hle, h₁⟩ := h.call groupId entry.1 hgen hs (hforged entry List.mem_cons_self)
    exact ih hreplay (fun y hy => hquiet y (List.mem_cons_of_mem _ hy))
      (fun y hy => hforged y (List.mem_cons_of_mem _ hy)) h₁ (hlo.trans hle)
  | cons_cons entry _ ih =>
    cases n with
    | zero => cases hreplay
    | succ n =>
      rw [List.range'_succ] at hreplay
      obtain ⟨hcar, hrest⟩ := List.forall₂_cons.1 hreplay
      have hnext : ∃ e₁, lo + 1 ≤ e₁ ∧
          OnChain C E T m₀ (sequenceCommit mls entry.1 groupId m entry.2.commitB64).2 e₁ := by
        rcases hlo.eq_or_lt with rfl | hlt
        · exact h.call_genuine hgen hs (hforged entry List.mem_cons_self)
            (hquiet entry List.mem_cons_self) hcar
        · obtain ⟨e₁, hle, h₁⟩ := h.call groupId entry.1 hgen hs
            (hforged entry List.mem_cons_self)
          exact ⟨e₁, by omega, h₁⟩
      obtain ⟨e₁, hle, h₁⟩ := hnext
      obtain ⟨e', hle', h'⟩ := ih hrest (fun y hy => hquiet y (List.mem_cons_of_mem _ hy))
        (fun y hy => hforged y (List.mem_cons_of_mem _ hy)) h₁ hle
      exact ⟨e', by omega, h'⟩

end OnChain

variable (groupId) in
/-- Forged commits cannot block recovery. Let a member that started with a new
    sequencer have received any commits, genuine or forged, with storage that may
    have refused any of them. If it is at the epoch `E`, and a replay carries the
    genuine commits from `E` up to `T` in order, among any entries that are forged,
    malformed or stale, then the member merges exactly these, and after them those
    genuine ones that follow and were in its buffer before. -/
theorem absorbResyncCommits_recovers (C : Chain mls s t) (hgen : C.OnlyGenuine) (hst : s ≤ t)
    (m₀ m : Member σ Text Bytes) (hcrypto : m₀.crypto = C.state s)
    (hnew : m₀.sequencer = .new) (calls : List (Faults σ Bytes × Text))
    (hrun : Run.Runs (fun m call => (sequenceCommit mls call.1 groupId m call.2).2)
      (fun _ _ => True) m₀ calls m)
    (E T : Nat) (hE : mls.epoch m.crypto = some E) (hET : E ≤ T)
    (commits replay : List (Faults σ Bytes × ResyncCommit Text))
    (hquiet : ∀ entry ∈ commits, ∀ x b, entry.1.admission x b = none)
    (hsub : replay.Sublist commits)
    (hreplay : List.Forall₂ (fun entry k => C.Carries entry.2.commitB64 k) replay
      (List.range' E (T - E)))
    (hforged : ∀ entry ∈ commits, ∀ k, C.Carries entry.2.commitB64 k → k < T) :
    ∃ T', T ≤ T' ∧ mls.epoch (absorbResyncCommits mls groupId m commits).2.crypto = some T' ∧
      (absorbResyncCommits mls groupId m commits).2.merged = m.merged ++ C.commits E T' ∧
      ∀ k, T ≤ k → k < T' → ∃ x, m.sequencer.peekReady k = some x ∧ C.Carries x k := by
  have hstart : OnChain C s t m₀ m₀ s :=
    { lower := le_rfl
      upper := hst
      crypto := hcrypto
      merged := by rw [Chain.commits_self, List.append_nil]
      old := fun hx => by simp [hnew, CommitSequencer.new] at hx
      ahead := fun _ hx _ => hx
      beyond := fun hk hlt => absurd hk (by omega) }
  obtain ⟨e, h⟩ : ∃ e, OnChain C s t m₀ m e := by
    refine hrun.invariant (P := fun m => ∃ e, OnChain C s t m₀ m e) ?_ ⟨s, hstart⟩
    rintro m call - ⟨e, h⟩
    obtain ⟨e', -, h'⟩ := h.call groupId call.1 hgen le_rfl fun k hk => hk.2.1
    exact ⟨e', h'⟩
  obtain rfl : e = E := Option.some.inj ((h.epoch le_rfl).symm.trans hE)
  obtain ⟨T', hle, h'⟩ :=
    (h.restart hET).replay groupId hgen h.lower hsub hreplay hquiet hforged le_rfl
  exact ⟨T', by omega, h'.epoch h.lower, h'.merged, fun k hTk hk => h'.beyond hTk hk⟩

/-- A forged commit takes the place of the second genuine one in the buffer, and
    another one sits in the replay. -/
theorem absorbResyncCommits_recovers_buffered :
    let m := (sequenceCommit Term.visitMls .none "g" (.joined Term.host) (some ⟨2, .add "z"⟩)).2
    m.sequencer.peekReady 2 = some (some ⟨2, .add "z"⟩) ∧
      ∃ T', 3 ≤ T' ∧ Term.visitMls.epoch (absorbResyncCommits Term.visitMls "g" m
        [(.none, ⟨1, some ⟨1, .add "b"⟩⟩), (.none, ⟨2, some ⟨2, .add "y"⟩⟩),
          (.none, ⟨0, none⟩), (.none, ⟨2, some ⟨2, .remove "b"⟩⟩)]).2.crypto = some T' := by
  have h₁ : Term.visit.Carries (some ⟨1, .add "b"⟩) 1 := ⟨by decide, by decide, rfl⟩
  have h₂ : Term.visit.Carries (some ⟨2, .remove "b"⟩) 2 := ⟨by decide, by decide, rfl⟩
  obtain ⟨T', hle, hepoch, -, -⟩ :=
    absorbResyncCommits_recovers "g" Term.visit Term.chain_onlyGenuine (by decide)
      (.joined Term.host) _ rfl rfl [(.none, some ⟨2, .add "z"⟩)] (.single trivial) 1 3 (by decide +kernel) (by decide)
      [(.none, ⟨1, some ⟨1, .add "b"⟩⟩), (.none, ⟨2, some ⟨2, .add "y"⟩⟩), (.none, ⟨0, none⟩),
        (.none, ⟨2, some ⟨2, .remove "b"⟩⟩)]
      [(.none, ⟨1, some ⟨1, .add "b"⟩⟩), (.none, ⟨2, some ⟨2, .remove "b"⟩⟩)]
      (by simp [Faults.none])
      (.cons_cons _ (.cons _ (.cons _ (.refl _))))
      (.cons h₁ (.cons h₂ .nil))
      (fun entry _ k hk => hk.2.1)
  exact ⟨by decide +kernel, T', hle, hepoch⟩

end Recover

end Mosh.Group
