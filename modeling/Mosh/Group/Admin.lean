import Mosh.Library.Run
import Mosh.Library.Sampling
import Mosh.Group.Chain
import Mosh.Group.Session

/-!
# Who is the admin

No frame names the admin of a plain group. Every member derives it from the tree
(`reconcileAdmin`): while the admin holds a leaf it stays, and once it is gone the
lowest fingerprint takes over. It is derived once for every control frame, and a
frame may merge several commits: a replay does, and so does a commit that the
buffered ones were waiting for.

So the admin is a note that a member keeps of a changing tree, and looks at the
tree now and then (`Sampling`). `handleMossMessage_sample` says that a frame is one
such look. `admin_agreement_iff` says when members agree that merge the same
commits in different frames: exactly if looking is coherent along the commits.
It is not, for example, when the admin leaves and a member with a lower fingerprint
than its successor joins (`admin_disagreement`).
-/

namespace Mosh.Group

open Run (Runs)
open Sampling (sample Coherent)

variable {σ Text Bytes Fp Tree : Type} {mls : Mls σ Text Bytes Fp Tree} {faults : Faults σ Bytes}
  {groupId : String} {merge : Tree → Bytes → Tree} {m m₀ m' : Member σ Text Bytes}
  {g g' : GroupSession σ Text Bytes Fp} {text : Text}

/-! ## A frame is a look at the tree -/

/-- The member `m` came out of `m₀` by merging the commits it recorded since then. -/
def Merges (mls : Mls σ Text Bytes Fp Tree) (merge : Tree → Bytes → Tree)
    (m₀ m : Member σ Text Bytes) : Prop :=
  ∃ commits, m.merged = m₀.merged ++ commits ∧
    mls.tree m.crypto = commits.foldl merge (mls.tree m₀.crypto) ∧
    mls.fingerprint m.crypto = mls.fingerprint m₀.crypto

namespace Merges

theorem refl : Merges mls merge m m := ⟨[], by simp, rfl, rfl⟩

/-- One more commit. -/
theorem snoc {b : Bytes} (h : Merges mls merge m₀ m) (hmerged : m'.merged = m.merged ++ [b])
    (htree : mls.tree m'.crypto = merge (mls.tree m.crypto) b)
    (hfp : mls.fingerprint m'.crypto = mls.fingerprint m.crypto) : Merges mls merge m₀ m' := by
  obtain ⟨commits, hc, ht, hf⟩ := h
  refine ⟨commits ++ [b], ?_, ?_, hfp.trans hf⟩
  · rw [hmerged, hc, List.append_assoc]
  · rw [htree, ht, List.foldl_append, List.foldl_cons, List.foldl_nil]

theorem move [DecidableEq Text] (htree : mls.TreeLawful merge) (h : Merges mls merge m₀ m)
    (hmove : Move mls faults groupId text m m') : Merges mls merge m₀ m' := by
  cases hmove with
  | buffer => exact h
  | settle hc hd hfrom hs =>
    obtain ⟨staged, store, hstage, -, rfl⟩ := settle_eq_ok hs
    exact h.snoc rfl (htree.stage_tree hstage) (htree.stage_fingerprint hstage)

theorem overtaken (htree : mls.TreeLawful merge) (h : Merges mls merge m₀ g.member)
    (hover : Overtaken mls g g') : Merges mls merge m₀ g'.member := by
  rcases hover with ⟨hm, -⟩ | ⟨hy, hm, -⟩
  · rw [hm]
    exact h
  · rw [hm]
    cases hy with
    | author ha => exact h.snoc rfl (htree.author_tree ha) (htree.author_fingerprint ha)
    | stage hs hn =>
      subst hn
      exact h.snoc rfl (htree.stage_tree hs) (htree.stage_fingerprint hs)

end Merges

variable [LinearOrder Fp]

/-- The flag `isAdmin` is up exactly for the member whose fingerprint is the admin's. -/
def FlagRight (mls : Mls σ Text Bytes Fp Tree) (g : GroupSession σ Text Bytes Fp) : Prop :=
  g.isAdmin = true ↔ mls.fingerprint g.member.crypto = g.currentAdminFingerprint

theorem reconcileAdmin_look :
    (reconcileAdmin mls g).currentAdminFingerprint =
      look mls g.currentAdminFingerprint (mls.tree g.member.crypto) := by
  rw [reconcileAdmin, look, Mls.memberFingerprints]
  by_cases hmem : g.currentAdminFingerprint ∈ mls.leaves (mls.tree g.member.crypto)
  · rw [if_pos hmem, if_pos hmem]
  · rw [if_neg hmem, if_neg hmem]
    split <;> rename_i h <;> rw [h] <;> rfl

theorem look_of_mem {a : Fp} {tree : Tree} (h : a ∈ mls.leaves tree) : look mls a tree = a :=
  if_pos h

/-- Without the admin's leaf, the look falls on the lowest fingerprint. -/
theorem look_eq_iff_of_notMem {a x : Fp} {tree : Tree} (h : a ∉ mls.leaves tree)
    (hne : mls.leaves tree ≠ []) :
    look mls a tree = x ↔ x ∈ mls.leaves tree ∧ ∀ y ∈ mls.leaves tree, x ≤ y := by
  have hfilter : (mls.leaves tree).filter (· ≠ a) = mls.leaves tree := by
    refine List.filter_eq_self.2 fun y hy => decide_eq_true ?_
    rintro rfl
    exact h hy
  obtain ⟨z, hz⟩ : ∃ z, (mls.leaves tree).min? = some z :=
    Option.ne_none_iff_exists'.1 (mt List.min?_eq_none_iff.1 hne)
  rw [look, if_neg h, successorOf, hfilter, hz, Option.getD_some, ← List.min?_eq_some_iff, hz,
    Option.some.injEq]

theorem FlagRight.reconcileAdmin (h : FlagRight mls g) : FlagRight mls (reconcileAdmin mls g) := by
  simp only [Group.reconcileAdmin]
  split
  · exact h
  · split
    · exact h
    · exact ⟨fun hf => (of_decide_eq_true hf).symm, fun hf => decide_eq_true hf.symm⟩

variable [DecidableEq Text] [DecidableEq Bytes]

omit [DecidableEq Bytes] in
variable (mls) in
/-- A session takes a frame. -/
def frameStep (g : GroupSession σ Text Bytes Fp) (d : Delivery σ Text Bytes Fp) :
    GroupSession σ Text Bytes Fp :=
  (handleMossMessage mls g d).2

variable (mls g) in
/-- What a frame does, before the look at the tree. -/
theorem handleControl_merges (htree : mls.TreeLawful merge) (d : Delivery σ Text Bytes Fp) :
    Merges mls merge g.member (handleControl mls g d).2.member ∧
      (handleControl mls g d).2.isAdmin = g.isAdmin ∧
      (handleControl mls g d).2.currentAdminFingerprint = g.currentAdminFingerprint := by
  rcases handleControl_cases mls g d with ⟨frames, hidle⟩ | ⟨c, hrun, hc⟩
  · rw [hidle]
    exact ⟨.refl, rfl, rfl⟩
  · rw [hrun]
    refine ⟨?_, Call.run_admin mls d.faults g hc⟩
    change Merges mls merge g.member (g.step mls (d.faults, c)).member
    exact step_invariant (fun _ _ h => h) (fun _ _ _ _ hmove h => h.move htree hmove)
      (fun _ _ hover h => h.overtaken htree hover) .refl

variable (mls g) in
/-- A member keeps its fingerprint. -/
theorem fingerprint_frameStep (htree : mls.TreeLawful merge) (d : Delivery σ Text Bytes Fp) :
    mls.fingerprint (frameStep mls g d).member.crypto = mls.fingerprint g.member.crypto := by
  obtain ⟨⟨-, -, -, hfp⟩, -, -⟩ := handleControl_merges mls g htree d
  rw [frameStep, handleMossMessage, member_reconcileAdmin]
  exact hfp

variable (mls g) in
/-- A frame merges some commits, and is followed by one look at the tree. -/
theorem handleMossMessage_sample (htree : mls.TreeLawful merge) (d : Delivery σ Text Bytes Fp) :
    ∃ block, (frameStep mls g d).member.merged = g.member.merged ++ block ∧
      ((frameStep mls g d).currentAdminFingerprint, mls.tree (frameStep mls g d).member.crypto) =
        sample merge (look mls) (g.currentAdminFingerprint, mls.tree g.member.crypto) block ∧
      (FlagRight mls g → FlagRight mls (frameStep mls g d)) := by
  obtain ⟨⟨block, hmerged, htr, hfp⟩, hflag, hadmin⟩ := handleControl_merges mls g htree d
  refine ⟨block, ?_, ?_, fun h => ?_⟩
  · exact (congrArg Member.merged member_reconcileAdmin).trans hmerged
  · have hmem : (frameStep mls g d).member = (handleControl mls g d).2.member :=
      member_reconcileAdmin
    have hlook : (frameStep mls g d).currentAdminFingerprint = _ := reconcileAdmin_look
    rw [hlook, hmem, hadmin, htr, sample]
  · refine FlagRight.reconcileAdmin ?_
    rw [FlagRight, hflag, hadmin, hfp]
    exact h

/-- A run over frames is a sequence of looks at the tree. -/
theorem runs_sample (htree : mls.TreeLawful merge)
    {guard : GroupSession σ Text Bytes Fp → Delivery σ Text Bytes Fp → Prop}
    {ds : List (Delivery σ Text Bytes Fp)} (hrun : Runs (frameStep mls) guard g ds g') :
    ∃ blocks : List (List Bytes), g'.member.merged = g.member.merged ++ blocks.flatten ∧
      (g'.currentAdminFingerprint, mls.tree g'.member.crypto) =
        blocks.foldl (sample merge (look mls))
          (g.currentAdminFingerprint, mls.tree g.member.crypto) ∧
      (FlagRight mls g → FlagRight mls g') := by
  induction hrun with
  | nil s => exact ⟨[], by simp, rfl, id⟩
  | @cons s t d ds _ _ ih =>
    obtain ⟨block, hm, hs, hf⟩ := handleMossMessage_sample mls s htree d
    obtain ⟨blocks, hms, hss, hfs⟩ := ih
    refine ⟨block :: blocks, ?_, ?_, fun h => hfs (hf h)⟩
    · rw [hms, hm, List.flatten_cons, List.append_assoc]
    · rw [hss, hs, List.foldl_cons]

/-! ## Every division into frames occurs -/

section Replay

omit [DecidableEq Bytes]

variable {s t k : Nat} {C : Chain mls s t}

/-- The member is on the chain at the epoch `k`, with nothing in its buffer. -/
structure Level (C : Chain mls s t) (m : Member σ Text Bytes) (k : Nat) : Prop where
  lower : s ≤ k
  upper : k ≤ t
  crypto : m.crypto = C.state k
  empty (j : Nat) : ¬m.sequencer.Buffers j
  old {x : Text} {j : Nat} : x ∈ m.sequencer.applied → mls.WireEpoch x j → j < k

omit [LinearOrder Fp] in
variable (groupId) in
/-- The next commit of the chain. -/
theorem Level.call (h : Level C m k) (hx : C.Carries text k) :
    Level C (sequenceCommit mls .none groupId m text).2 (k + 1) ∧
      (sequenceCommit mls .none groupId m text).2.merged = m.merged ++ [C.commit k] := by
  obtain ⟨staged, hstage, hnext⟩ := C.stage_commit hx.1 hx.2.1
  rw [← h.crypto] at hstage
  obtain ⟨store, hsettle, -⟩ :=
    settle_quiet groupId text k (fun _ _ => rfl : ∀ x b, Faults.none.admission x b = none) hstage
  have hepoch : mls.epoch m.crypto = some k := by rw [h.crypto, C.epoch_state h.lower h.upper]
  have hfresh : text ∉ m.sequencer.applied := fun hold => lt_irrefl k (h.old hold hx.wireEpoch)
  have hempty : ∀ j, ¬((m.sequencer.drainReady k).confirm text).Buffers j := fun j hj => by
    rw [CommitSequencer.buffers_confirm, CommitSequencer.buffers_drainReady] at hj
    exact h.empty j hj.2
  rw [sequenceCommit_of_settle hepoch hx.2.2 (C.commitEpoch_commit hx.1 hx.2.1) hfresh hsettle,
    drainAndReport_snd, drainLoop_of_peekReady_eq_none
      (hnext ▸ C.epoch_state (h.lower.trans k.le_succ) hx.2.1)
      (CommitSequencer.not_buffers_iff.1 (hempty _))]
  refine ⟨⟨h.lower.trans k.le_succ, hx.2.1, hnext, hempty, fun hy hj => ?_⟩, rfl⟩
  rcases CommitSequencer.mem_applied_confirm.1 hy with rfl | hy
  · have := hj.unique hx.wireEpoch
    omega
  · have := h.old hy hj
    omega

/-- A replay of `block`, addressed to the member with the fingerprint `fp`. -/
def replayFrame (mls : Mls σ Text Bytes Fp Tree) (fp : Fp) (block : List Bytes) :
    Delivery σ Text Bytes Fp :=
  ⟨.resyncResponse fp (block.map fun b => ⟨0, mls.encode b⟩), .none, fun _ => .none⟩

omit [LinearOrder Fp] in
variable (groupId) in
/-- A replay of the next commits of the chain. -/
theorem Level.replay (hcodec : ∀ b, mls.decode (mls.encode b) = .ok b) (h : Level C m k)
    {block rest : List Bytes} (hblock : block ++ rest <+: C.commits k t)
    {entries : List (Faults σ Bytes × ResyncCommit Text)}
    (hentries : List.Forall₂ (fun entry b => entry.1 = .none ∧
      entry.2.commitB64 = mls.encode b) entries block) :
    Level C (absorbResyncCommits mls groupId m entries).2 (k + block.length) ∧
      (absorbResyncCommits mls groupId m entries).2.merged = m.merged ++ block ∧
      rest <+: C.commits (k + block.length) t := by
  change Level C (entries.foldl _ m) _ ∧ (entries.foldl _ m).merged = _ ∧ _
  induction hentries generalizing m k with
  | nil => exact ⟨h, by simp, hblock⟩
  | @cons entry b entries block hentry _ ih =>
    obtain ⟨hlt, rfl, hrest⟩ := Chain.eq_commit_of_cons_prefix hblock
    have hcar : C.Carries entry.2.commitB64 k := ⟨h.lower, hlt, by rw [hentry.2, hcodec]⟩
    obtain ⟨h₁, hm₁⟩ := h.call groupId hcar
    rw [← hentry.1] at h₁ hm₁
    obtain ⟨h', hm', hr'⟩ := ih h₁ hrest
    refine ⟨?_, ?_, ?_⟩
    · rw [List.length_cons, show k + (block.length + 1) = k + 1 + block.length by omega]
      exact h'
    · rw [List.foldl_cons, hm', hm₁, List.append_assoc]
      rfl
    · rw [List.length_cons, show k + (block.length + 1) = k + 1 + block.length by omega]
      exact hr'

/-- A frame that carries the next commits of the chain merges exactly these. -/
theorem Level.frame (hcodec : ∀ b, mls.decode (mls.encode b) = .ok b)
    (h : Level C g.member k) {block rest : List Bytes} (hblock : block ++ rest <+: C.commits k t) :
    Level C (frameStep mls g
        (replayFrame mls (mls.fingerprint g.member.crypto) block)).member (k + block.length) ∧
      (frameStep mls g (replayFrame mls (mls.fingerprint g.member.crypto) block)).member.merged =
        g.member.merged ++ block ∧
      rest <+: C.commits (k + block.length) t := by
  have hentries : List.Forall₂ (fun (entry : Faults σ Bytes × ResyncCommit Text) b =>
      entry.1 = .none ∧ entry.2.commitB64 = mls.encode b)
      ((block.map fun b => (⟨0, mls.encode b⟩ : ResyncCommit Text)).mapIdx
        fun _ c => (Faults.none, c)) block := by
    exact List.forall₂_iff_get.2 ⟨by simp, fun i _ _ => by simp⟩
  obtain ⟨h', hm', hrest⟩ := h.replay g.groupId hcodec hblock hentries
  obtain ⟨l, frames, rejoin, hr⟩ := absorbResyncResponse_snd mls .none g
    ((block.map fun b => (⟨0, mls.encode b⟩ : ResyncCommit Text)).mapIdx
      fun _ c => (Faults.none, c))
  have hcontrol : handleControl mls g
      (replayFrame mls (mls.fingerprint g.member.crypto) block) =
        absorbResyncResponse mls .none g
          ((block.map fun b => (⟨0, mls.encode b⟩ : ResyncCommit Text)).mapIdx
            fun _ c => (Faults.none, c)) := if_pos rfl
  have hframe : (frameStep mls g
      (replayFrame mls (mls.fingerprint g.member.crypto) block)).member =
        (absorbResyncCommits mls g.groupId g.member
          ((block.map fun b => (⟨0, mls.encode b⟩ : ResyncCommit Text)).mapIdx
            fun _ c => (Faults.none, c))).2.withRequested l := by
    rw [frameStep, handleMossMessage, member_reconcileAdmin, hcontrol, hr]
  rw [hframe]
  exact ⟨⟨h'.lower, h'.upper, h'.crypto, h'.empty, h'.old⟩, hm', hrest⟩

end Replay

variable {s t k : Nat} {C : Chain mls s t}

/-- Every division of the first commits of the chain into blocks is one into frames. -/
theorem Level.runs (htree : mls.TreeLawful merge)
    (hcodec : ∀ b, mls.decode (mls.encode b) = .ok b)
    (guard : GroupSession σ Text Bytes Fp → Delivery σ Text Bytes Fp → Prop)
    (blocks : List (List Bytes)) (hguard : ∀ g block, block ∈ blocks →
      (frameStep mls g (replayFrame mls (mls.fingerprint g.member.crypto) block)).member.merged =
        g.member.merged ++ block →
      guard g (replayFrame mls (mls.fingerprint g.member.crypto) block))
    (h : Level C g.member k) (hblocks : blocks.flatten <+: C.commits k t) :
    ∃ ds g', Runs (frameStep mls) guard g ds g' ∧
      g'.member.merged = g.member.merged ++ blocks.flatten ∧
      g'.currentAdminFingerprint = (blocks.foldl (sample merge (look mls))
        (g.currentAdminFingerprint, mls.tree g.member.crypto)).1 := by
  induction blocks generalizing g k with
  | nil => exact ⟨[], g, .nil g, by simp, rfl⟩
  | cons block blocks ih =>
    rw [List.flatten_cons] at hblocks
    obtain ⟨h₁, hm₁, hrest⟩ := h.frame hcodec hblocks
    obtain ⟨block', hm', hs, -⟩ := handleMossMessage_sample mls g htree
      (replayFrame mls (mls.fingerprint g.member.crypto) block)
    obtain rfl : block = block' := List.append_cancel_left (hm₁.symm.trans hm')
    obtain ⟨ds, g', hrun, hm, ha⟩ := ih (fun g b hb => hguard g b (List.mem_cons_of_mem _ hb)) h₁ hrest
    refine ⟨_, g', .cons (hguard g block List.mem_cons_self hm₁) hrun, ?_, ?_⟩
    · rw [hm, hm₁, List.flatten_cons, List.append_assoc]
    · rw [ha, List.foldl_cons, hs]

/-! ## Agreement -/

omit [DecidableEq Text] [DecidableEq Bytes] in
/-- The admin `a` holds a leaf of the tree, and wherever it is gone after some of the
    commits, its successor `x` there keeps its place: in a later tree `x` is the lowest, or
    it is gone as well, and `a` does not come back except as the lowest and after `x`. -/
def Steady (mls : Mls σ Text Bytes Fp Tree) (merge : Tree → Bytes → Tree) (a : Fp) (tree : Tree)
    (commits : List Bytes) : Prop :=
  a ∈ mls.leaves tree ∧ ∀ pre mid, pre ++ mid <+: commits →
    a ∉ mls.leaves (pre.foldl merge tree) → ∀ x ∈ mls.leaves (pre.foldl merge tree),
    (∀ y ∈ mls.leaves (pre.foldl merge tree), x ≤ y) →
    (x ∈ mls.leaves ((pre ++ mid).foldl merge tree) →
      a ∉ mls.leaves ((pre ++ mid).foldl merge tree) ∧
      ∀ y ∈ mls.leaves ((pre ++ mid).foldl merge tree), x ≤ y) ∧
    (a ∈ mls.leaves ((pre ++ mid).foldl merge tree) →
      ∀ y ∈ mls.leaves ((pre ++ mid).foldl merge tree), a ≤ y)

omit [DecidableEq Text] [DecidableEq Bytes] in
/-- Looking again at a later tree, after a look at one without the admin. -/
theorem look_look_iff {a x : Fp} {tree tree' : Tree}
    (hx : look mls a tree = x) (hxa : x ≠ a) (hne' : mls.leaves tree' ≠ []) :
    look mls (look mls a tree) tree' = look mls a tree' ↔
      (x ∈ mls.leaves tree' → a ∉ mls.leaves tree' ∧ ∀ y ∈ mls.leaves tree', x ≤ y) ∧
      (a ∈ mls.leaves tree' → ∀ y ∈ mls.leaves tree', a ≤ y) := by
  rw [hx]
  by_cases hx' : x ∈ mls.leaves tree' <;> by_cases ha' : a ∈ mls.leaves tree'
  · rw [look_of_mem hx', look_of_mem ha']
    exact iff_of_false hxa fun h => (h.1 hx').1 ha'
  · rw [look_of_mem hx', eq_comm, look_eq_iff_of_notMem ha' hne']
    simp [hx', ha']
  · rw [look_of_mem ha', look_eq_iff_of_notMem hx' hne']
    simp [hx', ha']
  · have hsame : look mls x tree' = look mls a tree' :=
      (look_eq_iff_of_notMem hx' hne').2 ((look_eq_iff_of_notMem ha' hne').1 rfl)
    simp [hsame, hx', ha']

omit [DecidableEq Text] [DecidableEq Bytes] in
/-- Looking is coherent along the commits exactly if the successors are steady. -/
theorem coherent_look_iff {a : Fp} {tree : Tree} {commits : List Bytes}
    (hne : ∀ pre, pre <+: commits → mls.leaves (pre.foldl merge tree) ≠ []) :
    Coherent merge (look mls) a tree commits ↔ Steady mls merge a tree commits := by
  have hstart : look mls a tree = a ↔ a ∈ mls.leaves tree := by
    by_cases ha : a ∈ mls.leaves tree
    · exact iff_of_true (look_of_mem ha) ha
    · rw [look_eq_iff_of_notMem ha (hne [] List.nil_prefix)]
      exact and_iff_left_of_imp fun h => absurd h ha
  rw [Coherent, Steady, hstart]
  refine and_congr_right fun _ => forall_congr' fun pre => forall_congr' fun mid =>
    forall_congr' fun hmid => ?_
  have hpre := hne pre ((List.prefix_append pre mid).trans hmid)
  by_cases ha : a ∈ mls.leaves (pre.foldl merge tree)
  · rw [look_of_mem ha]
    exact iff_of_true rfl fun h => absurd ha h
  · obtain ⟨hx, hlow⟩ := (look_eq_iff_of_notMem ha hpre).1 rfl
    have hxa : look mls a (pre.foldl merge tree) ≠ a := fun h => ha (h ▸ hx)
    rw [look_look_iff rfl hxa (hne _ hmid)]
    refine ⟨fun h _ x hx' hlow' => ?_, fun h => h ha _ hx hlow⟩
    obtain rfl : look mls a (pre.foldl merge tree) = x :=
      (look_eq_iff_of_notMem ha hpre).2 ⟨hx', hlow'⟩
    exact h

omit [DecidableEq Bytes] in
/-- A frame merges at most one commit. -/
def OneCommit (mls : Mls σ Text Bytes Fp Tree) (g : GroupSession σ Text Bytes Fp)
    (d : Delivery σ Text Bytes Fp) : Prop :=
  (frameStep mls g d).member.merged.length ≤ g.member.merged.length + 1

instance (mls : Mls σ Text Bytes Fp Tree) (g : GroupSession σ Text Bytes Fp)
    (d : Delivery σ Text Bytes Fp) : Decidable (OneCommit mls g d) :=
  inferInstanceAs (Decidable (_ ≤ _))

/-- Agreement on the admin. Take any two members with the same tree and the same admin,
    whose flags are right, and let them handle any frames, one member with at most one
    commit in a frame, such that both merge the same first commits of the chain. They
    always end up with the same admin, and right flags, exactly if the successors along
    the chain are steady. -/
theorem admin_agreement_iff (htree : mls.TreeLawful merge)
    (hcodec : ∀ b, mls.decode (mls.encode b) = .ok b) (C : Chain mls s t) (hst : s ≤ t) (a : Fp)
    (hne : ∀ pre, pre <+: C.commits s t →
      mls.leaves (pre.foldl merge (mls.tree (C.state s))) ≠ []) :
    (∀ (g g' h h' : GroupSession σ Text Bytes Fp) ds ds' commits,
      mls.tree g.member.crypto = mls.tree (C.state s) →
      mls.tree h.member.crypto = mls.tree (C.state s) →
      g.currentAdminFingerprint = a → h.currentAdminFingerprint = a →
      FlagRight mls g → FlagRight mls h →
      Runs (frameStep mls) (fun _ _ => True) g ds g' →
      Runs (frameStep mls) (OneCommit mls) h ds' h' →
      commits <+: C.commits s t →
      g'.member.merged = g.member.merged ++ commits →
      h'.member.merged = h.member.merged ++ commits →
      g'.currentAdminFingerprint = h'.currentAdminFingerprint ∧
        FlagRight mls g' ∧ FlagRight mls h') ↔
    Steady mls merge a (mls.tree (C.state s)) (C.commits s t) := by
  rw [← coherent_look_iff hne]
  constructor
  · intro hagree
    refine Sampling.coherent_iff.2 fun blocks hblocks => ?_
    -- Both members start from the state of the chain, and get the commits in replays.
    let g : GroupSession σ Text Bytes Fp :=
      .joined "" "" (C.state s) (decide (mls.fingerprint (C.state s) = a)) a
    have hlevel : Level C g.member s :=
      ⟨le_rfl, hst, rfl, fun _ => CommitSequencer.not_buffers_new, fun hx => by
        simp [g, GroupSession.joined, Member.joined, CommitSequencer.new] at hx⟩
    have hflag : FlagRight mls g := ⟨of_decide_eq_true, fun h => decide_eq_true h⟩
    have hflat : (blocks.flatten.map fun c => [c]).flatten = blocks.flatten := by
      rw [← List.flatMap_def, List.flatMap_singleton']
    obtain ⟨ds, g', hrun, hm, ha⟩ := hlevel.runs htree hcodec (fun _ _ => True) blocks
      (fun _ _ _ _ => trivial) hblocks
    obtain ⟨ds', h', hrun', hm', ha'⟩ := hlevel.runs htree hcodec (OneCommit mls)
      (blocks.flatten.map fun c => [c]) (fun g₁ block hblock hmerged => by
        obtain ⟨c, -, rfl⟩ := List.mem_map.1 hblock
        rw [OneCommit, hmerged, List.length_append, List.length_singleton])
      (by rwa [hflat])
    rw [hflat] at hm'
    have hsame := (hagree g g' g h' ds ds' blocks.flatten rfl rfl rfl rfl hflag hflag hrun hrun'
      hblocks hm hm').1
    rw [ha, ha'] at hsame
    exact hsame
  · intro hcoh g g' h h' ds ds' commits htg hth hag hah hfg hfh hrun hrun' hpre hm hm'
    obtain ⟨blocks, hbm, hbs, hbf⟩ := runs_sample htree hrun
    obtain ⟨blocks', hbm', hbs', hbf'⟩ := runs_sample htree hrun'
    obtain rfl : blocks.flatten = commits := List.append_cancel_left (hbm.symm.trans hm)
    have hflat : blocks'.flatten = blocks.flatten := List.append_cancel_left (hbm'.symm.trans hm')
    refine ⟨?_, hbf hfg, hbf' hfh⟩
    rw [htg, hag] at hbs
    rw [hth, hah] at hbs'
    have h₁ := Sampling.foldl_sample_fst hcoh hpre
    have hpre' : blocks'.flatten <+: C.commits s t := hflat ▸ hpre
    have h₂ := Sampling.foldl_sample_fst hcoh hpre'
    rw [← hbs] at h₁
    rw [← hbs', hflat] at h₂
    exact h₁.trans h₂.symm

/-- The frame that carries a symbolic commit of the member `b`. -/
def Term.frame (commit : Term) : Delivery TermState (Option Term) Term String :=
  ⟨.commit "b" (some commit), .none, fun _ => .none⟩

/-- The admin `m` leaves, and `a` joins. The member `q` receives the second commit first,
    merges both with the next frame and finds `a` to be the admin. The member `x` merges
    them one by one, and stays with `b`, the successor of `m` in between. -/
theorem admin_disagreement :
    let mls := Term.mls (Term.commits 1 [.remove "m", .add "a"])
    let start (own : String) : GroupSession TermState (Option Term) Term String :=
      .joined "g" own ⟨1, ["m", "b", "q", "x"], own⟩ false "m"
    let g := [Term.frame ⟨2, .add "a"⟩, Term.frame ⟨1, .remove "m"⟩].foldl (frameStep mls)
      (start "q")
    let h := [Term.frame ⟨1, .remove "m"⟩, Term.frame ⟨2, .add "a"⟩].foldl (frameStep mls)
      (start "x")
    g.member.merged = [⟨1, .remove "m"⟩, ⟨2, .add "a"⟩] ∧ h.member.merged = g.member.merged ∧
      g.member.crypto.members = h.member.crypto.members ∧
      g.currentAdminFingerprint = "a" ∧ h.currentAdminFingerprint = "b" := by
  decide +kernel

/-- Two members agree that `a` stays the admin while a visitor joins and leaves. -/
theorem admin_agreement_iff_visit :
    let start (own : String) : GroupSession TermState (Option Term) Term String :=
      .joined "g" own ⟨1, ["a", "c"], own⟩ (decide (own = "a")) "a"
    let g := [Term.frame ⟨2, .remove "b"⟩, Term.frame ⟨1, .add "b"⟩].foldl
      (frameStep Term.visitMls) (start "a")
    let h := [Term.frame ⟨1, .add "b"⟩, Term.frame ⟨2, .remove "b"⟩].foldl
      (frameStep Term.visitMls) (start "c")
    g.currentAdminFingerprint = h.currentAdminFingerprint := by
  intro start g h
  have hcommits : Term.visit.commits 1 3 = [⟨1, .add "b"⟩, ⟨2, .remove "b"⟩] := rfl
  have hleaf : ∀ pre, pre <+: Term.visit.commits 1 3 →
      "a" ∈ Term.visitMls.leaves (pre.foldl Term.merge ["a", "c"]) := by
    intro pre hpre
    rw [hcommits, ← List.mem_inits] at hpre
    revert pre
    decide
  have hne : ∀ pre, pre <+: Term.visit.commits 1 3 →
      Term.visitMls.leaves (pre.foldl Term.merge ["a", "c"]) ≠ [] :=
    fun pre hpre => List.ne_nil_of_mem (hleaf pre hpre)
  have hsteady : Steady Term.visitMls Term.merge "a" ["a", "c"] (Term.visit.commits 1 3) :=
    ⟨by decide, fun pre mid hmid ha =>
      absurd (hleaf pre ((List.prefix_append pre mid).trans hmid)) ha⟩
  exact ((admin_agreement_iff Term.treeLawful (fun _ => rfl) Term.visit (by decide) "a" hne).2
    hsteady (start "a") g (start "c") h _ _ _ rfl rfl rfl rfl ⟨fun _ => rfl, fun _ => rfl⟩
    ⟨fun hf => absurd hf (by decide), fun hf => absurd hf (by decide)⟩
    (.cons trivial (.cons trivial (.nil _)))
    (.cons (by decide +kernel) (.cons (by decide +kernel) (.nil _))) (List.prefix_refl _)
    (by decide +kernel) (by decide +kernel)).1

end Mosh.Group
