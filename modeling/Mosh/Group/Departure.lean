import Mosh.Library.Run
import Mosh.Library.Sampling
import Mosh.Group.Admin

/-!
# Who commits a departure

A member that leaves a plain group cannot commit its own removal, so another member has
to. Two rules are evaluated by every member on its own: who commits the departure
(`shouldCommitDeparture`), and who is the admin of the tree without the leaver
(`reconcileAdmin`). Both come down to the same minimum over the leaves.

* `OneTree`: all members hold one tree and one admin, which holds a leaf of it;
* `OneTree.existsUnique_committer`: exactly one member commits a departure;
* `OneTree.after_departure`: the members are in step again once all of them have merged
  the commit, in whatever frames it came;
* `departure_committed_once`: both, and who the admin is then.
-/

namespace Mosh.Group

open Run (Runs)
open Sampling (Coherent)

variable {σ Text Bytes Fp Tree : Type} {mls : Mls σ Text Bytes Fp Tree}
  {merge : Tree → Bytes → Tree} {g g' : GroupSession σ Text Bytes Fp}
  {gs : List (GroupSession σ Text Bytes Fp)} {tree : Tree} {admin leaver : Fp} {b : Bytes}

/-- The fingerprint of the member. -/
def GroupSession.fingerprint (mls : Mls σ Text Bytes Fp Tree) (g : GroupSession σ Text Bytes Fp) :
    Fp :=
  mls.fingerprint g.member.crypto

variable [LinearOrder Fp]

/-- The members `gs` of a group, one for every leaf of the tree they all hold. They agree
    on the admin, which holds a leaf, and each knows whether it is the admin itself. -/
structure OneTree (mls : Mls σ Text Bytes Fp Tree) (tree : Tree) (admin : Fp)
    (gs : List (GroupSession σ Text Bytes Fp)) : Prop where
  members : (gs.map (·.fingerprint mls)).Perm (mls.leaves tree)
  distinct : (mls.leaves tree).Nodup
  sameTree : ∀ g ∈ gs, mls.tree g.member.crypto = tree
  sameAdmin : ∀ g ∈ gs, g.currentAdminFingerprint = admin
  leaf : admin ∈ mls.leaves tree
  flag : ∀ g ∈ gs, FlagRight mls g

/-! ## The committer -/

/-- The successor is the lowest of the others. -/
theorem successorOf_eq_some_iff {members : List Fp} {x : Fp} :
    successorOf members leaver = some x ↔
      x ∈ members ∧ x ≠ leaver ∧ ∀ y ∈ members, y ≠ leaver → x ≤ y := by
  rw [successorOf, List.min?_eq_some_iff]
  simp only [List.mem_filter, decide_eq_true_eq, and_imp, and_assoc]

theorem exists_successorOf {members : List Fp} (h : ∃ fp ∈ members, fp ≠ leaver) :
    ∃ x, successorOf members leaver = some x := by
  obtain ⟨fp, hfp, hne⟩ := h
  refine Option.ne_none_iff_exists'.1 fun hnone => ?_
  have hempty := List.min?_eq_none_iff.1 hnone
  have hmem : fp ∈ members.filter (· ≠ leaver) := List.mem_filter.2 ⟨hfp, decide_eq_true hne⟩
  rw [hempty] at hmem
  cases hmem

namespace OneTree

/-- Every leaf is held by exactly one member. -/
theorem existsUnique_member (h : OneTree mls tree admin gs) {fp : Fp} (hfp : fp ∈ mls.leaves tree) :
    ∃! g, g ∈ gs ∧ g.fingerprint mls = fp := by
  obtain ⟨g, hg, rfl⟩ := List.mem_map.1 (h.members.mem_iff.2 hfp)
  have hnodup : (gs.map (·.fingerprint mls)).Nodup := h.members.nodup_iff.2 h.distinct
  refine ⟨g, ⟨hg, rfl⟩, fun g' hg' => ?_⟩
  exact List.inj_on_of_nodup_map hnodup hg'.1 hg hg'.2

theorem fingerprint_mem (h : OneTree mls tree admin gs) (hg : g ∈ gs) :
    g.fingerprint mls ∈ mls.leaves tree :=
  h.members.mem_iff.1 (List.mem_map_of_mem hg)

/-- The member that commits a departure: the admin, or the successor of the admin. -/
def committer (mls : Mls σ Text Bytes Fp Tree) (tree : Tree) (admin leaver : Fp) : Fp :=
  if leaver ≠ admin then admin else (successorOf (mls.leaves tree) leaver).getD admin

theorem committer_mem (h : OneTree mls tree admin gs) (hrest : ∃ fp ∈ mls.leaves tree, fp ≠ leaver) :
    committer mls tree admin leaver ∈ mls.leaves tree ∧ committer mls tree admin leaver ≠ leaver := by
  rw [committer]
  split
  · next hne => exact ⟨h.leaf, hne.symm⟩
  · obtain ⟨x, hx⟩ := exists_successorOf hrest
    rw [hx, Option.getD_some]
    obtain ⟨hmem, hne, -⟩ := successorOf_eq_some_iff.1 hx
    exact ⟨hmem, hne⟩

theorem shouldCommitDeparture_iff (h : OneTree mls tree admin gs) (hg : g ∈ gs)
    (hrest : ∃ fp ∈ mls.leaves tree, fp ≠ leaver) :
    shouldCommitDeparture mls g leaver = true ↔
      g.fingerprint mls = committer mls tree admin leaver := by
  rw [shouldCommitDeparture, committer, h.sameAdmin g hg, Mls.memberFingerprints, h.sameTree g hg]
  split
  · have hflag := h.flag g hg
    rw [FlagRight, h.sameAdmin g hg] at hflag
    exact hflag
  · obtain ⟨x, hx⟩ := exists_successorOf hrest
    rw [hx, Option.any_some, decide_eq_true_eq, Option.getD_some, GroupSession.fingerprint, eq_comm]

/-- Exactly one of the remaining members commits a departure. -/
theorem existsUnique_committer (h : OneTree mls tree admin gs)
    (hrest : ∃ fp ∈ mls.leaves tree, fp ≠ leaver) :
    ∃! g, g ∈ gs ∧ g.fingerprint mls ≠ leaver ∧ shouldCommitDeparture mls g leaver = true := by
  obtain ⟨hmem, hne⟩ := h.committer_mem hrest
  obtain ⟨g, ⟨hg, hfp⟩, hunique⟩ := h.existsUnique_member hmem
  refine ⟨g, ⟨hg, hfp ▸ hne, (h.shouldCommitDeparture_iff hg hrest).2 hfp⟩, fun g' hg' => ?_⟩
  exact hunique g' ⟨hg'.1, (h.shouldCommitDeparture_iff hg'.1 hrest).1 hg'.2.2⟩

end OneTree

/-! ## After the commit -/

/-- The commit drops the leaver, and changes nothing else. -/
def Drops (mls : Mls σ Text Bytes Fp Tree) (merge : Tree → Bytes → Tree) (tree : Tree) (b : Bytes)
    (leaver : Fp) : Prop :=
  (mls.leaves (merge tree b)).Perm ((mls.leaves tree).filter (· ≠ leaver))

theorem Drops.mem_iff {fp : Fp} (h : Drops mls merge tree b leaver) :
    fp ∈ mls.leaves (merge tree b) ↔ fp ∈ mls.leaves tree ∧ fp ≠ leaver := by
  rw [List.Perm.mem_iff h, List.mem_filter, decide_eq_true_eq]

/-- Looking at the tree twice is looking at it once. -/
theorem look_look {a : Fp} {tree : Tree} (hne : mls.leaves tree ≠ []) :
    look mls (look mls a tree) tree = look mls a tree := by
  by_cases h : a ∈ mls.leaves tree
  · rw [look_of_mem h, look_of_mem h]
  · exact look_of_mem ((look_eq_iff_of_notMem h hne).1 rfl).1

/-- Along a single commit, looking is coherent. -/
theorem coherent_single (hleaf : admin ∈ mls.leaves tree) (hne : mls.leaves (merge tree b) ≠ []) :
    Coherent merge (look mls) admin tree [b] := by
  refine ⟨look_of_mem hleaf, fun pre mid hmid => ?_⟩
  cases pre with
  | nil => rw [List.foldl_nil, look_of_mem hleaf]
  | cons b' pre =>
    -- the commit is the only one, so nothing follows it
    obtain ⟨rfl, hrest⟩ := List.cons_prefix_cons.1 hmid
    obtain ⟨rfl, rfl⟩ := List.append_eq_nil_iff.1 (List.prefix_nil.1 hrest)
    exact look_look hne

/-- The admin of the tree without the leaver is the one that commits the departure, if the
    admin leaves, and the same as before otherwise. -/
theorem look_of_drops (hleaf : admin ∈ mls.leaves tree) (hdrops : Drops mls merge tree b leaver)
    (hrest : ∃ fp ∈ mls.leaves tree, fp ≠ leaver) :
    look mls admin (merge tree b) = OneTree.committer mls tree admin leaver := by
  rw [OneTree.committer]
  split
  · next hne => exact look_of_mem (hdrops.mem_iff.2 ⟨hleaf, hne.symm⟩)
  · next heq =>
    obtain rfl : leaver = admin := not_not.1 heq
    obtain ⟨x, hx⟩ := exists_successorOf hrest
    obtain ⟨hmem, hne, hlow⟩ := successorOf_eq_some_iff.1 hx
    have hgone : leaver ∉ mls.leaves (merge tree b) := fun h => (hdrops.mem_iff.1 h).2 rfl
    have hx' : x ∈ mls.leaves (merge tree b) := hdrops.mem_iff.2 ⟨hmem, hne⟩
    rw [hx, Option.getD_some, look_eq_iff_of_notMem hgone (List.ne_nil_of_mem hx')]
    exact ⟨hx', fun y hy => hlow y (hdrops.mem_iff.1 hy).1 (hdrops.mem_iff.1 hy).2⟩

variable [DecidableEq Text] [DecidableEq Bytes]

/-- The member has handled frames, and has merged exactly the commit. -/
def Applies (mls : Mls σ Text Bytes Fp Tree) (b : Bytes) (g g' : GroupSession σ Text Bytes Fp) :
    Prop :=
  ∃ ds, Runs (frameStep mls) (fun _ _ => True) g ds g' ∧
    g'.member.merged = g.member.merged ++ [b]

theorem Applies.fingerprint (htree : mls.TreeLawful merge) (h : Applies mls b g g') :
    g'.fingerprint mls = g.fingerprint mls := by
  obtain ⟨ds, hrun, -⟩ := h
  refine hrun.invariant (P := fun x => x.fingerprint mls = g.fingerprint mls) ?_ rfl
  intro x d _ hx
  exact (fingerprint_frameStep mls x htree d).trans hx

/-- What a member holds after the commit. -/
theorem Applies.holds (htree : mls.TreeLawful merge) (h : Applies mls b g g')
    (hleaf : g.currentAdminFingerprint ∈ mls.leaves (mls.tree g.member.crypto))
    (hne : mls.leaves (merge (mls.tree g.member.crypto) b) ≠ []) :
    mls.tree g'.member.crypto = merge (mls.tree g.member.crypto) b ∧
      g'.currentAdminFingerprint =
        look mls g.currentAdminFingerprint (merge (mls.tree g.member.crypto) b) ∧
      (FlagRight mls g → FlagRight mls g') := by
  obtain ⟨ds, hrun, hmerged⟩ := h
  obtain ⟨blocks, hblocks, hsample, hflag⟩ := runs_sample htree hrun
  have hflat : blocks.flatten = [b] := List.append_cancel_left (hblocks.symm.trans hmerged)
  have hfst := Sampling.foldl_sample_fst (coherent_single hleaf hne)
    (hflat ▸ List.prefix_refl _ : blocks.flatten <+: [b])
  have hsnd : (blocks.foldl (Sampling.sample merge (look mls))
      (g.currentAdminFingerprint, mls.tree g.member.crypto)).2 =
      blocks.flatten.foldl merge (mls.tree g.member.crypto) :=
    Sampling.foldl_sample_snd _ blocks
  rw [← hsample, hflat] at hfst hsnd
  exact ⟨hsnd, hfst, hflag⟩

/-- The remaining members are in step again once all of them have merged the commit. -/
theorem OneTree.after_departure (htree : mls.TreeLawful merge) (h : OneTree mls tree admin gs)
    (hrest : ∃ fp ∈ mls.leaves tree, fp ≠ leaver) (hdrops : Drops mls merge tree b leaver)
    {after : GroupSession σ Text Bytes Fp → GroupSession σ Text Bytes Fp}
    (hafter : ∀ g ∈ gs, g.fingerprint mls ≠ leaver → Applies mls b g (after g)) :
    OneTree mls (merge tree b) (committer mls tree admin leaver)
      ((gs.filter fun g => g.fingerprint mls ≠ leaver).map after) := by
  obtain ⟨hmem, hne⟩ := h.committer_mem hrest
  have hmem' := hdrops.mem_iff.2 ⟨hmem, hne⟩
  have happlies : ∀ g ∈ gs.filter (fun g => g.fingerprint mls ≠ leaver), g ∈ gs ∧
      Applies mls b g (after g) := by
    intro g hg
    obtain ⟨hg, hother⟩ := List.mem_filter.1 hg
    exact ⟨hg, hafter g hg (of_decide_eq_true hother)⟩
  have hholds : ∀ g ∈ gs.filter (fun g => g.fingerprint mls ≠ leaver),
      mls.tree (after g).member.crypto = merge tree b ∧
        (after g).currentAdminFingerprint = committer mls tree admin leaver ∧
        FlagRight mls (after g) := by
    intro g hg
    obtain ⟨hg, happ⟩ := happlies g hg
    have hadmin := happ.holds htree (by rw [h.sameAdmin g hg, h.sameTree g hg]; exact h.leaf)
      (by rw [h.sameTree g hg]; exact List.ne_nil_of_mem hmem')
    rw [h.sameTree g hg, h.sameAdmin g hg, look_of_drops h.leaf hdrops hrest] at hadmin
    exact ⟨hadmin.1, hadmin.2.1, hadmin.2.2 (h.flag g hg)⟩
  refine ⟨?_, hdrops.nodup_iff.2 (h.distinct.filter _), ?_, ?_, hmem', ?_⟩
  · -- the leaves without the leaver are those of the members without it
    have hmap : ((gs.filter fun g => g.fingerprint mls ≠ leaver).map after).map
        (·.fingerprint mls) = (gs.map (·.fingerprint mls)).filter (· ≠ leaver) := by
      rw [List.map_map, List.filter_map]
      exact List.map_congr_left fun g hg => (happlies g hg).2.fingerprint htree
    rw [hmap]
    exact (h.members.filter _).trans hdrops.symm
  · exact List.forall_mem_map.2 fun g hg => (hholds g hg).1
  · exact List.forall_mem_map.2 fun g hg => (hholds g hg).2.1
  · exact List.forall_mem_map.2 fun g hg => (hholds g hg).2.2

/-- Exactly one of the remaining members commits a departure. Once all of them have merged
    a commit that drops the leaver, in whatever frames it came to each of them, they agree
    on the admin again, and exactly the admin takes itself for it. It is the admin of
    before, or, if that one left, the member that commits its departure. -/
theorem departure_committed_once (htree : mls.TreeLawful merge) (h : OneTree mls tree admin gs)
    (hrest : ∃ fp ∈ mls.leaves tree, fp ≠ leaver) :
    (∃! g, g ∈ gs ∧ g.fingerprint mls ≠ leaver ∧ shouldCommitDeparture mls g leaver = true) ∧
    ∀ b, Drops mls merge tree b leaver →
      ∀ after : GroupSession σ Text Bytes Fp → GroupSession σ Text Bytes Fp,
        (∀ g ∈ gs, g.fingerprint mls ≠ leaver → Applies mls b g (after g)) →
        ∃ admin', OneTree mls (merge tree b) admin'
            ((gs.filter fun g => g.fingerprint mls ≠ leaver).map after) ∧
          (leaver ≠ admin → admin' = admin) ∧
          (leaver = admin → ∀ g ∈ gs, g.fingerprint mls ≠ leaver →
            (shouldCommitDeparture mls g leaver = true ↔ g.fingerprint mls = admin')) := by
  refine ⟨h.existsUnique_committer hrest, fun b hdrops after hafter => ?_⟩
  refine ⟨_, h.after_departure htree hrest hdrops hafter, fun hne => if_pos hne, ?_⟩
  intro _ g hg _
  exact h.shouldCommitDeparture_iff hg hrest

/-- The member `own` of the symbolic group of `a`, `b` and `c`, whose admin is `b`. -/
def Term.trio (own : String) : GroupSession TermState (Option Term) Term String :=
  .joined "g" own ⟨1, ["b", "c", "a"], own⟩ (decide (own = "b")) "b"

/-- The frames that `b` has left: its proposal for the successor `a`, and the commit of `a`
    for all others. -/
def Term.leaves (own : String) : Delivery TermState (Option Term) Term String :=
  ⟨if own = "a" then .selfRemove "b" (some ⟨1, .remove "b"⟩) else .commit "a" (some ⟨1, .remove "b"⟩),
    .none, fun _ => .none⟩

theorem Term.oneTree_trio :
    OneTree (Term.mls [⟨1, .remove "b"⟩]) ["b", "c", "a"] "b" (["b", "c", "a"].map Term.trio) where
  members := .refl _
  distinct := by decide
  sameTree := by decide
  sameAdmin := by decide
  leaf := by decide
  flag := List.forall_mem_map.2 fun _ _ => ⟨of_decide_eq_true, fun h => decide_eq_true h⟩

/-- The admin `b` leaves: `a` commits it, and is the admin of both afterwards. -/
theorem departure_committed_once_trio :
    ∃ admin, OneTree (Term.mls [⟨1, .remove "b"⟩]) ["c", "a"] admin
      (([Term.trio "c", Term.trio "a"]).map fun g =>
        frameStep (Term.mls [⟨1, .remove "b"⟩]) g (Term.leaves g.participantId)) ∧
      "a" = admin := by
  obtain ⟨-, hafter⟩ := departure_committed_once Term.treeLawful Term.oneTree_trio
    (⟨"a", by decide, by decide⟩ : ∃ fp ∈ ["b", "c", "a"], fp ≠ "b")
  have happlies : ∀ own ∈ ["b", "c", "a"], own ≠ "b" →
      Applies (Term.mls [⟨1, .remove "b"⟩]) ⟨1, .remove "b"⟩ (Term.trio own)
        (frameStep (Term.mls [⟨1, .remove "b"⟩]) (Term.trio own) (Term.leaves own)) := by
    intro own hown hne
    refine ⟨_, .single trivial, ?_⟩
    revert own
    decide +kernel
  obtain ⟨admin, h, -, hcommits⟩ := hafter ⟨1, .remove "b"⟩ (.refl _)
    (fun g => frameStep (Term.mls [⟨1, .remove "b"⟩]) g (Term.leaves g.participantId))
    (List.forall_mem_map.2 happlies)
  refine ⟨admin, h, ?_⟩
  exact (hcommits rfl (Term.trio "a") (List.mem_map_of_mem (by decide)) (by decide)).1
    (by decide +kernel)

end Mosh.Group
