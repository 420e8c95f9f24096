import Mathlib

/-!
# What a group uses of MLS

The MLS session of a member (`mls_crypto`) wraps a third-party implementation,
so the group is modelled over any implementation of the operations it calls:
`Mls`. A state `σ` is a member's own MLS state. Two members of one group have
different states, but read the same ratchet tree from them (`Mls.tree`), whose
leaves carry the fingerprints of the members.

What the group relies on is stated as laws of an implementation, used as named
hypotheses where they are needed:

* `Mls.Lawful`: a commit is only staged at the epoch its header names, and
  moves the member to the next one, as does a commit the member authors itself;
* `Mls.TreeLawful`: the tree after a commit is a function of the tree before it
  and of the commit, the same for its author and for those who receive it.
-/

namespace Mosh.Group

/-- The errors of a group which the modelled operations return. -/
inductive PrivateGroupError
  | moss (error : String)
  | codec (error : String)
  | persistence (error : String)
  | openMls (error : String)
  | notReady
  deriving DecidableEq, Repr

/-- The public facts of an MLS state: its group, its epoch and the hash of its
    group context. -/
structure MlsHistoryContext (Bytes : Type) where
  groupId : Bytes
  epoch : Nat
  hash : String
  deriving DecidableEq, Repr

/-- A commit that was validated against the own state, and not yet installed. -/
structure StagedMembership (σ Bytes : Type) where
  next : σ
  prior : MlsHistoryContext Bytes
  context : MlsHistoryContext Bytes
  author : Bytes
  removed : Bool

/-- The changes of the membership a member of a plain group authors itself. -/
inductive OwnChange (Bytes : Type)
  /-- Admit the owner of a key package. -/
  | addMembers (package : Bytes)
  /-- Commit the departure of a member that proposed its own removal. -/
  | commitDeparture (proposal : Bytes)

/-- The operations of an MLS implementation and of the wire codec. -/
structure Mls (σ Text Bytes Fp Tree : Type) where
  /-- Base64, in both directions. -/
  decode : Text → Except PrivateGroupError Bytes
  encode : Bytes → Text
  /-- The epoch in the header of a serialized commit. -/
  commitEpoch : Bytes → Except PrivateGroupError Nat
  /-- The epoch of the state; `none` before the group exists. -/
  epoch : σ → Option Nat
  historyContext : σ → Except PrivateGroupError (MlsHistoryContext Bytes)
  tree : σ → Tree
  leaves : Tree → List Fp
  /-- The fingerprint of the own signature key. -/
  fingerprint : σ → Fp
  /-- The own signature key, and those of the members. -/
  signerPublic : σ → Bytes
  memberSigners : σ → List String
  /-- Whether the signer of a key package holds a leaf already. -/
  keyPackageSignerIsMember : σ → Bytes → Except PrivateGroupError Bool
  /-- Validate a commit against the own state. -/
  stageMembership : σ → Bytes → Except PrivateGroupError (StagedMembership σ Bytes)
  /-- Author a change on a copy of the state: the state after it, and the commit. -/
  author : OwnChange Bytes → σ → Except PrivateGroupError (σ × Bytes)

namespace Mls

variable {σ Text Bytes Fp Tree : Type} (mls : Mls σ Text Bytes Fp Tree)

/-- The fingerprints of the members, in the order of the tree. -/
def memberFingerprints (x : σ) : List Fp := mls.leaves (mls.tree x)

/-- The commit `b` can be staged in the state `x`. -/
def Stages (x : σ) (b : Bytes) : Prop := ∃ staged, mls.stageMembership x b = .ok staged

/-- The epoch the commit `text` names in its header. -/
def WireEpoch (text : Text) (k : Nat) : Prop :=
  ∃ b, mls.decode text = .ok b ∧ mls.commitEpoch b = .ok k

/-- Commits move a member from the epoch they name to the next one. -/
structure Lawful : Prop where
  stage_epoch {x : σ} {b : Bytes} {staged : StagedMembership σ Bytes} {e : Nat} :
    mls.stageMembership x b = .ok staged → mls.epoch x = some e →
      mls.commitEpoch b = .ok e ∧ mls.epoch staged.next = some (e + 1)
  author_epoch {change : OwnChange Bytes} {x y : σ} {b : Bytes} {e : Nat} :
    mls.author change x = .ok (y, b) → mls.epoch x = some e → mls.epoch y = some (e + 1)

/-- Commits act on the tree in the same way for every member, `merge` being how. -/
structure TreeLawful (merge : Tree → Bytes → Tree) : Prop where
  stage_tree {x : σ} {b : Bytes} {staged : StagedMembership σ Bytes} :
    mls.stageMembership x b = .ok staged → mls.tree staged.next = merge (mls.tree x) b
  author_tree {change : OwnChange Bytes} {x y : σ} {b : Bytes} :
    mls.author change x = .ok (y, b) → mls.tree y = merge (mls.tree x) b
  stage_fingerprint {x : σ} {b : Bytes} {staged : StagedMembership σ Bytes} :
    mls.stageMembership x b = .ok staged → mls.fingerprint staged.next = mls.fingerprint x
  author_fingerprint {change : OwnChange Bytes} {x y : σ} {b : Bytes} :
    mls.author change x = .ok (y, b) → mls.fingerprint y = mls.fingerprint x

variable {mls} {text : Text} {j k : Nat}

theorem WireEpoch.unique (hj : mls.WireEpoch text j) (hk : mls.WireEpoch text k) : j = k := by
  obtain ⟨b, hb, hj⟩ := hj
  obtain ⟨b', hb', hk⟩ := hk
  obtain rfl : b = b' := Except.ok.inj (hb.symm.trans hb')
  exact Except.ok.inj (hj.symm.trans hk)

end Mls

/-! ## A symbolic implementation

The laws have a model: commits are terms here, and a commit verifies exactly if
it is one of those that the members of the group published. -/

/-- What a symbolic commit does to the tree. -/
inductive TreeChange
  | add (fingerprint : String)
  | remove (fingerprint : String)
  deriving DecidableEq, Repr

/-- A symbolic commit, key package or proposal. -/
structure Term where
  epoch : Nat
  change : TreeChange
  deriving DecidableEq, Repr

/-- The symbolic MLS state of a member: the epoch, the tree and its own fingerprint. -/
structure TermState where
  epoch : Nat
  members : List String
  own : String
  deriving DecidableEq, Repr

namespace Term

/-- The tree after a change. -/
def apply (members : List String) : TreeChange → List String
  | .add fp => if fp ∈ members then members else members ++ [fp]
  | .remove fp => members.filter (· ≠ fp)

/-- The tree after a commit. -/
def merge (members : List String) (commit : Term) : List String := apply members commit.change

/-- The state after a change of the tree. -/
def advance (x : TermState) (change : TreeChange) : TermState :=
  { x with epoch := x.epoch + 1, members := apply x.members change }

/-- The public facts of a state. -/
def context (x : TermState) : MlsHistoryContext Term :=
  ⟨⟨0, .add ""⟩, x.epoch, String.join x.members⟩

/-- The implementation in which `published` are the genuine commits: texts are terms,
    or malformed. -/
def mls (published : List Term) : Mls TermState (Option Term) Term String (List String) where
  decode text := text.elim (.error (.codec "base64")) .ok
  encode := some
  commitEpoch commit := .ok commit.epoch
  epoch x := some x.epoch
  historyContext x := .ok (context x)
  tree := TermState.members
  leaves := id
  fingerprint := TermState.own
  signerPublic x := ⟨0, .add x.own⟩
  memberSigners := TermState.members
  keyPackageSignerIsMember x package := .ok (decide (apply x.members package.change = x.members))
  stageMembership x commit :=
    if commit ∈ published ∧ commit.epoch = x.epoch then
      let next := advance x commit.change
      .ok ⟨next, context x, context next, commit, decide (x.own ∉ next.members)⟩
    else .error (.openMls "commit does not apply")
  author
    | .addMembers package, x => .ok (advance x package.change, ⟨x.epoch, package.change⟩)
    | .commitDeparture proposal, x => .ok (advance x proposal.change, ⟨x.epoch, proposal.change⟩)

variable {published : List Term} {x y : TermState} {b : Term}
  {staged : StagedMembership TermState Term} {change : OwnChange Term}

theorem stage_eq_ok (h : (mls published).stageMembership x b = .ok staged) :
    b ∈ published ∧ b.epoch = x.epoch ∧ staged.next = advance x b.change := by
  simp only [mls] at h
  split at h
  · next hs =>
    obtain rfl := Except.ok.inj h
    exact ⟨hs.1, hs.2, rfl⟩
  · cases h

theorem author_eq_ok (h : (mls published).author change x = .ok (y, b)) :
    y = advance x b.change := by
  cases change with
  | addMembers package =>
    cases Except.ok.inj h
    rfl
  | commitDeparture proposal =>
    cases Except.ok.inj h
    rfl

theorem lawful : (mls published).Lawful where
  stage_epoch hs he := by
    obtain ⟨-, hb, hn⟩ := stage_eq_ok hs
    obtain rfl := Option.some.inj he
    exact ⟨congrArg Except.ok hb, by rw [hn]; rfl⟩
  author_epoch ha he := by
    obtain rfl := Option.some.inj he
    rw [author_eq_ok ha]
    rfl

theorem treeLawful : (mls published).TreeLawful merge where
  stage_tree hs := by rw [(stage_eq_ok hs).2.2]; rfl
  author_tree ha := by rw [author_eq_ok ha]; rfl
  stage_fingerprint hs := by rw [(stage_eq_ok hs).2.2]; rfl
  author_fingerprint ha := by rw [author_eq_ok ha]; rfl

end Term

end Mosh.Group
