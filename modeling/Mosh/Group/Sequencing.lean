import Mosh.Group.CommitSequencer
import Mosh.Group.Mls

/-!
# Sequencing commits

How a member merges the commits it receives (`sequencing.rs`): classify by the
wire epoch, apply in order, save every applied commit before installing it, and
drain the buffered successors. The state is a `Member`: the MLS state, the
sequencer and the encrypted store, all of which keep what was already done when
a later commit of the same call fails.

The store and the network may refuse at any point. What they do during a call
is part of its input (`Faults`); within one call, every save is of a commit in
a different MLS state, so a function of these covers every pattern of failures.

All that a call can do is in `Move`: hold a future commit in the buffer, or
settle the commit of the current epoch. `sequenceCommit_moves` says so, and
`sequenceCommit_ok` what a call that returns normally leaves behind.
-/

namespace Mosh.Group

open Std (ExtTreeMap)

variable {σ Text Bytes Fp Tree : Type}

/-! ## The store -/

/-- What is retained of an own transition of the MLS state. -/
structure NativeTransition (Bytes : Type) where
  prior : MlsHistoryContext Bytes
  next : MlsHistoryContext Bytes
  originalAuthorMlsKey : Bytes
  originalCommit : Bytes
  previousMemberKeys : List String
  nextMemberKeys : List String
  selfRemoved : Bool

/-- The rows of a group in the encrypted store: the snapshot of its MLS state,
    its transitions by the epoch they start from, and the commits put into the
    commit log, in the order of the writes. -/
structure GroupStore (σ Bytes : Type) where
  snapshot : Option σ
  transitions : ExtTreeMap Nat (NativeTransition Bytes) compare
  commitLog : List (Nat × Bytes)

/-- What the store and the network refuse during a call. -/
structure Faults (σ Bytes : Type) where
  /-- Why the commit cannot be saved in this MLS state, if it cannot. -/
  admission : σ → Bytes → Option PrivateGroupError
  /-- Whether the commit log refuses the row of the epoch. -/
  append : Nat → Bool
  /-- Why the evidence that comes with a frame is not retained, if it is not. -/
  retain : Option PrivateGroupError
  /-- Why an own change or a checkpoint cannot be prepared, if it cannot. -/
  prepare : Option PrivateGroupError
  /-- Why the network refuses to publish, if it does. -/
  publish : Option PrivateGroupError

/-- Nothing is refused. -/
def Faults.none : Faults σ Bytes := ⟨fun _ _ => .none, fun _ => false, .none, .none, .none⟩

/-- The state a group shares with its commit sequencing: the MLS state, the
    sequencer and the store. `merged` is not in the program: it records the
    commits that were merged into the MLS state, oldest first. -/
structure Member (σ Text Bytes : Type) where
  crypto : σ
  sequencer : CommitSequencer Text
  persistence : Option (GroupStore σ Bytes)
  merged : List Bytes

/-- A member that has just joined, with an empty store. -/
def Member.joined (crypto : σ) : Member σ Text Bytes :=
  ⟨crypto, .new, some ⟨some crypto, ∅, []⟩, []⟩

variable (mls : Mls σ Text Bytes Fp Tree) (faults : Faults σ Bytes) (groupId : String)

/-- Save the staged state and the evidence of its transition in one transaction. -/
def persistMembership (previous : σ) (staged : StagedMembership σ Bytes)
    (store : Option (GroupStore σ Bytes)) (commit : Bytes) :
    Except PrivateGroupError (Option (GroupStore σ Bytes)) :=
  match store with
  | .none => .ok .none
  | .some store =>
    match faults.admission previous commit with
    | .some e => .error e
    | .none => .ok <| .some { store with
        snapshot := .some staged.next
        transitions := store.transitions.insert staged.prior.epoch
          { prior := staged.prior
            next := staged.context
            originalAuthorMlsKey := staged.author
            originalCommit := commit
            previousMemberKeys := mls.memberSigners previous
            nextMemberKeys := mls.memberSigners staged.next
            selfRemoved := staged.removed } }

/-- Put a commit into the commit log; a refusal is only logged. A group id with a
    `/` in it would reach into the rows of another group, and is refused. -/
def logGroupCommit (store : Option (GroupStore σ Bytes)) (epoch : Nat) (commit : Bytes) :
    Option (GroupStore σ Bytes) :=
  store.map fun store =>
    if groupId.toList.contains '/' || faults.append epoch then store
    else { store with commitLog := store.commitLog ++ [(epoch, commit)] }

/-! ## One commit -/

/-- What a normal return of a call reports. -/
inductive SequenceOutcome
  | done
  /-- A buffered commit cannot be applied yet. -/
  | gapped
  deriving DecidableEq, Repr

/-- Stage a commit, save it and install it. -/
def acceptCommit (m : Member σ Text Bytes) (bytes : Bytes) :
    Except PrivateGroupError (Member σ Text Bytes) :=
  match mls.stageMembership m.crypto bytes with
  | .error e => .error e
  | .ok staged =>
    match persistMembership mls faults m.crypto staged m.persistence bytes with
    | .error e => .error e
    | .ok store => .ok { m with
        crypto := staged.next, persistence := store, merged := m.merged ++ [bytes] }

variable [DecidableEq Text]

/-- Accept a commit, then drop the buffered entry of its epoch, confirm it and
    put it into the commit log. -/
def settle (m : Member σ Text Bytes) (epoch : Nat) (commitB64 : Text) (bytes : Bytes) :
    Except PrivateGroupError (Member σ Text Bytes) :=
  match acceptCommit mls faults m bytes with
  | .error e => .error e
  | .ok m => .ok { m with
      sequencer := (m.sequencer.drainReady epoch).confirm commitB64
      persistence := logGroupCommit faults groupId m.persistence epoch bytes }

/-- Settle the buffered successors. Every turn of the loop takes an entry out of
    the buffer, so its size bounds the turns. -/
def drainLoop : Nat → Member σ Text Bytes → Except PrivateGroupError Unit × Member σ Text Bytes
  | 0, m => (.ok (), m)
  | turns + 1, m =>
    match mls.epoch m.crypto with
    | .none => (.ok (), m)
    | .some current =>
      match m.sequencer.peekReady current with
      | .none => (.ok (), m)
      | .some nextB64 =>
        match mls.decode nextB64 with
        | .error e => (.error e, m)
        | .ok nextBytes =>
          match settle mls faults groupId m current nextB64 nextBytes with
          | .error e => (.error e, m)
          | .ok m' => drainLoop turns m'

omit [DecidableEq Text] in
/-- The gap at the current epoch. -/
def stuck (m : Member σ Text Bytes) : Bool := (mls.epoch m.crypto).any m.sequencer.gap

/-- Drain the buffered successors, and report the gap that remains. -/
def drainAndReport (m : Member σ Text Bytes) :
    Except PrivateGroupError SequenceOutcome × Member σ Text Bytes :=
  match drainLoop mls faults groupId m.sequencer.buffered.size m with
  | (.error e, m') => (.error e, m')
  | (.ok (), m') => (.ok (if stuck mls m' then .gapped else .done), m')

/-- Merge a commit in epoch order, with the buffered successors it makes ready. -/
def sequenceCommit (m : Member σ Text Bytes) (commitB64 : Text) :
    Except PrivateGroupError SequenceOutcome × Member σ Text Bytes :=
  match mls.epoch m.crypto with
  | .none => (.ok .done, m)
  | .some current =>
    match mls.decode commitB64 with
    | .error e => (.error e, m)
    | .ok commitBytes =>
      match mls.commitEpoch commitBytes with
      | .error e => (.error e, m)
      | .ok wireEpoch =>
        match m.sequencer.offer current wireEpoch commitB64 with
        | (.apply, q) =>
          match settle mls faults groupId { m with sequencer := q } wireEpoch commitB64
              commitBytes with
          | .error e => (.error e, { m with sequencer := q })
          | .ok m' => drainAndReport mls faults groupId m'
        | (_, q) => drainAndReport mls faults groupId { m with sequencer := q }

/-- A commit of a resync replay, with the epoch the admin logged it at. -/
structure ResyncCommit (Text : Type) where
  epoch : Nat
  commitB64 : Text
  deriving DecidableEq, Repr

/-- Feed an admin's replay through sequencing, every entry together with what is
    refused while it is fed. An entry that fails does not stop the rest. Returns
    whether a gap remains. -/
def absorbResyncCommits (m : Member σ Text Bytes)
    (commits : List (Faults σ Bytes × ResyncCommit Text)) : Bool × Member σ Text Bytes :=
  let m' := commits.foldl
    (fun m entry => (sequenceCommit mls entry.1 groupId m entry.2.commitB64).2) m
  (stuck mls m', m')

theorem absorbResyncCommits_fst (m : Member σ Text Bytes)
    (commits : List (Faults σ Bytes × ResyncCommit Text)) :
    (absorbResyncCommits mls groupId m commits).1 =
      stuck mls (absorbResyncCommits mls groupId m commits).2 := rfl

/-! ## What a call can do -/

/-- The moves within a call for the commit `text`: a future commit is held in the
    buffer, or the commit of the current epoch, which is `text` itself or was
    buffered for it, is settled. -/
inductive Move (text : Text) : Member σ Text Bytes → Member σ Text Bytes → Prop
  | buffer {m : Member σ Text Bytes} {current wire : Nat} :
      mls.epoch m.crypto = some current → mls.WireEpoch text wire → current < wire →
      text ∉ m.sequencer.applied → ¬m.sequencer.Buffers wire →
      m.sequencer.buffered.size < bufferCap →
      Move text m { m with sequencer :=
        { m.sequencer with buffered := m.sequencer.buffered.insert wire text } }
  | settle {m m' : Member σ Text Bytes} {current : Nat} {next : Text} {bytes : Bytes} :
      mls.epoch m.crypto = some current → mls.decode next = .ok bytes →
      (next = text ∧ mls.commitEpoch bytes = .ok current ∧ text ∉ m.sequencer.applied ∨
        m.sequencer.peekReady current = some next) →
      Group.settle mls faults groupId m current next bytes = .ok m' → Move text m m'

variable {mls faults groupId} {m m' : Member σ Text Bytes} {text next : Text} {bytes : Bytes}
  {current : Nat}

omit [DecidableEq Text] in
/-- What an accepted commit changes. -/
theorem acceptCommit_eq_ok (h : acceptCommit mls faults m bytes = .ok m') :
    ∃ staged store, mls.stageMembership m.crypto bytes = .ok staged ∧
      persistMembership mls faults m.crypto staged m.persistence bytes = .ok store ∧
      m' = { m with
        crypto := staged.next, persistence := store, merged := m.merged ++ [bytes] } := by
  unfold acceptCommit at h
  split at h
  · cases h
  · next staged hs =>
    split at h
    · cases h
    · next store hp => exact ⟨staged, store, hs, hp, (Except.ok.inj h).symm⟩

/-- What a settled commit changes. -/
theorem settle_eq_ok (h : settle mls faults groupId m current next bytes = .ok m') :
    ∃ staged store, mls.stageMembership m.crypto bytes = .ok staged ∧
      persistMembership mls faults m.crypto staged m.persistence bytes = .ok store ∧
      m' = { crypto := staged.next
             sequencer := (m.sequencer.drainReady current).confirm next
             persistence := logGroupCommit faults groupId store current bytes
             merged := m.merged ++ [bytes] } := by
  unfold settle at h
  split at h
  · cases h
  · next m₁ ha =>
    obtain ⟨staged, store, hs, hp, rfl⟩ := acceptCommit_eq_ok ha
    exact ⟨staged, store, hs, hp, (Except.ok.inj h).symm⟩

/-- A turn of the drain loop: the commit buffered for the current epoch is settled. -/
def Drains (mls : Mls σ Text Bytes Fp Tree) (faults : Faults σ Bytes) (groupId : String)
    (m m' : Member σ Text Bytes) : Prop :=
  ∃ current next bytes, mls.epoch m.crypto = some current ∧ mls.decode next = .ok bytes ∧
    m.sequencer.peekReady current = some next ∧
    settle mls faults groupId m current next bytes = .ok m'

variable (mls faults groupId) in
theorem drainLoop_drains (turns : Nat) (m : Member σ Text Bytes) :
    Relation.ReflTransGen (Drains mls faults groupId) m
      (drainLoop mls faults groupId turns m).2 := by
  induction turns generalizing m with
  | zero => exact .refl
  | succ turns ih =>
    rw [drainLoop]
    split
    · exact .refl
    · next current hc =>
      split
      · exact .refl
      · next nextB64 hp =>
        split
        · exact .refl
        · next nextBytes hd =>
          split
          · exact .refl
          · next m' hm => exact .head ⟨current, nextB64, nextBytes, hc, hd, hp, hm⟩ (ih m')

variable (mls faults groupId) in
theorem drainLoop_moves (text : Text) (turns : Nat) (m : Member σ Text Bytes) :
    Relation.ReflTransGen (Move mls faults groupId text) m
      (drainLoop mls faults groupId turns m).2 :=
  Relation.ReflTransGen.mono (fun _ _ ⟨_, _, _, hc, hd, hp, hm⟩ => .settle hc hd (.inr hp) hm) _ _
    (drainLoop_drains mls faults groupId turns m)

variable (mls faults groupId) in
theorem drainAndReport_snd (m : Member σ Text Bytes) :
    (drainAndReport mls faults groupId m).2 =
      (drainLoop mls faults groupId m.sequencer.buffered.size m).2 := by
  rw [drainAndReport]
  split <;> rename_i h <;> rw [h]

/-- A call whose commit is of the current epoch, and is settled. -/
theorem sequenceCommit_of_settle (hc : mls.epoch m.crypto = some current)
    (hd : mls.decode text = .ok bytes) (hw : mls.commitEpoch bytes = .ok current)
    (hx : text ∉ m.sequencer.applied)
    (hs : settle mls faults groupId m current text bytes = .ok m') :
    sequenceCommit mls faults groupId m text = drainAndReport mls faults groupId m' := by
  simp only [sequenceCommit, hc, hd, hw, CommitSequencer.offer_current hx, hs]

/-- A call whose commit is not of the current epoch, or was applied before. -/
theorem sequenceCommit_of_ne_apply {q : CommitSequencer Text} {wire : Nat} {d : Disposition}
    (hc : mls.epoch m.crypto = some current) (hd : mls.decode text = .ok bytes)
    (hw : mls.commitEpoch bytes = .ok wire) (ho : m.sequencer.offer current wire text = (d, q))
    (hne : d ≠ .apply) :
    sequenceCommit mls faults groupId m text =
      drainAndReport mls faults groupId { m with sequencer := q } := by
  simp only [sequenceCommit, hc, hd, hw, ho]

/-- How a call ends that does not come to the buffered commits: its text is
    malformed or the group does not exist, or it is of the current epoch and refused. -/
inductive Cut (mls : Mls σ Text Bytes Fp Tree) (faults : Faults σ Bytes) (groupId : String)
    (m : Member σ Text Bytes) (text : Text) : Prop
  | absent : mls.epoch m.crypto = none → Cut mls faults groupId m text
  | malformed : (∀ wire, ¬mls.WireEpoch text wire) → Cut mls faults groupId m text
  | refused {current : Nat} {bytes : Bytes} : mls.epoch m.crypto = some current →
      mls.decode text = .ok bytes → mls.commitEpoch bytes = .ok current →
      text ∉ m.sequencer.applied →
      (∀ m', settle mls faults groupId m current text bytes ≠ .ok m') →
      Cut mls faults groupId m text

variable (mls faults groupId m text) in
/-- What a call does: it is cut short and changes nothing, or it settles the commit,
    holds it or drops it, and then drains the buffer. -/
theorem sequenceCommit_cases :
    (Cut mls faults groupId m text ∧ (sequenceCommit mls faults groupId m text).2 = m ∧
      ((∃ e, mls.epoch m.crypto = some e) →
        ∃ err, (sequenceCommit mls faults groupId m text).1 = .error err)) ∨
    ∃ current bytes wire m₁, mls.epoch m.crypto = some current ∧ mls.decode text = .ok bytes ∧
      mls.commitEpoch bytes = .ok wire ∧
      sequenceCommit mls faults groupId m text = drainAndReport mls faults groupId m₁ ∧
      ((m₁ = m ∧ (text ∈ m.sequencer.applied ∨ wire < current)) ∨
        (wire = current ∧ text ∉ m.sequencer.applied ∧
          settle mls faults groupId m current text bytes = .ok m₁) ∨
        (m₁ = m ∧ text ∉ m.sequencer.applied ∧ current < wire ∧
          (m.sequencer.Buffers wire ∨ bufferCap ≤ m.sequencer.buffered.size)) ∨
        (text ∉ m.sequencer.applied ∧ current < wire ∧ ¬m.sequencer.Buffers wire ∧
          m.sequencer.buffered.size < bufferCap ∧
          m₁ = { m with sequencer :=
            { m.sequencer with buffered := m.sequencer.buffered.insert wire text } })) := by
  cases hc : mls.epoch m.crypto with
  | none => exact .inl ⟨.absent hc, by simp only [sequenceCommit, hc], fun ⟨_, h⟩ => nomatch h⟩
  | some current =>
    cases hd : mls.decode text with
    | error err =>
      refine .inl ⟨.malformed ?_, by simp only [sequenceCommit, hc, hd],
        fun _ => ⟨err, by simp only [sequenceCommit, hc, hd]⟩⟩
      rintro wire ⟨b, hb, -⟩
      exact absurd (hd.symm.trans hb) (by simp)
    | ok bytes =>
      cases hw : mls.commitEpoch bytes with
      | error err =>
        refine .inl ⟨.malformed ?_, by simp only [sequenceCommit, hc, hd, hw],
          fun _ => ⟨err, by simp only [sequenceCommit, hc, hd, hw]⟩⟩
        rintro wire ⟨b, hb, hk⟩
        obtain rfl := Except.ok.inj (hd.symm.trans hb)
        exact absurd (hw.symm.trans hk) (by simp)
      | ok wire =>
        rcases m.sequencer.offer_cases current wire text with ⟨ho, hold⟩ | ⟨ho, hx, rfl⟩ |
          ⟨hx, hlt, ho, hfull⟩ | ⟨hx, hlt, hb, hs, ho⟩
        · exact .inr ⟨current, bytes, wire, m, rfl, rfl, hw,
            sequenceCommit_of_ne_apply hc hd hw ho (by decide), .inl ⟨rfl, hold⟩⟩
        · cases hs : settle mls faults groupId m wire text bytes with
          | error err =>
            refine .inl ⟨.refused hc hd hw hx (by simp [hs]), ?_, fun _ => ⟨err, ?_⟩⟩
            · simp only [sequenceCommit, hc, hd, hw, ho, hs]
            · simp only [sequenceCommit, hc, hd, hw, ho, hs]
          | ok m' =>
            exact .inr ⟨wire, bytes, wire, m', rfl, rfl, hw,
              sequenceCommit_of_settle hc hd hw hx hs, .inr (.inl ⟨rfl, hx, hs⟩)⟩
        · exact .inr ⟨current, bytes, wire, m, rfl, rfl, hw,
            sequenceCommit_of_ne_apply hc hd hw ho (by decide),
            .inr (.inr (.inl ⟨rfl, hx, hlt, hfull⟩))⟩
        · exact .inr ⟨current, bytes, wire, _, rfl, rfl, hw,
            sequenceCommit_of_ne_apply hc hd hw ho (by decide),
            .inr (.inr (.inr ⟨hx, hlt, hb, hs, rfl⟩))⟩

variable (mls faults groupId) in
/-- A call is a sequence of moves. -/
theorem sequenceCommit_moves (m : Member σ Text Bytes) (text : Text) :
    Relation.ReflTransGen (Move mls faults groupId text) m
      (sequenceCommit mls faults groupId m text).2 := by
  rcases sequenceCommit_cases mls faults groupId m text with ⟨-, hm, -⟩ |
    ⟨current, bytes, wire, m₁, hc, hd, hw, hcall, hm₁⟩
  · rw [hm]
  · rw [hcall, drainAndReport_snd]
    rcases hm₁ with ⟨rfl, -⟩ | ⟨rfl, hx, hs⟩ | ⟨rfl, -⟩ | ⟨hx, hlt, hb, hsize, rfl⟩
    · exact drainLoop_moves mls faults groupId text _ _
    · exact .head (.settle hc hd (.inl ⟨rfl, hw, hx⟩) hs)
        (drainLoop_moves mls faults groupId text _ m₁)
    · exact drainLoop_moves mls faults groupId text _ _
    · exact .head (.buffer hc ⟨bytes, hd, hw⟩ hlt hx hb hsize)
        (drainLoop_moves mls faults groupId text _ _)

/-! ## How a call ends -/

theorem drainLoop_of_peekReady_eq_none {turns : Nat} (hc : mls.epoch m.crypto = some current)
    (hp : m.sequencer.peekReady current = none) :
    drainLoop mls faults groupId turns m = (.ok (), m) := by
  cases turns with
  | zero => rfl
  | succ turns => simp only [drainLoop, hc, hp]

theorem drainLoop_of_settle {turns : Nat} (hc : mls.epoch m.crypto = some current)
    (hp : m.sequencer.peekReady current = some next) (hd : mls.decode next = .ok bytes)
    (hs : settle mls faults groupId m current next bytes = .ok m') :
    drainLoop mls faults groupId (turns + 1) m = drainLoop mls faults groupId turns m' := by
  simp only [drainLoop, hc, hp, hd, hs]

/-- The buffered commit `next` cannot be settled at the epoch `e`: it is malformed,
    it fails to stage or it cannot be saved. -/
def Refused (mls : Mls σ Text Bytes Fp Tree) (faults : Faults σ Bytes) (groupId : String)
    (m : Member σ Text Bytes) (e : Nat) (next : Text) : Prop :=
  ∀ bytes, mls.decode next = .ok bytes → ∀ m', settle mls faults groupId m e next bytes ≠ .ok m'

/-- The size of the buffer is enough turns: the loop ends at an epoch without a
    buffered commit, or in an error in front of one that is refused. -/
theorem drainLoop_end {turns : Nat} (hsize : m.sequencer.buffered.size ≤ turns)
    (hc : mls.epoch (drainLoop mls faults groupId turns m).2.crypto = some current) :
    ((drainLoop mls faults groupId turns m).1 = .ok () ∧
      (drainLoop mls faults groupId turns m).2.sequencer.peekReady current = none) ∨
    ∃ err next, (drainLoop mls faults groupId turns m).1 = .error err ∧
      (drainLoop mls faults groupId turns m).2.sequencer.peekReady current = some next ∧
      Refused mls faults groupId (drainLoop mls faults groupId turns m).2 current next := by
  induction turns generalizing m with
  | zero =>
    refine .inl ⟨rfl, CommitSequencer.not_buffers_iff.1 fun hb => ?_⟩
    obtain ⟨x, hx⟩ := CommitSequencer.buffers_iff.1 hb
    have := CommitSequencer.size_drainReady hx
    simp only [drainLoop] at this hsize
    omega
  | succ turns ih =>
    revert hc
    rw [drainLoop]
    split
    · next hn => exact fun hc => absurd (hn.symm.trans hc) (by simp)
    · next e he =>
      split
      · next hp => exact fun hc => .inl ⟨rfl, Option.some.inj (he.symm.trans hc) ▸ hp⟩
      · next nextB64 hp =>
        split
        · next err hd =>
          refine fun hc => .inr ⟨err, nextB64, rfl, ?_, fun b hb => ?_⟩
          · exact Option.some.inj (he.symm.trans hc) ▸ hp
          · exact absurd (hd.symm.trans hb) (by simp)
        · next nextBytes hd =>
          split
          · next err hs =>
            refine fun hc => .inr ⟨err, nextB64, rfl, ?_, fun b hb m' hm' => ?_⟩
            · exact Option.some.inj (he.symm.trans hc) ▸ hp
            · obtain rfl := Except.ok.inj (hd.symm.trans hb)
              obtain rfl := Option.some.inj (he.symm.trans hc)
              exact absurd (hs.symm.trans hm') (by simp)
          · next m' hs =>
            intro hc
            obtain ⟨staged, store, -, -, rfl⟩ := settle_eq_ok hs
            refine ih ?_ hc
            have := CommitSequencer.size_drainReady hp
            change (m.sequencer.drainReady e).buffered.size ≤ turns
            omega

/-- The outcome `o` tells whether there is a gap at the epoch `e`. -/
def Reports {σ Text Bytes : Type} (m : Member σ Text Bytes) (e : Nat) (o : SequenceOutcome) : Prop :=
  o = .gapped ∧ m.sequencer.gap e = true ∨ o = .done ∧ m.sequencer.gap e = false

variable (mls faults groupId m) in
/-- Draining ends at an epoch without a buffered commit, and reports the gap there, or
    in an error in front of a buffered commit that is refused. -/
theorem drainAndReport_end
    (hc : mls.epoch (drainAndReport mls faults groupId m).2.crypto = some current) :
    (∃ o, (drainAndReport mls faults groupId m).1 = .ok o ∧
      Reports (drainAndReport mls faults groupId m).2 current o ∧
      (drainAndReport mls faults groupId m).2.sequencer.peekReady current = none) ∨
    ∃ err next, (drainAndReport mls faults groupId m).1 = .error err ∧
      (drainAndReport mls faults groupId m).2.sequencer.peekReady current = some next ∧
      Refused mls faults groupId (drainAndReport mls faults groupId m).2 current next := by
  rw [drainAndReport_snd] at hc ⊢
  rcases drainLoop_end le_rfl hc with ⟨hok, hp⟩ | ⟨err, next, herr, hp, hr⟩
  · rw [drainAndReport]
    split <;> rename_i h
    · rw [h] at hok
      cases hok
    · rw [h] at hc hp ⊢
      refine .inl ⟨_, rfl, ?_, hp⟩
      rw [stuck, hc, Option.any_some, Reports]
      split <;> rename_i hgap
      · exact .inl ⟨rfl, hgap⟩
      · exact .inr ⟨rfl, Bool.eq_false_iff.2 hgap⟩
  · refine .inr ⟨err, next, ?_, hp, hr⟩
    rw [drainAndReport]
    split <;> rename_i h
    · rw [h] at herr
      rw [Except.error.inj herr]
    · rw [h] at herr
      cases herr

variable (mls faults groupId m text) in
/-- How a call ends: it is cut short with an error, it ends at an epoch without a
    buffered commit and reports the gap there, or it ends in an error in front of a
    buffered commit. -/
theorem sequenceCommit_end (hknown : ∃ e, mls.epoch m.crypto = some e)
    (hc : mls.epoch (sequenceCommit mls faults groupId m text).2.crypto = some current) :
    ((sequenceCommit mls faults groupId m text).2 = m ∧
      ∃ err, (sequenceCommit mls faults groupId m text).1 = .error err) ∨
    (∃ o, (sequenceCommit mls faults groupId m text).1 = .ok o ∧
      Reports (sequenceCommit mls faults groupId m text).2 current o ∧
      (sequenceCommit mls faults groupId m text).2.sequencer.peekReady current = none) ∨
    ∃ err next, (sequenceCommit mls faults groupId m text).1 = .error err ∧
      (sequenceCommit mls faults groupId m text).2.sequencer.peekReady current = some next := by
  rcases sequenceCommit_cases mls faults groupId m text with ⟨-, hm, herr⟩ |
    ⟨_, _, _, m₁, -, -, -, hcall, -⟩
  · exact .inl ⟨hm, herr hknown⟩
  · rw [hcall] at hc ⊢
    rcases drainAndReport_end mls faults groupId m₁ hc with h | ⟨err, next, herr, hp, -⟩
    · exact .inr (.inl h)
    · exact .inr (.inr ⟨err, next, herr, hp⟩)

theorem Move.lastRequestedEpoch (h : Move mls faults groupId text m m') :
    m'.sequencer.lastRequestedEpoch = m.sequencer.lastRequestedEpoch := by
  cases h with
  | buffer => rfl
  | settle hc hd hfrom hs =>
    obtain ⟨staged, store, -, -, rfl⟩ := settle_eq_ok hs
    rfl

/-! ## Storage that refuses nothing -/

omit [DecidableEq Text] in
variable (mls) in
theorem persistMembership_quiet (hq : ∀ x b, faults.admission x b = none)
    (previous : σ) (staged : StagedMembership σ Bytes) (store : Option (GroupStore σ Bytes))
    (commit : Bytes) :
    ∃ store', persistMembership mls faults previous staged store commit = .ok store' ∧
      store'.map GroupStore.commitLog = store.map GroupStore.commitLog := by
  cases store with
  | none => exact ⟨none, rfl, rfl⟩
  | some store =>
    refine ⟨_, by simp only [persistMembership, hq]; rfl, ?_⟩
    rfl

variable (groupId current next) in
/-- A commit that stages is settled when the store refuses nothing. -/
theorem settle_quiet {staged : StagedMembership σ Bytes}
    (hq : ∀ x b, faults.admission x b = none)
    (hs : mls.stageMembership m.crypto bytes = .ok staged) :
    ∃ store, settle mls faults groupId m current next bytes = .ok
        { crypto := staged.next
          sequencer := (m.sequencer.drainReady current).confirm next
          persistence := logGroupCommit faults groupId store current bytes
          merged := m.merged ++ [bytes] } ∧
      store.map GroupStore.commitLog = m.persistence.map GroupStore.commitLog := by
  obtain ⟨store, hp, hlog⟩ := persistMembership_quiet mls hq m.crypto staged m.persistence bytes
  exact ⟨store, by simp only [settle, acceptCommit, hs, hp], hlog⟩

/-! ## Invariants of calls -/

variable (text) in
/-- What every move of a call keeps, draining keeps. -/
theorem drainAndReport_invariant {P : Member σ Text Bytes → Prop}
    (hmove : ∀ m m', Move mls faults groupId text m m' → P m → P m') (hm : P m) :
    P (drainAndReport mls faults groupId m).2 := by
  rw [drainAndReport_snd]
  have h := drainLoop_moves mls faults groupId text m.sequencer.buffered.size m
  generalize (drainLoop mls faults groupId m.sequencer.buffered.size m).2 = m' at h ⊢
  induction h with
  | refl => exact hm
  | tail _ hmv ih => exact hmove _ _ hmv ih

/-- What every move of a call keeps, the call keeps. -/
theorem sequenceCommit_invariant {P : Member σ Text Bytes → Prop}
    (hmove : ∀ m m', Move mls faults groupId text m m' → P m → P m') (hm : P m) :
    P (sequenceCommit mls faults groupId m text).2 := by
  have h := sequenceCommit_moves mls faults groupId m text
  generalize (sequenceCommit mls faults groupId m text).2 = m' at h ⊢
  induction h with
  | refl => exact hm
  | tail _ hmv ih => exact hmove _ _ hmv ih

/-- What every call keeps, a resync replay keeps. -/
theorem absorbResyncCommits_invariant {P : Member σ Text Bytes → Prop}
    {commits : List (Faults σ Bytes × ResyncCommit Text)}
    (hcall : ∀ entry ∈ commits, ∀ m, P m →
      P (sequenceCommit mls entry.1 groupId m entry.2.commitB64).2)
    (hm : P m) : P (absorbResyncCommits mls groupId m commits).2 := by
  change P (commits.foldl _ m)
  induction commits generalizing m with
  | nil => exact hm
  | cons entry commits ih =>
    exact ih (fun e he => hcall e (List.mem_cons_of_mem _ he))
      (hcall entry List.mem_cons_self m hm)

end Mosh.Group
