import Mathlib

/-!
# The commit sequencer

Epoch-ordered admission of MLS commits (`commit_sequencer.rs`). Gossip gives no
ordering guarantee, so a member may receive the commit of a later epoch first,
or the same commit twice. For every commit offered, the sequencer says whether
to apply it now, to hold it for later or to drop it, and it reports when a
buffered commit cannot be reached (`gap`).

A commit travels as base64 text, of which the sequencer only ever asks whether
two are the same: `Text` is any type with decidable equality. Epochs are
unbounded here; the sequencer only compares them.
-/

namespace Mosh.Group

open Std (ExtTreeMap)

/-- What to do with a commit that was offered. -/
inductive Disposition
  /-- It is for the current epoch: process it now, then `confirm`. -/
  | apply
  /-- It is for a future epoch: held in the buffer. -/
  | buffered
  /-- It is a duplicate of an applied commit, or for a past epoch. -/
  | alreadySeen
  deriving DecidableEq, Repr

/-- Bounds the memory that distinct future-epoch commits can take. -/
def bufferCap : Nat := 64

/-- The commits that were applied, the future commits by their wire epoch (the
    first one for every epoch), and the epoch of the last resync request. -/
structure CommitSequencer (Text : Type) where
  applied : Finset Text
  buffered : ExtTreeMap Nat Text compare
  lastRequestedEpoch : Option Nat

namespace CommitSequencer

variable {Text : Type}

/-- A sequencer that has seen nothing. -/
def new : CommitSequencer Text := ⟨∅, ∅, none⟩

variable [DecidableEq Text] (q : CommitSequencer Text)

/-- Classify a commit by its wire epoch, and keep it if it is a future one. -/
def offer (currentEpoch commitEpoch : Nat) (commitB64 : Text) :
    Disposition × CommitSequencer Text :=
  if commitB64 ∈ q.applied then (.alreadySeen, q)
  else match compare commitEpoch currentEpoch with
    | .lt => (.alreadySeen, q)
    | .eq => (.apply, q)
    | .gt =>
      -- The first entry of an epoch stays, and the buffer stops growing at its cap.
      if !q.buffered.contains commitEpoch && q.buffered.size < bufferCap then
        (.buffered, { q with buffered := q.buffered.insert commitEpoch commitB64 })
      else (.buffered, q)

/-- Record a commit as applied. -/
def confirm (commitB64 : Text) : CommitSequencer Text :=
  { q with applied := insert commitB64 q.applied }

omit [DecidableEq Text]

/-- Remove the buffered commit applicable at the epoch, if any. -/
def drainReady (currentEpoch : Nat) : CommitSequencer Text :=
  { q with buffered := q.buffered.erase currentEpoch }

/-- The buffered commit applicable at the epoch, if any. -/
def peekReady (currentEpoch : Nat) : Option Text := q.buffered[currentEpoch]?

/-- The first buffered commit is for a later epoch: the commits before it are
    missing. -/
def gap (currentEpoch : Nat) : Bool :=
  q.buffered.keys.head?.any fun head => decide (currentEpoch < head)

/-- Whether to request a resync, once for every epoch the member is stuck at. -/
def shouldRequest (haveEpoch : Nat) : Bool × CommitSequencer Text :=
  if q.lastRequestedEpoch = some haveEpoch then (false, q)
  else (true, { q with lastRequestedEpoch := some haveEpoch })

/-- Undo the reservation of a request. -/
def rearm : CommitSequencer Text := { q with lastRequestedEpoch := none }

/-! ## The gap -/

variable {q} {current k : Nat} {x : Text}

/-- A commit is buffered for the epoch `k`. -/
def Buffers (q : CommitSequencer Text) (k : Nat) : Prop := k ∈ q.buffered

theorem buffers_iff : q.Buffers k ↔ ∃ x, q.peekReady k = some x := by
  rw [Buffers, ExtTreeMap.mem_iff_isSome_getElem?, Option.isSome_iff_exists, peekReady]

theorem not_buffers_iff : ¬q.Buffers k ↔ q.peekReady k = none := by
  rw [buffers_iff, Option.eq_none_iff_forall_ne_some]
  push Not
  rfl

theorem buffers_of_peekReady (h : q.peekReady k = some x) : q.Buffers k := buffers_iff.2 ⟨x, h⟩

/-- The gap is reported exactly when something is buffered, and only for later epochs. -/
theorem gap_iff : q.gap current = true ↔ (∃ k, q.Buffers k) ∧ ∀ k, q.Buffers k → current < k := by
  rw [gap, ← ExtTreeMap.minKey?_eq_head?_keys]
  cases hm : q.buffered.minKey? with
  | none =>
    have hempty : q.buffered = ∅ := ExtTreeMap.minKey?_eq_none_iff.1 hm
    simp [Buffers, hempty]
  | some head =>
    obtain ⟨hmem, hmin⟩ := ExtTreeMap.minKey?_eq_some_iff_mem_and_forall.1 hm
    simp only [Option.any_some, decide_eq_true_eq]
    constructor
    · exact fun hlt => ⟨⟨head, hmem⟩, fun k hk => hlt.trans_le (Nat.isLE_compare.1 (hmin k hk))⟩
    · exact fun h => h.2 head hmem

/-! ## What the operations change -/

@[simp] theorem peekReady_new : (new : CommitSequencer Text).peekReady k = none := by
  simp [new, peekReady]

theorem not_buffers_new : ¬(new : CommitSequencer Text).Buffers k :=
  not_buffers_iff.2 peekReady_new

@[simp] theorem peekReady_rearm : q.rearm.peekReady k = q.peekReady k := rfl

@[simp] theorem applied_rearm : q.rearm.applied = q.applied := rfl

@[simp] theorem buffers_rearm : q.rearm.Buffers k ↔ q.Buffers k := Iff.rfl

@[simp] theorem gap_rearm : q.rearm.gap k = q.gap k := rfl

@[simp] theorem buffered_shouldRequest {e : Nat} :
    (q.shouldRequest e).2.buffered = q.buffered := by
  rw [shouldRequest]; split <;> rfl

@[simp] theorem applied_shouldRequest {e : Nat} : (q.shouldRequest e).2.applied = q.applied := by
  rw [shouldRequest]; split <;> rfl

/-- After the question whether to request at an epoch, the epoch is the one requested last. -/
theorem lastRequestedEpoch_shouldRequest {e : Nat} :
    (q.shouldRequest e).2.lastRequestedEpoch = some e := by
  rw [shouldRequest]
  split
  · assumption
  · rfl

theorem peekReady_drainReady {e : Nat} :
    (q.drainReady e).peekReady k = if e = k then none else q.peekReady k := by
  simp [drainReady, peekReady, ExtTreeMap.getElem?_erase]

theorem buffers_drainReady {e : Nat} : (q.drainReady e).Buffers k ↔ k ≠ e ∧ q.Buffers k := by
  simp [drainReady, Buffers, ExtTreeMap.mem_erase, ne_comm]

@[simp] theorem applied_drainReady {e : Nat} : (q.drainReady e).applied = q.applied := rfl

@[simp] theorem lastRequestedEpoch_drainReady {e : Nat} :
    (q.drainReady e).lastRequestedEpoch = q.lastRequestedEpoch := rfl

theorem peekReady_insert {wire : Nat} :
    ({ q with buffered := q.buffered.insert wire x } : CommitSequencer Text).peekReady k =
      if wire = k then some x else q.peekReady k := by
  simp [peekReady, ExtTreeMap.getElem?_insert]

theorem buffers_insert {wire : Nat} :
    ({ q with buffered := q.buffered.insert wire x } : CommitSequencer Text).Buffers k ↔
      k = wire ∨ q.Buffers k := by
  rw [Buffers, ExtTreeMap.mem_insert, Nat.compare_eq_eq, eq_comm, Buffers]

/-- Removing a commit that is buffered shrinks the buffer. -/
theorem size_drainReady (h : q.peekReady k = some x) :
    (q.drainReady k).buffered.size + 1 = q.buffered.size := by
  have hk : k ∈ q.buffered := buffers_of_peekReady h
  have hpos : q.buffered.size ≠ 0 := fun h0 => by
    rw [ExtTreeMap.eq_empty_iff_size_eq_zero.2 h0] at hk
    simp at hk
  rw [drainReady, ExtTreeMap.size_erase, if_pos (ExtTreeMap.contains_iff_mem.2 hk)]
  omega

/-- The buffer has at most as many entries as there are epochs it can hold one for. -/
theorem size_buffered_le {s : Finset Nat} (h : ∀ k, q.Buffers k → k ∈ s) :
    q.buffered.size ≤ s.card := by
  have hnodup : q.buffered.keys.Nodup := ExtTreeMap.nodup_keys
  have hsub : q.buffered.keys.toFinset ⊆ s := fun k hk =>
    h k (ExtTreeMap.mem_keys.1 (List.mem_toFinset.1 hk))
  calc q.buffered.size = q.buffered.keys.length := ExtTreeMap.length_keys.symm
    _ = q.buffered.keys.toFinset.card := (List.toFinset_card_of_nodup hnodup).symm
    _ ≤ s.card := Finset.card_le_card hsub

theorem buffered_eq_empty (h : ∀ k, ¬q.Buffers k) : q.buffered = ∅ :=
  ExtTreeMap.eq_empty_iff_forall_not_mem.2 h

variable [DecidableEq Text]

@[simp] theorem peekReady_confirm : (q.confirm x).peekReady k = q.peekReady k := rfl

@[simp] theorem buffers_confirm : (q.confirm x).Buffers k ↔ q.Buffers k := Iff.rfl

@[simp] theorem lastRequestedEpoch_confirm :
    (q.confirm x).lastRequestedEpoch = q.lastRequestedEpoch := rfl

@[simp] theorem mem_applied_confirm {y : Text} :
    y ∈ (q.confirm x).applied ↔ y = x ∨ y ∈ q.applied := by
  simp [confirm]

/-- A commit of the current epoch that was not applied before is to be applied. -/
theorem offer_current (hx : x ∉ q.applied) : q.offer current current x = (.apply, q) := by
  rw [offer, if_neg hx, Nat.compare_eq_eq.2 rfl]

/-- What an offer can do: drop the commit, have it applied, or hold it in the
    buffer, unless its epoch is taken there or the buffer is full. -/
theorem offer_cases (q : CommitSequencer Text) (current wire : Nat) (x : Text) :
    (q.offer current wire x = (.alreadySeen, q) ∧ (x ∈ q.applied ∨ wire < current)) ∨
    (q.offer current wire x = (.apply, q) ∧ x ∉ q.applied ∧ wire = current) ∨
    (x ∉ q.applied ∧ current < wire ∧ q.offer current wire x = (.buffered, q) ∧
      (q.Buffers wire ∨ bufferCap ≤ q.buffered.size)) ∨
    (x ∉ q.applied ∧ current < wire ∧ ¬q.Buffers wire ∧ q.buffered.size < bufferCap ∧
      q.offer current wire x =
        (.buffered, { q with buffered := q.buffered.insert wire x })) := by
  by_cases hx : x ∈ q.applied
  · exact .inl ⟨by rw [offer, if_pos hx], .inl hx⟩
  rcases lt_trichotomy wire current with hlt | heq | hgt
  · exact .inl ⟨by rw [offer, if_neg hx, Nat.compare_eq_lt.2 hlt], .inr hlt⟩
  · exact .inr (.inl ⟨heq ▸ offer_current hx, hx, heq⟩)
  · have hoff : q.offer current wire x =
        if !q.buffered.contains wire && q.buffered.size < bufferCap then
          (.buffered, { q with buffered := q.buffered.insert wire x })
        else (.buffered, q) := by rw [offer, if_neg hx, Nat.compare_eq_gt.2 hgt]
    by_cases hb : wire ∈ q.buffered
    · exact .inr (.inr (.inl ⟨hx, hgt, by simp [hoff, hb], .inl hb⟩))
    by_cases hs : q.buffered.size < bufferCap
    · exact .inr (.inr (.inr ⟨hx, hgt, hb, hs, by simp [hoff, hb, hs]⟩))
    · exact .inr (.inr (.inl ⟨hx, hgt, by simp [hoff, hs], .inr (not_lt.1 hs)⟩))

end CommitSequencer

end Mosh.Group
