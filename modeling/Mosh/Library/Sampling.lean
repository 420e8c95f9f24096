import Mathlib

/-!
# Looking at a changing state now and then

A state `t` changes by a sequence of updates, and an observer keeps a note `a`
of it. The updates come in blocks, and the observer looks at the state after
every block, to bring its note up to date. Two observers who see the same
updates in different blocks look at different states on the way.

* `foldl_sample_fst`: if looking is `Coherent` along the updates, then the note
  depends on the last state only;
* `coherent_iff`: and if it is not, then some blocks lead to another note than
  looking after every single update.
-/

namespace Sampling

variable {A T C : Type*} (merge : T → C → T) (look : A → T → A)

/-- The note and the state, after a block of updates and a look at the state. -/
def sample (s : A × T) (block : List C) : A × T :=
  (look s.1 (block.foldl merge s.2), block.foldl merge s.2)

/-- Looking again never differs from looking for the first time: the note is up to
    date at the start, and what was noted in between does not matter later on. -/
def Coherent (a : A) (t : T) (updates : List C) : Prop :=
  look a t = a ∧ ∀ pre mid, pre ++ mid <+: updates →
    look (look a (pre.foldl merge t)) ((pre ++ mid).foldl merge t) =
      look a ((pre ++ mid).foldl merge t)

variable {merge look} {a : A} {t : T} {updates : List C}

theorem foldl_sample_snd (s : A × T) (blocks : List (List C)) :
    (blocks.foldl (sample merge look) s).2 = blocks.flatten.foldl merge s.2 := by
  induction blocks generalizing s with
  | nil => rfl
  | cons block blocks ih =>
    rw [List.foldl_cons, ih, List.flatten_cons, List.foldl_append]
    rfl

/-- Along coherent updates, the note depends on the last state only. -/
theorem foldl_sample_fst (h : Coherent merge look a t updates) {blocks : List (List C)}
    (hblocks : blocks.flatten <+: updates) :
    (blocks.foldl (sample merge look) (a, t)).1 = look a (blocks.flatten.foldl merge t) := by
  induction blocks using List.reverseRecOn with
  | nil => exact h.1.symm
  | append_singleton blocks block ih =>
    rw [List.flatten_append, List.flatten_singleton] at hblocks ⊢
    have hfst := ih ((List.prefix_append _ _).trans hblocks)
    rw [List.foldl_append, List.foldl_cons, List.foldl_nil]
    change look _ (block.foldl merge _) = _
    rw [hfst, foldl_sample_snd, ← List.foldl_append]
    exact h.2 _ _ hblocks

/-- Looking is coherent exactly if looking after every block comes to the same note as
    looking after every update, however the updates come in blocks. -/
theorem coherent_iff :
    Coherent merge look a t updates ↔
      ∀ blocks : List (List C), blocks.flatten <+: updates →
        (blocks.foldl (sample merge look) (a, t)).1 =
          ((blocks.flatten.map fun c => [c]).foldl (sample merge look) (a, t)).1 := by
  have hflat : ∀ cs : List C, (cs.map fun c => [c]).flatten = cs := fun cs => by
    rw [← List.flatMap_def, List.flatMap_singleton']
  constructor
  · intro h blocks hblocks
    rw [foldl_sample_fst h hblocks, foldl_sample_fst h (by rwa [hflat]), hflat]
  · intro h
    refine ⟨h [[]] (List.nil_prefix), fun pre mid hmid => ?_⟩
    -- The two blocks and the one block both come to what single updates come to.
    have htwo := h [pre, mid] (by simpa using hmid)
    have hone := h [pre ++ mid] (by simpa using hmid)
    rw [show [pre, mid].flatten = [pre ++ mid].flatten by simp, ← hone] at htwo
    simpa [sample, List.foldl_append] using htwo

end Sampling
