import Mosh.Library.Run
import Mosh.Library.Table
import Mosh.Recovery.Fragment

/-!
# Rounds of sources

A reader asks for the history of a room in rounds, and imports it from one source at a time
(`conversation/recovery/coordinator.rs`). It remembers the view that it has imported from a source,
and for a minute which source failed; both memories have sixteen places.

* `Coordinator.offered`: whether an offer of a source is taken;
* `Coordinator.step`: what happens to a coordinator;
* `Spares`: an insertion into a memory does not push another source out;
* `unchanged_view_imported_once`: along all runs whose insertions do not, an offer of a view that was
  imported is not taken, nor one of a source that failed a minute ago;
* `sixteenth_source_pushes_out`: with sixteen sources, an insertion can push one out.
-/

namespace Mosh.Recovery

open Run (Runs)

/-! ## The coordinator -/

/-- What is read of a frame. -/
structure HistoryFrame where
  senderKey : String
  requestId : String
  round : Nat
  deriving DecidableEq, Repr

/-- A bounded memory of sources. -/
abbrev Sources (α : Type) := Std.ExtTreeMap String α compare

structure Checkpoint where
  round : Nat := 0
  progress : HistoryCursor := {}
  source : Option String := none
  observed : Sources String := ∅
  partialRecord : Option PartialRecord := none
  deletionDigest : String := ""
  journalAfter : Option String := none
  journalComplete : Bool := false

structure Coordinator where
  checkpoint : Checkpoint := {}
  lastProbe : Nat := 0
  lastProgress : Nat := 0
  /-- A place among the imports of the installation is held. -/
  permit : Bool := false
  nextProbe : Nat := 0
  failedSources : Sources Nat := ∅

/-- The memory keeps sixteen sources. The first one goes when it is full. -/
def remember {α : Type} (memory : Sources α) (source : String) (value : α) : Sources α :=
  let memory :=
    if 16 ≤ memory.size then
      match memory.keys.head? with
      | some first => memory.erase first
      | none => memory
    else memory
  memory.insert source value

/-- What a source offers: a manifest, and a digest of deletions. -/
def view (manifest deletionDigest : String) : String := manifest ++ ":" ++ deletionDigest

/-- Notes that the import from a source is complete. -/
def Checkpoint.finished (next : Checkpoint) (source : String) : Checkpoint :=
  if next.progress.complete then
    { next with
      observed := remember next.observed source
        (view (next.progress.manifest.getD "") next.deletionDigest)
      source := none }
  else next

namespace Coordinator

variable (c : Coordinator)

def hasSource (frame : HistoryFrame) : Bool :=
  c.checkpoint.round = frame.round && c.checkpoint.source = some frame.senderKey &&
    c.checkpoint.progress.requestId = frame.requestId

/-- A new round, with a random id for its requests. -/
def beginRound (requestId : String) : Except String Checkpoint :=
  if 2 ^ 64 ≤ c.checkpoint.round + 1 then .error "history round overflow"
  else .ok
    { c.checkpoint with
      round := c.checkpoint.round + 1
      progress := { complete := c.checkpoint.progress.complete, requestId }
      source := none
      partialRecord := none
      journalAfter := none
      journalComplete := false }

def installed (checkpoint : Checkpoint) : Coordinator :=
  { c with
    permit := c.permit && checkpoint.source.isSome
    checkpoint }

/-- The checkpoint for the import from a source that makes an offer, if it is taken. `permit` says
    whether there is a place for an import. -/
def offered (frame : HistoryFrame) (manifest : String) (total : Nat) (deletionDigest : String)
    (now : Nat) (permit : Bool) (requestId : String) : Except String (Option Checkpoint) :=
  let current := c.checkpoint
  if frame.round ≠ current.round || frame.requestId ≠ current.progress.requestId ||
      current.source.isSome ||
      current.observed[frame.senderKey]? = some (view manifest deletionDigest) ||
      (c.failedSources[frame.senderKey]?).any (now < ·) ||
      !canonicalHex manifest 64 || !canonicalHex deletionDigest 64 then .ok none
  else if !permit then .ok none
  else do
    let next ← c.beginRound requestId
    return some
      { next with
        source := some frame.senderKey
        progress := { next.progress with
          manifest := some manifest, total := some total, complete := false }
        deletionDigest }

/-- A source can change its offer before anything is imported from it. -/
def reoffered (frame : HistoryFrame) (manifest : String) (total : Nat) (deletionDigest : String) :
    Option Checkpoint :=
  let current := c.checkpoint
  if !c.hasSource frame || current.progress.cursor ≠ 0 || current.partialRecord.isSome ||
      current.journalAfter.isSome || current.journalComplete ||
      (current.progress.manifest = some manifest && current.deletionDigest = deletionDigest) ||
      !canonicalHex manifest 64 || !canonicalHex deletionDigest 64 then none
  else some
    { current with
      progress := { current.progress with manifest := some manifest, total := some total }
      deletionDigest }

/-- The source fails for a minute. -/
def failed (now : Nat) : Coordinator :=
  { c with
    failedSources :=
      match c.checkpoint.source with
      | some source => remember c.failedSources source (min (now + 60000) (2 ^ 64 - 1))
      | none => c.failedSources
    nextProbe := 0 }

/-- The source says that it cannot deliver. -/
def unavailable (frame : HistoryFrame) (now : Nat) : Coordinator :=
  if c.hasSource frame then { c with lastProgress := 0 }.failed now else c

end Coordinator

/-! ## Runs -/

/-- What happens to a coordinator. -/
inductive CoordinatorEvent
  | beginRound (requestId : String)
  | offer (frame : HistoryFrame) (manifest : String) (total : Nat) (deletionDigest : String)
      (now : Nat) (permit : Bool) (requestId : String)
  /-- A page of the source moves the import on. -/
  | page (frame : HistoryFrame) (progress : HistoryCursor) (partialRecord : Option PartialRecord)
  /-- A page of its deletions does. -/
  | journal (frame : HistoryFrame) (partialRecord : Option PartialRecord)
      (journalAfter : Option String) (journalComplete : Bool)
  | unavailable (frame : HistoryFrame) (now : Nat)
  | timedOut (now : Nat)

/-- The source that an event is about. -/
def CoordinatorEvent.source : CoordinatorEvent → Option String
  | .offer frame .. => some frame.senderKey
  | .page frame .. => some frame.senderKey
  | .journal frame .. => some frame.senderKey
  | .unavailable frame _ => some frame.senderKey
  | _ => none

namespace Coordinator

variable (c : Coordinator)

/-- The coordinator after an event. -/
def step : CoordinatorEvent → Coordinator
  | .beginRound requestId =>
    match c.beginRound requestId with
    | .ok next => c.installed next
    | .error _ => c
  | .offer frame manifest total deletionDigest now permit requestId =>
    match c.reoffered frame manifest total deletionDigest with
    | some next => c.installed next
    | none =>
      match c.offered frame manifest total deletionDigest now permit requestId with
      | .ok (some next) => { c.installed next with permit := true, lastProgress := now }
      | _ => c
  | .page frame progress partialRecord =>
    if c.hasSource frame then
      c.installed (Checkpoint.finished { c.checkpoint with progress, partialRecord }
        frame.senderKey)
    else c
  | .journal frame partialRecord journalAfter journalComplete =>
    if c.hasSource frame then
      c.installed { c.checkpoint with partialRecord, journalAfter, journalComplete }
    else c
  | .unavailable frame now => c.unavailable frame now
  | .timedOut now => c.failed now

/-- The source and the view whose import an event completes. -/
def completes : CoordinatorEvent → Option (String × String)
  | .page frame progress _ =>
    if c.hasSource frame && progress.complete then
      some (frame.senderKey, view (progress.manifest.getD "") c.checkpoint.deletionDigest)
    else none
  | _ => none

/-- The source that fails in an event, and when. -/
def fails : CoordinatorEvent → Option (String × Nat)
  | .unavailable frame now =>
    if c.hasSource frame then c.checkpoint.source.map fun source => (source, now) else none
  | .timedOut now => c.checkpoint.source.map fun source => (source, now)
  | _ => none

end Coordinator

/-- A coordinator, the view that was imported last from every source, and the failures. -/
structure Observed where
  coordinator : Coordinator
  last : String → Option String
  failures : List (String × Nat)

/-- Nothing has happened to a coordinator. -/
def Observed.start (c : Coordinator) : Observed := ⟨c, fun _ => none, []⟩

/-- The coordinator and what it went through after an event. -/
def Observed.step (t : Observed) (e : CoordinatorEvent) : Observed where
  coordinator := t.coordinator.step e
  last :=
    match t.coordinator.completes e with
    | some (source, view) => Function.update t.last source (some view)
    | none => t.last
  failures := (t.coordinator.fails e).toList ++ t.failures

/-- An insertion of a source pushes no other one out. -/
def Spares {α : Type} (memory : Sources α) (source : String) : Prop :=
  memory.size < 16 ∨ memory.keys.head? = some source

/-- The event pushes no source out of a memory, and the clock is not set back. -/
def Observed.Admits (t : Observed) (e : CoordinatorEvent) : Prop :=
  (∀ source view, t.coordinator.completes e = some (source, view) →
    Spares t.coordinator.checkpoint.observed source) ∧
  ∀ source now, t.coordinator.fails e = some (source, now) →
    Spares t.coordinator.failedSources source ∧ now + 60000 < 2 ^ 64 ∧
      ∀ before, (source, before) ∈ t.failures → before ≤ now

/-! ## Memories -/

theorem getElem?_remember {α : Type} {memory : Sources α} {source : String}
    (h : Spares memory source) (value : α) (other : String) :
    (remember memory source value)[other]? =
      if source = other then some value else memory[other]? := by
  rw [remember, Table.getElem?_insert]
  split
  · rfl
  · next hne =>
    split
    · next hfull =>
      rcases h with hroom | hfirst
      · exact absurd hfull hroom.not_ge
      · rw [hfirst, Table.getElem?_erase, if_neg hne]
    · rfl

namespace Coordinator

variable {c : Coordinator}

/-- A new round leaves the memories. -/
theorem observed_of_beginRound {requestId : String} {next : Checkpoint}
    (h : c.beginRound requestId = .ok next) : next.observed = c.checkpoint.observed := by
  rw [beginRound] at h
  split at h
  · cases h
  · rw [← Except.ok.inj h]

theorem observed_of_offered {frame : HistoryFrame} {manifest deletionDigest requestId : String}
    {total now : Nat} {permit : Bool} {next : Checkpoint}
    (h : c.offered frame manifest total deletionDigest now permit requestId = .ok (some next)) :
    next.observed = c.checkpoint.observed := by
  rw [offered] at h
  dsimp only at h
  split at h
  · cases h
  · split at h
    · cases h
    · rcases hround : c.beginRound requestId with e | round
      · rw [hround] at h
        cases h
      · rw [hround] at h
        rw [← Option.some.inj (Except.ok.inj h), ← observed_of_beginRound hround]

theorem observed_of_reoffered {frame : HistoryFrame} {manifest deletionDigest : String}
    {total : Nat} {next : Checkpoint}
    (h : c.reoffered frame manifest total deletionDigest = some next) :
    next.observed = c.checkpoint.observed := by
  rw [reoffered] at h
  dsimp only at h
  split at h
  · cases h
  · rw [← Option.some.inj h]

/-- The memories after an event: a source is remembered, or nothing changes. -/
theorem step_memories (c : Coordinator) (e : CoordinatorEvent) :
    (c.step e).checkpoint.observed = (match c.completes e with
      | some (source, view) => remember c.checkpoint.observed source view
      | none => c.checkpoint.observed) ∧
    (c.step e).failedSources = (match c.fails e with
      | some (source, now) => remember c.failedSources source (min (now + 60000) (2 ^ 64 - 1))
      | none => c.failedSources) := by
  cases e with
  | beginRound requestId =>
    rw [step]
    split
    · next next hround => exact ⟨observed_of_beginRound hround, rfl⟩
    · exact ⟨rfl, rfl⟩
  | offer frame manifest total deletionDigest now permit requestId =>
    rw [step]
    split
    · next next hagain => exact ⟨observed_of_reoffered hagain, rfl⟩
    · split
      · next next hoffered => exact ⟨observed_of_offered hoffered, rfl⟩
      · exact ⟨rfl, rfl⟩
  | page frame progress partialRecord =>
    rw [step, completes]
    cases hsource : c.hasSource frame with
    | false => exact ⟨rfl, rfl⟩
    | true =>
      cases hcomplete : progress.complete with
      | false =>
        simp only [if_true, Bool.true_and, Bool.false_eq_true, if_false, Checkpoint.finished,
          hcomplete]
        exact ⟨rfl, rfl⟩
      | true =>
        simp only [if_true, Bool.true_and, Checkpoint.finished, hcomplete]
        exact ⟨rfl, rfl⟩
  | journal frame partialRecord journalAfter journalComplete =>
    rw [step]
    split <;> exact ⟨rfl, rfl⟩
  | unavailable frame now =>
    rw [step, unavailable, fails]
    cases c.hasSource frame with
    | false => exact ⟨rfl, rfl⟩
    | true =>
      refine ⟨rfl, ?_⟩
      change (match c.checkpoint.source with | some source => _ | none => _) = _
      rcases c.checkpoint.source with - | source <;> rfl
  | timedOut now =>
    refine ⟨rfl, ?_⟩
    change (match c.checkpoint.source with | some source => _ | none => _) = _
    rw [fails]
    rcases c.checkpoint.source with - | source <;> rfl

/-- An offer of a view that was observed is not taken. -/
theorem offered_of_observed {frame : HistoryFrame} {manifest deletionDigest : String}
    (h : c.checkpoint.observed[frame.senderKey]? = some (view manifest deletionDigest))
    (total now : Nat) (permit : Bool) (requestId : String) :
    c.offered frame manifest total deletionDigest now permit requestId = .ok none := by
  rw [offered]
  exact if_pos (by simp [h])

/-- An offer of a source that has failed is not taken. -/
theorem offered_of_failed {frame : HistoryFrame} {until' now : Nat}
    (h : c.failedSources[frame.senderKey]? = some until') (hnow : now < until')
    (manifest deletionDigest : String) (total : Nat) (permit : Bool) (requestId : String) :
    c.offered frame manifest total deletionDigest now permit requestId = .ok none := by
  rw [offered]
  exact if_pos (by simp [h, hnow])

end Coordinator

/-! ## What is remembered -/

/-- What was imported last is remembered, and every failure. -/
structure Observed.Remembers (t : Observed) : Prop where
  last : ∀ source view, t.last source = some view →
    t.coordinator.checkpoint.observed[source]? = some view
  failures : ∀ source at', (source, at') ∈ t.failures → ∃ until',
    t.coordinator.failedSources[source]? = some until' ∧ at' + 60000 ≤ until'

/-- An event that pushes no source out keeps what is remembered. -/
theorem Observed.Remembers.step {t : Observed} {e : CoordinatorEvent} (hadmits : t.Admits e)
    (h : t.Remembers) : (t.step e).Remembers := by
  obtain ⟨hobserved, hfailed⟩ := t.coordinator.step_memories e
  constructor
  · intro source view hlast
    change (t.coordinator.step e).checkpoint.observed[source]? = some view
    rw [hobserved]
    rw [Observed.step] at hlast
    rcases hcompletes : t.coordinator.completes e with - | ⟨finished, view'⟩
    · rw [hcompletes] at hlast
      exact h.last source view hlast
    · rw [hcompletes] at hlast
      dsimp only at hlast ⊢
      rw [getElem?_remember (hadmits.1 finished view' hcompletes)]
      split
      · next heq =>
        rw [heq, Function.update_self] at hlast
        exact hlast
      · next hne =>
        rw [Function.update_of_ne (Ne.symm hne)] at hlast
        exact h.last source view hlast
  · intro source at' hfailure
    change ∃ until', (t.coordinator.step e).failedSources[source]? = some until' ∧ _
    rw [hfailed]
    rw [Observed.step] at hfailure
    rcases hfails : t.coordinator.fails e with - | ⟨failed, now⟩
    · rw [hfails] at hfailure
      exact h.failures source at' hfailure
    · obtain ⟨hspares, hbound, hclock⟩ := hadmits.2 failed now hfails
      rw [hfails, Option.toList_some, List.singleton_append, List.mem_cons] at hfailure
      dsimp only
      rw [getElem?_remember hspares, Nat.min_eq_left (by omega)]
      split
      · next heq =>
        -- the source fails again, and later than before
        refine ⟨_, rfl, ?_⟩
        rcases hfailure with hnew | hold
        · obtain ⟨-, rfl⟩ := Prod.mk.inj hnew
          exact le_rfl
        · exact Nat.add_le_add_right (hclock at' (heq ▸ hold)) _
      · next hne =>
        rcases hfailure with hnew | hold
        · exact absurd (Prod.mk.inj hnew).1.symm hne
        · exact h.failures source at' hold

/-- An unchanged view is imported once.

    In every run whose events push no source out of a memory, an offer of the view that was imported
    last from its source is not taken, and no offer of a source within a minute after it failed. -/
theorem unchanged_view_imported_once {c : Coordinator} {es : List CoordinatorEvent} {t : Observed}
    (hrun : Runs Observed.step Observed.Admits (Observed.start c) es t) (frame : HistoryFrame) :
    (∀ manifest deletionDigest, t.last frame.senderKey = some (view manifest deletionDigest) →
      ∀ total now permit requestId, t.coordinator.offered frame manifest total deletionDigest now
        permit requestId = .ok none) ∧
    ∀ at', (frame.senderKey, at') ∈ t.failures → ∀ now, now < at' + 60000 →
      ∀ manifest total deletionDigest permit requestId, t.coordinator.offered frame manifest total
        deletionDigest now permit requestId = .ok none := by
  have hremembers : t.Remembers :=
    hrun.invariant (fun t e hadmits h => Observed.Remembers.step hadmits h) ⟨nofun, nofun⟩
  refine ⟨fun manifest deletionDigest hlast total now permit requestId =>
    Coordinator.offered_of_observed (hremembers.last _ _ hlast) total now permit requestId,
    fun at' hfailure now hnow manifest total deletionDigest permit requestId => ?_⟩
  obtain ⟨until', hget, hle⟩ := hremembers.failures _ _ hfailure
  exact Coordinator.offered_of_failed hget (hnow.trans_le hle) manifest deletionDigest total permit
    requestId

/-- A digest of one digit. -/
def digest (digit : Char) : String := "".pushn digit 64

/-- The only page of a source completes its import. -/
theorem unchanged_view_imported_once_page :
    ((({} : Coordinator).step (.offer ⟨"a", "", 0⟩ (digest '0') 1 (digest '0') 0 true "r")).step
      (.page ⟨"a", "r", 1⟩ ⟨"r", 1, some (digest '0'), some 1, true⟩ none)).offered
        ⟨"a", "r", 1⟩ (digest '0') 1 (digest '0') 0 true "s" = .ok none := by
  have hrun : Runs Observed.step Observed.Admits (Observed.start {})
      [.offer ⟨"a", "", 0⟩ (digest '0') 1 (digest '0') 0 true "r",
        .page ⟨"a", "r", 1⟩ ⟨"r", 1, some (digest '0'), some 1, true⟩ none] _ :=
    .cons ⟨nofun, nofun⟩ (.cons ⟨fun _ _ _ => .inl (by decide +kernel), nofun⟩ (.nil _))
  exact (unchanged_view_imported_once hrun ⟨"a", "r", 1⟩).1 _ _ (by decide +kernel) _ _ _ _

/-! ## Sixteen sources -/

/-- The sources `"a"` to `"p"`. -/
def sixteenSources : List String :=
  (List.range 16).map fun i => String.singleton (Char.ofNat ('a'.toNat + i))

/-- An import from a source in a round. -/
def importOf (digit : Char) (round : Nat) (source : String) : List CoordinatorEvent :=
  [.offer ⟨source, "", round⟩ (digest digit) 1 (digest '0') 0 true "",
    .page ⟨source, "", round + 1⟩ ⟨"", 1, some (digest digit), some 1, true⟩ none]

/-- A round whose source fails at a time. -/
def failureOf (now round : Nat) (source : String) : List CoordinatorEvent :=
  [.offer ⟨source, "", round⟩ (digest '0') 1 (digest '0') now true "", .timedOut now,
    .beginRound ""]

/-- All sources are imported, and then the last one again: it has a new view. -/
def imports : List CoordinatorEvent :=
  (sixteenSources.zipIdx.flatMap fun (source, i) => importOf '0' i source) ++
    importOf '1' 16 "p"

/-- The last source fails, then the others half a minute later, and then the last one again. -/
def failures : List CoordinatorEvent :=
  failureOf 0 0 "p" ++
    ((sixteenSources.take 15).zipIdx.flatMap fun (source, i) =>
      failureOf 30000 (2 * i + 2) source) ++
    failureOf 60000 32 "p"

/-- With sixteen sources, a source that is in a memory already pushes the first one out of it. The
    first one is then imported again with the view that was imported from it, and the first one that
    failed within the last minute is taken again. -/
theorem sixteenth_source_pushes_out :
    sixteenSources.length = 16 ∧
    (∀ e ∈ imports ++ failures, ∀ source ∈ e.source, source ∈ sixteenSources) ∧
    (imports.foldl Observed.step (.start {})).last "a" = some (view (digest '0') (digest '0')) ∧
    (imports.foldl Observed.step (.start {})).coordinator.offered ⟨"a", "", 17⟩ (digest '0') 1
      (digest '0') 0 true "" ≠ .ok none ∧
    ("a", 30000) ∈ (failures.foldl Observed.step (.start {})).failures ∧
    (failures.foldl Observed.step (.start {})).coordinator.offered ⟨"a", "", 34⟩ (digest '0') 1
      (digest '0') 60001 true "" ≠ .ok none := by
  have htaken {x : Except String (Option Checkpoint)}
      (h : (match x with | .ok (some _) => true | _ => false) = true) : x ≠ .ok none := by
    rintro rfl
    cases h
  refine ⟨by decide, by decide +kernel, by decide +kernel, htaken (by decide +kernel),
    by decide +kernel, htaken (by decide +kernel)⟩

end Mosh.Recovery
