import Mosh.Attachment.Together

/-!
# Batches of chunks that cannot be saved

`flush_checkpoints` (`conversation/transfer_checkpoint.rs`) takes the batches of all files, and
leaves its loop at the first one that cannot be saved. The batches after it are neither saved nor
kept for the next time.

* `mem_savedBatches_iff`: the batches that the loop comes to before that;
* `flush_isolated_iff`: when no file loses its batch because of another one.
-/

namespace Mosh.Attachment

namespace Transfer

variable {w : World} {tr : Transfer} {admissions : Std.ExtTreeMap String Admission compare}

/-! ## The loop -/

/-- The user admitted the file of a batch, and the database takes the chunks. -/
def Saves (w : World) (admissions : Std.ExtTreeMap String Admission compare)
    (batch : String × List ChunkFrame) : Prop :=
  ∃ admission, admissions[batch.1]? = some admission ∧
    w.saveUserTransferChunks admission.id batch.2 = .ok ()

/-- The user admitted the file of a batch, but the database does not take the chunks. -/
def Fails (w : World) (admissions : Std.ExtTreeMap String Admission compare)
    (batch : String × List ChunkFrame) : Prop :=
  ∃ admission error, admissions[batch.1]? = some admission ∧
    w.saveUserTransferChunks admission.id batch.2 = .error error

/-- The batches that are saved when the loop ends or is left. -/
def savedBatches (w : World) (admissions : Std.ExtTreeMap String Admission compare) :
    List (String × List ChunkFrame) → List (String × List ChunkFrame)
  | [] => []
  | (attachment, frames) :: rest =>
    match admissions[attachment]? with
    | none => savedBatches w admissions rest
    | some admission =>
      match w.saveUserTransferChunks admission.id frames with
      | .ok () => (attachment, frames) :: savedBatches w admissions rest
      | .error _ => []

/-- The loop comes to a batch before any that fails. -/
def Reached (w : World) (admissions : Std.ExtTreeMap String Admission compare)
    (batches : List (String × List ChunkFrame)) (batch : String × List ChunkFrame) : Prop :=
  ∃ before after, batches = before ++ batch :: after ∧
    ∀ other ∈ before, ¬ Fails w admissions other

theorem Saves.not_fails {batch : String × List ChunkFrame} (h : Saves w admissions batch) :
    ¬ Fails w admissions batch := by
  rintro ⟨admission, error, hadmission, herror⟩
  obtain ⟨saved, hsaved, hok⟩ := h
  rw [hadmission] at hsaved
  rw [← Option.some.inj hsaved, herror] at hok
  cases hok

/-- What the loop comes to behind a batch that does not fail. -/
theorem reached_cons {first batch : String × List ChunkFrame}
    {rest : List (String × List ChunkFrame)} :
    Reached w admissions (first :: rest) batch ↔
      batch = first ∨ ¬ Fails w admissions first ∧ Reached w admissions rest batch := by
  constructor
  · rintro ⟨before, after, heq, hbefore⟩
    rcases before with _ | ⟨head, before⟩
    · exact .inl (List.cons.inj heq).1.symm
    · obtain ⟨rfl, hrest⟩ := List.cons.inj heq
      obtain ⟨hhead, hbefore⟩ := List.forall_mem_cons.1 hbefore
      exact .inr ⟨hhead, before, after, hrest, hbefore⟩
  · rintro (rfl | ⟨hfirst, before, after, rfl, hbefore⟩)
    · exact ⟨[], rest, rfl, nofun⟩
    · exact ⟨first :: before, after, rfl, List.forall_mem_cons.2 ⟨hfirst, hbefore⟩⟩

/-- The batches that are saved are those that can be, and that the loop comes to. -/
theorem mem_savedBatches_iff {batches : List (String × List ChunkFrame)}
    {batch : String × List ChunkFrame} :
    batch ∈ savedBatches w admissions batches ↔
      Saves w admissions batch ∧ Reached w admissions batches batch := by
  induction batches with
  | nil =>
    rw [savedBatches]
    refine iff_of_false List.not_mem_nil ?_
    rintro ⟨-, before, after, heq, -⟩
    simp at heq
  | cons first rest ih =>
    obtain ⟨attachment, frames⟩ := first
    rw [savedBatches, reached_cons]
    cases hadmission : admissions[attachment]? with
    | none =>
      -- the user did not admit the file, or deleted it: the loop passes its batch over
      have hskips : ¬ Saves w admissions (attachment, frames) := by
        rintro ⟨admission, hsome, -⟩
        rw [hadmission] at hsome
        cases hsome
      have hpasses : ¬ Fails w admissions (attachment, frames) := by
        rintro ⟨admission, error, hsome, -⟩
        rw [hadmission] at hsome
        cases hsome
      dsimp only
      rw [ih]
      refine and_congr_right fun hsaves => ⟨fun h => .inr ⟨hpasses, h⟩, ?_⟩
      rintro (rfl | ⟨-, h⟩)
      · exact absurd hsaves hskips
      · exact h
    | some admission =>
      dsimp only
      cases hsave : w.saveUserTransferChunks admission.id frames with
      | ok =>
        have hsaves : Saves w admissions (attachment, frames) := ⟨admission, hadmission, hsave⟩
        dsimp only
        rw [List.mem_cons, ih]
        constructor
        · rintro (rfl | ⟨hbatch, h⟩)
          · exact ⟨hsaves, .inl rfl⟩
          · exact ⟨hbatch, .inr ⟨hsaves.not_fails, h⟩⟩
        · rintro ⟨hbatch, rfl | ⟨-, h⟩⟩
          · exact .inl rfl
          · exact .inr ⟨hbatch, h⟩
      | error error =>
        -- the loop is left here
        have hfails : Fails w admissions (attachment, frames) :=
          ⟨admission, error, hadmission, hsave⟩
        refine iff_of_false List.not_mem_nil ?_
        rintro ⟨hbatch, rfl | ⟨hpasses, -⟩⟩
        · exact hbatch.not_fails hfails
        · exact hpasses hfails

/-- The batch that the loop is left at fails. -/
theorem fails_of_firstUnsaved {batches : List (String × List ChunkFrame)}
    {attachment error : String}
    (h : firstUnsaved w admissions batches = some (attachment, error)) :
    ∃ frames, (attachment, frames) ∈ batches ∧ Fails w admissions (attachment, frames) := by
  induction batches with
  | nil => cases h
  | cons first rest ih =>
    obtain ⟨head, frames⟩ := first
    have hrest : firstUnsaved w admissions rest = some (attachment, error) →
        ∃ frames', (attachment, frames') ∈ (head, frames) :: rest ∧
          Fails w admissions (attachment, frames') := fun heq =>
      (ih heq).imp fun _ hfound => ⟨List.mem_cons_of_mem _ hfound.1, hfound.2⟩
    rw [firstUnsaved] at h
    split at h
    · exact hrest h
    · next admission hadmission =>
      split at h
      · exact hrest h
      · next error' hsave =>
        obtain ⟨rfl, rfl⟩ := Prod.mk.inj (Option.some.inj h)
        exact ⟨frames, List.mem_cons_self, admission, error', hadmission, hsave⟩

/-! ## The files -/

/-- The batches that a call saved. -/
def flushed (w : World) (tr : Transfer) : List (String × List ChunkFrame) :=
  (tr.execution.map fun context =>
    savedBatches w context.admissions (w.order context.checkpoints.toList)).getD []

/-- A file, or its transfer, failed since. -/
def MarkedFailed (tr tr' : Transfer) (id : String) : Prop :=
  tr'.slots.slots[id]?.any (·.failed) ∧ ¬ tr.slots.slots[id]?.any (·.failed) ∨
    tr'.runtime.incoming[id]?.any (·.state = .failed) ∧
      ¬ tr.runtime.incoming[id]?.any (·.state = .failed)

/-- After the batches were to be saved, those that did not fail are saved, or are kept for the
    next time, and no files failed but those whose batches did. -/
structure Isolated (w : World) (tr : Transfer) (context : Execution) : Prop where
  kept : ∀ attachment frames, context.checkpoints[attachment]? = some frames →
    ¬ Fails w context.admissions (attachment, frames) →
      (attachment, frames) ∈ flushed w tr ∨
        ∃ context', (tr.flushCheckpoints w).2.execution = some context' ∧
          context'.checkpoints[attachment]? = some frames
  failed : ∀ attachment, MarkedFailed tr (tr.flushCheckpoints w).2 attachment →
    ∃ frames, context.checkpoints[attachment]? = some frames ∧
      Fails w context.admissions (attachment, frames)

/-- No batch is kept. -/
theorem flushCheckpoints_checkpoints {context context' : Execution}
    (hcontext : tr.execution = some context)
    (h : (tr.flushCheckpoints w).2.execution = some context') : context'.checkpoints = ∅ := by
  rw [flushCheckpoints, hcontext] at h
  dsimp only at h
  split at h
  · rw [← Option.some.inj h]
  · rw [← Option.some.inj h]

/-- Only the file whose batch cannot be saved fails. -/
theorem failed_flushCheckpoints {context : Execution} (hcontext : tr.execution = some context)
    {id : String} (h : MarkedFailed tr (tr.flushCheckpoints w).2 id) :
    ∃ frames, context.checkpoints[id]? = some frames ∧ Fails w context.admissions (id, frames) := by
  have hunsaved : Transfer.unsaved w tr =
      firstUnsaved w context.admissions (w.order context.checkpoints.toList) := by
    rw [Transfer.unsaved, hcontext, Option.bind_some]
  cases hfirst : firstUnsaved w context.admissions (w.order context.checkpoints.toList) with
  | none =>
    obtain ⟨tr', hflush, hsame, -⟩ := flushCheckpoints_ok (hunsaved.trans hfirst)
    rw [hflush, MarkedFailed, hsame.slots, hsame.runtime] at h
    rcases h with ⟨hyes, hno⟩ | ⟨hyes, hno⟩
    · exact absurd hyes hno
    · exact absurd hyes hno
  | some found =>
    obtain ⟨attachment, error⟩ := found
    obtain ⟨tr', hflush, hslots, hruntime⟩ := flushCheckpoints_error (hunsaved.trans hfirst)
    obtain ⟨frames, hmem, hfails⟩ := fails_of_firstUnsaved hfirst
    have hpending : context.checkpoints[attachment]? = some frames :=
      Std.ExtTreeMap.mem_toList_iff_getElem?_eq_some.1 ((w.order_perm _).mem_iff.1 hmem)
    have hid : attachment = id := by
      by_contra hne
      have hslot : (tr.slots.fail attachment).slots[id]? = tr.slots.slots[id]? := by
        rw [AttachmentSlots.fail, AttachmentSlots.modify, Table.getElem?_alter, if_neg hne]
      have htransfer : (tr.runtime.failIncoming attachment).incoming[id]? =
          tr.runtime.incoming[id]? := by
        rw [AttachmentRuntime.failIncoming, Table.getElem?_alter, if_neg hne]
      rw [hflush, MarkedFailed, hslots, hruntime, hslot, htransfer] at h
      rcases h with ⟨hyes, hno⟩ | ⟨hyes, hno⟩
      · exact hno hyes
      · exact hno hyes
    exact ⟨frames, hid ▸ hpending, hid ▸ hfails⟩

/-- No file loses its batch because of another one, or because the user did not admit it, exactly
    if the user admitted all files whose batches do not fail, and the loop comes to each of these
    before one that fails. -/
theorem flush_isolated_iff {context : Execution} (hcontext : tr.execution = some context) :
    Isolated w tr context ↔
      ∀ attachment frames, context.checkpoints[attachment]? = some frames →
        ¬ Fails w context.admissions (attachment, frames) →
          attachment ∈ context.admissions ∧
            Reached w context.admissions (w.order context.checkpoints.toList)
              (attachment, frames) := by
  have hflushed : flushed w tr =
      savedBatches w context.admissions (w.order context.checkpoints.toList) := by
    rw [flushed, hcontext]
    rfl
  constructor
  · intro h attachment frames hpending hpasses
    rcases h.kept attachment frames hpending hpasses with hsaved | ⟨context', hafter, hkept⟩
    · rw [hflushed, mem_savedBatches_iff] at hsaved
      obtain ⟨⟨admission, hadmission, -⟩, hreached⟩ := hsaved
      exact ⟨Std.ExtTreeMap.mem_iff_isSome_getElem?.2 (hadmission ▸ rfl), hreached⟩
    · rw [flushCheckpoints_checkpoints hcontext hafter] at hkept
      simp at hkept
  · intro h
    refine ⟨fun attachment frames hpending hpasses => .inl ?_,
      fun attachment hmarked => failed_flushCheckpoints hcontext hmarked⟩
    obtain ⟨hadmitted, hreached⟩ := h attachment frames hpending hpasses
    have hadmission := Std.ExtTreeMap.getElem?_eq_some_getElem hadmitted
    rw [hflushed, mem_savedBatches_iff]
    refine ⟨⟨_, hadmission, ?_⟩, hreached⟩
    cases hsave : w.saveUserTransferChunks context.admissions[attachment].id frames with
    | ok => rfl
    | error error => exact absurd ⟨_, error, hadmission, hsave⟩ hpasses

/-! ## Two files, one of which cannot be saved -/

/-- The database does not take the chunks of the letter. -/
def letterFull : World :=
  { calmWorld with
    saveUserTransferChunks id _ := if id = "transfer-1" then .error "disk full" else .ok () }

/-- The same, but the loop comes to the note first. -/
def noteFirst : World :=
  { letterFull with
    order := List.reverse
    order_perm := List.reverse_perm }

/-- A chunk of each of two files is to be saved. -/
def twoPending : Execution :=
  { twoAdmitted with
    checkpoints := ((∅ : Std.ExtTreeMap String (List ChunkFrame) compare).insert "letter"
      [smallFrame "letter" 0 72]).insert "note" [smallFrame "note" 0 33] }

/-- If the loop comes to the letter first, the chunk of the note is lost. -/
theorem flush_not_isolated : ¬ Isolated letterFull { execution := some twoPending } twoPending := by
  intro h
  have hpending : twoPending.checkpoints["note"]? = some [smallFrame "note" 0 33] := by
    decide +kernel
  have hpasses : ¬ Fails letterFull twoPending.admissions ("note", [smallFrame "note" 0 33]) := by
    rintro ⟨admission, error, hadmission, herror⟩
    have hnote : twoPending.admissions["note"]? = some ⟨"transfer-2", .download, .running⟩ := by
      decide +kernel
    obtain rfl := Option.some.inj (hnote.symm.trans hadmission)
    cases herror
  rcases h.kept "note" _ hpending hpasses with hsaved | ⟨context, hafter, hkept⟩
  · have hnone : flushed letterFull { execution := some twoPending } = [] := by decide +kernel
    rw [hnone] at hsaved
    exact absurd hsaved List.not_mem_nil
  · rw [flushCheckpoints_checkpoints rfl hafter] at hkept
    simp at hkept

/-- If it comes to the note first, only the chunk that cannot be saved is lost. -/
theorem flush_isolated_note : Isolated noteFirst { execution := some twoPending } twoPending := by
  refine (flush_isolated_iff rfl).2 fun attachment frames hpending hpasses => ?_
  have horder : noteFirst.order twoPending.checkpoints.toList =
      [("note", [smallFrame "note" 0 33]), ("letter", [smallFrame "letter" 0 72])] := by
    decide +kernel
  have hmem : (attachment, frames) ∈ noteFirst.order twoPending.checkpoints.toList :=
    (noteFirst.order_perm _).mem_iff.2
      (Std.ExtTreeMap.mem_toList_iff_getElem?_eq_some.2 hpending)
  rw [horder, List.mem_pair] at hmem
  rcases hmem with heq | heq
  · obtain ⟨rfl, rfl⟩ := Prod.mk.inj heq
    exact ⟨by decide +kernel, [], _, horder, nofun⟩
  · obtain ⟨rfl, rfl⟩ := Prod.mk.inj heq
    have hletter : twoPending.admissions["letter"]? = some ⟨"transfer-1", .download, .running⟩ := by
      decide +kernel
    exact absurd ⟨_, "disk full", hletter, rfl⟩ hpasses

end Transfer

end Mosh.Attachment
