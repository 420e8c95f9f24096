import Mosh.Attachment.Transfer
import Mosh.Attachment.Delivery

/-!
# Slots and transfers move together

A file that awaits chunks can only get them if its transfer runs: it is active and its
download was started. Every call that touches a slot or a transfer has to keep this,
whatever the disk and the database refuse.

* `Fits`: a slot and a transfer fit to each other: a file that is not saved has a
  transfer that is not complete, and one that awaits chunks has a running one;
* `Transfer.Agrees.step`: every call keeps this, unless the last chunk of a file
  arrives (`LastChunk`) and chunks of another file cannot be saved at that moment, or
  the file is a preview that is to be tried again already and cannot be written
  (`Unharmed`);
* `slots_move_together`: so it holds in every state that such calls reach.

Without the condition the file is left behind complete and unsaved:
`another_file_strands`.
-/

namespace Mosh.Attachment

open Conversation (AttachmentDescriptor)

/-! ## Slots and transfers -/

/-- A slot fits to a transfer: if the file is an incoming one that is not saved, its transfer is not
    complete, and if it awaits chunks, its transfer runs. -/
def Fits (slot : Option AttachmentSlot) (transfer : Option IncomingTransfer) : Prop :=
  ∀ s, slot = some s → s.direction = .incoming → s.localPath = none →
    (∀ t, transfer = some t → t.state ≠ .complete) ∧
      (s.awaitsChunks = true → ∃ t, transfer = some t ∧ t.state = .active ∧ t.downloadStarted = true)

/-- All slots but one fit to their transfers. -/
def FitElsewhere (id : String) (slots : AttachmentSlots) (runtime : AttachmentRuntime) : Prop :=
  ∀ k : String, k ≠ id → Fits slots.slots[k]? runtime.incoming[k]?

/-- All slots fit to their transfers. -/
def Together (slots : AttachmentSlots) (runtime : AttachmentRuntime) : Prop :=
  ∀ id : String, Fits slots.slots[id]? runtime.incoming[id]?

variable {c : ChunkCrypto} {w : World} {slots : AttachmentSlots} {runtime : AttachmentRuntime}
  {id : String}

theorem Together.elsewhere (h : Together slots runtime) (id : String) :
    FitElsewhere id slots runtime :=
  fun k _ => h k

/-- It is enough to look at one file if the others stay. -/
theorem FitElsewhere.together {slots' : AttachmentSlots} {runtime' : AttachmentRuntime}
    (h : FitElsewhere id slots runtime)
    (hslots : ∀ k, k ≠ id → slots'.slots[k]? = slots.slots[k]?)
    (hruntime : ∀ k, k ≠ id → runtime'.incoming[k]? = runtime.incoming[k]?)
    (hid : Fits slots'.slots[id]? runtime'.incoming[id]?) : Together slots' runtime' := by
  intro k
  by_cases hk : k = id
  · rw [hk]
    exact hid
  · rw [hslots k hk, hruntime k hk]
    exact h k hk

/-- A slot that does not await chunks fits to a transfer that is not complete. -/
theorem fits_of_not_awaiting {slot : Option AttachmentSlot} {transfer : Option IncomingTransfer}
    (hslot : ∀ s, slot = some s → s.awaitsChunks = false)
    (htransfer : ∀ t, transfer = some t → t.state ≠ .complete) : Fits slot transfer := by
  intro s hs _ _
  refine ⟨htransfer, fun hawaits => ?_⟩
  rw [hslot s hs] at hawaits
  exact absurd hawaits Bool.false_ne_true

/-- The transfer of a slot gets further and stays what it is. -/
theorem Fits.of_rel {slot : Option AttachmentSlot} {transfer transfer' : Option IncomingTransfer}
    (h : Fits slot transfer) (hrel : Option.Rel (fun t t' => t'.state = t.state ∧
      (t.downloadStarted = true → t'.downloadStarted = true)) transfer transfer') :
    Fits slot transfer' := by
  intro s hs hdirection hpath
  obtain ⟨hcomplete, hruns⟩ := h s hs hdirection hpath
  cases hrel with
  | none => exact ⟨hcomplete, hruns⟩
  | @some t t' hsame =>
    refine ⟨fun t₁ ht₁ => ?_, fun hawaits => ?_⟩
    · rw [← Option.some.inj ht₁, hsame.1]
      exact hcomplete t rfl
    · obtain ⟨t₁, ht₁, hactive, hstarted⟩ := hruns hawaits
      obtain rfl := Option.some.inj ht₁
      exact ⟨t', rfl, hsame.1.trans hactive, hsame.2 hstarted⟩

/-- A failed slot does not await chunks. -/
theorem awaitsChunks_fail {slot : Option AttachmentSlot} (s : AttachmentSlot)
    (h : slot.map (fun s => { s with failed := true }) = some s) : s.awaitsChunks = false := by
  obtain ⟨s', -, rfl⟩ := Option.map_eq_some_iff.1 h
  simp [AttachmentSlot.awaitsChunks]

/-! ## The slots and the runtime -/

/-- A file and its transfer fail together. -/
theorem FitElsewhere.fail (h : FitElsewhere id slots runtime) :
    Together (slots.fail id) (runtime.failIncoming id) := by
  refine h.together (fun k hk => ?_) (fun k hk => ?_) ?_
  · rw [AttachmentSlots.fail, AttachmentSlots.getElem?_modify, if_neg (Ne.symm hk)]
  · rw [AttachmentRuntime.failIncoming, Table.getElem?_alter, if_neg (Ne.symm hk)]
  · rw [AttachmentSlots.fail, AttachmentSlots.getElem?_modify, if_pos rfl,
      AttachmentRuntime.failIncoming, Table.getElem?_alter, if_pos rfl]
    refine fits_of_not_awaiting awaitsChunks_fail fun t ht => ?_
    obtain ⟨t', -, rfl⟩ := Option.map_eq_some_iff.1 ht
    exact TransferState.noConfusion

/-- A transfer that starts again runs, unless it is complete. -/
theorem restart_running {t : IncomingTransfer} (h : t.state ≠ .complete) :
    (AttachmentRuntime.restart t).state = .active ∧
      (AttachmentRuntime.restart t).downloadStarted = true := by
  cases hstate : t.state with
  | complete => exact absurd hstate h
  | active | cancelled | failed => simp [AttachmentRuntime.restart, hstate]

/-- The user asks for a file. -/
theorem Together.startDownload (h : Together slots runtime) (id : String) :
    Together (slots.startDownload id runtime).2.1 (slots.startDownload id runtime).2.2 := by
  rw [AttachmentSlots.startDownload]
  split
  · exact h
  next slot hslot =>
  split
  · exact h
  rw [AttachmentRuntime.startDownload]
  cases ht : runtime.incoming[id]? with
  | none => exact h
  | some t =>
    refine (h.elsewhere id).together (fun k hk => ?_) (fun k hk => ?_) ?_
    · rw [AttachmentSlots.getElem?_modify, if_neg (Ne.symm hk)]
    · rw [Table.getElem?_insert, if_neg (Ne.symm hk)]
    · rw [AttachmentSlots.getElem?_modify, if_pos rfl, Table.getElem?_insert, if_pos rfl, hslot]
      intro s hs hdirection hpath
      obtain rfl := Option.some.inj hs
      -- The file is not saved, so its transfer is not complete.
      have hstate := (h id slot hslot hdirection hpath).1 t ht
      obtain ⟨hactive, hstarted⟩ := restart_running hstate
      refine ⟨fun t' ht' => ?_, fun _ => ⟨_, rfl, hactive, hstarted⟩⟩
      rw [← Option.some.inj ht', hactive]
      exact TransferState.noConfusion

/-- The user cancels a transfer. -/
theorem Together.cancel (h : Together slots runtime) (id : String) :
    Together (slots.cancel id runtime).2.1 (slots.cancel id runtime).2.2 := by
  rw [AttachmentSlots.cancel]
  split
  · exact h
  next slot hslot =>
  refine (h.elsewhere id).together (fun k hk => ?_) (fun k hk => ?_) ?_
  · rw [AttachmentSlots.getElem?_modify, if_neg (Ne.symm hk)]
  · rw [AttachmentRuntime.cancel, Table.getElem?_alter, if_neg (Ne.symm hk)]
  · rw [AttachmentSlots.getElem?_modify, if_pos rfl, hslot, AttachmentRuntime.cancel,
      Table.getElem?_alter, if_pos rfl]
    intro s hs hdirection hpath
    obtain rfl := Option.some.inj hs
    refine ⟨fun t ht => ?_, fun hawaits => ?_⟩
    · obtain ⟨t', ht', rfl⟩ := Option.map_eq_some_iff.1 ht
      have hstate := (h id slot hslot hdirection hpath).1 t' ht'
      dsimp only
      rw [AttachmentRuntime.cancelled]
      split
      · exact TransferState.noConfusion
      · exact hstate
    · simp [AttachmentSlot.awaitsChunks] at hawaits

/-- A manifest is refused, or becomes a new transfer that is active. -/
theorem registerIncoming_cases (runtime : AttachmentRuntime) (manifest : AttachmentManifest) :
    (∃ e, runtime.registerIncoming c manifest = (.error e, runtime)) ∨
    ∃ t, t.state = .active ∧ runtime.incoming[manifest.attachmentId]? = none ∧
      runtime.registerIncoming c manifest =
        (.ok (), ⟨runtime.outgoing, runtime.incoming.insert manifest.attachmentId t⟩) := by
  rw [AttachmentRuntime.registerIncoming]
  split
  · exact .inl ⟨_, rfl⟩
  next hfresh =>
  have hnone : runtime.incoming[manifest.attachmentId]? = none :=
    Std.ExtTreeMap.getElem?_eq_none hfresh
  split
  · exact .inl ⟨_, rfl⟩
  split
  · exact .inl ⟨_, rfl⟩
  split
  · exact .inl ⟨_, rfl⟩
  · exact .inr ⟨_, rfl, hnone, rfl⟩

/-- A transfer starts for a slot that does not await chunks. -/
theorem FitElsewhere.insert {slots' : AttachmentSlots} {t : IncomingTransfer}
    (h : FitElsewhere id slots runtime) (hstate : t.state = .active)
    (hslots : ∀ k, k ≠ id → slots'.slots[k]? = slots.slots[k]?)
    (hslot : ∀ s, slots'.slots[id]? = some s → s.awaitsChunks = false) :
    Together slots' ⟨runtime.outgoing, runtime.incoming.insert id t⟩ := by
  refine h.together hslots (fun k hk => ?_) ?_
  · rw [Table.getElem?_insert, if_neg (Ne.symm hk)]
  · rw [Table.getElem?_insert, if_pos rfl]
    refine fits_of_not_awaiting hslot fun t' ht' => ?_
    rw [← Option.some.inj ht', hstate]
    exact TransferState.noConfusion

/-- A manifest that is registered fits to what the slots say. -/
theorem Together.registerIncoming (h : Together slots runtime) (manifest : AttachmentManifest) :
    Together slots (runtime.registerIncoming c manifest).2 := by
  rcases registerIncoming_cases (c := c) runtime manifest with
    ⟨e, herror⟩ | ⟨t, hstate, hnone, hok⟩
  · rw [herror]
    exact h
  · rw [hok]
    intro k
    rw [Table.getElem?_insert]
    split
    · next hk =>
      -- The file had no transfer, so it does not await chunks.
      intro s hs hdirection hpath
      have hfits := h k s hs hdirection hpath
      rw [← hk, hnone] at hfits
      refine ⟨fun t' ht' => ?_, fun hawaits => ?_⟩
      · rw [← Option.some.inj ht', hstate]
        exact TransferState.noConfusion
      · obtain ⟨t', ht', -⟩ := hfits.2 hawaits
        cases ht'
    · exact h k

/-- The transfers of a file that does not await chunks are forgotten. -/
theorem FitElsewhere.forget (h : FitElsewhere id slots runtime)
    (hslot : ∀ s, slots.slots[id]? = some s → s.awaitsChunks = false) :
    Together slots (runtime.forget id) := by
  refine h.together (fun _ _ => rfl) (fun k hk => ?_) ?_
  · rw [AttachmentRuntime.forget, Table.getElem?_erase, if_neg (Ne.symm hk)]
  · rw [AttachmentRuntime.forget, Table.getElem?_erase, if_pos rfl]
    exact fits_of_not_awaiting hslot fun t ht => by cases ht

/-- A new file does not await chunks. -/
theorem getElem?_offer (descriptor : AttachmentDescriptor) (k : String) :
    (slots.offer descriptor).slots[k]? = if descriptor.attachmentId = k then
      some { descriptor, direction := .incoming, localPath := none } else slots.slots[k]? :=
  Table.getElem?_insert _ _ _ _

/-- A file is not known any more. -/
theorem Together.forget (h : Together slots runtime) (id : String) :
    Together (slots.forget id) (runtime.forget id) := by
  refine (h.elsewhere id).together (fun k hk => ?_) (fun k hk => ?_) ?_
  · rw [AttachmentSlots.forget, Table.getElem?_erase, if_neg (Ne.symm hk)]
  · rw [AttachmentRuntime.forget, Table.getElem?_erase, if_neg (Ne.symm hk)]
  · rw [AttachmentSlots.forget, Table.getElem?_erase, if_pos rfl]
    exact fun s hs => by cases hs

/-- A file that is on disk is known again. -/
theorem Together.restore (h : Together slots runtime) (descriptor : AttachmentDescriptor)
    (direction : AttachmentDirection) (path : String) :
    Together (slots.restore descriptor direction path) runtime := by
  rw [AttachmentSlots.restore]
  split
  · exact h
  · refine (h.elsewhere descriptor.attachmentId).together (fun k hk => ?_) (fun _ _ => rfl) ?_
    · rw [AttachmentSlots.insert, Table.getElem?_insert, if_neg (Ne.symm hk)]
    · rw [AttachmentSlots.insert, Table.getElem?_insert, if_pos rfl]
      intro s hs _ hpath
      rw [← Option.some.inj hs] at hpath
      cases hpath

/-- A file that was sent is sent on. -/
theorem Together.resumeSent (h : Together slots runtime) (id : String) :
    Together (slots.resumeSent id) (runtime.resumeOutgoing id) := by
  have hruntime : (runtime.resumeOutgoing id).incoming = runtime.incoming := by
    rw [AttachmentRuntime.resumeOutgoing]
    split
    · rfl
    · rfl
  refine (h.elsewhere id).together (fun k hk => ?_) (fun k _ => by rw [hruntime]) ?_
  · rw [AttachmentSlots.resumeSent, AttachmentSlots.getElem?_modify, if_neg (Ne.symm hk)]
  · rw [AttachmentSlots.resumeSent, AttachmentSlots.getElem?_modify, if_pos rfl, hruntime]
    intro s hs hdirection hpath
    obtain ⟨s', hs', rfl⟩ := Option.map_eq_some_iff.1 hs
    by_cases houtgoing : s'.direction = .outgoing
    · rw [if_pos houtgoing] at hdirection
      exact absurd (houtgoing.symm.trans hdirection) (by decide)
    · rw [if_neg houtgoing] at hdirection hpath ⊢
      exact h id s' hs' hdirection hpath

/-- Chunks are asked for. -/
theorem Together.nextChunkRequest (h : Together slots runtime) (id : String) (now budget : Nat) :
    Together slots (runtime.nextChunkRequestWithBudgetAt id now budget).2 := by
  intro k
  refine (h k).of_rel ?_
  have hrel := AttachmentRuntime.sameData_nextChunkRequest runtime id k now budget
  generalize runtime.incoming[k]? = t at hrel ⊢
  generalize (runtime.nextChunkRequestWithBudgetAt id now budget).2.incoming[k]? = t' at hrel ⊢
  cases hrel with
  | none => exact .none
  | some hsame => exact .some ⟨hsame.state, hsame.started⟩

/-- Playback asks for a range. -/
theorem Together.streamRange (h : Together slots runtime) (id : String) (start stop : Nat) :
    Together slots (runtime.streamRange id start stop).2 := by
  rw [AttachmentRuntime.streamRange]
  cases ht : runtime.incoming[id]? with
  | none => exact h
  | some t =>
    refine (h.elsewhere id).together (fun _ _ => rfl) (fun k hk => ?_) ?_
    · rw [Table.getElem?_insert, if_neg (Ne.symm hk)]
    · rw [Table.getElem?_insert, if_pos rfl]
      exact (h id).of_rel (ht.symm ▸ .some ⟨rfl, fun _ => rfl⟩)

/-! ## Calls that do not take chunks -/

namespace Transfer

/-- The slots of a conversation fit to its transfers. -/
def Agrees (tr : Transfer) : Prop := Together tr.slots tr.runtime

variable {tr : Transfer}

/-- Keeping a file on disk touches neither slots nor transfers. -/
theorem retainLease_eq (tr : Transfer) (descriptor : AttachmentDescriptor) :
    (tr.retainLease w descriptor).2.slots = tr.slots ∧
      (tr.retainLease w descriptor).2.runtime = tr.runtime := by
  rw [retainLease]
  split
  · exact ⟨rfl, rfl⟩
  · split
    · exact ⟨rfl, rfl⟩
    · exact ⟨rfl, rfl⟩

theorem Agrees.retainLease (h : tr.Agrees) (descriptor : AttachmentDescriptor) :
    (tr.retainLease w descriptor).2.Agrees := by
  obtain ⟨hslots, hruntime⟩ := retainLease_eq (w := w) tr descriptor
  rw [Agrees, hslots, hruntime]
  exact h

/-- A manifest is taken in. -/
theorem Agrees.acceptManifest (h : tr.Agrees) (manifest : AttachmentManifest) :
    (tr.acceptManifest c w manifest).2.Agrees := by
  rw [Transfer.acceptManifest]
  split
  · exact h
  dsimp only
  rw [withLease]
  have hlease := h.retainLease (w := w) (descriptorOf manifest)
  generalize tr.retainLease w (descriptorOf manifest) = lease at hlease
  obtain ⟨retained, tr'⟩ := lease
  cases retained with
  | error e => exact hlease
  | ok retained =>
    dsimp only
    rcases registerIncoming_cases (c := c) tr'.runtime manifest with
      ⟨e, herror⟩ | ⟨t, hstate, -, hok⟩
    · rw [herror]
      dsimp only [Except.mapError]
      split
      · exact hlease
      · exact hlease
    · rw [hok]
      dsimp only [Except.mapError]
      refine (hlease.elsewhere _).insert hstate (fun k hk => ?_) fun s hs => ?_
      · rw [getElem?_offer]
        exact if_neg (Ne.symm hk)
      · rw [getElem?_offer, descriptorOf, if_pos rfl] at hs
        rw [← Option.some.inj hs]
        rfl

/-- A file of the history is known again. -/
theorem Agrees.restoreStored (h : tr.Agrees) (descriptor : AttachmentDescriptor)
    (direction : AttachmentDirection) (manifest : Option AttachmentManifest) :
    (tr.restoreStored c w descriptor direction manifest).Agrees := by
  have hcached : (tr.restoreCached w descriptor direction).Agrees := by
    rw [restoreCached]
    split
    · exact h.retainLease descriptor
    · split
      · exact h.retainLease descriptor
      · exact (h.retainLease descriptor).restore descriptor direction _
  rw [Transfer.restoreStored]
  split
  · exact h
  dsimp only
  split
  · split
    · exact hcached
    · exact hcached
  · split
    · exact hcached.acceptManifest _
    · exact hcached

/-- A file, and its preview before it, is not known any more. -/
theorem Agrees.forget (h : tr.Agrees) (id : String) : (tr.forget w id).Agrees := by
  have hexecution : ∀ (tr : Transfer) (id : String), tr.Agrees → (tr.forgetExecution w id).Agrees := by
    intro tr id h
    rw [forgetExecution]
    repeat' split
    all_goals exact h
  induction tr, id using Transfer.forget.induct (w := w) with
  | case1 tr id tr' ih =>
    have hagrees : tr'.Agrees := hexecution tr id h
    rw [Transfer.forget]
    split
    · exact Together.forget hagrees id
    · next preview hpreview => exact Together.forget (ih preview hpreview hagrees) id

/-- The preview of a file is taken in. -/
theorem Agrees.installPreview (h : tr.Agrees) (parent : String) (manifest : AttachmentManifest)
    (direction : AttachmentDirection) :
    (tr.installPreview c w parent manifest direction).2.Agrees := by
  rw [Transfer.installPreview]
  split
  · exact h
  dsimp only
  split
  · exact h.restoreStored _ _ _
  split
  · exact h
  have haccept := h.acceptManifest (c := c) (w := w) manifest
  generalize tr.acceptManifest c w manifest = accepted at haccept
  obtain ⟨result, tr'⟩ := accepted
  cases result with
  | error e => exact haccept
  | ok descriptor => exact haccept

/-- An offer is taken in. -/
theorem Agrees.acceptOffer (h : tr.Agrees) (offer : AttachmentOffer) :
    (tr.acceptOffer c w offer).2.Agrees := by
  rw [Transfer.acceptOffer]
  split
  · exact h
  have haccept := h.acceptManifest (c := c) (w := w) offer.manifest
  generalize tr.acceptManifest c w offer.manifest = accepted at haccept
  obtain ⟨result, tr'⟩ := accepted
  split
  · next heq => exact (Prod.mk.inj heq).2 ▸ haccept
  · next heq => exact (Prod.mk.inj heq).2 ▸ haccept
  next heq =>
  rw [(Prod.mk.inj heq).2] at haccept
  split
  · exact haccept
  next preview _ =>
  have hinstall := haccept.installPreview (c := c) (w := w) offer.manifest.attachmentId preview
    .incoming
  split
  · next heq =>
    rw [heq] at hinstall
    exact hinstall.forget _
  · next heq =>
    rw [heq] at hinstall
    exact hinstall

/-- The same files, with the same previews: what is saved and admitted can differ. -/
structure SameFiles (tr tr' : Transfer) : Prop where
  slots : tr'.slots = tr.slots
  runtime : tr'.runtime = tr.runtime
  previews : tr'.previews = tr.previews
  previewRetryAfter : tr'.previewRetryAfter = tr.previewRetryAfter

/-- The file whose chunks cannot be saved, and why. -/
def unsaved (w : World) (tr : Transfer) : Option (String × String) :=
  tr.execution.bind fun context =>
    firstUnsaved w context.admissions (w.order context.checkpoints.toList)

/-- All chunks can be saved, and then there are none to save. -/
theorem flushCheckpoints_ok (h : unsaved w tr = none) :
    ∃ tr', tr.flushCheckpoints w = (.ok (), tr') ∧ SameFiles tr tr' ∧ unsaved w tr' = none := by
  rw [flushCheckpoints]
  cases hcontext : tr.execution with
  | none => exact ⟨tr, rfl, ⟨rfl, rfl, rfl, rfl⟩, h⟩
  | some context =>
    rw [unsaved, hcontext, Option.bind_some] at h
    dsimp only
    rw [h]
    refine ⟨_, rfl, ⟨rfl, rfl, rfl, rfl⟩, ?_⟩
    have hempty : w.order (∅ : Std.ExtTreeMap String (List ChunkFrame) compare).toList = [] :=
      (w.order_perm _).eq_nil
    rw [unsaved, Option.bind_some, hempty, firstUnsaved]

/-- The chunks of a file cannot be saved: the file and its transfer fail. -/
theorem flushCheckpoints_error {attachment error : String}
    (h : unsaved w tr = some (attachment, error)) :
    ∃ tr', tr.flushCheckpoints w = (.error (.bytes error), tr') ∧
      tr'.slots = tr.slots.fail attachment ∧ tr'.runtime = tr.runtime.failIncoming attachment := by
  rw [flushCheckpoints]
  cases hcontext : tr.execution with
  | none =>
    rw [unsaved, hcontext] at h
    cases h
  | some context =>
    rw [unsaved, hcontext, Option.bind_some] at h
    dsimp only
    rw [h]
    exact ⟨_, rfl, rfl, rfl⟩

/-- Chunks are saved. -/
theorem Agrees.flushCheckpoints (h : tr.Agrees) : (tr.flushCheckpoints w).2.Agrees := by
  cases hunsaved : unsaved w tr with
  | none =>
    obtain ⟨tr', hflush, hsame, -⟩ := flushCheckpoints_ok hunsaved
    rw [hflush, Agrees, hsame.slots, hsame.runtime]
    exact h
  | some failed =>
    obtain ⟨tr', hflush, hslots, hruntime⟩ := flushCheckpoints_error hunsaved
    rw [hflush, Agrees, hslots, hruntime]
    exact (h.elsewhere failed.1).fail

/-- A chunk is put to its batch, if its file was admitted. -/
def batched (tr : Transfer) (frame : ChunkFrame) : Transfer :=
  match tr.execution with
  | none => tr
  | some context =>
    if frame.attachmentId ∈ context.admissions then
      { tr with execution := some { context with
          checkpoints := context.checkpoints.insert frame.attachmentId
            ((context.checkpoints[frame.attachmentId]?).getD [] ++ [frame]) } }
    else tr

theorem sameFiles_batched (tr : Transfer) (frame : ChunkFrame) : SameFiles tr (tr.batched frame) := by
  rw [batched]
  split
  · exact ⟨rfl, rfl, rfl, rfl⟩
  · split
    · exact ⟨rfl, rfl, rfl, rfl⟩
    · exact ⟨rfl, rfl, rfl, rfl⟩

/-- A chunk is put to its batch, and then all batches are saved or none. -/
theorem checkpointFrame_eq (tr : Transfer) (frame : ChunkFrame) :
    tr.checkpointFrame w frame = (.ok (), tr.batched frame) ∨
      tr.checkpointFrame w frame = (tr.batched frame).flushCheckpoints w := by
  rw [checkpointFrame, batched]
  cases hcontext : tr.execution with
  | none => exact .inl rfl
  | some context =>
    dsimp only
    by_cases hadmitted : frame.attachmentId ∈ context.admissions
    · rw [if_neg (not_not.2 hadmitted), if_pos hadmitted]
      split
      · exact .inr rfl
      · exact .inl rfl
    · rw [if_pos hadmitted, if_neg hadmitted]
      exact .inl rfl

/-- A chunk is put to its batch. -/
theorem Agrees.checkpointFrame (h : tr.Agrees) (frame : ChunkFrame) :
    (tr.checkpointFrame w frame).2.Agrees := by
  have hsame := sameFiles_batched tr frame
  have hbatched : (tr.batched frame).Agrees := by
    rw [Agrees, hsame.slots, hsame.runtime]
    exact h
  rcases checkpointFrame_eq (w := w) tr frame with heq | heq
  · rw [heq]
    exact hbatched
  · rw [heq]
    exact hbatched.flushCheckpoints

/-- The user asks for a file. -/
theorem Agrees.startDownload (h : tr.Agrees) (id : String) : (tr.startDownload w id).2.Agrees := by
  rw [Transfer.startDownload]
  split
  · exact h
  · exact Together.startDownload h id

/-- The user cancels a transfer. -/
theorem Agrees.cancel (h : tr.Agrees) (id : String) : (tr.cancel w id).2.Agrees := by
  rw [Transfer.cancel]
  have hflush := h.flushCheckpoints (w := w)
  split
  · next heq => rwa [heq] at hflush
  next heq =>
    rw [heq] at hflush
    split
    · exact hflush
    · exact Together.cancel hflush id

/-- The user admits a transfer. -/
theorem Agrees.bindDownloadAdmission (h : tr.Agrees) (attachmentId id : String) :
    (tr.bindDownloadAdmission w attachmentId id).2.Agrees := by
  have hbind : ∀ manifest, (tr.bindUserAdmission w id manifest).2.Agrees := by
    intro manifest
    rw [bindUserAdmission]
    repeat' split
    all_goals exact h
  rw [Transfer.bindDownloadAdmission]
  split
  · exact h
  next manifest _ =>
    have hbound := hbind manifest
    split
    · next heq => rwa [heq] at hbound
    next heq =>
      rw [heq] at hbound
      split
      · exact hbound
      · exact Together.resumeSent hbound attachmentId

/-- Previews are downloaded: by induction on the loop. -/
theorem Agrees.scheduleLoop (waiting available : Nat) (h : tr.Agrees) :
    (scheduleLoop w waiting available tr).Agrees := by
  induction waiting generalizing available tr with
  | zero => exact h
  | succ waiting ih =>
    rw [Transfer.scheduleLoop]
    split
    · exact h
    next id rest _ =>
    dsimp only
    split
    · exact ih available h
    split
    · exact ih available h
    have hrest : Agrees { tr with pendingPreviews := rest } := h
    have hstart := hrest.startDownload (w := w) id
    split
    · next heq =>
      rw [heq] at hstart
      exact ih _ hstart
    · next heq =>
      rw [heq] at hstart
      exact ih _ hstart

theorem Agrees.schedulePreviews (h : tr.Agrees) : (tr.schedulePreviews w).Agrees := by
  rw [Transfer.schedulePreviews]
  split
  · exact h
  · exact h.scheduleLoop _ _

/-- Chunks are asked for: by induction on the loop over the files. -/
theorem together_requestLoop {slots : AttachmentSlots} (ids : List String)
    {runtime : AttachmentRuntime} (h : Together slots runtime) :
    Together slots (requestLoop w ids runtime).2 := by
  induction ids generalizing runtime with
  | nil => exact h
  | cons id rest ih => exact ih (h.nextChunkRequest id _ _)

theorem Agrees.nextRequests (h : tr.Agrees) : (tr.nextRequests w).2.Agrees := by
  rw [Transfer.nextRequests]
  have hflush := h.flushCheckpoints (w := w)
  split
  · next heq => rwa [heq] at hflush
  next heq =>
    rw [heq] at hflush
    exact together_requestLoop _ (Agrees.schedulePreviews hflush)

/-- Playback asks for a range. -/
theorem Agrees.streamRange (h : tr.Agrees) (id : String) (start stop : Nat) :
    (tr.streamRange w id start stop).2.Agrees := by
  rw [Transfer.streamRange]
  split
  · exact h
  have hstream := (Together.startDownload h id).streamRange id start stop
  dsimp only
  split
  · exact hstream
  split
  · exact hstream
  split
  · exact hstream
  · exact hstream

end Transfer

/-! ## A chunk arrives -/

/-- The chunk is the last one of the file: it can be decrypted, and together with the chunks that
    have arrived it makes the file of the manifest. -/
def LastChunk (c : ChunkCrypto) (t : IncomingTransfer) (frame : ChunkFrame) (bytes : List UInt8) :
    Prop :=
  t.state = .active ∧ frame.chunkIndex < t.manifest.chunkCount ∧ frame.chunkIndex ∉ t.chunks ∧
    ∃ ciphertext plaintext, c.decode frame.ciphertextB64 = some ciphertext ∧
      c.decryptChunk t.key t.noncePrefix frame.chunkIndex ciphertext = .ok plaintext ∧
      plaintext.length = min t.manifest.chunkSize
        (t.manifest.totalSize - frame.chunkIndex * t.manifest.chunkSize) ∧
      (t.chunks.insert frame.chunkIndex plaintext).size = t.manifest.chunkCount ∧
      bytes = ((t.chunks.insert frame.chunkIndex plaintext).toList.map (·.2)).flatten ∧
      bytes.length = t.manifest.totalSize ∧ c.sha256Hex bytes = t.manifest.contentHash

/-- What a chunk does to a transfer: it completes it, or is refused, or leaves it running. -/
theorem ingest_cases (t : IncomingTransfer) (frame : ChunkFrame) :
    (∃ bytes, LastChunk c t frame bytes ∧ (AttachmentRuntime.ingest c t frame).1 =
        .ok (.complete frame.attachmentId t.manifest.contentHash bytes)) ∨
    (∃ e, (AttachmentRuntime.ingest c t frame).1 = .error e ∧
      (AttachmentRuntime.ingest c t frame).2.state ≠ .complete) ∨
    (((AttachmentRuntime.ingest c t frame).1 = .ok .duplicate ∨
        (AttachmentRuntime.ingest c t frame).1 = .ok .unknown ∨
        ∃ completed count, (AttachmentRuntime.ingest c t frame).1 =
          .ok (.progress completed count)) ∧
      (AttachmentRuntime.ingest c t frame).2.state = t.state ∧
      (AttachmentRuntime.ingest c t frame).2.downloadStarted = t.downloadStarted) := by
  rw [AttachmentRuntime.ingest]
  split
  · exact .inr (.inr ⟨.inl rfl, rfl, rfl⟩)
  next hactive =>
  have hnot : t.state ≠ .complete := by
    rw [not_not.1 hactive]
    exact TransferState.noConfusion
  split
  · exact .inr (.inr ⟨.inr (.inl rfl), rfl, rfl⟩)
  next hindex =>
  split
  · exact .inr (.inr ⟨.inl rfl, rfl, rfl⟩)
  next hmem =>
  split
  · exact .inr (.inl ⟨_, rfl, hnot⟩)
  next ciphertext hdecode =>
  split
  · exact .inr (.inl ⟨_, rfl, hnot⟩)
  next plaintext hdecrypt =>
  dsimp only
  split
  · exact .inr (.inl ⟨_, rfl, TransferState.noConfusion⟩)
  next hlength =>
  split
  · exact .inr (.inr ⟨.inr (.inr ⟨_, _, rfl⟩), rfl, rfl⟩)
  next hsize =>
  rw [AttachmentRuntime.complete]
  dsimp only
  split
  · exact .inr (.inl ⟨_, rfl, TransferState.noConfusion⟩)
  next htotal =>
  split
  · exact .inr (.inl ⟨_, rfl, TransferState.noConfusion⟩)
  next hhash =>
  have heq := not_not.1 hhash
  refine .inl ⟨_, ⟨not_not.1 hactive, not_le.1 hindex, hmem, ciphertext, plaintext, hdecode,
    hdecrypt, not_not.1 hlength, not_not.1 hsize, rfl, not_not.1 htotal, heq⟩, ?_⟩
  rw [heq]

namespace Transfer

variable {tr : Transfer} {frame : ChunkFrame}

/-- The last chunk of a file is put to its batch and all batches are saved: then the file is written
    out, or the file whose chunks cannot be saved fails. -/
theorem completeFile_cases (tr : Transfer) (frame : ChunkFrame) (fileName contentHash : String)
    (bytes : List UInt8) :
    (unsaved w (tr.batched frame) = none ∧ ∃ tr', SameFiles tr tr' ∧
      tr.completeFile c w frame fileName contentHash bytes =
        tr'.writeFile c w frame.attachmentId fileName contentHash bytes) ∨
    ∃ failed, unsaved w (tr.batched frame) = some failed ∧
      (tr.completeFile c w frame fileName contentHash bytes).2.slots = tr.slots.fail failed.1 ∧
      (tr.completeFile c w frame fileName contentHash bytes).2.runtime =
        tr.runtime.failIncoming failed.1 := by
  have hsame := sameFiles_batched tr frame
  rw [completeFile]
  cases hunsaved : unsaved w (tr.batched frame) with
  | none =>
    obtain ⟨tr₁, hflush, hsame₁, hunsaved₁⟩ := flushCheckpoints_ok hunsaved
    have htrans : ∀ {tr₂ tr₃ tr₄}, SameFiles tr₂ tr₃ → SameFiles tr₃ tr₄ → SameFiles tr₂ tr₄ :=
      fun h₁ h₂ => ⟨h₂.slots.trans h₁.slots, h₂.runtime.trans h₁.runtime,
        h₂.previews.trans h₁.previews, h₂.previewRetryAfter.trans h₁.previewRetryAfter⟩
    rcases checkpointFrame_eq (w := w) tr frame with heq | heq
    · rw [heq]
      dsimp only
      rw [hflush]
      exact .inl ⟨rfl, tr₁, htrans hsame hsame₁, rfl⟩
    · -- The batches were saved already, so there is nothing to save any more.
      obtain ⟨tr₂, hflush₂, hsame₂, -⟩ := flushCheckpoints_ok hunsaved₁
      rw [heq, hflush]
      dsimp only
      rw [hflush₂]
      exact .inl ⟨rfl, tr₂, htrans (htrans hsame hsame₁) hsame₂, rfl⟩
  | some failed =>
    obtain ⟨tr₁, hflush, hslots, hruntime⟩ := flushCheckpoints_error hunsaved
    rw [hsame.slots] at hslots
    rw [hsame.runtime] at hruntime
    rcases checkpointFrame_eq (w := w) tr frame with heq | heq
    · rw [heq]
      dsimp only
      rw [hflush]
      exact .inr ⟨failed, rfl, hslots, hruntime⟩
    · rw [heq, hflush]
      exact .inr ⟨failed, rfl, hslots, hruntime⟩

/-- A preview that failed is taken in anew, if this was not done already. -/
theorem agrees_retryPreview {id : String} (h : FitElsewhere id tr.slots tr.runtime)
    (hslot : ∀ s, tr.slots.slots[id]? = some s → s.awaitsChunks = false)
    (hstate : (tr.isPreview id = true ∧ id ∉ tr.previewRetryAfter) ∨
      ∀ t, tr.runtime.incoming[id]? = some t → t.state ≠ .complete) :
    (tr.retryPreview c w id).Agrees := by
  have hagrees : (∀ t, tr.runtime.incoming[id]? = some t → t.state ≠ .complete) → tr.Agrees :=
    fun hstate => h.together (fun _ _ => rfl) (fun _ _ => rfl) (fits_of_not_awaiting hslot hstate)
  rw [retryPreview]
  split
  · dsimp only
    cases hmanifest : tr.runtime.manifestOf id with
    | none =>
      refine hagrees fun t ht => ?_
      rw [AttachmentRuntime.manifestOf, Option.or_eq_none_iff, ht] at hmanifest
      cases hmanifest.2
    | some manifest => exact (h.forget hslot).registerIncoming manifest
  · next hretry => exact hagrees (hstate.resolve_left hretry)

/-- A file whose chunks are all there is written out. -/
theorem agrees_writeFile {id fileName contentHash : String} {bytes : List UInt8}
    (h : FitElsewhere id tr.slots tr.runtime)
    (hwrite : tr.isPreview id = true → id ∈ tr.previewRetryAfter →
      ∃ path, w.writeBlob contentHash fileName bytes = .ok path) :
    (tr.writeFile c w id fileName contentHash bytes).2.Agrees := by
  rw [writeFile]
  split
  · refine h.together (fun k hk => ?_) (fun _ _ => rfl) ?_
    · rw [AttachmentSlots.completeDownload, AttachmentSlots.getElem?_modify, if_neg (Ne.symm hk)]
    · rw [AttachmentSlots.completeDownload, AttachmentSlots.getElem?_modify, if_pos rfl]
      intro s hs _ hpath
      obtain ⟨s', -, rfl⟩ := Option.map_eq_some_iff.1 hs
      cases hpath
  next error herror =>
  dsimp only
  split
  · next hpreview =>
    refine agrees_retryPreview (fun k hk => ?_) (fun s hs => ?_) (.inl ⟨hpreview, fun hretry => ?_⟩)
    · dsimp only
      rw [AttachmentSlots.fail, AttachmentSlots.getElem?_modify, if_neg (Ne.symm hk)]
      exact h k hk
    · dsimp only at hs
      rw [AttachmentSlots.fail, AttachmentSlots.getElem?_modify, if_pos rfl] at hs
      exact awaitsChunks_fail s hs
    · obtain ⟨path, hpath⟩ := hwrite hpreview hretry
      rw [hpath] at herror
      cases herror
  · exact h.fail

/-- The call does no harm: if the last chunk of a file arrives, all chunks of other files can be
    saved, and if the file is a preview that is to be tried again already, it can be written. -/
def Unharmed (c : ChunkCrypto) (tr : Transfer) : World × TransferCall → Prop
  | (w, .ingest frame) =>
    ∀ t bytes, tr.slots.expectsChunks frame.attachmentId = true →
      tr.mayDownload w frame.attachmentId = true →
      tr.runtime.incoming[frame.attachmentId]? = some t → LastChunk c t frame bytes →
      match unsaved w (tr.batched frame) with
      | some failed => failed.1 = frame.attachmentId
      | none => tr.isPreview frame.attachmentId = true →
          frame.attachmentId ∈ tr.previewRetryAfter →
          ∃ path, w.writeBlob t.manifest.contentHash (tr.slots.fileName frame.attachmentId) bytes =
            .ok path
  | _ => True

/-- The transfer of a file was updated. -/
def received (tr : Transfer) (id : String) (t : IncomingTransfer) : Transfer :=
  { tr with runtime := ⟨tr.runtime.outgoing, tr.runtime.incoming.insert id t⟩ }

/-- What is to be saved does not depend on the transfers. -/
theorem unsaved_received (tr : Transfer) (id : String) (t : IncomingTransfer) (frame : ChunkFrame) :
    unsaved w ((tr.received id t).batched frame) = unsaved w (tr.batched frame) := by
  rw [batched, batched, received]
  cases hcontext : tr.execution with
  | none => rw [unsaved, unsaved, hcontext]
  | some context =>
    dsimp only
    split
    · rfl
    · rw [unsaved, unsaved, hcontext]

/-- The last chunk of a file arrives. -/
theorem agrees_completeFile {fileName contentHash : String} {bytes : List UInt8}
    (h : FitElsewhere frame.attachmentId tr.slots tr.runtime)
    (hguard : match unsaved w (tr.batched frame) with
      | some failed => failed.1 = frame.attachmentId
      | none => tr.isPreview frame.attachmentId = true →
          frame.attachmentId ∈ tr.previewRetryAfter →
          ∃ path, w.writeBlob contentHash fileName bytes = .ok path) :
    (tr.completeFile c w frame fileName contentHash bytes).2.Agrees := by
  rcases completeFile_cases (c := c) (w := w) tr frame fileName contentHash bytes with
    ⟨hnone, tr', hsame, hfile⟩ | ⟨failed, hsome, hslots, hruntime⟩
  · rw [hnone] at hguard
    rw [hfile]
    refine agrees_writeFile ?_ fun hpreview hretry => ?_
    · rw [hsame.slots, hsame.runtime]
      exact h
    · rw [isPreview, hsame.previews] at hpreview
      rw [hsame.previewRetryAfter] at hretry
      exact hguard hpreview hretry
  · rw [hsome] at hguard
    rw [Agrees, hslots, hruntime, show failed.1 = frame.attachmentId from hguard]
    exact h.fail

/-- A chunk arrives. -/
theorem Agrees.ingest (h : tr.Agrees) (hunharmed : Unharmed c tr (w, .ingest frame)) :
    (tr.ingest c w frame).2.Agrees := by
  rw [Transfer.ingest]
  split
  · exact h
  next hexpects =>
  rw [Bool.or_eq_true, not_or, Bool.not_eq_true', Bool.not_eq_true', Bool.not_eq_false,
    Bool.not_eq_false] at hexpects
  dsimp only
  rw [AttachmentRuntime.ingestChunk]
  cases ht : tr.runtime.incoming[frame.attachmentId]? with
  | none => exact h
  | some t =>
  dsimp only
  have helsewhere : FitElsewhere frame.attachmentId tr.slots
      (tr.received frame.attachmentId (AttachmentRuntime.ingest c t frame).2).runtime := by
    intro k hk
    rw [received, Table.getElem?_insert, if_neg (Ne.symm hk)]
    exact h k
  have hlookup : (tr.received frame.attachmentId
      (AttachmentRuntime.ingest c t frame).2).runtime.incoming[frame.attachmentId]? =
        some (AttachmentRuntime.ingest c t frame).2 := by
    rw [received, Table.getElem?_insert, if_pos rfl]
  rcases ingest_cases (c := c) t frame with
    ⟨bytes, hlast, heq⟩ | ⟨e, heq, hstate⟩ | ⟨hresult, hstate, hstarted⟩
  · -- The file is complete: all depends on whether the other chunks can be saved.
    have hguard := hunharmed t bytes hexpects.1 hexpects.2 ht hlast
    rw [← unsaved_received tr frame.attachmentId (AttachmentRuntime.ingest c t frame).2] at hguard
    have hcomplete : ((tr.received frame.attachmentId (AttachmentRuntime.ingest c t frame).2
        ).completeFile c w frame (tr.slots.fileName frame.attachmentId) t.manifest.contentHash
          bytes).2.Agrees := agrees_completeFile helsewhere hguard
    rw [heq]
    exact hcomplete
  · -- The chunk is refused: the slot fails, and the transfer is not complete.
    have hretry : (Transfer.retryPreview c w
        { tr.received frame.attachmentId (AttachmentRuntime.ingest c t frame).2 with
          slots := tr.slots.fail frame.attachmentId } frame.attachmentId).Agrees := by
      refine agrees_retryPreview (fun k hk => ?_) (fun s hs => ?_) (.inr fun t' ht' => ?_)
      · dsimp only
        rw [AttachmentSlots.fail, AttachmentSlots.getElem?_modify, if_neg (Ne.symm hk)]
        exact helsewhere k hk
      · dsimp only at hs
        rw [AttachmentSlots.fail, AttachmentSlots.getElem?_modify, if_pos rfl] at hs
        exact awaitsChunks_fail s hs
      · rw [← Option.some.inj (hlookup.symm.trans ht')]
        exact hstate
    rw [heq]
    exact hretry
  · have htogether : (tr.received frame.attachmentId
        (AttachmentRuntime.ingest c t frame).2).Agrees := by
      refine helsewhere.together (fun _ _ => rfl) (fun _ _ => rfl) ?_
      rw [hlookup]
      refine (h frame.attachmentId).of_rel ?_
      rw [ht]
      exact .some ⟨hstate, fun h => hstarted.trans h⟩
    rcases hresult with heq | heq | ⟨completed, count, heq⟩
    · rw [heq]
      exact htogether
    · rw [heq]
      exact htogether
    · rw [heq]
      exact htogether.checkpointFrame frame

/-- What every call keeps that does no harm. -/
theorem Agrees.step (h : tr.Agrees) {call : World × TransferCall} (hcall : Unharmed c tr call) :
    (tr.step c call).Agrees := by
  obtain ⟨w, call⟩ := call
  cases call with
  | acceptManifest manifest => exact h.acceptManifest manifest
  | acceptOffer offer => exact h.acceptOffer offer
  | bindDownloadAdmission attachmentId id => exact h.bindDownloadAdmission attachmentId id
  | startDownload id => exact h.startDownload id
  | cancel id => exact h.cancel id
  | ingest frame => exact h.ingest hcall
  | nextRequests => exact h.nextRequests
  | streamRange id start stop => exact h.streamRange id start stop
  | schedulePreviews => exact h.schedulePreviews

end Transfer

/-! ## Every run -/

/-- A conversation starts without files, with or without transfers that the user admitted. In every
    state that is reached by calls that do no harm, each file that awaits chunks has a transfer that
    is active and was started. -/
theorem slots_move_together (c : ChunkCrypto) (execution : Option Execution)
    (calls : List (World × TransferCall)) (tr : Transfer)
    (hrun : Run.Runs (Transfer.step c) (Transfer.Unharmed c) { execution } calls tr) (id : String)
    (slot : AttachmentSlot) (hslot : tr.slots.slots[id]? = some slot)
    (hawaits : slot.awaitsChunks = true) :
    ∃ t, tr.runtime.incoming[id]? = some t ∧ t.state = .active ∧ t.downloadStarted = true := by
  have hstart : ({ execution } : Transfer).Agrees := fun k s hs => by
    rw [Std.ExtTreeMap.getElem?_empty] at hs
    cases hs
  have hagrees := hrun.invariant (fun tr call hcall h => Transfer.Agrees.step h hcall) hstart
  have hfacts := hawaits
  rw [AttachmentSlot.awaitsChunks] at hfacts
  simp only [Bool.and_eq_true, decide_eq_true_eq, Option.isNone_iff_eq_none] at hfacts
  exact (hagrees id slot hslot hfacts.1.1.1.1 hfacts.1.2).2 hawaits

/-! ## A run that does no harm, and one that does -/

/-- A world in which everything can be read and saved. -/
def calmWorld : World where
  now := 0
  managedExecution := false
  automaticDownloadsAllowed := true
  granted _ := false
  retain _ _ := .ok ()
  pathFor hash name := .ok (hash ++ "/" ++ name)
  writeBlob hash name _ := .ok (hash ++ "/" ++ name)
  cachedValid _ := false
  readBlob _ _ _ := none
  saveUserTransferChunks _ _ := .ok ()
  userTransfer _ := .ok (some (.download, .running))
  setUserTransferState _ _ := .ok ()
  bindUserTransfer _ _ := .ok ()
  removeUserTransfer _ := .ok ()
  order batches := batches
  order_perm batches := .refl batches

/-- The database cannot save chunks. -/
def fullWorld : World :=
  { calmWorld with saveUserTransferChunks _ _ := .error "disk full" }

/-- A file in chunks of one byte. -/
def smallManifest (id : String) (bytes : List UInt8) : AttachmentManifest where
  origin := none
  attachmentId := id
  contentHash := plainChunks.sha256Hex bytes
  fileName := id ++ ".txt"
  mime := "text/plain"
  totalSize := bytes.length
  chunkSize := 1
  chunkCount := bytes.length
  keyB64 := plainChunks.encode (List.replicate attachmentKeyLen 7)
  noncePrefixB64 := plainChunks.encode (List.replicate attachmentNoncePrefixLen 1)
  thumbnailB64 := none
  voice := none
  fromFingerprint := "alice"

/-- A chunk of one byte. -/
def smallFrame (id : String) (index : Nat) (byte : UInt8) : ChunkFrame :=
  ⟨id, index, plainChunks.encode [byte ^^^ 7]⟩

/-- The user admitted the downloads of two files. -/
def twoAdmitted : Execution where
  admissions := ((∅ : Std.ExtTreeMap String Admission compare).insert "letter"
    ⟨"transfer-1", .download, .running⟩).insert "note" ⟨"transfer-2", .download, .running⟩

/-- Two files are offered and asked for, and the first chunk of the longer one arrives. -/
def firstChunk : List (World × TransferCall) :=
  [(calmWorld, .acceptManifest (smallManifest "letter" [72, 105])),
    (calmWorld, .acceptManifest (smallManifest "note" [33])),
    (calmWorld, .startDownload "letter"),
    (calmWorld, .startDownload "note"),
    (calmWorld, .ingest (smallFrame "letter" 0 72))]

/-- The letter still awaits its second chunk, and its transfer runs. -/
theorem slots_move_together_letter :
    ∃ t, (firstChunk.foldl (Transfer.step plainChunks)
      { execution := some twoAdmitted }).runtime.incoming["letter"]? = some t ∧
        t.state = .active ∧ t.downloadStarted = true := by
  have hguard : Transfer.Unharmed plainChunks ((firstChunk.take 4).foldl (Transfer.step plainChunks)
      { execution := some twoAdmitted }) (calmWorld, .ingest (smallFrame "letter" 0 72)) := by
    intro t bytes _ _ _ _
    have hsaved : Transfer.unsaved calmWorld (((firstChunk.take 4).foldl
        (Transfer.step plainChunks) { execution := some twoAdmitted }).batched
          (smallFrame "letter" 0 72)) = none := by decide +kernel
    rw [hsaved]
    exact fun hpreview => absurd hpreview (by decide +kernel)
  have hrun : Run.Runs (Transfer.step plainChunks) (Transfer.Unharmed plainChunks)
      { execution := some twoAdmitted } firstChunk
      (firstChunk.foldl (Transfer.step plainChunks) { execution := some twoAdmitted }) :=
    .cons trivial (.cons trivial (.cons trivial (.cons trivial (.cons hguard (.nil _)))))
  have hslot : ∃ slot, (firstChunk.foldl (Transfer.step plainChunks)
      { execution := some twoAdmitted }).slots.slots["letter"]? = some slot ∧
        slot.awaitsChunks = true := (Option.any_eq_true _ _).1 (by decide +kernel)
  obtain ⟨slot, hslot, hawaits⟩ := hslot
  exact slots_move_together plainChunks (some twoAdmitted) firstChunk _ hrun "letter" slot hslot
    hawaits

/-- The only chunk of the shorter file arrives when chunks cannot be saved. -/
def noteArrives : List (World × TransferCall) :=
  firstChunk ++ [(fullWorld, .ingest (smallFrame "note" 0 33))]

/-- The only chunk of the note arrives when the chunk of the letter cannot be saved: the note awaits
    chunks, and its transfer is complete. -/
theorem another_file_strands :
    ¬ ∀ calls tr, Run.Runs (Transfer.step plainChunks) (fun _ _ => True)
        { execution := some twoAdmitted } calls tr → ∀ (id : String) (slot : AttachmentSlot),
      tr.slots.slots[id]? = some slot → slot.awaitsChunks = true →
        ∃ t, tr.runtime.incoming[id]? = some t ∧ t.state = .active ∧ t.downloadStarted = true := by
  intro h
  have hrun : Run.Runs (Transfer.step plainChunks) (fun _ _ => True)
      { execution := some twoAdmitted } noteArrives
      (noteArrives.foldl (Transfer.step plainChunks) { execution := some twoAdmitted }) :=
    .foldl _ _
  have hslot : ∃ slot, (noteArrives.foldl (Transfer.step plainChunks)
      { execution := some twoAdmitted }).slots.slots["note"]? =
        some slot ∧ slot.awaitsChunks = true := (Option.any_eq_true _ _).1 (by decide +kernel)
  have hcomplete : (noteArrives.foldl (Transfer.step plainChunks)
      { execution := some twoAdmitted }).runtime.incoming["note"]?.map
        (·.state) = some .complete := by decide +kernel
  obtain ⟨slot, hslot, hawaits⟩ := hslot
  obtain ⟨t, ht, hactive, -⟩ := h _ _ hrun "note" slot hslot hawaits
  rw [ht, Option.map_some, hactive] at hcomplete
  cases hcomplete

end Mosh.Attachment
