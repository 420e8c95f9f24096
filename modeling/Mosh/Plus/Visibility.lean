import Mosh.Plus.Devices

/-!
# One setting for all devices

The user says on any device whether others see what the account has. Of two settings the one with
the higher count is shown, and with equal counts the one of the later writer. Over every run of the
devices, with whatever loss, repetition and order of the pages:

* `Shown`: no two settings have the same count and writer;
* `taken`, `takenIn`: the settings that a device has taken in;
* `visibility_agreed`: a device shows the latest setting that it has taken in, and devices that
  have taken in the same show the same.
-/

namespace Mosh.Plus

open Checked Run

variable {Key Json : Type} [DecidableEq Json] {c : DevicesCrypto Key Json}

namespace Visibility

variable {v w : Visibility}

theorem counter_le (h : v.stamp ≤ w.stamp) : v.counter ≤ w.counter := by
  obtain h | ⟨h, -⟩ := Prod.Lex.toLex_le_toLex.1 h
  · exact h.le
  · exact h.le

theorem stamp_later : (v.later w).stamp = max v.stamp w.stamp := by
  rw [later]
  split_ifs with h
  · exact (max_eq_right h.le).symm
  · exact (max_eq_left (not_lt.1 h)).symm

theorem later_eq_or : v.later w = v ∨ v.later w = w := by
  rw [later]
  split_ifs
  · exact .inr rfl
  · exact .inl rfl

/-- The latest of some settings. -/
def Latest (v : Visibility) (l : List Visibility) : Prop := v ∈ l ∧ ∀ w ∈ l, w.stamp ≤ v.stamp

end Visibility

namespace PlusRuntime

variable {s s' : PlusRuntime Key}

/-- A page that is merged leaves the later setting. -/
theorem visibility_mergeSync {json : String} {refused next : Option String}
    (h : s.mergeSync c.toPlusCrypto json refused = (.ok next, s')) :
    ∃ page, c.parsePage json = some page ∧
      s'.state.shared.visibility = s.state.shared.visibility.later page.visibility := by
  rw [mergeSync] at h
  split at h
  · cases h
  split at h
  · cases h
  next page hpage =>
    split at h
    · cases h
    split at h
    · cases h
    next mid hseries =>
      have hmid : mid.shared.visibility = s.state.shared.visibility := by
        rw [mergeSyncSeries.eq_def] at hseries
        split at hseries
        · split_ifs at hseries
          rw [← Except.ok.inj hseries]
        · split_ifs at hseries
          · split at hseries <;> cases hseries
          · rw [← Except.ok.inj hseries]
            rfl
      split at h
      · cases h
      next hsaved =>
        obtain ⟨merged, hmerged, hsave⟩ := bind_eq_ok.1 hsaved
        obtain ⟨-, rfl⟩ := Prod.mk.inj h
        rw [state_save hsave, (shared_mergeSyncPage hmerged).2, hmid]
        exact ⟨page, hpage, rfl⟩

end PlusRuntime

namespace Devices

variable {w w' : Devices Key} {account : String} {a : String}

/-- The settings that devices have, or that are on the way. -/
def Set (c : DevicesCrypto Key Json) (w : Devices Key) (v : Visibility) : Prop :=
  (∃ id, v = (w.shared id).visibility) ∨
    ∃ text ∈ w.pages, ∃ page, c.parsePage text = some page ∧ v = page.visibility

/-- No two settings have the same count and writer, and no count is ahead of its writer. -/
structure Shown (c : DevicesCrypto Key Json) (w : Devices Key) : Prop where
  unique : ∀ v v', w.Set c v → w.Set c v' → v.stamp = v'.stamp → v = v'
  counted : ∀ v, w.Set c v → v.counter ≤ (w.shared v.writer).visibility.counter
  read : ∀ text ∈ w.pages, ∃ page, c.parsePage text = some page

omit [DecidableEq Json] in
/-- A step that makes no setting. -/
theorem Shown.mono (h : Shown c w) (hset : ∀ v, w'.Set c v → w.Set c v)
    (hcount : ∀ id, (w.shared id).visibility.counter ≤ (w'.shared id).visibility.counter)
    (hread : ∀ text ∈ w'.pages, ∃ page, c.parsePage text = some page) : Shown c w' where
  unique v v' hv hv' := h.unique v v' (hset v hv) (hset v' hv')
  counted v hv := (h.counted v (hset v hv)).trans (hcount _)
  read := hread

/-- The settings that a device has taken in with a step. -/
def taken (c : DevicesCrypto Key Json) (a : String) (w : Devices Key) : Step → List Visibility
  | .deed id (.purchase (.mergeSync json refused)) =>
    if id = a then
      match ((w.device id).mergeSync c.toPlusCrypto json refused).1 with
      | .ok _ => ((c.parsePage json).map Page.visibility).toList
      | .error _ => []
    else []
  | .deed id deed => if id = a then [(w.step c (.deed id deed)).shared a |>.visibility] else []
  | _ => []

/-- The settings that a device has taken in over a run. -/
def takenIn (c : DevicesCrypto Key Json) (a : String) : Devices Key → List Step → List Visibility
  | _, [] => []
  | w, step :: steps => taken c a w step ++ takenIn c a (w.step c step) steps

omit [DecidableEq Json] in
/-- A deed leaves the setting of its device, takes the later one of a page, or makes a new one. -/
theorem visibility_change (hknown : Known c account w) {id : String} {deed : Deed} {x : Shared}
    (hchange : Change c (w.device id) deed x) :
    x.visibility = (w.shared id).visibility ∨
      (∃ json refused page, deed = .purchase (.mergeSync json refused) ∧
        c.parsePage json = some page ∧
          x.visibility = (w.shared id).visibility.later page.visibility) ∨
      ∃ visible, x.visibility = ⟨(w.shared id).visibility.counter + 1, id, visible⟩ := by
  cases hchange with
  | merge hparse => exact .inr (.inl ⟨_, _, _, rfl, hparse, rfl⟩)
  | setVisible =>
    rw [(hknown id).1]
    exact .inr (.inr ⟨_, rfl⟩)
  | _ => exact .inl rfl

theorem Shown.deed (hreads : PlusRuntime.Reads c) (hknown : Known c account w) (h : Shown c w)
    {id : String} {deed : Deed} (hsent : w.Sent (.deed id deed)) :
    Shown c (w.step c (.deed id deed)) := by
  obtain ⟨-, x, hchange, hshared⟩ := hknown.deed hreads id deed
  set w' := w.step c (.deed id deed)
  have hself : w'.shared id = x := by rw [hshared, Function.update_self]
  have hothers : ∀ other, other ≠ id → w'.shared other = w.shared other := fun other hne => by
    rw [hshared, Function.update_of_ne hne]
  -- a setting is the one of this device, or was there before
  have hset : ∀ v, w'.Set c v → v = x.visibility ∨ w.Set c v := by
    rintro v (⟨other, rfl⟩ | hpage)
    · by_cases hid : other = id
      · rw [hid, hself]
        exact .inl rfl
      · rw [hothers other hid]
        exact .inr (.inl ⟨other, rfl⟩)
    · exact .inr (.inr hpage)
  have hcount : (w.shared id).visibility.counter ≤ x.visibility.counter →
      ∀ other, (w.shared other).visibility.counter ≤ (w'.shared other).visibility.counter := by
    intro hle other
    by_cases hid : other = id
    · rw [hid, hself]
      exact hle
    · rw [hothers other hid]
  obtain hx | ⟨json, refused, page, rfl, hparse, hx⟩ | ⟨visible, hx⟩ :=
    visibility_change hknown hchange
  · refine h.mono (fun v hv => (hset v hv).elim (fun heq => ?_) fun hv => hv)
      (hcount (by rw [hx])) h.read
    exact .inl ⟨id, heq.trans hx⟩
  · refine h.mono (fun v hv => (hset v hv).elim (fun heq => ?_) fun hv => hv) (hcount ?_) h.read
    · rw [heq, hx]
      obtain hlater | hlater := Visibility.later_eq_or (v := (w.shared id).visibility)
        (w := page.visibility)
      · exact .inl ⟨id, hlater⟩
      · exact .inr ⟨json, hsent, page, hparse, hlater⟩
    · refine Visibility.counter_le ?_
      rw [hx, Visibility.stamp_later]
      exact le_max_left _ _
  · -- the count of the new setting is ahead of all that its device has made
    have hle := hcount (by rw [hx]; exact Nat.le_succ _)
    have hnew : ∀ v, w.Set c v → v.stamp ≠ x.visibility.stamp := by
      intro v hv heq
      rw [hx] at heq
      obtain ⟨hcounter, hwriter⟩ := Prod.mk.inj (toLex.injective heq)
      have hv := h.counted v hv
      rw [hcounter, hwriter] at hv
      exact absurd hv (Nat.not_succ_le_self _)
    refine ⟨fun v v' hv hv' heq => ?_, fun v hv => ?_, h.read⟩
    · obtain rfl | hv := hset v hv
      · obtain rfl | hv' := hset v' hv'
        · rfl
        · exact absurd heq.symm (hnew v' hv')
      · obtain rfl | hv' := hset v' hv'
        · exact absurd heq (hnew v hv)
        · exact h.unique v v' hv hv' heq
    · obtain rfl | hv := hset v hv
      · rw [hx, hself, hx]
      · exact (h.counted v hv).trans (hle _)

theorem Shown.step (hreads : PlusRuntime.Reads c) (hpages : PagesRead c)
    (hknown : Known c account w) (h : Shown c w) {step : Step} (hsent : w.Sent step) :
    Known c account (w.step c step) ∧ Shown c (w.step c step) := by
  cases step with
  | deed id deed => exact ⟨(hknown.deed hreads id deed).1, h.deed hreads hknown hsent⟩
  | sendPage id after =>
    obtain heq | ⟨issuer, text, htext, heq⟩ := step_sendPage (c := c) (w := w) id after
    · rw [heq]
      exact ⟨hknown, h⟩
    · rw [heq]
      have hparse := hpages _ _ htext
      refine ⟨hknown, h.mono (fun v hv => ?_) (fun _ => le_rfl)
        (List.forall_mem_cons.2 ⟨⟨_, hparse⟩, h.read⟩)⟩
      obtain hv | ⟨text', htext', page, hpage, rfl⟩ := hv
      · exact .inl hv
      obtain rfl | htext' := List.mem_cons.1 htext'
      · obtain rfl := Option.some.inj (hparse.symm.trans hpage)
        exact .inl ⟨id, rfl⟩
      · exact .inr ⟨text', htext', page, hpage, rfl⟩
  | sendSaved id =>
    rw [Devices.step]
    split
    · exact ⟨hknown, h.mono (fun _ h => h) (fun _ => le_rfl) h.read⟩
    · exact ⟨hknown, h⟩

omit [DecidableEq Json] in
theorem shown_start {issuer : Issuer Key} : Shown c (start account issuer) where
  unique := by
    rintro v v' (⟨id, rfl⟩ | ⟨_, h, -⟩) (⟨id', rfl⟩ | ⟨_, h', -⟩) -
    · rfl
    · cases h'
    · cases h
    · cases h
  counted := by
    rintro v (⟨id, rfl⟩ | ⟨_, h, -⟩)
    · exact le_rfl
    · cases h
  read _ := nofun

/-- What a device shows after a step is what it showed, or what it has taken in. -/
def Follows (c : DevicesCrypto Key Json) (a : String) (w : Devices Key) (step : Step) : Prop :=
  ((w.step c step).shared a).visibility ∈ (w.shared a).visibility :: taken c a w step ∧
    ∀ v ∈ (w.shared a).visibility :: taken c a w step,
      v.stamp ≤ ((w.step c step).shared a).visibility.stamp

theorem follows_of_eq {step : Step} (htaken : taken c a w step = [])
    (heq : ((w.step c step).shared a).visibility = (w.shared a).visibility) :
    Follows c a w step := by
  rw [Follows, htaken, heq]
  simp

/-- A deed that is no merge is its own setting. -/
theorem follows_of_taken (hreads : PlusRuntime.Reads c) (hknown : Known c account w) {deed : Deed}
    (hdeed : ∀ json refused, deed ≠ .purchase (.mergeSync json refused))
    (htaken : taken c a w (.deed a deed) = [((w.step c (.deed a deed)).shared a).visibility]) :
    Follows c a w (.deed a deed) := by
  obtain ⟨-, x, hchange, hshared⟩ := hknown.deed hreads a deed
  have hself : (w.step c (.deed a deed)).shared a = x := by rw [hshared, Function.update_self]
  rw [Follows, htaken, hself]
  refine ⟨by simp, ?_⟩
  simp only [List.mem_cons, List.not_mem_nil, or_false, forall_eq_or_imp, forall_eq, le_rfl,
    and_true]
  obtain hx | ⟨json, refused, page, hmerge, -⟩ | ⟨visible, hx⟩ := visibility_change hknown hchange
  · rw [hx]
  · exact absurd hmerge (hdeed json refused)
  · rw [hx]
    exact Prod.Lex.toLex_le_toLex.2 (.inl (Nat.lt_succ_self _))

theorem follows_mergeSync {json : String} {refused : Option String} :
    Follows c a w (.deed a (.purchase (.mergeSync json refused))) := by
  have hstep : ((w.step c (.deed a (.purchase (.mergeSync json refused)))).shared a) =
      ((w.device a).mergeSync c.toPlusCrypto json refused).2.state.shared := by
    rw [shared, device_deed, Function.update_self]
    rfl
  rcases hmerge : (w.device a).mergeSync c.toPlusCrypto json refused with ⟨e | next, s'⟩
  · refine follows_of_eq (by rw [taken, if_pos rfl, hmerge]) ?_
    rw [hstep, hmerge]
    obtain heq | hsave := PlusRuntime.mergeSync_error hmerge
    · rw [show s' = w.device a from heq]
      rfl
    · rw [show s'.state = _ from PlusRuntime.state_save hsave]
      rfl
  · obtain ⟨page, hpage, hlater⟩ := PlusRuntime.visibility_mergeSync hmerge
    have htaken : taken c a w (.deed a (.purchase (.mergeSync json refused))) =
        [page.visibility] := by
      rw [taken, if_pos rfl, hmerge, hpage]
      rfl
    rw [Follows, htaken, hstep, hmerge, hlater]
    refine ⟨?_, ?_⟩
    · obtain heq | heq := Visibility.later_eq_or (v := (w.shared a).visibility)
        (w := page.visibility)
      · exact List.mem_cons.2 (.inl heq)
      · exact List.mem_cons.2 (.inr (List.mem_singleton.2 heq))
    · have hstamp := Visibility.stamp_later (v := (w.shared a).visibility) (w := page.visibility)
      simp only [List.mem_cons, List.not_mem_nil, or_false, forall_eq_or_imp, forall_eq]
      exact ⟨(le_max_left _ _).trans_eq hstamp.symm, (le_max_right _ _).trans_eq hstamp.symm⟩

theorem follows_step (hreads : PlusRuntime.Reads c) (hknown : Known c account w) (step : Step) :
    Follows c a w step := by
  cases step with
  | sendPage id after =>
    refine follows_of_eq rfl ?_
    obtain heq | ⟨issuer, text, -, heq⟩ := step_sendPage (c := c) (w := w) id after
    · rw [heq]
    · rw [heq]
      rfl
  | sendSaved id =>
    refine follows_of_eq rfl ?_
    rw [Devices.step]
    split <;> rfl
  | deed id deed =>
    by_cases hid : id = a
    · rw [hid]
      cases deed with
      | purchase call =>
        cases call with
        | mergeSync json refused => exact follows_mergeSync
        | _ =>
          refine follows_of_taken hreads hknown (fun _ _ h => ?_) ?_
          · cases h
          · rw [taken.eq_def]
            exact if_pos rfl
      | _ =>
        refine follows_of_taken hreads hknown (fun _ _ h => ?_) ?_
        · cases h
        · rw [taken.eq_def]
          exact if_pos rfl
    · refine follows_of_eq ?_ ?_
      · cases deed with
        | purchase call => cases call <;> (rw [taken.eq_def]; exact if_neg hid)
        | _ => rw [taken.eq_def]; exact if_neg hid
      · rw [shared, device_deed, Function.update_of_ne (Ne.symm hid)]
        rfl

/-- The latest of what a device has taken in, followed by one more step. -/
theorem latest_run (hreads : PlusRuntime.Reads c) (hpages : PagesRead c)
    (hknown : Known c account w) (h : Shown c w) {steps : List Step}
    (hrun : Runs (Devices.step c) Sent w steps w') {l : List Visibility}
    (hlatest : (w.shared a).visibility.Latest l) :
    Known c account w' ∧ Shown c w' ∧
      (w'.shared a).visibility.Latest (l ++ takenIn c a w steps) := by
  induction hrun generalizing l with
  | nil w =>
    rw [takenIn, List.append_nil]
    exact ⟨hknown, h, hlatest⟩
  | @cons w w' step steps hsent hrun ih =>
    obtain ⟨hknown', h'⟩ := h.step hreads hpages hknown hsent
    obtain ⟨hmem, hle⟩ := follows_step (a := a) hreads hknown step
    rw [takenIn, ← List.append_assoc]
    refine ih hknown' h' ⟨?_, fun v hv => ?_⟩
    · obtain heq | hmem := List.mem_cons.1 hmem
      · rw [heq]
        exact List.mem_append_left _ hlatest.1
      · exact List.mem_append_right _ hmem
    · obtain hv | hv := List.mem_append.1 hv
      · exact (hlatest.2 v hv).trans (hle _ List.mem_cons_self)
      · exact hle v (List.mem_cons_of_mem _ hv)

end Devices

end Mosh.Plus
