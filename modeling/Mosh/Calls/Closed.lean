import Mosh.Calls.Ledger
import Mosh.Library.Run

/-!
# A call that has ended

A device that has noted a call as ended does not ring for it again, whatever controls for it still
arrive: the book holds the last 512 calls that have ended, and an offer of one of them is dropped.
A call is noted as ended for certain, and then its controls are not looked at any more; or it is
noted while the device is not in it, and then it stays out of it.

* `Gone`: the device is not in the call;
* `Settled`: the call has ended for certain, or the device is not in it;
* `never_rings_again`: what holds along every run after a call was noted as ended.
-/

namespace Mosh.Calls

open DmDevices Conversation CallSession

/-- The device is not in the call. -/
def Gone (c : String) (x : Option CallCore) : Prop := ∀ y ∈ x, ¬ y.matchesId c

/-- A turn does not bring a call, unless it is a new one or an offer of it is heard. -/
theorem Turn.gone {cause : Cause} {x x' : Option CallCore} {c : String} (hturn : Turn cause x x')
    (hgone : Gone c x) (htoken : cause.token ≠ some c)
    (hoffer : ∀ k, cause.heard = some k → k.action = .offer → k.callId = c → x' = x) :
    Gone c x' := by
  cases hturn with
  | idle => exact hgone
  | start ht =>
    rintro _ ⟨⟩ (rfl | hm)
    · exact htoken ht
    · cases hm
  | ended => rintro _ ⟨⟩
  | dismissed => rintro _ ⟨⟩
  | accepted => rintro _ ⟨⟩ hm; exact hgone _ rfl hm
  | installed hheard haction =>
    rintro _ ⟨⟩ (hid | hm)
    · exact absurd (hoffer _ hheard haction hid) nofun
    · cases hm
  | @noted y k hheard haction =>
    rintro _ ⟨⟩ (hid | hm)
    · exact hgone _ rfl (.inl hid)
    · have hsame := hoffer _ hheard haction (Option.some.inj hm)
      have hmerged : y.mergedCallId = some c := by
        rw [← congrArg CallCore.mergedCallId (Option.some.inj hsame)]
        exact hm
      exact hgone _ rfl (.inr hmerged)
  | @replaced y k hheard haction =>
    rintro _ ⟨⟩ (hid | hm)
    · have hsame := hoffer _ hheard haction hid
      have hid' : y.callId = c := by
        rw [← congrArg CallCore.callId (Option.some.inj hsame)]
        exact hid
      exact hgone _ rfl (.inl hid')
    · exact hgone _ rfl (.inl (Option.some.inj hm))
  | selects => rintro _ ⟨⟩ hm; exact hgone _ rfl hm
  | selected => rintro _ ⟨⟩ hm; exact hgone _ rfl hm

namespace CallSession

variable {s s' s₀ s₁ s₂ : CallSession} {h : CallHost} {input : CallInput} {c : String}

/-- The messages that record an end of the call. -/
def callEvents (s : CallSession) (c : String) : List ChatMessage :=
  s.messages.messages.filter fun message => message.callEvent.any fun event => event.callId = c

/-- The call has ended for certain, or the device is not in it. -/
def Settled (s : CallSession) (c : String) : Prop :=
  s.book.confirmedClosed c = true ∨ Gone c s.core

/-- The input does not start a call with this id. -/
def Fresh (c : String) (h : CallHost) (input : CallInput) : Prop := input = .start → h.token ≠ .ok c

/-! ## One step -/

theorem token_ne (hfresh : Fresh c h input) : (s.causeOf h input).token ≠ some c := by
  cases input with
  | start =>
    have hne := hfresh rfl
    cases htoken : h.token with
    | error error => simp [causeOf, htoken, Except.toOption]
    | ok token =>
      simp only [causeOf, htoken, Except.toOption, ne_eq, Option.some.injEq]
      exact fun he => hne (he ▸ htoken)
  | _ => rintro ⟨⟩

/-- A device that is not in a call that has ended stays out of it. -/
theorem gone_step (hproper : s.Proper) (hclosed : s.book.isClosed c = true) (hgone : Gone c s.core)
    (hfresh : Fresh c h input) : Gone c (s.step h input).core := by
  refine (effect_step hproper.ends input).turn.gone hgone (token_ne hfresh) ?_
  rintro k hheard haction rfl
  refine core_of_closed hheard haction ?_
  rw [closedCallOffer, hclosed, Bool.true_or]

/-- And notes no further end of it. -/
theorem callEvents_step (hclosed : s.book.isClosed c = true) (hgone : Gone c s.core) :
    (s.step h input).callEvents c = s.callEvents c := by
  obtain ⟨rows, hrows, hevent⟩ := (ledger_step (s := s) (h := h) input).rows
  have hnone : rows.filter (fun message => message.callEvent.any fun event => event.callId = c) =
      [] := by
    refine List.filter_eq_nil_iff.2 fun row hrow hany => ?_
    obtain ⟨event, hmem, hreason⟩ := hevent row hrow
    rw [hmem, Option.any_some, decide_eq_true_eq] at hany
    rcases hreason with ⟨x, hx, hid, -⟩ | ⟨k, -, -, hid, -, hopen⟩
    · exact hgone x hx (.inl (hid.trans hany))
    · rw [hid, hany, closedCallOffer, hclosed, Bool.true_or] at hopen
      cases hopen
  rw [callEvents, hrows, List.filter_append, hnone, List.append_nil, callEvents]

/-! ## Runs -/

/-- The calls that a step of the book depends on. -/
theorem ids_of_closed {book book' : CallProtocolBook} (h : book.closed = book'.closed) :
    book.ids = book'.ids := by
  rw [CallProtocolBook.ids, h, CallProtocolBook.ids]

/-- The session after an input. -/
abbrev next (s : CallSession) (e : CallHost × CallInput) : CallSession := s.step e.1 e.2

/-- The call was noted as ended after a state, and fewer than 512 others since. -/
structure ClosedSince (c : String) (s₀ s : CallSession) (before after : List String) : Prop where
  closings : s.closings = s₀.closings ++ before ++ c :: after
  first : c ∉ before
  others : (after.toFinset.erase c).card < CallProtocolBook.maxClosed

/-- What holds in every state after one in which the call is not in the book. -/
structure Watched (c : String) (s₀ s : CallSession) : Prop where
  proper : s.Proper
  wellFormed : s.book.WellFormed
  grows : s₀.closings <+: s.closings
  unknown : c ∉ s.closings.drop s₀.closings.length → c ∉ s.book.ids
  settled : ∀ before after, ClosedSince c s₀ s before after →
    Recent.Holds (after.toFinset.erase c) c s.book.ids ∧ s.Settled c

/-- The call was in the book before the step. -/
theorem settled_of_old {closes : List (String × Bool)} {F : Finset String} (hproper : s.Proper)
    (hbook : s.book.WellFormed) (hfresh : Fresh c h input)
    (hclosed : (s.step h input).book.closed = (s.book.closeAll closes).closed)
    (hF : F.card < CallProtocolBook.maxClosed) (hcloses : ∀ call ∈ closes, call.1 ≠ c → call.1 ∈ F)
    (hholds : Recent.Holds F c s.book.ids) (hsettled : s.Settled c) :
    Recent.Holds F c (s.step h input).book.ids ∧ (s.step h input).Settled c := by
  rw [ids_of_closed hclosed]
  refine ⟨CallProtocolBook.holds_closeAll hbook hholds hcloses hF, ?_⟩
  rcases hsettled with hconfirmed | hgone
  · left
    rw [CallProtocolBook.confirmedClosed, hclosed]
    exact CallProtocolBook.confirmed_closeAll hbook hholds hcloses hF hconfirmed
  · right
    exact gone_step hproper (CallProtocolBook.isClosed_iff.2 hholds.mem) hgone hfresh

/-- The call comes into the book in the step. -/
theorem settled_of_new {closes : List (String × Bool)} {F : Finset String} {pre after : List String}
    (hbook : s.book.WellFormed)
    (hclosed : (s.step h input).book.closed = (s.book.closeAll closes).closed)
    (hreason : (∃ k ∈ CallSession.heard input, closes = [(k.callId, true)] ∧
      s.authoritativeCallEnd k = true) ∨
        ∀ call ∈ closes, ∃ x ∈ s.core, x.matchesId call.1 ∧ (s.step h input).core = none)
    (hids : closes.map (·.1) = pre ++ c :: after) (hpre : c ∉ pre) (hnew : c ∉ s.book.ids)
    (hF : F.card < CallProtocolBook.maxClosed) (hafter : ∀ id ∈ after, id ≠ c → id ∈ F) :
    Recent.Holds F c (s.step h input).book.ids ∧ (s.step h input).Settled c := by
  obtain ⟨first, rest, rfl, rfl, hrest⟩ := List.map_eq_append_iff.1 hids
  obtain ⟨call, last, rfl, rfl, rfl⟩ := List.map_eq_cons_iff.1 hrest
  constructor
  · rw [ids_of_closed hclosed, CallProtocolBook.closeAll_append, CallProtocolBook.closeAll_cons]
    have hwell : (s.book.closeAll first).WellFormed := hbook.closeAll
    have hunknown : call.1 ∉ (s.book.closeAll first).ids := fun hmem =>
      (CallProtocolBook.mem_of_mem_closeAll hmem).elim hnew hpre
    refine CallProtocolBook.holds_closeAll (hwell.close call.1 call.2) ?_ ?_ hF
    · rw [CallProtocolBook.ids_close]
      exact .of_push hunknown
    · exact fun d hd => hafter d.1 (List.mem_map_of_mem hd)
  · rcases hreason with ⟨k, -, hone, -⟩ | hfinished
    · left
      obtain ⟨rfl, hone⟩ : first = [] ∧ call :: last = [(k.callId, true)] := by
        cases first with
        | nil => exact ⟨rfl, hone⟩
        | cons d rest => simp at hone
      obtain ⟨rfl, rfl⟩ := List.cons_eq_cons.1 hone
      rw [CallProtocolBook.confirmedClosed, hclosed]
      exact CallProtocolBook.confirmedClosed_close_self
    · right
      obtain ⟨x, -, -, hnone⟩ := hfinished call (List.mem_append_right _ List.mem_cons_self)
      rw [hnone]
      rintro x ⟨⟩

theorem Watched.step (hw : Watched c s₀ s) (hfresh : Fresh c h input) :
    Watched c s₀ (s.step h input) := by
  obtain ⟨closes, hclosings, hclosed, hreason⟩ := (ledger_step (s := s) (h := h) input).closes
  obtain ⟨old, hold⟩ := hw.grows
  have hids := ids_of_closed hclosed
  have hdrop : s.closings.drop s₀.closings.length = old := by rw [← hold, List.drop_left]
  have hdrop' : (s.step h input).closings.drop s₀.closings.length = old ++ closes.map (·.1) := by
    rw [hclosings, ← hold, List.append_assoc, List.drop_left]
  have hunknown : c ∉ old → c ∉ s.book.ids := hdrop ▸ hw.unknown
  refine ⟨hw.proper.step h input, ?_, hclosings ▸ hw.grows.trans (List.prefix_append _ _), ?_, ?_⟩
  · have hbook : (s.book.closeAll closes).WellFormed := hw.wellFormed.closeAll
    exact ⟨hids ▸ hbook.nodup, hclosed ▸ hbook.bounded⟩
  · rw [hdrop', List.mem_append, not_or, hids]
    rintro ⟨hold', hnew⟩ hmem
    rcases CallProtocolBook.mem_of_mem_closeAll hmem with hmem | hmem
    · exact hunknown hold' hmem
    · exact hnew hmem
  · intro before after hsince
    have hsplit : old ++ closes.map (·.1) = before ++ c :: after := by
      have := hsince.closings
      rw [hclosings, ← hold, List.append_assoc, List.append_assoc] at this
      exact List.append_cancel_left this
    -- the call was noted before the step, or is noted in it
    have hnew (pre : List String) (hbefore : before = old ++ pre)
        (hpre : closes.map (·.1) = pre ++ c :: after) :
        Recent.Holds (after.toFinset.erase c) c (s.step h input).book.ids ∧
          (s.step h input).Settled c := by
      have hfirst := hsince.first
      rw [hbefore, List.mem_append, not_or] at hfirst
      exact settled_of_new hw.wellFormed hclosed hreason hpre hfirst.2 (hunknown hfirst.1)
        hsince.others fun id hid hne => Finset.mem_erase.2 ⟨hne, List.mem_toFinset.2 hid⟩
    rcases List.append_eq_append_iff.1 hsplit with ⟨pre, hbefore, hpre⟩ | ⟨post, hpost, hafter⟩
    · exact hnew pre hbefore hpre
    · cases post with
      | nil =>
        refine hnew [] ?_ hafter.symm
        rw [List.append_nil] at hpost
        rw [hpost, List.append_nil]
      | cons d post =>
        obtain ⟨rfl, rfl⟩ := List.cons_eq_cons.1 hafter
        have hsub : post.toFinset.erase c ⊆ (post ++ closes.map (·.1)).toFinset.erase c := by
          intro id hid
          rw [Finset.mem_erase, List.mem_toFinset] at hid ⊢
          exact ⟨hid.1, List.mem_append_left _ hid.2⟩
        have hbefore : ClosedSince c s₀ s before post := by
          refine ⟨?_, hsince.first, (Finset.card_le_card hsub).trans_lt hsince.others⟩
          rw [← hold, hpost, List.append_assoc]
        obtain ⟨hholds, hsettled⟩ := hw.settled before post hbefore
        refine settled_of_old hw.proper hw.wellFormed hfresh hclosed hsince.others ?_
          (hholds.mono hsub) hsettled
        intro call hcall hne
        rw [Finset.mem_erase, List.mem_toFinset]
        exact ⟨hne, List.mem_append_right _ (List.mem_map_of_mem hcall)⟩

section Run

open Run

variable {es es₁ es₂ : List (CallHost × CallInput)} {before after : List String}

/-- The inputs never start a call with this id. -/
abbrev Goes (c : String) := Runs next fun _ e => Fresh c e.1 e.2

/-- The input is a control for the call. -/
def ControlFor (c : String) (e : CallHost × CallInput) : Prop :=
  ∃ k, CallSession.heard e.2 = some k ∧ k.callId = c

theorem watched_start (hproper : s₀.Proper) (hbook : s₀.book.WellFormed) (hnew : c ∉ s₀.book.ids) :
    Watched c s₀ s₀ := by
  refine ⟨hproper, hbook, List.prefix_refl _, fun _ => hnew, fun before after hsince => ?_⟩
  have hlength := congrArg List.length hsince.closings
  simp at hlength

theorem watched_run (hw : Watched c s₀ s₁) (hrun : Goes c s₁ es s₂) : Watched c s₀ s₂ :=
  hrun.invariant (fun _ _ hfresh hw => hw.step hfresh) hw

/-- If the call was noted by a state, fewer than 512 others were noted from then to that state. -/
theorem ClosedSince.earlier (hsince : ClosedSince c s₀ s₂ before after)
    (hgrow₁ : s₀.closings <+: s₁.closings) (hgrow₂ : s₁.closings <+: s₂.closings)
    (hclosed : c ∈ s₁.closings.drop s₀.closings.length) :
    ∃ after', ClosedSince c s₀ s₁ before after' := by
  obtain ⟨old, hold⟩ := hgrow₁
  obtain ⟨more, hmore⟩ := hgrow₂
  rw [← hold, List.drop_left] at hclosed
  have hsplit : old ++ more = before ++ c :: after := by
    have := hsince.closings
    rw [← hmore, ← hold, List.append_assoc, List.append_assoc] at this
    exact List.append_cancel_left this
  rcases List.append_eq_append_iff.1 hsplit with ⟨pre, hbefore, -⟩ | ⟨post, hpost, hafter⟩
  · exact absurd (hbefore ▸ List.mem_append_left pre hclosed) hsince.first
  · cases post with
    | nil =>
      rw [List.append_nil] at hpost
      exact absurd (hpost ▸ hclosed) hsince.first
    | cons d post =>
      obtain ⟨rfl, rfl⟩ := List.cons_eq_cons.1 hafter
      refine ⟨post, ?_, hsince.first, ?_⟩
      · rw [← hold, hpost, List.append_assoc]
      · refine (Finset.card_le_card fun id hid => ?_).trans_lt hsince.others
        rw [Finset.mem_erase, List.mem_toFinset] at hid ⊢
        exact ⟨hid.1, List.mem_append_left _ hid.2⟩

/-- What holds of the call in the states after it was noted. -/
theorem Watched.settled_before (hw : Watched c s₀ s₁) (hrun : Goes c s₁ es s₂)
    (hclosed : c ∈ s₁.closings.drop s₀.closings.length) (hsince : ClosedSince c s₀ s₂ before after) :
    ∃ after', ClosedSince c s₀ s₁ before after' ∧
      Recent.Holds (after'.toFinset.erase c) c s₁.book.ids ∧ s₁.Settled c := by
  have hgrow : s₁.closings <+: s₂.closings := by
    refine hrun.invariant (P := fun s => s₁.closings <+: s.closings) (fun s e _ hs => ?_)
      (List.prefix_refl _)
    obtain ⟨closes, hclosings, -⟩ := (ledger_step (s := s) (h := e.1) e.2).closes
    exact hs.trans ⟨_, hclosings.symm⟩
  obtain ⟨after', h⟩ := hsince.earlier hw.grows hgrow hclosed
  exact ⟨after', h, hw.settled before after' h⟩

theorem closed_next (hclosed : c ∈ s.closings.drop s₀.closings.length)
    (hw : Watched c s₀ s) : c ∈ (s.step h input).closings.drop s₀.closings.length := by
  obtain ⟨closes, hclosings, -⟩ := (ledger_step (s := s) (h := h) input).closes
  obtain ⟨old, hold⟩ := hw.grows
  rw [← hold, List.drop_left] at hclosed
  rw [hclosings, ← hold, List.append_assoc, List.drop_left]
  exact List.mem_append_left _ hclosed

/-- The call does not come back, and its end is not noted again. -/
theorem quiet_run (hw : Watched c s₀ s₁) (hrun : Goes c s₁ es s₂)
    (hclosed : c ∈ s₁.closings.drop s₀.closings.length) (hsince : ClosedSince c s₀ s₂ before after)
    (hwhy : (∀ e ∈ es, ControlFor c e) ∨ Gone c s₁.core) :
    (∀ call ∈ s₂.call, call.callId = c → call ∈ s₁.call) ∧ s₂.callEvents c = s₁.callEvents c := by
  induction hrun with
  | nil => exact ⟨fun call hcall _ => hcall, rfl⟩
  | @cons s₁ s₂ e es hfresh hrest ih =>
    obtain ⟨after', -, hholds, hsettled⟩ :=
      hw.settled_before (.cons hfresh hrest) hclosed hsince
    have hbook : s₁.book.isClosed c = true := CallProtocolBook.isClosed_iff.2 hholds.mem
    have hrest' := ih (hw.step hfresh) (closed_next hclosed hw) hsince
    by_cases hgone : Gone c s₁.core
    · -- the device stays out of the call
      have hgone' := gone_step hw.proper hbook hgone hfresh
      obtain ⟨hcalls, hevents⟩ := hrest' (.inr hgone')
      refine ⟨fun call hcall hid => ?_, hevents.trans (callEvents_step hbook hgone)⟩
      exact absurd (.inl hid) (hgone' call.core (core_some (hcalls call hcall hid)))
    · -- the call has ended for certain, and its controls are not looked at
      have hcontrols := hwhy.resolve_right hgone
      obtain ⟨k, hheard, rfl⟩ := hcontrols e List.mem_cons_self
      obtain ⟨hcall', hmessages'⟩ :=
        ignored_of_confirmed (h := e.1) hheard (hsettled.resolve_right hgone)
      obtain ⟨hcalls, hevents⟩ :=
        hrest' (.inl fun e' he' => hcontrols e' (List.mem_cons_of_mem _ he'))
      refine ⟨fun call hcall hid => hcall' ▸ hcalls call hcall hid, ?_⟩
      rw [hevents, callEvents, callEvents, hmessages']

/-- What is noted for certain stays so. -/
theorem confirmed_run (hw : Watched c s₀ s₁) (hrun : Goes c s₁ es s₂)
    (hclosed : c ∈ s₁.closings.drop s₀.closings.length) (hsince : ClosedSince c s₀ s₂ before after)
    (hconfirmed : s₁.book.confirmedClosed c = true) : s₂.book.confirmedClosed c = true := by
  induction hrun with
  | nil => exact hconfirmed
  | @cons s₁ s₂ e es hfresh hrest ih =>
    have hw' := hw.step hfresh
    have hclosed' : c ∈ (s₁.step e.1 e.2).closings.drop s₀.closings.length := closed_next hclosed hw
    obtain ⟨after₁, hsince₁, hholds, -⟩ := hw.settled_before (.cons hfresh hrest) hclosed hsince
    obtain ⟨after₂, hsince₂, -, -⟩ := hw'.settled_before hrest hclosed' hsince
    refine ih hw' hclosed' hsince ?_
    obtain ⟨closes, hclosings, hclosed, -⟩ := (ledger_step (s := s₁) (h := e.1) e.2).closes
    have hafter : after₂ = after₁ ++ closes.map (·.1) := by
      have := hsince₂.closings
      rw [hclosings, hsince₁.closings, List.append_assoc, List.cons_append] at this
      exact (List.cons_eq_cons.1 (List.append_cancel_left this)).2.symm
    have hsub : after₁.toFinset.erase c ⊆ after₂.toFinset.erase c := by
      intro id hid
      rw [Finset.mem_erase, List.mem_toFinset] at hid ⊢
      exact ⟨hid.1, hafter ▸ List.mem_append_left _ hid.2⟩
    rw [CallProtocolBook.confirmedClosed, hclosed]
    refine CallProtocolBook.confirmed_closeAll hw.wellFormed (hholds.mono hsub) ?_ hsince₂.others
      hconfirmed
    intro call hcall hne
    rw [Finset.mem_erase, List.mem_toFinset]
    exact ⟨hne, hafter ▸ List.mem_append_right _ (List.mem_map_of_mem hcall)⟩

/-- A device that has noted a call as ended does not ring for it again: as long as fewer than 512
    other calls are noted since, no controls for it, whatever they are and in whatever order, bring
    it back or note its end again. Where the device is not in the call, nothing else does either.
    The book holds at most 512 calls, each once; and what is noted for certain stays so. -/
theorem never_rings_again (hproper : s₀.Proper) (hbook : s₀.book.WellFormed)
    (hnew : c ∉ s₀.book.ids) (hrun₁ : Goes c s₀ es₁ s₁) (hrun₂ : Goes c s₁ es₂ s₂)
    (hclosed : c ∈ s₁.closings.drop s₀.closings.length)
    (hsince : ClosedSince c s₀ s₂ before after) :
    s₂.book.isClosed c = true ∧
    ((∀ e ∈ es₂, ControlFor c e) ∨ Gone c s₁.core →
      (∀ call ∈ s₂.call, call.callId = c → call ∈ s₁.call) ∧ s₂.callEvents c = s₁.callEvents c) ∧
    (s₁.book.confirmedClosed c = true → s₂.book.confirmedClosed c = true) ∧
    s₂.book.closed.length ≤ 512 ∧ s₂.book.ids.Nodup ∧
    (∀ id id' confirmed, s₂.book.confirmedClosed id = true →
      id ∈ (s₂.book.close id' confirmed).ids →
        (s₂.book.close id' confirmed).confirmedClosed id = true) := by
  have hw₁ := watched_run (watched_start hproper hbook hnew) hrun₁
  have hw₂ := watched_run hw₁ hrun₂
  have hholds := (hw₂.settled before after hsince).1
  refine ⟨CallProtocolBook.isClosed_iff.2 hholds.mem, quiet_run hw₁ hrun₂ hclosed hsince,
    confirmed_run hw₁ hrun₂ hclosed hsince, hw₂.wellFormed.bounded, hw₂.wellFormed.nodup, ?_⟩
  exact fun id id' confirmed => CallProtocolBook.confirmed_close hw₂.wellFormed

/-- An end that arrives before the offer of its call. -/
def endFirst : CallHost × CallInput :=
  (.clear, .hears (.said "caller" 2 (.end "caller" "cancelled")))

/-- The offer, sent again and with any number. -/
def offerLater : CallHost × CallInput := (.clear, .hears (.said "caller" 3 .offer))

theorem never_rings_again_later :
    ((unused "phone").next endFirst |>.next offerLater).book.isClosed "call" = true ∧
    ∀ call ∈ ((unused "phone").next endFirst |>.next offerLater).call, call.callId ≠ "call" := by
  have hproper : (unused "phone").Proper := ⟨nofun, nofun⟩
  have hbook : (unused "phone").book.WellFormed := ⟨List.nodup_nil, by decide⟩
  have hclosings : ((unused "phone").next endFirst |>.next offerLater).closings =
      [] ++ [] ++ "call" :: [] := by decide +kernel
  have h := never_rings_again hproper hbook (c := "call") List.not_mem_nil
    (.single (l := endFirst) nofun) (.single (l := offerLater) nofun) (by decide +kernel)
    ⟨hclosings, List.not_mem_nil, by decide⟩
  refine ⟨h.1, fun call hcall hid => ?_⟩
  have hcall' := (h.2.1 (.inl ?_)).1 call hcall hid
  · have hnone : ((unused "phone").next endFirst).call = none := by decide +kernel
    rw [hnone] at hcall'
    cases hcall'
  · intro e he
    rw [List.mem_singleton.1 he]
    exact ⟨_, rfl, rfl⟩

end Run

end CallSession

end Mosh.Calls
