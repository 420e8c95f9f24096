import Mosh.Calls.Effects
import Mosh.Library.Run

/-!
# One call, one receiving device

The devices of a conversation exchange their controls through a network that loses, repeats,
delays and reorders them: a device may receive whatever a device has sent, at any time and any
number of times. Several devices may answer a call; the caller chooses one, and only that one takes
the call.

* `World`: the devices, by their signers; `World.step`: one of them takes a step;
* `Fair`: what a device opens was sent by the device that signed it, and a new call gets an id that
  no control has;
* `Agreed`: what holds in every state; `Agreed.step`, `agreed_run`;
* `one_receiver`: no two devices ever take a call, whoever takes it was chosen before, and a caller
  does not choose again.
-/

namespace Mosh.Calls

open DmDevices CallSession

/-! ## The devices -/

/-- The devices, by their signers. -/
abbrev World := String → CallSession

/-- What happens next: a call of one device, and the answers of its host. -/
structure Happening where
  device : String
  host : CallHost
  input : CallInput

namespace World

/-- One device takes a step. -/
def step (w : World) (e : Happening) : World :=
  Function.update w e.device ((w e.device).step e.host e.input)

/-- The device has offered the call. -/
def Offered (w : World) (d callId : String) : Prop :=
  ∃ k ∈ (w d).sent, k.action = .offer ∧ k.callId = callId

/-- The device has chosen the receiver of the call. -/
def Chose (w : World) (d callId receiver : String) : Prop :=
  ∃ k ∈ (w d).sent, k.action = .selected receiver ∧ k.callId = callId

/-- The device is active in a call that it has made, with the receiver. -/
def Talks (w : World) (d callId receiver : String) : Prop :=
  ∃ x ∈ (w d).core, x.callId = callId ∧ x.direction = .caller ∧ x.phase = .active ∧
    x.selectedSigner = some receiver

/-- The device is active in a call of another one. -/
def Takes (w : World) (d callId caller : String) : Prop :=
  ∃ x ∈ (w d).core, x.callId = callId ∧ x.direction = .callee ∧ x.phase = .active ∧
    x.callerSigner = caller

/-- The device has been told that the call is over, and is not in it. -/
def Left (w : World) (d callId : String) : Prop :=
  callId ∈ (w d).closings ∧ ∀ x ∈ (w d).core, x.callId ≠ callId

/-- What a device opens was sent by the device that signed it, and a new call gets an id that no
    control has. -/
def Fair (w : World) (e : Happening) : Prop :=
  match e.input with
  | .control envelope => ∀ k signer, envelope.opened = .ok (k, signer) → k ∈ (w signer).sent
  | .start => ∀ callId, e.host.token = .ok callId → ∀ d, ∀ k ∈ (w d).sent, k.callId ≠ callId
  | _ => True

/-- No device has called yet. -/
structure Initial (w : World) : Prop where
  own : ∀ d, (w d).own = d
  call : ∀ d, (w d).call = none
  ends : ∀ d, (w d).ends = []
  sent : ∀ d, (w d).sent = []

/-- What holds in every state. -/
structure Agreed (w : World) : Prop where
  own : ∀ d, (w d).own = d
  proper : ∀ d, (w d).Proper
  signed : ∀ d, ∀ k ∈ (w d).sent, k.signer = d
  /-- A call is one that its caller has offered, and no other device has. -/
  offered : ∀ d, ∀ x ∈ (w d).core, w.Offered x.callerSigner x.callId
  unique : ∀ d d' callId, w.Offered d callId → w.Offered d' callId → d = d'
  /-- A caller has chosen one device, and talks to it or has left the call. -/
  chosen : ∀ d callId r, w.Chose d callId r →
    w.Offered d callId ∧ (w.Talks d callId r ∨ w.Left d callId)
  same : ∀ d callId r r', w.Chose d callId r → w.Chose d callId r' → r = r'
  /-- Who takes a call was chosen. -/
  taken : ∀ d callId caller, w.Takes d callId caller → w.Chose caller callId d

theorem Initial.agreed {w : World} (h : w.Initial) : w.Agreed := by
  have hcore (d : String) : (w d).core = none := by rw [core, h.call]; rfl
  have hoffered {d callId : String} : ¬ w.Offered d callId := by
    rintro ⟨k, hk, -⟩
    rw [h.sent] at hk
    cases hk
  have hchose {d callId r : String} : ¬ w.Chose d callId r := by
    rintro ⟨k, hk, -⟩
    rw [h.sent] at hk
    cases hk
  refine ⟨h.own, fun d => ⟨fun e he => ?_, fun x hx => ?_⟩, fun d k hk => ?_, fun d x hx => ?_,
    fun _ _ _ h => absurd h hoffered, fun _ _ _ h => absurd h hchose,
    fun _ _ _ _ h => absurd h hchose, fun d callId caller htakes => ?_⟩
  · rw [h.ends] at he
    cases he
  · rw [hcore] at hx
    cases hx
  · rw [h.sent] at hk
    cases hk
  · rw [hcore] at hx
    cases hx
  · obtain ⟨x, hx, -⟩ := htakes
    rw [hcore] at hx
    cases hx

/-! ## One step -/

section Step

variable {w : World} {e : Happening} {d callId r caller : String}

theorem step_self : w.step e e.device = (w e.device).step e.host e.input := Function.update_self ..

theorem step_of_ne (hd : d ≠ e.device) : w.step e d = w d := Function.update_of_ne hd ..

/-- What a step of a device does to it. -/
theorem Agreed.effect (hw : w.Agreed) : Effect ((w e.device).causeOf e.host e.input) (w e.device)
    (w.step e e.device) := by
  rw [step_self]
  exact effect_step (hw.proper e.device).ends e.input

/-- What was sent stays sent. -/
theorem Agreed.sent_mono (hw : w.Agreed) {k : CallControl} (hk : k ∈ (w d).sent) :
    k ∈ (w.step e d).sent := by
  by_cases hd : d = e.device
  · subst hd
    obtain ⟨ks, hks, -⟩ := (hw.effect (e := e)).sent
    rw [hks]
    exact List.mem_append_left _ hk
  · rwa [step_of_ne hd]

theorem Agreed.offered_mono (hw : w.Agreed) (h : w.Offered d callId) :
    (w.step e).Offered d callId := by
  obtain ⟨k, hk, h⟩ := h
  exact ⟨k, hw.sent_mono hk, h⟩

theorem Agreed.chose_mono (hw : w.Agreed) (h : w.Chose d callId r) : (w.step e).Chose d callId r := by
  obtain ⟨k, hk, h⟩ := h
  exact ⟨k, hw.sent_mono hk, h⟩

/-- A control that a device receives is one of the device that signed it. -/
theorem Agreed.heard (hw : w.Agreed) (hfair : w.Fair e) {k : CallControl}
    (hk : heard e.input = some k) : k ∈ (w k.signer).sent := by
  rw [Fair] at hfair
  cases hinput : e.input with
  | control envelope =>
    rw [hinput] at hfair hk
    obtain ⟨⟨k', signer⟩, hopened, rfl⟩ := Option.map_eq_some_iff.1 hk
    cases hok : envelope.opened with
    | error error => simp [hok, Except.toOption] at hopened
    | ok opened =>
      rw [hok] at hopened
      obtain rfl := Option.some.inj hopened
      have hmem := hfair k' signer hok
      rwa [hw.signed signer k' hmem]
  | _ =>
    rw [hinput] at hk
    cases hk

/-- A new call has an id that no control has. -/
theorem Fair.fresh (hfair : w.Fair e)
    (htoken : ((w e.device).causeOf e.host e.input).token = some callId) (d : String) :
    ∀ k ∈ (w d).sent, k.callId ≠ callId := by
  rw [Fair] at hfair
  cases hinput : e.input with
  | start =>
    rw [hinput] at hfair htoken
    cases htok : e.host.token with
    | error error => simp [causeOf, htok, Except.toOption] at htoken
    | ok token =>
      simp only [causeOf, htok, Except.toOption, Option.some.injEq] at htoken
      subst htoken
      exact hfair token htok d
  | _ =>
    rw [hinput] at htoken
    cases htoken

/-- Who has offered the call of a device after a step. -/
theorem Agreed.offered_step (hw : w.Agreed) (hfair : w.Fair e) {x : CallCore}
    (hx : x ∈ (w.step e d).core) : (w.step e).Offered x.callerSigner x.callId := by
  by_cases hd : d = e.device
  · subst hd
    have heffect := hw.effect (e := e)
    rcases heffect.turn.origin hx with ⟨y, hy, hid, hcaller, -⟩ | ⟨hnone, -, hcaller, hphase⟩ |
      ⟨k, hheard, haction, -, hid, hcaller, -⟩
    · rw [hid, hcaller]
      exact hw.offered_mono (hw.offered _ y hy)
    · have hown : x.callerSigner = e.device := hcaller.trans (hw.own e.device)
      rw [hown]
      exact heffect.offers hnone x hx hphase
    · rw [hid, hcaller]
      exact hw.offered_mono ⟨k, hw.heard hfair hheard, haction, rfl⟩
  · rw [step_of_ne hd] at hx
    exact hw.offered_mono (hw.offered d x hx)

/-- A call that is offered was offered before by the same device, or by none. -/
theorem Agreed.offered_before (hw : w.Agreed) (hfair : w.Fair e)
    (h : (w.step e).Offered d callId) :
    w.Offered d callId ∨ d = e.device ∧ ∀ d', ¬ w.Offered d' callId := by
  obtain ⟨k, hk, haction, rfl⟩ := h
  by_cases hd : d = e.device
  · subst hd
    have heffect := hw.effect (e := e)
    obtain ⟨ks, hks, hsaid⟩ := heffect.sent
    rw [hks] at hk
    rcases List.mem_append.1 hk with hk | hk
    · exact .inl ⟨k, hk, haction, rfl⟩
    -- the call that is offered waits for an answer, before the step or after it
    have hold {y : CallCore} (hy : y ∈ (w e.device).core) (hid : y.callId = k.callId)
        (hphase : y.phase = .outgoing) : w.Offered e.device k.callId := by
      obtain ⟨-, hcaller, -⟩ := ((hw.proper e.device).call y hy).of_outgoing hphase
      rw [hw.own] at hcaller
      rw [← hid, ← hcaller]
      exact hw.offered _ y hy
    obtain ⟨-, hsaid | hsaid⟩ := hsaid k hk
    · simp only [Says, haction] at hsaid
      obtain ⟨y, hy, hid, hphase⟩ := hsaid
      exact .inl (hold hy hid hphase)
    · simp only [Says, haction] at hsaid
      obtain ⟨y', hy', hid', hphase'⟩ := hsaid
      rcases heffect.turn.to_outgoing hy' hphase' with ⟨y, hy, hid, -, hphase⟩ | htoken
      · exact .inl (hold hy (hid.trans hid') hphase)
      · right
        refine ⟨rfl, fun d' hoffered => ?_⟩
        obtain ⟨k', hk', -, hid''⟩ := hoffered
        exact hfair.fresh htoken d' k' hk' (hid''.trans hid'.symm)
  · rw [step_of_ne hd] at hk
    exact .inl ⟨k, hk, haction, rfl⟩

/-- A caller that talks goes on or leaves the call. -/
theorem Agreed.talks_step (hw : w.Agreed) (h : w.Talks d callId r) :
    (w.step e).Talks d callId r ∨ (w.step e).Left d callId := by
  by_cases hd : d = e.device
  · subst hd
    have heffect := hw.effect (e := e)
    obtain ⟨x, hx, hid, hdirection, hphase, hselected⟩ := h
    have hturn := heffect.turn
    rw [hx] at hturn
    rcases hturn.of_active hphase with hsame | ⟨hnone, -⟩
    · exact .inl ⟨x, hsame, hid, hdirection, hphase, hselected⟩
    · right
      refine ⟨hid ▸ heffect.closed x hx hdirection hnone, fun y hy => ?_⟩
      rw [hnone] at hy
      cases hy
  · rw [Talks, Left, step_of_ne hd]
    exact .inl h

/-- A caller does not come back to a call that it has left. -/
theorem Agreed.left_step (hw : w.Agreed) (hfair : w.Fair e) (hoffered : w.Offered d callId)
    (h : w.Left d callId) : (w.step e).Left d callId := by
  by_cases hd : d = e.device
  · subst hd
    have heffect := hw.effect (e := e)
    refine ⟨heffect.closings.subset h.1, fun x hx hid => ?_⟩
    rcases heffect.turn.origin hx with ⟨y, hy, hid', -⟩ | ⟨-, htoken, -⟩ |
      ⟨k, hheard, haction, hsigner, hid', -⟩
    · exact h.2 y hy (hid'.symm.trans hid)
    · obtain ⟨k, hk, -, hk'⟩ := hoffered
      exact hfair.fresh htoken _ k hk (hk'.trans hid.symm)
    · refine hsigner ((hw.unique k.signer e.device callId ?_ hoffered).trans (hw.own _).symm)
      exact ⟨k, hw.heard hfair hheard, haction, hid'.symm.trans hid⟩
  · rw [Left, step_of_ne hd]
    exact h

/-- A device that is chosen was chosen before, or the caller talks to it before or after. -/
theorem Agreed.chose_before (hw : w.Agreed) (h : (w.step e).Chose d callId r) :
    w.Chose d callId r ∨ w.Talks d callId r ∨ (w.step e).Talks d callId r := by
  obtain ⟨k, hk, haction, rfl⟩ := h
  by_cases hd : d = e.device
  · subst hd
    have heffect := hw.effect (e := e)
    obtain ⟨ks, hks, hsaid⟩ := heffect.sent
    rw [hks] at hk
    rcases List.mem_append.1 hk with hk | hk
    · exact .inl ⟨k, hk, haction, rfl⟩
    obtain ⟨-, hsaid | hsaid⟩ := hsaid k hk
    · simp only [Says, haction] at hsaid
      exact .inr (.inl hsaid)
    · simp only [Says, haction] at hsaid
      exact .inr (.inr hsaid)
  · rw [step_of_ne hd] at hk
    exact .inl ⟨k, hk, haction, rfl⟩

/-- A caller has made the call that it talks in. -/
theorem Agreed.offered_of_talks (hw : w.Agreed) (h : w.Talks d callId r) : w.Offered d callId := by
  obtain ⟨x, hx, rfl, hdirection, -⟩ := h
  have hcaller := (((hw.proper d).call x hx).of_caller hdirection).1
  rw [hw.own] at hcaller
  exact hcaller ▸ hw.offered d x hx

theorem Talks.unique {r' : String} (h : w.Talks d callId r) (h' : w.Talks d callId r') : r = r' := by
  obtain ⟨x, hx, -, -, -, hselected⟩ := h
  obtain ⟨x', hx', -, -, -, hselected'⟩ := h'
  obtain rfl := Option.some.inj (hx.symm.trans hx')
  exact Option.some.inj (hselected.symm.trans hselected')

theorem Talks.not_left (h : w.Talks d callId r) : ¬ w.Left d callId := by
  obtain ⟨x, hx, hid, -⟩ := h
  exact fun hleft => hleft.2 x hx hid

/-- The device that a caller has chosen or talks to. -/
theorem Agreed.unique_choice (hw : w.Agreed) {r' : String} (h : w.Chose d callId r ∨ w.Talks d callId r)
    (h' : w.Chose d callId r' ∨ w.Talks d callId r') : r = r' := by
  -- a caller talks to the one that it has chosen
  have hmixed {r r' : String} (h : w.Chose d callId r) (h' : w.Talks d callId r') : r = r' := by
    rcases (hw.chosen d callId r h).2 with htalks | hleft
    · exact htalks.unique h'
    · exact absurd hleft h'.not_left
  rcases h with h | h
  · rcases h' with h' | h'
    · exact hw.same d callId r r' h h'
    · exact hmixed h h'
  · rcases h' with h' | h'
    · exact (hmixed h' h).symm
    · exact h.unique h'

/-- Who was chosen, or talked to, before a step still is, or the caller has left. -/
theorem Agreed.choice_step (hw : w.Agreed) (hfair : w.Fair e)
    (h : w.Chose d callId r ∨ w.Talks d callId r) :
    (w.step e).Talks d callId r ∨ (w.step e).Left d callId := by
  rcases h with h | h
  · obtain ⟨hoffered, htalks | hleft⟩ := hw.chosen d callId r h
    · exact hw.talks_step htalks
    · exact .inr (hw.left_step hfair hoffered hleft)
  · exact hw.talks_step h

theorem Agreed.own_step (hw : w.Agreed) (d : String) : (w.step e d).own = d := by
  by_cases hd : d = e.device
  · subst hd
    exact (hw.effect (e := e)).own.trans (hw.own _)
  · rw [step_of_ne hd, hw.own]

theorem Agreed.proper_step (hw : w.Agreed) (d : String) : (w.step e d).Proper := by
  by_cases hd : d = e.device
  · subst hd
    rw [step_self]
    exact (hw.proper _).step e.host e.input
  · rw [step_of_ne hd]
    exact hw.proper d

/-- A step keeps what holds in every state. -/
theorem Agreed.step (hw : w.Agreed) (hfair : w.Fair e) : (w.step e).Agreed where
  own := hw.own_step
  proper := hw.proper_step
  signed d k hk := by
    by_cases hd : d = e.device
    · subst hd
      obtain ⟨ks, hks, hsaid⟩ := (hw.effect (e := e)).sent
      rw [hks] at hk
      rcases List.mem_append.1 hk with hk | hk
      · exact hw.signed _ k hk
      · exact (hsaid k hk).1.1.trans (hw.own _)
    · rw [step_of_ne hd] at hk
      exact hw.signed d k hk
  offered d x hx := hw.offered_step hfair hx
  unique d d' callId h h' := by
    rcases hw.offered_before hfair h with h | ⟨rfl, hnone⟩
    · rcases hw.offered_before hfair h' with h' | ⟨rfl, hnone⟩
      · exact hw.unique d d' callId h h'
      · exact absurd h (hnone d)
    · rcases hw.offered_before hfair h' with h' | ⟨rfl, -⟩
      · exact absurd h' (hnone d')
      · rfl
  chosen d callId r h := by
    rcases hw.chose_before h with h | h | h
    · exact ⟨hw.offered_mono (hw.chosen d callId r h).1, hw.choice_step hfair (.inl h)⟩
    · exact ⟨hw.offered_mono (hw.offered_of_talks h), hw.choice_step hfair (.inr h)⟩
    · refine ⟨?_, .inl h⟩
      obtain ⟨x, hx, rfl, hdirection, -⟩ := h
      have hcaller := (((hw.proper_step d).call x hx).of_caller hdirection).1
      rw [hw.own_step] at hcaller
      exact hcaller ▸ hw.offered_step hfair hx
  same d callId r r' h h' := by
    -- each was chosen before, or the caller talks to it now
    have hbefore {r : String} (h : (w.step e).Chose d callId r) :
        (w.Chose d callId r ∨ w.Talks d callId r) ∨ (w.step e).Talks d callId r := by
      rcases hw.chose_before h with h | h | h
      · exact .inl (.inl h)
      · exact .inl (.inr h)
      · exact .inr h
    have hmixed {r r' : String} (h : w.Chose d callId r ∨ w.Talks d callId r)
        (h' : (w.step e).Talks d callId r') : r = r' := by
      rcases hw.choice_step hfair h with htalks | hleft
      · exact htalks.unique h'
      · exact absurd hleft h'.not_left
    rcases hbefore h with h | h
    · rcases hbefore h' with h' | h'
      · exact hw.unique_choice h h'
      · exact hmixed h h'
    · rcases hbefore h' with h' | h'
      · exact (hmixed h' h).symm
      · exact h.unique h'
  taken d callId caller h := by
    obtain ⟨x, hx, rfl, hdirection, hphase, rfl⟩ := h
    by_cases hd : d = e.device
    · subst hd
      rcases (hw.effect (e := e)).turn.to_takes hx hdirection hphase with
        hold | ⟨k, hheard, haction, hid, hsigner⟩
      · exact hw.chose_mono (hw.taken _ _ _ ⟨x, hold, rfl, hdirection, hphase, rfl⟩)
      · refine hw.chose_mono ⟨k, hsigner ▸ hw.heard hfair hheard, ?_, hid⟩
        rw [haction]
        exact congrArg _ (hw.own _)
    · rw [step_of_ne hd] at hx
      exact hw.chose_mono (hw.taken d _ _ ⟨x, hx, rfl, hdirection, hphase, rfl⟩)

end Step

/-! ## Runs -/

section Run

variable {w w₀ w₁ w₂ : World} {es es' : List Happening} {d callId r caller : String}

open Run

/-- What happens is fair throughout. -/
abbrev Plays := Runs World.step World.Fair

theorem agreed_run (hw : w.Agreed) (hrun : Plays w es w₁) : w₁.Agreed :=
  hrun.invariant (fun _ _ hfair hw => hw.step hfair) hw

theorem chose_run (hw : w.Agreed) (hrun : Plays w es w₁) (h : w.Chose d callId r) :
    w₁.Chose d callId r := by
  refine (hrun.invariant (P := fun w => w.Agreed ∧ w.Chose d callId r) ?_ ⟨hw, h⟩).2
  rintro w e hfair ⟨hw, h⟩
  exact ⟨hw.step hfair, hw.chose_mono h⟩

/-- A caller has talked to whom it has chosen. -/
theorem talked_of_chose (hw : w.Agreed) (hrun : Plays w es w₁) (h : w₁.Chose d callId r) :
    w.Chose d callId r ∨ ∃ es₁ es₂ w', es = es₁ ++ es₂ ∧ Plays w es₁ w' ∧ Plays w' es₂ w₁ ∧
      w'.Talks d callId r := by
  induction hrun with
  | nil => exact .inl h
  | @cons w w₁ e es hfair hrest ih =>
    rcases ih (hw.step hfair) h with h | ⟨es₁, es₂, w', rfl, h₁, h₂, htalks⟩
    · rcases hw.chose_before h with h | h | h
      · exact .inl h
      · exact .inr ⟨[], e :: es, w, rfl, .nil w, .cons hfair hrest, h⟩
      · exact .inr ⟨[e], es, w.step e, rfl, .single hfair, hrest, h⟩
    · exact .inr ⟨e :: es₁, es₂, w', rfl, .cons hfair h₁, h₂, htalks⟩

/-- A caller that has offered a call and left it does not come back. -/
theorem left_run (hw : w.Agreed) (hrun : Plays w es w₁) (hoffered : w.Offered d callId)
    (h : w.Talks d callId r ∨ w.Left d callId) : w₁.Talks d callId r ∨ w₁.Left d callId := by
  refine (hrun.invariant (P := fun w => w.Agreed ∧ w.Offered d callId ∧
    (w.Talks d callId r ∨ w.Left d callId)) ?_ ⟨hw, hoffered, h⟩).2.2
  rintro w e hfair ⟨hw, hoffered, h⟩
  refine ⟨hw.step hfair, hw.offered_mono hoffered, ?_⟩
  rcases h with h | h
  · exact hw.talks_step h
  · exact .inr (hw.left_step hfair hoffered h)

/-- One call, one receiving device: whatever is lost, repeated, delayed or reordered, at most one
    device ever takes a call. When a device takes it, the caller had been active in it with that
    device before, and is so now or has been told since that the call is over. And a caller does
    not choose again. -/
theorem one_receiver (h₀ : w₀.Initial) (h₁ : Plays w₀ es w₁) (h₂ : Plays w₁ es' w₂) :
    (∀ callId d₁ d₂ caller₁ caller₂, w₁.Takes d₁ callId caller₁ → w₂.Takes d₂ callId caller₂ →
      d₁ = d₂ ∧ caller₁ = caller₂) ∧
    (∀ callId d caller, w₁.Takes d callId caller →
      (∃ es₁ es₂ w', es = es₁ ++ es₂ ∧ Plays w₀ es₁ w' ∧ Plays w' es₂ w₁ ∧
        w'.Talks caller callId d) ∧
      (w₁.Talks caller callId d ∨ w₁.Left caller callId)) ∧
    (∀ d r, ∀ x ∈ (w₁ d).core, x.direction = .caller → x.selectedSigner = some r →
      ∀ y ∈ (w₂ d).core, y.callId = x.callId →
        y.direction = .caller ∧ y.phase = .active ∧ y.selectedSigner = some r) := by
  have hw₁ := agreed_run h₀.agreed h₁
  have hw₂ := agreed_run hw₁ h₂
  refine ⟨fun callId d₁ d₂ caller₁ caller₂ htakes₁ htakes₂ => ?_, fun callId d caller htakes => ?_,
    fun d r x hx hdirection hselected y hy hid => ?_⟩
  · have hchose₁ := chose_run hw₁ h₂ (hw₁.taken _ _ _ htakes₁)
    have hchose₂ := hw₂.taken _ _ _ htakes₂
    obtain rfl := hw₂.unique _ _ _ (hw₂.chosen _ _ _ hchose₁).1 (hw₂.chosen _ _ _ hchose₂).1
    exact ⟨hw₂.same _ _ _ _ hchose₁ hchose₂, rfl⟩
  · have hchose := hw₁.taken _ _ _ htakes
    refine ⟨?_, (hw₁.chosen _ _ _ hchose).2⟩
    rcases talked_of_chose h₀.agreed h₁ hchose with ⟨k, hk, -⟩ | htalked
    · rw [h₀.sent] at hk
      cases hk
    · exact htalked
  · have htalks : w₁.Talks d x.callId r := by
      refine ⟨x, hx, rfl, hdirection, ?_, hselected⟩
      rcases (((hw₁.proper d).call x hx).of_caller hdirection).2 with ⟨-, hnone⟩ | ⟨hphase, -⟩
      · exact absurd (hnone.symm.trans hselected) nofun
      · exact hphase
    rcases left_run hw₁ h₂ (hw₁.offered_of_talks htalks) (.inl htalks) with ⟨z, hz, -, h⟩ | hleft
    · obtain rfl := Option.some.inj (hy.symm.trans hz)
      exact h
    · exact absurd hid (hleft.2 y hy)

end Run

/-! ## Two devices answer -/

/-- Devices without a call. -/
def quiet : World := CallSession.unused

/-- A device receives a control. -/
def hears (device signer : String) (sequence : Nat) (action : CallAction) : Happening :=
  ⟨device, .clear, .hears (.said signer sequence action)⟩

/-- Both devices of the other user answer the call, and the first one that does is chosen. -/
def twoAnswers : List Happening :=
  [⟨"caller", CallHost.clear, .start⟩, hears "phone" "caller" 1 .offer, hears "tablet" "caller" 1 .offer,
    ⟨"tablet", CallHost.clear, .accept "call"⟩, ⟨"phone", CallHost.clear, .accept "call"⟩,
    hears "caller" "phone" 1 .answer, hears "caller" "tablet" 1 .answer,
    hears "phone" "caller" 2 (.selected "phone"), hears "tablet" "caller" 3 (.selected "phone")]

theorem quiet_initial : quiet.Initial := ⟨fun _ => rfl, fun _ => rfl, fun _ => rfl, fun _ => rfl⟩

/-- What a device hears was said. -/
theorem fair_hears {w : World} {device signer : String} {sequence : Nat} {action : CallAction}
    (h : CallControl.said signer sequence action ∈ (w signer).sent) :
    w.Fair (hears device signer sequence action) := by
  rintro k signer' ⟨⟩
  exact h

theorem twoAnswers_plays : Plays quiet twoAnswers (twoAnswers.foldl step quiet) := by
  refine .cons (fun _ _ d k hk => absurd hk List.not_mem_nil) ?_
  refine .cons (fair_hears (by decide +kernel)) (.cons (fair_hears (by decide +kernel)) ?_)
  refine .cons trivial (.cons trivial (.cons (fair_hears (by decide +kernel)) ?_))
  refine .cons (fair_hears (by decide +kernel)) (.cons (fair_hears (by decide +kernel)) ?_)
  exact .cons (fair_hears (by decide +kernel)) (.nil _)

theorem one_receiver_phone : (twoAnswers.foldl step quiet).Takes "phone" "call" "caller" ∧
    (twoAnswers.foldl step quiet "tablet").core = none ∧
    ∀ es' w₂, Plays (twoAnswers.foldl step quiet) es' w₂ →
      ∀ d caller, w₂.Takes d "call" caller → d = "phone" := by
  have htakes : (twoAnswers.foldl step quiet).Takes "phone" "call" "caller" := by
    refine ⟨⟨"call", .callee, .active, "caller", some "phone", none⟩, ?_, rfl, rfl, rfl, rfl⟩
    show (twoAnswers.foldl step quiet "phone").core = some _
    decide +kernel
  refine ⟨htakes, by decide +kernel, fun es' w₂ hrun d caller h => ?_⟩
  exact ((one_receiver quiet_initial twoAnswers_plays hrun).1 _ _ _ _ _ htakes h).1.symm

end World

end Mosh.Calls
