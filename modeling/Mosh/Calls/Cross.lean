import Mosh.Calls.Ledger
import Mosh.Calls.Selection

/-!
# Two devices that call each other

Each of two devices has called the other one, and receives the offer of the other while it waits
for an answer itself. Both compare the pairs of signer and call id: the call with the smaller pair
goes on, and the device that made the other call answers it. Every device decides alone, and their
controls may be lost, repeated, delayed and reordered.

* `Crossed`: both devices have called;
* `Calm`: nobody ends a call, and no call rings for too long;
* `Crossing`: what holds in every state that follows; `Crossing.step`;
* `calls_converge`: where both devices are active they are so in the same call, and once each has
  taken an offer of the other one waits for the other, which answers;
* `engines_apart`: with engines of different protocols, or with the same id twice, both go on
  waiting.
-/

namespace Mosh.Calls

open DmDevices CallSession

/-! ## Who goes on -/

theorem callBefore_asymm {s c s' c' : String} (h : callBefore s c s' c' = true) :
    callBefore s' c' s c = false := by
  simp only [callBefore, Bool.or_eq_true, Bool.and_eq_true, decide_eq_true_eq] at h
  rw [Bool.eq_false_iff]
  simp only [callBefore, ne_eq, Bool.or_eq_true, Bool.and_eq_true, decide_eq_true_eq]
  rintro (h' | ⟨rfl, h'⟩)
  · rcases h with h | ⟨rfl, h⟩
    · exact lt_asymm h h'
    · exact lt_irrefl _ h'
  · rcases h with h | ⟨-, h⟩
    · exact lt_irrefl _ h
    · exact lt_asymm h h'

theorem callBefore_total {s c s' c' : String} (h : s ≠ s') :
    callBefore s c s' c' = true ∨ callBefore s' c' s c = true := by
  simp only [callBefore, Bool.or_eq_true, Bool.and_eq_true, decide_eq_true_eq]
  rcases lt_or_gt_of_ne h with h | h
  · exact .inl (.inl h)
  · exact .inr (.inl h)

namespace CallCore

/-- The call of a device that waits for an answer. -/
def waits (p callId : String) (merged : Option String) : CallCore :=
  ⟨callId, .caller, .outgoing, p, none, merged⟩

/-- The call of a device that has chosen another one. -/
def talks (p q callId : String) (merged : Option String) : CallCore :=
  ⟨callId, .caller, .active, p, some q, merged⟩

/-- The call of a device that has given up its own call and answers. -/
def answers (p callId old : String) : CallCore := ⟨callId, .callee, .accepting, p, none, some old⟩

/-- The call of a device that has given up its own call and was chosen. -/
def takes (p q callId old : String) : CallCore := ⟨callId, .callee, .active, p, some q, some old⟩

end CallCore

section Turns

open CallCore

variable {cause : Cause} {p q c d : String} {m : Option String} {x' : Option CallCore}

/-- What may come of a call that waits for an answer. -/
theorem Turn.of_waits (hturn : Turn cause (some (waits p c m)) x') (hends : ¬ cause.ends) :
    x' = some (waits p c m) ∨
    (∃ k, cause.heard = some k ∧ k.action = .offer ∧ k.callId ≠ c ∧
      callBefore k.signer k.callId p c = false ∧ x' = some (waits p c (some k.callId))) ∨
    (∃ k, cause.heard = some k ∧ k.action = .answer ∧ k.callId = c ∧ k.signer ≠ cause.own ∧
      x' = some (talks p k.signer c m)) ∨
    ∃ k, cause.heard = some k ∧ k.action = .offer ∧ k.signer ≠ cause.own ∧
      k.mediaProtocol = cause.mediaProtocol ∧ callBefore k.signer k.callId p c = true ∧
      x' = some (answers k.signer k.callId c) := by
  cases hturn with
  | idle => exact .inl rfl
  | ended h => exact absurd h hends
  | dismissed _ _ _ _ _ h => cases h
  | accepted h => rcases h with h | h <;> cases h
  | noted hheard haction _ hid hbefore =>
    exact .inr (.inl ⟨_, hheard, haction, Ne.symm hid, Bool.eq_false_iff.2 hbefore, rfl⟩)
  | replaced hheard haction hsigner _ _ hprotocol hbefore =>
    exact .inr (.inr (.inr ⟨_, hheard, haction, hsigner, hprotocol, hbefore, rfl⟩))
  | selects hheard haction hid _ _ _ hsigner =>
    exact .inr (.inr (.inl ⟨_, hheard, haction, hid.symm, hsigner, rfl⟩))
  | selected _ _ _ _ h => cases h

/-- What may come of a call that a device answers. -/
theorem Turn.of_answers (hturn : Turn cause (some (answers p c d)) x') (hends : ¬ cause.ends) :
    x' = some (answers p c d) ∨
    (∃ k, cause.heard = some k ∧ k.action = .selected cause.own ∧
      x' = some (takes p cause.own c d)) ∨
    ∃ k r, cause.heard = some k ∧ k.action = .selected r ∧ r ≠ cause.own := by
  cases hturn with
  | idle => exact .inl rfl
  | ended h => exact absurd h hends
  | dismissed hheard haction hother => exact .inr (.inr ⟨_, _, hheard, haction, hother⟩)
  | accepted => exact .inl rfl
  | noted _ _ h => cases h
  | replaced _ _ _ h => cases h
  | selects _ _ _ h => cases h
  | selected hheard haction => exact .inr (.inl ⟨_, hheard, haction, rfl⟩)

end Turns

/-- The device has not heard of the call: no end of it is noted, and no sibling is in it. -/
structure CallSession.Unaware (s : CallSession) (id : String) : Prop where
  unknown : s.closedCallOffer id = false
  free : ∀ entry ∈ s.occupancy.devices, entry.2.callId ≠ id

namespace World

open CallCore

variable {w w' : World} {p q c d : String}

/-- The device has given up its call. -/
def GaveUp (w : World) (p q c d : String) : Prop :=
  (w q).core = some (answers p c d) ∨ (w q).core = some (takes p q c d)

/-- The device waits for an answer to the call, or has chosen the other one. -/
def Keeps (w : World) (p q c : String) : Prop :=
  (∃ m, (w p).core = some (waits p c m)) ∨ ∃ m, (w p).core = some (talks p q c m)

/-- The device has chosen the other one. -/
def HasChosen (w : World) (p q c : String) : Prop := ∃ m, (w p).core = some (talks p q c m)

/-- What holds in every state after two devices have called each other: `p` goes on with its call
    `c`, and `q` gives up its call `d`. -/
structure Crossing (w : World) (p q c d : String) : Prop where
  own : ∀ x, (w x).own = x
  ends : ∀ x, (w x).EndsTerminal
  others : ∀ x, x ≠ p → x ≠ q → (w x).sent = []
  winner : w.Keeps p q c
  loser : (w q).core = some (waits q d none) ∨ w.GaveUp p q c d
  /-- The one is only chosen after it has given up, and only takes the call after it was chosen. -/
  chosen : w.HasChosen p q c → w.GaveUp p q c d
  taken : (w q).core = some (takes p q c d) → w.HasChosen p q c
  /-- A device only gives up for a call of an engine of the same protocol. -/
  protocol : w.GaveUp p q c d → (w p).mediaProtocol = (w q).mediaProtocol
  winnerSaid : ∀ k ∈ (w p).sent, k.signer = p ∧ k.mediaProtocol = (w p).mediaProtocol ∧
    (k.action = .offer → k.callId = c) ∧ k.action ≠ .answer ∧
    ∀ r, k.action = .selected r → r = q ∧ w.HasChosen p q c
  loserSaid : ∀ k ∈ (w q).sent, k.signer = q ∧ k.mediaProtocol = (w q).mediaProtocol ∧
    (k.action = .offer → k.callId = d) ∧ (k.action = .answer → k.callId = c ∧ w.GaveUp p q c d) ∧
    ∀ r, k.action ≠ .selected r

/-- The input ends no call: nobody ends or declines it, it does not ring for too long, and no
    control that ends a call arrives. -/
def EndsNone (s : CallSession) (h : CallHost) : CallInput → Prop
  | .decline _ _ | .end _ _ | .reconcile => False
  | .pump => ¬ s.RingsTooLong h
  | .control envelope => ∀ k, CallSession.heard (.control envelope) = some k →
      k.action.terminal = false
  | _ => True

/-- One of the two devices, of different users, takes a step that ends no call. -/
structure Calm (p q : String) (w : World) (e : Happening) : Prop where
  device : e.device = p ∨ e.device = q
  fair : w.Fair e
  strangers : ∀ x, x = p ∨ x = q → x ≠ e.device →
    (w e.device).membership.any (·.callOwn x) = false
  input : EndsNone (w e.device) e.host e.input

/-! ## One step -/

section Step

variable {e : Happening} {k : CallControl}

/-- A control that arrives is one of the two devices. -/
theorem Crossing.heard (hw : w.Crossing p q c d) (hcalm : Calm p q w e)
    (hk : CallSession.heard e.input = some k) : k ∈ (w p).sent ∨ k ∈ (w q).sent := by
  have hfair := hcalm.fair
  rw [Fair] at hfair
  cases hinput : e.input with
  | control envelope =>
    rw [hinput] at hfair hk
    obtain ⟨⟨k', signer⟩, hopened, rfl⟩ := Option.map_eq_some_iff.1 hk
    cases hok : envelope.opened with
    | error error => simp [hok, Except.toOption] at hopened
    | ok opened =>
      rw [hok] at hopened
      obtain rfl := Option.some.inj hopened
      have hmem := hfair k' signer hok
      by_cases hp : signer = p
      · exact .inl (hp ▸ hmem)
      by_cases hq : signer = q
      · exact .inr (hq ▸ hmem)
      rw [hw.others signer hp hq] at hmem
      cases hmem
  | _ =>
    rw [hinput] at hk
    cases hk

/-- No call ends. -/
theorem Crossing.no_end (hw : w.Crossing p q c d) (hcalm : Calm p q w e) :
    ¬ ((w e.device).causeOf e.host e.input).ends := by
  show ¬ (w e.device).mayEnd e.host e.input
  have hinput := hcalm.input
  cases he : e.input with
  | control envelope =>
    rw [he] at hinput
    rintro ⟨k, hk, hterminal | ⟨hanswer, hother⟩⟩
    · rw [hinput k hk] at hterminal
      cases hterminal
    · -- an answer comes from the device that has given up, for an engine of the same protocol
      rcases hw.heard hcalm (he ▸ hk) with hk | hk
      · exact (hw.winnerSaid k hk).2.2.2.1 hanswer
      · obtain ⟨-, hprotocol, -, hgave, -⟩ := hw.loserSaid k hk
        have hsame := hw.protocol (hgave hanswer).2
        rcases hcalm.device with hdevice | hdevice
        · exact hother (by rw [hdevice, hprotocol, hsame])
        · exact hother (by rw [hdevice, hprotocol])
  | pump => rw [he] at hinput; exact hinput
  | start => exact id
  | accept _ => exact id
  | decline _ _ => rw [he] at hinput; exact hinput.elim
  | «end» _ _ => rw [he] at hinput; exact hinput.elim
  | media _ _ => exact id
  | drain => exact id
  | reconcile => rw [he] at hinput; exact hinput.elim
  | members _ _ => exact id
  | admission _ => exact id

/-- What a step of a device does to it. -/
theorem Crossing.effect (hw : w.Crossing p q c d) (e : Happening) :
    Effect ((w e.device).causeOf e.host e.input) (w e.device) (w.step e e.device) := by
  rw [step_self]
  exact effect_step (hw.ends e.device) e.input

/-- What the device that goes on becomes in a step: it still waits, or it chooses the other one,
    which has given up. -/
theorem Crossing.winner_turn (hw : w.Crossing p q c d) (hbefore : callBefore p c q d = true)
    (hcalm : Calm p q w e) (hdevice : e.device = p) :
    (∃ m, (w.step e p).core = some (waits p c m) ∧ ∃ m', (w p).core = some (waits p c m')) ∨
    (w.step e).HasChosen p q c ∧ w.GaveUp p q c d := by
  subst hdevice
  have hends := hw.no_end hcalm
  have hturn := (hw.effect e).turn
  rcases hw.winner with ⟨m, hm⟩ | ⟨m, hm⟩
  · rw [hm] at hturn
    rcases hturn.of_waits hends with hsame | ⟨k, -, -, -, -, hx⟩ |
      ⟨k, hheard, haction, -, hsigner, hx⟩ | ⟨k, hheard, haction, hsigner, -, hk, -⟩
    · exact .inl ⟨m, hsame, m, hm⟩
    · exact .inl ⟨_, hx, m, hm⟩
    · -- only the other device answers
      have hown : k.signer ≠ e.device := fun he => hsigner (he.trans (hw.own _).symm)
      rcases hw.heard hcalm hheard with hk | hk
      · exact absurd (hw.winnerSaid k hk).1 hown
      · obtain ⟨hq, -, -, hgave, -⟩ := hw.loserSaid k hk
        rw [hq] at hx
        exact .inr ⟨⟨m, hx⟩, (hgave haction).2⟩
    · -- the other call does not go on
      have hown : k.signer ≠ e.device := fun he => hsigner (he.trans (hw.own _).symm)
      rcases hw.heard hcalm hheard with hk' | hk'
      · exact absurd (hw.winnerSaid k hk').1 hown
      · obtain ⟨hq, -, hoffer, -⟩ := hw.loserSaid k hk'
        rw [hq, hoffer haction, callBefore_asymm hbefore] at hk
        cases hk
  · right
    refine ⟨?_, hw.chosen ⟨m, hm⟩⟩
    rw [hm] at hturn
    rcases hturn.of_active rfl with hsame | ⟨-, h⟩
    · exact ⟨m, hsame⟩
    · exact absurd h hends

/-- What the device that gives up becomes in a step: it waits, gives up, or takes the call. -/
theorem Crossing.loser_turn (hw : w.Crossing p q c d) (hbefore : callBefore p c q d = true)
    (hcalm : Calm p q w e) (hdevice : e.device = q) :
    ((w.step e q).core = some (waits q d none) ∧ (w q).core = some (waits q d none)) ∨
    ((w.step e q).core = some (answers p c d) ∧ (w p).mediaProtocol = (w q).mediaProtocol) ∨
    (w.step e q).core = some (takes p q c d) ∧ w.HasChosen p q c := by
  subst hdevice
  have hends := hw.no_end hcalm
  have hturn := (hw.effect e).turn
  have hown := hw.own e.device
  rcases hw.loser with hm | hm | hm
  · rw [hm] at hturn
    rcases hturn.of_waits hends with hsame | ⟨k, hheard, haction, hid, hk, -⟩ |
      ⟨k, hheard, haction, -, hsigner, -⟩ | ⟨k, hheard, haction, hsigner, hprotocol, -, hx⟩
    · exact .inl ⟨hsame, hm⟩
    · -- an offer of the other device is not put aside
      rcases hw.heard hcalm hheard with hk' | hk'
      · obtain ⟨hp, -, hoffer, -⟩ := hw.winnerSaid k hk'
        rw [hp, hoffer haction, hbefore] at hk
        cases hk
      · exact absurd ((hw.loserSaid k hk').2.2.1 haction) hid
    · rcases hw.heard hcalm hheard with hk | hk
      · exact absurd haction (hw.winnerSaid k hk).2.2.2.1
      · exact absurd ((hw.loserSaid k hk).1.trans hown.symm) hsigner
    · rcases hw.heard hcalm hheard with hk | hk
      · obtain ⟨hp, hsame, hoffer, -⟩ := hw.winnerSaid k hk
        rw [hp, hoffer haction] at hx
        exact .inr (.inl ⟨hx, hsame.symm.trans hprotocol⟩)
      · exact absurd ((hw.loserSaid k hk).1.trans hown.symm) hsigner
  · rw [hm] at hturn
    rcases hturn.of_answers hends with hsame | ⟨k, hheard, haction, hx⟩ |
      ⟨k, r, hheard, haction, hother⟩
    · exact .inr (.inl ⟨hsame, hw.protocol (.inl hm)⟩)
    · rcases hw.heard hcalm hheard with hk | hk
      · rw [show ((w e.device).causeOf e.host e.input).own = e.device from hown] at hx haction
        exact .inr (.inr ⟨hx, ((hw.winnerSaid k hk).2.2.2.2 _ haction).2⟩)
      · exact absurd haction ((hw.loserSaid k hk).2.2.2.2 _)
    · rcases hw.heard hcalm hheard with hk | hk
      · exact absurd (((hw.winnerSaid k hk).2.2.2.2 r haction).1.trans hown.symm) hother
      · exact absurd haction ((hw.loserSaid k hk).2.2.2.2 r)
  · rw [hm] at hturn
    rcases hturn.of_active rfl with hsame | ⟨-, h⟩
    · exact .inr (.inr ⟨hsame, hw.taken hm⟩)
    · exact absurd h hends

/-- What the device that goes on says. -/
theorem says_winner {x : Option CallCore} (hsaid : Says x k) (hsigner : k.signer = p)
    (hx : (∃ m, x = some (waits p c m)) ∨ ∃ m, x = some (talks p q c m)) :
    (k.action = .offer → k.callId = c) ∧ k.action ≠ .answer ∧
      ∀ r, k.action = .selected r → r = q ∧ ∃ m, x = some (talks p q c m) := by
  rw [Says] at hsaid
  refine ⟨fun haction => ?_, fun haction => ?_, fun r haction => ?_⟩
  · rw [haction] at hsaid
    obtain ⟨y, hy, hid, -⟩ := hsaid
    rcases hx with ⟨m, rfl⟩ | ⟨m, rfl⟩
    · cases hy
      exact hid.symm
    · cases hy
      exact hid.symm
  · rw [haction] at hsaid
    obtain ⟨y, hy, -, hphase | ⟨-, hcaller⟩⟩ := hsaid
    · rcases hx with ⟨m, rfl⟩ | ⟨m, rfl⟩
      · cases hy
        cases hphase
      · cases hy
        cases hphase
    · rcases hx with ⟨m, rfl⟩ | ⟨m, rfl⟩
      · cases hy
        exact hcaller hsigner.symm
      · cases hy
        exact hcaller hsigner.symm
  · rw [haction] at hsaid
    obtain ⟨y, hy, -, -, hphase, hselected⟩ := hsaid
    rcases hx with ⟨m, rfl⟩ | ⟨m, rfl⟩
    · cases hy
      cases hphase
    · cases hy
      exact ⟨(Option.some.inj hselected).symm, m, rfl⟩

/-- What the device that gives up says. -/
theorem says_loser {x : Option CallCore} (hsaid : Says x k)
    (hx : x = some (waits q d none) ∨ x = some (answers p c d) ∨ x = some (takes p q c d)) :
    (k.action = .offer → k.callId = d) ∧
      (k.action = .answer → k.callId = c ∧ x ≠ some (waits q d none)) ∧
      ∀ r, k.action ≠ .selected r := by
  rw [Says] at hsaid
  refine ⟨fun haction => ?_, fun haction => ?_, fun r haction => ?_⟩
  · rw [haction] at hsaid
    obtain ⟨y, hy, hid, hphase⟩ := hsaid
    rcases hx with rfl | rfl | rfl
    · cases hy
      exact hid.symm
    · cases hy
      cases hphase
    · cases hy
      cases hphase
  · rw [haction] at hsaid
    obtain ⟨y, hy, hid, hphase⟩ := hsaid
    rcases hx with rfl | rfl | rfl
    · cases hy
      rcases hphase with hphase | ⟨hphase, -⟩
      · cases hphase
      · cases hphase
    · cases hy
      exact ⟨hid.symm, fun hsame => by cases hsame⟩
    · cases hy
      exact ⟨hid.symm, fun hsame => by cases hsame⟩
  · rw [haction] at hsaid
    obtain ⟨y, hy, -, hdirection, hphase, -⟩ := hsaid
    rcases hx with rfl | rfl | rfl
    · cases hy
      cases hphase
    · cases hy
      cases hdirection
    · cases hy
      cases hdirection

theorem not_hasChosen {m : Option String} (hm : (w p).core = some (waits p c m)) :
    ¬ w.HasChosen p q c := by
  rintro ⟨m', hm'⟩
  cases hm.symm.trans hm'

theorem not_gaveUp (hm : (w q).core = some (waits q d none)) : ¬ w.GaveUp p q c d := by
  rintro (hm' | hm')
  · cases hm.symm.trans hm'
  · cases hm.symm.trans hm'

/-- The device that has given up does not take up its own call again. -/
theorem Crossing.gaveUp_step (hw : w.Crossing p q c d) (hbefore : callBefore p c q d = true)
    (hcalm : Calm p q w e) (hgave : w.GaveUp p q c d) : (w.step e).GaveUp p q c d := by
  by_cases hdevice : e.device = q
  · rcases hw.loser_turn hbefore hcalm hdevice with ⟨-, hm⟩ | ⟨hm, -⟩ | ⟨hm, -⟩
    · exact absurd hgave (not_gaveUp hm)
    · exact .inl hm
    · exact .inr hm
  · rw [GaveUp, step_of_ne (Ne.symm hdevice)]
    exact hgave

/-- A step keeps what holds in every state. -/
theorem Crossing.step (hw : w.Crossing p q c d) (hbefore : callBefore p c q d = true)
    (hpq : p ≠ q) (hcalm : Calm p q w e) : (w.step e).Crossing p q c d := by
  have heffect := hw.effect e
  obtain ⟨ks, hks, hsaid⟩ := heffect.sent
  -- what does not concern the calls
  have hown (x : String) : (w.step e x).own = x := by
    by_cases hx : x = e.device
    · subst hx
      exact heffect.own.trans (hw.own _)
    · rw [step_of_ne hx, hw.own]
  have hends (x : String) : (w.step e x).EndsTerminal := by
    by_cases hx : x = e.device
    · subst hx
      exact heffect.ends (hw.ends _)
    · rw [step_of_ne hx]
      exact hw.ends x
  have hothers (x : String) (hp : x ≠ p) (hq : x ≠ q) : (w.step e x).sent = [] := by
    rw [step_of_ne (fun hx => hcalm.device.elim (fun h => hp (hx.trans h)) fun h => hq (hx.trans h))]
    exact hw.others x hp hq
  have hprotocols (x : String) : (w.step e x).mediaProtocol = (w x).mediaProtocol := by
    by_cases hx : x = e.device
    · subst hx
      exact heffect.mediaProtocol
    · rw [step_of_ne hx]
  rcases hcalm.device with hdevice | hdevice
  · -- the device that goes on takes the step
    have hq : w.step e q = w q := step_of_ne (fun h => hpq (h.trans hdevice).symm)
    have hgave : (w.step e).GaveUp p q c d ↔ w.GaveUp p q c d := by rw [GaveUp, GaveUp, hq]
    have hturn := hw.winner_turn hbefore hcalm hdevice
    have hkeeps : (w.step e).Keeps p q c := by
      rcases hturn with ⟨m, hm, -⟩ | ⟨hm, -⟩
      · exact .inl ⟨m, hm⟩
      · exact .inr hm
    -- a choice that it has said is one that it has made
    have hmade : w.HasChosen p q c → (w.step e).HasChosen p q c := by
      intro hchosen
      rcases hturn with ⟨m, -, m', hm'⟩ | ⟨hm, -⟩
      · exact absurd hchosen (not_hasChosen hm')
      · exact hm
    refine ⟨hown, hends, hothers, hkeeps, ?_, ?_, ?_, ?_, fun k hk => ?_, ?_⟩
    · rw [hq, hgave]
      exact hw.loser
    · intro hchosen
      rcases hturn with ⟨m, hm, -⟩ | ⟨-, hgaveUp⟩
      · exact absurd hchosen (not_hasChosen hm)
      · exact hgave.2 hgaveUp
    · rw [hq]
      exact fun htakes => hmade (hw.taken htakes)
    · rw [hgave, hprotocols, hprotocols]
      exact hw.protocol
    · rw [hprotocols]
      rw [← hdevice, hks] at hk
      rcases List.mem_append.1 hk with hk | hk
      · rw [hdevice] at hk
        obtain ⟨hsigner, hprotocol, hoffer, hanswer, hselected⟩ := hw.winnerSaid k hk
        exact ⟨hsigner, hprotocol, hoffer, hanswer,
          fun r hr => ⟨(hselected r hr).1, hmade (hselected r hr).2⟩⟩
      · obtain ⟨⟨hsigner, hprotocol, -⟩, hsaid⟩ := hsaid k hk
        rw [hw.own, hdevice] at hsigner
        rw [hdevice] at hprotocol hsaid
        refine ⟨hsigner, hprotocol, ?_⟩
        rcases hsaid with hsaid | hsaid
        · obtain ⟨hoffer, hanswer, hselected⟩ := says_winner hsaid hsigner hw.winner
          exact ⟨hoffer, hanswer, fun r hr => ⟨(hselected r hr).1, hmade (hselected r hr).2⟩⟩
        · exact says_winner hsaid hsigner hkeeps
    · rw [hq, hgave]
      exact hw.loserSaid
  · -- the device that gives up takes the step
    have hp : w.step e p = w p := step_of_ne (fun h => hpq (h.trans hdevice))
    have hchosen : (w.step e).HasChosen p q c ↔ w.HasChosen p q c := by rw [HasChosen, HasChosen, hp]
    have hturn := hw.loser_turn hbefore hcalm hdevice
    have hloser : (w.step e q).core = some (waits q d none) ∨ (w.step e).GaveUp p q c d := by
      rcases hturn with ⟨hm, -⟩ | ⟨hm, -⟩ | ⟨hm, -⟩
      · exact .inl hm
      · exact .inr (.inl hm)
      · exact .inr (.inr hm)
    have hstays : w.GaveUp p q c d → (w.step e).GaveUp p q c d := hw.gaveUp_step hbefore hcalm
    refine ⟨hown, hends, hothers, ?_, hloser, ?_, ?_, ?_, ?_, fun k hk => ?_⟩
    · rw [Keeps, hp]
      exact hw.winner
    · rw [hchosen]
      exact fun h => hstays (hw.chosen h)
    · rw [hchosen]
      intro htakes
      rcases hturn with ⟨hm, -⟩ | ⟨hm, -⟩ | ⟨-, hm⟩
      · cases hm.symm.trans htakes
      · cases hm.symm.trans htakes
      · exact hm
    · rw [hprotocols, hprotocols]
      intro hgave
      rcases hturn with ⟨hm, -⟩ | ⟨-, hsame⟩ | ⟨-, hm⟩
      · exact absurd hgave (not_gaveUp hm)
      · exact hsame
      · exact hw.protocol (hw.chosen hm)
    · rw [hp, hchosen]
      exact hw.winnerSaid
    · rw [hprotocols]
      rw [← hdevice, hks] at hk
      rcases List.mem_append.1 hk with hk | hk
      · rw [hdevice] at hk
        obtain ⟨hsigner, hprotocol, hoffer, hanswer, hselected⟩ := hw.loserSaid k hk
        exact ⟨hsigner, hprotocol, hoffer, fun h => ⟨(hanswer h).1, hstays (hanswer h).2⟩, hselected⟩
      · obtain ⟨⟨hsigner, hprotocol, -⟩, hsaid⟩ := hsaid k hk
        rw [hw.own, hdevice] at hsigner
        rw [hdevice] at hprotocol hsaid
        refine ⟨hsigner, hprotocol, ?_⟩
        rcases hsaid with hsaid | hsaid
        · obtain ⟨hoffer, hanswer, hselected⟩ := says_loser hsaid hw.loser
          refine ⟨hoffer, fun h => ⟨(hanswer h).1, hstays ?_⟩, hselected⟩
          exact hw.loser.resolve_left (hanswer h).2
        · obtain ⟨hoffer, hanswer, hselected⟩ := says_loser hsaid hloser
          refine ⟨hoffer, fun h => ⟨(hanswer h).1, ?_⟩, hselected⟩
          exact hloser.resolve_left (hanswer h).2

/-! ## Offers that are taken -/

/-- A device that calls hears of no other call, as long as engines of one protocol talk and no call
    ends. -/
theorem Crossing.unaware_step {id : String} (hw : w.Crossing p q c d)
    (hw' : (w.step e).Crossing p q c d) (hcalm : Calm p q w e)
    (hprotocol : (w p).mediaProtocol = (w q).mediaProtocol) (h : (w e.device).Unaware id) :
    (w.step e e.device).Unaware id := by
  have hledger : Ledger (CallSession.heard e.input) (w e.device) (w.step e e.device) := by
    rw [step_self]
    exact ledger_step e.input
  -- both devices are always in a call
  have hbusy {w : World} (hw : w.Crossing p q c d) : (w e.device).core ≠ none := by
    rcases hcalm.device with hdevice | hdevice
    · rw [hdevice]
      rcases hw.winner with ⟨m, hm⟩ | ⟨m, hm⟩
      · exact hm ▸ nofun
      · exact hm ▸ nofun
    · rw [hdevice]
      rcases hw.loser with hm | hm | hm
      · exact hm ▸ nofun
      · exact hm ▸ nofun
      · exact hm ▸ nofun
  have hsaid {k : CallControl} (hk : CallSession.heard e.input = some k) :
      (k.signer = p ∨ k.signer = q) ∧ k.mediaProtocol = (w e.device).mediaProtocol := by
    have hsame : (w e.device).mediaProtocol = (w p).mediaProtocol := by
      rcases hcalm.device with hdevice | hdevice
      · rw [hdevice]
      · rw [hdevice, hprotocol]
    rcases hw.heard hcalm hk with hk | hk
    · obtain ⟨hsigner, hmedia, -⟩ := hw.winnerSaid k hk
      exact ⟨.inl hsigner, hmedia.trans hsame.symm⟩
    · obtain ⟨hsigner, hmedia, -⟩ := hw.loserSaid k hk
      exact ⟨.inr hsigner, (hmedia.trans hprotocol.symm).trans hsame.symm⟩
  obtain ⟨closes, -, hclosed, hreason⟩ := hledger.closes
  obtain ⟨rows, hrows, hevent⟩ := hledger.rows
  have hcloses : closes = [] := by
    rcases hreason with ⟨k, hk, -, hend⟩ | hreason
    · have hterminal : k.action.terminal = true := by
        rw [authoritativeCallEnd] at hend
        split at hend
        · next haction => rw [haction]; rfl
        · cases hend
      have hinput := hcalm.input
      cases he : e.input with
      | control envelope =>
        rw [he] at hinput hk
        rw [hinput k hk] at hterminal
        cases hterminal
      | _ =>
        rw [he] at hk
        cases hk
    · refine List.eq_nil_iff_forall_not_mem.2 fun call hcall => ?_
      obtain ⟨-, -, -, hnone⟩ := hreason call hcall
      exact hbusy hw' hnone
  have hnoRows : rows = [] := by
    refine List.eq_nil_iff_forall_not_mem.2 fun row hrow => ?_
    obtain ⟨event, -, ⟨-, -, -, hnone⟩ | ⟨k, hk, -, -, hother, -⟩⟩ := hevent row hrow
    · exact hbusy hw' hnone
    · exact hother (hsaid hk).2
  refine ⟨?_, fun entry he => ?_⟩
  · rw [hcloses] at hclosed
    rw [hnoRows, List.append_nil] at hrows
    rw [closedCallOffer, CallProtocolBook.isClosed, hclosed, hrows]
    exact h.unknown
  · rcases hledger.reserved entry he with he | ⟨k, hk, -, hnone | hnone | ⟨hsibling, hother⟩⟩
    · exact h.free entry he
    · exact absurd hnone (hbusy hw)
    · exact absurd hnone (hbusy hw')
    · rw [hw.own] at hother
      rw [hcalm.strangers k.signer (hsaid hk).1 hother] at hsibling
      cases hsibling

/-- The device takes an offer of the other one. -/
def TakesOffer (w : World) (e : Happening) (x y : String) : Prop :=
  e.device = x ∧ ∃ envelope k, e.input = .control envelope ∧
    Accepted (w x) e.host envelope k ∧ k.action = .offer ∧ k.signer = y

/-- A device that waits for an answer gives up its call for an offer that goes on. -/
theorem core_of_offer {s : CallSession} {h : CallHost} {envelope : CallEnvelope}
    (hcore : s.core = some (waits q d none)) (hk : Accepted s h envelope k)
    (haction : k.action = .offer) (hsigner : k.signer ≠ s.own)
    (hstranger : s.membership.any (·.callOwn k.signer) = false)
    (hprotocol : k.mediaProtocol = s.mediaProtocol) (hunaware : s.Unaware k.callId)
    (hid : d ≠ k.callId) (hbefore : callBefore k.signer k.callId q d = true) :
    (s.handleCallControl h envelope).1.core = some (answers k.signer k.callId d) := by
  rcases s.handleCallControl_cases h envelope with ⟨-, hnone⟩ | ⟨t, k', haside, hk', heq⟩
  · exact absurd hk (hnone k)
  obtain rfl : k' = k := congrArg Prod.fst (Except.ok.inj (hk'.opened.symm.trans hk.opened))
  obtain ⟨call, hcall, hcallCore⟩ := Option.map_eq_some_iff.1 hcore
  have hphase : call.phase = .outgoing := congrArg CallCore.phase hcallCore
  have hcallId : call.callId = d := congrArg CallCore.callId hcallCore
  have hcaller : call.callerSigner = q := congrArg CallCore.callerSigner hcallCore
  have hknown := hunaware.unknown
  rw [closedCallOffer, Bool.or_eq_false_iff] at hknown
  have hconfirmed : t.book.confirmedClosed k'.callId = false := by
    rw [haside.confirmedClosed, Bool.eq_false_iff]
    intro h
    rw [CallProtocolBook.isClosed_of_confirmed h] at hknown
    cases hknown.1
  have hselected : t.occupancy.selected k'.callId h.now = false := by
    rw [haside.occupancy, CallOccupancy.selected, List.any_eq_false]
    intro entry he hmatch
    simp only [Bool.and_eq_true, decide_eq_true_eq] at hmatch
    exact hunaware.free entry he hmatch.1.1
  have hlate : (t.closedCallOffer k'.callId || t.occupancy.selected k'.callId h.now) = false := by
    rw [haside.plain.closedCallOffer, hunaware.unknown, hselected, Bool.false_or]
  have hnew : callBefore k'.signer k'.callId call.callerSigner call.callId = true := by
    rw [hcaller, hcallId]
    exact hbefore
  rw [heq, applyCallControl, if_neg (by rw [hconfirmed]; decide),
    if_neg (fun he => hsigner (he.trans haside.own)),
    if_neg (by rw [haside.membership, hstranger]; decide), haction]
  dsimp only
  rw [receiveCallOffer, if_neg (by rw [hlate]; decide),
    if_neg (not_not.2 (hprotocol.trans haside.mediaProtocol.symm)), haside.call, hcall]
  dsimp only
  rw [if_pos (by simp [hphase, hcallId, hid]), mergeCrossCall, if_neg (by rw [hnew]; decide), core,
    publishCallAccept, publish_call, ← hcallId]
  rfl

end Step

/-! ## Runs -/

section Run

open Run

variable {w₀ w₁ w₂ : World} {x y : String} {e₁ e₂ : Happening} {es es₁ es₂ : List Happening}

/-- The device has called, and has said nothing else. -/
structure Called (w : World) (x c : String) : Prop where
  core : (w x).core = some (waits x c none)
  said : ∀ k ∈ (w x).sent, k.signer = x ∧ k.mediaProtocol = (w x).mediaProtocol ∧
    k.action = .offer ∧ k.callId = c

/-- Two devices have called each other. Neither has heard of the call of the other. -/
structure Crossed (w : World) (x y c d : String) : Prop where
  ne : x ≠ y
  own : ∀ z, (w z).own = z
  ends : ∀ z, (w z).EndsTerminal
  others : ∀ z, z ≠ x → z ≠ y → (w z).sent = []
  first : w.Called x c
  second : w.Called y d
  firstUnaware : (w x).Unaware d
  secondUnaware : (w y).Unaware c

theorem Crossed.symm (h : w.Crossed x y c d) : w.Crossed y x d c :=
  ⟨h.ne.symm, h.own, h.ends, fun z hy hx => h.others z hx hy, h.second, h.first, h.secondUnaware,
    h.firstUnaware⟩

theorem Calm.symm {e : Happening} (h : Calm x y w e) : Calm y x w e :=
  ⟨h.device.symm, h.fair, fun z hz => h.strangers z hz.symm, h.input⟩

theorem Crossed.crossing (h : w.Crossed p q c d) : w.Crossing p q c d where
  own := h.own
  ends := h.ends
  others := h.others
  winner := .inl ⟨none, h.first.core⟩
  loser := .inl h.second.core
  chosen hchosen := absurd hchosen (not_hasChosen h.first.core)
  taken htakes := absurd (.inr htakes) (not_gaveUp h.second.core)
  protocol hgave := absurd hgave (not_gaveUp h.second.core)
  winnerSaid k hk := by
    obtain ⟨hsigner, hprotocol, haction, hid⟩ := h.first.said k hk
    refine ⟨hsigner, hprotocol, fun _ => hid, fun hr => ?_, fun r hr => ?_⟩
    · rw [haction] at hr
      cases hr
    · rw [haction] at hr
      cases hr
  loserSaid k hk := by
    obtain ⟨hsigner, hprotocol, haction, hid⟩ := h.second.said k hk
    refine ⟨hsigner, hprotocol, fun _ => hid, fun hr => ?_, fun r hr => ?_⟩
    · rw [haction] at hr
      cases hr
    · rw [haction] at hr
      cases hr

/-- Nobody ends a call. -/
abbrev CalmRun (x y : String) := Runs World.step (Calm x y)

theorem CalmRun.symm (h : CalmRun x y w es w') : CalmRun y x w es w' := by
  induction h with
  | nil => exact .nil _
  | cons hcalm _ ih => exact .cons hcalm.symm ih

/-- What holds in every state, with engines of one protocol. -/
structure Aligned (w : World) (p q c d : String) : Prop extends Crossing w p q c d where
  same : (w p).mediaProtocol = (w q).mediaProtocol
  unaware : (w q).Unaware c

theorem Crossing.mediaProtocol_step {e : Happening} (hw : w.Crossing p q c d) (z : String) :
    (w.step e z).mediaProtocol = (w z).mediaProtocol := by
  by_cases hz : z = e.device
  · subst hz
    exact (hw.effect e).mediaProtocol
  · rw [step_of_ne hz]

theorem Aligned.step {e : Happening} (hw : w.Aligned p q c d) (hbefore : callBefore p c q d = true)
    (hpq : p ≠ q) (hcalm : Calm p q w e) : (w.step e).Aligned p q c d := by
  have hw' := hw.toCrossing.step hbefore hpq hcalm
  refine ⟨hw', ?_, ?_⟩
  · rw [hw.mediaProtocol_step, hw.mediaProtocol_step]
    exact hw.same
  · by_cases hq : q = e.device
    · rw [hq]
      exact hw.toCrossing.unaware_step hw' hcalm hw.same (hq ▸ hw.unaware)
    · rw [step_of_ne hq]
      exact hw.unaware

theorem crossing_run (hpq : p ≠ q) (hbefore : callBefore p c q d = true) (hw : w.Crossing p q c d)
    (hrun : CalmRun p q w es w') : w'.Crossing p q c d :=
  hrun.invariant (P := fun w => w.Crossing p q c d)
    (fun _ _ hcalm hw => hw.step hbefore hpq hcalm) hw

theorem aligned_run (hpq : p ≠ q) (hbefore : callBefore p c q d = true) (hw : w.Aligned p q c d)
    (hrun : CalmRun p q w es w') : w'.Aligned p q c d :=
  hrun.invariant (P := fun w => w.Aligned p q c d)
    (fun _ _ hcalm hw => hw.step hbefore hpq hcalm) hw

theorem gaveUp_run (hpq : p ≠ q) (hbefore : callBefore p c q d = true) (hw : w.Crossing p q c d)
    (hgave : w.GaveUp p q c d) (hrun : CalmRun p q w es w') : w'.GaveUp p q c d := by
  refine (hrun.invariant (P := fun w => w.Crossing p q c d ∧ w.GaveUp p q c d) ?_ ⟨hw, hgave⟩).2
  rintro w e hcalm ⟨hw, hgave⟩
  exact ⟨hw.step hbefore hpq hcalm, hw.gaveUp_step hbefore hcalm hgave⟩

/-- One device waits for an answer to the call that goes on, and the other one answers it, and has
    noted the call that it gave up. -/
def Merged (w : World) (p q c d : String) : Prop :=
  (∃ m, (w p).core = some (waits p c m)) ∧ (w q).core = some (answers p c d)

theorem waits_of_outgoing (hw : w.Crossing p q c d) {z : CallCore} (hz : z ∈ (w p).core)
    (hphase : z.phase = .outgoing) : ∃ m, (w p).core = some (waits p c m) := by
  rcases hw.winner with hm | ⟨m, hm⟩
  · exact hm
  · cases hm.symm.trans hz
    cases hphase

theorem loser_of_outgoing (hw : w.Crossing p q c d) {z : CallCore} (hz : z ∈ (w q).core)
    (hphase : z.phase = .outgoing) : (w q).core = some (waits q d none) := by
  rcases hw.loser with hm | hm | hm
  · exact hm
  · cases hm.symm.trans hz
    cases hphase
  · cases hm.symm.trans hz
    cases hphase

/-- The device that gives up takes an offer of the one that goes on. -/
theorem Aligned.gives_up {e : Happening} (hw : w.Aligned p q c d)
    (hbefore : callBefore p c q d = true) (hpq : p ≠ q) (hcd : c ≠ d) (hcalm : Calm p q w e)
    (hwaits : (w q).core = some (waits q d none)) (htakes : w.TakesOffer e q p) :
    (w.step e q).core = some (answers p c d) := by
  obtain ⟨hdevice, envelope, k, hinput, hk, haction, hsigner⟩ := htakes
  have hsent : k ∈ (w p).sent := by
    have hfair := hcalm.fair
    rw [Fair, hinput] at hfair
    exact hsigner ▸ hfair k k.signer hk.opened
  obtain ⟨-, hprotocol, hoffer, -⟩ := hw.winnerSaid k hsent
  have hid : k.callId = c := hoffer haction
  have hstranger := hcalm.strangers p (.inl rfl) (fun h => hpq (h.trans hdevice))
  rw [hdevice, ← hsigner] at hstranger
  subst hdevice
  rw [step_self, hinput]
  have hcore := core_of_offer hwaits hk haction (fun h => hpq (hsigner.symm.trans (h.trans (hw.own _))))
    hstranger (hprotocol.trans hw.same) (hid ▸ hw.unaware) (fun h => hcd (hid.symm.trans h.symm))
    (by rw [hsigner, hid]; exact hbefore)
  rw [hsigner, hid] at hcore
  exact hcore

/-- The device that goes on still waits after an offer of the other one. -/
theorem Crossing.waits_on {e : Happening} (hw : w.Crossing p q c d)
    (hbefore : callBefore p c q d = true) (hcalm : Calm p q w e)
    (hwaits : ∃ m, (w p).core = some (waits p c m)) (htakes : w.TakesOffer e p q) :
    ∃ m, (w.step e p).core = some (waits p c m) := by
  obtain ⟨hdevice, envelope, k, hinput, hk, haction, -⟩ := htakes
  obtain ⟨m, hm⟩ := hwaits
  subst hdevice
  have hheard : CallSession.heard e.input = some k := by rw [hinput, hk.is_heard]
  have hturn := (hw.effect e).turn
  rw [hm] at hturn
  rcases hturn.of_waits (hw.no_end hcalm) with hsame | ⟨k', -, -, -, -, hx⟩ |
    ⟨k', hk', hanswer, -⟩ | ⟨k', hk', haction', hsigner, -, hbefore', -⟩
  · exact ⟨m, hsame⟩
  · exact ⟨_, hx⟩
  · obtain rfl := Option.some.inj (hk'.symm.trans hheard)
    cases haction.symm.trans hanswer
  · rcases hw.heard hcalm hk' with hsaid | hsaid
    · exact absurd ((hw.winnerSaid k' hsaid).1.trans (hw.own _).symm) hsigner
    · obtain ⟨hq, -, hoffer, -⟩ := hw.loserSaid k' hsaid
      rw [hq, hoffer haction', callBefore_asymm hbefore] at hbefore'
      cases hbefore'

/-- Each device has taken an offer of the other one while it waited itself. -/
theorem Aligned.merged (hw₁ : w₁.Aligned p q c d) (hbefore : callBefore p c q d = true) (hpq : p ≠ q)
    (hcd : c ≠ d) (hcalm₁ : Calm p q w₁ e₁) (hrun : CalmRun p q (w₁.step e₁) es w₂)
    (hcalm₂ : Calm p q w₂ e₂) {z₁ z₂ : CallCore} (hz₁ : z₁.phase = .outgoing)
    (hz₂ : z₂.phase = .outgoing)
    (h : (z₁ ∈ (w₁ p).core ∧ w₁.TakesOffer e₁ p q ∧ z₂ ∈ (w₂ q).core ∧ w₂.TakesOffer e₂ q p) ∨
      (z₁ ∈ (w₁ q).core ∧ w₁.TakesOffer e₁ q p ∧ z₂ ∈ (w₂ p).core ∧ w₂.TakesOffer e₂ p q)) :
    (w₂.step e₂).Merged p q c d := by
  have hw₂ := aligned_run hpq hbefore (hw₁.step hbefore hpq hcalm₁) hrun
  rcases h with ⟨-, -, hq, htakes⟩ | ⟨hq, htakes, hp, htakes'⟩
  · -- the one that gives up comes second
    have hwaits := loser_of_outgoing hw₂.toCrossing hq hz₂
    refine ⟨?_, hw₂.gives_up hbefore hpq hcd hcalm₂ hwaits htakes⟩
    rw [step_of_ne (fun h => hpq (h.trans htakes.1))]
    rcases hw₂.winner with hm | hm
    · exact hm
    · exact absurd (hw₂.chosen hm) (not_gaveUp hwaits)
  · -- the one that gives up comes first
    have hanswers := hw₁.gives_up hbefore hpq hcd hcalm₁ (loser_of_outgoing hw₁.toCrossing hq hz₁) htakes
    have hgave := gaveUp_run hpq hbefore (hw₁.step hbefore hpq hcalm₁).toCrossing (.inl hanswers) hrun
    have hwaits := waits_of_outgoing hw₂.toCrossing hp hz₂
    refine ⟨hw₂.toCrossing.waits_on hbefore hcalm₂ hwaits htakes', ?_⟩
    rw [step_of_ne (fun h => hpq (h.trans htakes'.1).symm)]
    rcases hgave with hm | hm
    · exact hm
    · obtain ⟨m, hm'⟩ := hwaits
      exact absurd (hw₂.taken hm) (not_hasChosen hm')

/-- The device waits for an answer to its call. -/
def Outgoing (w : World) (x : String) : Prop := ∃ z ∈ (w x).core, z.phase = .outgoing

/-- Both devices are active, in the call that goes on and as its two ends. -/
theorem Crossing.agree (hw : w.Crossing p q c d) {u v : CallCore} (hu : u ∈ (w p).core)
    (hv : v ∈ (w q).core) (hactive : u.phase = .active) (hactive' : v.phase = .active) :
    (∃ m, u = talks p q c m) ∧ v = takes p q c d := by
  constructor
  · rcases hw.winner with ⟨m, hm⟩ | ⟨m, hm⟩
    · cases hm.symm.trans hu
      cases hactive
    · exact ⟨m, (Option.some.inj (hm.symm.trans hu)).symm⟩
  · rcases hw.loser with hm | hm | hm
    · cases hm.symm.trans hv
      cases hactive'
    · cases hm.symm.trans hv
      cases hactive'
    · exact (Option.some.inj (hm.symm.trans hv)).symm

theorem Crossed.aligned (h : w.Crossed p q c d) (hsame : (w p).mediaProtocol = (w q).mediaProtocol) :
    w.Aligned p q c d :=
  ⟨h.crossing, hsame, h.secondUnaware⟩

/-- Devices that call each other converge. Whatever of their controls is lost, repeated, delayed or
    reordered, where both are active they are the two ends of one call, which is the one with the
    smaller pair of signer and id. And with engines of one protocol and different ids, once each
    has taken an offer of the other while it waited, one of them waits for the other, which answers
    its call and has noted the one that it gave up. -/
theorem calls_converge (h₀ : w₀.Crossed x y c d) (hrun : CalmRun x y w₀ es w₁) :
    (∀ u ∈ (w₁ x).core, ∀ v ∈ (w₁ y).core, u.phase = .active → v.phase = .active →
      u.callId = (if callBefore x c y d then c else d) ∧ v.callId = u.callId ∧
      u.direction ≠ v.direction ∧ u.callerSigner = (if callBefore x c y d then x else y) ∧
      v.callerSigner = u.callerSigner ∧ v.selectedSigner = u.selectedSigner) ∧
    (c ≠ d → (w₀ x).mediaProtocol = (w₀ y).mediaProtocol →
      ∀ a b e₁ es₂ w₂ e₂, (a = x ∧ b = y ∨ a = y ∧ b = x) →
        w₁.Outgoing a → Calm x y w₁ e₁ → w₁.TakesOffer e₁ a b →
        CalmRun x y (w₁.step e₁) es₂ w₂ →
        w₂.Outgoing b → Calm x y w₂ e₂ → w₂.TakesOffer e₂ b a →
        if callBefore x c y d then (w₂.step e₂).Merged x y c d
        else (w₂.step e₂).Merged y x d c) := by
  have hor : callBefore x c y d = true ∨ callBefore y d x c = true := callBefore_total h₀.ne
  rcases hor with hbefore | hbefore
  · -- the first call goes on
    simp only [hbefore, if_true]
    refine ⟨fun u hu v hv hactive hactive' => ?_, ?_⟩
    · obtain ⟨⟨m, rfl⟩, rfl⟩ :=
        (crossing_run h₀.ne hbefore h₀.crossing hrun).agree hu hv hactive hactive'
      exact ⟨rfl, rfl, nofun, rfl, rfl, rfl⟩
    · rintro hcd hsame a b e₁ es₂ w₂ e₂ hab ⟨z₁, hz₁, hphase₁⟩ hcalm₁ htakes₁ hrun₂
        ⟨z₂, hz₂, hphase₂⟩ hcalm₂ htakes₂
      have hw₁ := aligned_run h₀.ne hbefore (h₀.aligned hsame) hrun
      refine hw₁.merged hbefore h₀.ne hcd hcalm₁ hrun₂ hcalm₂ hphase₁ hphase₂ ?_
      rcases hab with ⟨rfl, rfl⟩ | ⟨rfl, rfl⟩
      · exact .inl ⟨hz₁, htakes₁, hz₂, htakes₂⟩
      · exact .inr ⟨hz₁, htakes₁, hz₂, htakes₂⟩
  · -- the second call goes on
    have h₀' := h₀.symm
    simp only [callBefore_asymm hbefore, Bool.false_eq_true, if_false]
    refine ⟨fun u hu v hv hactive hactive' => ?_, ?_⟩
    · obtain ⟨⟨m, rfl⟩, rfl⟩ :=
        (crossing_run h₀'.ne hbefore h₀'.crossing hrun.symm).agree hv hu hactive' hactive
      exact ⟨rfl, rfl, nofun, rfl, rfl, rfl⟩
    · rintro hcd hsame a b e₁ es₂ w₂ e₂ hab ⟨z₁, hz₁, hphase₁⟩ hcalm₁ htakes₁ hrun₂
        ⟨z₂, hz₂, hphase₂⟩ hcalm₂ htakes₂
      have hw₁ := aligned_run h₀'.ne hbefore (h₀'.aligned hsame.symm) hrun.symm
      refine hw₁.merged hbefore h₀'.ne hcd.symm hcalm₁.symm hrun₂.symm hcalm₂.symm
        hphase₁ hphase₂ ?_
      rcases hab with ⟨rfl, rfl⟩ | ⟨rfl, rfl⟩
      · exact .inr ⟨hz₁, htakes₁, hz₂, htakes₂⟩
      · exact .inl ⟨hz₁, htakes₁, hz₂, htakes₂⟩

end Run

/-! ## Two calls -/

/-- The devices before they call: the second one has an engine of the given protocol. -/
def engines (protocol : Nat) : World := fun device =>
  { CallSession.unused device with mediaProtocol := if device = "ben" then protocol else 1 }

/-- Both devices call, the second one under the given id. -/
def bothCall (protocol : Nat) (id : String) : World :=
  ((engines protocol).step ⟨"ann", .clear, .start⟩).step
    ⟨"ben", { CallHost.clear with token := .ok id }, .start⟩

/-- The offer of the first device arrives at the second one. -/
def annOffers : Happening := hears "ben" "ann" 1 .offer

/-- The offer of the second device arrives at the first one. -/
def benOffers (protocol : Nat) (id : String) : Happening :=
  ⟨"ann", .clear, .hears { CallControl.said "ben" 1 .offer with
    callId := id, mediaProtocol := protocol }⟩

theorem bothCall_of_ne {protocol : Nat} {id z : String} (hann : z ≠ "ann") (hben : z ≠ "ben") :
    bothCall protocol id z = engines protocol z := by
  rw [bothCall, step_of_ne hben, step_of_ne hann]

/-- Under every id and with every engine, both devices have called. -/
theorem bothCall_crossed (protocol : Nat) (id : String) :
    (bothCall protocol id).Crossed "ann" "ben" "call" id where
  ne := by decide
  own z := by
    by_cases ha : z = "ann"
    · rw [ha]
      rfl
    by_cases hb : z = "ben"
    · rw [hb]
      rfl
    rw [bothCall_of_ne ha hb]
    rfl
  ends z := by
    by_cases ha : z = "ann"
    · rw [ha]
      exact List.forall_mem_nil _
    by_cases hb : z = "ben"
    · rw [hb]
      exact List.forall_mem_nil _
    rw [bothCall_of_ne ha hb]
    exact List.forall_mem_nil _
  others z ha hb := by
    rw [bothCall_of_ne ha hb]
    rfl
  first := ⟨rfl, List.forall_mem_singleton.2 ⟨rfl, rfl, rfl, rfl⟩⟩
  second := ⟨rfl, List.forall_mem_singleton.2 ⟨rfl, rfl, rfl, rfl⟩⟩
  firstUnaware := ⟨rfl, List.forall_mem_nil _⟩
  secondUnaware := ⟨rfl, List.forall_mem_nil _⟩

theorem annOffers_calm {w : World} (hsent : CallControl.said "ann" 1 .offer ∈ (w "ann").sent)
    (halone : (w "ben").membership = none) : Calm "ann" "ben" w annOffers where
  device := .inr rfl
  fair := fair_hears hsent
  strangers z _ _ := by
    show (w "ben").membership.any _ = false
    rw [halone]
    rfl
  input := by
    rintro k ⟨⟩
    rfl

theorem benOffers_calm {w : World} {protocol : Nat} {id : String}
    (hsent : { CallControl.said "ben" 1 .offer with
      callId := id, mediaProtocol := protocol } ∈ (w "ben").sent)
    (halone : (w "ann").membership = none) :
    Calm "ann" "ben" w (benOffers protocol id) where
  device := .inl rfl
  fair := by
    rintro k signer ⟨⟩
    exact hsent
  strangers z _ _ := by
    show (w "ann").membership.any _ = false
    rw [halone]
    rfl
  input := by
    rintro k ⟨⟩
    rfl

/-- Each device takes the offer of the other one while it waits itself. -/
structure Exchanged (w : World) (x y : String) (e₁ e₂ : Happening) : Prop where
  first : w.Outgoing x
  calm : Calm x y w e₁
  takes : w.TakesOffer e₁ x y
  second : (w.step e₁).Outgoing y
  calm' : Calm x y (w.step e₁) e₂
  takes' : (w.step e₁).TakesOffer e₂ y x

/-- Under the same id as the other device or under another one, and with every engine, an offer
    that may be sent is taken. -/
theorem bothCall_exchanged {protocol : Nat} {id : String}
    (hwellFormed : (bothCall protocol id "ann").wellFormed { CallControl.said "ben" 1 .offer with
      callId := id, mediaProtocol := protocol } "ben" = true)
    (hadmits : (bothCall protocol id "ann").admits { CallControl.said "ben" 1 .offer with
      callId := id, mediaProtocol := protocol } = true) :
    (bothCall protocol id).Exchanged "ann" "ben" (benOffers protocol id) annOffers where
  first := ⟨_, rfl, rfl⟩
  calm := benOffers_calm (List.mem_singleton.2 rfl) rfl
  takes := ⟨rfl, _, _, rfl, ⟨rfl, rfl, hwellFormed, hadmits, rfl, .inr (.inl rfl)⟩, rfl, rfl⟩
  second := ⟨_, rfl, rfl⟩
  calm' := by
    refine annOffers_calm ?_ rfl
    -- what has been said stays said
    obtain ⟨ks, hks, -⟩ :=
      ((bothCall_crossed protocol id).crossing.effect (benOffers protocol id)).sent
    exact hks ▸ List.mem_append_left _ (List.mem_singleton.2 rfl)
  takes' := ⟨rfl, _, _, rfl, ⟨rfl, rfl, rfl, rfl, rfl, .inr (.inl rfl)⟩, rfl, rfl⟩

/-- Each device has taken the offer of the other one, and the second one answers the first. -/
theorem calls_converge_ann :
    (((bothCall 1 "other").step (benOffers 1 "other")).step annOffers).Merged "ann" "ben" "call"
      "other" := by
  have h : (bothCall 1 "other").Exchanged "ann" "ben" (benOffers 1 "other") annOffers :=
    bothCall_exchanged rfl rfl
  have hmerged := (calls_converge (bothCall_crossed 1 "other") (.nil _)).2 (by decide) rfl
    "ann" "ben" _ [] _ _ (.inl ⟨rfl, rfl⟩) h.first h.calm h.takes (.nil _) h.second h.calm' h.takes'
  rw [if_pos (by decide +kernel)] at hmerged
  exact hmerged

/-- With the same id twice, and with engines of different protocols, each device takes the offer of
    the other one while it waits, and both go on waiting. -/
theorem engines_apart :
    ((bothCall 1 "call").Crossed "ann" "ben" "call" "call" ∧
      (bothCall 1 "call").Exchanged "ann" "ben" (benOffers 1 "call") annOffers ∧
      (((bothCall 1 "call").step (benOffers 1 "call")).step annOffers).Outgoing "ann" ∧
      (((bothCall 1 "call").step (benOffers 1 "call")).step annOffers).Outgoing "ben") ∧
    ((bothCall 2 "other").Crossed "ann" "ben" "call" "other" ∧
      (bothCall 2 "other").Exchanged "ann" "ben" (benOffers 2 "other") annOffers ∧
      (((bothCall 2 "other").step (benOffers 2 "other")).step annOffers).Outgoing "ann" ∧
      (((bothCall 2 "other").step (benOffers 2 "other")).step annOffers).Outgoing "ben") :=
  ⟨⟨bothCall_crossed 1 "call", bothCall_exchanged rfl rfl, ⟨_, rfl, rfl⟩, ⟨_, rfl, rfl⟩⟩,
    ⟨bothCall_crossed 2 "other", bothCall_exchanged rfl rfl, ⟨_, rfl, rfl⟩, ⟨_, rfl, rfl⟩⟩⟩

end World

end Mosh.Calls
