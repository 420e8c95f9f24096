import Mosh.Group.Mls

/-!
# Membership in the past

A record of the history of a group counts if its author was a member from the time that entitles
it on to the time of the record. A member decides this by its own branch
(`private_group_runtime/history/intervals.rs`): it retains, for each epoch that it left, the
context before and after and the members before and after (`transitions.rs`), and walks over
these up to its own state.

* `earliestHistoryContext_eq`: where the branch starts that is known;
* `followBranch_ok_iff`: what the walk checks;
* `continuous_membership_iff`: who was a member, in epochs of the branch.
-/

namespace Mosh.Group.History

/-- A context, with the bytes of the id of its group. -/
abbrev Context := MlsHistoryContext (List UInt8)

/-- One epoch that the own state left for the next. -/
structure NativeTransition where
  prior : Context
  next : Context
  previousMemberKeys : List String
  nextMemberKeys : List String

/-- A context that was once the own one. -/
structure NativeContext where
  context : Context
  members : List String

/-- The rows of evidence in the database, as bytes, and what they are read as. -/
structure HistoryEvidence where
  sha256Hex : String → String
  get : String → Except PrivateGroupError (Option (List UInt8))
  transition : List UInt8 → Except PrivateGroupError NativeTransition
  context : List UInt8 → Except PrivateGroupError NativeContext

namespace HistoryEvidence

variable (store : HistoryEvidence)

/-- A row, if there is one. -/
def groupHistoryEvidence {R : Type} (read : List UInt8 → Except PrivateGroupError R)
    (key : String) : Except PrivateGroupError (Option R) :=
  match store.get key with
  | .error e => .error e
  | .ok none => .ok none
  | .ok (some bytes) => (read bytes).map some

/-- The transition out of an epoch. -/
def transitionAt (groupId : String) (epoch : Nat) :
    Except PrivateGroupError (Option NativeTransition) :=
  store.groupHistoryEvidence store.transition ("group/" ++ store.sha256Hex groupId ++
    "/transition/" ++ String.ofList ((toString epoch).toList.leftpad 20 '0'))

/-- The context that has a hash. -/
def contextAt (groupId hash : String) : Except PrivateGroupError (Option NativeContext) :=
  store.groupHistoryEvidence store.context
    ("group/" ++ store.sha256Hex groupId ++ "/local-context/" ++ hash)

end HistoryEvidence

/-- What a member of a group knows: its own state, and what it retained. -/
structure HistorySession where
  groupId : String
  historyContext : Except PrivateGroupError Context
  memberSigners : List String
  persistence : Option HistoryEvidence

namespace HistorySession

variable (s : HistorySession)

/-- Whether a key was a member in a context, as far as it is known. -/
def knownMemberAt (at_ : Context) (key : String) : Except PrivateGroupError (Option Bool) :=
  match s.historyContext with
  | .error e => .error e
  | .ok head =>
    if at_.groupId ≠ head.groupId ∨ head.epoch < at_.epoch then .ok none
    else if at_ = head then .ok (some (key ∈ s.memberSigners))
    else
      match s.persistence with
      | none => .error .notReady
      | some store =>
        match store.contextAt s.groupId at_.hash with
        | .error e => .error e
        | .ok (some context) =>
          if context.context ≠ at_ then .error (.codec "native context differs")
          else .ok (some (key ∈ context.members))
        | .ok none =>
          match store.transitionAt s.groupId at_.epoch with
          | .error e => .error e
          | .ok leaving =>
            match leaving.filter (·.prior = at_) with
            | some transition => .ok (some (key ∈ transition.previousMemberKeys))
            | none =>
              if at_.epoch = 0 then .ok none
              else
                match store.transitionAt s.groupId (at_.epoch - 1) with
                | .error e => .error e
                | .ok entering =>
                  match entering.filter (·.next = at_) with
                  | some transition => .ok (some (key ∈ transition.nextMemberKeys))
                  | none => .ok none

/-- Goes back over a number of transitions, as far as there are any. -/
def earliestFrom (store : HistoryEvidence) :
    Nat → Context × List String → Except PrivateGroupError (Context × List String)
  | 0, found => .ok found
  | n + 1, (cursor, members) =>
    if cursor.epoch = 0 then .ok (cursor, members)
    else
      match store.transitionAt s.groupId (cursor.epoch - 1) with
      | .error e => .error e
      | .ok none => .ok (cursor, members)
      | .ok (some transition) =>
        if transition.next ≠ cursor ∨ transition.prior.epoch ≠ cursor.epoch - 1 then
          .error (.codec "verified membership branch differs")
        else earliestFrom store n (transition.prior, transition.previousMemberKeys)

/-- How many epochs are looked at. -/
def maxEpochs : Nat := 4096

/-- The first context of the branch that is known, and its members. -/
def earliestHistoryContext : Except PrivateGroupError (Context × List String) :=
  match s.historyContext with
  | .error e => .error e
  | .ok head =>
    match s.persistence with
    | none => .error .notReady
    | some store => s.earliestFrom store maxEpochs (head, s.memberSigners)

/-- Follows the branch from a context on to the own state. The key is a member up to the time of
    the record, whose context is on the branch. -/
def followBranch (store : HistoryEvidence) (head at_ : Context) (key : String) (cursor : Context) :
    Except PrivateGroupError Context :=
  if cursor.epoch < head.epoch then
    match store.transitionAt s.groupId cursor.epoch with
    | .error e => .error e
    | .ok none => .error .notReady
    | .ok (some transition) =>
      if h : transition.prior ≠ cursor ∨ transition.next.epoch ≠ cursor.epoch + 1 ∨
          transition.next.groupId ≠ head.groupId ∨
          cursor.epoch ≤ at_.epoch ∧ key ∉ transition.previousMemberKeys ∨
          transition.next.epoch ≤ at_.epoch ∧ key ∉ transition.nextMemberKeys then
        .error (.codec "history membership gap or branch differs")
      else if cursor.epoch = at_.epoch ∧ cursor ≠ at_ then
        .error (.codec "historical context differs")
      else followBranch store head at_ key transition.next
  else .ok cursor
  termination_by head.epoch - cursor.epoch
  decreasing_by
    push_neg at h
    omega

/-- Whether a key was a member from one context on to another one. A later removal does not matter. -/
def continuousMembership (start at_ : Context) (key : String) : Except PrivateGroupError Unit :=
  match s.historyContext with
  | .error e => .error e
  | .ok head =>
    if start.groupId ≠ head.groupId ∨ at_.groupId ≠ head.groupId ∨ at_.epoch < start.epoch ∨
        head.epoch < at_.epoch ∨ maxEpochs < head.epoch - start.epoch then
      .error (.codec "history membership interval unavailable")
    else
      match s.persistence with
      | none => .error .notReady
      | some store =>
        match s.earliestHistoryContext with
        | .error e => .error e
        | .ok (known, members) =>
          if at_.epoch < known.epoch then
            match s.knownMemberAt at_ key with
            | .error e => .error e
            | .ok (some true) => .ok ()
            | .ok _ => .error (.codec "retained historical interval unavailable")
          else
            let cursor := if start.epoch < known.epoch then known else start
            if at_.epoch < cursor.epoch ∨ cursor = known ∧ key ∉ members then
              .error (.codec "record precedes verified membership")
            else
              match s.followBranch store head at_ key cursor with
              | .error e => .error e
              | .ok cursor =>
                if cursor ≠ head ∨
                    at_.epoch = head.epoch ∧ (at_ ≠ head ∨ key ∉ s.memberSigners) then
                  .error (.codec "known history head differs")
                else .ok ()

/-! ## The branch -/

/-- The transitions that a member retained are those of its own branch: there is one for each epoch
    from the first one that is known to its own, and none before. -/
structure Branch (s : HistorySession) (store : HistoryEvidence) (low head : Nat)
    (contexts : Nat → Context) (members : Nat → String → Prop) : Prop where
  persistence : s.persistence = some store
  historyContext : s.historyContext = .ok (contexts head)
  memberSigners : ∀ key, key ∈ s.memberSigners ↔ members head key
  low_le : low ≤ head
  epoch : ∀ e, low ≤ e → e ≤ head → (contexts e).epoch = e
  groupId : ∀ e, low ≤ e → e ≤ head → (contexts e).groupId = (contexts head).groupId
  transition : ∀ e, low ≤ e → e < head → ∃ t, store.transitionAt s.groupId e = .ok (some t) ∧
    t.prior = contexts e ∧ t.next = contexts (e + 1) ∧
    (∀ key, key ∈ t.previousMemberKeys ↔ members e key) ∧
    ∀ key, key ∈ t.nextMemberKeys ↔ members (e + 1) key
  first : 0 < low → store.transitionAt s.groupId (low - 1) = .ok none

variable {s} {store : HistoryEvidence} {low head : Nat} {contexts : Nat → Context}
  {members : Nat → String → Prop} {start at_ : Context} {key : String}

/-- The branch is gone back over to its start, or as far as one looks. -/
theorem earliestFrom_eq (h : Branch s store low head contexts members) (n : Nat) {e : Nat}
    (hlow : low ≤ e) (hhead : e ≤ head) {found : List String}
    (hfound : ∀ key, key ∈ found ↔ members e key) :
    ∃ found', s.earliestFrom store n (contexts e, found) =
      .ok (contexts (max low (e - n)), found') ∧
        ∀ key, key ∈ found' ↔ members (max low (e - n)) key := by
  induction n generalizing e found with
  | zero =>
    rw [Nat.sub_zero, max_eq_right hlow]
    exact ⟨found, rfl, hfound⟩
  | succ n ih =>
    rw [earliestFrom, h.epoch e hlow hhead]
    by_cases hzero : e = 0
    · rw [if_pos hzero]
      have hmax : max low (e - (n + 1)) = e := by omega
      rw [hmax]
      exact ⟨found, rfl, hfound⟩
    · rw [if_neg hzero]
      rcases hlow.eq_or_lt with rfl | hlt
      · -- there is no transition before the first context
        rw [h.first (Nat.pos_of_ne_zero hzero)]
        have hmax : max low (low - (n + 1)) = low := by omega
        rw [hmax]
        exact ⟨found, rfl, hfound⟩
      · obtain ⟨t, ht, hprior, hnext, hprevious, -⟩ := h.transition (e - 1) (by omega) (by omega)
        have hsucc : e - 1 + 1 = e := Nat.sub_add_cancel (Nat.pos_of_ne_zero hzero)
        rw [hsucc] at hnext
        have hepoch : t.prior.epoch = e - 1 := by rw [hprior, h.epoch _ (by omega) (by omega)]
        have hmax : max low (e - (n + 1)) = max low (e - 1 - n) := by
          rw [Nat.sub_sub, Nat.add_comm 1 n]
        rw [ht]
        dsimp only
        rw [if_neg (by simp [hnext, hepoch]), hprior, hmax]
        exact ih (by omega) (by omega) hprevious

/-- The first context that is known is that of the branch, or of the last epochs. -/
theorem earliestHistoryContext_eq (h : Branch s store low head contexts members) :
    ∃ found, s.earliestHistoryContext = .ok (contexts (max low (head - maxEpochs)), found) ∧
      ∀ key, key ∈ found ↔ members (max low (head - maxEpochs)) key := by
  rw [earliestHistoryContext, h.historyContext, h.persistence]
  exact earliestFrom_eq h maxEpochs h.low_le le_rfl h.memberSigners

/-- The walk ends at the own state if the key was a member in all epochs up to the time of the
    record, and the context of the record is on the branch. -/
theorem followBranch_ok_iff (h : Branch s store low head contexts members) {e : Nat}
    (hlow : low ≤ e) (hhead : e ≤ head) (cursor : Context) :
    s.followBranch store (contexts head) at_ key (contexts e) = .ok cursor ↔
      cursor = contexts head ∧ ∀ i, e ≤ i → i < head →
        (i ≤ at_.epoch → members i key) ∧ (i + 1 ≤ at_.epoch → members (i + 1) key) ∧
          (i = at_.epoch → at_ = contexts i) := by
  have hheadEpoch : (contexts head).epoch = head := h.epoch head h.low_le le_rfl
  induction hdist : head - e generalizing e with
  | zero =>
    obtain rfl : e = head := by omega
    rw [followBranch, if_neg (lt_irrefl _)]
    constructor
    · intro heq
      exact ⟨(Except.ok.inj heq).symm, fun i hi hlt => absurd hlt (not_lt.2 hi)⟩
    · rintro ⟨rfl, -⟩
      rfl
  | succ n ih =>
    have hlt : e < head := by omega
    obtain ⟨t, ht, hprior, hnext, hprevious, hnextKeys⟩ := h.transition e hlow hlt
    have hepoch : (contexts e).epoch = e := h.epoch e hlow hhead
    have hnextEpoch : t.next.epoch = e + 1 := by rw [hnext, h.epoch _ (by omega) hlt]
    have hnextGroup : t.next.groupId = (contexts head).groupId := by
      rw [hnext, h.groupId _ (by omega) hlt]
    have hrest := ih (e := e + 1) (by omega) hlt (by omega)
    have hfirst : ∀ P : Nat → Prop,
        (∀ i, e ≤ i → i < head → P i) ↔ P e ∧ ∀ i, e + 1 ≤ i → i < head → P i := by
      intro P
      refine ⟨fun hall => ⟨hall e le_rfl hlt, fun i hi => hall i (by omega)⟩, ?_⟩
      rintro ⟨hnow, hlater⟩ i hi
      rcases hi.eq_or_lt with rfl | hi
      · exact fun _ => hnow
      · exact hlater i hi
    rw [followBranch, if_pos (by rw [hepoch, hheadEpoch]; exact hlt), hepoch, ht]
    dsimp only
    rw [hfirst]
    by_cases hmember : (e ≤ at_.epoch → members e key) ∧
        (e + 1 ≤ at_.epoch → members (e + 1) key)
    · have hgood : ¬ (t.prior ≠ contexts e ∨ t.next.epoch ≠ e + 1 ∨
          t.next.groupId ≠ (contexts head).groupId ∨
          e ≤ at_.epoch ∧ key ∉ t.previousMemberKeys ∨
          t.next.epoch ≤ at_.epoch ∧ key ∉ t.nextMemberKeys) := by
        rw [hnextEpoch, hprevious, hnextKeys]
        simp only [hprior, hnextGroup, ne_eq, not_true_eq_false, false_or, not_or, not_and,
          not_not]
        exact hmember
      rw [dif_neg hgood]
      by_cases hat : e = at_.epoch ∧ contexts e ≠ at_
      · -- the context of the record is another one of its epoch
        rw [if_pos hat]
        refine iff_of_false nofun ?_
        rintro ⟨-, ⟨-, -, hon⟩, -⟩
        exact hat.2 (hon hat.1).symm
      · rw [if_neg hat, hnext]
        refine hrest.trans ?_
        have hon : e = at_.epoch → at_ = contexts e := fun heq =>
          (not_not.1 fun hne => hat ⟨heq, hne⟩).symm
        exact and_congr_right fun _ =>
          ⟨fun hlater => ⟨⟨hmember.1, hmember.2, hon⟩, hlater⟩, fun hall => hall.2⟩
    · have hbad : t.prior ≠ contexts e ∨ t.next.epoch ≠ e + 1 ∨
          t.next.groupId ≠ (contexts head).groupId ∨
          e ≤ at_.epoch ∧ key ∉ t.previousMemberKeys ∨
          t.next.epoch ≤ at_.epoch ∧ key ∉ t.nextMemberKeys := by
        rw [hnextEpoch, hprevious, hnextKeys]
        simp only [not_and_or, Classical.not_imp] at hmember
        exact .inr (.inr (.inr hmember))
      rw [dif_pos hbad]
      refine iff_of_false nofun ?_
      rintro ⟨-, ⟨hnow, hlater, -⟩, -⟩
      exact hmember ⟨hnow, hlater⟩

/-- The walk does not start at a context that is not on the branch. -/
theorem followBranch_off (h : Branch s store low head contexts members) {cursor : Context}
    (hlow : low ≤ cursor.epoch) (hhead : cursor.epoch < head)
    (hoff : cursor ≠ contexts cursor.epoch) (result : Context) :
    s.followBranch store (contexts head) at_ key cursor ≠ .ok result := by
  obtain ⟨t, ht, hprior, -⟩ := h.transition cursor.epoch hlow hhead
  have hbad : t.prior ≠ cursor := fun heq => hoff (heq ▸ hprior)
  rw [followBranch, if_pos (by rw [h.epoch head h.low_le le_rfl]; exact hhead), ht]
  dsimp only
  rw [dif_pos (.inl hbad)]
  exact nofun

/-- From a context of the branch on, all epochs up to that of the record are checked. -/
theorem followed_ok_iff (key : String) (h : Branch s store low head contexts members) {known e : Nat}
    {found : List String} (hlow : low ≤ known) (hknown : known ≤ e) (hpast : e ≤ at_.epoch)
    (hhead : at_.epoch ≤ head) (hfound : ∀ key, key ∈ found ↔ members known key) :
    (if at_.epoch < (contexts e).epoch ∨ contexts e = contexts known ∧ key ∉ found then
        .error (.codec "record precedes verified membership")
      else
        match s.followBranch store (contexts head) at_ key (contexts e) with
        | .error e => .error e
        | .ok cursor =>
          if cursor ≠ contexts head ∨
              at_.epoch = head ∧ (at_ ≠ contexts head ∨ key ∉ s.memberSigners) then
            .error (.codec "known history head differs")
          else .ok () : Except PrivateGroupError Unit) = .ok () ↔
      at_ = contexts at_.epoch ∧ ∀ i, e ≤ i → i ≤ at_.epoch → members i key := by
  have hepoch : ∀ i, low ≤ i → i ≤ head → (contexts i).epoch = i := h.epoch
  rw [hepoch e (by omega) (by omega)]
  constructor
  · intro hok
    split at hok
    · cases hok
    split at hok
    · cases hok
    next cursor hcursor =>
      obtain ⟨rfl, hall⟩ := (followBranch_ok_iff h (by omega) (by omega) cursor).1 hcursor
      split at hok
      · cases hok
      next hlast =>
        simp only [ne_eq, not_true_eq_false, false_or, not_and_or, not_or, not_not] at hlast
        -- the last epoch of the branch has no transition, and is compared with the own state
        refine ⟨?_, fun i hi hle => ?_⟩
        · rcases hhead.lt_or_eq with hlt | heq
          · exact (hall _ hpast hlt).2.2 rfl
          · rw [heq]
            exact (hlast.resolve_left fun hne => hne heq).1
        · rcases (hle.trans hhead).lt_or_eq with hlt | rfl
          · exact (hall i hi hlt).1 hle
          · exact (h.memberSigners key).1 (hlast.resolve_left fun hne => hne (by omega)).2
  · rintro ⟨hat, hmembers⟩
    have hstarts : ¬ (at_.epoch < e ∨ contexts e = contexts known ∧ key ∉ found) := by
      rintro (hlt | ⟨heq, hnot⟩)
      · omega
      · have hsame : e = known := by
          have hepochs := congrArg MlsHistoryContext.epoch heq
          rwa [hepoch e (by omega) (by omega), hepoch known hlow (by omega)] at hepochs
        exact hnot ((hfound key).2 (hsame ▸ hmembers e le_rfl hpast))
    have hwalk : s.followBranch store (contexts head) at_ key (contexts e) =
        .ok (contexts head) :=
      (followBranch_ok_iff h (by omega) (by omega) _).2 ⟨rfl, fun i hi _ =>
        ⟨fun hle => hmembers i hi hle, fun hle => hmembers (i + 1) (by omega) hle,
          fun heq => heq ▸ hat⟩⟩
    rw [if_neg hstarts, hwalk]
    dsimp only
    rw [if_neg]
    rintro (hne | ⟨heq, hne | hnot⟩)
    · exact hne rfl
    · exact hne (heq ▸ hat)
    · exact hnot ((h.memberSigners key).2 (heq ▸ hmembers _ hpast le_rfl))

/-- On a branch, membership in the past is decided by its contexts and their members. -/
theorem continuousMembership_ok_iff (h : Branch s store low head contexts members)
    (hstart : start.groupId = (contexts head).groupId) (hat : at_.groupId = (contexts head).groupId)
    (hearliest : max low (head - maxEpochs) ≤ at_.epoch)
    (hspan : head - start.epoch ≤ maxEpochs) :
    s.continuousMembership start at_ key = .ok () ↔
      (low ≤ start.epoch → start = contexts start.epoch) ∧ at_ = contexts at_.epoch ∧
        start.epoch ≤ at_.epoch ∧ at_.epoch ≤ head ∧
        ∀ e, max low start.epoch ≤ e → e ≤ at_.epoch → members e key := by
  have hheadEpoch : (contexts head).epoch = head := h.epoch head h.low_le le_rfl
  obtain ⟨found, hknown, hfound⟩ := earliestHistoryContext_eq h
  have hlow := h.low_le
  set known := max low (head - maxEpochs) with hknownEq
  have hknownEpoch : (contexts known).epoch = known := h.epoch known (by omega) (by omega)
  rw [continuousMembership, h.historyContext, h.persistence, hknown]
  dsimp only
  rw [hheadEpoch, hknownEpoch]
  by_cases hinterval : start.epoch ≤ at_.epoch ∧ at_.epoch ≤ head
  swap
  · rw [if_pos (by simp only [hstart, hat, ne_eq, not_true_eq_false, false_or]; omega)]
    refine iff_of_false nofun ?_
    rintro ⟨-, -, hle, hle', -⟩
    exact hinterval ⟨hle, hle'⟩
  obtain ⟨horder, hpast⟩ := hinterval
  rw [if_neg (by simp only [hstart, hat, ne_eq, not_true_eq_false, false_or]; omega),
    if_neg (by omega)]
  by_cases hbefore : start.epoch < known
  · -- the interval starts before the branch, which is not so long that its start is not known
    have hmax : max low start.epoch = known := by omega
    rw [if_pos hbefore, hmax,
      followed_ok_iff key h (by omega) le_rfl hearliest hpast hfound]
    constructor
    · rintro ⟨hon, hall⟩
      exact ⟨fun hle => absurd hle (by omega), hon, horder, hpast, hall⟩
    · rintro ⟨-, hon, -, -, hall⟩
      exact ⟨hon, hall⟩
  · have hmax : max low start.epoch = start.epoch := by omega
    rw [if_neg hbefore, hmax]
    by_cases hon : start = contexts start.epoch
    · have hfollowed := followed_ok_iff key h (show low ≤ known by omega) (not_lt.1 hbefore) horder
        hpast hfound
      rw [← hon] at hfollowed
      refine hfollowed.trans ?_
      constructor
      · rintro ⟨hat, hall⟩
        exact ⟨fun _ => hon, hat, horder, hpast, hall⟩
      · rintro ⟨-, hat, -, -, hall⟩
        exact ⟨hat, hall⟩
    · refine iff_of_false (fun hok => ?_) fun hall => hon (hall.1 (by omega))
      split at hok
      · cases hok
      split at hok
      · cases hok
      next cursor hcursor =>
        rcases (horder.trans hpast).lt_or_eq with hlt | heq
        · exact followBranch_off h (by omega) hlt hon cursor hcursor
        · -- the context is another one of the last epoch
          rw [followBranch, if_neg (by omega)] at hcursor
          obtain rfl := Except.ok.inj hcursor
          rw [if_pos (.inl (heq ▸ hon))] at hok
          cases hok

/-- Membership in the past is decided exactly: on the branch that is retained, a key counts from one
    context to another one if these are the branch's own and the key was a member in every epoch
    between them that is known. What happens to the branch after the second one does not matter. -/
theorem continuous_membership (h : Branch s store low head contexts members) {known : Context}
    {found : List String} (hknown : s.earliestHistoryContext = .ok (known, found))
    (hstart : start.groupId = (contexts head).groupId)
    (hat : at_.groupId = (contexts head).groupId) (hearliest : known.epoch ≤ at_.epoch)
    (hspan : head - start.epoch ≤ maxEpochs) :
    (s.continuousMembership start at_ key = .ok () ↔
      (known.epoch ≤ start.epoch → start = contexts start.epoch) ∧ at_ = contexts at_.epoch ∧
        start.epoch ≤ at_.epoch ∧ at_.epoch ≤ head ∧
        ∀ e, max start.epoch known.epoch ≤ e → e ≤ at_.epoch → members e key) ∧
    ∀ (s' : HistorySession) (store' : HistoryEvidence) (head' : Nat) (contexts' : Nat → Context)
      (members' : Nat → String → Prop), Branch s' store' low head' contexts' members' →
      at_.epoch ≤ head → at_.epoch ≤ head' → head' - start.epoch ≤ maxEpochs →
      head' - maxEpochs ≤ at_.epoch → (contexts' head').groupId = (contexts head).groupId →
      (∀ e, low ≤ e → e ≤ at_.epoch →
        contexts' e = contexts e ∧ ∀ key, members' e key ↔ members e key) →
      (s'.continuousMembership start at_ key = .ok () ↔
        s.continuousMembership start at_ key = .ok ()) := by
  obtain ⟨found', heq, -⟩ := earliestHistoryContext_eq h
  have hlow := h.low_le
  have hepoch : known.epoch = max low (head - maxEpochs) := by
    rw [hknown] at heq
    obtain rfl := (Prod.mk.inj (Except.ok.inj heq)).1
    exact h.epoch _ (by omega) (by omega)
  have hok : s.continuousMembership start at_ key = .ok () ↔ _ :=
    continuousMembership_ok_iff h hstart hat (by omega) hspan
  refine ⟨hok.trans ?_, fun s' store' head' contexts' members' h' hpast hpast' hspan' hknown' hgroup
    hsame => ?_⟩
  · have hmax : max start.epoch known.epoch = max low start.epoch := by omega
    have hfrom : known.epoch ≤ start.epoch ↔ low ≤ start.epoch := by omega
    rw [hmax, hfrom]
  · have hok' : s'.continuousMembership start at_ key = .ok () ↔ _ :=
      continuousMembership_ok_iff h' (hstart.trans hgroup.symm) (hat.trans hgroup.symm) (by omega)
        hspan'
    rw [hok, hok']
    have hmembers : (∀ e, max low start.epoch ≤ e → e ≤ at_.epoch → members' e key) ↔
        ∀ e, max low start.epoch ≤ e → e ≤ at_.epoch → members e key :=
      forall_congr' fun e => forall_congr' fun hle => forall_congr' fun hle' =>
        (hsame e (by omega) hle').2 key
    rw [hmembers, (hsame at_.epoch (by omega) le_rfl).1]
    constructor
    · rintro ⟨hstarts, hon, horder, -, hall⟩
      exact ⟨fun hle => (hsame start.epoch hle horder).1 ▸ hstarts hle, hon, horder, hpast, hall⟩
    · rintro ⟨hstarts, hon, horder, -, hall⟩
      exact ⟨fun hle => (hsame start.epoch hle horder).1.symm ▸ hstarts hle, hon, horder, hpast',
        hall⟩

/-! ## A member who was removed -/

/-- The contexts of a small group. -/
def smallContext (e : Nat) : Context := ⟨[7], e, toString e⟩

/-- Bob was a member in the first epoch that is known. -/
def SmallMember (e : Nat) (key : String) : Prop := key = "anna" ∨ e = 1 ∧ key = "bob"

/-- The transition out of the first epoch is retained. -/
def smallEvidence : HistoryEvidence where
  sha256Hex group := group
  get key :=
    if key = "group/small/transition/00000000000000000001" then .ok (some [1]) else .ok none
  transition _ := .ok ⟨smallContext 1, smallContext 2, ["anna", "bob"], ["anna"]⟩
  context _ := .error (.codec "none is retained")

def smallSession : HistorySession where
  groupId := "small"
  historyContext := .ok (smallContext 2)
  memberSigners := ["anna"]
  persistence := some smallEvidence

theorem smallBranch : Branch smallSession smallEvidence 1 2 smallContext SmallMember where
  persistence := rfl
  historyContext := rfl
  memberSigners key := by simp [smallSession, SmallMember]
  low_le := by decide
  epoch _ _ _ := rfl
  groupId _ _ _ := rfl
  transition e hlow hhead := by
    obtain rfl : e = 1 := by omega
    have hkey : "group/" ++ "small" ++ "/transition/" ++
        String.ofList ((toString 1).toList.leftpad 20 '0') =
          "group/small/transition/00000000000000000001" := by decide +kernel
    refine ⟨⟨smallContext 1, smallContext 2, ["anna", "bob"], ["anna"]⟩, ?_, rfl, rfl, ?_, ?_⟩
    · change smallEvidence.groupHistoryEvidence _ ("group/" ++ "small" ++ "/transition/" ++
        String.ofList ((toString 1).toList.leftpad 20 '0')) = _
      rw [hkey]
      rfl
    · simp [SmallMember]
    · simp [SmallMember]
  first _ := by
    have hkey : "group/" ++ "small" ++ "/transition/" ++
        String.ofList ((toString 0).toList.leftpad 20 '0') =
          "group/small/transition/00000000000000000000" := by decide +kernel
    change smallEvidence.groupHistoryEvidence _ ("group/" ++ "small" ++ "/transition/" ++
      String.ofList ((toString 0).toList.leftpad 20 '0')) = _
    rw [hkey]
    rfl

/-- Bob's record of the epoch before he was removed still counts. -/
theorem continuous_membership_bob :
    smallSession.continuousMembership (smallContext 1) (smallContext 1) "bob" = .ok () := by
  obtain ⟨found, hknown, -⟩ := earliestHistoryContext_eq smallBranch
  have hgroup : (smallContext 1).groupId = (smallContext 2).groupId := rfl
  refine (continuous_membership smallBranch hknown hgroup hgroup (by decide) (by decide)).1.2
    ⟨fun _ => rfl, rfl, le_rfl, by decide, fun e hlow hhead => .inr ⟨?_, rfl⟩⟩
  have hge : 1 ≤ e := hlow
  have hle : e ≤ 1 := hhead
  omega

end HistorySession

end Mosh.Group.History
