import Mosh.Library.Table
import Mosh.Org.Offers

/-!
# Offers in memory and on disk

The session of an organization may lag behind its record, because a transaction of a conversation
retires offers on disk without it.

* `writeOrgRecord_spec`, `retireCompletedAcceptances_spec`: what the two owners leave in the record;
* `Agrees`: memory lags behind only in what was retired;
* `Orderly`: what is shown of a session is shown once, and is the offer of its acceptance;
* `buildSession_spec`: a session that is started again agrees, and shows every acceptance;
* `getElem?_write`, `Consistent.commitOffer`, `Consistent.persistRecord`: what a stale session
  writes.
-/

namespace Mosh.Org.Offers

open Checked
open Std (ExtTreeMap)

variable (p : Platform)

/-! ## What is written -/

section Written

variable {p} {native : Native} {only : Option (Rows × String)}
  {rows : List (String × PendingAcceptance)} {completed : List String}
  {record next : PersistedOrgRecord} {id : String} {changed : Bool}

theorem getElem?_retain (t : ExtTreeMap String PendingAcceptance compare) (P : String → Prop)
    [DecidablePred P] (id : String) :
    (t.filter fun id _ => P id)[id]? = if P id then t[id]? else none := by
  rw [ExtTreeMap.getElem?_filter']
  by_cases h : P id
  · cases t[id]? <;> simp [h]
  · simp [h]

/-- The conversation of an acceptance is durable. -/
def Durable (p : Platform) (native : Native) (pending : PendingAcceptance) : Prop :=
  nativeAcceptanceIsDurable p native pending = .ok true

theorem mem_completedAcceptances (h : completedAcceptances p native only rows = .ok completed) :
    id ∈ completed ↔ ∃ pending, (id, pending) ∈ rows ∧
      (only.all fun (table, conversation) => pending.matchesNative table conversation) = true ∧
        Durable p native pending := by
  induction rows generalizing completed with
  | nil =>
    obtain rfl := Except.ok.inj h
    simp
  | cons row rest ih =>
    obtain ⟨id', pending'⟩ := row
    rw [completedAcceptances] at h
    split at h
    · next hother =>
      -- The row is of another conversation.
      rw [ih h]
      refine exists_congr fun pending => ?_
      rw [List.mem_cons]
      constructor
      · rintro ⟨hmem, hrest⟩
        exact ⟨.inr hmem, hrest⟩
      · rintro ⟨heq | hmem, hall, hdurable⟩
        · obtain ⟨rfl, rfl⟩ := Prod.mk.inj heq
          cases only with
          | none => simp at hother
          | some only => simp_all
        · exact ⟨hmem, hall, hdurable⟩
    · next hown =>
      simp only [bind_eq_ok] at h
      obtain ⟨durable, hdurable, others, hothers, h⟩ := h
      obtain rfl := Except.ok.inj h
      have hall : (only.all fun (table, conversation) =>
          pending'.matchesNative table conversation) = true := by
        cases only with
        | none => rfl
        | some only => simpa using hown
      have hrest := ih hothers
      cases durable with
      | true =>
        rw [if_pos rfl, List.mem_cons, hrest]
        constructor
        · rintro (rfl | ⟨pending, hmem, h⟩)
          · exact ⟨pending', List.mem_cons_self, hall, hdurable⟩
          · exact ⟨pending, List.mem_cons_of_mem _ hmem, h⟩
        · rintro ⟨pending, hmem, h⟩
          rcases List.mem_cons.1 hmem with heq | hmem
          · exact .inl (Prod.mk.inj heq).1
          · exact .inr ⟨pending, hmem, h⟩
      | false =>
        rw [if_neg (by decide), hrest]
        constructor
        · rintro ⟨pending, hmem, h⟩
          exact ⟨pending, List.mem_cons_of_mem _ hmem, h⟩
        · rintro ⟨pending, hmem, h, hyes⟩
          rcases List.mem_cons.1 hmem with heq | hmem
          · obtain ⟨-, rfl⟩ := Prod.mk.inj heq
            cases Except.ok.inj (hdurable.symm.trans hyes)
          · exact ⟨pending, hmem, h, hyes⟩

/-- What is retired was pending and durable, and the rest stays. -/
theorem retireCompletedAcceptances_spec
    (hdisjoint : ∀ id ∈ record.resolvedOfferIds, record.pendingAcceptances[id]? = none)
    (h : retireCompletedAcceptances p native record only = .ok (next, changed)) (id : String) :
    (id ∈ next.resolvedOfferIds ↔ id ∈ record.resolvedOfferIds ∨
      ∃ pending, record.pendingAcceptances[id]? = some pending ∧
        (only.all fun (table, conversation) => pending.matchesNative table conversation) = true ∧
          Durable p native pending) ∧
      next.pendingAcceptances[id]? =
        if id ∈ next.resolvedOfferIds then none else record.pendingAcceptances[id]? := by
  rw [retireCompletedAcceptances, bind_eq_ok] at h
  obtain ⟨completed, hcompleted, h⟩ := h
  obtain ⟨rfl, -⟩ := Prod.mk.inj (Except.ok.inj h)
  have hmem : id ∈ completed ↔ _ := mem_completedAcceptances hcompleted
  simp only [ExtTreeMap.mem_toList_iff_getElem?_eq_some] at hmem
  simp only [Finset.mem_union, List.mem_toFinset]
  refine ⟨or_congr Iff.rfl hmem, ?_⟩
  rw [ExtTreeMap.getElem?_filter']
  rcases hrow : record.pendingAcceptances[id]? with - | pending
  · simp
  · have hopen : id ∉ record.resolvedOfferIds := fun hres => by
      rw [hdisjoint id hres] at hrow
      cases hrow
    simp [hopen, Option.filter_some]

/-- The record that is written has what memory had and what was stored, except for what is
    resolved. -/
theorem writeOrgRecord_spec {stored : Option PersistedOrgRecord} {candidate : PersistedOrgRecord}
    (h : writeOrgRecord p native stored candidate = .ok next) (id : String) :
    (id ∈ next.resolvedOfferIds ↔ id ∈ candidate.resolvedOfferIds ∨
      (∃ record, stored = some record ∧ id ∈ record.resolvedOfferIds) ∨
      ∃ pending, (candidate.pendingAcceptances[id]?).or
          (stored.bind (·.pendingAcceptances[id]?)) = some pending ∧ Durable p native pending) ∧
      next.pendingAcceptances[id]? =
        if id ∈ next.resolvedOfferIds then none
        else (candidate.pendingAcceptances[id]?).or (stored.bind (·.pendingAcceptances[id]?)) := by
  rw [writeOrgRecord] at h
  simp only [bind_eq_ok] at h
  obtain ⟨⟨record, changed⟩, hretire, h⟩ := h
  obtain rfl := Except.ok.inj h
  generalize hmerged : (stored.elim candidate fun stored =>
    { candidate with
      resolvedOfferIds := candidate.resolvedOfferIds ∪ stored.resolvedOfferIds
      pendingAcceptances := stored.pendingAcceptances ∪ candidate.pendingAcceptances }) = merged
      at hretire
  have hresolved : id ∈ merged.resolvedOfferIds ↔ id ∈ candidate.resolvedOfferIds ∨
      ∃ record, stored = some record ∧ id ∈ record.resolvedOfferIds := by
    rw [← hmerged]
    cases stored <;> simp
  have hpending : merged.pendingAcceptances[id]? =
      (candidate.pendingAcceptances[id]?).or (stored.bind (·.pendingAcceptances[id]?)) := by
    rw [← hmerged]
    cases stored with
    | none => simp
    | some stored => exact ExtTreeMap.getElem?_union
  rw [← hpending]
  have hrow (id : String) : (merged.pendingAcceptances.filter fun id _ =>
      id ∉ merged.resolvedOfferIds)[id]? =
        if id ∈ merged.resolvedOfferIds then none else merged.pendingAcceptances[id]? := by
    rw [getElem?_retain, ite_not]
  have hdisjoint : ∀ id ∈ merged.resolvedOfferIds,
      (merged.pendingAcceptances.filter fun id _ => id ∉ merged.resolvedOfferIds)[id]? = none :=
    fun id hmem => (hrow id).trans (if_pos hmem)
  obtain ⟨hiff, hnext⟩ := retireCompletedAcceptances_spec hdisjoint hretire id
  simp only [hrow] at hiff hnext
  by_cases hmem : id ∈ merged.resolvedOfferIds
  · have hin : id ∈ record.resolvedOfferIds := hiff.2 (.inl hmem)
    rw [if_pos hmem, ite_self] at hnext
    rw [if_pos hin]
    exact ⟨iff_of_true hin (or_assoc.1 (.inl (hresolved.1 hmem))), hnext⟩
  · rw [if_neg hmem] at hiff hnext
    refine ⟨?_, hnext⟩
    rw [hiff, hresolved, or_assoc]
    simp

end Written

/-! ## Memory and disk -/

/-- The conversation an invitation is for. -/
def Platform.conversationOf : PendingAcceptance → Option String
  | .dm _ _ offer _ => p.sessionOf offer.inviteUri
  | .group _ _ offer _ => p.groupOf offer.groupInviteUri

/-- An acceptance is filed under its offer, and joins the conversation of the invitation. -/
structure Keyed (id : String) (pending : PendingAcceptance) : Prop where
  offerId : pending.offerId = id
  conversation : p.conversationOf pending = some pending.conversationId

/-- Nothing in the record is both pending and resolved. -/
structure Sound (record : PersistedOrgRecord) : Prop where
  disjoint : ∀ id ∈ record.resolvedOfferIds, record.pendingAcceptances[id]? = none
  keyed : ∀ (id : String) pending, record.pendingAcceptances[id]? = some pending →
    Keyed p id pending

/-- Memory lags behind the record only in what was retired on disk. -/
structure Agrees (s : OrgSession) (record : PersistedOrgRecord) : Prop where
  resolved : s.resolvedOfferIds ⊆ record.resolvedOfferIds
  known : ∀ id ∈ record.resolvedOfferIds,
    id ∈ s.resolvedOfferIds ∨ (s.pendingAcceptances[id]?).isSome
  same : ∀ id ∉ record.resolvedOfferIds,
    s.pendingAcceptances[id]? = record.pendingAcceptances[id]?

/-- An offer is shown once, was seen, is not known to be resolved, and is the offer of its
    acceptance if it has one. -/
structure Orderly (s : OrgSession) : Prop where
  pruned : ∀ id ∈ s.resolvedOfferIds, s.pendingAcceptances[id]? = none
  keyed : ∀ (id : String) pending, s.pendingAcceptances[id]? = some pending → Keyed p id pending
  seen : ∀ (id : String) pending, s.pendingAcceptances[id]? = some pending → id ∈ s.seenOfferIds
  nodup : s.offerIds.Nodup
  offered : ∀ id ∈ s.offerIds, id ∈ s.seenOfferIds ∧ id ∉ s.resolvedOfferIds
  dm : ∀ offer ∈ s.dmOffers, ∀ pending, s.pendingAcceptances[offer.offerId]? = some pending →
    ∃ conversation signer recovery, pending = .dm conversation signer offer recovery
  group : ∀ offer ∈ s.groupOffers, ∀ pending,
    s.pendingAcceptances[offer.offerId]? = some pending →
      ∃ conversation signer recovery, pending = .group conversation signer offer recovery

structure Consistent (d : Device) : Prop where
  record : ∀ record, d.record = some record → Sound p record
  session : ∀ s, d.session = some s →
    Orderly p s ∧ ∃ record, d.record = some record ∧ Agrees s record

section Memory

variable {p} {s : OrgSession} {ids : Finset String} {record : PersistedOrgRecord} {id : String}

theorem mem_offerIds : id ∈ s.offerIds ↔
    (∃ offer ∈ s.dmOffers, offer.offerId = id) ∨ ∃ offer ∈ s.groupOffers, offer.offerId = id := by
  rw [OrgSession.offerIds, List.mem_append, List.mem_map, List.mem_map]

/-- What is pruned of what is shown. -/
theorem offerIds_prune : s.pruneResolvedAcceptances.offerIds =
    s.offerIds.filter fun id => id ∉ s.resolvedOfferIds := by
  rw [OrgSession.offerIds, OrgSession.offerIds, List.filter_append, List.filter_map,
    List.filter_map]
  rfl

theorem getElem?_prune : s.pruneResolvedAcceptances.pendingAcceptances[id]? =
    if id ∈ s.resolvedOfferIds then none else s.pendingAcceptances[id]? := by
  rw [OrgSession.pruneResolvedAcceptances, getElem?_retain, ite_not]

theorem offerIds_withoutOffer : (s.withoutOffer id).offerIds = s.offerIds.filter (· ≠ id) := by
  rw [OrgSession.offerIds, OrgSession.offerIds, List.filter_append, List.filter_map,
    List.filter_map]
  rfl

/-- What is left of an orderly session when more is known to be resolved. -/
theorem orderly_prune (hkeyed : ∀ (id : String) pending,
      s.pendingAcceptances[id]? = some pending → Keyed p id pending)
    (hseen : ∀ (id : String) pending, s.pendingAcceptances[id]? = some pending →
      id ∈ s.seenOfferIds)
    (hnodup : s.offerIds.Nodup) (hoffered : ∀ id ∈ s.offerIds, id ∈ s.seenOfferIds)
    (hdm : ∀ offer ∈ s.dmOffers, ∀ pending, s.pendingAcceptances[offer.offerId]? = some pending →
      ∃ conversation signer recovery, pending = .dm conversation signer offer recovery)
    (hgroup : ∀ offer ∈ s.groupOffers, ∀ pending,
      s.pendingAcceptances[offer.offerId]? = some pending →
        ∃ conversation signer recovery, pending = .group conversation signer offer recovery) :
    Orderly p s.pruneResolvedAcceptances := by
  have hpending {id : String} {pending : PendingAcceptance}
      (h : s.pruneResolvedAcceptances.pendingAcceptances[id]? = some pending) :
      s.pendingAcceptances[id]? = some pending := by
    rw [getElem?_prune] at h
    split at h
    · cases h
    · exact h
  constructor
  · intro id hid
    exact getElem?_prune.trans (if_pos hid)
  · exact fun id pending h => hkeyed id pending (hpending h)
  · exact fun id pending h => hseen id pending (hpending h)
  · rw [offerIds_prune]
    exact hnodup.filter _
  · intro id hid
    rw [offerIds_prune, List.mem_filter, decide_eq_true_eq] at hid
    exact ⟨hoffered id hid.1, hid.2⟩
  · intro offer hoffer pending h
    exact hdm offer (List.mem_filter.1 hoffer).1 pending (hpending h)
  · intro offer hoffer pending h
    exact hgroup offer (List.mem_filter.1 hoffer).1 pending (hpending h)

theorem Orderly.extendResolved (h : Orderly p s) : Orderly p (s.extendResolved ids) :=
  orderly_prune h.keyed h.seen h.nodup (fun id hid => (h.offered id hid).1) h.dm h.group

/-- A session without one of its offers, of which the acceptance may have changed. -/
theorem Orderly.adoptRecord (h : Orderly p s) (hsound : Sound p record)
    (hid : id ∈ s.seenOfferIds)
    (hsame : ∀ other ≠ id, ∀ pending, record.pendingAcceptances[other]? = some pending →
      s.pendingAcceptances[other]? = some pending) :
    Orderly p ((s.adoptRecord record).withoutOffer id) := by
  have heq : (s.adoptRecord record).withoutOffer id = (s.withoutOffer id).adoptRecord record := by
    simp only [OrgSession.adoptRecord, OrgSession.withoutOffer,
      OrgSession.pruneResolvedAcceptances, List.filter_comm]
  rw [heq]
  refine orderly_prune hsound.keyed ?_ ?_ ?_ ?_ ?_
  · intro other pending hpending
    rcases eq_or_ne other id with rfl | hne
    · exact hid
    · exact h.seen other pending (hsame other hne pending hpending)
  · change (s.withoutOffer id).offerIds.Nodup
    rw [offerIds_withoutOffer]
    exact h.nodup.filter _
  · intro other hother
    change other ∈ (s.withoutOffer id).offerIds at hother
    rw [offerIds_withoutOffer] at hother
    exact (h.offered other (List.mem_filter.1 hother).1).1
  · intro offer hoffer pending hpending
    obtain ⟨hmem, hne⟩ := List.mem_filter.1 hoffer
    exact h.dm offer hmem pending (hsame _ (of_decide_eq_true hne) pending hpending)
  · intro offer hoffer pending hpending
    obtain ⟨hmem, hne⟩ := List.mem_filter.1 hoffer
    exact h.group offer hmem pending (hsame _ (of_decide_eq_true hne) pending hpending)

/-! ## What is shown -/

theorem showAcceptance_same (pending : PendingAcceptance) :
    (s.showAcceptance pending).pendingAcceptances = s.pendingAcceptances ∧
      (s.showAcceptance pending).resolvedOfferIds = s.resolvedOfferIds ∧
      (s.showAcceptance pending).seenOfferIds = s.seenOfferIds := by
  cases pending <;> exact ⟨rfl, rfl, rfl⟩

theorem offerIds_showAcceptance (pending : PendingAcceptance) :
    (s.showAcceptance pending).offerIds.Perm (pending.offerId :: s.offerIds) := by
  cases pending with
  | dm conversation signer offer recovery =>
    change ((s.dmOffers ++ [offer]).map (·.offerId) ++ s.groupOffers.map (·.offerId)).Perm _
    rw [List.map_append, List.append_assoc]
    exact List.perm_middle
  | group conversation signer offer recovery =>
    change (s.dmOffers.map (·.offerId) ++ (s.groupOffers ++ [offer]).map (·.offerId)).Perm _
    rw [List.map_append, ← List.append_assoc]
    exact List.perm_append_singleton ..

theorem mem_dmOffers_showAcceptance {pending : PendingAcceptance} {offer : OrgDmOfferView}
    (h : offer ∈ (s.showAcceptance pending).dmOffers) : offer ∈ s.dmOffers ∨
      ∃ conversation signer recovery, pending = .dm conversation signer offer recovery := by
  cases pending with
  | dm conversation signer shown recovery =>
    rcases List.mem_append.1 h with h | h
    · exact .inl h
    · obtain rfl := List.mem_singleton.1 h
      exact .inr ⟨_, _, _, rfl⟩
  | group => exact .inl h

theorem mem_groupOffers_showAcceptance {pending : PendingAcceptance} {offer : OrgGroupOfferView}
    (h : offer ∈ (s.showAcceptance pending).groupOffers) : offer ∈ s.groupOffers ∨
      ∃ conversation signer recovery, pending = .group conversation signer offer recovery := by
  cases pending with
  | dm => exact .inl h
  | group conversation signer shown recovery =>
    rcases List.mem_append.1 h with h | h
    · exact .inl h
    · obtain rfl := List.mem_singleton.1 h
      exact .inr ⟨_, _, _, rfl⟩

/-- An offer is shown that was seen, if it is not yet. -/
theorem Orderly.showAcceptance (h : Orderly p s) {pending : PendingAcceptance}
    (hid : pending.offerId = id) (hseen : id ∈ s.seenOfferIds) (hopen : id ∉ s.resolvedOfferIds)
    (hpending : ∀ other, s.pendingAcceptances[id]? = some other → other = pending)
    (hnew : id ∉ s.offerIds) : Orderly p (s.showAcceptance pending) := by
  obtain ⟨hsame, hresolved, hseen'⟩ := showAcceptance_same (s := s) pending
  have hperm := offerIds_showAcceptance (s := s) pending
  rw [hid] at hperm
  constructor
  · rw [hsame, hresolved]
    exact h.pruned
  · rw [hsame]
    exact h.keyed
  · rw [hsame, hseen']
    exact h.seen
  · exact hperm.nodup_iff.2 (List.nodup_cons.2 ⟨hnew, h.nodup⟩)
  · intro other hother
    rw [hseen', hresolved]
    rcases List.mem_cons.1 (hperm.mem_iff.1 hother) with rfl | hother
    · exact ⟨hseen, hopen⟩
    · exact h.offered other hother
  · intro offer hoffer other hother
    rw [hsame] at hother
    rcases mem_dmOffers_showAcceptance hoffer with hoffer | ⟨conversation, signer, recovery, rfl⟩
    · exact h.dm offer hoffer other hother
    · obtain rfl : offer.offerId = id := hid
      exact ⟨conversation, signer, recovery, hpending other hother⟩
  · intro offer hoffer other hother
    rw [hsame] at hother
    rcases mem_groupOffers_showAcceptance hoffer with hoffer | ⟨conversation, signer, recovery, rfl⟩
    · exact h.group offer hoffer other hother
    · obtain rfl : offer.offerId = id := hid
      exact ⟨conversation, signer, recovery, hpending other hother⟩

/-- An id that is seen for the first time. -/
theorem Orderly.see (h : Orderly p s) (id : String) :
    Orderly p { s with seenOfferIds := insert id s.seenOfferIds } where
  pruned := h.pruned
  keyed := h.keyed
  seen id pending hpending := Finset.mem_insert_of_mem (h.seen id pending hpending)
  nodup := h.nodup
  offered id hid := ⟨Finset.mem_insert_of_mem (h.offered id hid).1, (h.offered id hid).2⟩
  dm := h.dm
  group := h.group

/-- An offer that is new is shown. -/
theorem Orderly.showNew (h : Orderly p s) {pending : PendingAcceptance} (hid : pending.offerId = id)
    (hseen : id ∉ s.seenOfferIds) (hopen : id ∉ s.resolvedOfferIds) :
    Orderly p ({ s with seenOfferIds := insert id s.seenOfferIds }.showAcceptance pending) :=
  (h.see id).showAcceptance hid (Finset.mem_insert_self ..) hopen
    (fun other hother => absurd (h.seen id other hother) hseen)
    (fun hmem => hseen (h.offered id hmem).1)

/-- The rest of the session does not matter. -/
theorem Orderly.congr {s' : OrgSession} (h : Orderly p s)
    (hpending : s'.pendingAcceptances = s.pendingAcceptances)
    (hresolved : s'.resolvedOfferIds = s.resolvedOfferIds)
    (hseen : s'.seenOfferIds = s.seenOfferIds) (hdm : s'.dmOffers = s.dmOffers)
    (hgroup : s'.groupOffers = s.groupOffers) : Orderly p s' := by
  have hids : s'.offerIds = s.offerIds := by
    rw [OrgSession.offerIds, OrgSession.offerIds, hdm, hgroup]
  obtain ⟨h₁, h₂, h₃, h₄, h₅, h₆, h₇⟩ := h
  rw [← hpending] at h₁ h₂ h₃ h₆ h₇
  rw [← hresolved] at h₁ h₅
  rw [← hseen] at h₃ h₅
  rw [← hids] at h₄ h₅
  rw [← hdm] at h₆
  rw [← hgroup] at h₇
  exact ⟨h₁, h₂, h₃, h₄, h₅, h₆, h₇⟩

theorem Agrees.congr {s' : OrgSession} (h : Agrees s record)
    (hpending : s'.pendingAcceptances = s.pendingAcceptances)
    (hresolved : s'.resolvedOfferIds = s.resolvedOfferIds) : Agrees s' record := by
  obtain ⟨h₁, h₂, h₃⟩ := h
  rw [← hpending] at h₂ h₃
  rw [← hresolved] at h₁ h₂
  exact ⟨h₁, h₂, h₃⟩

/-- What is shown of acceptances that are restored one after the other. -/
theorem restoreOffer_foldl (rows : List (String × PendingAcceptance)) (s : OrgSession)
    (hrows : ∀ row ∈ rows, row.1 ∉ s.resolvedOfferIds ∧ row.2.offerId = row.1) :
    (rows.foldl .restoreOffer s).pendingAcceptances = s.pendingAcceptances ∧
      (rows.foldl .restoreOffer s).resolvedOfferIds = s.resolvedOfferIds ∧
      (∀ id, id ∈ (rows.foldl .restoreOffer s).seenOfferIds ↔
        id ∈ rows.map (·.1) ∨ id ∈ s.seenOfferIds) ∧
      (rows.foldl .restoreOffer s).offerIds.Perm (rows.map (·.1) ++ s.offerIds) ∧
      (∀ offer ∈ (rows.foldl .restoreOffer s).dmOffers, offer ∈ s.dmOffers ∨
        ∃ conversation signer recovery,
          (offer.offerId, .dm conversation signer offer recovery) ∈ rows) ∧
      ∀ offer ∈ (rows.foldl .restoreOffer s).groupOffers, offer ∈ s.groupOffers ∨
        ∃ conversation signer recovery,
          (offer.offerId, .group conversation signer offer recovery) ∈ rows := by
  induction rows generalizing s with
  | nil => exact ⟨rfl, rfl, by simp, .refl _, fun _ => .inl, fun _ => .inl⟩
  | cons row rows ih =>
    obtain ⟨id, pending⟩ := row
    obtain ⟨hopen, hid⟩ := hrows _ List.mem_cons_self
    have hstep : s.restoreOffer (id, pending) =
        { s with seenOfferIds := insert id s.seenOfferIds }.showAcceptance pending := if_neg hopen
    obtain ⟨hsame, hresolved, hseen⟩ :=
      showAcceptance_same (s := { s with seenOfferIds := insert id s.seenOfferIds }) pending
    have hperm := offerIds_showAcceptance
      (s := { s with seenOfferIds := insert id s.seenOfferIds }) pending
    rw [← hstep] at hsame hresolved hseen hperm
    obtain ⟨hsame', hresolved', hseen', hperm', hdm, hgroup⟩ :=
      ih (s.restoreOffer (id, pending)) fun row hrow => by
        rw [hresolved]
        exact hrows row (List.mem_cons_of_mem _ hrow)
    rw [List.foldl_cons]
    refine ⟨hsame'.trans hsame, hresolved'.trans hresolved, fun other => ?_, ?_, ?_, ?_⟩
    · rw [hseen', hseen, Finset.mem_insert, List.map_cons, List.mem_cons]
      tauto
    · refine hperm'.trans ?_
      rw [List.map_cons, List.cons_append]
      exact ((List.Perm.append_left _ (hperm.trans (.of_eq (congrArg (· :: s.offerIds) hid)))).trans
        List.perm_middle)
    · intro offer hoffer
      rcases hdm offer hoffer with hoffer | ⟨conversation, signer, recovery, hmem⟩
      · rw [hstep] at hoffer
        rcases mem_dmOffers_showAcceptance hoffer with
          hoffer | ⟨conversation, signer, recovery, rfl⟩
        · exact .inl hoffer
        · obtain rfl : offer.offerId = id := hid
          exact .inr ⟨conversation, signer, recovery, List.mem_cons_self⟩
      · exact .inr ⟨conversation, signer, recovery, List.mem_cons_of_mem _ hmem⟩
    · intro offer hoffer
      rcases hgroup offer hoffer with hoffer | ⟨conversation, signer, recovery, hmem⟩
      · rw [hstep] at hoffer
        rcases mem_groupOffers_showAcceptance hoffer with
          hoffer | ⟨conversation, signer, recovery, rfl⟩
        · exact .inl hoffer
        · obtain rfl : offer.offerId = id := hid
          exact .inr ⟨conversation, signer, recovery, List.mem_cons_self⟩
      · exact .inr ⟨conversation, signer, recovery, List.mem_cons_of_mem _ hmem⟩

/-- After a restart, every acceptance is shown once. -/
theorem buildSession_spec (hsound : Sound p record) (ownPeerId : String)
    (roster : Option (List String)) :
    Orderly p (buildSession ownPeerId roster record) ∧
      Agrees (buildSession ownPeerId roster record) record ∧
      ∀ id, id ∈ (buildSession ownPeerId roster record).offerIds ↔
        (record.pendingAcceptances[id]?).isSome := by
  have hrow {id : String} {pending : PendingAcceptance} :
      (id, pending) ∈ record.pendingAcceptances.toList ↔
        record.pendingAcceptances[id]? = some pending :=
    ExtTreeMap.mem_toList_iff_getElem?_eq_some
  have hids (id : String) : id ∈ record.pendingAcceptances.toList.map (·.1) ↔
      (record.pendingAcceptances[id]?).isSome := by
    rw [List.mem_map, Option.isSome_iff_exists]
    constructor
    · rintro ⟨⟨id', pending⟩, hmem, rfl⟩
      exact ⟨pending, hrow.1 hmem⟩
    · rintro ⟨pending, hpending⟩
      exact ⟨(id, pending), hrow.2 hpending, rfl⟩
  have hrows : ∀ row ∈ record.pendingAcceptances.toList,
      row.1 ∉ record.resolvedOfferIds ∧ row.2.offerId = row.1 := by
    rintro ⟨id, pending⟩ hmem
    refine ⟨fun hres => ?_, (hsound.keyed id pending (hrow.1 hmem)).offerId⟩
    have hnone := hsound.disjoint id hres
    rw [hrow.1 hmem] at hnone
    cases hnone
  obtain ⟨hsame, hresolved, hseen, hperm, hdm, hgroup⟩ :=
    restoreOffer_foldl record.pendingAcceptances.toList
      { ownPeerId
        roster
        dmLinks := record.dmLinks
        resolvedOfferIds := record.resolvedOfferIds
        pendingAcceptances := record.pendingAcceptances } hrows
  have hpending : (buildSession ownPeerId roster record).pendingAcceptances =
      record.pendingAcceptances := hsame
  have hres : (buildSession ownPeerId roster record).resolvedOfferIds = record.resolvedOfferIds :=
    hresolved
  have hshown (id : String) : id ∈ (buildSession ownPeerId roster record).offerIds ↔
      (record.pendingAcceptances[id]?).isSome := by
    rw [← hids]
    have hmem := hperm.mem_iff (a := id)
    rw [List.mem_append] at hmem
    exact hmem.trans (or_iff_left List.not_mem_nil)
  have hseen' {id : String} (h : (record.pendingAcceptances[id]?).isSome) :
      id ∈ (buildSession ownPeerId roster record).seenOfferIds :=
    (hseen id).2 (.inl ((hids id).2 h))
  have hknown {id : String} {pending : PendingAcceptance}
      (h : record.pendingAcceptances[id]? = some pending) : id ∉ record.resolvedOfferIds :=
    fun hmem => by
      rw [hsound.disjoint id hmem] at h
      cases h
  refine ⟨?_, ?_, hshown⟩
  · constructor
    · rw [hpending, hres]
      exact hsound.disjoint
    · rw [hpending]
      exact hsound.keyed
    · intro id pending h
      rw [hpending] at h
      exact hseen' (by rw [h]; rfl)
    · refine hperm.nodup_iff.2 ?_
      change (record.pendingAcceptances.toList.map Prod.fst ++ ([] : List String)).Nodup
      have hkeys : record.pendingAcceptances.toList.map Prod.fst = record.pendingAcceptances.keys :=
        ExtTreeMap.map_fst_toList_eq_keys
      rw [List.append_nil, hkeys]
      exact ExtTreeMap.nodup_keys
    · intro id hid
      have hsome := (hshown id).1 hid
      obtain ⟨pending, h⟩ := Option.isSome_iff_exists.1 hsome
      rw [hres]
      exact ⟨hseen' hsome, hknown h⟩
    · intro offer hoffer pending h
      rw [hpending] at h
      rcases hdm offer hoffer with hnone | ⟨conversation, signer, recovery, hmem⟩
      · cases hnone
      · rw [hrow.1 hmem] at h
        exact ⟨conversation, signer, recovery, (Option.some.inj h).symm⟩
    · intro offer hoffer pending h
      rw [hpending] at h
      rcases hgroup offer hoffer with hnone | ⟨conversation, signer, recovery, hmem⟩
      · cases hnone
      · rw [hrow.1 hmem] at h
        exact ⟨conversation, signer, recovery, (Option.some.inj h).symm⟩
  · constructor
    · rw [hres]
    · intro id hid
      rw [hres]
      exact .inl hid
    · intro id _
      rw [hpending]

end Memory

/-! ## Writes -/

section Writes

variable {p} {d d' : Device} {s : OrgSession} {native : Native}
  {record next candidate : PersistedOrgRecord} {id : String} {refused : Bool}

theorem Sound.write {stored : Option PersistedOrgRecord}
    (hstored : ∀ record, stored = some record → Sound p record)
    (hcandidate : ∀ (id : String) pending, candidate.pendingAcceptances[id]? = some pending →
      Keyed p id pending)
    (h : writeOrgRecord p native stored candidate = .ok next) : Sound p next where
  disjoint id hid := by rw [(writeOrgRecord_spec h id).2, if_pos hid]
  keyed id pending hpending := by
    rw [(writeOrgRecord_spec h id).2] at hpending
    split at hpending
    · cases hpending
    · rcases Option.or_eq_some_iff.1 hpending with hpending | ⟨-, hpending⟩
      · exact hcandidate id pending hpending
      · obtain ⟨record, hrecord, hpending⟩ := Option.bind_eq_some_iff.1 hpending
        exact (hstored record hrecord).keyed id pending hpending

/-- Nothing that is stored is forgotten to be resolved. -/
theorem resolved_subset_write
    (h : writeOrgRecord p native (some record) candidate = .ok next) :
    record.resolvedOfferIds ⊆ next.resolvedOfferIds ∧
      candidate.resolvedOfferIds ⊆ next.resolvedOfferIds :=
  ⟨fun id hid => (writeOrgRecord_spec h id).1.2 (.inr (.inl ⟨record, rfl, hid⟩)),
    fun id hid => (writeOrgRecord_spec h id).1.2 (.inl hid)⟩

/-- Where memory agrees with what is stored, what it writes is pending. -/
theorem getElem?_write (hagrees : Agrees s record)
    (h : writeOrgRecord p native (some record) candidate = .ok next)
    (hcandidate : candidate.pendingAcceptances[id]? = s.pendingAcceptances[id]? ∨
      (candidate.pendingAcceptances[id]?).isSome) (hid : id ∉ next.resolvedOfferIds) :
    next.pendingAcceptances[id]? = candidate.pendingAcceptances[id]? := by
  rw [(writeOrgRecord_spec h id).2, if_neg hid, Option.bind_some]
  rcases hcandidate with hsame | hsome
  · have hopen : id ∉ record.resolvedOfferIds := fun hmem => hid ((resolved_subset_write h).1 hmem)
    rw [hsame, hagrees.same id hopen, Option.or_self]
  · exact Option.or_of_isSome hsome

theorem Agrees.extendResolved (hagrees : Agrees s record)
    (h : writeOrgRecord p native (some record) candidate = .ok next)
    (hresolved : candidate.resolvedOfferIds = s.resolvedOfferIds)
    (hpending : candidate.pendingAcceptances = s.pendingAcceptances) :
    Agrees (s.extendResolved next.resolvedOfferIds) next := by
  have hsub : s.resolvedOfferIds ∪ next.resolvedOfferIds = next.resolvedOfferIds := by
    rw [Finset.union_eq_right, ← hresolved]
    exact (resolved_subset_write h).2
  constructor
  · exact hsub.subset
  · exact fun id hid => .inl (Finset.mem_union_right _ hid)
  · intro id hid
    have hprune : (s.extendResolved next.resolvedOfferIds).pendingAcceptances[id]? =
        s.pendingAcceptances[id]? :=
      getElem?_prune.trans (if_neg (by rw [hsub]; exact hid))
    rw [hprune, getElem?_write hagrees h (.inl (by rw [hpending])) hid, hpending]

theorem agrees_adoptRecord : Agrees ((s.adoptRecord next).withoutOffer id) next where
  resolved := Finset.Subset.refl _
  known _ hid := .inl hid
  same _ hother :=
    (getElem?_prune (s := { s with
      dmLinks := next.dmLinks
      resolvedOfferIds := next.resolvedOfferIds
      pendingAcceptances := next.pendingAcceptances })).trans (if_neg hother)

theorem commitOffer_eq_ok {link : Option (String × Option String)}
    {acceptance : Option PendingAcceptance}
    (h : d.commitOffer p s id link acceptance refused = .ok d') :
    ∃ next, writeOrgRecord p d.native d.record (s.toRecord.withOffer id link acceptance) =
        .ok next ∧
      d' = { d with
        record := some next
        session := some ((s.adoptRecord next).withoutOffer id) } := by
  rw [Device.commitOffer] at h
  simp only [bind_eq_ok, Device.persistOrgRecord] at h
  obtain ⟨next, hwrite, h⟩ := h
  split at hwrite
  · cases hwrite
  · exact ⟨next, mapError_eq_ok.1 hwrite, (Except.ok.inj h).symm⟩

theorem persistRecord_eq_ok (h : d.persistRecord p candidate refused = .ok (d', record)) :
    writeOrgRecord p d.native d.record candidate = .ok record ∧
      d' = { d with
        record := some record
        session := d.session.map (·.extendResolved record.resolvedOfferIds) } := by
  rw [Device.persistRecord] at h
  simp only [bind_eq_ok, Device.persistOrgRecord] at h
  obtain ⟨next, hwrite, h⟩ := h
  obtain ⟨rfl, rfl⟩ := Prod.mk.inj (Except.ok.inj h)
  split at hwrite
  · cases hwrite
  · exact ⟨mapError_eq_ok.1 hwrite, rfl⟩

/-- What memory has of an offer that is committed. -/
theorem getElem?_withOffer {link : Option (String × Option String)}
    {acceptance : Option PendingAcceptance} (other : String) :
    (s.toRecord.withOffer id link acceptance).pendingAcceptances[other]? =
      if id = other then acceptance else s.pendingAcceptances[other]? := by
  cases acceptance with
  | none => exact Table.getElem?_erase ..
  | some acceptance => exact Table.getElem?_insert ..

theorem Consistent.commitOffer (h : Consistent p d) (hs : d.session = some s)
    (hshown : id ∈ s.offerIds) {link : Option (String × Option String)}
    {acceptance : Option PendingAcceptance}
    (hkeyed : ∀ pending, acceptance = some pending → Keyed p id pending)
    (hok : d.commitOffer p s id link acceptance refused = .ok d') : Consistent p d' := by
  obtain ⟨horderly, record, hrecord, hagrees⟩ := h.session s hs
  obtain ⟨next, hwrite, rfl⟩ := commitOffer_eq_ok hok
  have hsound : Sound p next := by
    refine Sound.write h.record (fun other pending hpending => ?_) hwrite
    rw [getElem?_withOffer] at hpending
    split at hpending
    · next heq => exact heq ▸ hkeyed pending hpending
    · exact horderly.keyed other pending hpending
  constructor
  · intro written hwritten
    obtain rfl := Option.some.inj hwritten
    exact hsound
  · intro s' hs'
    obtain rfl := Option.some.inj hs'
    refine ⟨horderly.adoptRecord hsound (horderly.offered id hshown).1 ?_,
      next, rfl, agrees_adoptRecord⟩
    intro other hne pending hpending
    have hopen : other ∉ next.resolvedOfferIds := fun hmem => by
      rw [hsound.disjoint other hmem] at hpending
      cases hpending
    have hother : (s.toRecord.withOffer id link acceptance).pendingAcceptances[other]? =
        s.pendingAcceptances[other]? :=
      (getElem?_withOffer other).trans (if_neg hne.symm)
    rw [hrecord] at hwrite
    rwa [getElem?_write hagrees hwrite (.inl hother) hopen, hother] at hpending

theorem Consistent.persistRecord (h : Consistent p d) (hs : d.session = some s)
    (hresolved : candidate.resolvedOfferIds = s.resolvedOfferIds)
    (hpending : candidate.pendingAcceptances = s.pendingAcceptances)
    (hok : d.persistRecord p candidate refused = .ok (d', next)) : Consistent p d' := by
  obtain ⟨horderly, record, hrecord, hagrees⟩ := h.session s hs
  obtain ⟨hwrite, rfl⟩ := persistRecord_eq_ok hok
  have hsound : Sound p next :=
    Sound.write h.record (by rw [hpending]; exact horderly.keyed) hwrite
  rw [hrecord] at hwrite
  constructor
  · intro written hwritten
    obtain rfl := Option.some.inj hwritten
    exact hsound
  · intro s' hs'
    rw [hs] at hs'
    obtain rfl := Option.some.inj hs'
    exact ⟨horderly.extendResolved, next, rfl, hagrees.extendResolved hwrite hresolved hpending⟩

end Writes

end Mosh.Org.Offers
