import Mosh.Library.Run
import Mosh.Org.Agreement

/-!
# Accepted offers in every run

What an organization keeps of its offers, whatever happens to its session, to its record and to the
conversations (`org_runtime/acceptance.rs`, `persistence/org_acceptances.rs`).

* `JoinMls.Lawful.restores`: a join that is prepared again restores the keys of the first one;
* `Consistent.step`: every event keeps memory and disk consistent;
* `writes_step`: what an event may do to the record;
* `pending_step`, `pending_run`: an acceptance stays pending until it is settled;
* `not_mem_shown`, `mem_shown_rehydrate`: what is shown;
* `offers_kept`: all of it, in every run.
-/

namespace Mosh.Org.Offers

open Checked
open Run (Runs)
open Std (ExtTreeMap)

/-! ## Events one by one -/

section Steps

variable {p : Platform} {K : Type} (material : PendingJoinRecovery → Set K)

/-- A join that is prepared again has the same signer and no fewer keys. -/
def PreparedJoin.Restores (join : PreparedJoin) : Prop :=
  ∀ signer recovery signer' recovery', join (some (signer, recovery)) = some (signer', recovery') →
    signer' = signer ∧ material recovery ⊆ material recovery'

/-- A state that is restored has its signer and its keys, and a key package only adds to them. -/
structure JoinMls.Lawful {σ : Type} (m : JoinMls σ) (keys : List UInt8 → Set K) : Prop where
  restore {identity : String} {signer snapshot groupId : List UInt8} {x : σ} :
    m.restore identity signer snapshot groupId = .ok x →
      m.signerPublic x = signer ∧ keys snapshot ⊆ keys (m.snapshot x)
  restoreUnjoined {identity : String} {signer snapshot : List UInt8} {x : σ} :
    m.restoreUnjoined identity signer snapshot = .ok x →
      m.signerPublic x = signer ∧ keys snapshot ⊆ keys (m.snapshot x)
  keyPackage {x y : σ} {package : List UInt8} : m.keyPackageBytes x = .ok (package, y) →
    m.signerPublic y = m.signerPublic x ∧ keys (m.snapshot x) ⊆ keys (m.snapshot y)

theorem JoinMls.Lawful.restoreCrypto {σ : Type} {m : JoinMls σ} {keys : List UInt8 → Set K}
    (h : m.Lawful keys) {recovery : PendingJoinRecovery} {identity : String} {signer : List UInt8}
    {x : σ} (hx : m.restoreCrypto recovery identity signer = .ok x) :
    m.signerPublic x = signer ∧ keys recovery.providerSnapshot ⊆ keys (m.snapshot x) := by
  rw [JoinMls.restoreCrypto] at hx
  split at hx
  · exact h.restoreUnjoined hx
  · exact h.restore hx

/-- The join that the conversations prepare restores the keys it is given. -/
theorem JoinMls.Lawful.restores {σ : Type} {m : JoinMls σ} {keys : List UInt8 → Set K}
    (h : m.Lawful keys) (identity : String) :
    (m.join identity).Restores fun recovery => keys recovery.providerSnapshot := by
  intro signer recovery signer' recovery' hjoin
  rw [JoinMls.join, Option.map_eq_some_iff] at hjoin
  obtain ⟨⟨crypto, participantId, keyPackage⟩, hprepare, hjoin⟩ := hjoin
  obtain ⟨rfl, rfl⟩ := Prod.mk.inj hjoin
  rw [JoinMls.prepare] at hprepare
  rcases hrestored : m.restoreCrypto recovery identity signer with error | restored
  · rw [hrestored] at hprepare
    cases hprepare
  obtain ⟨hsigner, hkeys⟩ := h.restoreCrypto hrestored
  rw [hrestored] at hprepare
  simp only [Except.map, ok_bind] at hprepare
  split at hprepare
  · obtain ⟨rfl, -⟩ := Prod.mk.inj (Option.some.inj hprepare)
    exact ⟨hsigner, hkeys⟩
  · split at hprepare
    · obtain ⟨rfl, -⟩ := Prod.mk.inj (Option.some.inj hprepare)
      exact ⟨hsigner, hkeys⟩
    · split at hprepare
      · cases hprepare
      · next package heq =>
        obtain ⟨rfl, -⟩ := Prod.mk.inj (Option.some.inj hprepare)
        obtain ⟨hsigner', hkeys'⟩ := h.keyPackage heq
        exact ⟨hsigner'.trans hsigner, hkeys.trans hkeys'⟩

def Event.Restores : Event → Prop
  | .acceptDm _ prepared _ => prepared.Restores material
  | .acceptGroup _ prepared _ => prepared.Restores material
  | _ => True

/-- The same join of the same conversation, with no fewer keys. -/
structure Continues (pending pending' : PendingAcceptance) : Prop where
  tables : pending'.tables = pending.tables
  conversation : pending'.conversationId = pending.conversationId
  signer : pending'.signerPublic = pending.signerPublic
  recovery : ∀ recovery, pending.recovery = some recovery →
    ∃ recovery', pending'.recovery = some recovery' ∧ material recovery ⊆ material recovery'

variable {material} {d d' : Device} {s : OrgSession} {id : String} {refused : Bool}
  {pending pending' pending'' : PendingAcceptance}

theorem Continues.refl : Continues material pending pending :=
  ⟨rfl, rfl, rfl, fun recovery h => ⟨recovery, h, Set.Subset.refl _⟩⟩

theorem Continues.trans (h : Continues material pending pending')
    (h' : Continues material pending' pending'') : Continues material pending pending'' where
  tables := h'.tables.trans h.tables
  conversation := h'.conversation.trans h.conversation
  signer := h'.signer.trans h.signer
  recovery recovery hrecovery := by
    obtain ⟨recovery', hrecovery', hsub⟩ := h.recovery recovery hrecovery
    obtain ⟨recovery'', hrecovery'', hsub'⟩ := h'.recovery recovery' hrecovery'
    exact ⟨recovery'', hrecovery'', hsub.trans hsub'⟩

/-- Whether it is durable does not depend on which of them is asked. -/
theorem Continues.durable_iff (h : Continues material pending pending') {native : Native} :
    Durable p native pending' ↔ Durable p native pending := by
  obtain ⟨htables, hconversation, hsigner, -⟩ := h
  rw [Durable, Durable, nativeAcceptanceIsDurable, nativeAcceptanceIsDurable, htables,
    hconversation, hsigner]
  cases pending <;> cases pending' <;> first | rfl | cases htables

theorem sessionMut_eq_ok : d.sessionMut = .ok s ↔ d.session = some s := getOr_eq_ok

theorem peekDmOffer_eq_ok {offer : OrgDmOfferView} (h : d.peekDmOffer p id = .ok offer) :
    ∃ s, d.session = some s ∧ offer ∈ s.dmOffers ∧ offer.offerId = id := by
  rw [Device.peekDmOffer] at h
  simp only [bind_eq_ok, sessionMut_eq_ok, getOr_eq_ok] at h
  obtain ⟨s, hs, found, hfound, -, -, -, -, h⟩ := h
  obtain rfl := Except.ok.inj h
  exact ⟨s, hs, List.mem_of_find?_eq_some hfound, by simpa using List.find?_some hfound⟩

theorem peekGroupOffer_eq_ok {offer : OrgGroupOfferView} (h : d.peekGroupOffer id = .ok offer) :
    ∃ s, d.session = some s ∧ offer ∈ s.groupOffers ∧ offer.offerId = id := by
  rw [Device.peekGroupOffer] at h
  simp only [bind_eq_ok, sessionMut_eq_ok, getOr_eq_ok] at h
  obtain ⟨s, hs, hfound⟩ := h
  exact ⟨s, hs, List.mem_of_find?_eq_some hfound, by simpa using List.find?_some hfound⟩

/-- An acceptance that is registered continues the one that was there. -/
structure Registers (material : PendingJoinRecovery → Set K) (p : Platform) (s : OrgSession)
    (id : String) (pending : PendingAcceptance) : Prop where
  shown : id ∈ s.offerIds
  keyed : Keyed p id pending
  continues : ∀ earlier, s.pendingAcceptances[id]? = some earlier → earlier.recovery.isSome →
    Continues material earlier pending

/-- A join that is prepared from the keys of an acceptance of the same offer continues it. -/
theorem continues_of_restores {prepared : PreparedJoin} (hprepared : prepared.Restores material)
    {signer : List UInt8} {keys : PendingJoinRecovery}
    (hkeys : prepared (pending.recovery.map (pending.signerPublic, ·)) = some (signer, keys))
    (htables : pending'.tables = pending.tables)
    (hoffer : p.conversationOf pending' = p.conversationOf pending)
    (hkeyed : Keyed p id pending) (hkeyed' : Keyed p id pending')
    (hsigner : pending'.signerPublic = signer) (hrecovery : pending'.recovery = some keys)
    (hsome : pending.recovery.isSome) : Continues material pending pending' := by
  obtain ⟨earlier, hearlier⟩ := Option.isSome_iff_exists.1 hsome
  rw [hearlier] at hkeys
  obtain ⟨heq, hsub⟩ := hprepared _ _ _ _ hkeys
  rw [hkeyed.conversation, hkeyed'.conversation] at hoffer
  refine ⟨htables, Option.some.inj hoffer, hsigner.trans heq, fun recovery h => ?_⟩
  obtain rfl := Option.some.inj (hearlier.symm.trans h)
  exact ⟨keys, hrecovery, hsub⟩

theorem offerRecovery_eq_ok {recovery : Option (List UInt8 × PendingJoinRecovery)}
    (hs : d.session = some s) (hpending : s.pendingAcceptances[id]? = some pending)
    (h : d.offerRecovery id = .ok recovery) :
    recovery = pending.recovery.map (pending.signerPublic, ·) := by
  rw [Device.offerRecovery] at h
  simp only [bind_eq_ok, sessionMut_eq_ok, hs, Option.some.injEq, exists_eq_left', hpending,
    Option.bind_some, Except.ok.injEq] at h
  exact h.symm

theorem acceptDmOffer_eq_ok {prepared : PreparedJoin} (hconsistent : Consistent p d)
    (hprepared : prepared.Restores material)
    (h : d.acceptDmOffer p id prepared refused = .ok d') :
    ∃ s link pending, d.session = some s ∧ Registers material p s id pending ∧
      d.commitOffer p s id link (some pending) refused = .ok d' := by
  rw [Device.acceptDmOffer] at h
  simp only [bind_eq_ok, getOr_eq_ok] at h
  obtain ⟨offer, hpeek, recovery, hrecovery, conversation, hconversation, ⟨signer, keys⟩, hkeys,
    h⟩ := h
  obtain ⟨s, hs, hoffer, rfl⟩ := peekDmOffer_eq_ok hpeek
  rw [Device.completeDmOffer] at h
  simp only [bind_eq_ok, sessionMut_eq_ok, hs, Option.some.injEq, exists_eq_left', hpeek,
    Except.ok.injEq] at h
  have hkeyed : Keyed p offer.offerId (.dm conversation signer offer (some keys)) :=
    ⟨rfl, hconversation⟩
  refine ⟨s, _, _, hs, ⟨mem_offerIds.2 (.inl ⟨offer, hoffer, rfl⟩), hkeyed, ?_⟩, h⟩
  intro earlier hearlier hsome
  obtain ⟨horderly, -⟩ := hconsistent.session s hs
  obtain rfl := offerRecovery_eq_ok hs hearlier hrecovery
  obtain ⟨conversation', signer', recovery', rfl⟩ := horderly.dm offer hoffer earlier hearlier
  exact continues_of_restores hprepared hkeys rfl rfl (horderly.keyed _ _ hearlier) hkeyed rfl rfl
    hsome

theorem acceptGroupOffer_eq_ok {prepared : PreparedJoin} (hconsistent : Consistent p d)
    (hprepared : prepared.Restores material)
    (h : d.acceptGroupOffer p id prepared refused = .ok d') :
    ∃ s link pending, d.session = some s ∧ Registers material p s id pending ∧
      d.commitOffer p s id link (some pending) refused = .ok d' := by
  rw [Device.acceptGroupOffer] at h
  simp only [bind_eq_ok, getOr_eq_ok] at h
  obtain ⟨offer, hpeek, recovery, hrecovery, conversation, hconversation, ⟨signer, keys⟩, hkeys,
    h⟩ := h
  obtain ⟨s, hs, hoffer, rfl⟩ := peekGroupOffer_eq_ok hpeek
  rw [Device.completeGroupOffer] at h
  simp only [bind_eq_ok, sessionMut_eq_ok, hs, Option.some.injEq, exists_eq_left', hpeek,
    Except.ok.injEq] at h
  have hkeyed : Keyed p offer.offerId (.group conversation signer offer (some keys)) :=
    ⟨rfl, hconversation⟩
  refine ⟨s, _, _, hs, ⟨mem_offerIds.2 (.inr ⟨offer, hoffer, rfl⟩), hkeyed, ?_⟩, h⟩
  intro earlier hearlier hsome
  obtain ⟨horderly, -⟩ := hconsistent.session s hs
  obtain rfl := offerRecovery_eq_ok hs hearlier hrecovery
  obtain ⟨conversation', signer', recovery', rfl⟩ := horderly.group offer hoffer earlier hearlier
  exact continues_of_restores hprepared hkeys rfl rfl (horderly.keyed _ _ hearlier) hkeyed rfl rfl
    hsome

theorem dismissDmOffer_eq_ok (h : d.dismissDmOffer p id refused = .ok d') :
    d' = d ∨ ∃ s, d.session = some s ∧ id ∈ s.offerIds ∧
      d.commitOffer p s id none none refused = .ok d' := by
  rw [Device.dismissDmOffer] at h
  simp only [bind_eq_ok, sessionMut_eq_ok] at h
  obtain ⟨s, hs, h⟩ := h
  split at h
  · next hany =>
    obtain ⟨offer, hoffer, heq⟩ := List.any_eq_true.1 hany
    exact .inr ⟨s, hs, mem_offerIds.2 (.inl ⟨offer, hoffer, of_decide_eq_true heq⟩), h⟩
  · exact .inl (Except.ok.inj h).symm

theorem dismissGroupOffer_eq_ok (h : d.dismissGroupOffer p id refused = .ok d') :
    d' = d ∨ ∃ s, d.session = some s ∧ id ∈ s.offerIds ∧
      d.commitOffer p s id none none refused = .ok d' := by
  rw [Device.dismissGroupOffer] at h
  simp only [bind_eq_ok, sessionMut_eq_ok] at h
  obtain ⟨s, hs, h⟩ := h
  split at h
  · next hany =>
    obtain ⟨offer, hoffer, heq⟩ := List.any_eq_true.1 hany
    exact .inr ⟨s, hs, mem_offerIds.2 (.inr ⟨offer, hoffer, of_decide_eq_true heq⟩), h⟩
  · exact .inl (Except.ok.inj h).symm

/-- Links do not matter for what is kept. -/
theorem Consistent.relink (h : Consistent p d) (f : OrgSession → List OrgDmLink) :
    Consistent p { d with session := d.session.map fun s => { s with dmLinks := f s } } where
  record := h.record
  session s hs := by
    obtain ⟨s', hs', rfl⟩ := Option.map_eq_some_iff.1 hs
    obtain ⟨horderly, record, hrecord, hagrees⟩ := h.session s' hs'
    exact ⟨horderly.congr rfl rfl rfl rfl rfl, record, hrecord, hagrees.congr rfl rfl⟩

theorem sendDmOffer_eq_ok {target uri : String} {published : Bool}
    (h : d.sendDmOffer p target uri published refused = .ok d') :
    ∃ s candidate d₁ next, d.session = some s ∧
      candidate.resolvedOfferIds = s.resolvedOfferIds ∧
      candidate.pendingAcceptances = s.pendingAcceptances ∧
      d.persistRecord p candidate refused = .ok (d₁, next) ∧
      (d' = d₁ ∨ d' = { d₁ with
        session := d₁.session.map fun s => { s with dmLinks := next.dmLinks } }) := by
  rw [Device.sendDmOffer] at h
  simp only [bind_eq_ok, sessionMut_eq_ok] at h
  obtain ⟨s, hs, -, -, -, -, ⟨d₁, next⟩, hpersist, h⟩ := h
  refine ⟨s, _, d₁, next, hs, rfl, rfl, hpersist, ?_⟩
  have h := Except.ok.inj h
  split at h
  · exact .inr h.symm
  · exact .inl h.symm

/-- Linking a conversation writes the record, if that is not refused. -/
theorem linkDm_cases (d : Device) (peerId sessionId : String) (refused : Bool) :
    ∃ d₀ : Device, d₀ = { d with session := d.session.map fun s =>
        { s with dmLinks := upsertLink s.dmLinks peerId (some sessionId) } } ∧
      (d.linkDm p peerId sessionId refused = d₀ ∨ ∃ s d₁ next, d₀.session = some s ∧
        d₀.persistRecord p s.toRecord refused = .ok (d₁, next) ∧
        d.linkDm p peerId sessionId refused = d₁) := by
  refine ⟨_, rfl, ?_⟩
  rcases hs : d.session with - | s
  · refine .inl ?_
    rw [Device.linkDm, hs]
    simp only [Option.map_none]
    rw [← hs]
  · rw [Device.linkDm, hs]
    simp only [Option.map_some]
    split
    · exact .inl rfl
    · next d₁ next hpersist => exact .inr ⟨_, d₁, next, rfl, hpersist, rfl⟩

theorem joinOrg_eq_ok {ownPeerId : String} {roster : Option (List String)}
    (h : d.joinOrg p ownPeerId roster refused = .ok d') :
    d.session = none ∧ ∃ next, writeOrgRecord p d.native d.record {} = .ok next ∧
      d' = { d with
        record := some next
        session := some (buildSession ownPeerId roster next) } := by
  rw [Device.joinOrg] at h
  simp only [bind_eq_ok, check_eq_ok] at h
  obtain ⟨-, hnone, ⟨d₁, next⟩, hpersist, h⟩ := h
  obtain ⟨hwrite, rfl⟩ := persistRecord_eq_ok hpersist
  exact ⟨Option.isNone_iff_eq_none.1 hnone, next, hwrite, (Except.ok.inj h).symm⟩

theorem finishJoin_eq_ok {native : Native} {table : Rows}
    (h : d.finishJoin p native table id refused = .ok d') :
    (d.record = none ∧ d' = { d with native }) ∨
      ∃ record retired changed, d.record = some record ∧
        retireCompletedAcceptances p native record (some (table, id)) = .ok (retired, changed) ∧
        d' = { d with native, record := some (if changed then retired else record) } := by
  rw [Device.finishJoin] at h
  simp only [bind_eq_ok, check_eq_ok, mapError_eq_ok] at h
  obtain ⟨-, -, next, hretire, h⟩ := h
  obtain rfl := Except.ok.inj h
  rcases hrecord : d.record with - | record
  · rw [hrecord] at hretire
    obtain rfl := Except.ok.inj hretire
    exact .inl ⟨rfl, by rw [← hrecord]⟩
  · rw [hrecord] at hretire
    simp only [retireAcceptedOffers, bind_eq_ok] at hretire
    obtain ⟨⟨retired, changed⟩, hretired, hretire⟩ := hretire
    obtain rfl := Except.ok.inj hretire
    exact .inr ⟨record, retired, changed, rfl, hretired, rfl⟩

/-- An offer is taken up only when it is new. -/
theorem acceptOffer_cases (s : OrgSession) (sender target id : String) :
    s.acceptOffer sender target id = (false, s) ∨
      (id ∉ s.resolvedOfferIds ∧ id ∉ s.seenOfferIds ∧ s.acceptOffer sender target id =
        (true, { s with seenOfferIds := insert id s.seenOfferIds })) := by
  rw [OrgSession.acceptOffer]
  split
  · exact .inl rfl
  · split
    · exact .inl rfl
    · next hnew => exact .inr ⟨fun h => hnew (.inl h), fun h => hnew (.inr h), rfl⟩

/-- An offer arrives: nothing happens, or it is new and shown. -/
theorem receiveDmOffer_cases (s : OrgSession) (sender target id name uri : String) :
    s.receiveDmOffer p sender target id name uri = s ∨
      (id ∉ s.resolvedOfferIds ∧ id ∉ s.seenOfferIds ∧
        s.receiveDmOffer p sender target id name uri =
          { s with seenOfferIds := insert id s.seenOfferIds }.showAcceptance
            (.dm "" [] ⟨id, sender, name, uri⟩ none)) := by
  rw [OrgSession.receiveDmOffer]
  split
  · rcases acceptOffer_cases s sender target id with h | ⟨hopen, hnew, h⟩
    · rw [h]
      exact .inl rfl
    · rw [h]
      exact .inr ⟨hopen, hnew, rfl⟩
  · exact .inl rfl

theorem receiveGroupOffer_cases (s : OrgSession) (sender target id name : String)
    (label : Option String) (uri : String) :
    s.receiveGroupOffer sender target id name label uri = s ∨
      (id ∉ s.resolvedOfferIds ∧ id ∉ s.seenOfferIds ∧
        s.receiveGroupOffer sender target id name label uri =
          { s with seenOfferIds := insert id s.seenOfferIds }.showAcceptance
            (.group "" [] ⟨id, sender, name, label, uri⟩ none)) := by
  rw [OrgSession.receiveGroupOffer]
  rcases acceptOffer_cases s sender target id with h | ⟨hopen, hnew, h⟩
  · rw [h]
    exact .inl rfl
  · rw [h]
    exact .inr ⟨hopen, hnew, rfl⟩

theorem Consistent.receive (h : Consistent p d) {f : OrgSession → OrgSession}
    (hf : ∀ s, f s = s ∨ ∃ pending : PendingAcceptance, pending.offerId ∉ s.resolvedOfferIds ∧
      pending.offerId ∉ s.seenOfferIds ∧
      f s =
        { s with seenOfferIds := insert pending.offerId s.seenOfferIds }.showAcceptance pending) :
    Consistent p { d with session := d.session.map f } := by
  refine ⟨h.record, fun s hs => ?_⟩
  obtain ⟨s', hs', rfl⟩ := Option.map_eq_some_iff.1 hs
  obtain ⟨horderly, record, hrecord, hagrees⟩ := h.session s' hs'
  rcases hf s' with heq | ⟨pending, hopen, hnew, heq⟩
  · rw [heq]
    exact ⟨horderly, record, hrecord, hagrees⟩
  · rw [heq]
    obtain ⟨hsame, hresolved, -⟩ := showAcceptance_same
      (s := { s' with seenOfferIds := insert pending.offerId s'.seenOfferIds }) pending
    exact ⟨horderly.showNew rfl hnew hopen, record, hrecord, hagrees.congr hsame hresolved⟩

/-- An acceptance is shown again only if it is not shown. -/
theorem reexposeAcceptance_eq_ok (hconsistent : Consistent p d)
    (h : d.reexposeAcceptance id = .ok d') :
    d' = d ∨ ∃ s pending, d.session = some s ∧ s.pendingAcceptances[id]? = some pending ∧
      id ∉ s.resolvedOfferIds ∧ id ∉ s.offerIds ∧
      d' = { d with session := some (s.showAcceptance pending) } := by
  rw [Device.reexposeAcceptance] at h
  simp only [bind_eq_ok, sessionMut_eq_ok] at h
  obtain ⟨s, hs, h⟩ := h
  obtain ⟨horderly, -⟩ := hconsistent.session s hs
  split at h
  · exact .inl (Except.ok.inj h).symm
  · next hopen =>
    split at h
    · exact .inl (Except.ok.inj h).symm
    · next conversation signer offer recovery hpending =>
      split at h
      · exact .inl (Except.ok.inj h).symm
      · next hnone =>
        refine .inr ⟨s, _, hs, hpending, hopen, fun hmem => ?_, (Except.ok.inj h).symm⟩
        rcases mem_offerIds.1 hmem with ⟨shown, hshown, rfl⟩ | ⟨shown, hshown, rfl⟩
        · exact hnone (List.any_eq_true.2 ⟨shown, hshown, decide_eq_true rfl⟩)
        · -- The acceptance is not that of a group.
          obtain ⟨_, _, _, heq⟩ := horderly.group shown hshown _ hpending
          cases heq
    · next conversation signer offer recovery hpending =>
      split at h
      · exact .inl (Except.ok.inj h).symm
      · next hnone =>
        refine .inr ⟨s, _, hs, hpending, hopen, fun hmem => ?_, (Except.ok.inj h).symm⟩
        rcases mem_offerIds.1 hmem with ⟨shown, hshown, rfl⟩ | ⟨shown, hshown, rfl⟩
        · obtain ⟨_, _, _, heq⟩ := horderly.dm shown hshown _ hpending
          cases heq
        · exact hnone (List.any_eq_true.2 ⟨shown, hshown, decide_eq_true rfl⟩)

theorem Agrees.refresh {record : PersistedOrgRecord} (h : Agrees s record) :
    Agrees (s.extendResolved record.resolvedOfferIds) record where
  resolved := (Finset.union_eq_right.2 h.resolved).subset
  known _ hid := .inl (Finset.mem_union_right _ hid)
  same id hid := by
    have hprune : (s.extendResolved record.resolvedOfferIds).pendingAcceptances[id]? =
        s.pendingAcceptances[id]? := by
      refine getElem?_prune.trans (if_neg fun hmem => hid ?_)
      exact (Finset.union_eq_right.2 h.resolved).subset hmem
    rw [hprune, h.same id hid]

theorem refreshAcceptances_cases (d : Device) : d.refreshAcceptances = d ∨
    ∃ s record, d.session = some s ∧ d.record = some record ∧
      d.refreshAcceptances =
        { d with session := some (s.extendResolved record.resolvedOfferIds) } := by
  rw [Device.refreshAcceptances]
  split
  · next s record hs hrecord =>
    split
    · exact .inl rfl
    · exact .inr ⟨s, record, hs, hrecord, rfl⟩
  · exact .inl rfl

theorem Consistent.poll (h : Consistent p d) : Consistent p d.refreshAcceptances := by
  rcases refreshAcceptances_cases d with hrefresh | ⟨s, record, hs, hrecord, hrefresh⟩
  · rw [hrefresh]
    exact h
  · rw [hrefresh]
    obtain ⟨horderly, record', hrecord', hagrees⟩ := h.session s hs
    obtain rfl := Option.some.inj (hrecord.symm.trans hrecord')
    exact ⟨h.record, fun _ hs' => Option.some.inj hs' ▸
      ⟨horderly.extendResolved, record, hrecord, hagrees.refresh⟩⟩

theorem Consistent.rehydrate (h : Consistent p d) (ownPeerId : String)
    (roster : Option (List String)) : Consistent p (d.rehydrate ownPeerId roster) := by
  refine ⟨h.record, fun s hs => ?_⟩
  obtain ⟨record, hrecord, rfl⟩ := Option.map_eq_some_iff.1 hs
  obtain ⟨horderly, hagrees, -⟩ := buildSession_spec (h.record record hrecord) ownPeerId roster
  exact ⟨horderly, record, hrecord, hagrees⟩

/-- What a transaction retires leaves memory behind the record, and no more. -/
theorem agrees_retire {record retired : PersistedOrgRecord} {native : Native}
    {only : Option (Rows × String)} {changed : Bool} (hsound : Sound p record)
    (hretire : retireCompletedAcceptances p native record only = .ok (retired, changed)) :
    Sound p retired ∧ ∀ s, Agrees s record → Agrees s retired := by
  have hspec := retireCompletedAcceptances_spec hsound.disjoint hretire
  have hgrows : record.resolvedOfferIds ⊆ retired.resolvedOfferIds := fun id hid =>
    (hspec id).1.2 (.inl hid)
  refine ⟨⟨fun id hid => ?_, fun id pending hpending => ?_⟩, fun s hagrees => ⟨?_, ?_, ?_⟩⟩
  · rw [(hspec id).2, if_pos hid]
  · rw [(hspec id).2] at hpending
    split at hpending
    · cases hpending
    · exact hsound.keyed id pending hpending
  · exact hagrees.resolved.trans hgrows
  · intro id hid
    rcases (hspec id).1.1 hid with hid | ⟨pending, hpending, -, -⟩
    · exact hagrees.known id hid
    · -- What is retired now was pending in memory too.
      have hopen : id ∉ record.resolvedOfferIds := fun hmem => by
        rw [hsound.disjoint id hmem] at hpending
        cases hpending
      rw [hagrees.same id hopen, hpending]
      exact .inr rfl
  · intro id hid
    rw [(hspec id).2, if_neg hid]
    exact hagrees.same id fun hmem => hid (hgrows hmem)

/-- Every event keeps memory and disk consistent. -/
theorem Consistent.step (h : Consistent p d) {event : Event} (hrestores : event.Restores material) :
    Consistent p (d.step p event) := by
  have hkeep {result : Except OrgError Device}
      (hok : ∀ d', result = .ok d' → Consistent p d') : Consistent p (d.orKeep result) := by
    rcases hresult : result with error | d'
    · exact h
    · exact hok d' hresult
  -- A session that shows more.
  have hsession {s s' : OrgSession} (hs : d.session = some s) (horderly : Orderly p s')
      (hpending : s'.pendingAcceptances = s.pendingAcceptances)
      (hresolved : s'.resolvedOfferIds = s.resolvedOfferIds) :
      Consistent p { d with session := some s' } := by
    obtain ⟨-, record, hrecord, hagrees⟩ := h.session s hs
    refine ⟨h.record, fun s'' hs'' => ?_⟩
    obtain rfl := Option.some.inj hs''
    exact ⟨horderly, record, hrecord, hagrees.congr hpending hresolved⟩
  cases event with
  | join ownPeerId roster refused =>
    refine hkeep fun d' hok => ?_
    obtain ⟨-, next, hwrite, rfl⟩ := joinOrg_eq_ok hok
    have hsound : Sound p next := Sound.write h.record (fun id pending hpending => by
      simp at hpending) hwrite
    obtain ⟨horderly, hagrees, -⟩ := buildSession_spec hsound ownPeerId roster
    exact ⟨fun _ hrecord => Option.some.inj hrecord ▸ hsound, fun _ hs =>
      Option.some.inj hs ▸ ⟨horderly, next, rfl, hagrees⟩⟩
  | restart ownPeerId roster => exact h.rehydrate ownPeerId roster
  | roster members =>
    refine ⟨h.record, fun s hs => ?_⟩
    obtain ⟨s', hs', rfl⟩ := Option.map_eq_some_iff.1 hs
    obtain ⟨horderly, record, hrecord, hagrees⟩ := h.session s' hs'
    exact ⟨horderly.congr rfl rfl rfl rfl rfl, record, hrecord, hagrees.congr rfl rfl⟩
  | dmOffer sender target id name uri =>
    refine h.receive fun s => ?_
    rcases receiveDmOffer_cases (p := p) s sender target id name uri with heq | ⟨hopen, hnew, heq⟩
    · exact .inl heq
    · exact .inr ⟨.dm "" [] ⟨id, sender, name, uri⟩ none, hopen, hnew, heq⟩
  | groupOffer sender target id name label uri =>
    refine h.receive fun s => ?_
    rcases receiveGroupOffer_cases s sender target id name label uri with heq | ⟨hopen, hnew, heq⟩
    · exact .inl heq
    · exact .inr ⟨.group "" [] ⟨id, sender, name, label, uri⟩ none, hopen, hnew, heq⟩
  | acceptDm id prepared refused =>
    refine hkeep fun d' hok => ?_
    obtain ⟨s, link, pending, hs, hregisters, hok⟩ := acceptDmOffer_eq_ok h hrestores hok
    exact h.commitOffer hs hregisters.shown
      (fun _ heq => Option.some.inj heq ▸ hregisters.keyed) hok
  | acceptGroup id prepared refused =>
    refine hkeep fun d' hok => ?_
    obtain ⟨s, link, pending, hs, hregisters, hok⟩ := acceptGroupOffer_eq_ok h hrestores hok
    exact h.commitOffer hs hregisters.shown
      (fun _ heq => Option.some.inj heq ▸ hregisters.keyed) hok
  | reexpose id =>
    refine hkeep fun d' hok => ?_
    rcases reexposeAcceptance_eq_ok h hok with rfl | ⟨s, pending, hs, hpending, hopen, hnew, rfl⟩
    · exact h
    · obtain ⟨horderly, -⟩ := h.session s hs
      obtain ⟨hsame, hresolved, -⟩ := showAcceptance_same (s := s) pending
      exact hsession hs (horderly.showAcceptance (horderly.keyed id pending hpending).offerId
        (horderly.seen id pending hpending) hopen
        (fun other hother => Option.some.inj (hother.symm.trans hpending)) hnew) hsame hresolved
  | dismissDm id refused =>
    refine hkeep fun d' hok => ?_
    rcases dismissDmOffer_eq_ok hok with rfl | ⟨s, hs, hshown, hok⟩
    · exact h
    · exact h.commitOffer hs hshown (fun _ heq => by cases heq) hok
  | dismissGroup id refused =>
    refine hkeep fun d' hok => ?_
    rcases dismissGroupOffer_eq_ok hok with rfl | ⟨s, hs, hshown, hok⟩
    · exact h
    · exact h.commitOffer hs hshown (fun _ heq => by cases heq) hok
  | sendDm target uri published refused =>
    refine hkeep fun d' hok => ?_
    obtain ⟨s, candidate, d₁, next, hs, hresolved, hpending, hpersist, hd'⟩ := sendDmOffer_eq_ok hok
    have h₁ := h.persistRecord hs hresolved hpending hpersist
    rcases hd' with rfl | rfl
    · exact h₁
    · exact h₁.relink fun _ => next.dmLinks
  | linkDm peerId sessionId refused =>
    obtain ⟨d₀, rfl, hlink | ⟨s, d₁, next, hs, hpersist, hlink⟩⟩ :=
      linkDm_cases (p := p) d peerId sessionId refused
    · rw [Device.step, hlink]
      exact h.relink _
    · rw [Device.step, hlink]
      exact (h.relink _).persistRecord hs rfl rfl hpersist
  | poll => exact h.poll
  | write native => exact ⟨h.record, h.session⟩
  | finish native table id refused =>
    refine hkeep fun d' hok => ?_
    rcases finishJoin_eq_ok hok with ⟨-, rfl⟩ | ⟨record, retired, changed, hrecord, hretire, rfl⟩
    · exact ⟨h.record, h.session⟩
    · obtain ⟨hsound, hagrees⟩ := agrees_retire (h.record record hrecord) hretire
      cases changed with
      | true =>
        refine ⟨fun _ hwritten => Option.some.inj hwritten ▸ hsound, fun s hs => ?_⟩
        obtain ⟨horderly, record', hrecord', hagrees'⟩ := h.session s hs
        obtain rfl := Option.some.inj (hrecord.symm.trans hrecord')
        exact ⟨horderly, retired, rfl, hagrees s hagrees'⟩
      | false =>
        refine ⟨fun _ hwritten => Option.some.inj hwritten ▸ h.record record hrecord,
          fun s hs => ?_⟩
        obtain ⟨horderly, record', hrecord', hagrees'⟩ := h.session s hs
        obtain rfl := Option.some.inj (hrecord.symm.trans hrecord')
        exact ⟨horderly, record, rfl, hagrees'⟩

/-! ## What events write -/

/-- The user dismisses an offer. -/
def Event.Dismisses (id : String) : Event → Prop
  | .dismissDm other _ => other = id
  | .dismissGroup other _ => other = id
  | _ => False

/-- What an event writes besides what is stored. -/
inductive Candidate (material : PendingJoinRecovery → Set K) (p : Platform) (d : Device)
    (event : Event) (candidate : PersistedOrgRecord) : Prop
  | new : candidate.resolvedOfferIds = ∅ → candidate.pendingAcceptances = ∅ →
      Candidate material p d event candidate
  | stale {s : OrgSession} : d.session = some s →
      candidate.resolvedOfferIds = s.resolvedOfferIds →
      candidate.pendingAcceptances = s.pendingAcceptances → Candidate material p d event candidate
  | accepted {s : OrgSession} {id : String} {link : Option (String × Option String)}
      {pending : PendingAcceptance} : d.session = some s → Registers material p s id pending →
      candidate = s.toRecord.withOffer id link (some pending) →
      Candidate material p d event candidate
  | dismissed {s : OrgSession} {id : String} : d.session = some s → event.Dismisses id →
      candidate = s.toRecord.withOffer id none none → Candidate material p d event candidate

/-- What a step may do to the record: it stays, a session writes it, or a transaction retires what
    it made durable. -/
inductive Writes (material : PendingJoinRecovery → Set K) (p : Platform) (d : Device)
    (event : Event) (d' : Device) : Prop
  | stays : d'.record = d.record → Writes material p d event d'
  | writes {candidate next : PersistedOrgRecord} : Candidate material p d event candidate →
      writeOrgRecord p d.native d.record candidate = .ok next → d'.record = some next →
      d'.native = d.native → Writes material p d event d'
  | retires {only : Option (Rows × String)} {record retired : PersistedOrgRecord}
      {changed : Bool} : d.record = some record →
      retireCompletedAcceptances p d'.native record only = .ok (retired, changed) →
      d'.record = some (if changed then retired else record) → Writes material p d event d'

theorem writes_commitOffer {event : Event} {candidate : PersistedOrgRecord}
    {link : Option (String × Option String)} {acceptance : Option PendingAcceptance}
    (heq : candidate = s.toRecord.withOffer id link acceptance)
    (hcandidate : Candidate material p d event candidate)
    (hok : d.commitOffer p s id link acceptance refused = .ok d') :
    Writes material p d event d' := by
  obtain ⟨next, hwrite, rfl⟩ := commitOffer_eq_ok hok
  rw [← heq] at hwrite
  exact .writes hcandidate hwrite rfl rfl

theorem writes_step (h : Consistent p d) {event : Event} (hrestores : event.Restores material) :
    Writes material p d event (d.step p event) := by
  have hkeep {result : Except OrgError Device}
      (hok : ∀ d', result = .ok d' → Writes material p d event d') :
      Writes material p d event (d.orKeep result) := by
    rcases hresult : result with error | d'
    · exact .stays rfl
    · exact hok d' hresult
  cases event with
  | join ownPeerId roster refused =>
    refine hkeep fun d' hok => ?_
    obtain ⟨-, next, hwrite, rfl⟩ := joinOrg_eq_ok hok
    exact .writes (.new rfl rfl) hwrite rfl rfl
  | restart => exact .stays rfl
  | roster => exact .stays rfl
  | dmOffer => exact .stays rfl
  | groupOffer => exact .stays rfl
  | acceptDm id prepared refused =>
    refine hkeep fun d' hok => ?_
    obtain ⟨s, link, pending, hs, hregisters, hok⟩ := acceptDmOffer_eq_ok h hrestores hok
    exact writes_commitOffer rfl (.accepted hs hregisters rfl) hok
  | acceptGroup id prepared refused =>
    refine hkeep fun d' hok => ?_
    obtain ⟨s, link, pending, hs, hregisters, hok⟩ := acceptGroupOffer_eq_ok h hrestores hok
    exact writes_commitOffer rfl (.accepted hs hregisters rfl) hok
  | reexpose id =>
    refine hkeep fun d' hok => ?_
    rcases reexposeAcceptance_eq_ok h hok with rfl | ⟨s, pending, -, -, -, -, rfl⟩
    · exact .stays rfl
    · exact .stays rfl
  | dismissDm id refused =>
    refine hkeep fun d' hok => ?_
    rcases dismissDmOffer_eq_ok hok with rfl | ⟨s, hs, -, hok⟩
    · exact .stays rfl
    · exact writes_commitOffer rfl (.dismissed hs rfl rfl) hok
  | dismissGroup id refused =>
    refine hkeep fun d' hok => ?_
    rcases dismissGroupOffer_eq_ok hok with rfl | ⟨s, hs, -, hok⟩
    · exact .stays rfl
    · exact writes_commitOffer rfl (.dismissed hs rfl rfl) hok
  | sendDm target uri published refused =>
    refine hkeep fun d' hok => ?_
    obtain ⟨s, candidate, d₁, next, hs, hresolved, hpending, hpersist, hd'⟩ := sendDmOffer_eq_ok hok
    obtain ⟨hwrite, rfl⟩ := persistRecord_eq_ok hpersist
    rcases hd' with rfl | rfl
    · exact .writes (.stale hs hresolved hpending) hwrite rfl rfl
    · exact .writes (.stale hs hresolved hpending) hwrite rfl rfl
  | linkDm peerId sessionId refused =>
    obtain ⟨d₀, rfl, hlink | ⟨s, d₁, next, hs, hpersist, hlink⟩⟩ :=
      linkDm_cases (p := p) d peerId sessionId refused
    · rw [Device.step, hlink]
      exact .stays rfl
    · rw [Device.step, hlink]
      obtain ⟨hwrite, rfl⟩ := persistRecord_eq_ok hpersist
      obtain ⟨s', hs', rfl⟩ := Option.map_eq_some_iff.1 hs
      exact .writes (.stale hs' rfl rfl) hwrite rfl rfl
  | poll =>
    rcases refreshAcceptances_cases d with hrefresh | ⟨s, record, -, -, hrefresh⟩
    · rw [Device.step, hrefresh]
      exact .stays rfl
    · rw [Device.step, hrefresh]
      exact .stays rfl
  | write native => exact .stays rfl
  | finish native table id refused =>
    refine hkeep fun d' hok => ?_
    rcases finishJoin_eq_ok hok with ⟨-, rfl⟩ | ⟨record, retired, changed, hrecord, hretire, rfl⟩
    · exact .stays rfl
    · exact .retires hrecord hretire rfl

/-- What was resolved stays resolved. -/
theorem resolved_step (h : Consistent p d) {event : Event} (hrestores : event.Restores material)
    {record : PersistedOrgRecord} (hrecord : d.record = some record) :
    ∃ next, (d.step p event).record = some next ∧
      record.resolvedOfferIds ⊆ next.resolvedOfferIds := by
  rcases writes_step h hrestores with hstays | ⟨-, hwrite, hnext, -⟩ | ⟨hrecord', hretire, hnext⟩
  · exact ⟨record, hstays.trans hrecord, Finset.Subset.refl _⟩
  · rw [hrecord] at hwrite
    exact ⟨_, hnext, (resolved_subset_write hwrite).1⟩
  · obtain rfl := Option.some.inj (hrecord.symm.trans hrecord')
    refine ⟨_, hnext, ?_⟩
    split
    · intro id hid
      have hspec := retireCompletedAcceptances_spec (h.record record hrecord).disjoint hretire id
      exact hspec.1.2 (.inl hid)
    · exact Finset.Subset.refl _

/-- What is written of an acceptance that is stored. -/
theorem Candidate.continues {event : Event} {record candidate : PersistedOrgRecord}
    (h : Candidate material p d event candidate) (hconsistent : Consistent p d)
    (hrecord : d.record = some record)
    (hpending : record.pendingAcceptances[id]? = some pending) (hsome : pending.recovery.isSome) :
    (id ∈ candidate.resolvedOfferIds → event.Dismisses id) ∧
      ∃ pending', (candidate.pendingAcceptances[id]?).or (some pending) = some pending' ∧
        Continues material pending pending' := by
  have hopen : id ∉ record.resolvedOfferIds := fun hmem => by
    rw [(hconsistent.record record hrecord).disjoint id hmem] at hpending
    cases hpending
  -- Memory has the acceptance as well.
  have hmemory {s : OrgSession} (hs : d.session = some s) :
      id ∉ s.resolvedOfferIds ∧ s.pendingAcceptances[id]? = some pending := by
    obtain ⟨-, record', hrecord', hagrees⟩ := hconsistent.session s hs
    obtain rfl := Option.some.inj (hrecord.symm.trans hrecord')
    exact ⟨fun hmem => hopen (hagrees.resolved hmem), (hagrees.same id hopen).trans hpending⟩
  cases h with
  | new hresolved hnone =>
    rw [hresolved, hnone]
    exact ⟨fun hmem => absurd hmem (Finset.notMem_empty _), pending, by simp, .refl⟩
  | stale hs hresolved hsame =>
    obtain ⟨hnot, hrow⟩ := hmemory hs
    rw [hresolved, hsame, hrow]
    exact ⟨fun hmem => absurd hmem hnot, pending, rfl, .refl⟩
  | @accepted s other link pending' hs hregisters heq =>
    obtain ⟨hnot, hrow⟩ := hmemory hs
    subst heq
    refine ⟨fun hmem => absurd hmem hnot, ?_⟩
    rw [getElem?_withOffer]
    split
    · next heq =>
      subst heq
      exact ⟨pending', rfl, hregisters.continues pending hrow hsome⟩
    · exact ⟨pending, by rw [hrow]; rfl, .refl⟩
  | @dismissed s other hs hdismisses heq =>
    obtain ⟨hnot, hrow⟩ := hmemory hs
    subst heq
    refine ⟨fun hmem => ?_, ?_⟩
    · rcases Finset.mem_insert.1 hmem with rfl | hmem
      · exact hdismisses
      · exact absurd hmem hnot
    · rw [getElem?_withOffer]
      split
      · exact ⟨pending, rfl, .refl⟩
      · exact ⟨pending, by rw [hrow]; rfl, .refl⟩

/-- An acceptance stays pending, or it is resolved because the user dismissed its offer or the
    conversation is durable. -/
theorem pending_step (h : Consistent p d) {event : Event} (hrestores : event.Restores material)
    {record : PersistedOrgRecord} (hrecord : d.record = some record)
    (hpending : record.pendingAcceptances[id]? = some pending) (hsome : pending.recovery.isSome) :
    ∃ next, (d.step p event).record = some next ∧
      ((∃ pending', next.pendingAcceptances[id]? = some pending' ∧
          Continues material pending pending') ∨
        (id ∈ next.resolvedOfferIds ∧
          (event.Dismisses id ∨ Durable p (d.step p event).native pending))) := by
  have hsound := h.record record hrecord
  have hopen : id ∉ record.resolvedOfferIds := fun hmem => by
    rw [hsound.disjoint id hmem] at hpending
    cases hpending
  rcases writes_step h hrestores with hstays | ⟨hcandidate, hwrite, hnext, hnative⟩ |
    ⟨hrecord', hretire, hnext⟩
  · exact ⟨record, hstays.trans hrecord, .inl ⟨pending, hpending, .refl⟩⟩
  · rw [hrecord] at hwrite
    refine ⟨_, hnext, ?_⟩
    obtain ⟨hdismisses, pending', hmerged, hcontinues⟩ :=
      hcandidate.continues h hrecord hpending hsome
    obtain ⟨hiff, hrow⟩ := writeOrgRecord_spec hwrite id
    rw [Option.bind_some, hpending, hmerged] at hiff hrow
    split at hrow
    · next hmem =>
      refine .inr ⟨hmem, ?_⟩
      rcases hiff.1 hmem with hmem | ⟨record', hrecord', hmem⟩ | ⟨pending'', heq, hdurable⟩
      · exact .inl (hdismisses hmem)
      · exact absurd (Option.some.inj hrecord' ▸ hmem) hopen
      · obtain rfl := Option.some.inj heq
        rw [hnative]
        exact .inr (hcontinues.durable_iff.1 hdurable)
    · exact .inl ⟨pending', hrow, hcontinues⟩
  · obtain rfl := Option.some.inj (hrecord.symm.trans hrecord')
    refine ⟨_, hnext, ?_⟩
    obtain ⟨hiff, hrow⟩ := retireCompletedAcceptances_spec hsound.disjoint hretire id
    split
    · split at hrow
      · next hmem =>
        refine .inr ⟨hmem, .inr ?_⟩
        rcases hiff.1 hmem with hmem | ⟨pending', hpending', -, hdurable⟩
        · exact absurd hmem hopen
        · obtain rfl := Option.some.inj (hpending.symm.trans hpending')
          exact hdurable
      · exact .inl ⟨pending, hrow.trans hpending, .refl⟩
    · exact .inl ⟨pending, hpending, .refl⟩

end Steps

/-! ## Runs -/

section Runs

variable {p : Platform} {K : Type} {material : PendingJoinRecovery → Set K} {d d' start : Device} {id : String}
  {pending pending' : PendingAcceptance} {event : Event} {events before after : List Event}

/-- No session yet, and a record that is sound if there is one. -/
structure Start (p : Platform) (d : Device) : Prop where
  session : d.session = none
  record : ∀ record, d.record = some record → Sound p record

theorem Start.consistent (h : Start p d) : Consistent p d where
  record := h.record
  session s hs := by
    rw [h.session] at hs
    cases hs

def Device.Resolved (d : Device) (id : String) : Prop :=
  ∃ record, d.record = some record ∧ id ∈ record.resolvedOfferIds

/-- Somewhere in a run an offer is resolved, by the user or because its conversation is durable. -/
def Settled (p : Platform) (id : String) (pending : PendingAcceptance) :
    Device → List Event → Prop
  | _, [] => False
  | d, event :: events =>
    ((event.Dismisses id ∨ Durable p (d.step p event).native pending) ∧
      (d.step p event).Resolved id) ∨ Settled p id pending (d.step p event) events

theorem Settled.of_continues (hcontinues : Continues material pending pending')
    (h : Settled p id pending' d events) : Settled p id pending d events := by
  induction events generalizing d with
  | nil => exact h
  | cons event events ih =>
    rcases h with ⟨hevent, hresolved⟩ | h
    · exact .inl ⟨hevent.imp_right hcontinues.durable_iff.1, hresolved⟩
    · exact .inr (ih h)

theorem consistent_run (h : Consistent p d)
    (hrun : Runs (Device.step p) (fun _ event => event.Restores material) d events d') :
    Consistent p d' :=
  hrun.invariant (fun _ _ hrestores h => h.step hrestores) h

theorem resolved_run (h : Consistent p d)
    (hrun : Runs (Device.step p) (fun _ event => event.Restores material) d events d')
    {record : PersistedOrgRecord} (hrecord : d.record = some record) :
    ∃ record', d'.record = some record' ∧
      record.resolvedOfferIds ⊆ record'.resolvedOfferIds := by
  induction hrun generalizing record with
  | nil => exact ⟨record, hrecord, Finset.Subset.refl _⟩
  | cons hrestores _ ih =>
    obtain ⟨next, hnext, hsub⟩ := resolved_step h hrestores hrecord
    obtain ⟨record', hrecord', hsub'⟩ := ih (h.step hrestores) hnext
    exact ⟨record', hrecord', hsub.trans hsub'⟩

/-- An acceptance stays pending in a run until it is settled. -/
theorem pending_run (h : Consistent p d)
    (hrun : Runs (Device.step p) (fun _ event => event.Restores material) d events d')
    {record : PersistedOrgRecord} (hrecord : d.record = some record)
    (hpending : record.pendingAcceptances[id]? = some pending) (hsome : pending.recovery.isSome) :
    ∃ record', d'.record = some record' ∧
      ((∃ pending', record'.pendingAcceptances[id]? = some pending' ∧
          Continues material pending pending') ∨
        (id ∈ record'.resolvedOfferIds ∧ Settled p id pending d events)) := by
  induction hrun generalizing record pending with
  | nil => exact ⟨record, hrecord, .inl ⟨pending, hpending, .refl⟩⟩
  | cons hrestores hrest ih =>
    obtain ⟨next, hnext, hstill | ⟨hmem, hevent⟩⟩ :=
      pending_step h hrestores hrecord hpending hsome
    · obtain ⟨pending', hpending', hcontinues⟩ := hstill
      obtain ⟨recovery, hrecovery⟩ := Option.isSome_iff_exists.1 hsome
      obtain ⟨recovery', hrecovery', -⟩ := hcontinues.recovery recovery hrecovery
      obtain ⟨record', hrecord', hend⟩ :=
        ih (h.step hrestores) hnext hpending' (by rw [hrecovery']; rfl)
      refine ⟨record', hrecord', ?_⟩
      rcases hend with ⟨pending'', hpending'', hcontinues'⟩ | ⟨hmem, hsettled⟩
      · exact .inl ⟨pending'', hpending'', hcontinues.trans hcontinues'⟩
      · exact .inr ⟨hmem, .inr (hsettled.of_continues hcontinues)⟩
    · -- It is resolved now, and stays so.
      obtain ⟨record', hrecord', hsub⟩ := resolved_run (h.step hrestores) hrest hnext
      exact ⟨record', hrecord', .inr ⟨hsub hmem, .inl ⟨hevent, next, hnext, hmem⟩⟩⟩

/-! ## What is shown -/

/-- Memory has seen what is resolved on disk. -/
theorem Agrees.seen {s : OrgSession} {record : PersistedOrgRecord} (hagrees : Agrees s record)
    (horderly : Orderly p s) (hid : id ∈ record.resolvedOfferIds) :
    id ∈ s.resolvedOfferIds ∨ id ∈ s.seenOfferIds := by
  refine (hagrees.known id hid).imp_right fun hsome => ?_
  obtain ⟨pending, hpending⟩ := Option.isSome_iff_exists.1 hsome
  exact horderly.seen id pending hpending

theorem nodup_shown (h : Consistent p d) : d.shown.Nodup := by
  have hpoll : Consistent p d.refreshAcceptances := h.poll
  rw [Device.shown]
  rcases hs : d.refreshAcceptances.session with - | s
  · exact List.nodup_nil
  · exact (hpoll.session s hs).1.nodup

/-- What is resolved on disk is not shown, even if memory does not know yet. -/
theorem not_mem_shown (h : Consistent p d) {record : PersistedOrgRecord}
    (hrecord : d.record = some record) (hid : id ∈ record.resolvedOfferIds) : id ∉ d.shown := by
  rw [Device.shown, Device.refreshAcceptances, hrecord]
  rcases hs : d.session with - | s
  · simp [hs]
  · obtain ⟨horderly, record', hrecord', hagrees⟩ := h.session s hs
    obtain rfl := Option.some.inj (hrecord.symm.trans hrecord')
    simp only
    split
    · next hempty =>
      -- Nothing is pending in memory, so it knows all that is resolved.
      rw [hs]
      intro hmem
      rcases hagrees.known id hid with hknown | hsome
      · exact (horderly.offered id hmem).2 hknown
      · rw [ExtTreeMap.isEmpty_iff.1 hempty, ExtTreeMap.getElem?_empty] at hsome
        cases hsome
    · intro hmem
      exact (horderly.extendResolved.offered id hmem).2 (Finset.mem_union_right _ hid)

theorem mem_shown_rehydrate (h : Consistent p d) {record : PersistedOrgRecord}
    (hrecord : d.record = some record) (ownPeerId : String) (roster : Option (List String))
    (hpending : (record.pendingAcceptances[id]?).isSome) :
    id ∈ (d.rehydrate ownPeerId roster).shown := by
  have hsound := h.record record hrecord
  obtain ⟨horderly, -, hshown⟩ := buildSession_spec hsound ownPeerId roster
  have hopen : id ∉ record.resolvedOfferIds := fun hmem => by
    rw [hsound.disjoint id hmem] at hpending
    cases hpending
  have hmem := (hshown id).2 hpending
  rw [Device.shown, Device.refreshAcceptances, Device.rehydrate, hrecord]
  simp only [Option.map_some]
  split
  · exact hmem
  · rw [Option.elim_some, OrgSession.extendResolved, offerIds_prune, List.mem_filter,
      decide_eq_true_eq]
    refine ⟨hmem, fun hres => ?_⟩
    rcases Finset.mem_union.1 hres with hres | hres
    · exact (horderly.offered id hmem).2 hres
    · exact hopen hres

/-- What every run of an organization keeps. What is resolved on disk stays so, and is not pending.
    An acceptance stays pending with its keys until it is settled. What is resolved is not shown,
    and an arrival of it changes nothing. What is pending is shown once after a restart. -/
theorem offers_kept (hstart : Start p start)
    (hbefore : Runs (Device.step p) (fun _ event => event.Restores material) start before d)
    (hafter : Runs (Device.step p) (fun _ event => event.Restores material) d after d')
    {record : PersistedOrgRecord} (hrecord : d.record = some record) :
    ∃ record', d'.record = some record' ∧
      record.resolvedOfferIds ⊆ record'.resolvedOfferIds ∧
      (∀ id ∈ record'.resolvedOfferIds, record'.pendingAcceptances[id]? = none) ∧
      (∀ (id : String) pending, record.pendingAcceptances[id]? = some pending →
        pending.recovery.isSome →
          (∃ pending', record'.pendingAcceptances[id]? = some pending' ∧
            Continues material pending pending') ∨
          (id ∈ record'.resolvedOfferIds ∧ Settled p id pending d after)) ∧
      (∀ id ∈ record'.resolvedOfferIds, id ∉ d'.shown ∧ ∀ s, d'.session = some s →
        (∀ sender target name uri, s.receiveDmOffer p sender target id name uri = s) ∧
          ∀ sender target name label uri,
            s.receiveGroupOffer sender target id name label uri = s) ∧
      d'.shown.Nodup ∧
      ∀ ownPeerId roster (id : String), (record'.pendingAcceptances[id]?).isSome →
        (d'.rehydrate ownPeerId roster).shown.count id = 1 := by
  have h := consistent_run hstart.consistent hbefore
  have h' := consistent_run h hafter
  obtain ⟨record', hrecord', hsub⟩ := resolved_run h hafter hrecord
  refine ⟨record', hrecord', hsub, (h'.record record' hrecord').disjoint, ?_, ?_,
    nodup_shown h', ?_⟩
  · intro id pending hpending hsome
    obtain ⟨record'', hrecord'', hend⟩ := pending_run h hafter hrecord hpending hsome
    obtain rfl := Option.some.inj (hrecord'.symm.trans hrecord'')
    exact hend
  · intro id hid
    refine ⟨not_mem_shown h' hrecord' hid, fun s hs => ?_⟩
    obtain ⟨horderly, record'', hrecord'', hagrees⟩ := h'.session s hs
    obtain rfl := Option.some.inj (hrecord'.symm.trans hrecord'')
    have hseen := hagrees.seen horderly hid
    constructor
    · intro sender target name uri
      rcases receiveDmOffer_cases (p := p) s sender target id name uri with heq | ⟨hopen, hnew, -⟩
      · exact heq
      · exact absurd hseen (not_or.2 ⟨hopen, hnew⟩)
    · intro sender target name label uri
      rcases receiveGroupOffer_cases s sender target id name label uri with
        heq | ⟨hopen, hnew, -⟩
      · exact heq
      · exact absurd hseen (not_or.2 ⟨hopen, hnew⟩)
  · intro ownPeerId roster id hpending
    exact List.count_eq_one_of_mem (nodup_shown (h'.rehydrate ownPeerId roster))
      (mem_shown_rehydrate h' hrecord' ownPeerId roster hpending)

end Runs

/-- The states of MLS are their snapshots here, and the signer is the first key. -/
def plainMls : JoinMls (List UInt8) where
  new _ := .ok [7, 8]
  randomToken _ := .ok "participant"
  restore _ signer snapshot _ := if snapshot.take 1 = signer then .ok snapshot else .error "signer"
  restoreUnjoined _ signer snapshot :=
    if snapshot.take 1 = signer then .ok snapshot else .error "signer"
  isReady _ := false
  keyPackageBytes x := if x = [] then .error "no signer" else .ok ([9], x ++ [9])
  signerPublic x := x.take 1
  snapshot x := x
  groupIdBytes _ := none

theorem plainMls_lawful : plainMls.Lawful fun snapshot => {key | key ∈ snapshot} where
  restore h := by
    change (if _ then _ else _) = _ at h
    split at h
    · next heq =>
      obtain rfl := Except.ok.inj h
      exact ⟨heq, fun _ => id⟩
    · cases h
  restoreUnjoined h := by
    change (if _ then _ else _) = _ at h
    split at h
    · next heq =>
      obtain rfl := Except.ok.inj h
      exact ⟨heq, fun _ => id⟩
    · cases h
  keyPackage {x y package} h := by
    change (if x = [] then _ else _) = _ at h
    split at h
    · cases h
    · next hne =>
      obtain ⟨-, rfl⟩ := Prod.mk.inj (Except.ok.inj h)
      obtain ⟨key, rest, rfl⟩ := List.exists_cons_of_ne_nil hne
      exact ⟨rfl, fun _ => List.mem_append_left _⟩

def plainPlatform : Platform where
  dmState _ := .error "not a record"
  groupState _ := .error "not a record"
  verifyOfferedInvite _ _ _ := .ok ()
  sessionOf _ := none
  groupOf uri := if uri = "mosh://group" then some "room" else none

/-- An offer arrives and is accepted, and then arrives again. -/
def offerRun : List Event :=
  [.roster ["me", "bob"], .groupOffer "bob" "me" "offer" "Bob" none "mosh://group",
    .acceptGroup "offer" (plainMls.join "me") false,
    .groupOffer "bob" "me" "offer" "Bob" none "mosh://group"]

/-- The device that joined the organization, and then went through these events. -/
def offerDevice : List Event → Device :=
  List.foldl (Device.step plainPlatform) (({} : Device).step plainPlatform (.join "me" none false))

/-- The accepted offer is pending, and is shown once after a restart. -/
theorem offers_kept_once : ∃ record, (offerDevice offerRun).record = some record ∧
    (record.pendingAcceptances["offer"]?).isSome ∧
    ((offerDevice offerRun).rehydrate "me" none).shown.count "offer" = 1 := by
  have hstart : Start plainPlatform {} := ⟨rfl, fun _ h => by cases h⟩
  have hbefore : Runs (Device.step plainPlatform)
      (fun _ event => event.Restores fun recovery => {key | key ∈ recovery.providerSnapshot}) {}
      [.join "me" none false] (offerDevice []) := .single trivial
  have hafter : Runs (Device.step plainPlatform)
      (fun _ event => event.Restores fun recovery => {key | key ∈ recovery.providerSnapshot})
      (offerDevice []) offerRun (offerDevice offerRun) :=
    .cons trivial (.cons trivial (.cons (plainMls_lawful.restores "me") (.cons trivial (.nil _))))
  have hjoined : (offerDevice []).record.isSome = true := by decide +kernel
  have hpending : ((offerDevice offerRun).record.bind fun record =>
      record.pendingAcceptances["offer"]?).isSome = true := by decide +kernel
  obtain ⟨record, hrecord⟩ := Option.isSome_iff_exists.1 hjoined
  obtain ⟨record', hrecord', -, -, -, -, -, hshown⟩ := offers_kept hstart hbefore hafter hrecord
  rw [hrecord', Option.bind_some] at hpending
  exact ⟨record', hrecord', hpending, hshown "me" none "offer" hpending⟩

end Mosh.Org.Offers
