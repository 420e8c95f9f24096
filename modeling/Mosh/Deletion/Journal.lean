import Mosh.Deletion.Shared
import Mosh.Library.Choice

/-!
# The journal of deletions

A device keeps its deletions in a journal, under their storage keys. A record that
comes in is merged with the one that is there (`mergeDeletionRow`). The devices of a
conversation compare digests of what they hold (`digest`), and exchange their records
as long as these differ.

Of two versions of a record the confirmed one stays, then the rejected one; of two
confirmed ones that of the lowest actor (`rank`). But versions with the same rank
are not told apart: the first one of two confirmed ones stays, and the second one of
two others.

* `merged_isChoice`: merging chooses by rank.
* `deletions_converge_iff`: devices that merge the same records hold the same journals and
  the same digests in the end, and merging is commutative, if and only if the rank
  tells the records under a key apart. It is idempotent and associative anyway.
* `receipts_diverge`: two receipts of one actor, which differ in their proof of the
  account, leave devices with different journals.
-/

namespace Mosh.Deletion

open Choice DeletionRecord

/-- The journal, by storage keys. -/
abbrev Journal := Std.ExtTreeMap String DeletionRecord compare

/-- The records of a journal, in the order of their keys. -/
def Journal.records (journal : Journal) : List DeletionRecord := journal.toList.map (·.2)

/-- What is filed under the storage key of an incoming record. -/
def mergedRow (journal : Journal) (incoming : DeletionRecord) : DeletionRecord :=
  match journal[incoming.storageKey]? with
  | some current => current.merged incoming
  | none => incoming

/-- Merges a record into the journal. -/
def mergeDeletionRow (journal : Journal) (incoming : DeletionRecord) : Journal :=
  journal.insert incoming.storageKey (mergedRow journal incoming)

/-- The journal of a device that merged the records one after the other. -/
def journalOf (records : List DeletionRecord) : Journal := records.foldl mergeDeletionRow ∅

/-- Saves the deletions that come from another device of the account, all or none. -/
def saveAccountDeletions (c : DeletionCrypto) (user : String) (records : List DeletionRecord)
    (journal : Journal) : Except String Journal := do
  records.forM (checkAccountDeletion c user)
  return records.foldl mergeDeletionRow journal

/-! ## The authority over deletions -/

/-- The user of a device in a conversation. -/
structure DeletionActor where
  key : String
  name : String
  epoch : Nat
  ownership : Option String

/-- The keys of the own accounts, with their users, and those that were revoked. -/
structure OwnAccounts where
  accounts : String → Option String
  revoked : Finset String

namespace OwnAccounts

variable (c : DeletionCrypto) (own : OwnAccounts)

/-- The key, or the device that it belongs to, was revoked. -/
def isRevoked (key : String) (proof : Option String) : Bool :=
  if key ∈ own.revoked then true
  else
    match proof.map (verifiedProof c · key) with
    | some (.ok proof) =>
      let subject := proof.certificate.subject
      if (own.accounts subject).isSome then subject ∈ own.revoked
      else proof.certificate.keys.any (· ∈ own.revoked)
    | _ => false

/-- The user of a key, or of the device that it belongs to. -/
def account (key : String) (proof : Option String) : Option String :=
  match own.accounts key with
  | some user => some user
  | none =>
    match proof.map (verifiedProof c · key) with
    | some (.ok proof) => own.accounts proof.certificate.subject
    | _ => none

/-- Two keys belong to the same user. -/
def sameAccount (left : String) (leftProof : Option String) (right : String)
    (rightProof : Option String) : Bool :=
  (own.account c left leftProof).any fun user => own.account c right rightProof = some user

end OwnAccounts

/-- The members of a conversation and their roles, as a device sees them. -/
structure DeletionAuthority where
  localActor : DeletionActor
  members : Finset String
  admins : Finset String
  accepted : Finset String
  accounts : String → Option String
  own : OwnAccounts
  publicChannel : Bool

namespace DeletionAuthority

variable (c : DeletionCrypto) (authority : DeletionAuthority)

def member (key : String) : Bool :=
  key ∉ authority.own.revoked && (authority.publicChannel || key ∈ authority.members)

def memberWithProof (key : String) (proof : Option String) : Bool :=
  authority.member key && !authority.own.isRevoked c key proof

def sameAccount (left right : String) : Bool :=
  left = right || (authority.accounts left).any fun a => authority.accounts right = some a

def otherAccount (request : DeleteRequest) (key : String) (proof : Option String) : Bool :=
  request.ownership.isSome && proof.isSome && !authority.sameAccount key request.actor &&
    !authority.own.sameAccount c key proof request.actor request.ownership &&
    !Deletion.sameAccount c key proof request.actor request.ownership

def mayAckWithProof (request : DeleteRequest) (key : String) (proof : Option String) : Bool :=
  authority.memberWithProof c key proof && authority.otherAccount c request key proof

/-- The receipt is vouched for by an administrator. -/
def endorsed (record : DeletionRecord) (request : DeleteRequest) (carrier : String) : Bool :=
  record.status = .confirmed && (carrier ∈ authority.admins ||
    record.acknowledgement.any fun ack =>
      ack.actor ∈ authority.admins && authority.mayAckWithProof c request ack.actor ack.ownership)

/-- The actor may delete the message. -/
def authorized (record : DeletionRecord) (request : DeleteRequest) (carrier : String) : Bool :=
  if request.moderated then
    request.actor ∈ authority.admins || authority.endorsed c record request carrier
  else
    authority.sameAccount request.actor request.target.author ||
      Deletion.sameAccount c request.actor request.ownership request.target.author
        request.target.ownership

/-- A deletion that a member brings is permitted. -/
def validate (record : DeletionRecord) (carrier : String) : Except String Unit := do
  if !authority.member carrier then throw "deletion carrier is not a member"
  let some request := record.request | throw "missing deletion request"
  if record.status = .confirmed then
    if (← request.digest c) ∈ authority.accepted then return
  let endorsed := authority.endorsed c record request carrier
  let member := authority.memberWithProof c request.actor request.ownership
  if authority.localActor.epoch < request.epoch || (!member && !endorsed) then
    throw "deletion author left or epoch is ahead"
  if !authority.authorized c record request carrier then throw "deletion permission denied"
  if let some ack := record.acknowledgement then
    if !authority.otherAccount c request ack.actor ack.ownership ||
        (!authority.memberWithProof c ack.actor ack.ownership && !endorsed) then
      throw "ineligible deletion acknowledgement"

/-- The deletion counts for the digest. -/
def counts (record : DeletionRecord) : Bool :=
  record.scope = .forEveryone && record.status ≠ .rejected &&
    (authority.validate c record authority.localActor.key).isOk

end DeletionAuthority

/-- The digest of the shared deletions in a journal. -/
def digest (c : DeletionCrypto) (authority : DeletionAuthority) (journal : Journal) :
    Except String String := do
  return c.sha256 (← c.recordsJson (journal.records.filter (authority.counts c)))

/-! ## Merging chooses -/

/-- Pending records are below rejected ones, and these below confirmed ones. -/
def statusRank : DeletionStatus → Nat
  | .pending => 0
  | .rejected => 1
  | .confirmed => 2

/-- What decides which of two versions of a record stays: the status, then a personal alias, then
    the actor of the receipt, of which the lowest one wins. -/
def rank (r : DeletionRecord) : ℕ ×ₗ Bool ×ₗ (WithBot String)ᵒᵈ :=
  toLex (statusRank r.status, toLex (r.personalCorrelation.isSome, OrderDual.toDual r.actor))

/-- Of two records with the same rank the second one stays, unless they are confirmed. -/
def late (rank : ℕ ×ₗ Bool ×ₗ (WithBot String)ᵒᵈ) : Bool := (ofLex rank).1 ≠ 2

variable {a b r : DeletionRecord}

theorem statusRank_inj {s t : DeletionStatus} : statusRank s = statusRank t ↔ s = t := by
  cases s <;> cases t <;> decide

theorem statusRank_lt_confirmed {s : DeletionStatus} (h : s ≠ .confirmed) :
    statusRank s < statusRank .confirmed := by
  cases s with
  | pending => decide
  | rejected => decide
  | confirmed => exact absurd rfl h

theorem rank_eq_iff : rank a = rank b ↔ a.status = b.status ∧
    a.personalCorrelation.isSome = b.personalCorrelation.isSome ∧ a.actor = b.actor := by
  simp [rank, statusRank_inj]

theorem rank_lt_of_status (h : statusRank a.status < statusRank b.status) : rank a < rank b :=
  Prod.Lex.toLex_lt_toLex.2 (.inl h)

theorem rank_lt_of_correlation (hs : a.status = b.status) (ha : a.personalCorrelation = none)
    (hb : b.personalCorrelation ≠ none) : rank a < rank b := by
  refine Prod.Lex.toLex_lt_toLex.2 (.inr ⟨by rw [hs], Prod.Lex.toLex_lt_toLex.2 (.inl ?_)⟩)
  rw [ha, Option.isSome_iff_ne_none.2 hb]
  exact Bool.false_lt_true

theorem rank_lt_of_actor (hs : a.status = b.status)
    (hc : a.personalCorrelation.isSome = b.personalCorrelation.isSome) (h : b.actor < a.actor) :
    rank a < rank b :=
  Prod.Lex.toLex_lt_toLex.2 (.inr ⟨by rw [hs], Prod.Lex.toLex_lt_toLex.2 (.inr ⟨hc, h⟩)⟩)

/-- Of two confirmed records with the same rank the first one stays. -/
theorem late_of_confirmed (h : a.status = .confirmed) : ¬late (rank a) := by
  simp [late, rank, h, statusRank]

/-- Of two others the second one stays. -/
theorem late_of_ne_confirmed (h : a.status ≠ .confirmed) : late (rank a) := by
  have hne : statusRank a.status ≠ 2 := (statusRank_lt_confirmed h).ne
  exact decide_eq_true hne

/-- Without a receipt there is no actor. -/
theorem actor_eq_bot (h : r.acknowledgement = none) : r.actor = ⊥ := by
  rw [actor, h]
  rfl

/-- A receipt has an actor. -/
theorem bot_lt_actor (h : r.acknowledgement.isSome) : ⊥ < r.actor := by
  obtain ⟨ack, hack⟩ := Option.isSome_iff_exists.1 h
  rw [actor, hack]
  exact WithBot.bot_lt_coe _

/-- A shared record that is not confirmed has no actor. -/
theorem actor_eq_bot_of_ne (hack : r.status = .confirmed ↔ r.acknowledgement.isSome)
    (h : r.status ≠ .confirmed) : r.actor = ⊥ := by
  refine actor_eq_bot (Option.not_isSome_iff_eq_none.1 ?_)
  rwa [← hack]

/-- Two personal deletions: one with an alias stays, and otherwise the first one. -/
theorem merged_personal (ha : a.scope = .forMe) (hastatus : a.status = .confirmed)
    (haack : a.acknowledgement = none) (hbstatus : b.status = .confirmed)
    (hback : b.acknowledgement = none) : a.merged b = choose rank late a b := by
  have hs : a.status = b.status := hastatus.trans hbstatus.symm
  have hactor : a.actor = b.actor := (actor_eq_bot haack).trans (actor_eq_bot hback).symm
  have hkeep : ¬(a.personalCorrelation = none ∧ b.personalCorrelation ≠ none) →
      a.merged b = a := by
    intro hn
    rw [merged, if_neg fun h => hn h.2, if_pos ⟨hastatus, .inr hactor.le⟩]
  by_cases hac : a.personalCorrelation = none
  · by_cases hbc : b.personalCorrelation = none
    · have hr : rank a = rank b := rank_eq_iff.2 ⟨hs, by rw [hac, hbc], hactor⟩
      rw [hkeep fun h => h.2 hbc, choose_of_eq hr, if_neg (late_of_confirmed hastatus)]
    · rw [choose_of_lt (rank_lt_of_correlation hs hac hbc), merged, if_pos ⟨ha, hac, hbc⟩]
  · rw [hkeep fun h => hac h.1]
    by_cases hbc : b.personalCorrelation = none
    · rw [choose_of_gt (rank_lt_of_correlation hs.symm hbc hac)]
    · have hr : rank a = rank b := rank_eq_iff.2 ⟨hs, by
        rw [Option.isSome_iff_ne_none.2 hac, Option.isSome_iff_ne_none.2 hbc], hactor⟩
      rw [choose_of_eq hr, if_neg (late_of_confirmed hastatus)]

/-- A personal deletion ranks above a shared one. -/
theorem rank_shared_lt_personal (hbstatus : b.status = .confirmed)
    (hback : b.acknowledgement = none) (hacorrelation : a.personalCorrelation = none)
    (haack : a.status = .confirmed ↔ a.acknowledgement.isSome) : rank a < rank b := by
  by_cases hs : a.status = .confirmed
  · have hs' : a.status = b.status := hs.trans hbstatus.symm
    by_cases hbc : b.personalCorrelation = none
    · refine rank_lt_of_actor hs' (by rw [hacorrelation, hbc]) ?_
      rw [actor_eq_bot hback]
      exact bot_lt_actor (haack.1 hs)
    · exact rank_lt_of_correlation hs' hacorrelation hbc
  · refine rank_lt_of_status ?_
    rw [hbstatus]
    exact statusRank_lt_confirmed hs

/-- Two shared deletions: the further status stays, then the lower actor. -/
theorem merged_shared (hacorrelation : a.personalCorrelation = none)
    (haack : a.status = .confirmed ↔ a.acknowledgement.isSome)
    (hbcorrelation : b.personalCorrelation = none)
    (hback : b.status = .confirmed ↔ b.acknowledgement.isSome) :
    a.merged b = choose rank late a b := by
  have hc : a.personalCorrelation.isSome = b.personalCorrelation.isSome := by
    rw [hacorrelation, hbcorrelation]
  have hfirst : ¬(a.scope = .forMe ∧ a.personalCorrelation = none ∧
      b.personalCorrelation ≠ none) := fun h => h.2.2 hbcorrelation
  rw [merged, if_neg hfirst]
  by_cases has : a.status = .confirmed
  · by_cases hbs : b.status = .confirmed
    · have hs : a.status = b.status := has.trans hbs.symm
      obtain hlt | heq | hgt := lt_trichotomy a.actor b.actor
      · rw [if_pos ⟨has, .inr hlt.le⟩, choose_of_gt (rank_lt_of_actor hs.symm hc.symm hlt)]
      · rw [if_pos ⟨has, .inr heq.le⟩, choose_of_eq (rank_eq_iff.2 ⟨hs, hc, heq⟩),
          if_neg (late_of_confirmed has)]
      · rw [if_neg fun h => h.2.elim (fun hne => hne hbs) (fun hle => hgt.not_ge hle),
          if_neg fun h => by simp [has] at h, choose_of_lt (rank_lt_of_actor hs hc hgt)]
    · rw [if_pos ⟨has, .inl hbs⟩, choose_of_gt (rank_lt_of_status ?_)]
      rw [has]
      exact statusRank_lt_confirmed hbs
  · rw [if_neg fun h => has h.1]
    -- neither of the statuses below decides by the actor, as only a confirmed record has one
    have heq : a.status = b.status → rank a = rank b := fun hs =>
      rank_eq_iff.2 ⟨hs, hc, (actor_eq_bot_of_ne haack has).trans
        (actor_eq_bot_of_ne hback (hs ▸ has)).symm⟩
    have hlate : late (rank a) := late_of_ne_confirmed has
    cases hsa : a.status with
    | confirmed => exact absurd hsa has
    | pending =>
      rw [if_neg fun h => by cases h.1]
      cases hsb : b.status with
      | pending => rw [choose_of_eq (heq (hsa.trans hsb.symm)), if_pos hlate]
      | rejected => rw [choose_of_lt (rank_lt_of_status (by rw [hsa, hsb]; decide))]
      | confirmed => rw [choose_of_lt (rank_lt_of_status (by rw [hsa, hsb]; decide))]
    | rejected =>
      cases hsb : b.status with
      | pending => rw [if_pos ⟨rfl, rfl⟩, choose_of_gt (rank_lt_of_status (by rw [hsa, hsb]; decide))]
      | rejected =>
        rw [if_neg (fun h => by cases h.2), choose_of_eq (heq (hsa.trans hsb.symm)), if_pos hlate]
      | confirmed =>
        rw [if_neg (fun h => by cases h.2),
          choose_of_lt (rank_lt_of_status (by rw [hsa, hsb]; decide))]

/-- Merging chooses by rank, among records of the two kinds. -/
theorem merged_isChoice : IsChoice merged rank late {r | Shape r} := by
  intro a ha b hb
  cases ha with
  | personal hascope hastatus haack =>
    cases hb with
    | personal _ hbstatus hback => exact merged_personal hascope hastatus haack hbstatus hback
    | shared _ hbcorrelation hback =>
      have hactor : a.actor ≤ b.actor := by
        rw [actor_eq_bot haack]
        exact bot_le
      rw [choose_of_gt (rank_shared_lt_personal hastatus haack hbcorrelation hback), merged,
        if_neg fun h => h.2.2 hbcorrelation, if_pos ⟨hastatus, .inr hactor⟩]
  | shared hascope hacorrelation haack =>
    cases hb with
    | personal _ hbstatus hback =>
      rw [choose_of_lt (rank_shared_lt_personal hbstatus hback hacorrelation haack), merged,
        if_neg fun h => by simp [hascope] at h, if_neg ?_, if_neg fun h => by simp [hbstatus] at h]
      rintro ⟨hs, h | h⟩
      · exact h hbstatus
      · rw [actor_eq_bot hback] at h
        exact h.not_gt (bot_lt_actor (haack.1 hs))
    | shared _ hbcorrelation hback =>
      exact merged_shared hacorrelation haack hbcorrelation hback

/-! ## Convergence -/

/-- A journal as a register. -/
def lookup (journal : Journal) (key : String) : Option DeletionRecord := journal[key]?

/-- A record that is merged into a journal is filed under its key, and the others stay. -/
theorem getElem?_mergeDeletionRow (journal : Journal) (incoming : DeletionRecord) (k : String) :
    (mergeDeletionRow journal incoming)[k]? =
      if incoming.storageKey = k then some (mergedRow journal incoming) else journal[k]? := by
  rw [mergeDeletionRow, Std.ExtTreeMap.getElem?_insert]
  by_cases hk : incoming.storageKey = k
  · rw [if_pos (Std.compare_eq_iff_eq.2 hk), if_pos hk]
  · rw [if_neg fun h => hk (Std.compare_eq_iff_eq.1 h), if_neg hk]

/-- Merging a record into a journal is absorbing it into a register. -/
theorem lookup_mergeDeletionRow (journal : Journal) (r : DeletionRecord) :
    lookup (mergeDeletionRow journal r) = absorb storageKey merged (lookup journal) r := by
  funext k
  rw [lookup, getElem?_mergeDeletionRow, absorb, Function.update_apply]
  by_cases hk : k = r.storageKey
  · rw [if_pos hk.symm, if_pos hk, mergedRow, lookup]
    cases journal[r.storageKey]? <;> rfl
  · rw [if_neg fun h => hk h.symm, if_neg hk]
    rfl

/-- The register of the merged records. -/
theorem lookup_journalOf (records : List DeletionRecord) :
    lookup (journalOf records) = records.foldl (absorb storageKey merged) fun _ => none := by
  rw [journalOf]
  have h : ∀ journal, lookup (records.foldl mergeDeletionRow journal) =
      records.foldl (absorb storageKey merged) (lookup journal) := by
    induction records with
    | nil => exact fun _ => rfl
    | cons r rs ih =>
      intro journal
      rw [List.foldl_cons, ih, lookup_mergeDeletionRow, List.foldl_cons]
  rw [h]
  congr 1

/-- Journals with the same registers are the same. -/
theorem lookup_inj {j₁ j₂ : Journal} : lookup j₁ = lookup j₂ ↔ j₁ = j₂ :=
  ⟨fun h => Std.ExtTreeMap.ext_getElem? fun k => congrFun h k, fun h => h ▸ rfl⟩

/-- A journal holds records that were merged into it. -/
theorem mem_of_mem_journalOf {records : List DeletionRecord} (hshape : ∀ r ∈ records, Shape r)
    (h : r ∈ (journalOf records).records) : r ∈ records := by
  obtain ⟨⟨k, r'⟩, hmem, rfl⟩ := List.mem_map.1 h
  have hk : lookup (journalOf records) k = some r' :=
    Std.ExtTreeMap.mem_toList_iff_getElem?_eq_some.1 hmem
  rw [lookup_journalOf, foldl_absorb] at hk
  have hfilter : ∀ r ∈ records.filter (storageKey · = k), Shape r :=
    fun r hr => hshape r (List.mem_filter.1 hr).1
  obtain ⟨-, hnone⟩ | ⟨w, hw, hwmem, -⟩ := merged_isChoice.foldl_join_none _ hfilter
  · cases hnone.symm.trans hk
  · obtain rfl := Option.some.inj (hw.symm.trans hk)
    exact (List.mem_filter.1 hwmem).1

/-- The digest depends on which of the records count. -/
theorem digest_congr (c : DeletionCrypto) {A B : DeletionAuthority} {journal : Journal}
    (h : ∀ r ∈ journal.records, A.counts c r = B.counts c r) :
    digest c A journal = digest c B journal := by
  rw [digest, digest, List.filter_congr h]

/-- Merging is idempotent, commutative and associative on the versions of a record. -/
def Lawful (S : Set DeletionRecord) : Prop :=
  ∀ a ∈ S, ∀ b ∈ S, ∀ d ∈ S, a.storageKey = b.storageKey → b.storageKey = d.storageKey →
    a.merged a = a ∧ a.merged b = b.merged a ∧ (a.merged b).merged d = a.merged (b.merged d)

/-- Devices that merge the same records, in any order and with any repetitions, hold the same
    journals, and the same digests if they agree on which of the records count. -/
def Converges (c : DeletionCrypto) (S : Set DeletionRecord) : Prop :=
  ∀ xs ys : List DeletionRecord, (∀ r ∈ xs, r ∈ S) → (∀ r, r ∈ xs ↔ r ∈ ys) →
    journalOf xs = journalOf ys ∧
      ∀ A B : DeletionAuthority, (∀ r ∈ S, A.counts c r = B.counts c r) →
        digest c A (journalOf xs) = digest c B (journalOf ys)

/-- Records with the same storage key, status, actor of the receipt and presence of a personal
    alias are the same. -/
def ToldApart (S : Set DeletionRecord) : Prop :=
  ∀ a ∈ S, ∀ b ∈ S, a.storageKey = b.storageKey → a.status = b.status →
    a.personalCorrelation.isSome = b.personalCorrelation.isSome →
    a.acknowledgement.map (·.actor) = b.acknowledgement.map (·.actor) → a = b

/-- Deletions converge if and only if status, alias and actor tell the versions of every record
    apart. -/
theorem deletions_converge_iff (c : DeletionCrypto) (S : Set DeletionRecord)
    (hS : ∀ r ∈ S, Storable c r) : (Lawful S ∧ Converges c S) ↔ ToldApart S := by
  have hchoice : IsChoice merged rank late S := fun a ha b hb =>
    merged_isChoice a (hS a ha).shape b (hS b hb).shape
  have hrank : (∀ a ∈ S, ∀ b ∈ S, a.storageKey = b.storageKey → rank a = rank b → a = b) ↔
      ToldApart S := by
    refine forall₂_congr fun a _ => forall₂_congr fun b _ => ?_
    rw [rank_eq_iff]
    exact ⟨fun h hk hs hc ha => h hk ⟨hs, hc, ha⟩, fun h hk ⟨hs, hc, ha⟩ => h hk hs hc ha⟩
  rw [← hrank, ← hchoice.converges_iff]
  constructor
  · rintro ⟨-, hconv⟩ xs ys hxs hmem
    rw [← lookup_journalOf, ← lookup_journalOf, (hconv xs ys hxs hmem).1]
  · intro hreg
    refine ⟨?_, ?_⟩
    · intro a ha b hb d hd hab hbd
      refine ⟨hchoice.idem ha, ?_, hchoice.assoc ha hb hd⟩
      exact (hchoice.comm_iff ha hb).2 ((hchoice.converges_iff storageKey).1 hreg a ha b hb hab)
    · intro xs ys hxs hmem
      have hjournal : journalOf xs = journalOf ys := by
        rw [← lookup_inj, lookup_journalOf, lookup_journalOf]
        exact hreg xs ys hxs hmem
      refine ⟨hjournal, fun A B hAB => ?_⟩
      rw [← hjournal]
      exact digest_congr c fun r hr =>
        hAB r (hxs r (mem_of_mem_journalOf (fun r hr => (hS r (hxs r hr)).shape) hr))

/-! ### Two receipts of one actor -/

open DeviceLink (textBytes hexText hexBytes checksum)

/-- A symbolic signature: the key and a checksum of what is signed. -/
def sign (key : String) (input : List UInt8) : String :=
  hexText (textBytes key ++ checksum input)

def commaText (fields : List String) : List UInt8 := textBytes (",".intercalate fields)

/-- The proof that a key belongs to the account of a certificate. -/
def proofOf (certificate : AccountCertificate) (subject : String) : AccountProof where
  certificate := certificate
  subject := subject
  signature := sign certificate.subject
    (textBytes "mosh-message-account-v1\x00" ++ commaText [certificate.root, subject])

/-- Cryptography for a small conversation. The account of Bob can be proved by its root, and by a
    tablet that was linked later. -/
def plainCrypto : DeletionCrypto where
  sha256 bytes := hexText (checksum bytes)
  hexDecode text := hexBytes (textBytes text)
  verifySignature key signature input :=
    if signature = sign key input then .ok () else .error "invalid signature"
  verifyCertificate _ := .ok ()
  parseProof text :=
    if text = "alice" then .ok (proofOf ⟨"alice root", []⟩ "alice")
    else if text = "bob" then .ok (proofOf ⟨"bob root", []⟩ "bob")
    else if text = "bob tablet" then .ok (proofOf ⟨"bob root", [("tablet", "signed")]⟩ "bob")
    else .error "invalid proof"
  proofJson proof := .ok (commaText [proof.1.root, proof.2])
  originJson := fun (conversation, id, contentHash, author, ownership) =>
    .ok (commaText [conversation, id, contentHash, author, ownership.getD "null"])
  requestJson := fun (operation, target, actor, actorName, moderated, epoch, ownership) =>
    .ok (commaText [operation, target.signature, actor, actorName, toString moderated,
      epoch.repr, ownership.getD "null"])
  ackJson := fun (digest, actor, ownership) =>
    .ok (commaText [digest, actor, ownership.getD "null"])
  recordsJson records := .ok (commaText (records.map fun r =>
    r.storageKey ++ ((r.acknowledgement.bind (·.ownership)).getD "null")))

/-- The message of Alice. -/
def greeting : MessageOrigin :=
  let origin : MessageOrigin :=
    { conversation := "dm:1", id := "m", author := "alice", signature := "", ownership := none
      contentHash := "0000000000000000000000000000000000000000000000000000000000000000" }
  { origin with signature := sign "alice" ((origin.signingInput plainCrypto).toOption.getD []) }

/-- Alice wants it to be deleted for everyone. -/
def retraction : DeleteRequest :=
  let request : DeleteRequest :=
    { operation := "delete-00000000000000000000000000000000", target := greeting, actor := "alice",
      actorName := "Alice", moderated := false, epoch := 1, signature := "",
      ownership := some "alice" }
  { request with signature := sign "alice" ((request.input plainCrypto).toOption.getD []) }

/-- Bob saved the deletion, and proves his account. -/
def receipt (proof : String) : DeleteAck :=
  let ack : DeleteAck :=
    { requestDigest := ((retraction.digest plainCrypto).toOption.getD ""), actor := "bob",
      signature := "", ownership := some proof }
  { ack with signature := sign "bob" ((ack.input plainCrypto).toOption.getD []) }

/-- The record of the deletion. -/
def retracted (status : DeletionStatus) (acknowledgement : Option DeleteAck) : DeletionRecord where
  personalCorrelation := none
  context := "dm:1"
  key := (greeting.key plainCrypto).toOption.getD ""
  scope := .forEveryone
  owner := ""
  localOnly := false
  status := status
  administrator := none
  request := some retraction
  acknowledgement := acknowledgement

/-- The deletion with the receipt from before the tablet was linked, and with a later one. -/
def early : DeletionRecord := retracted .confirmed (some (receipt "bob"))

def later : DeletionRecord := retracted .confirmed (some (receipt "bob tablet"))

theorem storable_early : Storable plainCrypto early :=
  .verified (show verifyRecord plainCrypto early "dm:1" = .ok retraction by decide +kernel)

theorem storable_later : Storable plainCrypto later :=
  .verified (show verifyRecord plainCrypto later "dm:1" = .ok retraction by decide +kernel)

/-- Two devices that merge the same two receipts of Bob, in different orders, keep different
    ones. -/
theorem receipts_diverge : Storable plainCrypto early ∧ Storable plainCrypto later ∧
    early.storageKey = later.storageKey ∧ early.merged later ≠ later.merged early ∧
    journalOf [early, later] ≠ journalOf [later, early] := by
  have hkey : early.storageKey = later.storageKey := by decide +kernel
  have hmerged : early.merged later ≠ later.merged early := by decide +kernel
  refine ⟨storable_early, storable_later, hkey, hmerged, fun h => hmerged ?_⟩
  have hlookup := congrFun (lookup_inj.2 h) early.storageKey
  rw [lookup_journalOf, lookup_journalOf, foldl_absorb, foldl_absorb] at hlookup
  simpa [hkey, join] using hlookup

/-- The request and one receipt are merged in any order. -/
theorem deletions_converge_receipt : ToldApart {retracted .pending none, early} ∧
    Converges plainCrypto {retracted .pending none, early} := by
  have hpending : Storable plainCrypto (retracted .pending none) := .verified
    (show verifyRecord plainCrypto (retracted .pending none) "dm:1" = .ok retraction by
      decide +kernel)
  have hapart : ToldApart {retracted .pending none, early} := by
    rintro a (rfl | rfl) b (rfl | rfl) - hs - -
    · rfl
    · cases hs
    · cases hs
    · rfl
  refine ⟨hapart, ((deletions_converge_iff plainCrypto _ ?_).2 hapart).2⟩
  rintro r (rfl | rfl)
  · exact hpending
  · exact storable_early

end Mosh.Deletion
