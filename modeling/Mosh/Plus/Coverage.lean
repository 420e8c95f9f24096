import Mosh.DeviceLink.Roster
import Mosh.Library.Base64
import Mosh.Library.Checked
import Mosh.Library.Joining

/-!
# Paid coverage

A supporter holds certificates of paid intervals (`plus/certificate.rs`). Those that can be verified
are joined into the time until which the account is covered without a gap
(`plus/mainnet.rs`).

* `Issuer.verifyClaims`: a certificate that the issuer signed for the account;
* `mainnetCoverage`: until when the account is covered, and when the next interval starts;
* `Paid`: the periods of verified certificates;
* `mainnet_coverage_exact`: the coverage is that of the periods, as a set.
-/

namespace Mosh.Plus

open Checked DeviceLink Joining

/-! ## Certificates -/

structure MainnetClaims where
  issuerKeyId : String
  validFromMs : Nat
  deriving DecidableEq, Repr

structure Certificate where
  accountId : String
  expiresAtMs : Nat
  signatureB64 : String
  mainnet : Option MainnetClaims
  deriving DecidableEq, Repr

/-- The blind signatures of the issuer. -/
structure BlindRsa (Key : Type) where
  derivePublicKeyForMetadata : Key → List UInt8 → Option Key
  verify : Key → List UInt8 → List UInt8 → List UInt8 → Bool

structure Issuer (Key : Type) where
  key : Key
  mainnetKeyId : Option String

def dayMs : Nat := 86400000

def publicMetadata (expiresAtMs : Nat) : List UInt8 :=
  textBytes ("mosh-plus-devnet-v1\x00mosh-plus-30d\x00" ++ toString expiresAtMs)

def claimsMetadata (expiresAtMs : Nat) : Option MainnetClaims → List UInt8
  | some claims => textBytes ("mosh-plus-mainnet-v1\x00mosh-plus-supporter-30d\x00" ++
      claims.issuerKeyId ++ "\x00" ++ toString claims.validFromMs ++ "\x00" ++ toString expiresAtMs)
  | none => publicMetadata expiresAtMs

/-- The message that is signed for an account. -/
def subjectMessage (accountId : String) : Except String (List UInt8) := do
  check "invalid PLUS account identity" (accountId.utf8ByteSize = 64 &&
    accountId.toList.all fun ch => ch.isDigit || ('a' ≤ ch && ch ≤ 'f'))
  return textBytes ("mosh-plus-subject-v1\x00" ++ accountId)

def decodeProof (value : String) (limit : Nat) : Except String (List UInt8) := do
  check "PLUS proof exceeds size limit" (value.utf8ByteSize ≤ limit)
  getOr "invalid PLUS proof encoding" (Base64.decode value)

/-- The network and the issuer of a certificate. -/
def networkMatches (mainnetKeyId : Option String) (certificate : Certificate) : Bool :=
  match mainnetKeyId, certificate.mainnet with
  | none, none => true
  | some keyId, some claims => keyId = claims.issuerKeyId && claims.validFromMs % dayMs = 0 &&
      claims.validFromMs < certificate.expiresAtMs
  | _, _ => false

/-- Checks a certificate, also of an interval that starts later. -/
def Issuer.verifyClaims {Key : Type} (rsa : BlindRsa Key) (issuer : Issuer Key)
    (certificate : Certificate) (accountId : String) : Except String Unit := do
  check "PLUS certificate belongs to another account" (certificate.accountId = accountId)
  check "PLUS certificate expired or has invalid expiry"
    (certificate.expiresAtMs ≠ 0 && certificate.expiresAtMs % dayMs = 0)
  let message ← subjectMessage accountId
  check "PLUS certificate network/issuer mismatch" (networkMatches issuer.mainnetKeyId certificate)
  check "invalid PLUS certificate paid interval" (certificate.mainnet.all fun claims =>
    30 * dayMs ≤ certificate.expiresAtMs - claims.validFromMs &&
      certificate.expiresAtMs - claims.validFromMs ≤ 31 * dayMs)
  let metadata := claimsMetadata certificate.expiresAtMs certificate.mainnet
  let key ← getOr "invalid PLUS certificate metadata"
    (rsa.derivePublicKeyForMetadata issuer.key metadata)
  let signature ← decodeProof certificate.signatureB64 700
  check "invalid PLUS certificate signature" (rsa.verify key signature message metadata)

/-! ## Coverage -/

/-- The certificates of an account, by the ids of their orders. -/
abbrev Certificates := Std.ExtTreeMap String Certificate compare

section Coverage

variable {Key : Type} (rsa : BlindRsa Key) (issuer : Issuer Key) (accountId : String)
  (certificates : Certificates) (now : Nat)

/-- The order of pairs. -/
def periodLe (p q : Nat × Nat) : Bool := p.1 < q.1 || (p.1 = q.1 && p.2 ≤ q.2)

/-- The periods of the certificates that are verified, in order. -/
def periods : List (Nat × Nat) :=
  ((certificates.toList.map (·.2)).filter fun c =>
      (issuer.verifyClaims rsa c accountId).isOk).filterMap
    (fun c => c.mainnet.map fun p => (p.validFromMs, c.expiresAtMs)) |>.mergeSort periodLe

/-- Until when the account is covered, and when the next interval starts. -/
def mainnetCoverage : Option Nat × Option Nat :=
  let periods := periods rsa issuer accountId certificates
  let covered := ((periods.filter fun p => p.1 ≤ now && now < p.2).map (·.2)).max?
  let covered := periods.foldl (fun covered p =>
    match covered with
    | some current => if p.1 ≤ current then some (max current p.2) else some current
    | none => none) covered
  let nextFrom := ((periods.map (·.1)).filter fun start => now < start).min?
  (covered, nextFrom)

/-- A certificate that is verified is for the period. -/
def Paid (p : Nat × Nat) : Prop := ∃ (id : String) (c : Certificate) (claims : MainnetClaims),
  certificates[id]? = some c ∧ issuer.verifyClaims rsa c accountId = .ok () ∧
    c.mainnet = some claims ∧ p = (claims.validFromMs, c.expiresAtMs)

variable {rsa issuer accountId certificates now}

theorem periodLe_trans (p q r : Nat × Nat) (hpq : periodLe p q = true) (hqr : periodLe q r = true) :
    periodLe p r = true := by
  simp only [periodLe, Bool.or_eq_true, Bool.and_eq_true, decide_eq_true_eq] at *
  omega

theorem periodLe_total (p q : Nat × Nat) : (periodLe p q || periodLe q p) = true := by
  simp only [periodLe, Bool.or_eq_true, Bool.and_eq_true, decide_eq_true_eq]
  omega

theorem pairwise_periods :
    (periods rsa issuer accountId certificates).Pairwise fun p q => p.1 ≤ q.1 := by
  refine (List.pairwise_mergeSort periodLe_trans periodLe_total _).imp fun hle => ?_
  simp only [periodLe, Bool.or_eq_true, Bool.and_eq_true, decide_eq_true_eq] at hle
  omega

theorem mem_periods {p : Nat × Nat} :
    p ∈ periods rsa issuer accountId certificates ↔ Paid rsa issuer accountId certificates p := by
  rw [periods, List.mem_mergeSort]
  simp only [List.mem_filterMap, List.mem_filter, List.mem_map, Option.map_eq_some_iff, Prod.exists,
    Std.ExtTreeMap.mem_toList_iff_getElem?_eq_some]
  constructor
  · rintro ⟨c, ⟨⟨id, c', hget, rfl⟩, hok⟩, claims, hclaims, rfl⟩
    rcases hverify : issuer.verifyClaims rsa c' accountId with e | ⟨⟩
    · rw [hverify] at hok
      cases hok
    · exact ⟨id, c', claims, hget, hverify, hclaims, rfl⟩
  · rintro ⟨id, c, claims, hget, hverify, hclaims, rfl⟩
    refine ⟨c, ⟨⟨id, c, hget, rfl⟩, ?_⟩, claims, hclaims, rfl⟩
    rw [hverify]
    rfl

/-- The pass of the code is that of `join`. -/
theorem foldl_covered (covered : Option Nat) (l : List (Nat × Nat)) :
    l.foldl (fun covered p =>
      match covered with
      | some current => if p.1 ≤ current then some (max current p.2) else some current
      | none => none) covered = covered.map (join · l) := by
  induction l generalizing covered with
  | nil => exact (Option.map_id_fun ▸ rfl : covered = covered.map id)
  | cons p l ih =>
    rw [List.foldl_cons, ih]
    rcases covered with - | current
    · rfl
    · dsimp only
      rw [Option.map_some, join, List.foldl_cons, extend, ← join]
      split <;> rfl

/-- Until when the account is covered. -/
theorem covered_spec : ((mainnetCoverage rsa issuer accountId certificates now).1 = none ↔
      ∀ p ∈ periods rsa issuer accountId certificates, ¬ Contains p now) ∧
    ∀ u, (mainnetCoverage rsa issuer accountId certificates now).1 = some u →
      Joined (periods rsa issuer accountId certificates) now u := by
  have hcovered : (mainnetCoverage rsa issuer accountId certificates now).1 =
      (((periods rsa issuer accountId certificates).filter fun p => p.1 ≤ now && now < p.2).map
        (·.2)).max?.map (join · (periods rsa issuer accountId certificates)) := foldl_covered _ _
  rw [hcovered]
  constructor
  · rw [Option.map_eq_none_iff, List.max?_eq_none_iff, List.map_eq_nil_iff, List.filter_eq_nil_iff]
    simp only [Bool.and_eq_true, decide_eq_true_eq, Contains]
  · intro u hu
    obtain ⟨last, hlast, rfl⟩ := Option.map_eq_some_iff.1 hu
    obtain ⟨hmem, -⟩ := List.max?_eq_some_iff.1 hlast
    obtain ⟨p, hp, rfl⟩ := List.mem_map.1 hmem
    obtain ⟨hp, hnow⟩ := List.mem_filter.1 hp
    simp only [Bool.and_eq_true, decide_eq_true_eq] at hnow
    exact joined_join pairwise_periods hp hnow

/-- When the next interval starts. -/
theorem nextFrom_spec : ((mainnetCoverage rsa issuer accountId certificates now).2 = none ↔
      ∀ p ∈ periods rsa issuer accountId certificates, p.1 ≤ now) ∧
    ∀ start, (mainnetCoverage rsa issuer accountId certificates now).2 = some start ↔
      now < start ∧ (∃ p ∈ periods rsa issuer accountId certificates, p.1 = start) ∧
        ∀ p ∈ periods rsa issuer accountId certificates, now < p.1 → start ≤ p.1 := by
  rw [mainnetCoverage]
  dsimp only
  constructor
  · rw [List.min?_eq_none_iff, List.filter_eq_nil_iff]
    simp only [List.mem_map, forall_exists_index, and_imp, forall_apply_eq_imp_iff₂,
      decide_eq_true_eq, not_lt]
  · intro start
    rw [List.min?_eq_some_iff]
    simp only [List.mem_filter, List.mem_map, decide_eq_true_eq, and_imp, forall_exists_index,
      forall_apply_eq_imp_iff₂]
    exact ⟨fun h => ⟨h.1.2, h.1.1, h.2⟩, fun h => ⟨⟨h.2.1, h.1⟩, h.2.2⟩⟩

/-- Paid coverage is computed exactly.

    The account is covered if a verified period contains the present, and then until the end of the
    periods that are joined to it: everything before is covered, and no period goes on from there.
    The next interval is the first one that starts later. Both are those of the set of the verified
    periods. -/
theorem mainnet_coverage_exact :
    ((mainnetCoverage rsa issuer accountId certificates now).1 = none ↔
      ∀ p, Paid rsa issuer accountId certificates p → ¬ (p.1 ≤ now ∧ now < p.2)) ∧
    (∀ u, (mainnetCoverage rsa issuer accountId certificates now).1 = some u → now < u ∧
      (∀ t, now ≤ t → t < u →
        ∃ p, Paid rsa issuer accountId certificates p ∧ p.1 ≤ t ∧ t < p.2) ∧
      ∀ p, Paid rsa issuer accountId certificates p → ¬ (p.1 ≤ u ∧ u < p.2)) ∧
    ((mainnetCoverage rsa issuer accountId certificates now).2 = none ↔
      ∀ p, Paid rsa issuer accountId certificates p → ¬ now < p.1) ∧
    (∀ start, (mainnetCoverage rsa issuer accountId certificates now).2 = some start ↔
      now < start ∧ (∃ p, Paid rsa issuer accountId certificates p ∧ p.1 = start) ∧
        ∀ p, Paid rsa issuer accountId certificates p → now < p.1 → start ≤ p.1) ∧
    ∀ certificates', (∀ p, Paid rsa issuer accountId certificates' p ↔
        Paid rsa issuer accountId certificates p) →
      mainnetCoverage rsa issuer accountId certificates' now =
        mainnetCoverage rsa issuer accountId certificates now := by
  set coverage := mainnetCoverage rsa issuer accountId certificates now
  set paid := Paid rsa issuer accountId certificates
  have hmem : ∀ p, p ∈ periods rsa issuer accountId certificates ↔ paid p := fun p => mem_periods
  obtain ⟨hnone, hsome⟩ := @covered_spec _ rsa issuer accountId certificates now
  obtain ⟨hnext, hstart⟩ := @nextFrom_spec _ rsa issuer accountId certificates now
  simp only [hmem] at hnone hnext hstart
  refine ⟨hnone, fun u hu => ?_, ?_, hstart, fun certificates' hsame => ?_⟩
  · have hjoined := hsome u hu
    refine ⟨hjoined.now_lt, fun t hlow hhigh => ?_, fun p hp hgoes => ?_⟩
    · obtain ⟨p, hp, hcontains⟩ := hjoined.covered t hlow hhigh
      exact ⟨p, (hmem p).1 hp, hcontains⟩
    · exact hgoes.2.not_ge (hjoined.closed p ((hmem p).2 hp) hgoes.1)
  · exact hnext.trans (forall₂_congr fun p _ => not_lt.symm)
  · have hmem' : ∀ p, p ∈ periods rsa issuer accountId certificates' ↔ paid p := fun p =>
      mem_periods.trans (hsame p)
    obtain ⟨hnone', hsome'⟩ := @covered_spec _ rsa issuer accountId certificates' now
    obtain ⟨hnext', hstart'⟩ := @nextFrom_spec _ rsa issuer accountId certificates' now
    simp only [hmem'] at hnone' hnext' hstart'
    refine Prod.ext ?_ (Option.ext fun start => (hstart' start).trans (hstart start).symm)
    rcases hcase : coverage.1 with - | u
    · exact hnone'.2 (hnone.1 hcase)
    · rcases hcase' : (mainnetCoverage rsa issuer accountId certificates' now).1 with - | u'
      · rw [hnone.2 (hnone'.1 hcase')] at hcase
        cases hcase
      · rw [(hsome' u' hcase').unique (hsome u hcase) fun p => (hmem' p).trans (hmem p).symm]

end Coverage

end Mosh.Plus
