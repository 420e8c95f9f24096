import Mosh.Deletion.Index
import Mosh.Invite.Links

/-!
# The URLs of invitations

What is relied on of the url crate, and what the reader of an invitation makes of a URL.

* `UrlCrate.Faithful`: a URL is read back from its text, and its query is what was put into it;
* `isCompact_asStr`: whether a URL is taken for a link does not depend on its query;
* `not_mem_of_decode`: a link has no query;
* `split_eq_ok`, `split_asStr`: the URL without its proof;
* `ReadAs`: what is read of a URL; appending a proof leaves it as it is.
-/

namespace Mosh.Invite

open Checked DeviceLink Deletion

/-- The text has only letters, digits and hyphens. -/
def Simple (text : String) : Prop := ∀ ch ∈ text.toList, ch.isAlphanum = true ∨ ch = '-'

/-- What is relied on of the url crate: a URL is read back from its text, its query is made of the
    pairs that were put into it, and generated URLs are read as they are written. -/
structure UrlCrate.Faithful {Url : Type} (c : UrlCrate Url) : Prop where
  clear_same : ∀ u, c.scheme (c.clearQuery u) = c.scheme u ∧
    c.hostStr (c.clearQuery u) = c.hostStr u ∧ c.fragment (c.clearQuery u) = c.fragment u
  extend_same : ∀ u pairs, c.scheme (c.extendPairs u pairs) = c.scheme u ∧
    c.hostStr (c.extendPairs u pairs) = c.hostStr u ∧
      c.fragment (c.extendPairs u pairs) = c.fragment u
  queryPairs_clear : ∀ u, c.queryPairs (c.clearQuery u) = []
  queryPairs_extend : ∀ u pairs, c.queryPairs (c.extendPairs u pairs) = c.queryPairs u ++ pairs
  clear_clear : ∀ u, c.clearQuery (c.clearQuery u) = c.clearQuery u
  clear_extend : ∀ u pairs, c.clearQuery (c.extendPairs u pairs) = c.clearQuery u
  extend_extend : ∀ u pairs more,
    c.extendPairs (c.extendPairs u pairs) more = c.extendPairs u (pairs ++ more)
  parse_asStr : ∀ u, c.parse (c.asStr u) = .ok u
  /-- The query follows the first question mark. -/
  asStr_extend : ∀ u, ∃ head : String, '?' ∉ head.toList ∧ ∀ pairs, ∃ text : String,
    (c.asStr (c.extendPairs (c.clearQuery u) pairs)).toList = head.toList ++ '?' :: text.toList
  /-- What follows a question mark can always be read. -/
  parse_build : ∀ mesh session fp moss, ∃ u, c.parse (buildInviteUri mesh session fp moss) = .ok u
  parse_simple : ∀ mesh session fp moss, Simple mesh → Simple session → Simple fp → Simple moss →
    ∃ u, c.parse (buildInviteUri mesh session fp (some moss)) = .ok u ∧
      c.asStr u = buildInviteUri mesh session fp (some moss) ∧
      c.scheme u = "mosh" ∧ c.hostStr u = some "invite" ∧ c.fragment u = some ("fp=" ++ fp) ∧
      c.queryPairs u = [("mesh", mesh), ("session", session), ("moss", moss)] ∧
      c.extendPairs (c.clearQuery u) (c.queryPairs u) = u

/-- What is relied on of JSON: what was written is read back. -/
structure Json.Faithful (c : Json) : Prop where
  bound : ∀ bound, c.boundFromSlice (c.boundToVec bound) = .ok bound
  proof : ∀ proof, c.proofFromSlice (c.proofToVec proof) = .ok proof

/-- The signatures of a key are accepted. -/
structure Ed25519.SignsAs {Key : Type} (c : Ed25519 Key) (identity : Key) : Prop where
  length_key : (c.verifyingKey identity).length = 32
  keyFromBytes : c.keyFromBytes (c.verifyingKey identity) = .ok ()
  sign : ∀ m, (c.sign identity m).length = 64 ∧ c.signatureFromSlice (c.sign identity m) = .ok () ∧
    c.verifyStrict (c.verifyingKey identity) m (c.sign identity m) = .ok ()

/-- The signatures of the leaf are accepted. -/
structure MlsSessionCrypto.Signs {Key : Type} (c : Ed25519 Key) (crypto : MlsSessionCrypto) :
    Prop where
  length_signer : crypto.signerPublic.length = 32
  keyFromBytes : c.keyFromBytes crypto.signerPublic = .ok ()
  sign : ∀ m, ∃ sig, crypto.signSenderProof m = .ok sig ∧ sig.length = 64 ∧
    c.signatureFromSlice sig = .ok () ∧ c.verifyStrict crypto.signerPublic m sig = .ok ()

/-! ## Texts -/

theorem startsWith_iff {start text : String} :
    startsWith start text = true ↔ start.toList <+: text.toList := List.isPrefixOf_iff_prefix

theorem stripPrefix_append (start rest : String) : stripPrefix start (start ++ rest) = some rest := by
  rw [stripPrefix, if_pos (startsWith_iff.2 ?_), String.toList_append, List.drop_left,
    String.ofList_toList]
  rw [String.toList_append]
  exact List.prefix_append _ _

theorem stripPrefix_eq_some {start text rest : String} (h : stripPrefix start text = some rest) :
    text = start ++ rest := by
  rw [stripPrefix] at h
  split at h
  · next hstart =>
    obtain rfl := Option.some.inj h
    obtain ⟨rest, hrest⟩ := startsWith_iff.1 hstart
    refine String.toList_inj.1 ?_
    rw [String.toList_append, String.toList_ofList, ← hrest, List.drop_left]
  · cases h

/-- A list that has no separator begins a list exactly if it begins what is before the separator. -/
theorem prefix_append_cons_iff {α : Type} {a : α} {l m rest : List α} (hl : a ∉ l) :
    l <+: m ++ a :: rest ↔ l <+: m := by
  constructor
  · rintro ⟨after, hafter⟩
    rcases List.append_eq_append_iff.1 hafter with ⟨mid, hm, -⟩ | ⟨mid, hl', hmid⟩
    · exact ⟨mid, hm.symm⟩
    · rcases mid with - | ⟨b, mid⟩
      · rw [List.append_nil] at hl'
        rw [hl']
      · obtain ⟨rfl, -⟩ := List.cons.inj hmid
        exact absurd (hl' ▸ List.mem_append_right _ List.mem_cons_self) hl
  · exact fun h => h.trans (List.prefix_append _ _)

/-- A text with a query is a link or not by what is before the question mark. -/
theorem isCompact_iff {raw : String} {head rest : List Char} (hhead : '?' ∉ head)
    (hraw : raw.toList = head ++ '?' :: rest) : isCompact raw = true ↔
      CompactInvite.linkPrefix.toList <+: head ∧ head ≠ CompactInvite.linkPrefix.toList := by
  have hlink : startsWith CompactInvite.linkPrefix raw = true ↔
      CompactInvite.linkPrefix.toList <+: head := by
    rw [startsWith_iff, hraw]
    exact prefix_append_cons_iff (by decide)
  have hurl : startsWith "mosh://invite/?" raw = true ↔
      head = CompactInvite.linkPrefix.toList := by
    rw [startsWith_iff, hraw, show "mosh://invite/?".toList =
      CompactInvite.linkPrefix.toList ++ '?' :: [] from rfl]
    constructor
    · rintro ⟨after, hafter⟩
      rw [List.append_assoc] at hafter
      exact (append_cons_inj (by decide) hhead hafter).1.symm
    · rintro rfl
      exact ⟨rest, by rw [List.append_assoc]; rfl⟩
  rw [isCompact, Bool.and_eq_true, hlink, Bool.not_eq_true', ← Bool.not_eq_true, hurl]

section Reading

variable {Url Key : Type} {c : Crates Url Key}

/-- A link has no question mark. -/
theorem not_mem_of_decode {raw : String} {d : CompactInvite.Decoded}
    (h : CompactInvite.decode c raw = .ok d) : '?' ∉ raw.toList := by
  simp only [CompactInvite.decode, bind_eq_ok, getOr_eq_ok, check_eq_ok, Bool.and_eq_true,
    decide_eq_true_eq] at h
  obtain ⟨encoded, hstrip, bytes, -, -, ⟨⟨⟨hencode, -⟩, -⟩, -⟩, -⟩ := h
  rw [stripPrefix_eq_some hstrip, String.toList_append, ← hencode, Base64Url.encode,
    String.toList_ofList, List.mem_append, not_or]
  refine ⟨by decide, fun hmem => ?_⟩
  exact absurd (Base64Url.isDigit_of_mem hmem) (by decide)

/-! ## The query -/

/-- The URL with the pairs in the place of its query. -/
def withQuery (c : UrlCrate Url) (u : Url) (pairs : List (String × String)) : Url :=
  c.extendPairs (c.clearQuery u) pairs

section Query

variable (hurl : c.Faithful) (u : Url) (pairs more : List (String × String))

include hurl

theorem queryPairs_withQuery : c.queryPairs (withQuery c.toUrlCrate u pairs) = pairs := by
  rw [withQuery, hurl.queryPairs_extend, hurl.queryPairs_clear, List.nil_append]

theorem extend_withQuery : c.extendPairs (withQuery c.toUrlCrate u pairs) more =
    withQuery c.toUrlCrate u (pairs ++ more) := by
  rw [withQuery, hurl.extend_extend, withQuery]

theorem withQuery_withQuery : withQuery c.toUrlCrate (withQuery c.toUrlCrate u pairs) more =
    withQuery c.toUrlCrate u more := by
  rw [withQuery, withQuery, hurl.clear_extend, hurl.clear_clear, withQuery]

theorem scheme_withQuery : c.scheme (withQuery c.toUrlCrate u pairs) = c.scheme u := by
  rw [withQuery, (hurl.extend_same _ _).1, (hurl.clear_same _).1]

theorem hostStr_withQuery : c.hostStr (withQuery c.toUrlCrate u pairs) = c.hostStr u := by
  rw [withQuery, (hurl.extend_same _ _).2.1, (hurl.clear_same _).2.1]

theorem fragment_withQuery : c.fragment (withQuery c.toUrlCrate u pairs) = c.fragment u := by
  rw [withQuery, (hurl.extend_same _ _).2.2, (hurl.clear_same _).2.2]

/-- Whether a URL is taken for a link does not depend on its query. -/
theorem isCompact_withQuery : isCompact (c.asStr (withQuery c.toUrlCrate u pairs)) =
    isCompact (c.asStr (withQuery c.toUrlCrate u more)) := by
  obtain ⟨head, hhead, htext⟩ := hurl.asStr_extend u
  obtain ⟨text, heq⟩ := htext pairs
  obtain ⟨text', heq'⟩ := htext more
  rw [withQuery, withQuery, Bool.eq_iff_iff, isCompact_iff hhead heq, isCompact_iff hhead heq']

/-- A URL with a query is no link that can be read. -/
theorem not_decode_withQuery {d : CompactInvite.Decoded} :
    CompactInvite.decode c (c.asStr (withQuery c.toUrlCrate u pairs)) ≠ .ok d := by
  intro hdecode
  obtain ⟨head, -, htext⟩ := hurl.asStr_extend u
  obtain ⟨text, heq⟩ := htext pairs
  refine not_mem_of_decode hdecode ?_
  rw [withQuery, heq]
  exact List.mem_append_right _ List.mem_cons_self

end Query

/-! ## The proof -/

/-- The pairs that are no proof are kept. -/
theorem splitPairs_kept {pairs kept kept' : List (String × String)} {proof proof' : Option String}
    (h : pairs.foldlM splitPair (kept, proof) = .ok (kept', proof')) :
    kept' = kept ++ pairs.filter fun pair => pair.1 ≠ "proof" := by
  induction pairs generalizing kept proof with
  | nil =>
    obtain ⟨rfl, -⟩ := Prod.mk.inj (Except.ok.inj h)
    rw [List.filter_nil, List.append_nil]
  | cons pair pairs ih =>
    rw [List.foldlM_cons, bind_eq_ok] at h
    obtain ⟨⟨kept₁, proof₁⟩, hpair, hrest⟩ := h
    rw [ih hrest]
    rw [splitPair] at hpair
    split at hpair
    · next hproof =>
      split at hpair
      · cases hpair
      · obtain ⟨rfl, -⟩ := Prod.mk.inj (Except.ok.inj hpair)
        rw [List.filter_cons_of_neg (by simpa using hproof)]
    · next hproof =>
      obtain ⟨rfl, -⟩ := Prod.mk.inj (Except.ok.inj hpair)
      rw [List.filter_cons_of_pos (by simpa using hproof), List.append_assoc, List.singleton_append]

/-- Pairs without a proof are all kept. -/
theorem splitPairs_of_noProof {pairs : List (String × String)}
    (hpairs : ∀ pair ∈ pairs, pair.1 ≠ "proof") (kept : List (String × String))
    (proof : Option String) :
    pairs.foldlM splitPair (kept, proof) = .ok (kept ++ pairs, proof) := by
  induction pairs generalizing kept with
  | nil =>
    rw [List.append_nil]
    rfl
  | cons pair pairs ih =>
    rw [List.foldlM_cons, splitPair, if_neg (hpairs pair List.mem_cons_self)]
    change pairs.foldlM splitPair (kept ++ [pair], proof) = _
    rw [ih fun pair hpair => hpairs pair (.tail _ hpair), List.append_assoc, List.singleton_append]

/-- What is left of a URL has a query without a proof. -/
theorem split_eq_ok {raw : String} {unsigned : Url} {proof : Option String}
    (h : split c raw = .ok (unsigned, proof)) : ∃ url pairs,
      unsigned = withQuery c.toUrlCrate url pairs ∧ ∀ pair ∈ pairs, pair.1 ≠ "proof" := by
  simp only [split, bind_eq_ok] at h
  obtain ⟨url, -, ⟨pairs, proof'⟩, hpairs, hresult⟩ := h
  obtain ⟨rfl, -⟩ := Prod.mk.inj (Except.ok.inj hresult)
  refine ⟨url, pairs, rfl, fun pair hpair => ?_⟩
  rw [splitPairs_kept hpairs, List.nil_append, List.mem_filter] at hpair
  exact of_decide_eq_true hpair.2

/-- The proof at the end of a query is cut off. -/
theorem split_asStr (hurl : c.Faithful) (u : Url) {pairs : List (String × String)}
    (hpairs : ∀ pair ∈ pairs, pair.1 ≠ "proof") (proof : Option String) :
    split c (c.asStr (withQuery c.toUrlCrate u
      (pairs ++ (proof.map fun proof => ("proof", proof)).toList))) =
        .ok (withQuery c.toUrlCrate u pairs, proof) := by
  rw [split, hurl.parse_asStr, ok_bind, queryPairs_withQuery hurl, List.foldlM_append,
    splitPairs_of_noProof hpairs, List.nil_append, ok_bind]
  have hlast : (proof.map fun proof => ("proof", proof)).toList.foldlM splitPair (pairs, none) =
      .ok (pairs, proof) := by
    rcases proof with - | proof
    · rfl
    · rfl
  rw [hlast, ok_bind]
  change Except.ok (withQuery c.toUrlCrate (withQuery c.toUrlCrate u _) pairs, proof) = _
  rw [withQuery_withQuery hurl]

/-! ## What is read of a URL -/

/-- The invitation that a URL holds. -/
structure ReadAs (c : Crates Url Key) (u : Url) (invite : ParsedInvite) : Prop where
  scheme : c.scheme u = "mosh"
  hostStr : c.hostStr u = some "invite"
  meshId : optionalQuery c u "mesh" = some invite.meshId
  sessionId : optionalQuery c u "session" = some invite.sessionId
  peerAddress : optionalQuery c u "peer" = invite.peerAddress
  fingerprint : parseFingerprint (c.fragment u) = .ok invite.fingerprint
  peerMossId : (((optionalQuery c u "moss").map (·.toLower)).filter fun id =>
    id.utf8ByteSize = 64 && id.toList.all Hex.isHexDigit) = invite.peerMossId

/-- A URL can be read if it holds an invitation, and its owner, target and token can be read. -/
theorem parse_asStr_iff (hurl : c.Faithful) {u : Url} {invite : ParsedInvite}
    (hcompact : isCompact (c.asStr u) = false) :
    ParsedInvite.parse c (c.asStr u) = .ok invite ↔ ReadAs c u invite ∧
      (∃ owner, verifyInviteOwner c (c.asStr u) invite = .ok owner) ∧
      (∃ target, targetPeer c (c.asStr u) = .ok target) ∧
      ∃ token, invitationToken c (c.asStr u) = .ok token := by
  simp only [ParsedInvite.parse, hcompact, Bool.false_eq_true, if_false, hurl.parse_asStr, query,
    ok_bind, bind_eq_ok, check_eq_ok, getOr_eq_ok, Bool.and_eq_true, decide_eq_true_eq]
  constructor
  · rintro ⟨-, ⟨hscheme, hhost⟩, mesh, hmesh, session, hsession, fp, hfp, owner, howner, target,
      htarget, token, htoken, hinvite⟩
    obtain rfl := Except.ok.inj hinvite
    exact ⟨⟨hscheme, hhost, hmesh, hsession, rfl, hfp, rfl⟩, ⟨owner, howner⟩, ⟨target, htarget⟩,
      token, htoken⟩
  · rintro ⟨hread, ⟨owner, howner⟩, ⟨target, htarget⟩, token, htoken⟩
    have hinvite : (⟨invite.meshId, invite.sessionId, optionalQuery c u "peer", invite.fingerprint,
        ((optionalQuery c u "moss").map (·.toLower)).filter fun id =>
          id.utf8ByteSize = 64 && id.toList.all Hex.isHexDigit⟩ : ParsedInvite) = invite := by
      rw [hread.peerAddress, hread.peerMossId]
    refine ⟨(), ⟨hread.scheme, hread.hostStr⟩, _, hread.meshId, _, hread.sessionId, _,
      hread.fingerprint, owner, ?_, target, htarget, token, htoken, congrArg Except.ok hinvite⟩
    rw [hinvite]
    exact howner

/-- What is read of a URL does not depend on a pair with another key at the end of its query. -/
theorem optionalQuery_concat (hurl : c.Faithful) (u : Url) (pairs : List (String × String))
    {key proof : String} (hkey : key ≠ "proof") :
    optionalQuery c (withQuery c.toUrlCrate u (pairs ++ [("proof", proof)])) key =
      optionalQuery c (withQuery c.toUrlCrate u pairs) key := by
  have hlast : [("proof", proof)].find? (fun pair => decide (pair.1 = key)) = none := by
    rw [List.find?_singleton, if_neg (by simpa using Ne.symm hkey)]
  rw [optionalQuery, optionalQuery, queryPairs_withQuery hurl, queryPairs_withQuery hurl,
    List.find?_append, hlast, Option.or_none]

theorem queryValues_concat (hurl : c.Faithful) (u : Url) (pairs : List (String × String))
    {key proof : String} (hkey : key ≠ "proof") :
    queryValues c (withQuery c.toUrlCrate u (pairs ++ [("proof", proof)])) key =
      queryValues c (withQuery c.toUrlCrate u pairs) key := by
  have hlast : [("proof", proof)].filter (fun pair => decide (pair.1 = key)) = [] :=
    List.filter_cons_of_neg (by simpa using Ne.symm hkey)
  rw [queryValues, queryValues, queryPairs_withQuery hurl, queryPairs_withQuery hurl,
    List.filter_append, hlast, List.append_nil]

/-- A URL with a proof at the end of its query holds the same invitation. -/
theorem ReadAs.concat (hurl : c.Faithful) {u : Url} {pairs : List (String × String)}
    {invite : ParsedInvite} (h : ReadAs c (withQuery c.toUrlCrate u pairs) invite)
    (proof : String) :
    ReadAs c (withQuery c.toUrlCrate u (pairs ++ [("proof", proof)])) invite where
  scheme := by rw [scheme_withQuery hurl, ← scheme_withQuery hurl u pairs, h.scheme]
  hostStr := by rw [hostStr_withQuery hurl, ← hostStr_withQuery hurl u pairs, h.hostStr]
  meshId := by rw [optionalQuery_concat hurl u pairs (by decide), h.meshId]
  sessionId := by rw [optionalQuery_concat hurl u pairs (by decide), h.sessionId]
  peerAddress := by rw [optionalQuery_concat hurl u pairs (by decide), h.peerAddress]
  fingerprint := by rw [fragment_withQuery hurl, ← fragment_withQuery hurl u pairs, h.fingerprint]
  peerMossId := by rw [optionalQuery_concat hurl u pairs (by decide), h.peerMossId]

/-- The target of a URL is read from the values of its key. -/
theorem targetPeer_asStr (hurl : c.Faithful) {u v : Url}
    (hu : isCompact (c.asStr u) = false) (hv : isCompact (c.asStr v) = false)
    (hvalues : queryValues c u "target" = queryValues c v "target") :
    targetPeer c (c.asStr u) = targetPeer c (c.asStr v) := by
  rw [targetPeer, targetPeer, hu, hv, hurl.parse_asStr, hurl.parse_asStr, ok_bind, ok_bind, hvalues]
  rfl

/-- The token of a URL is read from the values of its key. -/
theorem invitationToken_asStr (hurl : c.Faithful) {u v : Url}
    (hu : isCompact (c.asStr u) = false) (hv : isCompact (c.asStr v) = false)
    (hvalues : queryValues c u "token" = queryValues c v "token") :
    invitationToken c (c.asStr u) = invitationToken c (c.asStr v) := by
  rw [invitationToken, invitationToken, hu, hv, hurl.parse_asStr, hurl.parse_asStr, ok_bind, ok_bind,
    hvalues]
  rfl

end Reading

end Mosh.Invite
