import Mosh.Invite.Urls

/-!
# Generated URLs

The URL that an installation generates for an invitation: random tokens for the mesh and the
session, its keys, and, where they are asked for, a token that admits the guest and the one who is
invited. Everything in it has a fixed width.

* `GeneratedInvite`: what a generated URL says;
* `exists_url`, `GeneratedInvite.parse`: it is read as it was generated;
* `exists_generated`: a URL that the compact form is made for is generated;
* `GeneratedInvite.payload`: the bytes of a link, and where its parts are.
-/

namespace Mosh.Invite

open Checked DeviceLink Deletion

/-- What a generated URL says. -/
structure GeneratedInvite where
  mesh : List UInt8
  session : List UInt8
  owner : List UInt8
  fingerprint : List UInt8
  token : Option (List UInt8)
  target : Option (List UInt8)
  length_mesh : mesh.length = 8
  length_session : session.length = 8
  length_owner : owner.length = 32
  length_fingerprint : fingerprint.length = 16
  length_token : ∀ bytes, token = some bytes → bytes.length = 8
  length_target : ∀ bytes, target = some bytes → bytes.length = 32

namespace GeneratedInvite

variable (g : GeneratedInvite)

/-- What is read of the URL. -/
def parsed : ParsedInvite where
  meshId := "mesh-" ++ Hex.encode g.mesh
  sessionId := "session-" ++ Hex.encode g.session
  peerAddress := none
  fingerprint := Hex.encodeUpper g.fingerprint
  peerMossId := some (Hex.encode g.owner)

def tokenText : Option String := g.token.map fun bytes => "invite-" ++ Hex.encode bytes

def targetText : Option String := g.target.map Hex.encode

/-- The query of the URL. -/
def pairs : List (String × String) :=
  ("mesh", g.parsed.meshId) :: ("session", g.parsed.sessionId) :: ("moss", Hex.encode g.owner) ::
    ((g.tokenText.map fun text => ("token", text)).toList ++
      (g.targetText.map fun text => ("target", text)).toList)

/-- The generated URL. -/
def url {Url Key : Type} (c : Crates Url Key) : Except String String :=
  CompactInvite.canonical c g.parsed g.targetText g.tokenText

end GeneratedInvite

/-! ## Texts -/

theorem simple_append {text text' : String} (h : Simple text) (h' : Simple text') :
    Simple (text ++ text') := by
  intro ch hch
  rw [String.toList_append, List.mem_append] at hch
  exact hch.elim (h ch) (h' ch)

theorem simple_of_all {text : String}
    (h : (text.toList.all fun ch => ch.isAlphanum || ch = '-') = true) : Simple text := by
  intro ch hch
  have hall := List.all_eq_true.1 h ch hch
  rwa [Bool.or_eq_true, decide_eq_true_eq] at hall

theorem simple_encode (bytes : List UInt8) : Simple (Hex.encode bytes) := by
  intro ch hch
  rw [Hex.toList_encode] at hch
  obtain ⟨n, hn, rfl⟩ := Hex.exists_digit_of_mem hch
  exact .inl (Hex.digit_spec hn).2.2.1

theorem simple_encodeUpper (bytes : List UInt8) : Simple (Hex.encodeUpper bytes) := by
  intro ch hch
  obtain ⟨n, hn, rfl⟩ := Hex.exists_digit_of_mem_upper hch
  exact .inl (Hex.digit_spec hn).2.2.2.2.2.2.1

/-- The query of a generated URL follows the host. -/
theorem toList_buildInviteUri (mesh session fp : String) (moss : Option String) : ∃ rest,
    (buildInviteUri mesh session fp moss).toList = "mosh://invite".toList ++ '?' :: rest := by
  have hstart : "mosh://invite?mesh=".toList = "mosh://invite".toList ++ '?' :: "mesh=".toList := rfl
  refine ⟨"mesh=".toList ++ (mesh.toList ++ ("&session=".toList ++ (session.toList ++
    (((moss.map ("&moss=" ++ ·)).getD "").toList ++ ("#fp=".toList ++ fp.toList))))), ?_⟩
  unfold buildInviteUri
  generalize "mosh://invite?mesh=" = start at hstart ⊢
  simp only [String.toList_append, List.append_assoc]
  rw [hstart, List.append_assoc, List.cons_append]

/-- A fingerprint in upper case is read as it is. -/
theorem parseFingerprint_encodeUpper {bytes : List UInt8} (h : bytes.length = 16) :
    parseFingerprint (some ("fp=" ++ Hex.encodeUpper bytes)) = .ok (Hex.encodeUpper bytes) := by
  have hfilter : String.ofList ((Hex.encodeUpper bytes).toList.filter (· ≠ '-')) =
      Hex.encodeUpper bytes := by
    rw [List.filter_eq_self.2, String.ofList_toList]
    intro ch hch
    obtain ⟨n, hn, rfl⟩ := Hex.exists_digit_of_mem_upper hch
    have halnum := (Hex.digit_spec hn).2.2.2.2.2.2.1
    refine decide_eq_true fun heq => ?_
    rw [heq] at halnum
    exact absurd halnum (by decide)
  rw [parseFingerprint, Option.bind_some, stripPrefix_append, getOr, Option.elim_some, ok_bind,
    hfilter, Hex.toUpper_encodeUpper]
  dsimp only
  rw [Hex.utf8ByteSize_encodeUpper, Hex.all_encodeUpper, h]
  rfl

/-- The bytes of a random token are read from its text. -/
theorem tokenBytes_append (start : String) {bytes : List UInt8} (h : bytes.length = 8) :
    CompactInvite.tokenBytes (start ++ Hex.encode bytes) start = some bytes := by
  have hupper : (Hex.encode bytes).toList.any Char.isUpper = false := by
    rw [List.any_eq_false]
    intro ch hch
    rw [Hex.isUpper_of_mem_encode hch]
    nofun
  have hsize : (Hex.encode bytes).utf8ByteSize = 16 := by rw [Hex.utf8ByteSize_encode, h]
  rw [CompactInvite.tokenBytes, stripPrefix_append]
  change (if (Hex.encode bytes).utf8ByteSize ≠ 16 || (Hex.encode bytes).toList.any Char.isUpper
    then none else (Hex.decode (Hex.encode bytes)).filter (·.length = 8)) = some bytes
  rw [hupper, hsize, Hex.decode_encode, Option.filter_some, h]
  rfl

/-- A text that bytes are read from is a random token. -/
theorem tokenBytes_eq_some {text start : String} {bytes : List UInt8}
    (h : CompactInvite.tokenBytes text start = some bytes) :
    bytes.length = 8 ∧ text = start ++ Hex.encode bytes := by
  rw [CompactInvite.tokenBytes] at h
  obtain ⟨hex, hstrip, h⟩ := Option.bind_eq_some_iff.1 h
  split at h
  · cases h
  · next hcase =>
    obtain ⟨hdecode, hlength⟩ := Option.filter_eq_some_iff.1 h
    refine ⟨of_decide_eq_true hlength, ?_⟩
    rw [stripPrefix_eq_some hstrip, Hex.encode_of_decode hdecode]
    intro ch hch
    rw [Bool.or_eq_true, not_or, Bool.not_eq_true, Bool.not_eq_true, List.any_eq_false] at hcase
    exact Bool.eq_false_iff.2 (hcase.2 ch hch)

section Generated

variable {Url Key : Type} {c : Crates Url Key}

/-! ## The URL -/

theorem optionalQuery_of_find {u : Url} {key value : String}
    (h : (c.queryPairs u).find? (·.1 = key) = some (key, value)) (hne : value.isEmpty = false) :
    optionalQuery c u key = some value := by
  rw [optionalQuery, h, Option.map_some, Option.filter_some, hne]
  rfl

/-- The text of a URL that is generated. -/
theorem exists_url (hurl : c.Faithful) (g : GeneratedInvite) : ∃ u,
    g.url c = .ok (c.asStr (withQuery c.toUrlCrate u g.pairs)) ∧
    ReadAs c (withQuery c.toUrlCrate u g.pairs) g.parsed ∧
    ∀ pairs, isCompact (c.asStr (withQuery c.toUrlCrate u pairs)) = false := by
  have hmesh : Simple g.parsed.meshId := simple_append (simple_of_all (by decide)) (simple_encode g.mesh)
  have hsession : Simple g.parsed.sessionId :=
    simple_append (simple_of_all (by decide)) (simple_encode g.session)
  obtain ⟨u, hparse, htext, hscheme, hhost, hfragment, hpairs, hquery⟩ :=
    hurl.parse_simple g.parsed.meshId g.parsed.sessionId g.parsed.fingerprint (Hex.encode g.owner)
      hmesh hsession (simple_encodeUpper g.fingerprint) (simple_encode g.owner)
  -- the URL is its own query after what comes before it
  rw [hpairs] at hquery
  refine ⟨u, ?_, ?_, fun pairs => ?_⟩
  · have hextend : ∀ more, c.extendPairs u more = withQuery c.toUrlCrate u
        ([("mesh", g.parsed.meshId), ("session", g.parsed.sessionId),
          ("moss", Hex.encode g.owner)] ++ more) := by
      intro more
      conv_lhs => rw [← hquery]
      exact extend_withQuery hurl u _ more
    rw [GeneratedInvite.url, CompactInvite.canonical, show g.parsed.peerMossId = some _ from rfl,
      hparse, orError, Except.mapError, ok_bind, GeneratedInvite.pairs]
    rcases g.tokenText with - | token
    · rcases g.targetText with - | target
      · change Except.ok (c.asStr u) = _
        conv_lhs => rw [← hquery]
        rfl
      · change Except.ok (c.asStr (c.extendPairs u _)) = _
        rw [hextend]
        rfl
    · rcases g.targetText with - | target
      · change Except.ok (c.asStr (c.extendPairs u _)) = _
        rw [hextend]
        rfl
      · change Except.ok (c.asStr (c.extendPairs (c.extendPairs u _) _)) = _
        rw [hextend, extend_withQuery hurl]
        rfl
  · have hqueryPairs := queryPairs_withQuery hurl u g.pairs
    refine ⟨by rw [scheme_withQuery hurl, hscheme], by rw [hostStr_withQuery hurl, hhost],
      optionalQuery_of_find (by rw [hqueryPairs]; rfl) ?_,
      optionalQuery_of_find (by rw [hqueryPairs]; rfl) ?_, ?_, ?_, ?_⟩
    · rw [GeneratedInvite.parsed]
      simp
    · rw [GeneratedInvite.parsed]
      simp
    · rw [optionalQuery, hqueryPairs, GeneratedInvite.pairs]
      rcases g.tokenText with - | token
      · rcases g.targetText with - | target
        · rfl
        · rfl
      · rcases g.targetText with - | target
        · rfl
        · rfl
    · rw [fragment_withQuery hurl, hfragment]
      exact parseFingerprint_encodeUpper g.length_fingerprint
    · have hsize : (Hex.encode g.owner).utf8ByteSize = 64 := by
        rw [Hex.utf8ByteSize_encode, g.length_owner]
      have hne : (Hex.encode g.owner).isEmpty = false := by
        rw [String.isEmpty, hsize]
        rfl
      rw [optionalQuery_of_find (by rw [hqueryPairs]; rfl) hne, Option.map_some,
        Hex.toLower_encode, Option.filter_some, hsize, Hex.all_encode]
      rfl
  · obtain ⟨head, hhead, hall⟩ := hurl.asStr_extend u
    obtain ⟨text, heq⟩ := hall [("mesh", g.parsed.meshId), ("session", g.parsed.sessionId),
      ("moss", Hex.encode g.owner)]
    obtain ⟨text', heq'⟩ := hall pairs
    rw [hquery, htext] at heq
    obtain ⟨rest, hstart⟩ := toList_buildInviteUri g.parsed.meshId g.parsed.sessionId
      g.parsed.fingerprint (some (Hex.encode g.owner))
    rw [hstart] at heq
    obtain ⟨hsame, -⟩ := append_cons_inj (by decide) hhead heq
    rw [Bool.eq_false_iff, ne_eq, withQuery, isCompact_iff hhead heq', ← hsame]
    exact fun h => absurd h.1 (by decide)

/-- The pairs of a generated URL hold no proof. -/
theorem GeneratedInvite.noProof (g : GeneratedInvite) : ∀ pair ∈ g.pairs, pair.1 ≠ "proof" := by
  intro pair hpair
  rw [GeneratedInvite.pairs] at hpair
  simp only [List.mem_cons, List.mem_append, Option.mem_toList, Option.map_eq_some_iff] at hpair
  rcases hpair with rfl | rfl | rfl | ⟨text, -, rfl⟩ | ⟨text, -, rfl⟩ <;> simp

/-- A generated URL is read as it was generated. -/
theorem GeneratedInvite.read (hurl : c.Faithful) (g : GeneratedInvite) {raw : String}
    (hraw : g.url c = .ok raw) :
    ParsedInvite.parse c raw = .ok g.parsed ∧ targetPeer c raw = .ok g.targetText ∧
      invitationToken c raw = .ok g.tokenText ∧
      ∃ u, split c raw = .ok (u, none) ∧ c.asStr u = raw := by
  obtain ⟨u, hu, hread, hcompact⟩ := exists_url hurl g
  obtain rfl := Except.ok.inj (hraw.symm.trans hu)
  have hqueryPairs := queryPairs_withQuery hurl u g.pairs
  have hsplit := split_asStr hurl u g.noProof none
  rw [Option.map_none, Option.toList_none, List.append_nil] at hsplit
  have htarget : targetPeer c (c.asStr (withQuery c.toUrlCrate u g.pairs)) = .ok g.targetText := by
    have hvalues : queryValues c (withQuery c.toUrlCrate u g.pairs) "target" =
        g.targetText.toList := by
      rw [queryValues, hqueryPairs, GeneratedInvite.pairs]
      rcases g.tokenText with - | token <;> rcases g.targetText with - | target <;> rfl
    rw [targetPeer, hcompact, hurl.parse_asStr, ok_bind, hvalues, GeneratedInvite.targetText]
    rcases htarget : g.target with - | bytes
    · rfl
    · have hsize : (Hex.encode bytes).utf8ByteSize = 64 := by
        rw [Hex.utf8ByteSize_encode, g.length_target bytes htarget]
      rw [Option.map_some, Option.toList_some]
      dsimp only
      rw [hsize, Hex.all_encode, Hex.toLower_encode]
      rfl
  have htoken : invitationToken c (c.asStr (withQuery c.toUrlCrate u g.pairs)) =
      .ok g.tokenText := by
    have hvalues : queryValues c (withQuery c.toUrlCrate u g.pairs) "token" =
        g.tokenText.toList := by
      rw [queryValues, hqueryPairs, GeneratedInvite.pairs]
      rcases g.tokenText with - | token <;> rcases g.targetText with - | target <;> rfl
    rw [invitationToken, hcompact, hurl.parse_asStr, ok_bind, hvalues, GeneratedInvite.tokenText]
    rcases htoken : g.token with - | bytes
    · rfl
    · have hsize : (Hex.encode bytes).utf8ByteSize = 16 := by
        rw [Hex.utf8ByteSize_encode, g.length_token bytes htoken]
      rw [Option.map_some, Option.toList_some]
      dsimp only
      rw [stripPrefix_append, Option.any_some, hsize, Hex.all_encode]
      rfl
  have howner : verifyInviteOwner c (c.asStr (withQuery c.toUrlCrate u g.pairs)) g.parsed =
      .ok none := by
    rw [verifyInviteOwner, hcompact, hsplit]
    rfl
  refine ⟨(parse_asStr_iff hurl (hcompact _)).2 ⟨hread, ⟨_, howner⟩, ⟨_, htarget⟩, _, htoken⟩,
    htarget, htoken, _, hsplit, rfl⟩

/-- A URL that is made of random tokens and of the keys of an installation is generated. -/
theorem exists_generated {invite : ParsedInvite} {raw : String} {identity : Key}
    {crypto : MlsSessionCrypto} {mesh session : List UInt8} {target token : Option String}
    (hmesh : CompactInvite.tokenBytes invite.meshId "mesh-" = some mesh)
    (hsession : CompactInvite.tokenBytes invite.sessionId "session-" = some session)
    (howned : ownedBy c invite identity crypto = true)
    (hidentity : (c.verifyingKey identity).length = 32)
    (hsigner : crypto.signerPublic.length = 32)
    (htarget : targetPeer c raw = .ok target) (hcompact : isCompact raw = false)
    (htoken : ∀ text, token = some text → ∃ bytes : List UInt8, bytes.length = 8 ∧
      text = "invite-" ++ Hex.encode bytes)
    (hraw : CompactInvite.canonical c invite target token = .ok raw) :
    ∃ g : GeneratedInvite, g.url c = .ok raw := by
  rw [ownedBy, Bool.and_eq_true, decide_eq_true_eq, decide_eq_true_eq] at howned
  obtain ⟨howner, hfp⟩ := howned
  obtain ⟨hmeshLength, hmeshText⟩ := tokenBytes_eq_some hmesh
  obtain ⟨hsessionLength, hsessionText⟩ := tokenBytes_eq_some hsession
  have htokenBytes : ∃ bytes : Option (List UInt8), (∀ b, bytes = some b → b.length = 8) ∧
      bytes.map (fun bytes => "invite-" ++ Hex.encode bytes) = token := by
    rcases token with - | text
    · exact ⟨none, nofun, rfl⟩
    · obtain ⟨bytes, hlength, rfl⟩ := htoken text rfl
      exact ⟨some bytes, fun b hb => Option.some.inj hb ▸ hlength, rfl⟩
  have htargetBytes : ∃ bytes : Option (List UInt8), (∀ b, bytes = some b → b.length = 32) ∧
      bytes.map Hex.encode = target := by
    simp only [targetPeer, hcompact, Bool.false_eq_true, if_false, bind_eq_ok] at htarget
    obtain ⟨url, -, htarget⟩ := htarget
    split at htarget
    · exact ⟨none, nofun, Except.ok.inj htarget⟩
    · next text =>
      simp only [bind_eq_ok, check_eq_ok, Bool.and_eq_true, decide_eq_true_eq] at htarget
      obtain ⟨-, ⟨hsize, hdigits⟩, heq⟩ := htarget
      obtain ⟨bytes, hlength, hencode⟩ := Hex.exists_encode_toLower (n := 32) hsize hdigits
      refine ⟨some bytes, fun b hb => Option.some.inj hb ▸ hlength, ?_⟩
      rw [Option.map_some, hencode]
      exact Except.ok.inj heq
    · cases htarget
  obtain ⟨tokenBytes, htokenLength, rfl⟩ := htokenBytes
  obtain ⟨targetBytes, htargetLength, rfl⟩ := htargetBytes
  refine ⟨⟨mesh, session, c.verifyingKey identity, crypto.signerPublic.take 16, tokenBytes,
    targetBytes, hmeshLength, hsessionLength, hidentity, by rw [List.length_take, hsigner]; rfl,
    htokenLength, htargetLength⟩, ?_⟩
  rw [← hraw, GeneratedInvite.url, CompactInvite.canonical, CompactInvite.canonical, hmeshText,
    hsessionText, howner, hfp]
  rfl

end Generated

end Mosh.Invite
