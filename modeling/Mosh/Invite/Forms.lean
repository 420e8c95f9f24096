import Mosh.Invite.Generated
import Mosh.Library.Format
import Mosh.Library.Padded

/-!
# URLs in normal form

A url crate, keys and texts that do what is relied on.

* `FormUrl`: a URL, and its text;
* `formUrls_faithful`: it is read back from its text;
* `formCrates`: what the program takes from others.
-/

namespace Mosh.Invite

open Checked DeviceLink Deletion

/-! ## Texts of URLs -/

/-- A URL: what is before its query, which is in lower case, its query and its fragment. -/
structure FormUrl where
  head : List Char
  pairs : List (String × String)
  fragment : Option String
  query_mark : '?' ∉ head
  lower : ¬ "MOSH".toList <+: head

namespace FormUrl

/-- Letters, digits and hyphens are written as they are, other characters as their numbers. -/
def encodeChar (ch : Char) : List Char :=
  if ch.isAlphanum ∨ ch = '-' then [ch] else '%' :: Padded.padded 7 ch.toNat

def encode (text : String) : List Char := text.toList.flatMap encodeChar

def pairText (pair : String × String) : List Char := encode pair.1 ++ '=' :: encode pair.2

def queryText : List (String × String) → List Char
  | [] => []
  | [pair] => pairText pair
  | pair :: pairs => pairText pair ++ '&' :: queryText pairs

def asStr (u : FormUrl) : String := String.ofList
  (u.head ++ '?' :: (queryText u.pairs ++ u.fragment.elim [] fun text => '#' :: text.toList))

/-- A scheme in upper case is written in lower case. -/
def normal (raw : String) : String :=
  if "MOSH".toList <+: raw.toList then String.ofList ("mosh".toList ++ raw.toList.drop 4) else raw

theorem encodeChar_append_inj {ch ch' : Char} {rest rest' : List Char}
    (h : encodeChar ch ++ rest = encodeChar ch' ++ rest') : ch = ch' ∧ rest = rest' := by
  have hpercent : ¬ (('%').isAlphanum = true ∨ '%' = '-') := by decide
  have hlength : ∀ c : Char, (Padded.padded 7 c.toNat).length = 7 := by
    intro c
    refine Padded.length_padded (by decide) ?_
    have hvalid := c.valid
    have hlt : c.toNat < 1114112 := by
      rcases hvalid with h | h
      · exact lt_of_lt_of_le h (by decide)
      · exact h.2
    omega
  rw [encodeChar, encodeChar] at h
  split at h
  · next hplain =>
    split at h
    · exact List.cons.inj h
    · obtain ⟨rfl, -⟩ := List.cons.inj h
      exact absurd hplain hpercent
  · split at h
    · next hplain =>
      obtain ⟨rfl, -⟩ := List.cons.inj h
      exact absurd hplain hpercent
    · obtain ⟨hnumber, hrest⟩ := List.append_inj (List.cons.inj h).2
        ((hlength ch).trans (hlength ch').symm)
      exact ⟨Char.toNat_inj.1 (Padded.padded_inj hnumber), hrest⟩

theorem encodeChar_ne_nil (ch : Char) : encodeChar ch ≠ [] := by
  rw [encodeChar]
  split <;> nofun

theorem encode_inj {text text' : String} (h : encode text = encode text') : text = text' := by
  refine String.toList_inj.1 ?_
  rw [encode, encode] at h
  generalize text.toList = l, text'.toList = l' at h
  induction l generalizing l' with
  | nil =>
    rcases l' with - | ⟨ch, l'⟩
    · rfl
    · rw [List.flatMap_cons] at h
      exact absurd (List.append_eq_nil_iff.1 h.symm).1 (encodeChar_ne_nil ch)
  | cons ch l ih =>
    rcases l' with - | ⟨ch', l'⟩
    · rw [List.flatMap_cons] at h
      exact absurd (List.append_eq_nil_iff.1 h).1 (encodeChar_ne_nil ch)
    · rw [List.flatMap_cons, List.flatMap_cons] at h
      obtain ⟨rfl, hrest⟩ := encodeChar_append_inj h
      rw [ih _ hrest]

/-- The characters that texts are written with. -/
theorem plain_of_mem {text : String} {ch : Char} (h : ch ∈ encode text) :
    ch.isAlphanum = true ∨ ch = '-' ∨ ch = '%' := by
  obtain ⟨c, -, hch⟩ := List.mem_flatMap.1 h
  rw [encodeChar] at hch
  split at hch
  · next hplain =>
    obtain rfl := List.mem_singleton.1 hch
    exact hplain.imp_right .inl
  · rcases List.mem_cons.1 hch with rfl | hdigit
    · exact .inr (.inr rfl)
    · exact .inl (by simp [Char.isAlphanum, Padded.isDigit_of_mem_padded hdigit])

theorem not_mem_encode {ch : Char} (h : ¬ (ch.isAlphanum = true ∨ ch = '-' ∨ ch = '%'))
    (text : String) : ch ∉ encode text := fun hmem => h (plain_of_mem hmem)

theorem not_mem_pairText {ch : Char} (h : ¬ (ch.isAlphanum = true ∨ ch = '-' ∨ ch = '%'))
    (hne : ch ≠ '=') (pair : String × String) : ch ∉ pairText pair := by
  rw [pairText, List.mem_append, List.mem_cons, not_or, not_or]
  exact ⟨not_mem_encode h _, hne, not_mem_encode h _⟩

theorem pairText_inj {pair pair' : String × String} (h : pairText pair = pairText pair') :
    pair = pair' := by
  obtain ⟨hkey, hvalue⟩ :=
    append_cons_inj (not_mem_encode (by decide) _) (not_mem_encode (by decide) _) h
  exact Prod.ext (encode_inj hkey) (encode_inj hvalue)

theorem queryText_ne_nil (pair : String × String) (pairs : List (String × String)) :
    queryText (pair :: pairs) ≠ [] := by
  rcases pairs with - | ⟨next, pairs⟩
  · rw [queryText, pairText]
    exact List.append_ne_nil_of_right_ne_nil _ (List.cons_ne_nil _ _)
  · rw [queryText]
    exact List.append_ne_nil_of_right_ne_nil _ (List.cons_ne_nil _ _)
    nofun

theorem queryText_inj {pairs pairs' : List (String × String)}
    (h : queryText pairs = queryText pairs') : pairs = pairs' := by
  have hamp : ∀ pair, '&' ∉ pairText pair := not_mem_pairText (by decide) (by decide)
  fun_induction queryText pairs generalizing pairs' with
  | case1 =>
    rcases pairs' with - | ⟨pair, pairs'⟩
    · rfl
    · exact absurd h.symm (queryText_ne_nil pair pairs')
  | case2 pair =>
    rcases pairs' with - | ⟨pair', - | ⟨next, pairs'⟩⟩
    · exact absurd h (queryText_ne_nil pair [])
    · rw [pairText_inj h]
    · refine absurd ?_ (hamp pair)
      rw [h, queryText]
      · exact List.mem_append_right _ List.mem_cons_self
      · nofun
  | case3 pair pairs hpairs ih =>
    rcases pairs' with - | ⟨pair', - | ⟨next, pairs'⟩⟩
    · exact absurd h (List.append_ne_nil_of_right_ne_nil _ (List.cons_ne_nil _ _))
    · refine absurd ?_ (hamp pair')
      change '&' ∈ queryText [pair']
      rw [← h]
      exact List.mem_append_right _ List.mem_cons_self
    · rw [queryText] at h
      · obtain ⟨hpair, hrest⟩ := append_cons_inj (hamp pair) (hamp pair') h
        rw [pairText_inj hpair, ih hrest]
      · nofun

theorem hash_not_mem (pairs : List (String × String)) : '#' ∉ queryText pairs := by
  have hhash : ∀ pair, '#' ∉ pairText pair := not_mem_pairText (by decide) (by decide)
  fun_induction queryText pairs with
  | case1 => nofun
  | case2 pair => exact hhash pair
  | case3 pair pairs hpairs ih =>
    rw [List.mem_append, List.mem_cons, not_or, not_or]
    exact ⟨hhash pair, by decide, ih⟩

theorem asStr_inj {u v : FormUrl} (h : asStr u = asStr v) : u = v := by
  obtain ⟨head, pairs, fragment, hmark, hlower⟩ := u
  obtain ⟨head', pairs', fragment', hmark', hlower'⟩ := v
  obtain ⟨rfl, hrest⟩ := append_cons_inj hmark hmark' (String.ofList_injective h)
  have hsame : pairs = pairs' ∧ fragment = fragment' := by
    dsimp only at hrest
    rcases fragment with - | text
    · rcases fragment' with - | text'
      · simp only [Option.elim_none, List.append_nil] at hrest
        exact ⟨queryText_inj hrest, rfl⟩
      · refine absurd ?_ (hash_not_mem pairs)
        rw [Option.elim_none, List.append_nil] at hrest
        rw [hrest]
        exact List.mem_append_right _ List.mem_cons_self
    · rcases fragment' with - | text'
      · refine absurd ?_ (hash_not_mem pairs')
        rw [Option.elim_none, List.append_nil] at hrest
        rw [← hrest]
        exact List.mem_append_right _ List.mem_cons_self
      · obtain ⟨hquery, htext⟩ := append_cons_inj (hash_not_mem pairs) (hash_not_mem pairs') hrest
        exact ⟨queryText_inj hquery, congrArg some (String.toList_inj.1 htext)⟩
  obtain ⟨rfl, rfl⟩ := hsame
  rfl

theorem toList_asStr (u : FormUrl) : (asStr u).toList = u.head ++ '?' ::
    (queryText u.pairs ++ u.fragment.elim [] fun text => '#' :: text.toList) := String.toList_ofList

theorem normal_asStr (u : FormUrl) : normal (asStr u) = asStr u := by
  refine if_neg fun hupper => u.lower ?_
  rw [toList_asStr] at hupper
  exact (prefix_append_cons_iff (by decide)).1 hupper

/-- The URL without its query. -/
def cleared (u : FormUrl) : FormUrl := { u with pairs := [] }

def extended (u : FormUrl) (pairs : List (String × String)) : FormUrl :=
  { u with pairs := u.pairs ++ pairs }

/-- A URL of an invitation without anything. -/
def bare : FormUrl := ⟨"mosh://invite".toList, [], none, by decide, by decide⟩

open Classical in
/-- The URL whose text is the normal one. All texts that begin like a generated URL can be read. -/
noncomputable def parse (raw : String) : Except String FormUrl :=
  if h : ∃ u, asStr u = normal raw then .ok h.choose
  else if "mosh://invite?".toList <+: (normal raw).toList then .ok bare
  else .error "relative URL without a base"

theorem parse_of_normal {raw : String} {u : FormUrl} (h : normal raw = asStr u) :
    parse raw = .ok u := by
  have hexists : ∃ u, asStr u = normal raw := ⟨u, h.symm⟩
  rw [parse, dif_pos hexists, asStr_inj (hexists.choose_spec.trans h)]

end FormUrl

/-- A url crate whose URLs are in normal form. -/
noncomputable def formUrls : UrlCrate FormUrl where
  parse := FormUrl.parse
  asStr := FormUrl.asStr
  scheme u := if "mosh:".toList <+: u.head then "mosh" else ""
  hostStr u :=
    if u.head = "mosh://invite".toList ∨ "mosh://invite/".toList <+: u.head then some "invite"
    else none
  fragment u := u.fragment
  queryPairs u := u.pairs
  clearQuery := FormUrl.cleared
  extendPairs := FormUrl.extended

theorem encode_of_simple {text : String} (h : Simple text) : FormUrl.encode text = text.toList := by
  rw [FormUrl.encode]
  have hplain : ∀ ch ∈ text.toList, FormUrl.encodeChar ch = [ch] := fun ch hch => if_pos (h ch hch)
  rw [List.flatMap_congr hplain, List.flatMap_singleton']

theorem normal_buildInviteUri (mesh session fp : String) (moss : Option String) :
    FormUrl.normal (buildInviteUri mesh session fp moss) = buildInviteUri mesh session fp moss := by
  obtain ⟨rest, hrest⟩ := toList_buildInviteUri mesh session fp moss
  refine if_neg fun hupper => ?_
  rw [hrest] at hupper
  exact absurd ((prefix_append_cons_iff (by decide)).1 hupper) (by decide)

/-- A generated URL. -/
def FormUrl.generated (mesh session fp moss : String) : FormUrl :=
  ⟨"mosh://invite".toList, [("mesh", mesh), ("session", session), ("moss", moss)],
    some ("fp=" ++ fp), by decide, by decide⟩

theorem asStr_generated {mesh session fp moss : String} (hmesh : Simple mesh)
    (hsession : Simple session) (hmoss : Simple moss) :
    (FormUrl.generated mesh session fp moss).asStr =
      buildInviteUri mesh session fp (some moss) := by
  refine String.toList_inj.1 ?_
  have hkeys : FormUrl.encode "mesh" = "mesh".toList ∧ FormUrl.encode "session" = "session".toList ∧
      FormUrl.encode "moss" = "moss".toList := by
    refine ⟨encode_of_simple (simple_of_all (by decide)),
      encode_of_simple (simple_of_all (by decide)), encode_of_simple (simple_of_all (by decide))⟩
  have hstart : "mosh://invite?mesh=".toList =
      "mosh://invite".toList ++ '?' :: ("mesh".toList ++ ['=']) := rfl
  have hsession' : "&session=".toList = '&' :: ("session".toList ++ ['=']) := rfl
  have hmoss' : "&moss=".toList = '&' :: ("moss".toList ++ ['=']) := rfl
  have hfp : "#fp=".toList = '#' :: "fp=".toList := rfl
  rw [FormUrl.toList_asStr]
  unfold FormUrl.generated buildInviteUri
  simp only [FormUrl.queryText, FormUrl.pairText, hkeys, encode_of_simple hmesh,
    encode_of_simple hsession, encode_of_simple hmoss, Option.elim_some, Option.map_some,
    Option.getD_some]
  generalize "mosh://invite?mesh=" = start, "&session=" = session', "&moss=" = moss',
    "#fp=" = fp', "fp=" = fragment, "mosh://invite".toList = head, "mesh".toList = key,
    "session".toList = key', "moss".toList = key'' at hstart hsession' hmoss' hfp ⊢
  simp only [String.toList_append, hstart, hsession', hmoss', hfp, List.append_assoc,
    List.cons_append, List.nil_append]

theorem formUrls_faithful : formUrls.Faithful where
  clear_same _ := ⟨rfl, rfl, rfl⟩
  extend_same _ _ := ⟨rfl, rfl, rfl⟩
  queryPairs_clear _ := rfl
  queryPairs_extend _ _ := rfl
  clear_clear _ := rfl
  clear_extend _ _ := rfl
  extend_extend u pairs more := by
    change FormUrl.extended (FormUrl.extended u pairs) more = FormUrl.extended u (pairs ++ more)
    rw [FormUrl.extended, FormUrl.extended, FormUrl.extended, List.append_assoc]
  parse_asStr u := FormUrl.parse_of_normal (FormUrl.normal_asStr u)
  asStr_extend u := by
    refine ⟨String.ofList u.head, by rw [String.toList_ofList]; exact u.query_mark, fun pairs => ?_⟩
    refine ⟨String.ofList (FormUrl.queryText pairs ++ u.fragment.elim [] fun text =>
      '#' :: text.toList), ?_⟩
    rw [String.toList_ofList, String.toList_ofList]
    exact FormUrl.toList_asStr (u.cleared.extended pairs)
  parse_build mesh session fp moss := by
    obtain ⟨rest, hrest⟩ := toList_buildInviteUri mesh session fp moss
    have hstart : "mosh://invite?".toList <+: (buildInviteUri mesh session fp moss).toList := by
      rw [hrest, show "mosh://invite?".toList = "mosh://invite".toList ++ ['?'] from rfl]
      exact ⟨rest, List.append_assoc _ _ _⟩
    change ∃ u, FormUrl.parse _ = .ok u
    rw [FormUrl.parse, normal_buildInviteUri, if_pos hstart]
    split
    · exact ⟨_, rfl⟩
    · exact ⟨_, rfl⟩
  parse_simple mesh session fp moss hmesh hsession hfp hmoss := by
    have htext : (FormUrl.generated mesh session fp moss).asStr = _ :=
      asStr_generated hmesh hsession hmoss
    refine ⟨FormUrl.generated mesh session fp moss,
      FormUrl.parse_of_normal ((normal_buildInviteUri _ _ _ _).trans htext.symm), htext, rfl, rfl,
      rfl, rfl, rfl⟩

/-! ## Schemes in upper case -/

namespace FormUrl

/-- The text with the scheme in upper case. -/
def upper (u : FormUrl) : String := String.ofList ("MOSH".toList ++ (asStr u).toList.drop 4)

theorem toList_upper (u : FormUrl) : (upper u).toList = "MOSH".toList ++ (asStr u).toList.drop 4 :=
  String.toList_ofList

theorem parse_upper {u : FormUrl} (h : "mosh".toList <+: u.head) : parse (upper u) = .ok u := by
  refine parse_of_normal ?_
  obtain ⟨rest, hrest⟩ := h
  rw [normal, toList_upper, if_pos (List.prefix_append _ _)]
  refine String.toList_inj.1 ?_
  rw [String.toList_ofList, toList_asStr, ← hrest]
  rfl

/-- It is no link. -/
theorem isCompact_upper (u : FormUrl) : isCompact (upper u) = false := by
  refine Bool.eq_false_iff.2 fun hcompact => ?_
  rw [isCompact, Bool.and_eq_true, startsWith_iff, toList_upper] at hcompact
  obtain ⟨rest, hrest⟩ := hcompact.1
  exact absurd (List.cons.inj hrest).1 (by decide)

end FormUrl

/-! ## Keys and proofs -/

/-- The signature of a key: the key, and the sum of what is signed. -/
def stamp (key m : List UInt8) : List UInt8 := key ++ List.replicate 32 m.sum

/-- Keys that sign with sums. -/
def sumKeys : Ed25519 Unit where
  verifyingKey _ := List.replicate 32 1
  sign _ m := stamp (List.replicate 32 1) m
  keyFromBytes key := check "signature error" (key.length = 32)
  signatureFromSlice sig := check "signature error" (sig.length = 64)
  verifyStrict key m sig := check "signature error" (sig = stamp key m)

theorem sumKeys_signs : sumKeys.SignsAs () where
  length_key := List.length_replicate
  keyFromBytes := rfl
  sign m := ⟨rfl, rfl, check_eq_ok.2 (decide_eq_true rfl)⟩

/-- A leaf that signs with sums. -/
def sumLeaf : MlsSessionCrypto where
  signerPublic := List.replicate 32 2
  signSenderProof m := .ok (stamp (List.replicate 32 2) m)

theorem sumLeaf_signs : sumLeaf.Signs sumKeys where
  length_signer := List.length_replicate
  keyFromBytes := rfl
  sign m := ⟨_, rfl, rfl, rfl, check_eq_ok.2 (decide_eq_true rfl)⟩

def boundFormat : Format BoundPayload :=
  (Format.number.pair (Format.octets.pair Format.word)).through
    (fun bound => (bound.version, bound.mlsSigner, bound.payloadB64))
    (fun row => some ⟨row.1, row.2.1, row.2.2⟩) fun _ => rfl

def proofFormat : Format SenderProof :=
  (Format.octets.pair (Format.word.pair (Format.octets.pair Format.octets))).through
    (fun proof => (proof.identity.payload, proof.identity.peerId, proof.identity.sig,
      proof.mlsSignature))
    (fun row => some ⟨⟨row.1, row.2.1, row.2.2.1⟩, row.2.2.2⟩) fun _ => rfl

def packedJson : Json where
  boundToVec := boundFormat.packed
  boundFromSlice bytes := getOr "expected value" (boundFormat.unpacked bytes)
  proofToVec := proofFormat.packed
  proofFromSlice bytes := getOr "expected value" (proofFormat.unpacked bytes)
  base64Error _ := "invalid base64"
  hexError _ := "invalid hex"

theorem packedJson_faithful : packedJson.Faithful where
  bound bound := getOr_eq_ok.2 (boundFormat.unpacked_packed bound)
  proof proof := getOr_eq_ok.2 (proofFormat.unpacked_packed proof)

/-- What the program takes from others. -/
noncomputable def formCrates : Crates FormUrl Unit := { formUrls, sumKeys, packedJson with }

end Mosh.Invite
