import Mosh.Invite.Forms

/-!
# Links lose nothing

The link of a generated URL gives the URL back, with its owner; any other URL keeps its form, and
its owner is found from the proof. A link is accepted in one form only: it is the encoding of its
bytes, and its flags tell how many of them there are.

* `CompactInvite.decode_eq_ok`: which links are accepted, and what they say;
* `CompactInvite.eq_of_carried`, `eq_of_prefix`, `eq_of_flags`: the one form of a link;
* `CompactInvite.layout`: where the parts of a generated invitation are in its link;
* `sign_generated`, `signInvite_other`: what is signed as a link, and what is not;
* `invitation_links_lossless`: links and long forms, and the one form of a link;
* `upper_scheme_not_kept`: what counts is the URL as it is written back.
-/

namespace Mosh.Invite

open Checked DeviceLink Deletion

/-! ## What a link holds -/

namespace CompactInvite

/-- The link of bytes. -/
def link (bytes : List UInt8) : String := linkPrefix ++ Base64Url.encode bytes

/-- The bytes have the layout of a link. -/
structure WellFormed (bytes : List UInt8) : Prop where
  header : headerBytes + signatureBytes ≤ bytes.length
  version : bytes.getD 0 0 = 1
  flags : bytes.getD 1 0 &&& ~~~(targetFlag ||| tokenFlag) = 0
  length : bytes.length = payloadLen (bytes.getD 1 0) + signatureBytes

/-- The payload that is signed. -/
def payloadOf (bytes : List UInt8) : List UInt8 := bytes.take (payloadLen (bytes.getD 1 0))

/-- Both signatures are about the payload. -/
structure SignedBy {Key : Type} (c : Ed25519 Key) (bytes : List UInt8) : Prop where
  identity : c.verifyStrict (bytes.extract 18 50)
    (signingInput (context (headerInvite bytes).meshId) (payloadOf bytes))
    (bytes.extract (payloadLen (bytes.getD 1 0)) (payloadLen (bytes.getD 1 0) + 64)) = .ok ()
  leaf : c.verifyStrict (bytes.extract 50 82)
    (signingInput (context (headerInvite bytes).meshId) (payloadOf bytes))
    (bytes.drop (payloadLen (bytes.getD 1 0) + 64)) = .ok ()

theorem link_inj {bytes bytes' : List UInt8} (h : link bytes = link bytes') : bytes = bytes' := by
  refine Base64Url.encode_inj (String.toList_inj.1 ?_)
  have hlist := congrArg String.toList h
  rw [link, link, String.toList_append, String.toList_append] at hlist
  exact List.append_cancel_left hlist

section Decoding

variable {Url Key : Type} {c : Crates Url Key}

/-- A link is accepted if it is that of bytes in the right layout, whose signatures are right. -/
theorem decode_eq_ok {raw : String} {d : Decoded} : decode c raw = .ok d ↔ ∃ bytes,
    raw = link bytes ∧ WellFormed bytes ∧
      verify c bytes (payloadLen (bytes.getD 1 0)) (headerInvite bytes).meshId = .ok () ∧
      ∃ url, canonical c (headerInvite bytes) (targetOf bytes) (tokenOf bytes) = .ok url ∧
        d = ⟨headerInvite bytes, targetOf bytes, tokenOf bytes,
          ⟨Hex.encode (bytes.extract 18 50), bytes.extract 50 82, textBytes url⟩⟩ := by
  simp only [decode, bind_eq_ok, getOr_eq_ok, check_eq_ok, Bool.and_eq_true, decide_eq_true_eq]
  constructor
  · rintro ⟨encoded, hstrip, bytes, hdecode, -, ⟨⟨⟨hencode, hheader⟩, hversion⟩, hflags⟩, -, hlength,
      ⟨⟩, hverify, peerId, hpeer, url, hurl, hd⟩
    obtain rfl := Option.some.inj hpeer
    refine ⟨bytes, ?_, ⟨hheader, hversion, hflags, hlength⟩, hverify, url, hurl,
      (Except.ok.inj hd).symm⟩
    rw [stripPrefix_eq_some hstrip, link, hencode]
  · rintro ⟨bytes, rfl, hwell, hverify, url, hurl, rfl⟩
    exact ⟨_, stripPrefix_append _ _, bytes, Base64Url.decode_encode bytes, (),
      ⟨⟨⟨rfl, hwell.header⟩, hwell.version⟩, hwell.flags⟩, (), hwell.length, (), hverify, _, rfl, url,
      hurl, rfl⟩

/-- The bytes of an accepted link. -/
theorem wellFormed_of_decode {bytes : List UInt8} {d : Decoded}
    (h : decode c (link bytes) = .ok d) : WellFormed bytes := by
  obtain ⟨bytes', heq, hwell, -⟩ := decode_eq_ok.1 h
  rw [link_inj heq]
  exact hwell

/-- The signatures of a link are checked over its payload. -/
theorem verify_eq_ok {bytes : List UInt8} (hwell : WellFormed bytes) :
    verify c bytes (payloadLen (bytes.getD 1 0)) (headerInvite bytes).meshId = .ok () ↔
      c.keyFromBytes (bytes.extract 18 50) = .ok () ∧
      c.signatureFromSlice (bytes.extract (payloadLen (bytes.getD 1 0))
        (payloadLen (bytes.getD 1 0) + 64)) = .ok () ∧
      c.keyFromBytes (bytes.extract 50 82) = .ok () ∧
      c.signatureFromSlice (bytes.drop (payloadLen (bytes.getD 1 0) + 64)) = .ok () ∧
      SignedBy c.toEd25519 bytes := by
  have hlength : (bytes.extract 18 50).length = 32 := by
    have := hwell.header
    rw [headerBytes, signatureBytes] at this
    rw [List.extract_eq_take_drop, List.length_take, List.length_drop]
    omega
  have hkey : (Hex.decode (Hex.encode (bytes.extract 18 50))).filter (·.length = 32) =
      some (bytes.extract 18 50) := by
    rw [Hex.decode_encode, Option.filter_some, hlength]
    rfl
  simp only [verify, OrgSigned.verify, hkey, bind_eq_ok, mapError_eq_ok, getOr_eq_ok,
    orError_eq_ok, Option.some.injEq]
  constructor
  · rintro ⟨⟨⟩, ⟨key, rfl, ⟨⟩, hkey₁, ⟨⟩, hsig₁, hverify₁⟩, ⟨⟩, hkey₂, ⟨⟩, hsig₂, hverify₂⟩
    exact ⟨hkey₁, hsig₁, hkey₂, hsig₂, hverify₁, hverify₂⟩
  · rintro ⟨hkey₁, hsig₁, hkey₂, hsig₂, hverify₁, hverify₂⟩
    exact ⟨(), ⟨_, rfl, (), hkey₁, (), hsig₁, hverify₁⟩, (), hkey₂, (), hsig₂, hverify₂⟩

end Decoding

/-! ## One form -/

/-- The payload and the signatures that a text carries, whether it is accepted or not. -/
def carried (raw : String) : Option (List UInt8 × List UInt8 × List UInt8) := do
  let encoded ← stripPrefix linkPrefix raw
  let bytes ← Base64Url.decode encoded
  let length := payloadLen (bytes.getD 1 0)
  return (payloadOf bytes, bytes.extract length (length + 64), bytes.drop (length + 64))

theorem carried_link (bytes : List UInt8) : carried (link bytes) = some (payloadOf bytes,
    bytes.extract (payloadLen (bytes.getD 1 0)) (payloadLen (bytes.getD 1 0) + 64),
    bytes.drop (payloadLen (bytes.getD 1 0) + 64)) := by
  rw [carried, link, stripPrefix_append]
  change Option.bind (Base64Url.decode (Base64Url.encode bytes)) _ = _
  rw [Base64Url.decode_encode]
  rfl

/-- The bytes are the payload and the signatures. -/
theorem payloadOf_append (bytes : List UInt8) : payloadOf bytes ++
    bytes.extract (payloadLen (bytes.getD 1 0)) (payloadLen (bytes.getD 1 0) + 64) ++
    bytes.drop (payloadLen (bytes.getD 1 0) + 64) = bytes := by
  rw [payloadOf, List.extract_eq_take_drop, Nat.add_sub_cancel_left, List.append_assoc,
    ← List.drop_drop, List.take_append_drop, List.take_append_drop]

/-- Flags that are known. -/
theorem mem_of_flags {flags : UInt8} (h : flags &&& ~~~(targetFlag ||| tokenFlag) = 0) :
    flags ∈ ([0, 1, 2, 3] : List UInt8) := by
  have hall : ∀ n : Fin 256, UInt8.ofNat n &&& ~~~(targetFlag ||| tokenFlag) = 0 →
      UInt8.ofNat n ∈ ([0, 1, 2, 3] : List UInt8) := by
    decide +kernel
  have hflags := hall ⟨flags.toNat, flags.toNat_lt⟩
  rw [UInt8.ofNat_toNat] at hflags
  exact hflags h

/-- The flags tell the length of the payload, and the length tells the flags. -/
theorem payloadLen_inj {flags flags' : UInt8} (h : flags &&& ~~~(targetFlag ||| tokenFlag) = 0)
    (h' : flags' &&& ~~~(targetFlag ||| tokenFlag) = 0) (heq : payloadLen flags = payloadLen flags') :
    flags = flags' := by
  have hall : ∀ flags ∈ ([0, 1, 2, 3] : List UInt8), ∀ flags' ∈ ([0, 1, 2, 3] : List UInt8),
      payloadLen flags = payloadLen flags' → flags = flags' := by
    decide +kernel
  exact hall _ (mem_of_flags h) _ (mem_of_flags h') heq

theorem WellFormed.three_le {bytes : List UInt8} (h : WellFormed bytes) : 3 ≤ bytes.length := by
  have hheader := h.header
  rw [headerBytes, signatureBytes] at hheader
  omega

/-- The first three bytes tell how many there are. -/
theorem WellFormed.eq_of_take {bytes bytes' : List UInt8} (h : WellFormed bytes)
    (h' : WellFormed bytes') (htake : bytes'.take 3 = bytes.take 3) :
    bytes'.length = bytes.length := by
  have hat : ∀ b : List UInt8, b.getD 1 0 = (b.take 3).getD 1 0 := by
    intro b
    rw [List.getD_eq_getElem?_getD, List.getD_eq_getElem?_getD, List.getElem?_take_of_lt (by omega)]
  rw [h.length, h'.length, hat bytes, hat bytes', htake]

section Unique

variable {Url Key : Type} {c : Crates Url Key} {raw raw' : String} {d d' : Decoded}

/-- A payload and its signatures are accepted in one form. -/
theorem eq_of_carried (h : decode c raw = .ok d) (h' : decode c raw' = .ok d')
    (heq : carried raw = carried raw') : raw = raw' := by
  obtain ⟨bytes, rfl, -⟩ := decode_eq_ok.1 h
  obtain ⟨bytes', rfl, -⟩ := decode_eq_ok.1 h'
  rw [carried_link, carried_link] at heq
  obtain ⟨hpayload, hrest⟩ := Prod.mk.inj (Option.some.inj heq)
  obtain ⟨hsig, hsig'⟩ := Prod.mk.inj hrest
  rw [← payloadOf_append bytes, ← payloadOf_append bytes', hpayload, hsig, hsig']

/-- No part of an accepted link is accepted, and no link that goes on after it. -/
theorem eq_of_prefix (h : decode c raw = .ok d) (h' : decode c raw' = .ok d')
    (hstart : raw'.toList <+: raw.toList) : raw' = raw := by
  obtain ⟨bytes, rfl, hwell, -⟩ := decode_eq_ok.1 h
  obtain ⟨bytes', rfl, hwell', -⟩ := decode_eq_ok.1 h'
  rw [link, link, String.toList_append, String.toList_append,
    List.prefix_append_right_inj, Base64Url.encode, Base64Url.encode, String.toList_ofList,
    String.toList_ofList] at hstart
  -- the first four characters are those of the first three bytes, so the flags are the same
  have hfour : (Base64Url.encodeChars bytes').take 4 = (Base64Url.encodeChars bytes).take 4 := by
    obtain ⟨rest, hrest⟩ := hstart
    rw [← hrest, List.take_append_of_le_length]
    rw [Base64Url.length_encodeChars]
    have := hwell'.three_le
    omega
  rw [Base64Url.take_encodeChars hwell'.three_le, Base64Url.take_encodeChars hwell.three_le] at hfour
  have hlength := hwell.eq_of_take hwell' (Base64Url.encodeChars_inj hfour)
  have hsame : Base64Url.encodeChars bytes' = Base64Url.encodeChars bytes :=
    hstart.eq_of_length (by rw [Base64Url.length_encodeChars, Base64Url.length_encodeChars, hlength])
  rw [Base64Url.encodeChars_inj hsame]

/-- The same holds of the bytes. -/
theorem eq_of_prefix_bytes {bytes bytes' : List UInt8} (h : decode c (link bytes) = .ok d)
    (h' : decode c (link bytes') = .ok d') (hstart : bytes' <+: bytes) : bytes' = bytes := by
  have hwell := wellFormed_of_decode h
  have hwell' := wellFormed_of_decode h'
  refine hstart.eq_of_length (hwell.eq_of_take hwell' ?_)
  obtain ⟨rest, rfl⟩ := hstart
  rw [List.take_append_of_le_length hwell'.three_le]

/-- Other flags are not accepted. -/
theorem eq_of_flags {bytes : List UInt8} {flags : UInt8} (h : decode c (link bytes) = .ok d)
    (h' : decode c (link (bytes.set 1 flags)) = .ok d') : flags = bytes.getD 1 0 := by
  have hwell := wellFormed_of_decode h
  have hwell' := wellFormed_of_decode h'
  have hat : (bytes.set 1 flags).getD 1 0 = flags := by
    have := hwell.three_le
    rw [List.getD_eq_getElem?_getD, List.getElem?_set_self (by omega), Option.getD_some]
  have hlength := hwell'.length
  rw [List.length_set, hwell.length, hat] at hlength
  refine payloadLen_inj (hat ▸ hwell'.flags) hwell.flags (by omega)

end Unique

/-! ## The link of a generated invitation -/

/-- The middle of a list. -/
theorem extract_middle {α : Type} (pre mid post : List α) {i j : Nat} (hi : pre.length = i)
    (hj : i + mid.length = j) : (pre ++ mid ++ post).extract i j = mid := by
  rw [List.extract_eq_take_drop, List.append_assoc, ← hi, List.drop_left, ← hj, ← hi,
    Nat.add_sub_cancel_left, List.take_left]

/-- What the flags say. -/
def flagsOf (g : GeneratedInvite) : UInt8 :=
  (if g.target.isSome then targetFlag else 0) ||| (if g.token.isSome then tokenFlag else 0)

/-- The payload for a generated invitation of a signer. -/
def payload (g : GeneratedInvite) (signer : List UInt8) : List UInt8 :=
  [1, flagsOf g] ++ g.mesh ++ g.session ++ g.owner ++ signer ++ g.token.getD [] ++ g.target.getD []

/-- What can be read of the flags. -/
theorem flagsOf_spec (g : GeneratedInvite) : flagsOf g &&& ~~~(targetFlag ||| tokenFlag) = 0 ∧
    (flagsOf g &&& tokenFlag ≠ 0 ↔ g.token.isSome = true) ∧
    (flagsOf g &&& targetFlag ≠ 0 ↔ g.target.isSome = true) ∧
    payloadLen (flagsOf g) = 82 + (if g.token.isSome then 8 else 0) +
      (if g.target.isSome then 32 else 0) := by
  rw [flagsOf]
  generalize g.token.isSome = token, g.target.isSome = target
  revert token target
  decide

theorem length_token (g : GeneratedInvite) :
    (g.token.getD []).length = if g.token.isSome then 8 else 0 := by
  rcases htoken : g.token with - | token
  · rfl
  · exact g.length_token token htoken

theorem length_target (g : GeneratedInvite) :
    (g.target.getD []).length = if g.target.isSome then 32 else 0 := by
  rcases htarget : g.target with - | target
  · rfl
  · exact g.length_target target htarget

theorem length_payload (g : GeneratedInvite) {signer : List UInt8} (h : signer.length = 32) :
    (payload g signer).length = payloadLen (flagsOf g) := by
  rw [(flagsOf_spec g).2.2.2]
  simp only [payload, List.length_append, g.length_mesh, g.length_session, g.length_owner, h,
    length_token, length_target, List.length_cons, List.length_nil]

/-- Where the parts of a generated invitation are in its link. -/
theorem layout (g : GeneratedInvite) {signer sig sig' : List UInt8} (hsigner : signer.length = 32)
    (hfp : g.fingerprint = signer.take 16) (hsig : sig.length = 64) (hsig' : sig'.length = 64)
    {bytes : List UInt8} (hbytes : bytes = payload g signer ++ sig ++ sig') :
    bytes.getD 1 0 = flagsOf g ∧ WellFormed bytes ∧ headerInvite bytes = g.parsed ∧
      tokenOf bytes = g.tokenText ∧ targetOf bytes = g.targetText ∧
      payloadOf bytes = payload g signer ∧
      bytes.extract 18 50 = g.owner ∧ bytes.extract 50 82 = signer ∧
      bytes.extract (payloadLen (flagsOf g)) (payloadLen (flagsOf g) + 64) = sig ∧
      bytes.drop (payloadLen (flagsOf g) + 64) = sig' := by
  have hlength := length_payload g hsigner
  have hmesh := g.length_mesh
  have hsession := g.length_session
  have howner := g.length_owner
  obtain ⟨hflags, htokenFlag, htargetFlag, -⟩ := flagsOf_spec g
  have hat : bytes.getD 1 0 = flagsOf g := by rw [hbytes]; rfl
  have hextractMesh : bytes.extract 2 10 = g.mesh := by
    rw [hbytes, show payload g signer ++ sig ++ sig' = [1, flagsOf g] ++ g.mesh ++ (g.session ++
      (g.owner ++ (signer ++ (g.token.getD [] ++ (g.target.getD [] ++ (sig ++ sig')))))) by
        simp [payload]]
    exact extract_middle _ _ _ rfl (by omega)
  have hextractSession : bytes.extract 10 18 = g.session := by
    rw [hbytes, show payload g signer ++ sig ++ sig' = ([1, flagsOf g] ++ g.mesh) ++ g.session ++
      (g.owner ++ (signer ++ (g.token.getD [] ++ (g.target.getD [] ++ (sig ++ sig'))))) by
        simp [payload]]
    exact extract_middle _ _ _ (by simp; omega) (by omega)
  have hextractOwner : bytes.extract 18 50 = g.owner := by
    rw [hbytes, show payload g signer ++ sig ++ sig' = ([1, flagsOf g] ++ g.mesh ++ g.session) ++
      g.owner ++ (signer ++ (g.token.getD [] ++ (g.target.getD [] ++ (sig ++ sig')))) by
        simp [payload]]
    exact extract_middle _ _ _ (by simp; omega) (by omega)
  have hsplit : payload g signer ++ sig ++ sig' = ([1, flagsOf g] ++ g.mesh ++ g.session ++
      g.owner) ++ signer ++ (g.token.getD [] ++ (g.target.getD [] ++ (sig ++ sig'))) := by
    simp [payload]
  have hextractSigner : bytes.extract 50 82 = signer := by
    rw [hbytes, hsplit]
    exact extract_middle _ _ _ (by simp; omega) (by omega)
  have hextractFp : bytes.extract 50 66 = g.fingerprint := by
    have htake : bytes.extract 50 66 = (bytes.extract 50 82).take 16 := by
      simp [List.extract_eq_take_drop, List.take_take]
    rw [htake, hextractSigner, hfp]
  have hheader : ([1, flagsOf g] ++ g.mesh ++ g.session ++ g.owner ++ signer).length = 82 := by
    simp only [List.length_append, List.length_cons, List.length_nil]
    omega
  have htokenText : tokenOf bytes = g.tokenText := by
    rw [tokenOf, hat, GeneratedInvite.tokenText]
    rcases htoken : g.token with - | token
    · rw [if_neg (by rw [htokenFlag, htoken]; exact Bool.false_ne_true), Option.map_none]
    · rw [if_pos (by rw [htokenFlag, htoken]; rfl), Option.map_some]
      have hextract : bytes.extract 82 90 = token := by
        rw [hbytes, show payload g signer ++ sig ++ sig' = ([1, flagsOf g] ++ g.mesh ++ g.session ++
          g.owner ++ signer) ++ token ++ (g.target.getD [] ++ (sig ++ sig')) by
            simp [payload, htoken]]
        exact extract_middle _ _ _ hheader (by rw [g.length_token token htoken])
      rw [hextract]
  have htargetText : targetOf bytes = g.targetText := by
    rw [targetOf, htokenText, hat, GeneratedInvite.targetText]
    rcases htarget : g.target with - | target
    · rw [if_neg (by rw [htargetFlag, htarget]; exact Bool.false_ne_true), Option.map_none]
    · rw [if_pos (by rw [htargetFlag, htarget]; rfl), Option.map_some]
      have hextract : ∀ start, start = 82 + (g.token.getD []).length →
          bytes.extract start (start + 32) = target := by
        rintro start rfl
        rw [hbytes, show payload g signer ++ sig ++ sig' = ([1, flagsOf g] ++ g.mesh ++ g.session ++
          g.owner ++ signer ++ g.token.getD []) ++ target ++ (sig ++ sig') by
            simp [payload, htarget]]
        exact extract_middle _ _ _ (by rw [List.length_append, hheader])
          (by rw [g.length_target target htarget])
      rw [hextract _ (by rw [length_token, GeneratedInvite.tokenText, Option.isSome_map]; rfl)]
  have htotal : bytes.length = payloadLen (flagsOf g) + 128 := by
    rw [hbytes, List.length_append, List.length_append, hlength, hsig, hsig']
  refine ⟨hat, ⟨?_, by rw [hbytes]; rfl, by rw [hat]; exact hflags, by rw [hat, htotal]; rfl⟩, ?_,
    htokenText, htargetText, ?_, hextractOwner, hextractSigner, ?_, ?_⟩
  · rw [htotal, payloadLen, headerBytes, signatureBytes]
    omega
  · rw [headerInvite, hextractMesh, hextractSession, hextractOwner, hextractFp]
    rfl
  · rw [payloadOf, hat, hbytes, List.append_assoc, ← hlength, List.take_left]
  · rw [hbytes]
    exact extract_middle _ _ _ hlength (by rw [hsig])
  · rw [hbytes, ← hlength, ← hsig, ← List.length_append, List.drop_left]

end CompactInvite

section Signing

variable {Url Key : Type} {c : Crates Url Key} {identity : Key} {crypto : MlsSessionCrypto}

/-- The installation that a generated invitation is of. -/
structure GeneratedInvite.OwnedBy (g : GeneratedInvite) (c : Ed25519 Key) (identity : Key)
    (crypto : MlsSessionCrypto) : Prop where
  owner : g.owner = c.verifyingKey identity
  fingerprint : g.fingerprint = crypto.signerPublic.take 16

/-- An installation that owns what is read of a generated URL owns it. -/
theorem GeneratedInvite.ownedBy_of_parsed {g : GeneratedInvite}
    (h : ownedBy c g.parsed identity crypto = true) : g.OwnedBy c.toEd25519 identity crypto := by
  rw [ownedBy, Bool.and_eq_true, decide_eq_true_eq, decide_eq_true_eq] at h
  exact ⟨Hex.encode_inj (Option.some.inj h.1), Hex.encodeUpper_inj h.2⟩

/-- The link of a generated URL says what the URL says, and who its owner is. -/
theorem sign_generated (hurl : c.Faithful) (hidentity : c.SignsAs identity)
    (hcrypto : crypto.Signs c.toEd25519) {g : GeneratedInvite}
    (howned : g.OwnedBy c.toEd25519 identity crypto) {raw : String} (hraw : g.url c = .ok raw) :
    ∃ text, CompactInvite.sign c raw identity crypto = .ok (some text) ∧
      CompactInvite.decode c text = .ok ⟨g.parsed, g.targetText, g.tokenText,
        ⟨Hex.encode (c.verifyingKey identity), crypto.signerPublic, textBytes raw⟩⟩ := by
  obtain ⟨hparse, htarget, htoken, -⟩ := g.read hurl hraw
  obtain ⟨sig', hsign, hlength', hslice', hstrict'⟩ := hcrypto.sign (signingInput
    (CompactInvite.context g.parsed.meshId) (CompactInvite.payload g crypto.signerPublic))
  obtain ⟨hlength, hslice, hstrict⟩ := hidentity.sign (signingInput
    (CompactInvite.context g.parsed.meshId) (CompactInvite.payload g crypto.signerPublic))
  set sig := c.sign identity (signingInput
    (CompactInvite.context g.parsed.meshId) (CompactInvite.payload g crypto.signerPublic)) with hsig
  refine ⟨CompactInvite.link (CompactInvite.payload g crypto.signerPublic ++ sig ++ sig'), ?_, ?_⟩
  · have hcanonical : CompactInvite.canonical c g.parsed g.targetText g.tokenText = .ok raw := hraw
    have hmesh : CompactInvite.tokenBytes g.parsed.meshId "mesh-" = some g.mesh :=
      tokenBytes_append _ g.length_mesh
    have hsession : CompactInvite.tokenBytes g.parsed.sessionId "session-" = some g.session :=
      tokenBytes_append _ g.length_session
    have hown : ownedBy c g.parsed identity crypto = true := by
      rw [ownedBy, GeneratedInvite.parsed, howned.owner, howned.fingerprint]
      simp [MlsSessionCrypto.fingerprint]
    have htokenBytes : g.tokenText.elim (some []) (CompactInvite.tokenBytes · "invite-") =
        some (g.token.getD []) := by
      rw [GeneratedInvite.tokenText]
      rcases hbytes : g.token with - | bytes
      · rfl
      · exact tokenBytes_append _ (g.length_token bytes hbytes)
    have htargetBytes : (g.targetText.elim (pure []) fun target =>
        getOr (c.hexError target) (Hex.decode target)) = .ok (g.target.getD []) := by
      rw [GeneratedInvite.targetText]
      rcases g.target with - | bytes
      · rfl
      · rw [Option.map_some, Option.elim_some, Hex.decode_encode]
        rfl
    have hflags : ((if g.targetText.isSome then CompactInvite.targetFlag else 0) |||
        (if g.tokenText.isSome then CompactInvite.tokenFlag else 0)) = CompactInvite.flagsOf g := by
      rw [CompactInvite.flagsOf, GeneratedInvite.targetText, GeneratedInvite.tokenText,
        Option.isSome_map, Option.isSome_map]
    rw [CompactInvite.sign, hparse, htarget, htoken]
    simp only [Except.mapError, ok_bind, hcanonical, ne_eq, not_true_eq_false, if_false, hmesh,
      hsession, hown, check, if_true, htokenBytes, htargetBytes, hflags, ← howned.owner]
    change (crypto.signSenderProof (signingInput _ (CompactInvite.payload g crypto.signerPublic)) >>=
      _) = _
    rw [hsign]
    rfl
  · obtain ⟨hat, hwell, hheader, htokenOf, htargetOf, hpayload, hextractOwner, hextractSigner,
      hextractSig, hdropSig⟩ := CompactInvite.layout g hcrypto.length_signer howned.fingerprint
        hlength hlength' rfl
    refine CompactInvite.decode_eq_ok.2 ⟨_, rfl, hwell, (CompactInvite.verify_eq_ok hwell).2 ?_,
      raw, ?_, ?_⟩
    · rw [hat, hextractOwner, hextractSigner, hextractSig, hdropSig, howned.owner]
      refine ⟨hidentity.keyFromBytes, hslice, hcrypto.keyFromBytes, hslice', ⟨?_, ?_⟩⟩
      · rw [hpayload, hat, hextractOwner, hextractSig, hheader, howned.owner]
        exact hstrict
      · rw [hpayload, hat, hextractSigner, hdropSig, hheader]
        exact hstrict'
    · rw [hheader, htokenOf, htargetOf]
      exact hraw
    · rw [hheader, htokenOf, htargetOf, hextractOwner, hextractSigner, howned.owner]

/-- A URL that can be read is no link, whatever is put into its query. -/
theorem isCompact_of_parse (hurl : c.Faithful) {u : Url} {pairs : List (String × String)}
    {invite : ParsedInvite}
    (hparse : ParsedInvite.parse c (c.asStr (withQuery c.toUrlCrate u pairs)) = .ok invite)
    (more : List (String × String)) :
    isCompact (c.asStr (withQuery c.toUrlCrate u more)) = false := by
  rw [isCompact_withQuery hurl u more pairs]
  refine Bool.eq_false_iff.2 fun hcompact => ?_
  rw [ParsedInvite.parse, if_pos hcompact] at hparse
  obtain ⟨d, hd, -⟩ := bind_eq_ok.1 hparse
  exact not_decode_withQuery hurl u pairs hd

/-- A URL that can be read and is owned, but was not generated, is not signed as a link. -/
theorem sign_other (hurl : c.Faithful) (hidentity : c.SignsAs identity)
    (hcrypto : crypto.Signs c.toEd25519) {u : Url} {pairs : List (String × String)}
    {invite : ParsedInvite}
    (hparse : ParsedInvite.parse c (c.asStr (withQuery c.toUrlCrate u pairs)) = .ok invite)
    (howned : ownedBy c invite identity crypto = true)
    (hother : ∀ g : GeneratedInvite, g.url c ≠ .ok (c.asStr (withQuery c.toUrlCrate u pairs))) :
    CompactInvite.sign c (c.asStr (withQuery c.toUrlCrate u pairs)) identity crypto = .ok none := by
  set raw := c.asStr (withQuery c.toUrlCrate u pairs) with hraw
  have hcompact : isCompact raw = false := isCompact_of_parse hurl hparse pairs
  obtain ⟨-, -, ⟨target, htarget⟩, token, htoken⟩ := (parse_asStr_iff hurl hcompact).1 hparse
  obtain ⟨url, hbuild⟩ := hurl.parse_build invite.meshId invite.sessionId invite.fingerprint
    invite.peerMossId
  have hcanonical : ∃ text, CompactInvite.canonical c invite target token = .ok text := by
    rw [CompactInvite.canonical, hbuild]
    exact ⟨_, rfl⟩
  obtain ⟨text, htext⟩ := hcanonical
  rw [CompactInvite.sign, hparse, htarget, htoken]
  simp only [Except.mapError, ok_bind, htext]
  split
  · rfl
  · next heq =>
    rw [not_not] at heq
    -- a text of random tokens would have been generated
    rcases hmesh : CompactInvite.tokenBytes invite.meshId "mesh-" with - | mesh
    · rfl
    · rcases hsession : CompactInvite.tokenBytes invite.sessionId "session-" with - | session
      · rfl
      · simp only [howned, check, if_true, ok_bind]
        rcases hbytes : token.elim (some []) (CompactInvite.tokenBytes · "invite-") with - | bytes
        · rfl
        · have hrandom : ∀ text, token = some text → ∃ bytes : List UInt8, bytes.length = 8 ∧
              text = "invite-" ++ Hex.encode bytes := by
            rintro text rfl
            exact ⟨bytes, tokenBytes_eq_some hbytes⟩
          obtain ⟨g, hg⟩ := exists_generated hmesh hsession howned hidentity.length_key
            hcrypto.length_signer htarget hcompact hrandom (htext.trans (congrArg _ heq))
          exact absurd hg (hother g)

/-- A proof of a sender shows the sender. -/
theorem senderProof_verify (hjson : c.toJson.Faithful) (hidentity : c.SignsAs identity)
    (hcrypto : crypto.Signs c.toEd25519) (ctx : OrgContext) (payload : List UInt8) :
    ∃ proof, SenderProof.sign c identity crypto ctx payload = .ok proof ∧
      proof.verify c ctx = .ok ⟨Hex.encode (c.verifyingKey identity), crypto.signerPublic, payload⟩ := by
  obtain ⟨sig', hsign, -, hslice', hstrict'⟩ := hcrypto.sign (signingInput ctx
    (c.boundToVec ⟨1, crypto.signerPublic, Base64.encode payload⟩))
  obtain ⟨-, hslice, hstrict⟩ := hidentity.sign (signingInput ctx
    (c.boundToVec ⟨1, crypto.signerPublic, Base64.encode payload⟩))
  refine ⟨_, by rw [SenderProof.sign, hsign]; rfl, ?_⟩
  have hkey : (Hex.decode (Hex.encode (c.verifyingKey identity))).filter (·.length = 32) =
      some (c.verifyingKey identity) := by
    rw [Hex.decode_encode, Option.filter_some, hidentity.length_key]
    rfl
  have hverify : (OrgSigned.sign c identity ctx
      (c.boundToVec ⟨1, crypto.signerPublic, Base64.encode payload⟩)).verify c ctx = .ok () := by
    simp only [OrgSigned.verify, OrgSigned.sign, hkey, getOr, Option.elim_some, ok_bind, orError,
      hidentity.keyFromBytes, hslice, hstrict, Except.mapError]
  simp only [SenderProof.verify, bind_eq_ok, mapError_eq_ok, check_eq_ok, getOr_eq_ok,
    decide_eq_true_eq]
  refine ⟨(), hverify, _, hjson.bound _, (), rfl, (), hcrypto.length_signer, (),
    hcrypto.keyFromBytes, (), hslice', (), hstrict', payload, Base64.decode_encode payload, ?_⟩
  rw [OrgSigned.sign, Hex.toLower_encode]
  rfl

/-- What is signed otherwise keeps its form, and a proof of its owner is appended. -/
theorem signInvite_other (hurl : c.Faithful) (hjson : c.toJson.Faithful)
    (hidentity : c.SignsAs identity) (hcrypto : crypto.Signs c.toEd25519) {raw : String}
    {unsigned : Url} {before : Option String} {invite : ParsedInvite}
    (hsplit : split c raw = .ok (unsigned, before))
    (hparse : ParsedInvite.parse c (c.asStr unsigned) = .ok invite)
    (howned : ownedBy c invite identity crypto = true)
    (hother : ∀ g : GeneratedInvite, g.url c ≠ .ok (c.asStr unsigned)) : ∃ proof,
      signInvite c raw identity crypto = .ok (c.asStr (c.extendPairs unsigned [("proof", proof)])) ∧
      verifyInviteOwner c (c.asStr (c.extendPairs unsigned [("proof", proof)])) invite =
        .ok (some ⟨Hex.encode (c.verifyingKey identity), crypto.signerPublic,
          textBytes (c.asStr unsigned)⟩) ∧
      ParsedInvite.parse c (c.asStr (c.extendPairs unsigned [("proof", proof)])) = .ok invite := by
  obtain ⟨u, pairs, rfl, hpairs⟩ := split_eq_ok hsplit
  obtain ⟨proof, hproof, hverify⟩ := senderProof_verify hjson hidentity hcrypto (context invite)
    (textBytes (c.asStr (withQuery c.toUrlCrate u pairs)))
  have hnone := sign_other hurl hidentity hcrypto hparse howned hother
  refine ⟨Base64Url.encode (c.proofToVec proof), ?_, ?_⟩
  · rw [signInvite, hsplit, ok_bind]
    dsimp only
    rw [hnone, ok_bind, hparse]
    simp only [Except.mapError, ok_bind, howned, check, if_true, hproof]
    rfl
  · have hcompact := isCompact_of_parse hurl hparse
    obtain ⟨hread, -, ⟨target, htarget⟩, token, htoken⟩ :=
      (parse_asStr_iff hurl (hcompact pairs)).1 hparse
    rw [extend_withQuery hurl]
    have hsplit' := split_asStr hurl u hpairs (some (Base64Url.encode (c.proofToVec proof)))
    rw [Option.map_some, Option.toList_some] at hsplit'
    rw [ownedBy, Bool.and_eq_true, decide_eq_true_eq, decide_eq_true_eq] at howned
    have howner : verifyInviteOwner c (c.asStr (withQuery c.toUrlCrate u
        (pairs ++ [("proof", Base64Url.encode (c.proofToVec proof))]))) invite =
          .ok (some ⟨Hex.encode (c.verifyingKey identity), crypto.signerPublic,
            textBytes (c.asStr (withQuery c.toUrlCrate u pairs))⟩) := by
      rw [verifyInviteOwner, hcompact, hsplit']
      simp only [Bool.false_eq_true, if_false, ok_bind, Base64Url.decode_encode, getOr,
        Option.elim_some, hjson.proof, hverify, howned.1, howned.2, MlsSessionCrypto.fingerprint,
        decide_true, Bool.and_self, check, if_true]
      rfl
    refine ⟨howner, (parse_asStr_iff hurl (hcompact _)).2 ⟨hread.concat hurl _, ⟨_, howner⟩,
      ⟨target, ?_⟩, token, ?_⟩⟩
    · rw [← htarget]
      exact targetPeer_asStr hurl (hcompact _) (hcompact _)
        (queryValues_concat hurl u pairs (by decide))
    · rw [← htoken]
      exact invitationToken_asStr hurl (hcompact _) (hcompact _)
        (queryValues_concat hurl u pairs (by decide))

/-- A generated URL that is given with a proof, or is not yet normal, is signed as a link. -/
theorem signInvite_generated (hurl : c.Faithful) (hidentity : c.SignsAs identity)
    (hcrypto : crypto.Signs c.toEd25519) {g : GeneratedInvite}
    (howned : g.OwnedBy c.toEd25519 identity crypto) {raw : String} {unsigned : Url}
    {before : Option String} (hsplit : split c raw = .ok (unsigned, before))
    (hraw : g.url c = .ok (c.asStr unsigned)) :
    ∃ text, signInvite c raw identity crypto = .ok text ∧
      CompactInvite.decode c text = .ok ⟨g.parsed, g.targetText, g.tokenText,
        ⟨Hex.encode (c.verifyingKey identity), crypto.signerPublic,
          textBytes (c.asStr unsigned)⟩⟩ := by
  obtain ⟨text, hsign, hdecode⟩ := sign_generated hurl hidentity hcrypto howned hraw
  refine ⟨text, ?_, hdecode⟩
  rw [signInvite, hsplit, ok_bind]
  dsimp only
  rw [hsign]
  rfl

/-- Links lose nothing, and have one form.

    * A generated URL of the installation is signed as a link, which says what the URL says, and that
      the installation has signed it.
    * Any other URL keeps its form: the proof that is appended shows the installation, and that it
      has signed the rest. What counts is the text as the url crate writes it, without a proof.
    * An accepted link is the encoding of its bytes, both signatures are about its payload, and it is
      the only accepted text with its payload and its signatures. No part of it is accepted, nothing
      that goes on after it, and no other flags. -/
theorem invitation_links_lossless (hurl : c.Faithful) (hjson : c.toJson.Faithful)
    (hidentity : c.SignsAs identity) (hcrypto : crypto.Signs c.toEd25519) :
    (∀ (g : GeneratedInvite) (raw : String), g.OwnedBy c.toEd25519 identity crypto →
      g.url c = .ok raw → ∃ text, CompactInvite.sign c raw identity crypto = .ok (some text) ∧
        signInvite c raw identity crypto = .ok text ∧
        CompactInvite.decode c text = .ok ⟨g.parsed, g.targetText, g.tokenText,
          ⟨Hex.encode (c.verifyingKey identity), crypto.signerPublic, textBytes raw⟩⟩) ∧
    (∀ raw unsigned before invite, split c raw = .ok (unsigned, before) →
      ParsedInvite.parse c (c.asStr unsigned) = .ok invite →
      ownedBy c invite identity crypto = true →
      ((∀ g : GeneratedInvite, g.url c ≠ .ok (c.asStr unsigned)) → ∃ proof,
        signInvite c raw identity crypto =
          .ok (c.asStr (c.extendPairs unsigned [("proof", proof)])) ∧
        ParsedInvite.parse c (c.asStr (c.extendPairs unsigned [("proof", proof)])) = .ok invite ∧
        verifyInviteOwner c (c.asStr (c.extendPairs unsigned [("proof", proof)])) invite =
          .ok (some ⟨Hex.encode (c.verifyingKey identity), crypto.signerPublic,
            textBytes (c.asStr unsigned)⟩)) ∧
      ∀ g : GeneratedInvite, g.url c = .ok (c.asStr unsigned) → ∃ text,
        signInvite c raw identity crypto = .ok text ∧
        CompactInvite.decode c text = .ok ⟨g.parsed, g.targetText, g.tokenText,
          ⟨Hex.encode (c.verifyingKey identity), crypto.signerPublic,
            textBytes (c.asStr unsigned)⟩⟩) ∧
    (∀ raw d, CompactInvite.decode c raw = .ok d →
      (∃ bytes, raw = CompactInvite.link bytes ∧ CompactInvite.WellFormed bytes ∧
        CompactInvite.SignedBy c.toEd25519 bytes ∧
        (∀ bytes' d', CompactInvite.decode c (CompactInvite.link bytes') = .ok d' →
          bytes' <+: bytes → bytes' = bytes) ∧
        ∀ flags d', CompactInvite.decode c (CompactInvite.link (bytes.set 1 flags)) = .ok d' →
          flags = bytes.getD 1 0) ∧
      ∀ raw' d', CompactInvite.decode c raw' = .ok d' →
        (CompactInvite.carried raw = CompactInvite.carried raw' → raw = raw') ∧
        (raw'.toList <+: raw.toList → raw' = raw)) := by
  refine ⟨fun g raw howned hraw => ?_, fun raw unsigned before invite hsplit hparse howned =>
    ⟨fun hother => ?_, fun g hraw => ?_⟩, fun raw d hd => ⟨?_, fun raw' d' hd' =>
      ⟨CompactInvite.eq_of_carried hd hd', CompactInvite.eq_of_prefix hd hd'⟩⟩⟩
  · obtain ⟨text, hsign, hdecode⟩ := sign_generated hurl hidentity hcrypto howned hraw
    obtain ⟨-, -, -, u, hsplit, rfl⟩ := g.read hurl hraw
    refine ⟨text, hsign, ?_, hdecode⟩
    rw [signInvite, hsplit, ok_bind]
    dsimp only
    rw [hsign]
    rfl
  · obtain ⟨proof, hsign, howner, hread⟩ :=
      signInvite_other hurl hjson hidentity hcrypto hsplit hparse howned hother
    exact ⟨proof, hsign, hread, howner⟩
  · obtain ⟨hread, -⟩ := g.read hurl hraw
    obtain rfl := Except.ok.inj (hread.symm.trans hparse)
    exact signInvite_generated hurl hidentity hcrypto (GeneratedInvite.ownedBy_of_parsed howned)
      hsplit hraw
  · obtain ⟨bytes, rfl, hwell, hverify, -⟩ := CompactInvite.decode_eq_ok.1 hd
    exact ⟨bytes, rfl, hwell, ((CompactInvite.verify_eq_ok hwell).1 hverify).2.2.2.2,
      fun bytes' d' hd' => CompactInvite.eq_of_prefix_bytes hd hd',
      fun flags d' hd' => CompactInvite.eq_of_flags hd hd'⟩

end Signing

/-- An invitation with a token and a target. -/
def someInvite : GeneratedInvite where
  mesh := List.replicate 8 3
  session := List.replicate 8 4
  owner := List.replicate 32 1
  fingerprint := List.replicate 16 2
  token := some (List.replicate 8 5)
  target := some (List.replicate 32 6)
  length_mesh := rfl
  length_session := rfl
  length_owner := rfl
  length_fingerprint := rfl
  length_token _ h := Option.some.inj h ▸ rfl
  length_target _ h := Option.some.inj h ▸ rfl

/-- An invitation with a token and a target is read from its link. -/
theorem invitation_links_lossless_some : ∃ raw text, someInvite.url formCrates = .ok raw ∧
    signInvite formCrates raw () sumLeaf = .ok text ∧
    CompactInvite.decode formCrates text = .ok ⟨someInvite.parsed, someInvite.targetText,
      someInvite.tokenText, ⟨Hex.encode (List.replicate 32 1), List.replicate 32 2,
        textBytes raw⟩⟩ := by
  obtain ⟨u, hu, -⟩ := exists_url (c := formCrates) formUrls_faithful someInvite
  obtain ⟨text, -, hsign, hdecode⟩ := (invitation_links_lossless (c := formCrates)
    formUrls_faithful packedJson_faithful sumKeys_signs sumLeaf_signs).1 someInvite _ ⟨rfl, rfl⟩ hu
  exact ⟨_, text, hu, hsign, hdecode⟩

/-! ## Schemes in upper case -/

section Normal

variable {Url Key : Type} {c : Crates Url Key} {raw raw' : String}

/-- What is read of texts of one URL is the same, unless one is a link. -/
theorem read_congr (hcompact : isCompact raw = false) (hcompact' : isCompact raw' = false)
    (h : c.parse raw = c.parse raw') : split c raw = split c raw' ∧
      ParsedInvite.parse c raw = ParsedInvite.parse c raw' := by
  constructor
  · rw [split, split, h]
  · simp only [ParsedInvite.parse, verifyInviteOwner, split, targetPeer, invitationToken, hcompact,
      hcompact', h, Bool.false_eq_true, if_false]

end Normal

/-- An invitation without a token and a target. -/
def plainInvite : GeneratedInvite where
  mesh := List.replicate 8 3
  session := List.replicate 8 4
  owner := List.replicate 32 1
  fingerprint := List.replicate 16 2
  token := none
  target := none
  length_mesh := rfl
  length_session := rfl
  length_owner := rfl
  length_fingerprint := rfl
  length_token := nofun
  length_target := nofun

/-- The generated URL. -/
def plainUrl : FormUrl := .generated plainInvite.parsed.meshId plainInvite.parsed.sessionId
  plainInvite.parsed.fingerprint (Hex.encode plainInvite.owner)

theorem url_plainInvite : plainInvite.url formCrates = .ok plainUrl.asStr := by
  have htext : plainUrl.asStr = buildInviteUri plainInvite.parsed.meshId
      plainInvite.parsed.sessionId plainInvite.parsed.fingerprint plainInvite.parsed.peerMossId :=
    asStr_generated (simple_append (simple_of_all (by decide)) (simple_encode _))
      (simple_append (simple_of_all (by decide)) (simple_encode _)) (simple_encode _)
  have hparse : formCrates.parse (buildInviteUri plainInvite.parsed.meshId
      plainInvite.parsed.sessionId plainInvite.parsed.fingerprint plainInvite.parsed.peerMossId) =
        .ok plainUrl := by
    rw [← htext]
    exact formUrls_faithful.parse_asStr plainUrl
  rw [GeneratedInvite.url, CompactInvite.canonical, hparse]
  rfl

/-- No generated URL has its scheme in upper case. -/
theorem url_ne_upper (g : GeneratedInvite) (u : FormUrl) : g.url formCrates ≠ .ok u.upper := by
  intro h
  obtain ⟨v, hv, -⟩ := exists_url (c := formCrates) formUrls_faithful g
  have hsame := congrArg String.toList (Except.ok.inj (hv.symm.trans h))
  set w : FormUrl := withQuery formCrates.toUrlCrate v g.pairs
  have hupper : "MOSH".toList <+: w.head ++ '?' :: (FormUrl.queryText w.pairs ++
      w.fragment.elim [] fun text => '#' :: text.toList) := by
    refine ⟨u.asStr.toList.drop 4, ?_⟩
    rw [← FormUrl.toList_upper, ← hsame]
    exact FormUrl.toList_asStr w
  exact w.lower ((prefix_append_cons_iff (by decide)).1 hupper)

/-- A URL whose scheme is in upper case. Its path makes it a link in lower case. -/
def pathUrl : FormUrl where
  head := "mosh://invite/x".toList
  pairs := [("mesh", "m"), ("session", "s"), ("moss", Hex.encode (List.replicate 32 1))]
  fragment := some ("fp=" ++ Hex.encodeUpper (List.replicate 16 2))
  query_mark := by decide
  lower := by decide

/-- Not every other URL keeps its form: of a generated URL whose scheme is in upper case, the link is
    signed, and a URL that is taken for a link once its scheme is in lower case is not signed. -/
theorem upper_scheme_not_kept :
    (∃ raw invite text d, ParsedInvite.parse formCrates raw = .ok invite ∧
      ownedBy formCrates invite () sumLeaf = true ∧
      (∀ g : GeneratedInvite, g.url formCrates ≠ .ok raw) ∧
      signInvite formCrates raw () sumLeaf = .ok text ∧
      CompactInvite.decode formCrates text = .ok d) ∧
    ∃ raw invite, ParsedInvite.parse formCrates raw = .ok invite ∧
      ownedBy formCrates invite () sumLeaf = true ∧
      (∀ g : GeneratedInvite, g.url formCrates ≠ .ok raw) ∧
      ∀ text, signInvite formCrates raw () sumLeaf ≠ .ok text := by
  constructor
  · obtain ⟨hread, -, -, u, hsplit, htext⟩ := plainInvite.read formUrls_faithful url_plainInvite
    have hparse : formCrates.parse plainUrl.upper = formCrates.parse plainUrl.asStr :=
      (FormUrl.parse_upper ⟨_, rfl⟩).trans (formUrls_faithful.parse_asStr plainUrl).symm
    obtain ⟨hsplit', hread'⟩ := read_congr (FormUrl.isCompact_upper plainUrl) (by decide +kernel)
      hparse
    obtain ⟨text, hsign, hdecode⟩ := signInvite_generated formUrls_faithful sumKeys_signs
      sumLeaf_signs (g := plainInvite) ⟨rfl, rfl⟩ (hsplit'.trans hsplit) (htext ▸ url_plainInvite)
    exact ⟨_, _, text, _, hread'.trans hread, by decide +kernel, fun g => url_ne_upper g _, hsign,
      hdecode⟩
  · have hparse : formCrates.parse pathUrl.upper = .ok pathUrl := FormUrl.parse_upper ⟨_, rfl⟩
    have hsplit : split formCrates pathUrl.upper = .ok (pathUrl, none) := by
      rw [split, hparse]
      rfl
    refine ⟨pathUrl.upper, ⟨"m", "s", none, Hex.encodeUpper (List.replicate 16 2),
      some (Hex.encode (List.replicate 32 1))⟩, ?_, by decide +kernel, fun g => url_ne_upper g _,
      fun text hsign => ?_⟩
    · have howner : ∀ invite, verifyInviteOwner formCrates pathUrl.upper invite = .ok none := by
        intro invite
        rw [verifyInviteOwner, FormUrl.isCompact_upper, hsplit]
        rfl
      have htarget : targetPeer formCrates pathUrl.upper = .ok none := by
        rw [targetPeer, FormUrl.isCompact_upper, hparse]
        rfl
      have htoken : invitationToken formCrates pathUrl.upper = .ok none := by
        rw [invitationToken, FormUrl.isCompact_upper, hparse]
        rfl
      simp only [ParsedInvite.parse, FormUrl.isCompact_upper, Bool.false_eq_true, if_false, hparse,
        howner, htarget, htoken, ok_bind]
      have hscheme : (formCrates.scheme pathUrl = "mosh" &&
          formCrates.hostStr pathUrl = some "invite") = true := by decide +kernel
      have hmesh : query formCrates pathUrl "mesh" = .ok "m" := by decide +kernel
      have hsession : query formCrates pathUrl "session" = .ok "s" := by decide +kernel
      have hfp : parseFingerprint (formCrates.fragment pathUrl) =
          .ok (Hex.encodeUpper (List.replicate 16 2)) := parseFingerprint_encodeUpper rfl
      have hpeer : optionalQuery formCrates pathUrl "peer" = none := by decide +kernel
      have hmoss : (((optionalQuery formCrates pathUrl "moss").map (·.toLower)).filter fun id =>
          id.utf8ByteSize = 64 && id.toList.all Hex.isHexDigit) =
            some (Hex.encode (List.replicate 32 1)) := by decide +kernel
      rw [hscheme, hmesh, hsession, hfp, hpeer, hmoss]
      rfl
    · rw [signInvite, hsplit, ok_bind] at hsign
      obtain ⟨signed, hsign, -⟩ := bind_eq_ok.1 hsign
      obtain ⟨invite, hread, -⟩ := bind_eq_ok.1 hsign
      rw [mapError_eq_ok, ParsedInvite.parse, if_pos (by decide +kernel)] at hread
      obtain ⟨d, hd, -⟩ := bind_eq_ok.1 hread
      refine not_mem_of_decode hd ?_
      decide +kernel

end Mosh.Invite
