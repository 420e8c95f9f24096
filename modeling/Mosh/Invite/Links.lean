import Mosh.DeviceLink.Roster
import Mosh.Library.Base64Url
import Mosh.Library.Checked
import Mosh.Library.Hex

/-!
# Invitation links

An invitation to a direct message is a URL (`private_dm_runtime/invite.rs`) that its owner signs
(`invite_ownership.rs`). A generated URL is signed as a compact link of fixed width
(`compact_invite.rs`); any other URL keeps its form, and a proof is appended to its query.

* `UrlCrate`, `Ed25519`, `Json`: what the program takes from others;
* `ParsedInvite.parse`: reads a URL or a link;
* `CompactInvite.sign`, `CompactInvite.decode`: the compact link;
* `signInvite`, `verifyInviteOwner`: the signature of an invitation, and its owner.
-/

namespace Mosh.Invite

open Checked DeviceLink

/-! ## What is taken from others -/

/-- The url crate. -/
structure UrlCrate (Url : Type) where
  parse : String → Except String Url
  asStr : Url → String
  scheme : Url → String
  hostStr : Url → Option String
  fragment : Url → Option String
  queryPairs : Url → List (String × String)
  /-- The URL without its query. -/
  clearQuery : Url → Url
  /-- Pairs are appended to the query. -/
  extendPairs : Url → List (String × String) → Url

/-- The signatures of the ed25519 crate. Keys and signatures are their bytes. -/
structure Ed25519 (Key : Type) where
  verifyingKey : Key → List UInt8
  sign : Key → List UInt8 → List UInt8
  keyFromBytes : List UInt8 → Except String Unit
  signatureFromSlice : List UInt8 → Except String Unit
  verifyStrict : List UInt8 → List UInt8 → List UInt8 → Except String Unit

/-- What is bound to the signature of a sender. -/
structure BoundPayload where
  version : Nat
  mlsSigner : List UInt8
  payloadB64 : String
  deriving DecidableEq, Repr

/-- A payload that its sender signed. -/
structure OrgSigned where
  payload : List UInt8
  peerId : String
  sig : List UInt8
  deriving DecidableEq, Repr

/-- One transcript, signed by the identity and by the MLS leaf. -/
structure SenderProof where
  identity : OrgSigned
  mlsSignature : List UInt8
  deriving DecidableEq, Repr

/-- The texts of proofs, and those of errors. -/
structure Json where
  boundToVec : BoundPayload → List UInt8
  boundFromSlice : List UInt8 → Except String BoundPayload
  proofToVec : SenderProof → List UInt8
  proofFromSlice : List UInt8 → Except String SenderProof
  base64Error : String → String
  hexError : String → String

/-- What the code takes from others. -/
structure Crates (Url Key : Type) extends UrlCrate Url, Ed25519 Key, Json

/-- The MLS session of a conversation, as the signer of its leaf. -/
structure MlsSessionCrypto where
  signerPublic : List UInt8
  signSenderProof : List UInt8 → Except String (List UInt8)

namespace MlsSessionCrypto

def fingerprint (crypto : MlsSessionCrypto) : String := Hex.encodeUpper (crypto.signerPublic.take 16)

end MlsSessionCrypto

/-- The text starts with another one. -/
def startsWith (start text : String) : Bool := start.toList.isPrefixOf text.toList

/-- The rest of a text after its start. -/
def stripPrefix (start text : String) : Option String :=
  if startsWith start text then some (String.ofList (text.toList.drop start.toList.length)) else none

/-! ## Signatures -/

/-- What a signature is for. -/
structure OrgContext where
  orgPubkey : String
  meshId : String
  channelKind : String

/-- A number of 64 bits, its lowest byte first. -/
def toLeBytes (n : Nat) : List UInt8 := (List.range 8).map fun i => UInt8.ofNat (n / 256 ^ i)

/-- What is signed: every part, after its length. -/
def signingInput (ctx : OrgContext) (payload : List UInt8) : List UInt8 :=
  textBytes "mosh-org-v1" ++
    [textBytes ctx.orgPubkey, textBytes ctx.meshId, textBytes ctx.channelKind, payload].flatMap
      fun part => toLeBytes part.length ++ part

inductive EnvelopeError
  | badPeerId | badSignature
  deriving DecidableEq, Repr

def EnvelopeError.text : EnvelopeError → String
  | .badPeerId => "envelope peer_id is not a valid ed25519 key"
  | .badSignature => "envelope signature invalid for context"

/-- The sender that a proof shows. -/
structure VerifiedSender where
  peerId : String
  mlsSigner : List UInt8
  payload : List UInt8
  deriving DecidableEq, Repr

section Signatures

variable {Url Key : Type} (c : Crates Url Key)

def OrgSigned.sign (identity : Key) (ctx : OrgContext) (payload : List UInt8) : OrgSigned where
  payload := payload
  peerId := Hex.encode (c.verifyingKey identity)
  sig := c.sign identity (signingInput ctx payload)

def OrgSigned.verify (env : OrgSigned) (ctx : OrgContext) : Except EnvelopeError Unit := do
  let key ← getOr .badPeerId ((Hex.decode env.peerId).filter (·.length = 32))
  orError .badPeerId (c.keyFromBytes key)
  orError .badSignature (c.signatureFromSlice env.sig)
  orError .badSignature (c.verifyStrict key (signingInput ctx env.payload) env.sig)

/-- The MLS leaf signs what the identity signs. -/
def SenderProof.sign (identity : Key) (crypto : MlsSessionCrypto) (ctx : OrgContext)
    (payload : List UInt8) : Except String SenderProof := do
  let bound := c.boundToVec ⟨1, crypto.signerPublic, Base64.encode payload⟩
  let mlsSignature ← crypto.signSenderProof (signingInput ctx bound)
  return ⟨OrgSigned.sign c identity ctx bound, mlsSignature⟩

def SenderProof.verify (proof : SenderProof) (ctx : OrgContext) :
    Except String VerifiedSender := do
  (proof.identity.verify c ctx).mapError (·.text)
  let bound ← c.boundFromSlice proof.identity.payload
  check "unsupported sender proof version" (bound.version = 1)
  check "invalid MLS signer" (bound.mlsSigner.length = 32)
  c.keyFromBytes bound.mlsSigner
  c.signatureFromSlice proof.mlsSignature
  c.verifyStrict bound.mlsSigner (signingInput ctx proof.identity.payload) proof.mlsSignature
  let payload ← getOr (c.base64Error bound.payloadB64) (Base64.decode bound.payloadB64)
  return ⟨proof.identity.peerId.toLower, bound.mlsSigner, payload⟩

end Signatures

/-! ## Generated URLs -/

structure ParsedInvite where
  meshId : String
  sessionId : String
  peerAddress : Option String
  fingerprint : String
  peerMossId : Option String
  deriving DecidableEq, Repr

def buildInviteUri (meshId sessionId fingerprint : String) (mossPeerId : Option String) : String :=
  "mosh://invite?mesh=" ++ meshId ++ "&session=" ++ sessionId ++
    (mossPeerId.map ("&moss=" ++ ·)).getD "" ++ "#fp=" ++ fingerprint

/-! ## Compact links -/

namespace CompactInvite

def linkPrefix : String := "mosh://invite/"
def headerBytes : Nat := 82
def signatureBytes : Nat := 128
def targetFlag : UInt8 := 1
def tokenFlag : UInt8 := 2

/-- The payload that the flags announce. -/
def payloadLen (flags : UInt8) : Nat :=
  headerBytes + (if flags &&& tokenFlag ≠ 0 then 8 else 0) +
    (if flags &&& targetFlag ≠ 0 then 32 else 0)

/-- What a link says. -/
structure Decoded where
  invite : ParsedInvite
  target : Option String
  token : Option String
  owner : VerifiedSender

def context (mesh : String) : OrgContext := ⟨"", mesh, "dm-invite-owner-v2"⟩

section Compact

variable {Url Key : Type} (c : Crates Url Key)

/-- The generated URL. It can always be parsed; the code panics where it cannot. -/
def canonical (invite : ParsedInvite) (target token : Option String) : Except String String := do
  let url ← orError "generated invitation URL" (c.parse
    (buildInviteUri invite.meshId invite.sessionId invite.fingerprint invite.peerMossId))
  let url := token.elim url fun token => c.extendPairs url [("token", token)]
  let url := target.elim url fun target => c.extendPairs url [("target", target)]
  return c.asStr url

/-- The bytes of a random token. -/
def tokenBytes (token start : String) : Option (List UInt8) := do
  let hex ← stripPrefix start token
  if hex.utf8ByteSize ≠ 16 || hex.toList.any Char.isUpper then none
  else (Hex.decode hex).filter (·.length = 8)

/-- Both signatures are about the payload. -/
def verify (bytes : List UInt8) (payloadLen : Nat) (mesh : String) : Except String Unit := do
  let payload := bytes.take payloadLen
  (OrgSigned.verify c ⟨payload, Hex.encode (bytes.extract 18 50),
    bytes.extract payloadLen (payloadLen + 64)⟩ (context mesh)).mapError (·.text)
  let key := bytes.extract 50 82
  c.keyFromBytes key
  c.signatureFromSlice (bytes.drop (payloadLen + 64))
  c.verifyStrict key (signingInput (context mesh) payload) (bytes.drop (payloadLen + 64))

/-- The invitation in the header. -/
def headerInvite (bytes : List UInt8) : ParsedInvite where
  meshId := "mesh-" ++ Hex.encode (bytes.extract 2 10)
  sessionId := "session-" ++ Hex.encode (bytes.extract 10 18)
  peerAddress := none
  peerMossId := some (Hex.encode (bytes.extract 18 50))
  fingerprint := Hex.encodeUpper (bytes.extract 50 66)

/-- The token after the header. -/
def tokenOf (bytes : List UInt8) : Option String :=
  if bytes.getD 1 0 &&& tokenFlag ≠ 0 then some ("invite-" ++ Hex.encode (bytes.extract 82 90))
  else none

/-- The target after the token. -/
def targetOf (bytes : List UInt8) : Option String :=
  let start := headerBytes + if (tokenOf bytes).isSome then 8 else 0
  if bytes.getD 1 0 &&& targetFlag ≠ 0 then some (Hex.encode (bytes.extract start (start + 32)))
  else none

/-- Reads a link. It has to be the encoding of its bytes. -/
def decode (raw : String) : Except String Decoded := do
  let encoded ← getOr "invalid compact invite prefix" (stripPrefix linkPrefix raw)
  let bytes ← getOr (c.base64Error encoded) (Base64Url.decode encoded)
  let flags := bytes.getD 1 0
  check "invalid compact invitation" (Base64Url.encode bytes = encoded &&
    headerBytes + signatureBytes ≤ bytes.length && bytes.getD 0 0 = 1 &&
    flags &&& ~~~(targetFlag ||| tokenFlag) = 0)
  check "invalid compact invitation length" (bytes.length = payloadLen flags + signatureBytes)
  let invite := headerInvite bytes
  verify c bytes (payloadLen flags) invite.meshId
  let token := tokenOf bytes
  let target := targetOf bytes
  let peerId ← getOr "missing owner" invite.peerMossId
  let url ← canonical c invite target token
  return ⟨invite, target, token, ⟨peerId, bytes.extract 50 82, textBytes url⟩⟩

end Compact

end CompactInvite

/-! ## Reading an invitation -/

/-- The text is a compact link. -/
def isCompact (raw : String) : Bool :=
  startsWith CompactInvite.linkPrefix raw && !startsWith "mosh://invite/?" raw

section Invitations

variable {Url Key : Type} (c : Crates Url Key)

/-- The first value of a key in the query, unless it is empty. -/
def optionalQuery (url : Url) (key : String) : Option String :=
  (((c.queryPairs url).find? (·.1 = key)).map (·.2)).filter (!·.isEmpty)

def query (url : Url) (key : String) : Except String String :=
  getOr ("missing " ++ key) (optionalQuery c url key)

/-- The fingerprint in the fragment, which is an ASCII text, like all of a URL. -/
def parseFingerprint (fragment : Option String) : Except String String := do
  let raw ← getOr "missing fingerprint" (fragment.bind (stripPrefix "fp="))
  let normalized := (String.ofList (raw.toList.filter (· ≠ '-'))).toUpper
  check "invalid fingerprint" (normalized.utf8ByteSize = 32 &&
    normalized.toList.all Hex.isHexDigit)
  return normalized

/-- The values of a key in the query. -/
def queryValues (url : Url) (key : String) : List String :=
  ((c.queryPairs url).filter (·.1 = key)).map (·.2)

/-- The one who is invited. -/
def targetPeer (raw : String) : Except String (Option String) := do
  if isCompact raw then return (← CompactInvite.decode c raw).target
  let url ← c.parse raw
  match queryValues c url "target" with
  | [] => return none
  | [target] =>
    check "invitation requires one valid target identity" (target.utf8ByteSize = 64 &&
      target.toList.all Hex.isHexDigit)
    return some target.toLower
  | _ => throw "invitation requires one valid target identity"

/-- The token that admits a guest. -/
def invitationToken (raw : String) : Except String (Option String) := do
  if isCompact raw then return (← CompactInvite.decode c raw).token
  let url ← c.parse raw
  match queryValues c url "token" with
  | [] => return none
  | [token] =>
    check "invitation requires one valid admission token" ((stripPrefix "invite-" token).any
      fun hex => hex.utf8ByteSize = 16 && hex.toList.all Hex.isHexDigit)
    return some token
  | _ => throw "invitation requires one valid admission token"

/-- A pair of the query is kept, or it is the proof. -/
def splitPair (found : List (String × String) × Option String) (pair : String × String) :
    Except String (List (String × String) × Option String) :=
  if pair.1 = "proof" then
    if found.2.isSome then .error "duplicate invite proof" else .ok (found.1, some pair.2)
  else .ok (found.1 ++ [pair], found.2)

/-- The URL without its proof, and the proof. -/
def split (raw : String) : Except String (Url × Option String) := do
  let url ← c.parse raw
  let (pairs, proof) ← (c.queryPairs url).foldlM splitPair ([], none)
  return (c.extendPairs (c.clearQuery url) pairs, proof)

/-- What the owner of an invitation signs. -/
def context (invite : ParsedInvite) : OrgContext := ⟨"", invite.meshId, "dm-invite-owner-v1"⟩

/-- The owner of an invitation, if it proves one. -/
def verifyInviteOwner (raw : String) (invite : ParsedInvite) :
    Except String (Option VerifiedSender) := do
  if isCompact raw then return some (← CompactInvite.decode c raw).owner
  let (unsigned, proof) ← split c raw
  match proof with
  | none => return none
  | some proof =>
    let bytes ← getOr (c.base64Error proof) (Base64Url.decode proof)
    let proof ← c.proofFromSlice bytes
    let owner ← proof.verify c (context invite)
    check "invite ownership proof does not match the invitation"
      (owner.payload = textBytes (c.asStr unsigned) && invite.peerMossId = some owner.peerId &&
        Hex.encodeUpper (owner.mlsSigner.take 16) = invite.fingerprint)
    return some owner

/-- Reads an invitation. The error is the text of `InvalidInvite`. -/
def ParsedInvite.parse (raw : String) : Except String ParsedInvite := do
  if isCompact raw then return (← CompactInvite.decode c raw).invite
  let url ← c.parse raw
  check "wrong scheme" (c.scheme url = "mosh" && c.hostStr url = some "invite")
  let meshId ← query c url "mesh"
  let sessionId ← query c url "session"
  let fingerprint ← parseFingerprint (c.fragment url)
  let invite : ParsedInvite :=
    { meshId, sessionId, fingerprint
      peerAddress := optionalQuery c url "peer"
      peerMossId := ((optionalQuery c url "moss").map (·.toLower)).filter fun id =>
        id.utf8ByteSize = 64 && id.toList.all Hex.isHexDigit }
  let _ ← verifyInviteOwner c raw invite
  let _ ← targetPeer c raw
  let _ ← invitationToken c raw
  return invite

/-- The invitation belongs to the installation. -/
def ownedBy (invite : ParsedInvite) (identity : Key) (crypto : MlsSessionCrypto) : Bool :=
  invite.peerMossId = some (Hex.encode (c.verifyingKey identity)) &&
    invite.fingerprint = crypto.fingerprint

/-- The error of an invitation that cannot be read. -/
def invalidInvite (error : String) : String := "invalid invite: " ++ error

/-- The error of an invitation of somebody else. -/
def notOwned : String := "invitation is not owned by the signing installation"

/-- Signs a generated URL as a link. Other URLs are left to `signInvite`. -/
def CompactInvite.sign (raw : String) (identity : Key) (crypto : MlsSessionCrypto) :
    Except String (Option String) := do
  let invite ← (ParsedInvite.parse c raw).mapError invalidInvite
  let target ← targetPeer c raw
  let token ← invitationToken c raw
  if (← canonical c invite target token) ≠ raw then return none
  let some mesh := tokenBytes invite.meshId "mesh-" | return none
  let some session := tokenBytes invite.sessionId "session-" | return none
  check notOwned (ownedBy c invite identity crypto)
  let header : List UInt8 :=
    [1, (if target.isSome then targetFlag else 0) ||| (if token.isSome then tokenFlag else 0)] ++
      mesh ++ session ++ c.verifyingKey identity ++ crypto.signerPublic
  let some token := token.elim (some []) (tokenBytes · "invite-") | return none
  let target ← target.elim (pure []) fun target => getOr (c.hexError target) (Hex.decode target)
  let bytes := header ++ token ++ target
  let input := signingInput (context invite.meshId) bytes
  let mlsSignature ← crypto.signSenderProof input
  let identitySignature := (OrgSigned.sign c identity (context invite.meshId) bytes).sig
  return some (linkPrefix ++ Base64Url.encode (bytes ++ identitySignature ++ mlsSignature))

/-- Signs an invitation. -/
def signInvite (raw : String) (identity : Key) (crypto : MlsSessionCrypto) :
    Except String String := do
  let (unsigned, _) ← split c raw
  match ← CompactInvite.sign c (c.asStr unsigned) identity crypto with
  | some compact => return compact
  | none =>
    let invite ← (ParsedInvite.parse c (c.asStr unsigned)).mapError invalidInvite
    check notOwned (ownedBy c invite identity crypto)
    let proof ← SenderProof.sign c identity crypto (context invite)
      (textBytes (c.asStr unsigned))
    return c.asStr (c.extendPairs unsigned [("proof", Base64Url.encode (c.proofToVec proof))])

end Invitations

end Mosh.Invite
