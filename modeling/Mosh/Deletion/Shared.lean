import Mosh.Deletion.Record
import Mosh.DeviceLink.Roster

/-!
# Which deletions are stored

A device stores shared deletions that carry a valid request, and a valid receipt of
another account if they are confirmed (`message_deletion/shared.rs`), personal ones
that its user makes, and those that the other devices of the account send
(`persistence/message_deletions.rs`). All of them have one of two shapes.

* `Storable.shape`: a personal deletion is confirmed and carries no receipt; a shared
  one has no personal alias, and carries a receipt if and only if it is confirmed.

Signatures, certificates, hashes, hex and JSON are the parameter `DeletionCrypto`, of
which nothing is assumed.
-/

namespace Mosh.Deletion

open DeviceLink (textBytes isControl)

/-- The delegation of an account to a key, step by step from its root. -/
structure AccountCertificate where
  root : String
  /-- The keys that are delegated to, with the signatures of those before them. -/
  delegations : List (String × String)
  deriving DecidableEq, Repr

/-- The key that the account is delegated to. -/
def AccountCertificate.subject (certificate : AccountCertificate) : String :=
  (certificate.delegations.getLast?.map (·.1)).getD certificate.root

/-- All keys of the delegation. -/
def AccountCertificate.keys (certificate : AccountCertificate) : List String :=
  certificate.root :: certificate.delegations.map (·.1)

/-- The proof that a key belongs to an account. -/
structure AccountProof where
  certificate : AccountCertificate
  subject : String
  signature : String
  deriving DecidableEq, Repr

/-- What deletions use of libraries and of the certificates of accounts. -/
structure DeletionCrypto where
  /-- The hex text of the SHA-256 digest. -/
  sha256 : List UInt8 → String
  hexDecode : String → Option (List UInt8)
  /-- `verifySignature key signature input`. -/
  verifySignature : String → String → List UInt8 → Except String Unit
  verifyCertificate : AccountCertificate → Except String Unit
  parseProof : String → Except String AccountProof
  proofJson : AccountCertificate × String → Except String (List UInt8)
  originJson : String × String × String × String × Option String → Except String (List UInt8)
  requestJson : String × MessageOrigin × String × String × Bool × Nat × Option String →
    Except String (List UInt8)
  ackJson : String × String × Option String → Except String (List UInt8)
  recordsJson : List DeletionRecord → Except String (List UInt8)

variable (c : DeletionCrypto)

/-- The bytes of JSON, in a context. -/
def transcript (context : String) (json : Except String (List UInt8)) :
    Except String (List UInt8) := do
  return textBytes context ++ (← json)

/-! ## Accounts -/

/-- The proof that a key belongs to an account, if it is valid. -/
def verifiedProof (proof subject : String) : Except String AccountProof := do
  if 16000 < proof.utf8ByteSize then throw "account proof too large"
  let proof ← c.parseProof proof
  if proof.subject ≠ subject then throw "account subject mismatch"
  c.verifyCertificate proof.certificate
  let input ← transcript "mosh-message-account-v1\x00" (c.proofJson (proof.certificate, proof.subject))
  c.verifySignature proof.certificate.subject proof.signature input
  return proof

/-- The root of the account that a key belongs to. -/
def verifyOwnership (proof subject : String) : Except String String := do
  return (← verifiedProof c proof subject).certificate.root

/-- Two keys are proved to belong to the same account. -/
def sameAccount (actor : String) (actorProof : Option String) (author : String)
    (authorProof : Option String) : Bool :=
  match actorProof, authorProof with
  | some actorProof, some authorProof =>
    match verifiedProof c actorProof actor, verifiedProof c authorProof author with
    | .ok actorProof, .ok authorProof =>
      actorProof.certificate.root = authorProof.certificate.root
    | _, _ => false
  | _, _ => false

/-! ## Requests and receipts -/

namespace MessageOrigin

def signingInput (origin : MessageOrigin) : Except String (List UInt8) :=
  transcript "mosh-message-origin-v1\x00" (c.originJson
    (origin.conversation, origin.id, origin.contentHash, origin.author, origin.ownership))

/-- The key of the message. -/
def key (origin : MessageOrigin) : Except String String := do
  return c.sha256 (← origin.signingInput c)

/-- The author signed the message. -/
def verifySignature (origin : MessageOrigin) : Except String Unit := do
  if let some proof := origin.ownership then
    let _ ← verifyOwnership c proof origin.author
  if origin.conversation.isEmpty || 512 < origin.conversation.utf8ByteSize || origin.id.isEmpty ||
      256 < origin.id.utf8ByteSize || origin.contentHash.utf8ByteSize ≠ 64 then
    throw "invalid message origin"
  c.verifySignature origin.author origin.signature (← origin.signingInput c)

end MessageOrigin

namespace DeleteRequest

def input (r : DeleteRequest) : Except String (List UInt8) :=
  transcript "mosh-delete-request-v1\x00" (c.requestJson
    (r.operation, r.target, r.actor, r.actorName, r.moderated, r.epoch, r.ownership))

def digest (r : DeleteRequest) : Except String String := do
  return c.sha256 (← r.input c)

/-- The actor signed the request, for a message of the conversation. -/
def verify (r : DeleteRequest) (context : String) : Except String Unit := do
  let some proof := r.ownership | throw "deletion account is not verified"
  let _ ← verifyOwnership c proof r.actor
  if r.target.conversation ≠ context || r.operation.utf8ByteSize ≠ 39 ||
      64 < r.actorName.length || r.actorName.toList.any isControl then
    throw "invalid deletion request"
  r.target.verifySignature c
  c.verifySignature r.actor r.signature (← r.input c)

end DeleteRequest

namespace DeleteAck

def input (ack : DeleteAck) : Except String (List UInt8) :=
  transcript "mosh-delete-saved-v1\x00" (c.ackJson (ack.requestDigest, ack.actor, ack.ownership))

/-- Another account signed that it saved the deletion. -/
def verify (ack : DeleteAck) (request : DeleteRequest) : Except String Unit := do
  let some proof := ack.ownership | throw "recipient account is not verified"
  let _ ← verifyOwnership c proof ack.actor
  if ack.requestDigest ≠ (← request.digest c) || ack.actor = request.actor then
    throw "invalid deletion acknowledgement"
  if sameAccount c ack.actor ack.ownership request.actor request.ownership then
    throw "deletion receipt must be from another account"
  c.verifySignature ack.actor ack.signature (← ack.input c)

end DeleteAck

/-- The record of a request. -/
def canonical (request : DeleteRequest) (status : DeletionStatus)
    (acknowledgement : Option DeleteAck) : Except String DeletionRecord := do
  return {
    personalCorrelation := none
    context := request.target.conversation
    key := ← request.target.key c
    scope := .forEveryone
    owner := ""
    localOnly := false
    status := status
    administrator := if request.moderated then some request.actorName else none
    request := some request
    acknowledgement := acknowledgement }

/-- A confirmed record carries a valid receipt. -/
def verifyReceipt (record : DeletionRecord) (request : DeleteRequest) : Except String Unit :=
  if record.status = .confirmed then
    match record.acknowledgement with
    | none => .error "unconfirmed deletion"
    | some acknowledgement => acknowledgement.verify c request
  else .ok ()

/-- The request of a shared deletion, if it is valid. -/
def verifyRecord (record : DeletionRecord) (context : String) : Except String DeleteRequest :=
  match record.request with
  | none => .error "deletion request missing"
  | some request =>
    match request.verify c context with
    | .error e => .error e
    | .ok () =>
      if decide (record.status = .confirmed) ≠ record.acknowledgement.isSome then
        .error "deletion acknowledgement status mismatch"
      else
        match canonical c request record.status record.acknowledgement with
        | .error e => .error e
        | .ok canonical =>
          if record ≠ canonical then .error "deletion record mismatch"
          else
            match verifyReceipt c record request with
            | .error e => .error e
            | .ok () =>
              if record.status = .rejected then .error "rejected deletion cannot be forwarded"
              else .ok request

/-! ## Personal deletions -/

/-- A personal deletion. -/
def personal (context key : String) (correlation : Option String) (owner : String)
    (localOnly : Bool) : DeletionRecord where
  personalCorrelation := correlation
  context := context
  key := key
  scope := .forMe
  owner := owner
  localOnly := localOnly
  status := .confirmed
  administrator := none
  request := none
  acknowledgement := none

/-- The deletion of a message with the target key and the alias, by `delete_for_me`. -/
def deleteForMe (context key : String) (correlation : Option String) (owner : String)
    (localOnly : Bool) : DeletionRecord :=
  personal context key (correlation.filter (· ≠ key)) owner localOnly

/-- What takes the place of a rejected deletion. -/
def personalRejection (record : DeletionRecord) (correlation : Option String) (owner : String) :
    DeletionRecord :=
  personal record.context record.key correlation owner false

/-- The target of a deletion from another device is well formed. -/
def validTarget (record : DeletionRecord) : Bool :=
  (["dm:", "group:", "channel:"].any fun kind => kind.toList.isPrefixOf record.context.toList) &&
    record.context.utf8ByteSize ≤ 512 && !record.context.toList.any isControl &&
    record.key.utf8ByteSize = 64 && (c.hexDecode record.key).isSome

/-- A personal deletion from another device is well formed. -/
def validPersonal (user : String) (record : DeletionRecord) : Bool :=
  record.owner = user &&
    (record.personalCorrelation.all fun alias_ =>
      alias_.utf8ByteSize = 64 && (c.hexDecode alias_).isSome) &&
    record.scope = .forMe && !record.localOnly && record.status = .confirmed &&
    record.request.isNone && record.acknowledgement.isNone && record.administrator.isNone

/-- A deletion from another device of the account is taken. -/
def checkAccountDeletion (user : String) (record : DeletionRecord) : Except String Unit :=
  if !validTarget c record then .error "invalid deletion target"
  else if record.scope = .forEveryone then
    match verifyRecord c record record.context with
    | .error e => .error e
    | .ok _ => .ok ()
  else if !validPersonal c user record then .error "invalid personal deletion"
  else .ok ()

/-! ## Records that are stored -/

/-- The deletions that a device stores. -/
inductive Storable : DeletionRecord → Prop
  /-- Shared ones that are valid. -/
  | verified {record context request} (h : verifyRecord c record context = .ok request) :
      Storable record
  /-- Those that were pending, and that the user may not make any more. -/
  | rejected {record context request} (h : verifyRecord c record context = .ok request)
      (hpending : record.status = .pending) : Storable { record with status := .rejected }
  | deleteForMe (context key : String) (correlation : Option String) (owner : String)
      (localOnly : Bool) : Storable (deleteForMe context key correlation owner localOnly)
  | personalRejection (record : DeletionRecord) (correlation : Option String) (owner : String) :
      Storable (personalRejection record correlation owner)
  /-- Those that come from the devices of the account. -/
  | account {user record} (h : checkAccountDeletion c user record = .ok ()) : Storable record

/-- The two kinds of records. -/
inductive Shape (r : DeletionRecord) : Prop
  | personal (hscope : r.scope = .forMe) (hstatus : r.status = .confirmed)
      (hack : r.acknowledgement = none)
  | shared (hscope : r.scope = .forEveryone) (hcorrelation : r.personalCorrelation = none)
      (hack : r.status = .confirmed ↔ r.acknowledgement.isSome)

variable {c} {record : DeletionRecord} {context : String} {request : DeleteRequest}

/-- The parts of a canonical record. -/
theorem canonical_eq_ok {status : DeletionStatus} {acknowledgement : Option DeleteAck}
    (h : canonical c request status acknowledgement = .ok record) :
    record.scope = .forEveryone ∧ record.personalCorrelation = none := by
  rw [canonical] at h
  cases hkey : request.target.key c with
  | error e => rw [hkey] at h; cases h
  | ok key =>
    rw [hkey] at h
    obtain rfl := Except.ok.inj h
    exact ⟨rfl, rfl⟩

/-- What a valid record is. -/
theorem verifyRecord_eq_ok (h : verifyRecord c record context = .ok request) :
    Shape record ∧ record.status ≠ .rejected := by
  rw [verifyRecord] at h
  split at h
  · cases h
  split at h
  · cases h
  split at h
  · cases h
  next hack =>
    split at h
    · cases h
    next r hr =>
      split at h
      · cases h
      next heq =>
        split at h
        · cases h
        split at h
        · cases h
        next hrejected =>
          rw [← not_not.1 heq] at hr
          obtain ⟨hscope, hcorrelation⟩ := canonical_eq_ok hr
          refine ⟨.shared hscope hcorrelation ?_, hrejected⟩
          rw [← not_not.1 hack, decide_eq_true_eq]

/-- What a stored record is. -/
theorem Storable.shape (h : Storable c record) : Shape record := by
  cases h with
  | verified h => exact (verifyRecord_eq_ok h).1
  | rejected h hpending =>
    obtain ⟨hshape, -⟩ := verifyRecord_eq_ok h
    cases hshape with
    | personal _ hstatus _ => rw [hstatus] at hpending; cases hpending
    | shared hscope hcorrelation hack =>
      refine .shared hscope hcorrelation ⟨fun he => ?_, fun he => ?_⟩
      · cases he
      · rw [← hack, hpending] at he
        cases he
  | deleteForMe => exact .personal rfl rfl rfl
  | personalRejection => exact .personal rfl rfl rfl
  | account h =>
    rw [checkAccountDeletion] at h
    split at h
    · cases h
    split at h
    · split at h
      · cases h
      next hv => exact (verifyRecord_eq_ok hv).1
    split at h
    · cases h
    next hp =>
      simp only [validPersonal, Bool.not_eq_true', Bool.not_eq_false, Bool.and_eq_true,
        decide_eq_true_eq, Option.isNone_iff_eq_none] at hp
      exact .personal hp.1.1.1.1.1.2 hp.1.1.1.2 hp.1.2

end Mosh.Deletion
