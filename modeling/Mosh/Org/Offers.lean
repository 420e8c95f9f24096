import Mosh.Library.Checked
import Mathlib

/-!
# Offers of an organization

Members of an organization offer conversations to one another (`org_runtime/acceptance.rs`,
`org_runtime/session.rs`). An accepted offer stays in the record of the organization, with the
keys to join again, until the conversation is durable. Two owners write that record: the session
writes what it has in memory (`org_runtime/storage.rs`), and the write that makes a conversation
durable retires the offer in the same transaction (`persistence/org_acceptances.rs`). The session
learns of the latter when it is polled.

The model is of one organization. The conversations are the native rows of the device, and all
that others write to them is an event.

* `writeOrgRecord`, `retireAcceptedOffers`: the two owners of the record;
* `JoinMls.join`: the keys of a join, restored from those of an earlier one;
* `Device.step`: what the device does in an event.
-/

namespace Mosh.Org.Offers

open Checked
open Std (ExtTreeMap)

/-! ## Records -/

structure OrgDmOfferView where
  offerId : String
  fromPeerId : String
  fromName : String
  inviteUri : String
  deriving DecidableEq, Repr

structure OrgGroupOfferView where
  offerId : String
  fromPeerId : String
  fromName : String
  groupLabel : Option String
  groupInviteUri : String
  deriving DecidableEq, Repr

structure OrgDmLink where
  peerId : String
  sessionId : Option String
  deriving DecidableEq, Repr

/-- The private keys of a join. -/
structure PendingJoinRecovery where
  providerSnapshot : List UInt8
  participantId : String
  mlsGroupId : List UInt8
  keyPackage : Option (List UInt8)
  deriving DecidableEq, Repr

inductive PendingAcceptance
  | dm (conversationId : String) (signerPublic : List UInt8) (offer : OrgDmOfferView)
    (recovery : Option PendingJoinRecovery)
  | group (conversationId : String) (signerPublic : List UInt8) (offer : OrgGroupOfferView)
    (recovery : Option PendingJoinRecovery)
  deriving DecidableEq, Repr

/-- The tables of the native rows. -/
inductive Rows
  | sessions
  | mlsSnapshot
  | groups
  | groupMlsSnapshot
  deriving DecidableEq, Repr

namespace PendingAcceptance

def conversationId : PendingAcceptance → String
  | dm id .. => id
  | group id .. => id

def signerPublic : PendingAcceptance → List UInt8
  | dm _ signer .. => signer
  | group _ signer .. => signer

def recovery : PendingAcceptance → Option PendingJoinRecovery
  | dm _ _ _ recovery => recovery
  | group _ _ _ recovery => recovery

def offerId : PendingAcceptance → String
  | dm _ _ offer _ => offer.offerId
  | group _ _ offer _ => offer.offerId

/-- The table of the record of the conversation, and that of its snapshot. -/
def tables : PendingAcceptance → Rows × Rows
  | dm .. => (.sessions, .mlsSnapshot)
  | group .. => (.groups, .groupMlsSnapshot)

def matchesNative (pending : PendingAcceptance) (table : Rows) (id : String) : Bool :=
  table = pending.tables.1 && pending.conversationId = id

end PendingAcceptance

structure PersistedOrgRecord where
  dmLinks : List OrgDmLink := []
  resolvedOfferIds : Finset String := ∅
  pendingAcceptances : ExtTreeMap String PendingAcceptance compare := ∅

/-- The state of a direct conversation, and of a group, as their records have it. -/
structure DmState where
  sessionId : String
  signerPublic : List UInt8
  groupId : List UInt8

structure GroupState where
  groupId : String
  signerPublic : List UInt8
  mlsGroupId : List UInt8
  joined : Bool

/-- How records are read, and what the invitations say. -/
structure Platform where
  dmState : List UInt8 → Except String DmState
  groupState : List UInt8 → Except String GroupState
  verifyOfferedInvite : String → String → String → Except String Unit
  sessionOf : String → Option String
  groupOf : String → Option String

/-- The rows of the conversations. -/
abbrev Native := Rows → String → Option (List UInt8)

variable (p : Platform)

/-! ## The two owners of the record -/

/-- The conversation of an acceptance has its record, of the same signer, and its snapshot. -/
def nativeAcceptanceIsDurable (native : Native) (pending : PendingAcceptance) :
    Except String Bool :=
  let id := pending.conversationId
  match native pending.tables.1 id with
  | none => .ok false
  | some bytes => do
    let ready ← match pending with
      | .dm .. => (p.dmState bytes).map fun state =>
        state.sessionId = id && state.signerPublic = pending.signerPublic && state.groupId ≠ []
      | .group .. => (p.groupState bytes).map fun state =>
        state.groupId = id && state.signerPublic = pending.signerPublic && state.joined &&
          state.mlsGroupId ≠ []
    .ok (ready && (native pending.tables.2 id).any (· ≠ []))

/-- The acceptances that are durable, among those of one conversation if it is given. -/
def completedAcceptances (native : Native) (only : Option (Rows × String)) :
    List (String × PendingAcceptance) → Except String (List String)
  | [] => .ok []
  | (id, pending) :: rest =>
    if only.any fun (table, conversation) => !pending.matchesNative table conversation then
      completedAcceptances native only rest
    else do
      let durable ← nativeAcceptanceIsDurable p native pending
      let completed ← completedAcceptances native only rest
      .ok (if durable then id :: completed else completed)

def retireCompletedAcceptances (native : Native) (record : PersistedOrgRecord)
    (only : Option (Rows × String)) : Except String (PersistedOrgRecord × Bool) := do
  let completed ← completedAcceptances p native only record.pendingAcceptances.toList
  .ok
    ({ record with
        pendingAcceptances := record.pendingAcceptances.filter fun id _ => id ∉ completed
        resolvedOfferIds := record.resolvedOfferIds ∪ completed.toFinset },
      completed ≠ [])

/-- Write what a session has, together with what is stored. -/
def writeOrgRecord (native : Native) (stored : Option PersistedOrgRecord)
    (candidate : PersistedOrgRecord) : Except String PersistedOrgRecord := do
  let candidate := stored.elim candidate fun stored =>
    { candidate with
      resolvedOfferIds := candidate.resolvedOfferIds ∪ stored.resolvedOfferIds
      pendingAcceptances := stored.pendingAcceptances ∪ candidate.pendingAcceptances }
  let candidate :=
    { candidate with
      pendingAcceptances := candidate.pendingAcceptances.filter fun id _ =>
        id ∉ candidate.resolvedOfferIds }
  let (record, _) ← retireCompletedAcceptances p native candidate none
  .ok record

/-- Retire the offers of a conversation, in the transaction that wrote it. -/
def retireAcceptedOffers (native : Native) (stored : Option PersistedOrgRecord) (table : Rows)
    (id : String) : Except String (Option PersistedOrgRecord) :=
  match stored with
  | none => .ok none
  | some record => do
    let (retired, changed) ← retireCompletedAcceptances p native record (some (table, id))
    .ok (some (if changed then retired else record))

/-! ## The session -/

inductive OrgError
  | duplicate
  | notJoined
  | persistence (error : String)
  | codec (error : String)
  deriving DecidableEq, Repr

structure OrgSession where
  ownPeerId : String
  roster : Option (List String)
  dmOffers : List OrgDmOfferView := []
  groupOffers : List OrgGroupOfferView := []
  dmLinks : List OrgDmLink
  seenOfferIds : Finset String := ∅
  resolvedOfferIds : Finset String
  pendingAcceptances : ExtTreeMap String PendingAcceptance compare

def upsertLink (links : List OrgDmLink) (peerId : String) (sessionId : Option String) :
    List OrgDmLink :=
  match links with
  | [] => [⟨peerId, sessionId⟩]
  | link :: links =>
    if link.peerId = peerId then
      -- A known session is not forgotten when it is offered again.
      (if sessionId.isSome then { link with sessionId } else link) :: links
    else link :: upsertLink links peerId sessionId

namespace OrgSession

variable (s : OrgSession)

def toRecord : PersistedOrgRecord where
  dmLinks := s.dmLinks
  resolvedOfferIds := s.resolvedOfferIds
  pendingAcceptances := s.pendingAcceptances

def senderInRoster (peerId : String) : Bool := s.roster.any (peerId ∈ ·)

def inRoster : Bool := s.senderInRoster s.ownPeerId

def pruneResolvedAcceptances : OrgSession :=
  { s with
    pendingAcceptances := s.pendingAcceptances.filter fun id _ => id ∉ s.resolvedOfferIds
    dmOffers := s.dmOffers.filter fun offer => offer.offerId ∉ s.resolvedOfferIds
    groupOffers := s.groupOffers.filter fun offer => offer.offerId ∉ s.resolvedOfferIds }

/-- More is known to be resolved. -/
def extendResolved (ids : Finset String) : OrgSession :=
  ({ s with resolvedOfferIds := s.resolvedOfferIds ∪ ids } : OrgSession).pruneResolvedAcceptances

/-- What was written is what is known. -/
def adoptRecord (record : PersistedOrgRecord) : OrgSession :=
  ({ s with
    dmLinks := record.dmLinks
    resolvedOfferIds := record.resolvedOfferIds
    pendingAcceptances := record.pendingAcceptances } : OrgSession).pruneResolvedAcceptances

def withoutOffer (offerId : String) : OrgSession :=
  { s with
    dmOffers := s.dmOffers.filter fun offer => offer.offerId ≠ offerId
    groupOffers := s.groupOffers.filter fun offer => offer.offerId ≠ offerId }

/-- The offer of an acceptance is shown. -/
def showAcceptance (pending : PendingAcceptance) : OrgSession :=
  match pending with
  | .dm _ _ offer _ => { s with dmOffers := s.dmOffers ++ [offer] }
  | .group _ _ offer _ => { s with groupOffers := s.groupOffers ++ [offer] }

def restoreOffer (row : String × PendingAcceptance) : OrgSession :=
  if row.1 ∈ s.resolvedOfferIds then s
  else { s with seenOfferIds := insert row.1 s.seenOfferIds }.showAcceptance row.2

/-- Show what was accepted before the restart. -/
def restorePendingOffers : OrgSession := s.pendingAcceptances.toList.foldl restoreOffer s

/-- Whether an offer is new. -/
def acceptOffer (sender target id : String) : Bool × OrgSession :=
  if target ≠ s.ownPeerId ∨ s.senderInRoster sender = false then (false, s)
  else if id ∈ s.resolvedOfferIds ∨ id ∈ s.seenOfferIds then (false, s)
  else (true, { s with seenOfferIds := insert id s.seenOfferIds })

def receiveDmOffer (sender target id name uri : String) : OrgSession :=
  if (p.verifyOfferedInvite uri sender target).isOk then
    let (accepted, s) := s.acceptOffer sender target id
    if accepted then { s with dmOffers := s.dmOffers ++ [⟨id, sender, name, uri⟩] } else s
  else s

def receiveGroupOffer (sender target id name : String) (label : Option String) (uri : String) :
    OrgSession :=
  let (accepted, s) := s.acceptOffer sender target id
  if accepted then { s with groupOffers := s.groupOffers ++ [⟨id, sender, name, label, uri⟩] }
  else s

/-- The offers that are shown. -/
def offerIds : List String := s.dmOffers.map (·.offerId) ++ s.groupOffers.map (·.offerId)

end OrgSession

/-- A session of a record. -/
def buildSession (ownPeerId : String) (roster : Option (List String))
    (record : PersistedOrgRecord) : OrgSession :=
  ({ ownPeerId
     roster
     dmLinks := record.dmLinks
     resolvedOfferIds := record.resolvedOfferIds
     pendingAcceptances := record.pendingAcceptances } : OrgSession).restorePendingOffers

/-! ## The runtime -/

/-- The record with an acceptance of an offer, or with the offer resolved, and with a link. -/
def PersistedOrgRecord.withOffer (record : PersistedOrgRecord) (offerId : String)
    (link : Option (String × Option String)) (acceptance : Option PendingAcceptance) :
    PersistedOrgRecord where
  dmLinks := link.elim record.dmLinks fun (peerId, sessionId) =>
    upsertLink record.dmLinks peerId sessionId
  resolvedOfferIds :=
    acceptance.elim (insert offerId record.resolvedOfferIds) fun _ => record.resolvedOfferIds
  pendingAcceptances :=
    acceptance.elim (record.pendingAcceptances.erase offerId) fun acceptance =>
      record.pendingAcceptances.insert offerId acceptance

/-- The record, the session of it, and the native rows. -/
structure Device where
  record : Option PersistedOrgRecord := none
  session : Option OrgSession := none
  native : Native := fun _ _ => none

/-- The keys of a join that is prepared, from those of an earlier one if there are any: the signer
    and what is retained. -/
abbrev PreparedJoin :=
  Option (List UInt8 × PendingJoinRecovery) → Option (List UInt8 × PendingJoinRecovery)

/-- What a join uses of MLS. -/
structure JoinMls (σ : Type) where
  new : String → Except String σ
  randomToken : σ → Except String String
  restore : String → List UInt8 → List UInt8 → List UInt8 → Except String σ
  restoreUnjoined : String → List UInt8 → List UInt8 → Except String σ
  isReady : σ → Bool
  keyPackageBytes : σ → Except String (List UInt8 × σ)
  signerPublic : σ → List UInt8
  snapshot : σ → List UInt8
  groupIdBytes : σ → Option (List UInt8)

namespace JoinMls

variable {σ : Type} (m : JoinMls σ)

def restoreCrypto (recovery : PendingJoinRecovery) (identity : String) (signer : List UInt8) :
    Except String σ :=
  if recovery.mlsGroupId = [] then
    m.restoreUnjoined identity signer recovery.providerSnapshot
  else m.restore identity signer recovery.providerSnapshot recovery.mlsGroupId

/-- The state of a join, its participant and the key package it publishes. -/
def prepare (identity : String) (recovery : Option (List UInt8 × PendingJoinRecovery)) :
    Except String (σ × String × Option (List UInt8)) := do
  let (crypto, participantId, package) ← match recovery with
    | some (signer, recovery) =>
      (m.restoreCrypto recovery identity signer).map fun crypto =>
        (crypto, recovery.participantId, recovery.keyPackage)
    | none => do
      let crypto ← m.new identity
      let participantId ← m.randomToken crypto
      .ok (crypto, participantId, none)
  if m.isReady crypto then .ok (crypto, participantId, none)
  else
    match package with
    | some package => .ok (crypto, participantId, some package)
    | none => (m.keyPackageBytes crypto).map fun (package, crypto) =>
      (crypto, participantId, some package)

/-- The signer of a prepared join, and what is retained of it. -/
def join (identity : String) : PreparedJoin := fun recovery =>
  (m.prepare identity recovery).toOption.map fun (crypto, participantId, keyPackage) =>
    (m.signerPublic crypto,
      { providerSnapshot := m.snapshot crypto
        participantId
        mlsGroupId := (m.groupIdBytes crypto).getD []
        keyPackage })

end JoinMls

namespace Device

variable (d : Device)

/-- Write a record, unless the storage refuses it. -/
def persistOrgRecord (record : PersistedOrgRecord) (refused : Bool) :
    Except OrgError PersistedOrgRecord :=
  if refused then .error (.persistence "write refused")
  else (writeOrgRecord p d.native d.record record).mapError .persistence

/-- Write a record, and learn what is resolved. -/
def persistRecord (record : PersistedOrgRecord) (refused : Bool) :
    Except OrgError (Device × PersistedOrgRecord) := do
  let record ← d.persistOrgRecord p record refused
  .ok
    ({ d with
        record := some record
        session := d.session.map (·.extendResolved record.resolvedOfferIds) },
      record)

/-- Keep an acceptance of an offer, or resolve it without one. -/
def commitOffer (s : OrgSession) (offerId : String) (link : Option (String × Option String))
    (acceptance : Option PendingAcceptance) (refused : Bool) : Except OrgError Device := do
  let record ← d.persistOrgRecord p (s.toRecord.withOffer offerId link acceptance) refused
  .ok
    { d with
      record := some record
      session := some ((s.adoptRecord record).withoutOffer offerId) }

def sessionMut : Except OrgError OrgSession := getOr .notJoined d.session

def peekDmOffer (offerId : String) : Except OrgError OrgDmOfferView := do
  let s ← d.sessionMut
  let offer ← getOr (.codec ("unknown dm offer " ++ offerId))
    (s.dmOffers.find? fun offer => offer.offerId = offerId)
  check (.codec "DM offer requires current roster members")
    (s.inRoster && s.senderInRoster offer.fromPeerId)
  (p.verifyOfferedInvite offer.inviteUri offer.fromPeerId s.ownPeerId).mapError .codec
  .ok offer

def peekGroupOffer (offerId : String) : Except OrgError OrgGroupOfferView := do
  let s ← d.sessionMut
  getOr (.codec ("unknown group offer " ++ offerId))
    (s.groupOffers.find? fun offer => offer.offerId = offerId)

/-- The keys of an earlier acceptance of the offer. -/
def offerRecovery (offerId : String) :
    Except OrgError (Option (List UInt8 × PendingJoinRecovery)) := do
  let s ← d.sessionMut
  .ok (s.pendingAcceptances[offerId]?.bind fun pending =>
    pending.recovery.map (pending.signerPublic, ·))

def completeDmOffer (offerId sessionId : String) (signerPublic : List UInt8)
    (recovery : PendingJoinRecovery) (refused : Bool) : Except OrgError Device := do
  let offer ← d.peekDmOffer p offerId
  let s ← d.sessionMut
  d.commitOffer p s offerId (some (offer.fromPeerId, some sessionId))
    (some (.dm sessionId signerPublic offer (some recovery))) refused

def completeGroupOffer (offerId groupId : String) (signerPublic : List UInt8)
    (recovery : PendingJoinRecovery) (refused : Bool) : Except OrgError Device := do
  let offer ← d.peekGroupOffer offerId
  let s ← d.sessionMut
  d.commitOffer p s offerId none (some (.group groupId signerPublic offer (some recovery))) refused

/-- Accept an offer of a conversation: prepare the join, with the keys of an earlier acceptance,
    and register it. -/
def acceptDmOffer (offerId : String) (join : PreparedJoin) (refused : Bool) :
    Except OrgError Device := do
  let offer ← d.peekDmOffer p offerId
  let recovery ← d.offerRecovery offerId
  let sessionId ← getOr (.codec "invalid invitation") (p.sessionOf offer.inviteUri)
  let (signerPublic, recovery) ← getOr (.codec "join not prepared") (join recovery)
  d.completeDmOffer p offerId sessionId signerPublic recovery refused

def acceptGroupOffer (offerId : String) (join : PreparedJoin) (refused : Bool) :
    Except OrgError Device := do
  let offer ← d.peekGroupOffer offerId
  let recovery ← d.offerRecovery offerId
  let groupId ← getOr (.codec "invalid invitation") (p.groupOf offer.groupInviteUri)
  let (signerPublic, recovery) ← getOr (.codec "join not prepared") (join recovery)
  d.completeGroupOffer p offerId groupId signerPublic recovery refused

/-- Show an acceptance again that could not be published. -/
def reexposeAcceptance (offerId : String) : Except OrgError Device := do
  let s ← d.sessionMut
  if offerId ∈ s.resolvedOfferIds then .ok d
  else
    match s.pendingAcceptances[offerId]? with
    | none => .ok d
    | some (.dm conversationId signer offer recovery) =>
      if s.dmOffers.any fun shown => shown.offerId = offerId then .ok d
      else .ok { d with
        session := some (s.showAcceptance (.dm conversationId signer offer recovery)) }
    | some (.group conversationId signer offer recovery) =>
      if s.groupOffers.any fun shown => shown.offerId = offerId then .ok d
      else .ok { d with
        session := some (s.showAcceptance (.group conversationId signer offer recovery)) }

def dismissDmOffer (offerId : String) (refused : Bool) : Except OrgError Device := do
  let s ← d.sessionMut
  if s.dmOffers.any fun offer => offer.offerId = offerId then
    d.commitOffer p s offerId none none refused
  else .ok d

def dismissGroupOffer (offerId : String) (refused : Bool) : Except OrgError Device := do
  let s ← d.sessionMut
  if s.groupOffers.any fun offer => offer.offerId = offerId then
    d.commitOffer p s offerId none none refused
  else .ok d

/-- Offer a conversation to a member. The link is known before the offer is published. -/
def sendDmOffer (target uri : String) (published refused : Bool) : Except OrgError Device := do
  let s ← d.sessionMut
  check (.codec "DM offer requires roster members") (s.inRoster && s.senderInRoster target)
  (p.verifyOfferedInvite uri s.ownPeerId target).mapError .codec
  let record := { s.toRecord with dmLinks := upsertLink s.dmLinks target none }
  let (d, record) ← d.persistRecord p record refused
  .ok (if published then
    { d with session := d.session.map fun s => { s with dmLinks := record.dmLinks } } else d)

/-- The conversation with a member is known. Memory has the link even if the write is refused. -/
def linkDm (peerId sessionId : String) (refused : Bool) : Device :=
  match d.session with
  | none => d
  | some s =>
    let s := { s with dmLinks := upsertLink s.dmLinks peerId (some sessionId) }
    let d := { d with session := some s }
    match d.persistRecord p s.toRecord refused with
    | .error _ => d
    | .ok (d, _) => d

def joinOrg (ownPeerId : String) (roster : Option (List String)) (refused : Bool) :
    Except OrgError Device := do
  check .duplicate d.session.isNone
  let (d, record) ← d.persistRecord p {} refused
  .ok { d with session := some (buildSession ownPeerId roster record) }

/-- A session of the record is started again. -/
def rehydrate (ownPeerId : String) (roster : Option (List String)) : Device :=
  { d with session := d.record.map (buildSession ownPeerId roster) }

/-- Learn of what was retired on disk. -/
def refreshAcceptances : Device :=
  match d.session, d.record with
  | some s, some record =>
    if s.pendingAcceptances.isEmpty then d
    else
      { d with session := some (s.extendResolved record.resolvedOfferIds) }
  | _, _ => d

/-- What is shown when the organization is polled. -/
def shown : List String := d.refreshAcceptances.session.elim [] OrgSession.offerIds

end Device

/-! ## Events -/

inductive Event
  | join (ownPeerId : String) (roster : Option (List String)) (refused : Bool)
  | restart (ownPeerId : String) (roster : Option (List String))
  | roster (members : List String)
  | dmOffer (sender target id name uri : String)
  | groupOffer (sender target id name : String) (label : Option String) (uri : String)
  | acceptDm (id : String) (join : PreparedJoin) (refused : Bool)
  | acceptGroup (id : String) (join : PreparedJoin) (refused : Bool)
  | reexpose (id : String)
  | dismissDm (id : String) (refused : Bool)
  | dismissGroup (id : String) (refused : Bool)
  | sendDm (target uri : String) (published refused : Bool)
  | linkDm (peerId sessionId : String) (refused : Bool)
  | poll
  /-- The native rows change. -/
  | write (native : Native)
  /-- They change in a transaction that finishes the join of a conversation. -/
  | finish (native : Native) (table : Rows) (id : String) (refused : Bool)

namespace Device

/-- A call that fails leaves the device as it is. -/
def orKeep (d : Device) (result : Except OrgError Device) : Device := result.toOption.getD d

def finishJoin (d : Device) (native : Native) (table : Rows) (id : String) (refused : Bool) :
    Except OrgError Device := do
  check (.persistence "write refused") !refused
  let record ← (retireAcceptedOffers p native d.record table id).mapError .persistence
  .ok { d with native, record }

def step (d : Device) : Event → Device
  | .join ownPeerId roster refused => d.orKeep (d.joinOrg p ownPeerId roster refused)
  | .restart ownPeerId roster => d.rehydrate ownPeerId roster
  | .roster members =>
    { d with session := d.session.map fun s => { s with roster := some members } }
  | .dmOffer sender target id name uri =>
    { d with session := d.session.map (·.receiveDmOffer p sender target id name uri) }
  | .groupOffer sender target id name label uri =>
    { d with session := d.session.map (·.receiveGroupOffer sender target id name label uri) }
  | .acceptDm id join refused => d.orKeep (d.acceptDmOffer p id join refused)
  | .acceptGroup id join refused => d.orKeep (d.acceptGroupOffer p id join refused)
  | .reexpose id => d.orKeep (d.reexposeAcceptance id)
  | .dismissDm id refused => d.orKeep (d.dismissDmOffer p id refused)
  | .dismissGroup id refused => d.orKeep (d.dismissGroupOffer p id refused)
  | .sendDm target uri published refused =>
    d.orKeep (d.sendDmOffer p target uri published refused)
  | .linkDm peerId sessionId refused => d.linkDm p peerId sessionId refused
  | .poll => d.refreshAcceptances
  | .write native => { d with native }
  | .finish native table id refused => d.orKeep (d.finishJoin p native table id refused)

end Device

end Mosh.Org.Offers
