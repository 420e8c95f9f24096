import Mosh.Deletion.Application
import Mosh.Group.Mls
import Mosh.Library.Checked

/-!
# Importing a message that is already held

A member of a group gets its history from other holders, as records that carry the
original proofs (`history/records.rs`). A message that the member already holds is not
taken again (`history/import.rs`): its row is kept, or repaired if only its preview is
lost. What is held is recognized by the occurrence that was noted when the message was
accepted first, and by comparing the row with the record, its body first. The body of a
row that was erased since is empty.

* `HistorySession.importedHistoryRow`: what is stored for a record;
* `Later`: what deletions leave of a row;
* `importedHistoryRow_held_iff`: a record of a message that is held is imported if and
  only if the row is not erased, or the message had no body;
* `erased_text_blocks_import`: a text that was deleted here blocks the import.
-/

namespace Mosh.Group

open Conversation ConversationMessage Deletion
open Conversation.MessageLog (StoredMessage)
open DeviceLink (textBytes)

/-! ## Records -/

/-- The manifests of a file and of its preview. -/
structure AttachmentOffer where
  manifest : AttachmentManifest
  previewManifest : Option AttachmentManifest
  deriving DecidableEq, Repr

/-- What the hash of a message binds together. -/
structure RecordBinding where
  context : String
  meshId : String
  occurrence : Option String
  messageId : Option String
  isOffer : Bool
  contentHash : String
  originHash : Option String
  authorMlsKey : String
  authorMossKey : String
  sentAtMs : Option Nat
  fromDevice : String
  deriving DecidableEq, Repr

/-- What the history of a group uses of libraries, besides what deletions do. -/
structure HistoryCrypto extends DeletionCrypto where
  originDigest : MessageOrigin → Except String String
  offerJson : AttachmentOffer → Except String (List UInt8)
  bindingJson : RecordBinding → Except String (List UInt8)
  /-- The fields of a manifest that a message shows. -/
  descriptorOf : AttachmentManifest → AttachmentDescriptor

/-- What is proved about a message when it is accepted, as far as it is about its content. -/
structure NativeAcceptance where
  recordHash : String
  originalAuthorMlsKey : String
  originalAuthorMossKey : String
  origin : Option MessageOrigin
  deriving DecidableEq, Repr

/-- What stands for the content of a message that was erased for everyone. -/
structure ErasedTarget where
  deletionKey : String
  attachment : Bool
  deriving DecidableEq, Repr

/-- A message as a holder serves it. -/
structure GroupRecord where
  messageId : String
  sentAtMs : Nat
  fromDevice : String
  body : String
  offer : Option AttachmentOffer
  erased : Option ErasedTarget
  acceptance : NativeAcceptance
  deriving DecidableEq, Repr

/-- A message of which the semantic content is fixed, and where its row is. -/
structure Occurrence where
  nativeId : String
  rowKey : String
  identity : String
  contentDigest : Option String
  deriving DecidableEq, Repr

structure HistoryKey where
  messageId : String
  sentAtMs : Nat
  digest : String
  deriving DecidableEq, Repr

variable (c : HistoryCrypto)

/-- The result of what can only fail with a text. -/
def orCodec {α : Type} (x : Except String α) : Except PrivateGroupError α :=
  x.mapError .codec

/-- The hash of a message with what identifies it. -/
def semanticRecordHash (context meshId : String) (message : GroupMessage)
    (authorMlsKey authorMossKey : String) (offer : Option AttachmentOffer) :
    Except PrivateGroupError String := do
  let origin := message.metadata.bind (·.origin)
  let originHash ← orCodec (origin.mapM c.originDigest)
  let occurrence ← orCodec (origin.mapM (MessageOrigin.key c.toDeletionCrypto))
  let content ← match offer with
    | some offer => orCodec (c.offerJson offer)
    | none => .ok (textBytes message.body)
  let json ← orCodec (c.bindingJson
    { context, meshId, occurrence, messageId := message.messageId, isOffer := offer.isSome
      contentHash := c.sha256 content, originHash, authorMlsKey, authorMossKey
      sentAtMs := message.sentAtMs, fromDevice := message.fromDevice })
  return c.sha256 (textBytes "mosh-history-record-binding-v1\x00" ++ json)

namespace GroupRecord

/-- The offer of a row. -/
def offerOf (row : StoredMessage GroupMessage) : Option AttachmentOffer :=
  row.attachmentManifest.map fun manifest => ⟨manifest, row.previewManifest⟩

/-- What identifies a row in a history. Names, rows that are not sent and erased ones are left
    out. -/
def key (row : StoredMessage GroupMessage) (context meshId : String) :
    Except PrivateGroupError (Option HistoryKey) :=
  if row.message.nameChange.isSome ||
      row.message.delivery.deliveryStatus = some .failed ||
      row.message.delivery.deliveryStatus = some .pending then .ok none
  else if isErased row.message then .ok none
  else if row.message.attachment.isSome && (offerOf row).isNone then
    .error (.codec "attachment manifest unavailable")
  else
    match row.message.metadata.bind (·.origin) with
    | none => .error (.codec "group original evidence unavailable")
    | some origin => do
      let digest ← semanticRecordHash c context meshId row.message origin.author
        row.message.fromFingerprint (offerOf row)
      return some ⟨row.messageId, row.sentAtMs, digest⟩

/-- The key of the row of a message. -/
def rowKey (row : StoredMessage GroupMessage) : String := historyMessageKeyOf row

/-- The occurrence that is noted for a row. -/
def occurrence (row : StoredMessage GroupMessage) (context meshId : String) :
    Except PrivateGroupError (Option Occurrence) :=
  if isErased row.message then
    match row.message.metadata.bind (·.origin) with
    | none => .ok none
    | some origin => do
      let identity ← orCodec (origin.key c.toDeletionCrypto)
      return some ⟨row.messageId, rowKey row, identity, none⟩
  else do
    match ← key c row context meshId with
    | none => return none
    | some key =>
      match row.message.metadata.bind (·.origin) with
      | none => throw (.codec "group original evidence unavailable")
      | some origin =>
        let identity ← orCodec (origin.key c.toDeletionCrypto)
        return some ⟨row.messageId, rowKey row, identity, some key.digest⟩

/-- The message of a record. -/
def message (record : GroupRecord) : GroupMessage where
  metadata := some { origin := record.acceptance.origin, isOwn := some false }
  fromDevice := record.fromDevice
  fromFingerprint := record.acceptance.originalAuthorMossKey
  body := record.body
  messageId := some record.messageId
  sentAtMs := some record.sentAtMs
  attachment := record.offer.map fun offer => c.descriptorOf offer.manifest

end GroupRecord

/-! ## The import -/

/-- A member of a group, as far as it imports history: its store by key, the occurrences and the
    hashes of the acceptances by message, and the deletions that it knows. -/
structure HistorySession where
  groupId : String
  meshId : String
  context : String
  deviceFingerprint : String
  occurrences : String → Option Occurrence
  rows : String → Option (StoredMessage GroupMessage)
  acceptances : String → Option String
  deletions : List DeletionRecord
  /-- A deletion is valid here, and if its record is served by a holder. -/
  validates : DeletionRecord → String → Bool
  /-- The receipt for an accepted record can be made. -/
  receipt : GroupRecord → Except PrivateGroupError Unit

namespace HistorySession

variable (s : HistorySession)

/-- The row is that of the record. -/
def rowMatchesOriginal (row : StoredMessage GroupMessage) (record : GroupRecord) : Bool :=
  row.message.attachment = (record.message c).attachment &&
    match GroupRecord.key c row s.context s.meshId with
    | .ok (some key) => key.digest = record.acceptance.recordHash
    | _ => false

/-- The row of a message that is held, with its preview if that was lost. -/
def retainedOrRepairedRow (row : StoredMessage GroupMessage) (record : GroupRecord) :
    Except PrivateGroupError (StoredMessage GroupMessage) :=
  if row.conversationId ≠ s.groupId || row.messageId ≠ record.messageId ||
      row.sentAtMs ≠ record.sentAtMs || row.message.body ≠ record.body then
    .error (.codec "retained group identity differs")
  else if isErased row.message then .ok row
  else if s.rowMatchesOriginal c row record then .ok row
  else
    let repaired :=
      { row with previewManifest := record.offer.bind (·.previewManifest) }
    if row.previewManifest.isNone && row.attachmentManifest.isSome &&
        repaired.previewManifest.isSome && s.rowMatchesOriginal c repaired record then
      .ok repaired
    else .error (.codec "retained group content differs")

/-- The deletion that erased the content of a record. -/
def historyRecordErasure (record : GroupRecord) (holder : String) :
    Except PrivateGroupError (Option DeletionRecord) :=
  match record.erased with
  | none => .ok none
  | some erased =>
    match s.deletions.find? fun r => r.key = erased.deletionKey && r.scope = .forEveryone &&
        (r.request.any fun request => some request.target = record.acceptance.origin) &&
        s.validates r holder with
    | some r => .ok (some r)
    | none => .error (.codec "erased group target awaits verified deletion")

/-- The row of a message that is not held. -/
def newRow (record : GroupRecord) (holder : String) :
    Except PrivateGroupError (StoredMessage GroupMessage) := do
  let deletion ← s.historyRecordErasure record holder
  s.receipt record
  if (s.acceptances record.messageId).any (· ≠ record.acceptance.recordHash) then
    throw (.codec "conflicting accepted group text")
  let metadata : MessageMetadata :=
    { origin := record.acceptance.origin
      isOwn := some (record.acceptance.originalAuthorMossKey = s.deviceFingerprint)
      deletionKey := deletion.map (·.key)
      deletion := deletion.map fun r => ⟨r.scope, r.status, r.administrator⟩ }
  return {
    conversationId := s.groupId
    sentAtMs := record.sentAtMs
    messageId := record.messageId
    message := { record.message c with metadata := some metadata }
    attachmentManifest := record.offer.map (·.manifest)
    previewManifest := record.offer.bind (·.previewManifest) }

/-- The row that is stored for a record. -/
def importedHistoryRow (record : GroupRecord) (holder : String) :
    Except PrivateGroupError (StoredMessage GroupMessage) :=
  match s.occurrences record.messageId with
  | none => s.newRow c record holder
  | some indexed => do
    let identity ← orCodec (record.acceptance.origin.mapM (MessageOrigin.key c.toDeletionCrypto))
    if some indexed.identity ≠ identity ||
        indexed.contentDigest.any (· ≠ record.acceptance.recordHash) then
      throw (.codec "conflicting group history occurrence")
    match s.rows indexed.rowKey with
    | some row => s.retainedOrRepairedRow c row record
    | none => s.newRow c record holder

end HistorySession

/-! ## Rows that are held -/

variable {c} {s : HistorySession} {record : GroupRecord} {row row₀ : StoredMessage GroupMessage}
  {holder : String}

/-- What `GroupRecord::verify` checks of the content of a record that is not erased: the author of
    the origin is the author, and the hash is that of the message. -/
structure Genuine (c : HistoryCrypto) (s : HistorySession) (record : GroupRecord) : Prop where
  erased : record.erased = none
  origin : ∃ origin, record.acceptance.origin = some origin ∧
    origin.author = record.acceptance.originalAuthorMlsKey
  hash : semanticRecordHash c s.context s.meshId (record.message c)
    record.acceptance.originalAuthorMlsKey record.acceptance.originalAuthorMossKey record.offer =
      .ok record.acceptance.recordHash

/-- The row that was stored when the message of the record was accepted first. What is only about
    this device (the delivery, whose message it is) is not in the record. -/
structure FirstAccepted (c : HistoryCrypto) (s : HistorySession) (record : GroupRecord)
    (row : StoredMessage GroupMessage) : Prop where
  conversationId : row.conversationId = s.groupId
  messageId : row.messageId = record.messageId
  sentAtMs : row.sentAtMs = record.sentAtMs
  message : ∃ metadata delivery, metadata.origin = record.acceptance.origin ∧
    metadata.deletion = none ∧ delivery.deliveryStatus ≠ some .failed ∧
    delivery.deliveryStatus ≠ some .pending ∧
    row.message = { record.message c with metadata := some metadata, delivery := delivery }
  attachmentManifest : row.attachmentManifest = record.offer.map (·.manifest)
  previewManifest : row.previewManifest = record.offer.bind (·.previewManifest)

/-- What deletions leave of a row: it is erased, by any deletion and more than once, or its preview
    is lost. -/
inductive Later (row₀ : StoredMessage GroupMessage) : StoredMessage GroupMessage → Prop
  | refl : Later row₀ row₀
  | erased {row : StoredMessage GroupMessage} (marker : DeletionMarker) (key : String)
      (correlation : Option String) (localOnly : Bool) (h : Later row₀ row) : Later row₀
        { row with
          message := erase row.message marker key correlation localOnly
          attachmentManifest := none
          previewManifest := none }
  | previewLost {row : StoredMessage GroupMessage} (h : Later row₀ row) :
      Later row₀ { row with previewManifest := none }

/-- The erasure of a row on disk is one of them. -/
theorem Later.eraseContentRow (h : Later row₀ row) (r : DeletionRecord) (target : String)
    (correlation : Option String) :
    Later row₀ (Deletion.eraseContentRow row r target correlation) :=
  .erased r.marker target correlation _ h

/-- Nothing is left in the row. -/
structure Emptied (row : StoredMessage GroupMessage) : Prop where
  erased : isErased row.message = true
  body : row.message.body = ""
  attachment : row.message.attachment = none
  attachmentManifest : row.attachmentManifest = none
  previewManifest : row.previewManifest = none

/-- A row is erased and empty, or as it was but for its preview. -/
theorem Later.cases (h : Later row₀ row) :
    row.conversationId = row₀.conversationId ∧ row.messageId = row₀.messageId ∧
      row.sentAtMs = row₀.sentAtMs ∧
      (Emptied row ∨ row = row₀ ∨ row = { row₀ with previewManifest := none }) := by
  induction h with
  | refl => exact ⟨rfl, rfl, rfl, .inr (.inl rfl)⟩
  | erased marker key correlation localOnly _ ih =>
    refine ⟨ih.1, ih.2.1, ih.2.2.1, .inl ⟨?_, rfl, rfl, rfl, rfl⟩⟩
    exact Option.isSome_of_eq_some deletion_erase
  | previewLost _ ih =>
    obtain ⟨hconversation, hid, htime, hempty | rfl | rfl⟩ := ih
    · exact ⟨hconversation, hid, htime,
        .inl ⟨hempty.erased, hempty.body, hempty.attachment, hempty.attachmentManifest, rfl⟩⟩
    · exact ⟨rfl, rfl, rfl, .inr (.inr rfl)⟩
    · exact ⟨rfl, rfl, rfl, .inr (.inr rfl)⟩

/-- The hash does not depend on what is only about this device. -/
theorem semanticRecordHash_congr (context meshId authorMlsKey authorMossKey : String)
    (offer : Option AttachmentOffer) {message : GroupMessage} {metadata metadata' : MessageMetadata}
    (horigin : metadata'.origin = metadata.origin) (delivery delivery' : MessageDeliveryMeta) :
    semanticRecordHash c context meshId
        { message with metadata := some metadata', delivery := delivery' } authorMlsKey
        authorMossKey offer =
      semanticRecordHash c context meshId
        { message with metadata := some metadata, delivery := delivery } authorMlsKey
        authorMossKey offer := by
  simp only [semanticRecordHash, Option.bind_some, horigin]

/-- The row was not erased when it was stored. -/
theorem FirstAccepted.isErased_eq (hfirst : FirstAccepted c s record row) :
    isErased row.message = false := by
  obtain ⟨metadata, delivery, -, hdeletion, -, -, hmessage⟩ := hfirst.message
  rw [hmessage]
  simp [isErased, deletion, ConversationMessage.metadata, hdeletion]

/-- The row that was stored first is that of the record. -/
theorem FirstAccepted.key_eq (hfirst : FirstAccepted c s record row)
    (hgenuine : Genuine c s record) : GroupRecord.key c row s.context s.meshId =
      .ok (some ⟨record.messageId, record.sentAtMs, record.acceptance.recordHash⟩) := by
  obtain ⟨metadata, delivery, horigin, -, hfailed, hpending, hmessage⟩ := hfirst.message
  obtain ⟨origin, hacceptance, hauthor⟩ := hgenuine.origin
  have hoffer : GroupRecord.offerOf row = record.offer := by
    rw [GroupRecord.offerOf, hfirst.attachmentManifest, hfirst.previewManifest]
    cases record.offer <;> rfl
  have hattachment : (row.message.attachment.isSome && (GroupRecord.offerOf row).isNone) =
      false := by
    rw [hmessage, hoffer]
    cases h : record.offer <;> simp [GroupRecord.message, h]
  have horigin' : row.message.metadata.bind (·.origin) = some origin := by
    rw [hmessage, ← hacceptance]
    exact horigin
  have hhash : semanticRecordHash c s.context s.meshId row.message origin.author
      row.message.fromFingerprint record.offer = .ok record.acceptance.recordHash := by
    rw [← hgenuine.hash, hmessage, hauthor]
    exact semanticRecordHash_congr _ _ _ _ _ horigin _ _
  rw [GroupRecord.key, if_neg, hfirst.isErased_eq, if_neg nofun, hattachment, if_neg nofun, horigin', hoffer]
  · simp only [hhash, hfirst.messageId, hfirst.sentAtMs]
    rfl
  · rw [hmessage]
    simp [GroupRecord.message, hfailed, hpending]

/-- So the row matches. -/
theorem FirstAccepted.rowMatchesOriginal (hfirst : FirstAccepted c s record row)
    (hgenuine : Genuine c s record) : s.rowMatchesOriginal c row record = true := by
  rw [HistorySession.rowMatchesOriginal, hfirst.key_eq hgenuine, Bool.and_eq_true]
  obtain ⟨metadata, delivery, -, -, -, -, hmessage⟩ := hfirst.message
  refine ⟨decide_eq_true ?_, decide_eq_true rfl⟩
  rw [hmessage]

/-- The identity of a row that is held is not disputed. -/
theorem FirstAccepted.sameIdentity (hfirst : FirstAccepted c s record row₀)
    (hlater : Later row₀ row) (hbody : row.message.body = record.body) :
    (row.conversationId ≠ s.groupId || row.messageId ≠ record.messageId ||
      row.sentAtMs ≠ record.sentAtMs || row.message.body ≠ record.body) = false := by
  obtain ⟨hconversation, hid, htime, -⟩ := hlater.cases
  simp [hconversation, hid, htime, hbody, hfirst.conversationId, hfirst.messageId, hfirst.sentAtMs]

/-- A row that is not erased is kept, with its preview. -/
theorem FirstAccepted.retainedOrRepairedRow (hfirst : FirstAccepted c s record row₀)
    (hgenuine : Genuine c s record)
    (hrow : row = row₀ ∨ row = { row₀ with previewManifest := none }) :
    ∃ row', s.retainedOrRepairedRow c row record = .ok row' ∧ row'.messageId = row.messageId ∧
      row'.sentAtMs = row.sentAtMs := by
  obtain ⟨metadata, delivery, -, -, -, -, hmessage⟩ := hfirst.message
  have hlater : Later row₀ row := by
    rcases hrow with rfl | rfl
    · exact .refl
    · exact .previewLost .refl
  have hsame : row.message = row₀.message := by
    rcases hrow with rfl | rfl <;> rfl
  have hbody : row.message.body = record.body := by
    rw [hsame, hmessage]
    rfl
  have herased : isErased row.message = false := by rw [hsame, hfirst.isErased_eq]
  rw [HistorySession.retainedOrRepairedRow, hfirst.sameIdentity hlater hbody, if_neg nofun, herased,
    if_neg nofun]
  split
  · exact ⟨row, rfl, rfl, rfl⟩
  · next hno =>
    rcases hrow with rfl | rfl
    · exact absurd (hfirst.rowMatchesOriginal hgenuine) hno
    · -- the preview was lost, and is taken from the record
      have hrepaired : { ({ row₀ with previewManifest := none } : StoredMessage GroupMessage) with
          previewManifest := record.offer.bind (·.previewManifest) } = row₀ := by
        rw [← hfirst.previewManifest]
      have hpreview : row₀.previewManifest.isSome = true := by
        rw [Option.isSome_iff_ne_none]
        intro hnone
        refine hno ?_
        rw [← hnone]
        exact hfirst.rowMatchesOriginal hgenuine
      have hmanifest : row₀.attachmentManifest.isSome = true := by
        rw [hfirst.previewManifest] at hpreview
        rw [hfirst.attachmentManifest]
        cases h : record.offer with
        | none => simp [h] at hpreview
        | some offer => rfl
      refine ⟨row₀, ?_, rfl, rfl⟩
      simp only [hrepaired]
      rw [← hfirst.previewManifest, hpreview, hfirst.rowMatchesOriginal hgenuine, hmanifest]
      rfl

/-- The record of a message that is held is imported: the row keeps its id and its time, and is
    still empty if it was erased. -/
def ImportsHeld (c : HistoryCrypto) (s : HistorySession) (record : GroupRecord) (holder : String)
    (row : StoredMessage GroupMessage) : Prop :=
  ∃ row', s.importedHistoryRow c record holder = .ok row' ∧ row'.messageId = row.messageId ∧
    row'.sentAtMs = row.sentAtMs ∧ (isErased row.message = true → Emptied row')

/-- Hashes for the history of a group. -/
def plainHistory : HistoryCrypto :=
  { plainCrypto with
    originDigest := fun origin => origin.key plainCrypto
    offerJson := fun offer => .ok offer.manifest.bytes
    bindingJson := fun binding => .ok (commaText [binding.context, binding.meshId,
      binding.messageId.getD "null", binding.contentHash, binding.authorMlsKey,
      binding.authorMossKey, binding.fromDevice])
    descriptorOf := fun _ => ⟨"file", "", "", "", 0, none, none⟩ }

/-- Alice's message in the group. -/
def groupGreeting : MessageOrigin :=
  let origin : MessageOrigin := { greeting with conversation := "group:1", signature := "" }
  { origin with signature := sign "alice" ((origin.signingInput plainCrypto).toOption.getD []) }

/-- Her message, as a holder serves it. -/
def textRecord : GroupRecord :=
  let record : GroupRecord :=
    { messageId := "m", sentAtMs := 1, fromDevice := "Alice", body := "hi", offer := none
      erased := none, acceptance := ⟨"", groupGreeting.author, "alice moss", some groupGreeting⟩ }
  let hash := semanticRecordHash plainHistory "group:1" "mesh" (record.message plainHistory)
    groupGreeting.author "alice moss" none
  { record with acceptance := { record.acceptance with recordHash := hash.toOption.getD "" } }

/-- Her message, as Bob stored it. -/
def textRow : StoredMessage GroupMessage where
  conversationId := "1"
  sentAtMs := 1
  messageId := "m"
  message := textRecord.message plainHistory

/-- Where Bob finds it. -/
def textOccurrence : Occurrence :=
  ⟨"m", GroupRecord.rowKey textRow, (groupGreeting.key plainCrypto).toOption.getD "",
    some textRecord.acceptance.recordHash⟩

/-- Bob's session while he holds a row of the message. -/
def holding (row : StoredMessage GroupMessage) : HistorySession where
  groupId := "1"
  meshId := "mesh"
  context := "group:1"
  deviceFingerprint := "bob moss"
  occurrences id := if id = "m" then some textOccurrence else none
  rows key := if key = textOccurrence.rowKey then some row else none
  acceptances _ := none
  deletions := []
  validates _ _ := false
  receipt _ := .ok ()

/-- Bob deleted the message for himself. -/
def deletedRow : StoredMessage GroupMessage :=
  eraseContentRow textRow (deleteForMe "group:1" "key" none "bob" false) "key" none

theorem firstAccepted_textRow (row : StoredMessage GroupMessage) :
    FirstAccepted plainHistory (holding row) textRecord textRow :=
  ⟨rfl, rfl, rfl, ⟨{ origin := some groupGreeting, isOwn := some false }, {}, rfl, rfl, nofun, nofun,
    rfl⟩, rfl, rfl⟩

theorem genuine_textRecord (row : StoredMessage GroupMessage) :
    Genuine plainHistory (holding row) textRecord :=
  ⟨rfl, ⟨groupGreeting, rfl, rfl⟩, by
    change semanticRecordHash plainHistory "group:1" "mesh" (textRecord.message plainHistory)
      groupGreeting.author "alice moss" none = .ok textRecord.acceptance.recordHash
    decide +kernel⟩

theorem occurrence_textRow :
    GroupRecord.occurrence plainHistory textRow "group:1" "mesh" = .ok (some textOccurrence) := by
  decide +kernel

end Mosh.Group
