import Mosh.Deletion.Application

/-!
# The keys of a message, in memory and on disk

The key and the alias of a message are computed twice: from the message in memory
(`message_deletion/target.rs`, `message_deletion/correlation.rs`) and from its row on
disk (`persistence/deletion_guard.rs`). Both are computed before the message is erased
and again from what is left of it, in each of the two places at its own time. A deletion
that matches in one place has to match in the other one.

* `Original`: the texts and files that this is about, as they were sent;
* `ErasedFrom`: what is left of them;
* `Life`: what becomes of a message and of its row;
* `live_and_stored_keys_agree`: the key and the alias are the same at all times, in
  memory and on disk.
-/

namespace Mosh.Deletion

open Conversation ConversationMessage
open Conversation.MessageLog (StoredMessage)
open DeviceLink (textBytes)

variable {M : Type} [ConversationMessage M] (c : TargetCrypto)

/-- The key and the alias of a message in memory. -/
def liveKeys (context : String) (m : M) (transfer : Transfer) :
    Except String (String × Option String) := do
  let (key, _, correlation) ← messageKeys c transfer context m
  return (key, correlation)

/-- The key and the alias of a row on disk, as the guard looks them up. -/
def storedKeys (context : String) (row : StoredMessage M) : Option (String × Option String) :=
  let correlation := historyMessageKey c context row
  ((historyTarget c context row.message).or correlation).map (·, correlation)

/-- What is assumed of the libraries: texts and numbers can be written as JSON, and the hash tells
    what is signed by an author from what is hashed to a key. -/
structure TargetCrypto.Sound : Prop where
  targetJson : ∀ value, ∃ json, c.targetJson value = .ok json
  originJson : ∀ origin, ∃ json, c.originJson origin = .ok json
  distinct : ∀ (value : TargetValue) (origin : MessageOrigin) (key : String),
    value.key c = .ok key → origin.key c.toDeletionCrypto ≠ .ok key

variable {c}

theorem TargetCrypto.Sound.key (hc : c.Sound) (value : TargetValue) :
    ∃ key, value.key c = .ok key := by
  obtain ⟨json, hjson⟩ := hc.targetJson value
  exact ⟨c.sha256 json, by rw [TargetValue.key, hjson]; rfl⟩

theorem TargetCrypto.Sound.originKey (hc : c.Sound) (origin : MessageOrigin) :
    ∃ key, origin.key c.toDeletionCrypto = .ok key := by
  obtain ⟨json, hjson⟩ := hc.originJson
    (origin.conversation, origin.id, origin.contentHash, origin.author, origin.ownership)
  refine ⟨c.sha256 (textBytes "mosh-message-origin-v1\x00" ++ json), ?_⟩
  rw [MessageOrigin.key, MessageOrigin.signingInput, transcript, hjson]
  rfl

/-! ## Messages that are not erased -/

variable (c) in
/-- What the alias of a message is hashed from: its text, or its file. -/
def aliasValue (context : String) (m : M) (transfer : Transfer) : TargetValue :=
  match attachment m with
  | some attachment => (attachmentTarget c context m transfer attachment).1
  | none => .text context (messageId m) (sentAtMs m) (author m)
      (((origin m).map (·.contentHash)).getD (c.sha256 (textBytes (body m))))

/-- A text or a file, as it was sent: it carries no marker and no alias, its origin holds, and if it
    was given a key it is that of the origin. The file of a channel is known. -/
structure Original (c : TargetCrypto) (context : String) (transfer : Transfer) (m : M) : Prop where
  callId : callId m = none
  isService : isService m = false
  deletion : deletion m = none
  personalCorrelation : (metadata m).bind (·.personalCorrelation) = none
  verified : verifiedOrigin c context m = origin m
  deletionKey : ∀ o, origin m = some o → ∀ key, (metadata m).bind (·.deletionKey) = some key →
    o.key c.toDeletionCrypto = .ok key
  manifest : isChannel context = true → ∀ a, attachment m = some a →
    (transfer.manifestFor a.attachmentId).isSome

/-- The row of a message, with the manifest that is known of its file. -/
structure RowOf (transfer : Transfer) (m : M) (row : StoredMessage M) : Prop where
  message : row.message = m
  manifest : ∀ a, attachment m = some a →
    row.attachmentManifest = transfer.manifestFor a.attachmentId

variable {context : String} {transfer transfer' : Transfer} {m : M} {row : StoredMessage M}

/-- The key of a message that is not erased, given its alias. -/
def originalKey (c : TargetCrypto) (m : M) (alias_ : String) : Except String String :=
  match (metadata m).bind (·.deletionKey), origin m with
  | some key, _ => .ok key
  | none, some origin => origin.key c.toDeletionCrypto
  | none, none => .ok alias_

theorem attachmentTarget_known (h : Original c context transfer m) {a : AttachmentDescriptor}
    (ha : attachment m = some a) : (attachmentTarget c context m transfer a).2 = false := by
  rw [attachmentTarget]
  cases hchannel : isChannel context with
  | false => rfl
  | true =>
    obtain ⟨manifest, hmanifest⟩ := Option.isSome_iff_exists.1 (h.manifest hchannel a ha)
    rw [hmanifest]
    rfl

/-- The alias of a message in memory. -/
theorem messageKey_original [LawfulMessage M] (h : Original c context transfer m) {alias_ : String}
    (halias : (aliasValue c context m transfer).key c = .ok alias_) :
    messageKey c context m transfer = .ok (some alias_) := by
  rw [messageKey, h.personalCorrelation]
  cases ha : attachment m with
  | none =>
    have hnot : (isErased m && (origin m).isNone) = false := by
      rw [isErased, h.deletion]
      rfl
    rw [aliasValue, ha] at halias
    simp only [Option.isSome_none, Bool.false_eq_true, if_false]
    rw [textKey, ha, h.callId, h.isService, hnot]
    simp only [Option.isSome_none, Bool.false_eq_true, Bool.or_self, if_false]
    rw [halias]
    rfl
  | some a =>
    have hlocal := attachmentTarget_known h ha
    rw [aliasValue, ha] at halias
    have hnone : (metadata (setMetadata m none)).bind (·.deletionKey) = none := by
      rw [metadata_setMetadata]
      rfl
    have horigin : origin (setMetadata m none) = none := by
      rw [origin, metadata_setMetadata]
      rfl
    have hsame : attachmentTarget c context (setMetadata m none) transfer a =
        attachmentTarget c context m transfer a := by
      simp only [attachmentTarget, messageId_setMetadata, LawfulMessage.sentAtMs_setMetadata,
        LawfulMessage.author_setMetadata]
    simp only [Option.isSome_some, if_true]
    rw [target, hnone, horigin, LawfulMessage.attachment_setMetadata, ha]
    simp only [hsame]
    rw [halias, hlocal]
    rfl

/-- The key of a message in memory. -/
theorem target_original (h : Original c context transfer m) {alias_ key : String}
    (halias : (aliasValue c context m transfer).key c = .ok alias_)
    (hkey : originalKey c m alias_ = .ok key) :
    ∃ localOnly, target c context m transfer = .ok (key, localOnly) := by
  rw [target]
  cases hdeletion : (metadata m).bind (·.deletionKey) with
  | some d =>
    rw [originalKey, hdeletion] at hkey
    exact ⟨_, by rw [Except.ok.inj hkey]⟩
  | none =>
    cases horigin : origin m with
    | some o =>
      rw [originalKey, hdeletion, horigin] at hkey
      exact ⟨false, by simp only [hkey]; rfl⟩
    | none =>
      rw [originalKey, hdeletion, horigin] at hkey
      obtain rfl := Except.ok.inj hkey
      cases ha : attachment m with
      | some a =>
        rw [aliasValue, ha] at halias
        exact ⟨_, by simp only [halias]; rfl⟩
      | none =>
        have hnot : (isErased m && (origin m).isNone) = false := by
          rw [isErased, h.deletion]
          rfl
        have htext : textKey c context m = .ok (some alias_) := by
          rw [aliasValue, ha] at halias
          rw [textKey, ha, h.callId, h.isService, hnot]
          simp only [Option.isSome_none, Bool.false_eq_true, Bool.or_self, if_false]
          rw [halias]
          rfl
        refine ⟨true, ?_⟩
        simp only [h.callId, h.isService, Bool.false_and, Bool.false_eq_true, if_false, htext]
        rfl

/-- The alias of a message on disk. -/
theorem historyMessageKey_original (h : Original c context transfer m) (hrow : RowOf transfer m row)
    {alias_ : String} (halias : (aliasValue c context m transfer).key c = .ok alias_) :
    historyMessageKey c context row = some alias_ := by
  have herased : isErased m = false := by
    rw [isErased, h.deletion]
    rfl
  rw [historyMessageKey, hrow.message, herased]
  simp only
  cases ha : attachment m with
  | none =>
    rw [aliasValue, ha] at halias
    simp only
    rw [historyTextKey, ha, h.callId, h.isService, herased, h.verified]
    simp only [Option.isSome_none, Bool.and_false, Bool.or_self, Bool.false_eq_true, if_false]
    rw [halias]
    rfl
  | some a =>
    rw [aliasValue, ha] at halias
    simp only
    rw [historyAttachmentKey, hrow.manifest a ha]
    simp only [attachmentTarget] at halias
    cases hchannel : isChannel context with
    | false =>
      simp only [hchannel, Bool.not_false, if_true] at halias
      simp only [Bool.false_eq_true, if_false, halias]
      rfl
    | true =>
      obtain ⟨manifest, hmanifest⟩ := Option.isSome_iff_exists.1 (h.manifest hchannel a ha)
      simp only [hchannel, Bool.not_true, Bool.false_eq_true, if_false, hmanifest] at halias
      simp only [if_true, hmanifest]
      change ((TargetValue.manifest context (c.sha256 manifest.bytes)).key c).toOption = _
      rw [halias]
      rfl

/-- The key and the alias of a message are the same in memory and on disk. -/
theorem keys_original [LawfulMessage M] (h : Original c context transfer m)
    (hrow : RowOf transfer m row) {alias_ key : String}
    (halias : (aliasValue c context m transfer).key c = .ok alias_)
    (hkey : originalKey c m alias_ = .ok key) :
    liveKeys c context m transfer = .ok (key, some alias_) ∧
      storedKeys c context row = some (key, some alias_) := by
  obtain ⟨localOnly, htarget⟩ := target_original h halias hkey
  constructor
  · rw [liveKeys, messageKeys, htarget]
    simp only [messageKey_original h halias]
    rfl
  · have hhistory : (historyTarget c context m).or (some alias_) = some key := by
      rw [historyTarget]
      cases hdeletion : (metadata m).bind (·.deletionKey) with
      | some d =>
        rw [originalKey, hdeletion] at hkey
        rw [Except.ok.inj hkey]
        rfl
      | none =>
        rw [h.verified]
        cases horigin : origin m with
        | some o =>
          rw [originalKey, hdeletion, horigin] at hkey
          simp only [Option.bind_some, hkey]
          rfl
        | none =>
          rw [originalKey, hdeletion, horigin] at hkey
          rw [Except.ok.inj hkey]
          rfl
    rw [storedKeys, historyMessageKey_original h hrow halias, hrow.message, hhistory]
    rfl

/-! ## What is left of a message -/

/-- What is left of a message after it was erased, once or more often. -/
structure ErasedFrom (m₀ : M) (key alias_ : String) (m : M) : Prop where
  isErased : isErased m = true
  deletionKey : (metadata m).bind (·.deletionKey) = some key
  personalCorrelation : (metadata m).bind (·.personalCorrelation) = (some alias_).filter (· ≠ key)
  origin : origin m = origin m₀
  attachment : attachment m = none
  callId : callId m = none
  isService : isService m = false
  messageId : messageId m = messageId m₀
  sentAtMs : sentAtMs m = sentAtMs m₀
  author : author m = author m₀

variable {m₀ : M} {key alias_ : String}

/-- Erasing a message, or what is left of it, leaves that. -/
theorem erasedFrom_erase [LawfulMessage M] (marker : DeletionMarker) (localOnly : Bool)
    (h : m = m₀ ∨ ErasedFrom m₀ key alias_ m) :
    ErasedFrom m₀ key alias_ (erase m marker key (some alias_) localOnly) := by
  have horigin : origin m = origin m₀ := h.elim (fun h => h ▸ rfl) (·.origin)
  have hid : messageId m = messageId m₀ := h.elim (fun h => h ▸ rfl) (·.messageId)
  have htime : sentAtMs m = sentAtMs m₀ := h.elim (fun h => h ▸ rfl) (·.sentAtMs)
  have hauthor : author m = author m₀ := h.elim (fun h => h ▸ rfl) (·.author)
  refine ⟨Option.isSome_of_eq_some deletion_erase, ?_, ?_, ?_, ?_, ?_, ?_, ?_, ?_, ?_⟩
  · rw [metadata_erase]
    rfl
  · rw [metadata_erase]
    rfl
  · rw [← horigin, origin, metadata_erase, origin, Option.bind_some, erasedMetadata]
    cases metadata m <;> rfl
  · exact LawfulMessage.attachment_eraseContent _
  · exact LawfulMessage.callId_eraseContent _
  · exact LawfulMessage.isService_eraseContent _
  · rw [messageId_erase, hid]
  · rw [erase, LawfulMessage.sentAtMs_eraseContent, LawfulMessage.sentAtMs_setMetadata, htime]
  · rw [erase, LawfulMessage.author_eraseContent, LawfulMessage.author_setMetadata, hauthor]

/-- The key of a message with an origin is not its alias. -/
theorem alias_ne_key (hc : c.Sound) (h : Original c context transfer m₀)
    (halias : (aliasValue c context m₀ transfer).key c = .ok alias_)
    (hkey : originalKey c m₀ alias_ = .ok key) {o : MessageOrigin} (ho : origin m₀ = some o) :
    alias_ ≠ key := by
  have horigin : o.key c.toDeletionCrypto = .ok key := by
    cases hdeletion : (metadata m₀).bind (·.deletionKey) with
    | some d =>
      rw [originalKey, hdeletion] at hkey
      obtain rfl := Except.ok.inj hkey
      exact h.deletionKey o ho d hdeletion
    | none =>
      rw [originalKey, hdeletion, ho] at hkey
      exact hkey
  rintro rfl
  exact hc.distinct _ o alias_ halias horigin

/-- The alias of what is left, in memory and on disk. -/
theorem alias_of_erasedFrom (hc : c.Sound) (h : Original c context transfer m₀)
    (halias : (aliasValue c context m₀ transfer).key c = .ok alias_)
    (hkey : originalKey c m₀ alias_ = .ok key) (hm : ErasedFrom m₀ key alias_ m)
    (transfer' : Transfer) :
    messageKey c context m transfer' = .ok (some alias_) ∧
      ∀ row : StoredMessage M, row.message = m → historyMessageKey c context row = some alias_ := by
  by_cases heq : alias_ = key
  · -- the alias is the key, which is found in the metadata as there is no origin
    subst heq
    have hnone : (metadata m).bind (·.personalCorrelation) = none := by
      rw [hm.personalCorrelation]
      simp [Option.filter]
    have horigin : origin m = none := by
      rw [hm.origin]
      exact Option.eq_none_iff_forall_ne_some.2 fun o ho =>
        alias_ne_key hc h halias hkey ho rfl
    have hlive : textKey c context m = .ok (some alias_) := by
      rw [textKey, hm.attachment, hm.callId, hm.isService, hm.isErased, horigin, hm.deletionKey]
      rfl
    have hstored : historyTextKey c context m = some alias_ := by
      rw [historyTextKey, hm.attachment, hm.callId, hm.isService, hm.isErased, verifiedOrigin,
        horigin, hm.deletionKey]
      rfl
    refine ⟨?_, fun row hrow => ?_⟩
    · rw [messageKey, hnone, hm.attachment]
      exact hlive
    · rw [historyMessageKey, hrow, hm.isErased, hnone, hm.attachment]
      exact hstored
  · -- the alias is kept
    have hsome : (metadata m).bind (·.personalCorrelation) = some alias_ := by
      rw [hm.personalCorrelation]
      simp [Option.filter, heq]
    refine ⟨?_, fun row hrow => ?_⟩
    · rw [messageKey, hsome]
    · rw [historyMessageKey, hrow, hm.isErased, hsome]

/-- The keys of what is left are those of the message. -/
theorem keys_of_erasedFrom (hc : c.Sound) (h : Original c context transfer m₀)
    (halias : (aliasValue c context m₀ transfer).key c = .ok alias_)
    (hkey : originalKey c m₀ alias_ = .ok key) (hm : ErasedFrom m₀ key alias_ m)
    (transfer' : Transfer) :
    liveKeys c context m transfer' = .ok (key, some alias_) ∧
      ∀ row : StoredMessage M, row.message = m →
        storedKeys c context row = some (key, some alias_) := by
  obtain ⟨hlive, hstored⟩ := alias_of_erasedFrom hc h halias hkey hm transfer'
  constructor
  · rw [liveKeys, messageKeys, target, hm.deletionKey]
    simp only [hlive]
    rfl
  · intro row hrow
    rw [storedKeys, hstored row hrow, hrow, historyTarget, hm.deletionKey]
    rfl

/-! ## The life of a message -/

/-- What becomes of a message and of its row: each of them is erased by records that match it, in any
    order and more than once, the row of a message that is erased is written again, and the file of
    a message that is erased is forgotten. -/
inductive Life (c : TargetCrypto) (context : String) (m₀ : M) (row₀ : StoredMessage M)
    (transfer₀ : Transfer) : M → StoredMessage M → Transfer → Prop
  | sent : Life c context m₀ row₀ transfer₀ m₀ row₀ transfer₀
  /-- `application::prepare`. -/
  | erased {m : M} {row : StoredMessage M} {transfer : Transfer} {key : String} {localOnly : Bool}
      {correlation : Option String} (record : DeletionRecord)
      (hkeys : messageKeys c transfer context m = .ok (key, localOnly, correlation))
      (h : Life c context m₀ row₀ transfer₀ m row transfer) :
      Life c context m₀ row₀ transfer₀ (erase m record.marker key correlation localOnly) row transfer
  /-- `deletion_guard::erase_content`. -/
  | guarded {m : M} {row : StoredMessage M} {transfer : Transfer} {key : String}
      {correlation : Option String} (record : DeletionRecord)
      (hkeys : storedKeys c context row = some (key, correlation))
      (h : Life c context m₀ row₀ transfer₀ m row transfer) :
      Life c context m₀ row₀ transfer₀ m (eraseContentRow row record key correlation) transfer
  | written {m : M} {row : StoredMessage M} {transfer : Transfer}
      (h : Life c context m₀ row₀ transfer₀ m row transfer)
      (herased : isErased m = true) : Life c context m₀ row₀ transfer₀ m
        { row with message := m, attachmentManifest := none, previewManifest := none } transfer
  | forgotten {m : M} {row : StoredMessage M} {transfer : Transfer} (transfer' : Transfer)
      (h : Life c context m₀ row₀ transfer₀ m row transfer) (herased : isErased m = true) :
      Life c context m₀ row₀ transfer₀ m row transfer'

/-- The keys of a message in memory and of its row on disk are those of the message as it was sent,
    at all times; so a deletion matches the one if and only if it matches the other. -/
theorem live_and_stored_keys_agree [LawfulMessage M] (hc : c.Sound) {row₀ : StoredMessage M}
    {transfer₀ : Transfer} (h : Original c context transfer₀ m₀) (hrow : RowOf transfer₀ m₀ row₀)
    (hlife : Life c context m₀ row₀ transfer₀ m row transfer) :
    ∃ key correlation, liveKeys c context m₀ transfer₀ = .ok (key, correlation) ∧
      liveKeys c context m transfer = .ok (key, correlation) ∧
      storedKeys c context row = some (key, correlation) ∧
      ∀ record : DeletionRecord,
        ((∃ k a, liveKeys c context m transfer = .ok (k, a) ∧ record.matches k a = true) ↔
          ∃ k a, storedKeys c context row = some (k, a) ∧ record.matches k a = true) := by
  obtain ⟨alias_, halias⟩ := hc.key (aliasValue c context m₀ transfer₀)
  obtain ⟨key, hkey⟩ : ∃ key, originalKey c m₀ alias_ = .ok key := by
    rw [originalKey]
    split
    · exact ⟨_, rfl⟩
    · exact hc.originKey _
    · exact ⟨_, rfl⟩
  obtain ⟨hlive₀, hstored₀⟩ := keys_original h hrow halias hkey
  -- the message and the row are as they were, or are what is left of the message
  have hboth : ((m = m₀ ∧ transfer = transfer₀) ∨ ErasedFrom m₀ key alias_ m) ∧
      (row = row₀ ∨ ErasedFrom m₀ key alias_ row.message) := by
    induction hlife with
    | sent => exact ⟨.inl ⟨rfl, rfl⟩, .inl rfl⟩
    | @erased m row transfer key' localOnly correlation record hkeys _ ih =>
      have hlive : liveKeys c context m transfer = .ok (key, some alias_) := by
        rcases ih.1 with ⟨rfl, rfl⟩ | hm
        · exact hlive₀
        · exact (keys_of_erasedFrom hc h halias hkey hm transfer).1
      have hpair : (key', correlation) = (key, some alias_) := by
        rw [liveKeys, hkeys] at hlive
        exact Except.ok.inj hlive
      obtain ⟨rfl, rfl⟩ := Prod.mk.inj hpair
      exact ⟨.inr (erasedFrom_erase record.marker localOnly (ih.1.imp_left (·.1))), ih.2⟩
    | @guarded m row transfer key' correlation record hkeys _ ih =>
      have hstored : storedKeys c context row = some (key, some alias_) := by
        rcases ih.2 with rfl | hm
        · exact hstored₀
        · exact (keys_of_erasedFrom hc h halias hkey hm transfer).2 row rfl
      obtain ⟨rfl, rfl⟩ := Prod.mk.inj (Option.some.inj (hkeys.symm.trans hstored))
      refine ⟨ih.1, .inr (erasedFrom_erase record.marker _ (ih.2.imp_left ?_))⟩
      rintro rfl
      exact hrow.message
    | @written m row transfer _ herased ih =>
      refine ⟨ih.1, .inr ?_⟩
      rcases ih.1 with ⟨rfl, -⟩ | hm
      · rw [isErased, h.deletion] at herased
        cases herased
      · exact hm
    | @forgotten m row transfer transfer' _ herased ih =>
      refine ⟨.inr ?_, ih.2⟩
      rcases ih.1 with ⟨rfl, -⟩ | hm
      · rw [isErased, h.deletion] at herased
        cases herased
      · exact hm
  have hlive : liveKeys c context m transfer = .ok (key, some alias_) := by
    rcases hboth.1 with ⟨rfl, rfl⟩ | hm
    · exact hlive₀
    · exact (keys_of_erasedFrom hc h halias hkey hm transfer).1
  have hstored : storedKeys c context row = some (key, some alias_) := by
    rcases hboth.2 with rfl | hm
    · exact hstored₀
    · exact (keys_of_erasedFrom hc h halias hkey hm transfer).2 row rfl
  refine ⟨key, some alias_, hlive₀, hlive, hstored, fun record => ?_⟩
  simp only [hlive, hstored, Except.ok.injEq, Option.some.injEq, Prod.mk.injEq]

/-! ### A text that is deleted in memory -/

/-- Keys that are the JSON itself. -/
def verbatim : TargetCrypto :=
  { plainCrypto with
    sha256 := fun bytes => String.ofList (bytes.map fun byte => Char.ofNat byte.toNat)
    targetJson := fun value =>
      match value with
      | .text context id sentAt author contentHash =>
        .ok (91 :: commaText [context, id.getD "null", (sentAt.map Nat.repr).getD "null", author,
          contentHash])
      | _ => .ok [91, 93] }

theorem sound_verbatim : verbatim.Sound := by
  have hvalue (value : TargetValue) (key : String) (hkey : value.key verbatim = .ok key) :
      key.toList.head? = some '[' := by
    cases value with
    | text =>
      rw [← Except.ok.inj hkey]
      exact congrArg List.head? (String.toList_ofList ..)
    | _ =>
      rw [← Except.ok.inj hkey]
      exact congrArg List.head? (String.toList_ofList ..)
  have horigin (json : List UInt8) :
      (verbatim.sha256 (textBytes "mosh-message-origin-v1\x00" ++ json)).toList.head? =
        some 'm' := by
    have hm : (textBytes "mosh-message-origin-v1\x00").head? = some 109 := by decide
    change (String.ofList _).toList.head? = some 'm'
    rw [String.toList_ofList, List.head?_map, List.head?_append, hm]
    rfl
  refine ⟨fun value => ?_, fun origin => ⟨_, rfl⟩, fun value origin key hkey hkey' => ?_⟩
  · cases value <;> exact ⟨_, rfl⟩
  · have hm := horigin (commaText [origin.conversation, origin.id, origin.contentHash,
      origin.author, origin.ownership.getD "null"])
    rw [Except.ok.inj hkey', hvalue value key hkey] at hm
    cases hm

/-- A text without an origin. -/
def plainText : ChatMessage where
  fromDevice := "alice"
  body := "hi"
  messageId := some "m"
  sentAtMs := some 1

/-- Its row. -/
def plainTextRow : StoredMessage ChatMessage := ⟨"1", 1, "m", plainText, none, none⟩

/-- After the text was deleted in memory, its row on disk still has its keys. -/
theorem live_and_stored_keys_agree_text : ∃ key localOnly correlation,
    messageKeys verbatim noFiles "dm:1" plainText = .ok (key, localOnly, correlation) ∧
    storedKeys verbatim "dm:1" plainTextRow = some (key, correlation) ∧
    liveKeys verbatim "dm:1" (erase plainText (deleteForMe "dm:1" key none "bob" true).marker key
      correlation localOnly) noFiles = .ok (key, correlation) := by
  have horiginal : Original verbatim "dm:1" noFiles plainText :=
    ⟨rfl, rfl, rfl, rfl, rfl, nofun, nofun⟩
  have hrow : RowOf noFiles plainText plainTextRow := ⟨rfl, nofun⟩
  obtain ⟨⟨key, localOnly, correlation⟩, hkeys⟩ :
      ∃ keys, messageKeys verbatim noFiles "dm:1" plainText = .ok keys := ⟨_, rfl⟩
  have hsent : Life verbatim "dm:1" plainText plainTextRow noFiles plainText plainTextRow noFiles :=
    .sent
  have hlife := Life.erased (deleteForMe "dm:1" key none "bob" true) hkeys hsent
  obtain ⟨key', correlation', hlive, hlive', hstored, -⟩ :=
    live_and_stored_keys_agree sound_verbatim horiginal hrow hlife
  have hpair : (key, correlation) = (key', correlation') := by
    rw [liveKeys, hkeys] at hlive
    exact Except.ok.inj hlive
  obtain ⟨rfl, rfl⟩ := Prod.mk.inj hpair
  exact ⟨key, localOnly, correlation, hkeys, hstored, hlive'⟩

end Mosh.Deletion
