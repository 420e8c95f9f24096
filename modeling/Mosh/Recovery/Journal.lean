import Mosh.Conversation.Outbound
import Mosh.Deletion.Application
import Mosh.Deletion.Fragments
import Mosh.Library.Checked
import Mosh.Library.Paging
import Mosh.Recovery.Pages

/-!
# Journals of deletions

Deletions are handed over in pages, in the order of their storage keys. The devices of an account
read the table of the account (`persistence/deletion_paging.rs`), members of a conversation its
book (`message_deletion/shared.rs`), and who recovers the history of a room a frozen copy of the
book (`persistence/recovery_pages.rs`). A page of a frozen journal that is too large for a frame
comes in fragments, and the reader checks the order of the records
(`conversation/recovery/journal.rs`) and, at the end, the digest of all.

* `recoveryPage_eq`, `sharedPage_eq`, `accountDeletionPage_eq`: all three take the pages of
  `Paging.pageAfter`;
* `validateWindow_of_fits`: the reader admits such a page;
* `deliver_iff`: a page is delivered in fragments when it is no larger than a record may be;
* `recoverySequenceDigest_eq`: the digest of what was handed over is that of the book;
* `journals_walked`: all of it, from the first page to the last.
-/

namespace Mosh.Recovery

open Checked
open Deletion (DeletionRecord DeletionMessage DeletionAuthority DeletionBook DeletionCrypto Journal
  PageCodec)
open Paging (Walk Window Fits pageAfter itemsAfter fill)
open Std (ExtTreeMap)

/-! ## The pages -/

/-- Records as JSON, beside the messages they are sent in. -/
structure JournalCodec extends PageCodec where
  recordJson : DeletionRecord → Except String (List UInt8)
  parseRecord : List UInt8 → Except String DeletionRecord

/-- A sequence of values in JSON: brackets around them, and a comma between two of them. -/
def sequenceJson (values : List (List UInt8)) : List UInt8 :=
  91 :: (values.intersperse [44]).flatten ++ [93]

/-- What was written is read again, and the JSON of records is that of a sequence. -/
structure JournalCodec.Lawful (k : JournalCodec) (c : DeletionCrypto) : Prop extends
    pages : k.toPageCodec.Lawful where
  parseRecord_recordJson : ∀ r bytes, k.recordJson r = .ok bytes → k.parseRecord bytes = .ok r
  sha256_eq : c.sha256 = k.sha256
  recordsJson_eq : ∀ records, c.recordsJson records = do
    let values ← records.mapM k.recordJson
    .ok (sequenceJson values)

/-- Rows that are read and written as bytes. -/
abbrev Rows := ExtTreeMap String (List UInt8) compare

/-- The most bytes on a page, unless its only record is larger. -/
def journalPageBytes : Nat := 24000

/-- What a record counts whose JSON cannot be written. -/
def unknownSize : Nat := 60000

/-- The end of the keys that start with a text. -/
def endOf (start : String) : String := start ++ String.singleton (Char.ofNat 0x10FFFF)

/-- The rest of a text after its start. -/
def stripPrefix (start text : String) : Option String :=
  if start.toList.isPrefixOf text.toList then
    some (String.ofList (text.toList.drop start.toList.length))
  else none

variable (k : JournalCodec)

/-- The rows of a range, in order. -/
def Rows.range (rows : Rows) (start stop : String) : List (String × List UInt8) :=
  rows.toList.filter fun row => start ≤ row.1 && row.1 < stop

def recoveryLoop (start : String) : List DeletionRecord → Nat → Option String →
    List (String × List UInt8) → Except String (List DeletionRecord × Option String)
  | records, _, _, [] => .ok (records, none)
  | records, bytes, last, (key, raw) :: rest =>
    if pageRecords ≤ records.length ∨ (records ≠ [] ∧ journalPageBytes < bytes + raw.length) then
      .ok (records, last)
    else do
      let record ← k.parseRecord raw
      recoveryLoop start (records ++ [record]) (bytes + raw.length) (stripPrefix start key) rest

/-- A page of a frozen journal, under the start of its keys. -/
def recoveryPage (rows : Rows) (start : String) (after : Option String) :
    Except String (List DeletionRecord × Option String) :=
  recoveryLoop k start [] 0 none
    ((rows.range (start ++ after.getD "") (endOf start)).filter fun row =>
      after.all fun a => row.1 ≠ start ++ a)

/-- The digest of a frozen journal. -/
def recoverySequenceDigest (rows : Rows) (start : String) : String :=
  k.sha256 (sequenceJson ((rows.range start (endOf start)).map (·.2)))

/-- How much of a page a record takes. -/
def recordSize (r : DeletionRecord) : Nat :=
  ((k.recordJson r).toOption.map List.length).getD unknownSize

def sharedLoop : List DeletionRecord → Nat → List DeletionRecord →
    List DeletionRecord × Option String
  | records, _, [] => (records, none)
  | records, bytes, record :: rest =>
    if records ≠ [] ∧
        (records.length = pageRecords ∨ journalPageBytes < bytes + recordSize k record) then
      (records, records.getLast?.map DeletionRecord.storageKey)
    else sharedLoop (records ++ [record]) (bytes + recordSize k record) rest

/-- A page of the book of a conversation. -/
def sharedPage (c : DeletionCrypto) (book : Journal) (after : Option String)
    (authority : DeletionAuthority) : DeletionMessage :=
  let (records, next) := sharedLoop k [] 0 ((book.toList.filter fun row =>
    authority.counts c row.2 && after.all (· < row.1)).map (·.2))
  .state records next

def accountLoop (user : String) : List DeletionRecord → Nat → List (List UInt8) →
    Except String (List DeletionRecord × Option String)
  | page, _, [] => .ok (page, none)
  | page, bytes, raw :: rest => do
    let record ← k.parseRecord raw
    if record.visibleToAccount user then
      let size := (← k.recordJson record).length
      if page ≠ [] ∧ (page.length = pageRecords ∨ journalPageBytes < bytes + size) then
        .ok (page, page.getLast?.map DeletionRecord.storageKey)
      else accountLoop user (page ++ [record]) (bytes + size) rest
    else accountLoop user page bytes rest

/-- A page of the table of the account. -/
def accountDeletionPage (rows : Rows) (user : String) (after : Option String) :
    Except String (List DeletionRecord × Option String) :=
  accountLoop k user [] 0 ((rows.toList.filter fun row => after.all (· < row.1)).map (·.2))

/-! ## Freezing and saving -/

/-- Records are written under the start of their keys. -/
def saveRecords (start : String) (rows : Rows) (records : List DeletionRecord) :
    Except String Rows :=
  records.foldlM (fun rows record => do
    .ok (rows.insert (start ++ record.storageKey) (← k.recordJson record))) rows

/-- The start of the keys of the journal of an export. -/
def journalStart (start : String) : String := start ++ "\x01journal\x01"

/-- What is left of an older export is deleted, and the deletions that count are written. -/
def freezeJournal (c : DeletionCrypto) (rows : Rows) (start : String)
    (authority : DeletionAuthority) (book : DeletionBook) : Except String Rows :=
  saveRecords k (journalStart start)
    (rows.filter fun key _ => !(start ++ "\x01" ≤ key && key < start ++ "\x02"))
    (book.records.records.filter (authority.counts c))

/-! ## The reader -/

/-- The records come after the previous ones in the order of their keys, and the next cursor is the
    key of the last one. -/
def validateWindow (records : List DeletionRecord) (previous next : Option String) :
    Except String Unit := do
  let last ← records.foldlM (fun (last : Option String) record => do
    check "history journal keys are not ordered" (last.all (· < record.storageKey))
    .ok (some record.storageKey)) previous
  check "history journal makes no progress" (records.length ≤ pageRecords &&
    next.all fun next => !records.isEmpty && last = some next)

/-- The fragment, as it is put together here. -/
def sequential (fragment : Deletion.PageFragment) : PageFragment where
  digest := fragment.digest
  total := fragment.total
  offset := fragment.offset
  bytesB64 := fragment.bytesB64

/-- A fragment is added to the page it belongs to, and gives the page once it is whole. -/
def assemble (current : Option PartialRecord) :
    DeletionMessage → Except String (Option PartialRecord × Option DeletionMessage)
  | .fragment fragment => do
    let (current, bytes) ← PartialRecord.accept k.toFragmentCodec current (sequential fragment)
    match bytes with
    | some bytes => do
      let page ← k.fromSlice bytes
      .ok (current, some page)
    | none => .ok (current, none)
  | page => do
    check "history journal partial missing" current.isNone
    .ok (none, some page)

/-- A page of a journal for the reader, or a fragment of it when it is too large for a frame. -/
def historyJournalPage (room : Room) (rows : Rows) (start : String) (after : Option String)
    (offset : Nat) : Except String DeletionMessage := do
  let (records, next) ← recoveryPage k rows (journalStart start) after
  let bytes ← k.toVec (.state records next)
  if room.pageBytes < bytes.length then
    let f ← fragment k.toFragmentCodec bytes offset
    .ok (.fragment ⟨f.digest, f.offset, f.total, f.bytesB64⟩)
  else do
    check "unexpected journal fragment offset" (offset = 0)
    .ok (.state records next)

/-- The reader asks for as many frames, and has the page if one of them completes it. -/
def deliver (room : Room) (rows : Rows) (start : String) (after : Option String) :
    Nat → Option PartialRecord → Except String (Option DeletionMessage)
  | 0, _ => .ok none
  | n + 1, current => do
    let message ← historyJournalPage k room rows start after (fragmentOffset current)
    let (current, page) ← assemble k current message
    match page with
    | some page => .ok (some page)
    | none => deliver room rows start after n current

/-! ## One way to fill a page -/

variable {k} {c : DeletionCrypto}

variable (k) in
/-- The page that is filled from records, after those that are on it. -/
def filled (page : List DeletionRecord) (bytes : Nat) (records : List DeletionRecord) :
    List DeletionRecord × Option String :=
  let (more, rest) := fill (recordSize k) pageRecords journalPageBytes page.length bytes records
  (page ++ more, if rest.isEmpty then none else
    (page ++ more).getLast?.map DeletionRecord.storageKey)

variable (k) in
theorem filled_nil (page : List DeletionRecord) (bytes : Nat) :
    filled k page bytes [] = (page, none) := by
  simp [filled, fill]

variable (k) in
/-- A record that does not go onto the page ends it. -/
theorem filled_full {page : List DeletionRecord} {bytes : Nat} {record : DeletionRecord}
    (records : List DeletionRecord) (h : page ≠ [] ∧ (pageRecords ≤ page.length ∨
      journalPageBytes < bytes + recordSize k record)) :
    filled k page bytes (record :: records) =
      (page, page.getLast?.map DeletionRecord.storageKey) := by
  have hfull : page.length ≠ 0 ∧ (pageRecords ≤ page.length ∨
      journalPageBytes < bytes + recordSize k record) :=
    ⟨fun hzero => h.1 (List.length_eq_zero_iff.1 hzero), h.2⟩
  rw [filled, fill, if_pos hfull]
  simp

variable (k) in
/-- A record that goes onto the page. -/
theorem filled_cons {page : List DeletionRecord} {bytes : Nat} {record : DeletionRecord}
    (records : List DeletionRecord) (h : ¬ (page ≠ [] ∧ (pageRecords ≤ page.length ∨
      journalPageBytes < bytes + recordSize k record))) :
    filled k page bytes (record :: records) =
      filled k (page ++ [record]) (bytes + recordSize k record) records := by
  have hroom : ¬ (page.length ≠ 0 ∧ (pageRecords ≤ page.length ∨
      journalPageBytes < bytes + recordSize k record)) :=
    fun hfull => h ⟨fun hnil => hfull.1 (List.length_eq_zero_iff.2 hnil), hfull.2⟩
  rw [filled, filled, fill, if_neg hroom, List.length_append, List.length_singleton]
  simp

/-- The pages that are asked for are filled from nothing. -/
theorem filled_eq (items : List DeletionRecord) (after : Option String) :
    filled k [] 0 (itemsAfter DeletionRecord.storageKey items after) =
      pageAfter DeletionRecord.storageKey (recordSize k) pageRecords journalPageBytes items
        after := by
  simp only [filled, pageAfter, List.nil_append, List.length_nil]

theorem recordSize_eq {record : DeletionRecord} {raw : List UInt8}
    (h : k.recordJson record = .ok raw) : recordSize k record = raw.length := by
  rw [recordSize, h]
  rfl

/-- There is room for one more record. -/
theorem length_append_le {page : List DeletionRecord} {large : Prop} (record : DeletionRecord)
    (hpage : page.length ≤ pageRecords)
    (hroom : ¬ (page ≠ [] ∧ (page.length = pageRecords ∨ large))) :
    (page ++ [record]).length ≤ pageRecords := by
  rw [List.length_append, List.length_singleton]
  rcases eq_or_ne page [] with rfl | hne
  · decide
  · exact lt_of_le_of_ne hpage fun heq => hroom ⟨hne, .inl heq⟩

/-- What the loops over a book and over the table of the account do with a record. -/
theorem filled_step {page : List DeletionRecord} (bytes : Nat) (record : DeletionRecord)
    (records : List DeletionRecord) (hpage : page.length ≤ pageRecords) :
    filled k page bytes (record :: records) =
      if page ≠ [] ∧ (page.length = pageRecords ∨
          journalPageBytes < bytes + recordSize k record) then
        (page, page.getLast?.map DeletionRecord.storageKey)
      else filled k (page ++ [record]) (bytes + recordSize k record) records := by
  split
  · next hfull => exact filled_full k records ⟨hfull.1, hfull.2.imp_left Eq.ge⟩
  · next hroom =>
    exact filled_cons k records fun hfull => hroom ⟨hfull.1, hfull.2.imp_left hpage.antisymm⟩

theorem sharedLoop_eq (records : List DeletionRecord) (page : List DeletionRecord) (bytes : Nat)
    (hpage : page.length ≤ pageRecords) :
    sharedLoop k page bytes records = filled k page bytes records := by
  induction records generalizing page bytes with
  | nil => rw [filled_nil, sharedLoop]
  | cons record records ih =>
    rw [sharedLoop, filled_step bytes record records hpage]
    split
    · rfl
    · next hroom => exact ih _ _ (length_append_le record hpage hroom)

/-- The bytes are those of the record. -/
def Written (k : JournalCodec) (raw : List UInt8) (record : DeletionRecord) : Prop :=
  k.recordJson record = .ok raw

theorem accountLoop_eq (hk : k.Lawful c) {user : String} {raws : List (List UInt8)}
    {records : List DeletionRecord} (h : List.Forall₂ (Written k) raws records)
    (page : List DeletionRecord) (bytes : Nat) (hpage : page.length ≤ pageRecords) :
    accountLoop k user page bytes raws =
      .ok (filled k page bytes (records.filter fun record => record.visibleToAccount user)) := by
  induction h generalizing page bytes with
  | nil => rw [List.filter_nil, filled_nil, accountLoop]
  | @cons raw record raws records hraw _ ih =>
    have hparse := hk.parseRecord_recordJson record raw hraw
    rw [accountLoop, hparse, ok_bind]
    by_cases hvisible : record.visibleToAccount user = true
    · have hwritten : k.recordJson record = .ok raw := hraw
      rw [if_pos hvisible, hwritten, ok_bind, List.filter_cons, if_pos hvisible,
        filled_step bytes record _ hpage, recordSize_eq hwritten]
      dsimp only
      split
      · rfl
      · next hroom => exact ih _ _ (length_append_le record hpage hroom)
    · rw [if_neg hvisible, List.filter_cons, if_neg hvisible]
      exact ih page bytes hpage

theorem stripPrefix_append (start rest : String) :
    stripPrefix start (start ++ rest) = some rest := by
  rw [stripPrefix, String.toList_append, if_pos, List.drop_left, String.ofList_toList]
  exact List.isPrefixOf_iff_prefix.2 (List.prefix_append _ _)

/-- The row of a record under the start of its key. -/
def IsRow (k : JournalCodec) (start : String) (row : String × List UInt8)
    (record : DeletionRecord) : Prop :=
  row.1 = start ++ record.storageKey ∧ Written k row.2 record

theorem recoveryLoop_eq (hk : k.Lawful c) {start : String} {rows : List (String × List UInt8)}
    {records : List DeletionRecord} (h : List.Forall₂ (IsRow k start) rows records)
    (page : List DeletionRecord) (bytes : Nat) :
    recoveryLoop k start page bytes (page.getLast?.map DeletionRecord.storageKey) rows =
      .ok (filled k page bytes records) := by
  induction h generalizing page bytes with
  | nil => rw [filled_nil, recoveryLoop]
  | @cons row record rows records hrow _ ih =>
    obtain ⟨key, raw⟩ := row
    obtain ⟨rfl, hraw⟩ : key = start ++ record.storageKey ∧ k.recordJson record = .ok raw := hrow
    have hiff : (pageRecords ≤ page.length ∨ page ≠ [] ∧ journalPageBytes < bytes + raw.length) ↔
        page ≠ [] ∧ (pageRecords ≤ page.length ∨
          journalPageBytes < bytes + recordSize k record) := by
      rw [recordSize_eq hraw]
      have hne : pageRecords ≤ page.length → page ≠ [] := by
        rintro hle rfl
        exact absurd hle (by decide)
      tauto
    rw [recoveryLoop]
    split
    · next hfull => rw [filled_full k records (hiff.1 hfull)]
    · next hroom =>
      have hparse := hk.parseRecord_recordJson record raw hraw
      rw [hparse, ok_bind, stripPrefix_append, filled_cons k records (fun h => hroom (hiff.2 h)),
        ← ih, recordSize_eq hraw, List.getLast?_append]
      rfl

/-! ## The rows of a journal -/

/-- The bytes of a record. -/
def rawOf (k : JournalCodec) (r : DeletionRecord) : List UInt8 := (k.recordJson r).toOption.getD []

/-- The row of a record. -/
def rowOf (k : JournalCodec) (start : String) (r : DeletionRecord) : String × List UInt8 :=
  (start ++ r.storageKey, rawOf k r)

/-- Records are in the order of their keys. -/
def Ordered (records : List DeletionRecord) : Prop := records.Pairwise (·.storageKey < ·.storageKey)

variable {start : String} {rows rows' : Rows} {records : List DeletionRecord}

theorem written_rawOf {r : DeletionRecord} {raw : List UInt8} (h : k.recordJson r = .ok raw) :
    rawOf k r = raw := by
  rw [rawOf, h]
  rfl

/-- What is saved is written. -/
theorem written_of_saveRecords (h : saveRecords k start rows records = .ok rows') :
    ∀ r ∈ records, Written k (rawOf k r) r := by
  induction records generalizing rows with
  | nil => simp
  | cons record records ih =>
    simp only [saveRecords, List.foldlM_cons, bind_eq_ok] at h
    obtain ⟨_, ⟨raw, hraw, _⟩, h⟩ := h
    intro r hr
    rcases List.mem_cons.1 hr with rfl | hr
    · rw [Written, written_rawOf hraw, hraw]
    · exact ih h r hr

/-- The keys of two records are those of their order. -/
theorem append_lt_append_iff (start : String) {a b : String} : start ++ a < start ++ b ↔ a < b := by
  rw [String.lt_iff_toList_lt, String.lt_iff_toList_lt, String.toList_append, String.toList_append]
  generalize start.toList = chars
  constructor
  · intro h
    induction chars with
    | nil => exact h
    | cons ch chars ih => exact ih (by simpa using h)
  · exact List.append_left_lt

theorem append_inj_left (start : String) {a b : String} : start ++ a = start ++ b ↔ a = b := by
  rw [← String.toList_inj, ← String.toList_inj, String.toList_append, String.toList_append,
    List.append_cancel_left_eq]

/-- A row is that of a saved record, or was there before. -/
theorem getElem?_saveRecords (hordered : Ordered records)
    (h : saveRecords k start rows records = .ok rows') (key : String) (raw : List UInt8) :
    rows'[key]? = some raw ↔ (∃ r ∈ records, rowOf k start r = (key, raw)) ∨
      (∀ r ∈ records, start ++ r.storageKey ≠ key) ∧ rows[key]? = some raw := by
  induction records generalizing rows with
  | nil =>
    obtain rfl := Except.ok.inj h
    simp
  | cons record records ih =>
    simp only [saveRecords, List.foldlM_cons, bind_eq_ok, Except.ok.injEq] at h
    obtain ⟨_, ⟨json, hjson, rfl⟩, h⟩ := h
    obtain ⟨hfirst, hrest⟩ := List.pairwise_cons.1 hordered
    rw [ih hrest h, Table.getElem?_insert]
    have hraw := written_rawOf hjson
    by_cases hkey : start ++ record.storageKey = key
    · -- No later record has this key.
      have hlater : ∀ r ∈ records, start ++ r.storageKey ≠ key := by
        intro r hr heq
        exact (hfirst r hr).ne ((append_inj_left start).1 (hkey.trans heq.symm))
      rw [if_pos hkey, Option.some.injEq, ← hraw]
      constructor
      · rintro (⟨r, hr, hrow⟩ | ⟨_, rfl⟩)
        · exact absurd (Prod.mk.inj hrow).1 (hlater r hr)
        · exact .inl ⟨record, List.mem_cons_self, Prod.ext hkey rfl⟩
      · rintro (⟨r, hr, hrow⟩ | ⟨hall, _⟩)
        · rcases List.mem_cons.1 hr with rfl | hr
          · exact .inr ⟨hlater, (Prod.mk.inj hrow).2⟩
          · exact absurd (Prod.mk.inj hrow).1 (hlater r hr)
        · exact absurd hkey (hall record List.mem_cons_self)
    · simp [rowOf, hkey]

/-- The rows of the saved records, when there were no others of their kind. -/
theorem filter_toList_saveRecords (p : String → Bool) (hordered : Ordered records)
    (hnone : ∀ key, p key = true → rows[key]? = none)
    (hp : ∀ r ∈ records, p (start ++ r.storageKey) = true)
    (h : saveRecords k start rows records = .ok rows') :
    rows'.toList.filter (fun row => p row.1) = records.map (rowOf k start) := by
  have hsorted : (rows'.toList.filter fun row => p row.1).Pairwise fun a b => a.1 < b.1 :=
    (ExtTreeMap.ordered_keys_toList.imp fun h => compare_lt_iff_lt.1 h).filter _
  have hsorted' : (records.map (rowOf k start)).Pairwise fun a b => a.1 < b.1 :=
    List.pairwise_map.2 (hordered.imp fun h => (append_lt_append_iff start).2 h)
  have hirrefl : ∀ row : String × List UInt8, ¬ row.1 < row.1 := fun row => lt_irrefl row.1
  refine List.Perm.eq_of_pairwise (fun a b _ _ hab hba => absurd (hab.trans hba) (lt_irrefl _))
    hsorted hsorted' ?_
  refine (List.perm_ext_iff_of_nodup (hsorted.imp fun h heq => ?_)
    (hsorted'.imp fun h heq => ?_)).2 fun row => ?_
  · exact hirrefl _ (heq ▸ h)
  · exact hirrefl _ (heq ▸ h)
  · obtain ⟨key, raw⟩ := row
    rw [List.mem_filter, ExtTreeMap.mem_toList_iff_getElem?_eq_some,
      getElem?_saveRecords hordered h, List.mem_map]
    constructor
    · rintro ⟨hmem | ⟨_, hold⟩, hkey⟩
      · exact hmem
      · rw [hnone key hkey] at hold
        cases hold
    · rintro ⟨r, hr, hrow⟩
      refine ⟨.inl ⟨r, hr, hrow⟩, ?_⟩
      rw [← (Prod.mk.inj hrow).1]
      exact hp r hr

/-- A key that is not at the end of all texts. -/
def Early (key : String) : Prop := key < String.singleton (Char.ofNat 0x10FFFF)

/-- The rows of a range are those of the keys that start with its start. -/
theorem inRange_append {key : String} (h : Early key) :
    (start ≤ start ++ key && start ++ key < endOf start) = true := by
  rw [Bool.and_eq_true, decide_eq_true_eq, decide_eq_true_eq]
  constructor
  · refine not_lt.1 fun hlt => ?_
    rw [String.lt_iff_toList_lt, String.toList_append] at hlt
    exact List.le_append_left hlt
  · exact (append_lt_append_iff start).2 h

/-! ## The pages are those of the journal -/

theorem forall₂_isRow (h : ∀ r ∈ records, Written k (rawOf k r) r) :
    List.Forall₂ (IsRow k start) (records.map (rowOf k start)) records := by
  rw [List.forall₂_map_left_iff, List.forall₂_same]
  exact fun r hr => ⟨rfl, h r hr⟩

/-- The pages of a frozen journal. -/
theorem recoveryPage_eq (hk : k.Lawful c)
    (hrange : rows.range start (endOf start) = records.map (rowOf k start))
    (hwritten : ∀ r ∈ records, Written k (rawOf k r) r) (after : Option String) :
    recoveryPage k rows start after = .ok (pageAfter DeletionRecord.storageKey (recordSize k)
      pageRecords journalPageBytes records after) := by
  have hrows : (rows.range (start ++ after.getD "") (endOf start)).filter (fun row =>
      after.all fun a => row.1 ≠ start ++ a) =
        (itemsAfter DeletionRecord.storageKey records after).map (rowOf k start) := by
    -- The rows after the cursor among all rows of the range.
    have hfilter : (rows.range (start ++ after.getD "") (endOf start)).filter (fun row =>
        after.all fun a => row.1 ≠ start ++ a) =
          (rows.range start (endOf start)).filter fun row =>
            after.all fun a => start ++ a < row.1 := by
      rw [Rows.range, Rows.range, List.filter_filter, List.filter_filter]
      refine List.filter_congr fun row _ => ?_
      cases after with
      | none => simp
      | some a =>
        have hstart : start ≤ start ++ a := by
          refine not_lt.1 fun hlt => ?_
          rw [String.lt_iff_toList_lt, String.toList_append] at hlt
          exact List.le_append_left hlt
        rw [Bool.eq_iff_iff]
        simp only [Option.all_some, Option.getD_some, Bool.and_eq_true, decide_eq_true_eq]
        constructor
        · rintro ⟨hne, hle, hstop⟩
          exact ⟨lt_of_le_of_ne hle (Ne.symm hne), hstart.trans hle, hstop⟩
        · rintro ⟨hlt, _, hstop⟩
          exact ⟨hlt.ne', hlt.le, hstop⟩
    rw [hfilter, hrange, itemsAfter, List.filter_map]
    congr 1
    refine List.filter_congr fun r _ => ?_
    cases after with
    | none => rfl
    | some a => exact decide_eq_decide.2 (append_lt_append_iff start)
  have hforall : List.Forall₂ (IsRow k start)
      ((itemsAfter DeletionRecord.storageKey records after).map (rowOf k start))
        (itemsAfter DeletionRecord.storageKey records after) :=
    forall₂_isRow fun r hr => hwritten r (List.mem_of_mem_filter hr)
  rw [recoveryPage, hrows, ← filled_eq]
  exact recoveryLoop_eq hk hforall [] 0

/-- The pages of the table of the account. -/
theorem accountDeletionPage_eq (hk : k.Lawful c) {user : String}
    (hrows : rows.toList = records.map (rowOf k ""))
    (hwritten : ∀ r ∈ records, Written k (rawOf k r) r) (after : Option String) :
    accountDeletionPage k rows user after = .ok (pageAfter DeletionRecord.storageKey (recordSize k)
      pageRecords journalPageBytes (records.filter fun r => r.visibleToAccount user) after) := by
  have hraws : (rows.toList.filter fun row => after.all (· < row.1)).map (·.2) =
      (itemsAfter DeletionRecord.storageKey records after).map (rawOf k) := by
    rw [hrows, List.filter_map, List.map_map, itemsAfter]
    have hkey (r : DeletionRecord) : (rowOf k "" r).1 = r.storageKey := String.empty_append
    refine congrArg (List.map (rawOf k)) (List.filter_congr fun r _ => ?_)
    rw [Function.comp_apply, hkey]
  have hforall : List.Forall₂ (Written k)
      ((itemsAfter DeletionRecord.storageKey records after).map (rawOf k))
        (itemsAfter DeletionRecord.storageKey records after) := by
    rw [List.forall₂_map_left_iff, List.forall₂_same]
    exact fun r hr => hwritten r (List.mem_of_mem_filter hr)
  rw [accountDeletionPage, hraws, accountLoop_eq hk hforall [] 0 (Nat.zero_le _), ← filled_eq,
    itemsAfter, itemsAfter, List.filter_filter, List.filter_filter]
  simp only [Bool.and_comm]

/-- The rows of a journal are under the keys of their records. -/
def Keyed (journal : Journal) : Prop :=
  ∀ (key : String) (r : DeletionRecord), journal[key]? = some r → r.storageKey = key

theorem Keyed.mem {journal : Journal} (h : Keyed journal) {row : String × DeletionRecord}
    (hrow : row ∈ journal.toList) : row.2.storageKey = row.1 :=
  h row.1 row.2 (ExtTreeMap.mem_toList_iff_getElem?_eq_some.1 hrow)

theorem Keyed.ordered {journal : Journal} (h : Keyed journal) : Ordered journal.records := by
  refine List.pairwise_map.2 ?_
  refine List.Pairwise.imp_of_mem (fun {a b} ha hb hlt => ?_) ExtTreeMap.ordered_keys_toList
  rw [h.mem ha, h.mem hb]
  exact compare_lt_iff_lt.1 hlt

/-- The pages of a book. -/
theorem sharedPage_eq {book : Journal} (hbook : Keyed book) (authority : DeletionAuthority)
    (after : Option String) :
    sharedPage k c book after authority =
      .state (pageAfter DeletionRecord.storageKey (recordSize k) pageRecords journalPageBytes
        (book.records.filter (authority.counts c)) after).1
      (pageAfter DeletionRecord.storageKey (recordSize k) pageRecords journalPageBytes
        (book.records.filter (authority.counts c)) after).2 := by
  have hrows : (book.toList.filter fun row => authority.counts c row.2 && after.all (· < row.1)).map
      (·.2) = itemsAfter DeletionRecord.storageKey (book.records.filter (authority.counts c))
        after := by
    rw [itemsAfter, List.filter_filter, Deletion.Journal.records, List.filter_map]
    congr 1
    refine List.filter_congr fun row hrow => ?_
    simp only [Function.comp_apply, hbook.mem hrow, Bool.and_comm]
  rw [sharedPage, hrows, sharedLoop_eq _ _ _ (Nat.zero_le _), filled_eq]

/-! ## What the reader sees -/

/-- Records in order pass the check of their order. -/
theorem foldlM_ordered {last : Option String} (hordered : Ordered records)
    (hlast : ∀ r ∈ records, last.all (· < r.storageKey) = true) :
    records.foldlM (fun (last : Option String) record => do
      check "history journal keys are not ordered" (last.all (· < record.storageKey))
      .ok (some record.storageKey)) last =
        .ok ((records.getLast?.map DeletionRecord.storageKey).or last) := by
  induction records generalizing last with
  | nil => rfl
  | cons record records ih =>
    obtain ⟨hfirst, hrest⟩ := List.pairwise_cons.1 hordered
    have hcheck : check "history journal keys are not ordered"
        (last.all (· < record.storageKey)) = .ok () :=
      check_eq_ok.2 (hlast record List.mem_cons_self)
    have hnext : ∀ r ∈ records, (some record.storageKey).all (· < r.storageKey) = true :=
      fun r hr => decide_eq_true (hfirst r hr)
    rw [List.foldlM_cons, hcheck, ok_bind, ok_bind, ih hrest hnext, List.getLast?_cons]
    cases records.getLast? <;> rfl

/-- The reader admits a page that follows its cursor. -/
theorem validateWindow_of_fits {w : Window DeletionRecord String}
    (h : Fits DeletionRecord.storageKey pageRecords records w) :
    validateWindow w.items w.after w.next = .ok () := by
  rw [validateWindow, foldlM_ordered h.ordered h.after_lt, ok_bind, check_eq_ok, Bool.and_eq_true,
    decide_eq_true_eq]
  refine ⟨h.length_le, ?_⟩
  rcases h.next_eq with ⟨_, hnext⟩ | ⟨hne, _, hnext⟩
  · rw [hnext, Option.all_none]
  · rw [hnext, List.getLast?_eq_some_getLast hne]
    simp [hne]

theorem pageBytes_le (room : Room) : room.pageBytes ≤ maxRecord := by
  cases room <;> decide

section Deliver

variable {room : Room} {after next : Option String} {page : List DeletionRecord}
  {bytes : List UInt8}

/-- A page that is too large for a frame, from its next fragment on. The induction is on the number
    of fragments that are missing. -/
theorem deliver_held (hk : k.Lawful c)
    (hpage : recoveryPage k rows (journalStart start) after = .ok (page, next))
    (hbytes : k.toVec (.state page next) = .ok bytes) (hlarge : room.pageBytes < bytes.length)
    (hmax : bytes.length ≤ maxRecord) (d n : Nat) (hn : n < bytes.length)
    (hchunk : n % chunk = 0) (hd : bytes.length ≤ n + d * chunk) :
    ∃ frames, deliver k room rows start after frames (held k.toFragmentCodec bytes n) =
      .ok (some (.state page next)) := by
  induction d generalizing n with
  | zero => omega
  | succ d ih =>
    have hne : bytes ≠ [] := fun hnil => by
      rw [hnil] at hn
      exact Nat.not_lt_zero _ hn
    have hfragment := fragment_eq_ok (c := k.toFragmentCodec) hne hmax hn hchunk
    have hlawful := hk.pages.toLawful
    have haccept := accept_fragment hlawful hn.le hfragment
    -- The frame that is asked for, and what the reader makes of it.
    have hframe : historyJournalPage k room rows start after
        (fragmentOffset (held k.toFragmentCodec bytes n)) = .ok (.fragment
          ⟨k.sha256 bytes, n, bytes.length, k.encode ((bytes.drop n).take chunk)⟩) := by
      rw [fragmentOffset_held hn.le, historyJournalPage, hpage, ok_bind]
      dsimp only
      rw [hbytes, ok_bind, if_pos hlarge, hfragment, ok_bind]
    by_cases hmore : n + chunk < bytes.length
    · rw [if_pos hmore] at haccept
      have hle : bytes.length ≤ n + chunk + d * chunk := by
        rw [Nat.succ_mul] at hd
        omega
      have hmod : (n + chunk) % chunk = 0 := by rw [Nat.add_mod_right, hchunk]
      obtain ⟨frames, hframes⟩ := ih (n + chunk) hmore hmod hle
      refine ⟨frames + 1, ?_⟩
      rw [deliver, hframe, ok_bind]
      simp only [assemble, sequential]
      rw [haccept, ok_bind]
      simp only [ok_bind]
      exact hframes
    · rw [if_neg hmore] at haccept
      refine ⟨1, ?_⟩
      rw [deliver, hframe, ok_bind]
      simp only [assemble, sequential]
      rw [haccept, ok_bind]
      simp only [hk.pages.fromSlice_toVec _ _ hbytes, ok_bind]

/-- A page is delivered when it is no larger than a record may be. -/
theorem deliver_iff (hk : k.Lawful c)
    (hpage : recoveryPage k rows (journalStart start) after = .ok (page, next))
    (hbytes : k.toVec (.state page next) = .ok bytes) :
    (∃ frames, deliver k room rows start after frames none = .ok (some (.state page next))) ↔
      bytes.length ≤ maxRecord := by
  constructor
  · rintro ⟨frames, hframes⟩
    by_contra hmax
    have hlarge : room.pageBytes < bytes.length := (pageBytes_le room).trans_lt (not_le.1 hmax)
    cases frames with
    | zero => cases hframes
    | succ frames =>
      -- The source refuses the first fragment.
      have hrefused : fragment k.toFragmentCodec bytes 0 =
          .error "history fragment exceeds bounded record" :=
        if_pos (.inr (.inl (not_le.1 hmax)))
      rw [deliver, historyJournalPage, hpage, ok_bind] at hframes
      dsimp only at hframes
      rw [hbytes, ok_bind, if_pos hlarge, fragmentOffset, Option.map_none, Option.getD_none,
        hrefused] at hframes
      cases hframes
  · intro hmax
    by_cases hlarge : room.pageBytes < bytes.length
    · refine deliver_held hk hpage hbytes hlarge hmax bytes.length 0 (by omega) rfl ?_
      rw [Nat.zero_add]
      exact Nat.le_mul_of_pos_right _ (by decide)
    · refine ⟨1, ?_⟩
      rw [deliver, historyJournalPage, hpage, ok_bind]
      dsimp only
      rw [hbytes, ok_bind, if_neg hlarge]
      rfl

end Deliver

/-- The values of written records. -/
theorem mapM_recordJson (hwritten : ∀ r ∈ records, Written k (rawOf k r) r) :
    records.mapM k.recordJson = .ok (records.map (rawOf k)) := by
  induction records with
  | nil => rfl
  | cons record records ih =>
    have hfirst : k.recordJson record = .ok (rawOf k record) := hwritten record List.mem_cons_self
    rw [List.mapM_cons, hfirst, ih fun r hr => hwritten r (List.mem_cons_of_mem _ hr)]
    rfl

/-- The digest of a journal that was written row by row is that of the book. -/
theorem recoverySequenceDigest_eq (hk : k.Lawful c) {book : Journal} {authority : DeletionAuthority}
    (hrecords : records = book.records.filter (authority.counts c))
    (hrange : rows.range start (endOf start) = records.map (rowOf k start))
    (hwritten : ∀ r ∈ records, Written k (rawOf k r) r) :
    Deletion.digest c authority book = .ok (recoverySequenceDigest k rows start) := by
  have hraws : (records.map (rowOf k start)).map (·.2) = records.map (rawOf k) := by
    rw [List.map_map]
    rfl
  rw [Deletion.digest, ← hrecords, hk.recordsJson_eq, mapM_recordJson hwritten, ok_bind, ok_bind,
    recoverySequenceDigest, hrange, hraws, hk.sha256_eq]
  rfl

/-! ## From the first page to the last -/

/-- The first pages, one after the other, end, and they are the records in the order of their keys,
    each of them once; each page follows the cursor it was asked for, has a next cursor when there
    are more records, namely its last key, and passes the check of the reader. -/
def Walked (page : Option String → Except String (List DeletionRecord × Option String))
    (records : List DeletionRecord) : Prop :=
  (∃ windows, Walk page none windows) ∧ Ordered records ∧ ∀ windows, Walk page none windows →
    windows.flatMap Window.items = records ∧ ∀ w ∈ windows,
      Fits DeletionRecord.storageKey pageRecords records w ∧
        validateWindow w.items w.after w.next = .ok ()

theorem walked_of_pages
    {page : Option String → Except String (List DeletionRecord × Option String)}
    (hordered : Ordered records)
    (hpage : ∀ after, page after = .ok (pageAfter DeletionRecord.storageKey (recordSize k)
      pageRecords journalPageBytes records after)) : Walked page records := by
  obtain ⟨windows, hwalk, hitems, hfits⟩ :=
    Paging.exists_walk (by decide : 0 < pageRecords) hordered hpage none
  refine ⟨⟨windows, hwalk⟩, hordered, fun other hother => ?_⟩
  obtain rfl := hwalk.unique hother
  have hall : itemsAfter DeletionRecord.storageKey records none = records :=
    List.filter_eq_self.2 fun _ _ => rfl
  exact ⟨hitems.trans hall, fun w hw => ⟨hfits w hw, validateWindow_of_fits (hfits w hw)⟩⟩

/-- The records of a page of a book. -/
def stateOf : DeletionMessage → Except String (List DeletionRecord × Option String)
  | .state records next => .ok (records, next)
  | _ => .error "no page"

/-- What holds of the records that are merged holds of the rows of the journal. -/
theorem foldl_merge_rows {P : String → DeletionRecord → Prop} {journal : Journal}
    (hmerged : ∀ r ∈ records, P r.storageKey r)
    (hjournal : ∀ (key : String) (r : DeletionRecord), journal[key]? = some r → P key r)
    (key : String) (r : DeletionRecord)
    (h : (records.foldl Deletion.mergeDeletionRow journal)[key]? = some r) : P key r := by
  induction records generalizing journal with
  | nil => exact hjournal key r h
  | cons incoming records ih =>
    refine ih (fun r hr => hmerged r (List.mem_cons_of_mem _ hr)) (fun key r hr => ?_) h
    rw [Deletion.getElem?_mergeDeletionRow] at hr
    split at hr
    · next heq =>
      subst heq
      obtain rfl := Option.some.inj hr
      have hincoming := hmerged incoming List.mem_cons_self
      rw [Deletion.mergedRow]
      split
      · next current hcurrent =>
        -- One of the two records stays.
        rcases DeletionRecord.merged_eq_or current incoming with hleft | hright
        · rw [hleft]
          exact hjournal _ _ hcurrent
        · rwa [hright]
      · exact hincoming
    · exact hjournal key r hr

/-- A journal of merged records has each of its records under its key. -/
theorem keyed_journalOf (merged : List DeletionRecord) : Keyed (Deletion.journalOf merged) :=
  foldl_merge_rows (fun _ _ => rfl) fun _ _ hnone => by cases hnone

/-- The keys of a conversation start with its kind. -/
theorem early_storageKey {book : DeletionBook} {r : DeletionRecord} (h : r.context = book.context) :
    Early r.storageKey := by
  rw [Early, DeletionRecord.storageKey, h, DeletionBook.context, String.lt_iff_toList_lt]
  simp only [String.toList_append]
  cases book.kind <;> exact .rel (by decide)

/-- Nothing of an older export is left where the journal is written. -/
theorem getElem?_of_range {key : String}
    (h : (journalStart start ≤ key && key < endOf (journalStart start)) = true) :
    (rows.filter fun key _ => !(start ++ "\x01" ≤ key && key < start ++ "\x02"))[key]? = none := by
  rw [Bool.and_eq_true, decide_eq_true_eq, decide_eq_true_eq] at h
  have hlow : start ++ "\x01" ≤ key := by
    refine le_trans (not_lt.1 fun hlt => ?_) h.1
    rw [journalStart, append_lt_append_iff] at hlt
    exact absurd hlt (by decide)
  have hhigh : key < start ++ "\x02" := by
    refine h.2.trans ?_
    rw [endOf, journalStart, String.append_assoc, append_lt_append_iff]
    decide
  rw [ExtTreeMap.getElem?_filter', Option.filter_eq_none_iff]
  intro raw _
  simp [hlow, hhigh]

/-- The rows that are saved where there were none. -/
theorem range_saveRecords (hordered : Ordered records)
    (hnone : ∀ key, (start ≤ key && key < endOf start) = true → rows[key]? = none)
    (hearly : ∀ r ∈ records, Early r.storageKey)
    (h : saveRecords k start rows records = .ok rows') :
    rows'.range start (endOf start) = records.map (rowOf k start) :=
  filter_toList_saveRecords (fun key => start ≤ key && key < endOf start) hordered hnone
    (fun r hr => inRange_append (hearly r hr)) h

/-- Deletions are handed over completely. The pages of a book, of its frozen copy and of the table
    of the account are its records in the order of their keys, and every page passes the check of
    the reader. A page of the frozen copy is delivered when it is no larger than a record may be,
    and the digest of what the reader got is that of the book. -/
theorem journals_walked (hk : k.Lawful c) {book : DeletionBook} (hbook : Keyed book.records)
    (hcontext : ∀ r ∈ book.records.records, r.context = book.context)
    (authority : DeletionAuthority) :
    Walked (fun after => stateOf (sharedPage k c book.records after authority))
        (book.records.records.filter (authority.counts c)) ∧
      (∀ user (account : Journal) rows, Keyed account →
        saveRecords k "" ∅ account.records = .ok rows →
          Walked (accountDeletionPage k rows user)
            (account.records.filter fun r => r.visibleToAccount user)) ∧
      ∀ rows start frozen, freezeJournal k c rows start authority book = .ok frozen →
        Walked (recoveryPage k frozen (journalStart start))
            (book.records.records.filter (authority.counts c)) ∧
          (∀ room after page next bytes,
            recoveryPage k frozen (journalStart start) after = .ok (page, next) →
              k.toVec (.state page next) = .ok bytes →
                ((∃ frames, deliver k room frozen start after frames none =
                  .ok (some (.state page next))) ↔ bytes.length ≤ maxRecord)) ∧
          ∀ windows reader request saved,
            Walk (recoveryPage k frozen (journalStart start)) none windows →
              (∀ key, (request ≤ key && key < endOf request) = true → reader[key]? = none) →
                saveRecords k request reader (windows.flatMap Window.items) = .ok saved →
                  Deletion.digest c authority book.records =
                    .ok (recoverySequenceDigest k saved request) := by
  have hordered : Ordered (book.records.records.filter (authority.counts c)) :=
    hbook.ordered.filter _
  have hearly : ∀ r ∈ book.records.records.filter (authority.counts c), Early r.storageKey :=
    fun r hr => early_storageKey (hcontext r (List.mem_of_mem_filter hr))
  refine ⟨walked_of_pages (k := k) hordered fun after => ?_,
    fun user account rows hkeyed hrows => ?_, fun rows start frozen hfrozen => ?_⟩
  · rw [sharedPage_eq hbook]
    rfl
  · have haccount := hkeyed.ordered
    have hall := filter_toList_saveRecords (fun _ => true) haccount (fun _ _ => rfl)
      (fun _ _ => rfl) hrows
    rw [List.filter_true] at hall
    exact walked_of_pages (k := k) (haccount.filter _)
      (accountDeletionPage_eq hk hall (written_of_saveRecords hrows))
  · have hwritten := written_of_saveRecords hfrozen
    have hrange := range_saveRecords hordered (fun _ => getElem?_of_range) hearly hfrozen
    have hwalked := walked_of_pages (k := k) hordered (recoveryPage_eq hk hrange hwritten)
    refine ⟨hwalked, fun _ _ _ _ _ hpage hbytes => deliver_iff hk hpage hbytes,
      fun windows reader request saved hwalk hnone hsaved => ?_⟩
    rw [(hwalked.2.2 windows hwalk).1] at hsaved
    exact recoverySequenceDigest_eq hk rfl (range_saveRecords hordered hnone hearly hsaved) hwritten

/-! ## Records at the limit -/

namespace Text

open Conversation.Text (bool scope status origin)
open Deletion

def request : Format DeleteRequest :=
  (Format.text.pair (origin.pair (Format.text.pair (Format.text.pair (bool.pair (Format.nat.pair
    (Format.text.pair Format.text.option))))))).through
    (fun q => (q.operation, q.target, q.actor, q.actorName, q.moderated, q.epoch, q.signature,
      q.ownership))
    (fun (a, b, d, e, f, g, i, j) => some ⟨a, b, d, e, f, g, i, j⟩) fun _ => rfl

def acknowledgement : Format DeleteAck :=
  (Format.text.pair (Format.text.pair (Format.text.pair Format.text.option))).through
    (fun q => (q.requestDigest, q.actor, q.signature, q.ownership))
    (fun (a, b, d, e) => some ⟨a, b, d, e⟩) fun _ => rfl

/-- A deletion, field after field. -/
def record : Format DeletionRecord :=
  (Format.text.pair (Format.text.pair (Format.text.option.pair (scope.pair (Format.text.pair
    (bool.pair (status.pair (Format.text.option.pair (request.option.pair
      acknowledgement.option))))))))).through
    (fun r => (r.context, r.key, r.personalCorrelation, r.scope, r.owner, r.localOnly, r.status,
      r.administrator, r.request, r.acknowledgement))
    (fun (a, b, d, e, f, g, i, j, l, m) => some ⟨a, b, d, e, f, g, i, j, l, m⟩) fun _ => rfl

/-- A page, as its records and its cursor. -/
def page : Format (List DeletionRecord × Option String) := record.list.pair Format.text.option

end Text

/-- Records and pages as texts. -/
def plainJournal : JournalCodec where
  toFragmentCodec := Deletion.FragmentBuffer.plainPages.toFragmentCodec
  toVec
    | .state records next => .ok (Text.page.encode (records, next))
    | _ => .error "not written"
  fromSlice bytes := ((Text.page.decode bytes).map fun page => .ok (.state page.1 page.2)).getD
    (.error "invalid page")
  recordJson r := .ok (Text.record.encode r)
  parseRecord bytes := ((Text.record.decode bytes).map Except.ok).getD (.error "invalid record")

/-- The same records, with the signatures of a small conversation. -/
def journalCrypto : DeletionCrypto :=
  { Deletion.plainCrypto with
    sha256 := plainJournal.sha256
    recordsJson records := do
      let values ← records.mapM plainJournal.recordJson
      .ok (sequenceJson values) }

theorem plainJournal_lawful : plainJournal.Lawful journalCrypto where
  toLawful := Deletion.FragmentBuffer.plainPages_lawful.toLawful
  fromSlice_toVec m bytes h := by
    cases m with
    | state records next =>
      obtain rfl := Except.ok.inj h
      change ((Text.page.decode (Text.page.encode (records, next))).map _).getD _ = _
      rw [Format.decode_encode]
      rfl
    | fragment => cases h
    | request => cases h
    | ack => cases h
  parseRecord_recordJson r bytes h := by
    obtain rfl := Except.ok.inj h
    change ((Text.record.decode (Text.record.encode r)).map _).getD _ = _
    rw [Format.decode_encode]
    rfl
  sha256_eq := rfl
  recordsJson_eq _ := rfl

/-- Alice deletes her message for everyone; the proof of her account has `n` characters. -/
def withProof (n : Nat) : DeletionRecord where
  context := "dm:1"
  key := "m"
  personalCorrelation := none
  scope := .forEveryone
  owner := ""
  localOnly := false
  status := .pending
  administrator := none
  request := some
    { operation := "delete", actor := "alice", actorName := "Alice", moderated := false, epoch := 0
      signature := "", ownership := none
      target := { conversation := "dm:1", id := "m", contentHash := "", author := "alice"
                  signature := "", ownership := some (String.ofList (List.replicate n 'x')) } }
  acknowledgement := none

/-- The conversation of Alice. -/
def aliceAuthority : DeletionAuthority where
  localActor := { key := "alice", name := "Alice", epoch := 0, ownership := none }
  members := {"alice"}
  admins := ∅
  accepted := ∅
  accounts _ := none
  own := { accounts := fun _ => none, revoked := ∅ }
  publicChannel := false

def aliceBook (n : Nat) : DeletionBook where
  kind := .dm
  conversationId := "1"
  records := Deletion.journalOf [withProof n]
  accepted := ∅

theorem counts_withProof (n : Nat) : aliceAuthority.counts journalCrypto (withProof n) = true := rfl

theorem records_aliceBook (n : Nat) : (aliceBook n).records.records = [withProof n] := by
  have hperm : (aliceBook n).records.toList.Perm
      [((withProof n).storageKey, Deletion.mergedRow ∅ (withProof n))] :=
    Table.perm_toList_insert ∅ (withProof n).storageKey (Deletion.mergedRow ∅ (withProof n))
  have hmerged : Deletion.mergedRow ∅ (withProof n) = withProof n := rfl
  rw [Deletion.Journal.records, List.perm_singleton.1 hperm, hmerged]
  rfl

theorem eligible_withProof (n : Nat) :
    (aliceBook n).records.records.filter (aliceAuthority.counts journalCrypto) = [withProof n] := by
  rw [records_aliceBook]
  exact List.filter_cons_of_pos (counts_withProof n)

theorem length_text (s : String) : (Format.text.write s).length = 2 * s.toList.length + 1 := by
  change (s.toList.flatMap (fun c => ['1', c]) ++ ['0']).length = _
  rw [List.length_append, List.length_flatMap, List.length_singleton]
  simp [Nat.mul_comm]

/-- A record takes two characters for each one of the proof. -/
theorem length_withProof (n : Nat) : (Text.record.write (withProof n)).length =
    (Text.record.write (withProof 0)).length + 2 * n := by
  have hproof : (Format.text.write (String.ofList (List.replicate n 'x'))).length = 2 * n + 1 := by
    rw [length_text, String.toList_ofList, List.length_replicate]
  have hnone : (Format.text.write (String.ofList (List.replicate 0 'x'))).length = 1 := by
    rw [length_text, String.toList_ofList, List.length_replicate]
  simp only [Text.record, Text.request, Conversation.Text.origin, Format.through, Format.pair,
    Format.option, withProof, List.length_append, List.length_cons]
  omega

theorem length_encode {α : Type} (f : Format α) (a : α) :
    (f.encode a).length = 3 * (f.write a).length := by
  rw [Format.encode, Format.toBytes, List.length_flatMap]
  simp [Nat.mul_comm]

/-- The frozen copy of the book. -/
theorem exists_frozen (n : Nat) : ∃ frozen,
    freezeJournal plainJournal journalCrypto ∅ "s" aliceAuthority (aliceBook n) = .ok frozen ∧
      recoveryPage plainJournal frozen (journalStart "s") none = .ok ([withProof n], none) := by
  have heligible := eligible_withProof n
  have hfrozen : ∃ frozen, freezeJournal plainJournal journalCrypto ∅ "s" aliceAuthority
      (aliceBook n) = .ok frozen := by
    rw [freezeJournal, heligible]
    exact ⟨_, rfl⟩
  obtain ⟨frozen, hfrozen⟩ := hfrozen
  have hsaved := hfrozen
  rw [freezeJournal, heligible] at hsaved
  have hearly : ∀ r ∈ [withProof n], Early r.storageKey := fun r hr => by
    obtain rfl := List.mem_singleton.1 hr
    have hcontext : (withProof n).context = (aliceBook n).context := rfl
    exact early_storageKey hcontext
  have hrange := range_saveRecords (List.pairwise_singleton _ _) (fun _ => getElem?_of_range) hearly
    hsaved
  have hpage := recoveryPage_eq plainJournal_lawful hrange (written_of_saveRecords hsaved) none
  exact ⟨frozen, hfrozen, hpage⟩

theorem length_record (n : Nat) : (Text.record.encode (withProof n)).length = 258 + 6 * n := by
  have hbase : (Text.record.write (withProof 0)).length = 86 := by decide +kernel
  rw [length_encode, length_withProof, hbase]
  omega

/-- A page takes nine bytes more than its record. -/
theorem length_page (n : Nat) : (Text.page.encode ([withProof n], none)).length =
    (Text.record.encode (withProof n)).length + 9 := by
  have hwrite : (Text.page.write ([withProof n], none)).length =
      (Text.record.write (withProof n)).length + 3 := by
    simp [Text.page, Format.pair, Format.list, Format.option]
  rw [length_encode, length_encode, hwrite]
  omega

theorem deliver_ne {frozen : Rows} {n : Nat} (hn : maxRecord < 267 + 6 * n)
    (hpage : recoveryPage plainJournal frozen (journalStart "s") none = .ok ([withProof n], none))
    (room : Room) (frames : Nat) : deliver plainJournal room frozen "s" none frames none ≠
      .ok (some (.state [withProof n] none)) := by
  intro hframes
  have hbytes : plainJournal.toVec (.state [withProof n] none) =
      .ok (Text.page.encode ([withProof n], none)) := rfl
  have hmax := (deliver_iff plainJournal_lawful hpage hbytes).1 ⟨frames, hframes⟩
  rw [length_page, length_record] at hmax
  omega

/-- A record that is no larger than a record may be is not delivered when its page is larger. -/
theorem large_record_not_delivered : ∃ n bytes frozen,
    plainJournal.recordJson (withProof n) = .ok bytes ∧ bytes.length ≤ maxRecord ∧
    freezeJournal plainJournal journalCrypto ∅ "s" aliceAuthority (aliceBook n) = .ok frozen ∧
      recoveryPage plainJournal frozen (journalStart "s") none = .ok ([withProof n], none) ∧
        ∀ room frames, deliver plainJournal room frozen "s" none frames none ≠
          .ok (some (.state [withProof n] none)) := by
  obtain ⟨n, hn⟩ : ∃ n, n = 43647 := ⟨_, rfl⟩
  obtain ⟨frozen, hfrozen, hpage⟩ := exists_frozen n
  have hlarge : maxRecord < 267 + 6 * n := by rw [hn]; decide
  refine ⟨n, _, frozen, rfl, ?_, hfrozen, hpage, deliver_ne hlarge hpage⟩
  rw [length_record, hn]
  decide

/-- A book with one deletion is handed over. -/
theorem journals_walked_single :
    Walked (fun after => stateOf (sharedPage plainJournal journalCrypto (aliceBook 3).records after
      aliceAuthority)) [withProof 3] := by
  have hcontext : ∀ r ∈ (aliceBook 3).records.records, r.context = (aliceBook 3).context := by
    intro r hr
    rw [records_aliceBook, List.mem_singleton] at hr
    rw [hr]
    rfl
  have hkeyed : Keyed (aliceBook 3).records := keyed_journalOf [withProof 3]
  have hwalked := (journals_walked plainJournal_lawful hkeyed hcontext aliceAuthority).1
  rwa [eligible_withProof] at hwalked

end Mosh.Recovery
