import Mosh.Library.Base64
import Mosh.Recovery.Fragment

/-!
# Pages of a frozen history

A reader recovers the history of a channel or a group from a source that has frozen the
keys of its rows (`history/source_pages.rs`, `history/import.rs`). The reader pulls page
after page, and the source cuts each page from the rows as they are now: a row may have
been erased since, which leaves a record that is erased too. A reader in the middle of the
fragments of a record then gets the erased one instead.

* `channelContentPage`, `groupContentPage`: the page for a pull;
* `importHistory`: what the reader does with a page;
* `InStep`: the reader is where the source thinks it is, and holds the beginning of the
  record at its cursor, as it is or as it was;
* `exchange_current`: without an erasure in between, every pull makes progress;
* `erasure_advances_iff`: when a pull makes progress in general, and that a reader whose
  pulls all do gets every record once;
* `erasure_stalls`: a record that is erased while it is read and has a short successor
  stops the recovery of a channel.
-/

namespace Mosh.Recovery

variable {R Row : Type}

/-! ## The source -/

/-- How records are written, and which of them are erased. -/
structure RecordCodec (R : Type) extends FragmentCodec where
  serialize : R → List UInt8
  deserialize : List UInt8 → Except String R
  erased : R → Bool

/-- What is written can be read, and is not empty. -/
structure RecordCodec.Lawful (c : RecordCodec R) : Prop extends
    FragmentCodec.Lawful c.toFragmentCodec where
  deserialize_serialize (r : R) : c.deserialize (c.serialize r) = .ok r
  serialize_ne_nil (r : R) : c.serialize r ≠ []

structure HistoryKey where
  messageId : String
  sentAtMs : Nat
  digest : String
  deriving DecidableEq, Repr

/-- A key of the export, with the row it stands for. -/
structure FrozenKey where
  key : HistoryKey
  rowKey : String
  deriving DecidableEq, Repr

/-- The rows of a channel: the record of a row, unless it is erased, the erased record, and
    the digest that either one is bound to. -/
structure ChannelRows (Row R : Type) where
  fromStored : Row → Option R
  erasedHistoryRecord : Row → String → Except String R
  bindingDigest : R → Except String String

/-- The rows of a group: whether a row is erased, its key, and its record in either case. -/
structure GroupRows (Row R : Type) where
  isErased : Row → Bool
  key : Row → Except String (Option HistoryKey)
  retainedHistoryRecord : Row → Except String R
  recordHash : R → String
  sentAtMs : R → Nat

/-- The record at an index of the export of a channel. -/
def ChannelRows.frozenHistoryRecord (s : ChannelRows Row R) (keys : Nat → Option FrozenKey)
    (rows : String → Option Row) (index : Nat) : Except String R := do
  let key ← Checked.getOr "frozen history key missing" (keys index)
  let row ← Checked.getOr "history row unavailable" (rows key.rowKey)
  let record ← (s.fromStored row).elim (s.erasedHistoryRecord row key.key.digest) .ok
  let digest ← s.bindingDigest record
  Checked.check "frozen history record changed" (digest = key.key.digest)
  return record

/-- The record at an index of the export of a group. -/
def GroupRows.frozenHistoryRecord (s : GroupRows Row R) (keys : Nat → Option FrozenKey)
    (rows : String → Option Row) (index : Nat) : Except String R := do
  let key ← Checked.getOr "frozen group history key missing" (keys index)
  let row ← Checked.getOr "group history row unavailable" (rows key.rowKey)
  if s.isErased row then
    let erased ← s.retainedHistoryRecord row
    Checked.check "erased frozen group binding differs"
      (s.recordHash erased = key.key.digest && s.sentAtMs erased = key.key.sentAtMs)
    return erased
  else
    let actual ← s.key row
    Checked.check "frozen group history record changed" (actual = some key.key)
    s.retainedHistoryRecord row

/-- What a pull says about content. -/
structure HistoryPull where
  manifest : String
  offset : Nat
  fragmentOffset : Nat

structure HistoryPage (R : Type) where
  manifest : String
  total : Nat
  offset : Nat
  records : List R
  fragment : Option PageFragment

/-- The bytes of records on a page, of a channel and of a group. -/
def channelPageBytes : Nat := 24000
def groupPageBytes : Nat := 8000

/-- The indices that a page may cover. -/
def pageIndices (offset total : Nat) : List Nat :=
  List.range' offset (min total (offset + pageRecords) - offset)

section Source

variable (c : RecordCodec R) (record : Nat → Except String R)

/-- Put records on a page while they fit. A first one that does not fit gives a fragment.
    An offset is only admitted where the records are erased. -/
def channelLoop (offset : Nat) :
    List Nat → List R → Nat → Except String (List R × Option PageFragment)
  | [], records, _ => .ok (records, none)
  | index :: indices, records, bytes => do
    let r ← record index
    if channelPageBytes < bytes + (c.serialize r).length then
      if records.isEmpty then return (records, some (← fragment c.toFragmentCodec (c.serialize r) offset))
      else return (records, none)
    else if offset ≠ 0 ∧ c.erased r = false then .error "unexpected history fragment offset"
    else channelLoop offset indices (records ++ [r]) (bytes + (c.serialize r).length)

def channelContentPage (total : Nat) (pull : HistoryPull) : Except String (HistoryPage R) := do
  let (records, fragment) ←
    channelLoop c record pull.fragmentOffset (pageIndices pull.offset total) [] 0
  return ⟨pull.manifest, total, pull.offset, records, fragment⟩

/-- The same for a group. An erased record that the reader does not hold a beginning of is
    given from its start, and the flag says so. -/
def groupLoop (offset : Nat) (partialDigest : Option String) :
    List Nat → List R → Nat → Except String (List R × Option PageFragment × Bool)
  | [], records, _ => .ok (records, none, false)
  | index :: indices, records, bytes => do
    let r ← record index
    if groupPageBytes < bytes + (c.serialize r).length then
      if records.isEmpty then
        let reset := c.erased r && partialDigest ≠ some (c.sha256 (c.serialize r))
        return (records,
          some (← fragment c.toFragmentCodec (c.serialize r) (if reset then 0 else offset)),
          reset && offset ≠ 0)
      else return (records, none, false)
    else if offset ≠ 0 then .error "unexpected history fragment offset"
    else groupLoop offset partialDigest indices (records ++ [r]) (bytes + (c.serialize r).length)

def groupContentPage (total : Nat) (pull : HistoryPull) (partialDigest : Option String) :
    Except String (HistoryPage R × Bool) := do
  let (records, fragment, erasedReset) ←
    groupLoop c record pull.fragmentOffset partialDigest (pageIndices pull.offset total) [] 0
  return (⟨pull.manifest, total, pull.offset, records, fragment⟩, erasedReset)

end Source

/-! ## The reader -/

/-- The two kinds of rooms. -/
inductive Room
  | channel | group
  deriving DecidableEq, Repr

/-- How the texts of errors name the history. -/
def Room.history : Room → String
  | .channel => "history"
  | .group => "group history"

def Room.pageBytes : Room → Nat
  | .channel => channelPageBytes
  | .group => groupPageBytes

/-- The progress of a reader, and what it got so far. -/
structure Reader (R : Type) where
  progress : HistoryCursor
  partialRecord : Option PartialRecord
  delivered : List R

section Import

variable (c : RecordCodec R) (room : Room)

/-- The records of a page: those on it, or the one that its fragment completes. -/
def assembleRecords (current : Option PartialRecord) (records : List R)
    (fragment : Option PageFragment) : Except String (Option PartialRecord × List R) :=
  match fragment with
  | some fragment =>
    if records.isEmpty then do
      let (next, whole) ← PartialRecord.accept c.toFragmentCodec current fragment
      match whole with
      | some bytes => return (next, [← c.deserialize bytes])
      | none => return (next, [])
    else .error ("mixed " ++ room.history ++ " fragment")
  | none =>
    match current, records with
    | none, records => .ok (none, records)
    | some _, [r] =>
      if c.erased r then .ok (none, [r])
      else .error (room.history ++ " partial record missing")
    | some _, _ => .error (room.history ++ " partial record missing")

/-- Take a page of the request. The flag tells that the fragment starts an erased record; a
    channel does not have it. What is verified of the records themselves is left out. -/
def importHistory (reader : Reader R) (request : String) (page : HistoryPage R)
    (erasedFragment : Bool) : Except String (Reader R) := do
  Checked.check "invalid erased fragment replacement"
    (!erasedFragment || (page.records.isEmpty && page.fragment.any (·.offset = 0)))
  let current := if erasedFragment then none else reader.partialRecord
  reader.progress.check request page.offset page.manifest page.total page.records.length
  let (next, records) ← assembleRecords c room current page.records page.fragment
  let progress ← reader.progress.advance page.manifest page.total records.length next.isSome
  return ⟨progress, next, reader.delivered ++ records⟩

/-- What the reader asks for next. -/
def Reader.pull (reader : Reader R) : HistoryPull where
  manifest := reader.progress.manifest.getD ""
  offset := reader.progress.cursor
  fragmentOffset := fragmentOffset reader.partialRecord

/-- The page for a pull of the reader, with the flag of a group. -/
def answer (record : Nat → Except String R) (total : Nat) (reader : Reader R) :
    Except String (HistoryPage R × Bool) :=
  match room with
  | .channel => (channelContentPage c record total reader.pull).map (·, false)
  | .group =>
    groupContentPage c record total reader.pull (reader.partialRecord.map (·.digest))

/-- A pull, its answer and what the reader makes of it. -/
def exchange (record : Nat → Except String R) (total : Nat) (reader : Reader R) :
    Except String (Reader R) := do
  let (page, erasedFragment) ← answer c room record total reader
  importHistory c room reader reader.progress.requestId page erasedFragment

end Import

/-! ## Readers in step -/

/-- An export: the records that were frozen, and what is left of each once it is erased. -/
structure Export (R : Type) where
  manifest : String
  total : Nat
  frozen : Nat → R
  erased : Nat → R

section InStep

variable (c : RecordCodec R) (room : Room) (X : Export R) (gone : Nat → Bool)

/-- The record at an index, as the rows are now. -/
def Export.now (i : Nat) : R := if gone i then X.erased i else X.frozen i

/-- Records are bounded. A record was not erased when it was frozen, and its hash tells it from
    what is left of it. -/
structure Export.Valid : Prop where
  manifest : canonicalHex X.manifest 64 = true
  total : X.total < 2 ^ 64
  size_frozen (i : Nat) : (c.serialize (X.frozen i)).length ≤ maxRecord
  size_erased (i : Nat) : (c.serialize (X.erased i)).length ≤ maxRecord
  live (i : Nat) : c.erased (X.frozen i) = false
  erased (i : Nat) : c.erased (X.erased i) = true
  digest (i : Nat) : c.sha256 (c.serialize (X.frozen i)) ≠ c.sha256 (c.serialize (X.erased i))

/-- The source finds the records of the export. -/
def Serves (record : Nat → Except String R) : Prop :=
  ∀ i < X.total, record i = .ok (X.now gone i)

/-- The reader holds the first `n` bytes of a record at its cursor that is too large for a
    page. -/
structure Holds (reader : Reader R) (v : R) (n : Nat) : Prop where
  eq : reader.partialRecord = held c.toFragmentCodec (c.serialize v) n
  cursor : reader.progress.cursor < X.total
  ne : n ≠ 0
  lt : n < (c.serialize v).length
  chunk : n % chunk = 0
  large : room.pageBytes < (c.serialize v).length

/-- A reader between two pulls: its cursor is the next index, and what it holds is the
    beginning of the record there, as it was frozen or as it is. -/
structure InStep (reader : Reader R) : Prop where
  complete : reader.progress.complete = false
  manifest : reader.progress.manifest = some X.manifest
  total : reader.progress.total = some X.total
  cursor : reader.progress.cursor ≤ X.total
  unfinished : reader.progress.cursor = X.total → X.total = 0
  holds : reader.partialRecord = none ∨ ∃ v n, Holds c room X reader v n ∧
    (v = X.frozen reader.progress.cursor ∨
      gone reader.progress.cursor = true ∧ v = X.erased reader.progress.cursor)
  length : reader.delivered.length = reader.progress.cursor
  delivered : ∀ i r, reader.delivered[i]? = some r → r = X.frozen i ∨ r = X.erased i

/-- The reader has got everything: every record once, whole or erased. -/
structure Done (reader : Reader R) : Prop where
  complete : reader.progress.complete = true
  length : reader.delivered.length = X.total
  delivered : ∀ i r, reader.delivered[i]? = some r → r = X.frozen i ∨ r = X.erased i

/-- The reader holds the beginning of what is left of an erased record. -/
def holdsErased (reader : Reader R) : Bool :=
  reader.partialRecord.any (·.digest =
    c.sha256 (c.serialize (X.erased reader.progress.cursor)))

/-- How far a reader is: at which record, whether at what is left of it, and how many bytes
    into it. -/
def mark (reader : Reader R) : Nat ×ₗ Bool ×ₗ Nat :=
  toLex (reader.progress.cursor,
    toLex (holdsErased c X reader, fragmentOffset reader.partialRecord))

/-- A pull makes progress: the source returns a page, the reader accepts it, and it either has
    everything or is further than before. -/
def Advances (record : Nat → Except String R) (reader : Reader R) : Prop :=
  ∃ next, exchange c room record X.total reader = .ok next ∧
    (Done X next ∨ InStep c room X gone next ∧ mark c X reader < mark c X next)

/-- The reader after a page. -/
def Reader.after (reader : Reader R) (next : Option PartialRecord) (records : List R) :
    Reader R where
  progress :=
    { reader.progress with
      cursor := reader.progress.cursor + records.length
      total := some X.total
      manifest := some X.manifest
      complete := reader.progress.cursor + records.length = X.total }
  partialRecord := next
  delivered := reader.delivered ++ records

end InStep

section Import

variable {c : RecordCodec R} {room : Room} {X : Export R} {gone : Nat → Bool}
  {record : Nat → Except String R} {reader : Reader R} {v : R} {n : Nat}

theorem now_eq (X : Export R) (gone : Nat → Bool) (i : Nat) : X.now gone i = X.frozen i ∨ X.now gone i = X.erased i := by
  rw [Export.now]
  split
  · exact .inr rfl
  · exact .inl rfl

theorem Export.Valid.size_now (hX : X.Valid c) (gone : Nat → Bool) (i : Nat) :
    (c.serialize (X.now gone i)).length ≤ maxRecord := by
  obtain h | h := now_eq X gone i
  · rw [h]
    exact hX.size_frozen i
  · rw [h]
    exact hX.size_erased i

/-- The page of a pull of the reader. -/
def pageOf (X : Export R) (reader : Reader R) (records : List R)
    (fragment : Option PageFragment) : HistoryPage R :=
  ⟨X.manifest, X.total, reader.progress.cursor, records, fragment⟩

/-- A page whose records can be put together is accepted if it brings something. -/
theorem importHistory_eq_ok (hX : X.Valid c) (h : InStep c room X gone reader)
    {records records' : List R} {fragment : Option PageFragment} {flag : Bool}
    {next : Option PartialRecord}
    (hflag : flag = true → records = [] ∧ ∃ f, fragment = some f ∧ f.offset = 0)
    (hrecords : records.length ≤ pageRecords)
    (hassemble : assembleRecords c room (if flag then none else reader.partialRecord) records
      fragment = .ok (next, records'))
    (hcursor : reader.progress.cursor + records'.length ≤ X.total)
    (hprogress : records' = [] → next = none → X.total = reader.progress.cursor) :
    importHistory c room reader reader.progress.requestId (pageOf X reader records fragment) flag =
      .ok (reader.after X next records') := by
  have hreplace : Checked.check "invalid erased fragment replacement"
      (!flag || (records.isEmpty && fragment.any (·.offset = 0))) = .ok () := by
    rw [Checked.check_eq_ok]
    cases flag with
    | false => rfl
    | true =>
      obtain ⟨rfl, f, rfl, hf⟩ := hflag rfl
      simp [hf]
  have hcheck : reader.progress.check reader.progress.requestId reader.progress.cursor X.manifest
      X.total records.length = .ok () := by
    refine if_neg ?_
    simp [h.complete, h.total, h.manifest, hX.manifest, hrecords]
  have hadvance : reader.progress.advance X.manifest X.total records'.length next.isSome =
      .ok (reader.after X next records').progress := by
    have htotal := hX.total
    rw [HistoryCursor.advance, if_neg (by omega), if_neg]
    · rfl
    · rintro (h | ⟨h₁, h₂, h₃⟩)
      · omega
      · have := hprogress (List.length_eq_zero_iff.1 h₁) (by simpa using h₂)
        omega
  simp only [importHistory, pageOf, Checked.bind_eq_ok]
  exact ⟨(), hreplace, (), hcheck, (next, records'), hassemble, _, hadvance, rfl⟩

/-- The records that a page brings are those at the indices from the cursor on. -/
theorem delivered_after (h : InStep c room X gone reader) (next : Option PartialRecord) {k : Nat} :
    ∀ i r, (reader.after X next ((List.range' reader.progress.cursor k).map (X.now gone))).delivered[i]?
      = some r → r = X.frozen i ∨ r = X.erased i := by
  intro i r hr
  change (reader.delivered ++ _)[i]? = some r at hr
  rcases lt_or_ge i reader.delivered.length with hi | hi
  · rw [List.getElem?_append_left hi] at hr
    exact h.delivered i r hr
  · rw [List.getElem?_append_right hi, h.length, List.getElem?_map] at hr
    obtain ⟨j, hj, rfl⟩ := Option.map_eq_some_iff.1 hr
    obtain ⟨hlt, rfl⟩ := List.getElem?_eq_some_iff.1 hj
    rw [h.length] at hi
    rw [List.getElem_range', one_mul, Nat.add_sub_cancel' hi]
    exact now_eq X gone i

/-- After a page with records the reader is at a later one, or done. -/
theorem after_records (h : InStep c room X gone reader) {k : Nat}
    (hcursor : reader.progress.cursor + k ≤ X.total)
    (hk : k = 0 → X.total = reader.progress.cursor) :
    let next := reader.after X none ((List.range' reader.progress.cursor k).map (X.now gone))
    Done X next ∨ InStep c room X gone next ∧ mark c X reader < mark c X next := by
  intro next
  have hlength : ((List.range' reader.progress.cursor k).map (X.now gone)).length = k := by simp
  have hdelivered : next.delivered.length = reader.progress.cursor + k := by
    change (reader.delivered ++ _).length = _
    rw [List.length_append, h.length, hlength]
  have hnext : next.progress.cursor = reader.progress.cursor + k := by
    change reader.progress.cursor + _ = _
    rw [hlength]
  have hcomplete : next.progress.complete =
      decide (reader.progress.cursor + k = X.total) := by
    change decide (reader.progress.cursor + _ = X.total) = _
    rw [hlength]
  rcases eq_or_lt_of_le hcursor with hend | hmore
  · refine .inl ⟨?_, hdelivered.trans hend, delivered_after h none⟩
    rw [hcomplete]
    exact decide_eq_true hend
  · refine .inr ⟨⟨?_, rfl, rfl, ?_, ?_, .inl rfl, ?_, delivered_after h none⟩, ?_⟩
    · rw [hcomplete]
      exact decide_eq_false hmore.ne
    · rw [hnext]
      exact hcursor
    · rw [hnext]
      exact fun heq => absurd heq hmore.ne
    · rw [hdelivered, hnext]
    · refine Prod.Lex.lt_iff.2 (.inl ?_)
      change reader.progress.cursor < next.progress.cursor
      omega

/-- After a fragment the reader holds more of the record. -/
theorem after_fragment (hc : c.Lawful) (h : InStep c room X gone reader)
    (hcursor : reader.progress.cursor < X.total)
    (hchunk : n % chunk = 0)
    (hlarge : room.pageBytes < (c.serialize (X.now gone reader.progress.cursor)).length)
    (hmore : n + chunk < (c.serialize (X.now gone reader.progress.cursor)).length)
    (hmark : mark c X reader < toLex (reader.progress.cursor,
      toLex (decide (c.sha256 (c.serialize (X.now gone reader.progress.cursor)) =
        c.sha256 (c.serialize (X.erased reader.progress.cursor))), n + chunk))) :
    let next := reader.after X (held c.toFragmentCodec
      (c.serialize (X.now gone reader.progress.cursor)) (n + chunk)) []
    InStep c room X gone next ∧ mark c X reader < mark c X next := by
  intro next
  have hne : n + chunk ≠ 0 := by simp [chunk]
  have hdelivered : next.delivered = reader.delivered := List.append_nil _
  refine ⟨⟨decide_eq_false hcursor.ne, rfl, rfl, h.cursor, h.unfinished, .inr ⟨_, n + chunk,
    ⟨rfl, hcursor, hne, hmore, ?_, hlarge⟩, ?_⟩, ?_, ?_⟩, ?_⟩
  · rw [Nat.add_mod_right, hchunk]
  · change X.now gone reader.progress.cursor = _ ∨ _
    rw [Export.now]
    split
    · next hgone => exact .inr ⟨hgone, rfl⟩
    · exact .inl rfl
  · rw [hdelivered, h.length]
    rfl
  · rw [hdelivered]
    exact h.delivered
  · have hnext : next.partialRecord = held c.toFragmentCodec
      (c.serialize (X.now gone reader.progress.cursor)) (n + chunk) := rfl
    have hsame : next.progress.cursor = reader.progress.cursor := rfl
    refine hmark.trans_eq ?_
    rw [mark, holdsErased, hnext, hsame, fragmentOffset_held hmore.le, held_of_ne hne]
    rfl

/-! ## Pages -/

/-- The indices of a page: the one at the cursor and up to 15 after it. -/
theorem pageIndices_eq {offset total : Nat} (h : offset < total) :
    ∃ k, pageIndices offset total = offset :: List.range' (offset + 1) k ∧ offset + 1 + k ≤ total ∧
      k + 1 ≤ pageRecords ∧ (offset + 1 < total → k ≠ 0) := by
  obtain ⟨k, hk⟩ : ∃ k, min total (offset + pageRecords) - offset = k + 1 :=
    Nat.exists_eq_add_one.2 (by simp only [pageRecords]; omega)
  refine ⟨k, ?_, ?_, ?_, ?_⟩
  · rw [pageIndices, hk, List.range'_succ]
  · omega
  · omega
  · simp only [pageRecords] at hk
    omega

/-- Without an offset, further records are added while they fit. -/
theorem channelLoop_fits (hserves : Serves X gone record) (i k bytes : Nat) (records : List R)
    (hi : i + k ≤ X.total) (hrecords : records ≠ []) :
    ∃ n ≤ k, channelLoop c record 0 (List.range' i k) records bytes =
      .ok (records ++ (List.range' i n).map (X.now gone), none) := by
  induction k generalizing i bytes records with
  | zero =>
    refine ⟨0, le_rfl, ?_⟩
    rw [List.range'_zero, List.map_nil, List.append_nil]
    rfl
  | succ k ih =>
    rw [List.range'_succ, channelLoop, hserves i (by omega), Checked.ok_bind]
    split
    · refine ⟨0, Nat.zero_le _, ?_⟩
      rw [if_neg (by simpa using hrecords), List.range'_zero, List.map_nil, List.append_nil]
      rfl
    · rw [if_neg fun h => h.1 rfl]
      obtain ⟨n, hn, heq⟩ := ih (i + 1) (bytes + (c.serialize (X.now gone i)).length)
        (records ++ [X.now gone i]) (by omega) (by simp)
      refine ⟨n + 1, by omega, ?_⟩
      rw [heq, List.range'_succ, List.map_cons, List.append_assoc, List.singleton_append]

theorem groupLoop_fits (hserves : Serves X gone record) (digest : Option String)
    (i k bytes : Nat) (records : List R) (hi : i + k ≤ X.total) (hrecords : records ≠ []) :
    ∃ n ≤ k, groupLoop c record 0 digest (List.range' i k) records bytes =
      .ok (records ++ (List.range' i n).map (X.now gone), none, false) := by
  induction k generalizing i bytes records with
  | zero =>
    refine ⟨0, le_rfl, ?_⟩
    rw [List.range'_zero, List.map_nil, List.append_nil]
    rfl
  | succ k ih =>
    rw [List.range'_succ, groupLoop, hserves i (by omega), Checked.ok_bind]
    split
    · refine ⟨0, Nat.zero_le _, ?_⟩
      rw [if_neg (by simpa using hrecords), List.range'_zero, List.map_nil, List.append_nil]
      rfl
    · rw [if_neg fun h => h rfl]
      obtain ⟨n, hn, heq⟩ := ih (i + 1) (bytes + (c.serialize (X.now gone i)).length)
        (records ++ [X.now gone i]) (by omega) (by simp)
      refine ⟨n + 1, by omega, ?_⟩
      rw [heq, List.range'_succ, List.map_cons, List.append_assoc, List.singleton_append]

/-- The pull of a reader in step. -/
theorem InStep.pull (h : InStep c room X gone reader) :
    reader.pull = ⟨X.manifest, reader.progress.cursor, fragmentOffset reader.partialRecord⟩ := by
  rw [Reader.pull, h.manifest]
  rfl

/-- A record at the cursor that does not fit on a page gives a fragment, at the offset of the
    reader if it holds a beginning of that record. -/
theorem answer_large (hserves : Serves X gone record) (h : InStep c room X gone reader)
    (hcursor : reader.progress.cursor < X.total)
    (hlarge : room.pageBytes < (c.serialize (X.now gone reader.progress.cursor)).length)
    (hheld : reader.partialRecord = none ∨ reader.partialRecord.map (·.digest) =
      some (c.sha256 (c.serialize (X.now gone reader.progress.cursor))))
    {f : PageFragment} (hf : fragment c.toFragmentCodec
      (c.serialize (X.now gone reader.progress.cursor)) (fragmentOffset reader.partialRecord) = .ok f) :
    answer c room record X.total reader = .ok (pageOf X reader [] (some f), false) := by
  obtain ⟨k, hindices, -⟩ := pageIndices_eq hcursor
  cases room with
  | channel =>
    rw [answer, channelContentPage, h.pull, hindices, channelLoop, hserves _ hcursor,
      Checked.ok_bind, if_pos (by simpa [Room.pageBytes] using hlarge), if_pos List.isEmpty_nil, hf]
    rfl
  | group =>
    rw [answer, groupContentPage, h.pull, hindices, groupLoop, hserves _ hcursor,
      Checked.ok_bind, if_pos (by simpa [Room.pageBytes] using hlarge), if_pos List.isEmpty_nil]
    obtain hnone | hdigest := hheld
    · -- Without a beginning the offset is zero in either case.
      have hzero : fragmentOffset reader.partialRecord = 0 := by rw [hnone]; rfl
      rw [hzero] at hf ⊢
      simp only [ite_self, hf, ne_eq, not_true_eq_false, decide_false, Bool.and_false]
      rfl
    · simp only [hdigest, ne_eq, not_true_eq_false, decide_false, Bool.and_false,
        Bool.false_eq_true, if_false, hf, Bool.false_and]
      rfl

/-- Without a beginning, a record that fits comes with those after it that fit too. -/
theorem answer_small (hserves : Serves X gone record) (h : InStep c room X gone reader)
    (hcursor : reader.progress.cursor < X.total) (hnone : reader.partialRecord = none)
    (hsmall : (c.serialize (X.now gone reader.progress.cursor)).length ≤ room.pageBytes) :
    ∃ n, n ≠ 0 ∧ n ≤ pageRecords ∧ reader.progress.cursor + n ≤ X.total ∧
      answer c room record X.total reader =
        .ok (pageOf X reader ((List.range' reader.progress.cursor n).map (X.now gone)) none,
          false) := by
  obtain ⟨k, hindices, hk, hpage, -⟩ := pageIndices_eq hcursor
  have hzero : fragmentOffset reader.partialRecord = 0 := by rw [hnone]; rfl
  cases room with
  | channel =>
    obtain ⟨n, hn, hloop⟩ := channelLoop_fits (c := c) hserves (reader.progress.cursor + 1) k
      (0 + (c.serialize (X.now gone reader.progress.cursor)).length)
      ([] ++ [X.now gone reader.progress.cursor]) hk (by simp)
    refine ⟨n + 1, n.succ_ne_zero, by omega, by omega, ?_⟩
    rw [answer, channelContentPage, h.pull, hindices, channelLoop, hserves _ hcursor,
      Checked.ok_bind, if_neg (by simpa [Room.pageBytes] using hsmall), hzero,
      if_neg fun h => h.1 rfl, hloop, List.range'_succ]
    rfl
  | group =>
    obtain ⟨n, hn, hloop⟩ := groupLoop_fits (c := c) hserves
      (reader.partialRecord.map (·.digest)) (reader.progress.cursor + 1) k
      (0 + (c.serialize (X.now gone reader.progress.cursor)).length)
      ([] ++ [X.now gone reader.progress.cursor]) hk (by simp)
    refine ⟨n + 1, n.succ_ne_zero, by omega, by omega, ?_⟩
    rw [answer, groupContentPage, h.pull, hindices, groupLoop, hserves _ hcursor,
      Checked.ok_bind, if_neg (by simpa [Room.pageBytes] using hsmall), hzero,
      if_neg fun h => h rfl, hloop, List.range'_succ]
    rfl

/-- With nothing left to give, the page is empty. -/
theorem answer_end (h : InStep c room X gone reader) (hnone : reader.partialRecord = none)
    (hcursor : reader.progress.cursor = X.total) :
    answer c room record X.total reader = .ok (pageOf X reader [] none, false) := by
  have hindices : pageIndices reader.progress.cursor X.total = [] := by
    rw [pageIndices, hcursor]
    simp
  cases room with
  | channel =>
    rw [answer, channelContentPage, h.pull, hindices]
    rfl
  | group =>
    rw [answer, groupContentPage, h.pull, hindices]
    rfl

theorem exchange_eq {page : HistoryPage R} {flag : Bool}
    (h : answer c room record X.total reader = .ok (page, flag)) :
    exchange c room record X.total reader =
      importHistory c room reader reader.progress.requestId page flag := by
  rw [exchange, h]
  rfl

/-! ## Progress -/

/-- The next fragment of the record as it is now takes the reader further. -/
theorem advances_fragment (hc : c.Lawful) (hX : X.Valid c) (h : InStep c room X gone reader)
    (hcursor : reader.progress.cursor < X.total) (flag : Bool) {f : PageFragment}
    (hlarge : room.pageBytes < (c.serialize (X.now gone reader.progress.cursor)).length)
    (hchunk : n % chunk = 0) (hn : n < (c.serialize (X.now gone reader.progress.cursor)).length)
    (hf : fragment c.toFragmentCodec (c.serialize (X.now gone reader.progress.cursor)) n = .ok f)
    (hflag : flag = true → n = 0)
    (hheld : (if flag then none else reader.partialRecord) =
      held c.toFragmentCodec (c.serialize (X.now gone reader.progress.cursor)) n)
    (hanswer : answer c room record X.total reader = .ok (pageOf X reader [] (some f), flag))
    (hmark : mark c X reader < toLex (reader.progress.cursor,
      toLex (decide (c.sha256 (c.serialize (X.now gone reader.progress.cursor)) =
        c.sha256 (c.serialize (X.erased reader.progress.cursor))), n + chunk))) :
    Advances c room X gone record reader := by
  have hoffset : f.offset = n := (decode_of_fragment hc.toLawful hf).2.2.1
  have haccept := accept_fragment hc.toLawful hn.le hf
  have hreplace : flag = true → ([] : List R) = [] ∧ ∃ f', some f = some f' ∧ f'.offset = 0 :=
    fun ht => ⟨rfl, f, rfl, hoffset.trans (hflag ht)⟩
  rw [Advances, exchange_eq hanswer]
  rcases lt_or_ge (n + chunk) (c.serialize (X.now gone reader.progress.cursor)).length with
    hmore | hdone
  · rw [if_pos hmore] at haccept
    refine ⟨_, importHistory_eq_ok hX h hreplace (Nat.zero_le _) ?_ ?_ ?_,
      .inr (after_fragment hc h hcursor hchunk hlarge hmore hmark)⟩
    · rw [hheld, assembleRecords, if_pos List.isEmpty_nil, haccept]
      rfl
    · exact h.cursor
    · intro _ hnone
      rw [held_of_ne (by simp [chunk])] at hnone
      cases hnone
  · -- The last fragment gives the record.
    rw [if_neg hdone.not_gt] at haccept
    refine ⟨_, importHistory_eq_ok hX h hreplace (Nat.zero_le _) ?_ ?_ ?_,
      after_records (c := c) (k := 1) h hcursor fun hk => absurd hk one_ne_zero⟩
    · rw [hheld, assembleRecords, if_pos List.isEmpty_nil, haccept, Checked.ok_bind]
      simp only [hc.deserialize_serialize, Checked.ok_bind]
      rfl
    · exact hcursor
    · intro hnil
      cases hnil

/-- A reader that holds nothing makes progress with every pull. -/
theorem advances_of_none (hc : c.Lawful) (hX : X.Valid c) (hserves : Serves X gone record)
    (h : InStep c room X gone reader) (hnone : reader.partialRecord = none) :
    Advances c room X gone record reader := by
  have hassemble : ∀ records : List R, assembleRecords c room
      (if false then none else reader.partialRecord) records none = .ok (none, records) := by
    intro records
    rw [hnone]
    rfl
  rcases h.cursor.lt_or_eq with hcursor | hcursor
  · rcases lt_or_ge room.pageBytes (c.serialize (X.now gone reader.progress.cursor)).length with
      hlarge | hsmall
    · have hpositive : 0 < (c.serialize (X.now gone reader.progress.cursor)).length :=
        List.length_pos_of_ne_nil (hc.serialize_ne_nil _)
      have hf := fragment_eq_ok (c := c.toFragmentCodec) (hc.serialize_ne_nil _)
        (hX.size_now gone reader.progress.cursor) hpositive (Nat.zero_mod chunk)
      have hzero : fragmentOffset reader.partialRecord = 0 := by rw [hnone]; rfl
      refine advances_fragment hc hX h hcursor false hlarge (Nat.zero_mod chunk) hpositive
        hf (fun h => absurd h Bool.false_ne_true) hnone ?_ ?_
      · exact answer_large hserves h hcursor hlarge (.inl hnone) (hzero.symm ▸ hf)
      · rw [mark, holdsErased, hnone]
        refine Prod.Lex.lt_iff.2 (.inr ⟨rfl, Prod.Lex.lt_iff.2 ?_⟩)
        rcases (decide (c.sha256 (c.serialize (X.now gone reader.progress.cursor)) =
          c.sha256 (c.serialize (X.erased reader.progress.cursor)))).eq_false_or_eq_true with ht | hf
        · exact .inl (ht ▸ Bool.false_lt_true)
        · refine .inr ⟨hf.symm, ?_⟩
          change 0 < 0 + chunk
          simp [chunk]
    · obtain ⟨k, hk, hpage, hend, hanswer⟩ := answer_small hserves h hcursor hnone hsmall
      rw [Advances, exchange_eq hanswer]
      refine ⟨_, importHistory_eq_ok hX h (fun h => absurd h Bool.false_ne_true) ?_
        (hassemble _) ?_ ?_, after_records h hend fun hk' => absurd hk' hk⟩
      · simpa using hpage
      · simpa using hend
      · intro hnil
        simp [hk] at hnil
  · rw [Advances, exchange_eq (answer_end h hnone hcursor)]
    exact ⟨_, importHistory_eq_ok hX h (fun h => absurd h Bool.false_ne_true) (Nat.zero_le _)
      (hassemble _) h.cursor fun _ _ => hcursor.symm,
      after_records (c := c) (k := 0) h h.cursor fun _ => hcursor.symm⟩

/-- The offset of a reader that holds the beginning of a record. -/
theorem Holds.offset (hheld : Holds c room X reader v n) :
    fragmentOffset reader.partialRecord = n := by
  rw [hheld.eq, fragmentOffset_held hheld.lt.le]

/-- So does one that holds the beginning of the record as it is now. -/
theorem advances_of_current (hc : c.Lawful) (hX : X.Valid c) (hserves : Serves X gone record)
    (h : InStep c room X gone reader)
    (hheld : Holds c room X reader (X.now gone reader.progress.cursor) n) :
    Advances c room X gone record reader := by
  have hf := fragment_eq_ok (c := c.toFragmentCodec) (hc.serialize_ne_nil _)
    (hX.size_now gone reader.progress.cursor) hheld.lt hheld.chunk
  have hoffset := hheld.offset
  refine advances_fragment hc hX h hheld.cursor false hheld.large hheld.chunk hheld.lt hf
    (fun h => absurd h Bool.false_ne_true) hheld.eq ?_ ?_
  · refine answer_large hserves h hheld.cursor hheld.large (.inr ?_) (hoffset.symm ▸ hf)
    rw [hheld.eq, held_of_ne hheld.ne]
    rfl
  · rw [mark, hoffset, holdsErased, hheld.eq, held_of_ne hheld.ne]
    refine Prod.Lex.lt_iff.2 (.inr ⟨rfl, Prod.Lex.lt_iff.2 (.inr ⟨rfl, ?_⟩)⟩)
    change n < n + chunk
    simp [chunk]

/-! ## Erasures -/

/-- What a page holds is not taken off again. -/
theorem channelLoop_prefix {offset bytes : Nat} {indices : List Nat} {records records' : List R}
    {f : Option PageFragment} (hrecords : records ≠ [])
    (h : channelLoop c record offset indices records bytes = .ok (records', f)) :
    f = none ∧ records <+: records' := by
  induction indices generalizing records bytes with
  | nil =>
    obtain ⟨rfl, rfl⟩ := Prod.mk.inj (Except.ok.inj h)
    exact ⟨rfl, List.prefix_rfl⟩
  | cons index indices ih =>
    rw [channelLoop, Checked.bind_eq_ok] at h
    obtain ⟨r, -, h⟩ := h
    split at h
    · rw [if_neg (by simpa using hrecords)] at h
      obtain ⟨rfl, rfl⟩ := Prod.mk.inj (Except.ok.inj h)
      exact ⟨rfl, List.prefix_rfl⟩
    · split at h
      · cases h
      · obtain ⟨hf, hprefix⟩ := ih (by simp) h
        exact ⟨hf, (List.prefix_append _ _).trans hprefix⟩

/-- Whoever holds a beginning refuses a page of several records. -/
theorem assembleRecords_long {p : PartialRecord} {records : List R}
    (h : 2 ≤ records.length) :
    assembleRecords c room (some p) records none = .error (room.history ++ " partial record missing") := by
  rcases records with - | ⟨r, - | ⟨r', records⟩⟩
  · simp at h
  · simp at h
  · rfl

/-- A page that is accepted can be put together. -/
theorem exchange_eq_ok {next : Reader R} (h : exchange c room record X.total reader = .ok next) :
    ∃ page flag, answer c room record X.total reader = .ok (page, flag) ∧
      ∃ result, assembleRecords c room (if flag then none else reader.partialRecord) page.records
        page.fragment = .ok result := by
  simp only [exchange, Checked.bind_eq_ok] at h
  obtain ⟨⟨page, flag⟩, hanswer, h⟩ := h
  simp only [importHistory, Checked.bind_eq_ok] at h
  obtain ⟨-, -, -, -, result, hresult, -⟩ := h
  exact ⟨page, flag, hanswer, result, hresult⟩

/-- The beginning of what was frozen is not one of what is left. -/
theorem Holds.digest_ne (hX : X.Valid c)
    (hheld : Holds c room X reader (X.frozen reader.progress.cursor) n) :
    reader.partialRecord.map (·.digest) ≠
      some (c.sha256 (c.serialize (X.erased reader.progress.cursor))) := by
  rw [hheld.eq, held_of_ne hheld.ne]
  exact fun h => hX.digest _ (Option.some.inj h)

/-- A reader of a group in the middle of a record that was erased gets what is left of it from
    the start, if that is too large for a page, and otherwise an error. -/
theorem group_advances_iff (hc : c.Lawful) (hX : X.Valid c) (hserves : Serves X gone record)
    (h : InStep c .group X gone reader)
    (hheld : Holds c .group X reader (X.frozen reader.progress.cursor) n)
    (hgone : gone reader.progress.cursor = true) :
    Advances c .group X gone record reader ↔
      groupPageBytes < (c.serialize (X.erased reader.progress.cursor)).length := by
  have hnow : X.now gone reader.progress.cursor = X.erased reader.progress.cursor := if_pos hgone
  obtain ⟨k, hindices, -⟩ := pageIndices_eq hheld.cursor
  constructor
  · rintro ⟨next, hnext, -⟩
    obtain ⟨page, flag, hanswer, -⟩ := exchange_eq_ok hnext
    by_contra hsmall
    rw [answer, groupContentPage, h.pull, hindices, groupLoop, hserves _ hheld.cursor,
      Checked.ok_bind, hnow, if_neg (by rwa [Nat.zero_add]), hheld.offset, if_pos hheld.ne] at hanswer
    cases hanswer
  · intro hlarge
    have hpositive : 0 < (c.serialize (X.erased reader.progress.cursor)).length :=
      List.length_pos_of_ne_nil (hc.serialize_ne_nil _)
    have hf := fragment_eq_ok (c := c.toFragmentCodec) (hc.serialize_ne_nil _)
      (hX.size_erased reader.progress.cursor) hpositive (Nat.zero_mod chunk)
    refine advances_fragment hc hX h hheld.cursor true (n := 0) (hnow.symm ▸ hlarge)
      (Nat.zero_mod chunk) (hnow.symm ▸ hpositive) (hnow.symm ▸ hf) (fun _ => rfl) rfl ?_ ?_
    · rw [answer, groupContentPage, h.pull, hindices, groupLoop, hserves _ hheld.cursor,
        Checked.ok_bind, hnow, if_pos (by rwa [Nat.zero_add]), if_pos List.isEmpty_nil,
        hheld.offset, hX.erased]
      simp only [Bool.true_and, decide_eq_true (hheld.digest_ne hX), if_true, hf,
        decide_eq_true hheld.ne]
      rfl
    · -- The reader was at what was frozen, and is at what is left now.
      rw [mark, holdsErased, hnow, hheld.eq, held_of_ne hheld.ne]
      refine Prod.Lex.lt_iff.2 (.inr ⟨rfl, Prod.Lex.lt_iff.2 (.inl ?_)⟩)
      change decide _ < decide _
      rw [decide_eq_true rfl, decide_eq_false (hX.digest _)]
      exact Bool.false_lt_true

/-- What is left of a record goes onto a page alone. -/
def FitsAlone (c : RecordCodec R) (X : Export R) (gone : Nat → Bool) (i : Nat) : Prop :=
  (c.serialize (X.erased i)).length ≤ channelPageBytes ∧
    (i + 1 = X.total ∨
      channelPageBytes < (c.serialize (X.erased i)).length + (c.serialize (X.now gone (i + 1))).length)

/-- The page for a reader of a channel in the middle of a record that was erased. -/
theorem channelLoop_stale (hX : X.Valid c) (hserves : Serves X gone record)
    (hcursor : reader.progress.cursor < X.total) (hgone : gone reader.progress.cursor = true)
    (hn : n ≠ 0) (halone : FitsAlone c X gone reader.progress.cursor) :
    channelLoop c record n (pageIndices reader.progress.cursor X.total) [] 0 =
      .ok ([X.erased reader.progress.cursor], none) := by
  have hnow : X.now gone reader.progress.cursor = X.erased reader.progress.cursor := if_pos hgone
  obtain ⟨k, hindices, hk, -, hmany⟩ := pageIndices_eq hcursor
  rw [hindices, channelLoop, hserves _ hcursor, Checked.ok_bind, hnow,
    if_neg (by rw [Nat.zero_add]; exact halone.1.not_gt), if_neg (by simp [hX.erased])]
  obtain hlast | hnext := halone.2
  · obtain rfl : k = 0 := by omega
    rfl
  · rcases k with - | k
    · rfl
    · rw [List.range'_succ, channelLoop, hserves _ (by omega), Checked.ok_bind,
        if_pos (by rwa [Nat.zero_add])]
      rfl

/-- A reader of a channel in the middle of a record that was erased makes progress exactly if
    what is left of the record fits on a page, and comes alone. -/
theorem channel_advances_iff (hc : c.Lawful) (hX : X.Valid c) (hserves : Serves X gone record)
    (h : InStep c .channel X gone reader)
    (hheld : Holds c .channel X reader (X.frozen reader.progress.cursor) n)
    (hgone : gone reader.progress.cursor = true) :
    Advances c .channel X gone record reader ↔ FitsAlone c X gone reader.progress.cursor := by
  have hnow : X.now gone reader.progress.cursor = X.erased reader.progress.cursor := if_pos hgone
  constructor
  · rintro ⟨next, hnext, -⟩
    obtain ⟨page, flag, hanswer, result, hresult⟩ := exchange_eq_ok hnext
    rw [answer, h.pull, hheld.offset, channelContentPage] at hanswer
    simp only at hanswer
    rcases hloop : channelLoop c record n (pageIndices reader.progress.cursor X.total) [] 0 with
      e | ⟨records, f⟩
    · rw [hloop] at hanswer
      cases hanswer
    · rw [hloop] at hanswer
      obtain ⟨rfl, rfl⟩ := Prod.mk.inj (Except.ok.inj hanswer)
      rw [if_neg Bool.false_ne_true, hheld.eq] at hresult
      obtain ⟨k, hindices, hk, -, hmany⟩ := pageIndices_eq hheld.cursor
      rw [hindices, channelLoop, hserves _ hheld.cursor, Checked.ok_bind, hnow] at hloop
      split at hloop
      · -- A fragment of what is left does not continue what is held.
        rw [if_pos List.isEmpty_nil, Checked.bind_eq_ok] at hloop
        obtain ⟨g, hg, hloop⟩ := hloop
        obtain ⟨rfl, rfl⟩ := Prod.mk.inj (Except.ok.inj hloop)
        rw [assembleRecords, if_pos List.isEmpty_nil,
          accept_other hc.toLawful hheld.ne (hX.digest _) hg] at hresult
        cases hresult
      · next hsmall =>
        rw [Nat.zero_add, not_lt] at hsmall
        refine ⟨hsmall, ?_⟩
        by_contra hboth
        rw [not_or, not_lt] at hboth
        -- The next record comes onto the page too, or is not allowed there.
        obtain ⟨k, rfl⟩ := Nat.exists_eq_succ_of_ne_zero (hmany (by have := hheld.cursor; omega))
        rw [if_neg (by simp [hX.erased]), List.range'_succ, channelLoop, hserves _ (by omega),
          Checked.ok_bind, if_neg (by rw [Nat.zero_add]; exact hboth.2.not_gt)] at hloop
        split at hloop
        · cases hloop
        · obtain ⟨rfl, hprefix⟩ := channelLoop_prefix (by simp) hloop
          have hlong : 2 ≤ records.length := hprefix.length_le
          rw [held_of_ne hheld.ne, assembleRecords_long hlong] at hresult
          cases hresult
  · intro halone
    have hloop := channelLoop_stale hX hserves hheld.cursor hgone hheld.ne halone
    have hanswer : answer c .channel record X.total reader =
        .ok (pageOf X reader [X.erased reader.progress.cursor] none, false) := by
      rw [answer, h.pull, hheld.offset, channelContentPage]
      simp only [hloop]
      rfl
    rw [Advances, exchange_eq hanswer]
    refine ⟨reader.after X none [X.erased reader.progress.cursor],
      importHistory_eq_ok hX h (fun h => absurd h Bool.false_ne_true) (by simp [pageRecords]) ?_
      hheld.cursor (fun h => nomatch h), ?_⟩
    · rw [if_neg Bool.false_ne_true, hheld.eq, held_of_ne hheld.ne]
      exact if_pos (hX.erased _)
    · have hafter := after_records (c := c) (k := 1) h hheld.cursor
        fun hk => absurd hk one_ne_zero
      simpa [hnow] using hafter

/-! ## Runs -/

/-- What is left of a record can take the place of one that the reader is in the middle of: it
    comes alone on a page of a channel, and does not fit on a page of a group. -/
def Replaces (c : RecordCodec R) (X : Export R) (gone : Nat → Bool) (i : Nat) : Room → Prop
  | .channel => FitsAlone c X gone i
  | .group => groupPageBytes < (c.serialize (X.erased i)).length

/-- When a pull makes progress: what the reader holds is not the beginning of a record that was
    erased since, or what is left of it can take its place. -/
def Meets (c : RecordCodec R) (room : Room) (X : Export R) (gone : Nat → Bool)
    (reader : Reader R) : Prop :=
  ∀ p ∈ reader.partialRecord, gone reader.progress.cursor = true →
    p.digest ≠ c.sha256 (c.serialize (X.erased reader.progress.cursor)) →
    Replaces c X gone reader.progress.cursor room

/-- A reader in step makes progress with a pull exactly if the condition holds. -/
theorem advances_iff (hc : c.Lawful) (hX : X.Valid c) (hserves : Serves X gone record)
    (h : InStep c room X gone reader) :
    Advances c room X gone record reader ↔ Meets c room X gone reader := by
  rcases h.holds with hnone | ⟨v, n, hheld, rfl | ⟨hgone, rfl⟩⟩
  · refine iff_of_true (advances_of_none hc hX hserves h hnone) fun p hp => ?_
    rw [hnone] at hp
    cases hp
  · rcases hgone : gone reader.progress.cursor with - | -
    · have hnow : X.now gone reader.progress.cursor = X.frozen reader.progress.cursor :=
        if_neg (hgone ▸ Bool.false_ne_true)
      refine iff_of_true (advances_of_current hc hX hserves h (hnow.symm ▸ hheld)) fun p _ ht => ?_
      rw [hgone] at ht
      cases ht
    · have hmeets : Meets c room X gone reader ↔
          Replaces c X gone reader.progress.cursor room := by
        rw [Meets, hheld.eq, held_of_ne hheld.ne]
        simp only [Option.mem_some_iff, forall_eq', hgone, forall_const]
        exact ⟨fun hm => hm (hX.digest _), fun hm _ => hm⟩
      rw [hmeets]
      cases room with
      | channel => exact channel_advances_iff hc hX hserves h hheld hgone
      | group => exact group_advances_iff hc hX hserves h hheld hgone
  · have hnow : X.now gone reader.progress.cursor = X.erased reader.progress.cursor := if_pos hgone
    refine iff_of_true (advances_of_current hc hX hserves h (hnow.symm ▸ hheld)) fun p hp _ hne => ?_
    rw [hheld.eq, held_of_ne hheld.ne, Option.mem_some_iff] at hp
    exact absurd (hp ▸ rfl) hne

/-- A reader stays in step while further rows are erased. -/
theorem InStep.mono {gone' : Nat → Bool} (h : InStep c room X gone reader)
    (hgone : ∀ i, gone i = true → gone' i = true) : InStep c room X gone' reader where
  complete := h.complete
  manifest := h.manifest
  total := h.total
  cursor := h.cursor
  unfinished := h.unfinished
  holds := by
    rcases h.holds with hnone | ⟨v, n, hheld, hv | ⟨ht, hv⟩⟩
    · exact .inl hnone
    · exact .inr ⟨v, n, hheld, .inl hv⟩
    · exact .inr ⟨v, n, hheld, .inr ⟨hgone _ ht, hv⟩⟩
  length := h.length
  delivered := h.delivered

variable (c room X) in
/-- The reader after some pulls, of a source whose rows change in between. -/
def pulls (record : Nat → Nat → Except String R) (start : Reader R) : Nat → Reader R
  | 0 => start
  | k + 1 =>
    let reader := pulls record start k
    if reader.progress.complete then reader
    else
      match exchange c room (record k) X.total reader with
      | .ok next => next
      | .error _ => reader

/-- The mark of a reader as a number. -/
def rank (c : RecordCodec R) (X : Export R) (reader : Reader R) : Nat :=
  reader.progress.cursor * (2 * (maxRecord + 1)) +
    ((if holdsErased c X reader then maxRecord + 1 else 0) + fragmentOffset reader.partialRecord)

/-- A reader never holds more than a record. -/
theorem InStep.offset_le (hX : X.Valid c) (h : InStep c room X gone reader) :
    fragmentOffset reader.partialRecord ≤ maxRecord := by
  rcases h.holds with hnone | ⟨v, n, hheld, hv⟩
  · rw [hnone]
    exact Nat.zero_le _
  · rw [hheld.offset]
    refine hheld.lt.le.trans ?_
    obtain rfl | ⟨-, rfl⟩ := hv
    · exact hX.size_frozen _
    · exact hX.size_erased _

theorem rank_lt_of_mark_lt {next : Reader R} (hoffset : fragmentOffset reader.partialRecord ≤ maxRecord)
    (h : mark c X reader < mark c X next) : rank c X reader < rank c X next := by
  rw [rank, rank]
  obtain hlt | ⟨heq, hlt⟩ := Prod.Lex.lt_iff.1 h
  · -- A later record counts more than all that may be held of an earlier one.
    have hlt' : reader.progress.cursor + 1 ≤ next.progress.cursor := hlt
    have hmul := Nat.mul_le_mul_right (2 * (maxRecord + 1)) hlt'
    rw [Nat.add_mul, one_mul] at hmul
    split_ifs <;> omega
  · have heq' : reader.progress.cursor = next.progress.cursor := heq
    rw [heq']
    obtain hflag | ⟨hflag, hbytes⟩ := Prod.Lex.lt_iff.1 hlt
    · obtain ⟨hf, ht⟩ : holdsErased c X reader = false ∧ holdsErased c X next = true :=
        Bool.lt_iff.1 hflag
      rw [if_neg (hf ▸ Bool.false_ne_true), if_pos ht]
      omega
    · have hflag' : holdsErased c X reader = holdsErased c X next := hflag
      have hbytes' : fragmentOffset reader.partialRecord < fragmentOffset next.partialRecord := hbytes
      rw [hflag']
      omega

/-- As long as the condition holds, the reader is done or in step, and every pull so far has taken
    it further. -/
theorem pulls_inStep (hc : c.Lawful) (hX : X.Valid c) {gone : Nat → Nat → Bool}
    {record : Nat → Nat → Except String R} {start : Reader R}
    (hserves : ∀ k, Serves X (gone k) (record k))
    (hgone : ∀ k i, gone k i = true → gone (k + 1) i = true)
    (hstart : InStep c room X (gone 0) start)
    (hmeets : ∀ k, (pulls c room X record start k).progress.complete = false →
      Meets c room X (gone k) (pulls c room X record start k)) (k : Nat) :
    (∃ j ≤ k, Done X (pulls c room X record start j) ∧
        ∀ i < j, Advances c room X (gone i) (record i) (pulls c room X record start i)) ∨
      InStep c room X (gone k) (pulls c room X record start k) ∧
        k ≤ rank c X (pulls c room X record start k) ∧
        ∀ i < k, Advances c room X (gone i) (record i) (pulls c room X record start i) := by
  induction k with
  | zero => exact .inr ⟨hstart, Nat.zero_le _, fun i hi => absurd hi i.not_lt_zero⟩
  | succ k ih =>
    obtain ⟨j, hj, hdone, hall⟩ | ⟨h, hrank, hall⟩ := ih
    · exact .inl ⟨j, hj.trans k.le_succ, hdone, hall⟩
    · have hadvances := (advances_iff hc hX (hserves k) h).2 (hmeets k h.complete)
      have hall' : ∀ i < k + 1, Advances c room X (gone i) (record i)
          (pulls c room X record start i) := by
        intro i hi
        rcases (Nat.lt_succ_iff.1 hi).lt_or_eq with hi | rfl
        · exact hall i hi
        · exact hadvances
      obtain ⟨next, hnext, hnext'⟩ := hadvances
      have heq : pulls c room X record start (k + 1) = next := by
        rw [pulls]
        simp only [h.complete, Bool.false_eq_true, if_false, hnext]
      rw [heq]
      obtain hdone | ⟨hstep, hmark⟩ := hnext'
      · exact .inl ⟨k + 1, le_rfl, heq.symm ▸ hdone, hall'⟩
      · refine .inr ⟨hstep.mono (hgone k), ?_, hall'⟩
        exact hrank.trans_lt (rank_lt_of_mark_lt (h.offset_le hX) hmark)

/-- A reader whose pulls all meet the condition gets everything, after finitely many pulls. -/
theorem pulls_done (hc : c.Lawful) (hX : X.Valid c) {gone : Nat → Nat → Bool}
    {record : Nat → Nat → Except String R} {start : Reader R}
    (hserves : ∀ k, Serves X (gone k) (record k))
    (hgone : ∀ k i, gone k i = true → gone (k + 1) i = true)
    (hstart : InStep c room X (gone 0) start)
    (hmeets : ∀ k, (pulls c room X record start k).progress.complete = false →
      Meets c room X (gone k) (pulls c room X record start k)) :
    ∃ k, Done X (pulls c room X record start k) ∧
      ∀ i < k, Advances c room X (gone i) (record i) (pulls c room X record start i) := by
  -- The rank of a reader in step is bounded, and grows with every pull.
  obtain ⟨k, hk⟩ : ∃ k, k = (X.total + 1) * (2 * (maxRecord + 1)) := ⟨_, rfl⟩
  obtain ⟨j, -, hdone⟩ | ⟨h, hrank, -⟩ := pulls_inStep hc hX hserves hgone hstart hmeets k
  · exact ⟨j, hdone⟩
  · have hoffset := h.offset_le hX
    have hcursor := Nat.mul_le_mul_right (2 * (maxRecord + 1)) h.cursor
    rw [rank] at hrank
    rw [Nat.add_mul, one_mul] at hk
    split_ifs at hrank <;> omega

end Import

/-! ## Rooms -/

/-- The rows of either kind of room. -/
inductive Source (Row R : Type)
  | channel (rows : ChannelRows Row R)
  | group (rows : GroupRows Row R)

namespace Source

variable (s : Source Row R)

def room : Room :=
  match s with
  | .channel _ => .channel
  | .group _ => .group

def frozenHistoryRecord (keys : Nat → Option FrozenKey) (rows : String → Option Row) (index : Nat) :
    Except String R :=
  match s with
  | .channel s => s.frozenHistoryRecord keys rows index
  | .group s => s.frozenHistoryRecord keys rows index

/-- The record of a row, and that it is bound to the key, for a row that is still there and for one
    that is erased. -/
def Bound (key : HistoryKey) (row : Row) (isGone : Bool) (r : R) : Prop :=
  match s with
  | .channel s =>
    (if isGone then s.fromStored row = none ∧ s.erasedHistoryRecord row key.digest = .ok r
      else s.fromStored row = some r) ∧ s.bindingDigest r = .ok key.digest
  | .group s =>
    s.isErased row = isGone ∧ s.retainedHistoryRecord row = .ok r ∧
      if isGone then s.recordHash r = key.digest ∧ s.sentAtMs r = key.sentAtMs
      else s.key row = .ok (some key)

/-- The source keeps the rows of an export, some of them erased. -/
def Keeps (X : Export R) (gone : Nat → Bool) (keys : Nat → Option FrozenKey)
    (rows : String → Option Row) : Prop :=
  ∀ i < X.total, ∃ key row, keys i = some key ∧ rows key.rowKey = some row ∧
    s.Bound key.key row (gone i) (X.now gone i)

/-- A source that keeps the rows finds the records. -/
theorem Keeps.serves {s : Source Row R} {X : Export R} {gone : Nat → Bool}
    {keys : Nat → Option FrozenKey} {rows : String → Option Row} (h : s.Keeps X gone keys rows) :
    Serves X gone (s.frozenHistoryRecord keys rows) := by
  intro i hi
  obtain ⟨key, row, hkey, hrow, hbound⟩ := h i hi
  cases s with
  | channel s =>
    obtain ⟨hrecord, hdigest⟩ := hbound
    have helim : (s.fromStored row).elim (s.erasedHistoryRecord row key.key.digest) .ok =
        .ok (X.now gone i) := by
      split_ifs at hrecord
      · rw [hrecord.1, Option.elim_none, hrecord.2]
      · rw [hrecord, Option.elim_some]
    simp [frozenHistoryRecord, ChannelRows.frozenHistoryRecord, hkey, hrow, helim, hdigest,
      Checked.getOr, Checked.check, Checked.ok_bind]
  | group s =>
    obtain ⟨herased, hrecord, hbinding⟩ := hbound
    rcases hgone : gone i with - | -
    · rw [hgone] at herased hbinding
      have hkey' : s.key row = .ok (some key.key) := hbinding
      simp [frozenHistoryRecord, GroupRows.frozenHistoryRecord, hkey, hrow, hrecord, herased,
        hkey', Checked.getOr, Checked.check, Checked.ok_bind]
    · rw [hgone] at herased hbinding
      obtain ⟨hhash, hsent⟩ : s.recordHash (X.now gone i) = key.key.digest ∧
        s.sentAtMs (X.now gone i) = key.key.sentAtMs := hbinding
      simp [frozenHistoryRecord, GroupRows.frozenHistoryRecord, hkey, hrow, hrecord, herased,
        hhash, hsent, Checked.getOr, Checked.check, Checked.ok_bind]

end Source

/-- When deleting rows at the source does not stop a recovery. For every export, every reader in
    step with it and all rows that were erased since, the next pull makes progress exactly if the
    reader does not hold the beginning of a record that was erased, or what is left of the record
    can take its place. A reader all of whose pulls meet this gets every record once, while more
    and more rows are erased. -/
theorem erasure_advances_iff {c : RecordCodec R} (hc : c.Lawful) {X : Export R} (hX : X.Valid c)
    (s : Source Row R) (keys : Nat → Option FrozenKey) :
    (∀ gone rows reader, s.Keeps X gone keys rows → InStep c s.room X gone reader →
      (Advances c s.room X gone (s.frozenHistoryRecord keys rows) reader ↔
        Meets c s.room X gone reader)) ∧
    ∀ (gone : Nat → Nat → Bool) (rows : Nat → String → Option Row) (start : Reader R),
      let record := fun k => s.frozenHistoryRecord keys (rows k)
      let after := pulls c s.room X record start
      (∀ k, s.Keeps X (gone k) keys (rows k)) →
      (∀ k i, gone k i = true → gone (k + 1) i = true) →
      InStep c s.room X (gone 0) start →
      (∀ k, (after k).progress.complete = false → Meets c s.room X (gone k) (after k)) →
      ∃ k, Done X (after k) ∧ ∀ i < k, Advances c s.room X (gone i) (record i) (after i) := by
  refine ⟨fun gone rows reader hkeeps h => advances_iff hc hX hkeeps.serves h, ?_⟩
  intro gone rows start record after hkeeps hgone hstart hmeets
  exact pulls_done hc hX (fun k => (hkeeps k).serves) hgone hstart hmeets

/-! ### A channel with a long message -/

/-- A record of a small channel: its bytes, and whether it is erased. -/
structure Slot where
  erased : Bool
  body : List UInt8

/-- A hash that tells a few lengths apart. -/
def lengthHash (bytes : List UInt8) : String :=
  String.ofList (List.replicate 63 '0' ++ [Base64.digit (26 + bytes.length % 6)])

/-- Records are written with a first byte that tells whether they are erased. -/
def slotCodec : RecordCodec Slot where
  sha256 := lengthHash
  encode := Base64.encode
  decode text := (Base64.decode text).elim (.error "invalid base64") .ok
  serialize r := (if r.erased then 1 else 0) :: r.body
  deserialize
    | [] => .error "empty record"
    | flag :: body => .ok ⟨flag = 1, body⟩
  erased := Slot.erased

theorem slotCodec_lawful : slotCodec.Lawful where
  size_sha256 bytes := by
    have hsize := (Base64.value_digit (n := 26 + bytes.length % 6) (by omega)).2
    have hzero : Char.utf8Size '0' = 1 := rfl
    change (lengthHash bytes).utf8ByteSize = 64
    rw [lengthHash, Base64.utf8ByteSize_ofList, List.map_append, List.map_replicate, List.sum_append,
      List.sum_replicate, List.map_singleton, List.sum_singleton, hsize, hzero]
    rfl
  decode_encode bytes := by
    simp [slotCodec, Base64.decode_encode]
  size_encode bytes := Base64.utf8ByteSize_encode bytes
  deserialize_serialize r := by
    obtain ⟨erased, body⟩ := r
    cases erased <;> rfl
  serialize_ne_nil r := List.cons_ne_nil _ _

/-- The first message is as long as a text can get, the others are short. -/
def bodySize (i : Nat) : Nat := if i = 0 then 24540 else 5

/-- A long message, with `n` short ones after it. -/
def longFirst (n : Nat) : Export Slot where
  manifest := String.ofList (List.replicate 64 'a')
  total := n + 1
  frozen i := ⟨false, List.replicate (bodySize i) 0⟩
  erased _ := ⟨true, [0, 0]⟩

theorem length_frozen (n i : Nat) :
    (slotCodec.serialize ((longFirst n).frozen i)).length = bodySize i + 1 :=
  congrArg (· + 1) List.length_replicate

theorem length_erased (n i : Nat) :
    (slotCodec.serialize ((longFirst n).erased i)).length = 3 := rfl

theorem bodySize_eq (i : Nat) : bodySize i = 24540 ∨ bodySize i = 5 := by
  rw [bodySize]
  split
  · exact .inl rfl
  · exact .inr rfl

theorem longFirst_valid {n : Nat} (hn : n < 8) : (longFirst n).Valid slotCodec where
  manifest := by
    change canonicalHex (String.ofList (List.replicate 64 'a')) 64 = true
    decide
  total := by
    change n + 1 < _
    omega
  size_frozen i := by
    have hsize := bodySize_eq i
    rw [length_frozen, maxRecord]
    omega
  size_erased i := by
    rw [length_erased, maxRecord]
    omega
  live i := rfl
  erased i := rfl
  digest i := by
    -- The lengths are 24541 or 6, and 3.
    change lengthHash _ ≠ lengthHash _
    rw [lengthHash, lengthHash, length_frozen, length_erased]
    obtain hsize | hsize := bodySize_eq i
    · rw [hsize]
      decide
    · rw [hsize]
      decide

/-- A row is the record at its index, whole or erased, and the keys are numbered. -/
def slotRows : ChannelRows Slot Slot where
  fromStored row := if row.erased then none else some row
  erasedHistoryRecord row _ := .ok row
  bindingDigest _ := .ok "digest"

def slotKey (i : Nat) : Option FrozenKey := some ⟨⟨"m", i, "digest"⟩, i.repr⟩

/-- The rows after the first message was erased. -/
def firstErased (n : Nat) (key : String) : Option Slot :=
  some (if key = "0" then (longFirst n).erased 0 else (longFirst n).frozen 1)

theorem firstErased_keeps {n : Nat} (hn : n < 8) :
    (Source.channel slotRows).Keeps (longFirst n) (· = 0) slotKey (firstErased n) := by
  intro i hi
  have hrepr : ∀ i < 8, i ≠ 0 → i.repr ≠ "0" := by decide
  refine ⟨⟨⟨"m", i, "digest"⟩, i.repr⟩,
    if i.repr = "0" then (longFirst n).erased 0 else (longFirst n).frozen 1, rfl, rfl, ?_, rfl⟩
  rcases eq_or_ne i 0 with rfl | hne
  · exact ⟨rfl, rfl⟩
  · have hne' : i.repr ≠ "0" := hrepr i (by change i < n + 1 at hi; omega) hne
    have hsize : bodySize i = bodySize 1 := (if_neg hne).trans (if_neg one_ne_zero).symm
    have hfrozen : (longFirst n).frozen i = (longFirst n).frozen 1 :=
      congrArg (fun m => Slot.mk false (List.replicate m 0)) hsize
    have hkept : decide (i = 0) = false := decide_eq_false hne
    simp only [hkept, if_neg hne', Export.now, if_neg Bool.false_ne_true, hfrozen]
    rfl

/-- The reader has the first 3,000 bytes of the long message. -/
def inLong (n : Nat) : Reader Slot where
  progress :=
    { manifest := some (longFirst n).manifest
      total := some (longFirst n).total }
  partialRecord :=
    held slotCodec.toFragmentCodec (slotCodec.serialize ((longFirst n).frozen 0)) 3000
  delivered := []

theorem inLong_holds (n : Nat) :
    Holds slotCodec .channel (longFirst n) (inLong n) ((longFirst n).frozen 0) 3000 where
  eq := rfl
  cursor := n.succ_pos
  ne := by omega
  lt := by
    rw [length_frozen]
    decide
  chunk := rfl
  large := by
    rw [length_frozen]
    decide

theorem inLong_inStep (n : Nat) :
    InStep slotCodec .channel (longFirst n) (· = 0) (inLong n) where
  complete := rfl
  manifest := rfl
  total := rfl
  cursor := Nat.zero_le _
  unfinished h := absurd h (Nat.succ_ne_zero n).symm
  holds := .inr ⟨_, 3000, inLong_holds n, .inl rfl⟩
  length := rfl
  delivered _ _ h := nomatch h

/-- If the message has no successor, its erasure is taken. -/
theorem erasure_advances_last :
    Advances slotCodec .channel (longFirst 0) (· = 0)
      (slotRows.frozenHistoryRecord slotKey (firstErased 0)) (inLong 0) := by
  refine ((erasure_advances_iff slotCodec_lawful (longFirst_valid (by omega))
    (Source.channel slotRows) slotKey).1 _ _ _ (firstErased_keeps (by omega))
    (inLong_inStep 0)).2 fun p _ _ _ => ⟨?_, .inl rfl⟩
  rw [length_erased]
  decide

/-- If it has one, the recovery stops: the source turns every pull down, as the successor fits on
    the page and is not erased. -/
theorem erasure_stalls :
    slotCodec.Lawful ∧ (longFirst 1).Valid slotCodec ∧
      (Source.channel slotRows).Keeps (longFirst 1) (· = 0) slotKey (firstErased 1) ∧
      InStep slotCodec .channel (longFirst 1) (· = 0) (inLong 1) ∧
      ¬ Advances slotCodec .channel (longFirst 1) (· = 0)
        (slotRows.frozenHistoryRecord slotKey (firstErased 1)) (inLong 1) := by
  refine ⟨slotCodec_lawful, longFirst_valid (by omega), firstErased_keeps (by omega),
    inLong_inStep 1, fun hadvances => ?_⟩
  have halone := (channel_advances_iff slotCodec_lawful (longFirst_valid (by omega))
    (firstErased_keeps (n := 1) (by omega)).serves (inLong_inStep 1) (inLong_holds 1) rfl).1
    hadvances
  obtain hlast | hlong := halone.2
  · cases hlast
  · have hnext : (longFirst 1).now (· = 0) ((inLong 1).progress.cursor + 1) =
        (longFirst 1).frozen 1 := rfl
    rw [hnext, length_erased, length_frozen] at hlong
    exact absurd hlong (by decide)

end Mosh.Recovery
