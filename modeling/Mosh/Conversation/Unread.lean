import Mosh.Conversation.ReadMarks
import Mosh.Library.Format
import Mosh.Library.Run
import Mosh.Library.Table

/-!
# Unread messages

The marks of the conversations of one kind are in memory and in the database
(`conversation/read_marks.rs`, `persistence/read_marks.rs`). A mark is created when a
conversation is taken in, and changes when the user reads it. What is unread is read off the
mark and the log at every poll.

* `state_perm`: in whatever order the messages of the log arrived, the same ones are unread;
* `count_startingAfter_iff`: when nothing is unread by a new mark;
* `Tracked.step`: the mark knows how many messages that count were read;
* `unread_exact`: when the messages that are added later are the unread ones, in all runs.
-/

namespace Mosh.Conversation

open ConversationMessage Run

/-! ## The marks -/

/-- The JSON of a mark. -/
structure MarkCodec where
  toVec : ReadMark → Except String (List UInt8)
  fromSlice : List UInt8 → Except String ReadMark

/-- What was written can be read. -/
structure MarkCodec.Laws (c : MarkCodec) : Prop where
  reads : ∀ mark : ReadMark, mark.floorMs < 2 ^ 64 → mark.seen < 2 ^ 32 →
    ∃ bytes, c.toVec mark = .ok bytes ∧ c.fromSlice bytes = .ok mark

/-- The rows of the marks in the database. -/
abbrev MarkRows := Std.ExtTreeMap String (List UInt8) compare

/-- The clock and the database during a call: there may be none, and it can refuse to read or to
    write. -/
structure MarkTurn where
  nowMs : Nat
  persistent : Bool
  getFails : Option String
  putFails : Option String

/-- The marks of one conversation kind, read from the store once each. -/
structure ReadMarks where
  label : String
  marks : Std.ExtTreeMap String ReadMark compare := ∅

namespace ReadMarks

variable (c : MarkCodec) (turn : MarkTurn)

def readMarkKey (label id : String) : String := label ++ ":" ++ id

/-- The stored mark of a conversation. -/
def load (r : ReadMarks) (rows : MarkRows) (id : String) : Except Unit (Option ReadMark) :=
  match turn.getFails with
  | some _ => .error ()
  | none =>
    match rows[readMarkKey r.label id]? with
    | none => .ok none
    | some bytes =>
      match c.fromSlice bytes with
      | .ok mark => .ok (some mark)
      | .error _ => .error ()

/-- Keeps the mark in memory even when the write is refused. -/
def save (r : ReadMarks) (rows : MarkRows) (id : String) (mark : ReadMark) :
    ReadMarks × MarkRows :=
  let r := { r with marks := r.marks.insert id mark }
  if !turn.persistent then (r, rows)
  else
    match c.toVec mark, turn.putFails with
    | .ok bytes, none => (r, rows.insert (readMarkKey r.label id) bytes)
    | _, _ => (r, rows)

section Code

variable {M : Type} [ConversationMessage M]

/-- The stored mark, or a new one saved now. A store that cannot be read gets a mark for this
    answer only. -/
def mark (r : ReadMarks) (rows : MarkRows) (id : String) (log : List M) :
    ReadMark × ReadMarks × MarkRows :=
  match r.marks[id]? with
  | some mark => (mark, r, rows)
  | none =>
    match if turn.persistent then r.load c turn rows id else .ok none with
    | .ok (some mark) => (mark, { r with marks := r.marks.insert id mark }, rows)
    | .ok none =>
      let mark := ReadMark.startingAfter log turn.nowMs
      (mark, r.save c turn rows id mark)
    | .error () => (ReadMark.startingAfter log turn.nowMs, r, rows)

/-- What is unread of a conversation. -/
def state (r : ReadMarks) (rows : MarkRows) (id : String) (log : List M) (ownAuthor : String) :
    UnreadState × ReadMarks × MarkRows :=
  let (mark, r, rows) := r.mark c turn rows id log
  (mark.state log ownAuthor, r, rows)

/-- Loads the conversation's mark, or creates it from what the log holds. -/
def prime (r : ReadMarks) (rows : MarkRows) (id : String) (log : List M) : ReadMarks × MarkRows :=
  (r.mark c turn rows id log).2

/-- Everything incoming is now seen. Saved only when that changes. -/
def markRead (r : ReadMarks) (rows : MarkRows) (id : String) (log : List M) (ownAuthor : String) :
    ReadMarks × MarkRows :=
  let (mark, r, rows) := r.mark c turn rows id log
  if mark.markRead log ownAuthor ≠ mark then r.save c turn rows id (mark.markRead log ownAuthor)
  else (r, rows)

/-- The conversation is not in memory any more. -/
def forget (r : ReadMarks) (id : String) : ReadMarks := { r with marks := r.marks.erase id }

end Code

end ReadMarks

/-! ## The messages that count -/

namespace ReadMark

variable {M : Type} [ConversationMessage M] {mark : ReadMark} {log log' : List M}
  {ownAuthor : String}

/-- The place of a message in the order. -/
def sendKey (m : M) : Option Nat × Option String := (sentAtMs m, messageId m)

/-- Messages in send order have their places in order. -/
theorem map_sendKey_incoming : (mark.incoming log ownAuthor).map sendKey =
    ((log.filter (mark.counts ownAuthor)).map sendKey).mergeSort
      fun a b => (compareLex (compareOn Prod.fst) (compareOn Prod.snd) a b).isLE :=
  List.map_mergeSort fun _ _ _ _ => rfl

/-- Places are in the same order however they come. -/
theorem mergeSort_perm_keys {keys keys' : List (Option Nat × Option String)}
    (h : keys.Perm keys') :
    keys.mergeSort (fun a b => (compareLex (compareOn Prod.fst) (compareOn Prod.snd) a b).isLE) =
      keys'.mergeSort fun a b =>
        (compareLex (compareOn Prod.fst) (compareOn Prod.snd) a b).isLE := by
  let cmp : Option Nat × Option String → Option Nat × Option String → Ordering :=
    compareLex (compareOn Prod.fst) (compareOn Prod.snd)
  have htrans : Std.TransCmp cmp := inferInstance
  have htotal : ∀ a b, ((cmp a b).isLE || (cmp b a).isLE) = true := by
    intro a b
    have hswap : cmp a b = (cmp b a).swap := Std.OrientedCmp.eq_swap
    rw [hswap]
    cases cmp b a <;> rfl
  have hantisymm : ∀ a b, (cmp a b).isLE = true → (cmp b a).isLE = true → a = b := by
    intro a b hab hba
    have heq : cmp a b = .eq := Std.OrientedCmp.isLE_antisymm hab hba
    have hlex : compare a.1 b.1 = .eq ∧ compare a.2 b.2 = .eq := by
      simpa [cmp, compareLex, compareOn, Ordering.then_eq_eq] using heq
    exact Prod.ext (Std.LawfulEqOrd.eq_of_compare hlex.1) (Std.LawfulEqOrd.eq_of_compare hlex.2)
  have hsorted : ∀ l : List (Option Nat × Option String),
      (l.mergeSort fun a b => (cmp a b).isLE).Pairwise fun a b => (cmp a b).isLE = true :=
    List.pairwise_mergeSort (fun a b c => Std.TransCmp.isLE_trans) htotal
  exact ((List.mergeSort_perm _ _).trans (h.trans (List.mergeSort_perm _ _).symm)).eq_of_pairwise
    (fun a b _ _ => hantisymm a b) (hsorted keys) (hsorted keys')

/-- In whatever order the messages of the log arrived, the same ones are unread. -/
theorem state_perm (h : log.Perm log') :
    mark.state log' ownAuthor = mark.state log ownAuthor := by
  have hkeys : (mark.incoming log' ownAuthor).map sendKey =
      (mark.incoming log ownAuthor).map sendKey := by
    rw [map_sendKey_incoming, map_sendKey_incoming]
    exact mergeSort_perm_keys ((h.symm.filter _).map _)
  refine state_congr ?_
  have hids := congrArg (List.map Prod.snd) hkeys
  rwa [List.map_map, List.map_map] at hids

/-- As many messages count as are in send order. -/
theorem length_incoming : (mark.incoming log ownAuthor).length =
    log.countP (mark.counts ownAuthor) := by
  rw [incoming, List.length_mergeSort, List.countP_eq_length_filter]

/-- Which messages count depends on the floor alone. -/
theorem counts_congr {other : ReadMark} (h : other.floorMs = mark.floorMs) (m : M) :
    other.counts ownAuthor m = mark.counts ownAuthor m := by
  rw [counts, counts, sinceFloor, sinceFloor, h]

/-- What is unread of a log that holds what was read, and more. -/
theorem state_eq {read added : List M} (hlog : log.Perm (read ++ added))
    (hlen : log.length < 2 ^ 32) (hseen : mark.seen = read.countP (mark.counts ownAuthor)) :
    mark.state log ownAuthor =
      ⟨added.countP (mark.counts ownAuthor), (mark.incoming log ownAuthor)[mark.seen]?.bind messageId⟩ := by
  have hcount : (mark.incoming log ownAuthor).length =
      mark.seen + added.countP (mark.counts ownAuthor) := by
    rw [length_incoming, hlog.countP_eq, List.countP_append, hseen]
  have hle : (mark.incoming log ownAuthor).length < 2 ^ 32 := by
    rw [length_incoming]
    exact List.countP_le_length.trans_lt hlen
  have hunread : ((mark.incoming log ownAuthor).length - mark.seen) % 2 ^ 32 =
      added.countP (mark.counts ownAuthor) := by
    rw [Nat.mod_eq_of_lt (by omega)]
    omega
  rw [state, min_eq_left (by omega), hunread]

/-- Everything is seen. -/
theorem markRead_eq (hlen : log.length < 2 ^ 32) : mark.markRead log ownAuthor =
    ⟨mark.floorMs, log.countP (mark.counts ownAuthor)⟩ := by
  have hle : log.countP (mark.counts ownAuthor) < 2 ^ 32 := List.countP_le_length.trans_lt hlen
  rw [markRead, length_incoming, Nat.mod_eq_of_lt hle]

/-! ## A new mark -/

/-- The message is someone else's, and no service line and no call. -/
def isIncoming (ownAuthor : String) (m : M) : Bool :=
  !own ownAuthor m && !isService m && (callId m).isNone

/-- If somebody else's message is held, then it has a time, and no message has the last time that
    there is. -/
def HeldRead (ownAuthor : String) (log : List M) : Prop :=
  ∀ m ∈ log, isIncoming ownAuthor m = true →
    (∃ sent, sentAtMs m = some sent) ∧ ∀ other ∈ log, sentAtMs other ≠ some (2 ^ 64 - 1)

/-- The floor is behind the newest message. -/
theorem floorMs_startingAfter {nowMs newest : Nat}
    (h : (log.filterMap sentAtMs).max? = some newest) :
    (startingAfter log nowMs).floorMs = (newest + 1) % 2 ^ 64 := by
  rw [startingAfter, h]
  rfl

/-- Nothing that was held is unread by a new mark exactly if its floor can be above all times. -/
theorem count_startingAfter_iff {nowMs : Nat}
    (htimes : ∀ m ∈ log, ∀ sent, sentAtMs m = some sent → sent < 2 ^ 64) :
    log.countP ((startingAfter log nowMs).counts ownAuthor) = 0 ↔ HeldRead ownAuthor log := by
  rw [List.countP_eq_zero]
  constructor
  · intro h m hm hkind
    have hsince : (startingAfter log nowMs).sinceFloor m = false := by
      have hcounts := h m hm
      rw [counts, ← isIncoming, hkind, Bool.true_and] at hcounts
      exact Bool.eq_false_of_not_eq_true hcounts
    rw [sinceFloor, decide_eq_false_iff_not, ge_iff_le, not_le] at hsince
    cases hsent : sentAtMs m with
    | none =>
      rw [hsent, Option.getD_none] at hsince
      exact absurd hsince (lt_irrefl _)
    | some sent =>
      refine ⟨⟨sent, rfl⟩, fun other hother hlast => ?_⟩
      -- the newest time is the last one, and the floor is zero
      have hmem : 2 ^ 64 - 1 ∈ log.filterMap sentAtMs :=
        List.mem_filterMap.2 ⟨other, hother, hlast⟩
      have hmax : (log.filterMap sentAtMs).max? = some (2 ^ 64 - 1) := by
        refine List.max?_eq_some_iff.2 ⟨hmem, fun time htime => ?_⟩
        obtain ⟨m', hm', htime'⟩ := List.mem_filterMap.1 htime
        have := htimes m' hm' time htime'
        omega
      have hfloor : (startingAfter log nowMs).floorMs = 0 := by
        rw [floorMs_startingAfter hmax, Nat.sub_add_cancel Nat.one_le_two_pow, Nat.mod_self]
      rw [hfloor] at hsince
      exact absurd hsince (Nat.not_lt_zero _)
  · intro h m hm hcounts
    have hkind : isIncoming ownAuthor m = true := by
      rw [counts, ← isIncoming, Bool.and_eq_true] at hcounts
      exact hcounts.1
    obtain ⟨⟨sent, hsent⟩, hlast⟩ := h m hm hkind
    have hno : m ∉ (startingAfter log nowMs).incoming log ownAuthor := by
      refine incoming_startingAfter hm hsent fun other hother time htime => ?_
      have hlt := htimes other hother time htime
      have hne : time ≠ 2 ^ 64 - 1 := by
        rintro rfl
        exact hlast other hother htime
      omega
    rw [incoming, List.mem_mergeSort, List.mem_filter] at hno
    exact hno ⟨hm, hcounts⟩

end ReadMark

/-! ## What a call does to the marks -/

namespace ReadMarks

variable {M : Type} [ConversationMessage M] {c : MarkCodec} {turn : MarkTurn} {r : ReadMarks}
  {rows : MarkRows} {id other : String} {mark : ReadMark} {log : List M} {ownAuthor : String}

/-- The mark of a conversation is in the database. -/
def Stored (c : MarkCodec) (r : ReadMarks) (rows : MarkRows) (id : String) (mark : ReadMark) : Prop :=
  ∃ bytes, rows[readMarkKey r.label id]? = some bytes ∧ c.fromSlice bytes = .ok mark

/-- A conversation has a mark, which is in memory, or in the database only. -/
def Holds (c : MarkCodec) (r : ReadMarks) (rows : MarkRows) (id : String) (mark : ReadMark) : Prop :=
  r.marks[id]? = some mark ∨ r.marks[id]? = none ∧ Stored c r rows id mark

/-- Marks that are not in memory can be read. -/
def Readable (turn : MarkTurn) (r : ReadMarks) (id : String) : Prop :=
  r.marks[id]? = none → turn.persistent = true ∧ turn.getFails = none

/-- The marks of a kind, and what is known and stored of one conversation, are the same. -/
structure SameMark (r : ReadMarks) (rows : MarkRows) (r' : ReadMarks) (rows' : MarkRows)
    (id : String) : Prop where
  label : r'.label = r.label
  marks : r'.marks[id]? = r.marks[id]?
  row : rows'[readMarkKey r.label id]? = rows[readMarkKey r.label id]?

theorem readMarkKey_inj {label : String} : readMarkKey label id = readMarkKey label other ↔ id = other := by
  rw [readMarkKey, readMarkKey]
  exact String.append_right_inj _

theorem Holds.congr {r' : ReadMarks} {rows' : MarkRows} (h : Holds c r rows id mark)
    (hsame : SameMark r rows r' rows' id) : Holds c r' rows' id mark := by
  rw [Holds, Stored, hsame.marks, hsame.label, hsame.row]
  exact h

/-- A mark that is there is the one that counts. -/
theorem mark_of_holds (h : Holds c r rows id mark) (hread : Readable turn r id) :
    ∃ r', r.mark c turn rows id log = (mark, r', rows) ∧ r'.label = r.label ∧
      r'.marks[id]? = some mark := by
  rw [ReadMarks.mark]
  rcases h with hsome | ⟨hnone, bytes, hrow, hbytes⟩
  · rw [hsome]
    exact ⟨r, rfl, rfl, hsome⟩
  · obtain ⟨hpersistent, hget⟩ := hread hnone
    have hload : r.load c turn rows id = .ok (some mark) := by
      rw [load, hget]
      dsimp only
      rw [hrow]
      dsimp only
      rw [hbytes]
    rw [hnone, if_pos hpersistent, hload]
    exact ⟨_, rfl, rfl, by rw [Table.getElem?_insert, if_pos rfl]⟩

/-- A mark that is saved is in memory. -/
theorem save_marks : (r.save c turn rows id mark).1 = { r with marks := r.marks.insert id mark } := by
  rw [save]
  split
  · rfl
  · split
    · rfl
    · rfl

/-- If the database takes it, it is there, too. -/
theorem save_stored (hc : c.Laws) (hfloor : mark.floorMs < 2 ^ 64) (hseen : mark.seen < 2 ^ 32)
    (hpersistent : turn.persistent = true) (hput : turn.putFails = none) :
    Stored c (r.save c turn rows id mark).1 (r.save c turn rows id mark).2 id mark := by
  obtain ⟨bytes, hvec, hslice⟩ := hc.reads mark hfloor hseen
  refine ⟨bytes, ?_, hslice⟩
  rw [save_marks, save, hpersistent, hvec, hput]
  exact (Table.getElem?_insert _ _ _ _).trans (if_pos rfl)

theorem save_holds : Holds c (r.save c turn rows id mark).1 (r.save c turn rows id mark).2 id mark := by
  refine .inl ?_
  rw [save_marks, Table.getElem?_insert, if_pos rfl]

/-- The other conversations keep their marks. -/
theorem sameMark_save (hne : other ≠ id) :
    SameMark r rows (r.save c turn rows other mark).1 (r.save c turn rows other mark).2 id := by
  have hrow : (r.save c turn rows other mark).2[readMarkKey r.label id]? =
      rows[readMarkKey r.label id]? := by
    rw [save]
    split
    · rfl
    · split
      · rw [Table.getElem?_insert, if_neg fun heq => hne (readMarkKey_inj.1 heq)]
      · rfl
  refine ⟨by rw [save_marks], ?_, hrow⟩
  rw [save_marks, Table.getElem?_insert, if_neg hne]

theorem sameMark_mark (hne : other ≠ id) :
    SameMark r rows (r.mark c turn rows other log).2.1 (r.mark c turn rows other log).2.2 id := by
  rw [ReadMarks.mark]
  split
  · exact ⟨rfl, rfl, rfl⟩
  · split
    · refine ⟨rfl, ?_, rfl⟩
      rw [Table.getElem?_insert, if_neg hne]
    · exact sameMark_save hne
    · exact ⟨rfl, rfl, rfl⟩

theorem SameMark.trans {r' r'' : ReadMarks} {rows' rows'' : MarkRows}
    (h : SameMark r rows r' rows' id) (h' : SameMark r' rows' r'' rows'' id) :
    SameMark r rows r'' rows'' id :=
  ⟨h'.label.trans h.label, h'.marks.trans h.marks, h.label ▸ (h'.row.trans (h.label ▸ h.row))⟩

theorem sameMark_markRead (hne : other ≠ id) :
    SameMark r rows (r.markRead c turn rows other log ownAuthor).1
      (r.markRead c turn rows other log ownAuthor).2 id := by
  have hmark : SameMark r rows (r.mark c turn rows other log).2.1
      (r.mark c turn rows other log).2.2 id := sameMark_mark hne
  rw [ReadMarks.markRead]
  dsimp only
  split
  · exact hmark.trans (sameMark_save hne)
  · exact hmark

end ReadMarks

/-! ## A conversation -/

/-- What is called for a conversation. -/
inductive MarkCall
  | state | prime | markRead | forget

/-- The marks, and the log of one conversation: the messages that it held when it was last read, or
    when its mark was created, and those that were added since. -/
structure Viewing (M : Type) where
  marks : ReadMarks
  rows : MarkRows
  log : List M
  read : List M
  added : List M

/-- What happens to a conversation: a message is added to its log, something is called for it or
    for another one, or the app starts again. -/
inductive ViewEvent (M : Type)
  | add (m : M) (log : List M)
  | call (call : MarkCall) (turn : MarkTurn)
  | elsewhere (call : MarkCall) (turn : MarkTurn) (id : String) (log : List M) (ownAuthor : String)
  | restart (log : List M)

namespace Viewing

open ReadMarks

variable {M : Type} [ConversationMessage M]

/-- The marks after a call. -/
def called (c : MarkCodec) (r : ReadMarks) (rows : MarkRows) (id : String) (log : List M)
    (ownAuthor : String) (turn : MarkTurn) : MarkCall → ReadMarks × MarkRows
  | .state => (r.state c turn rows id log ownAuthor).2
  | .prime => r.prime c turn rows id log
  | .markRead => r.markRead c turn rows id log ownAuthor
  | .forget => (r.forget id, rows)

/-- One event. -/
def step (c : MarkCodec) (id ownAuthor : String) (s : Viewing M) : ViewEvent M → Viewing M
  | .add m log => { s with log, added := s.added ++ [m] }
  | .call call turn =>
    let (marks, rows) := called c s.marks s.rows id s.log ownAuthor turn call
    match call with
    | .markRead => { s with marks, rows, read := s.log, added := [] }
    | _ => { s with marks, rows }
  | .elsewhere call turn other log author =>
    let (marks, rows) := called c s.marks s.rows other log author turn call
    { s with marks, rows }
  | .restart log => { s with marks := { label := s.marks.label }, log }

/-- What is in memory of a conversation is also in the database. -/
def Persisted (c : MarkCodec) (id : String) (s : Viewing M) : Prop :=
  ∀ mark, s.marks.marks[id]? = some mark → Stored c s.marks s.rows id mark

/-- The log has a message more, at any place, and fewer than `seen` can count; marks are read from
    the database when they are needed; and the app is left, or the conversation forgotten, when its
    mark is in the database. -/
def Goes (c : MarkCodec) (id : String) (s : Viewing M) : ViewEvent M → Prop
  | .add m log => log.Perm (m :: s.log) ∧ log.length < 2 ^ 32
  | .call .forget _ => s.Persisted c id
  | .call _ turn => Readable turn s.marks id
  | .elsewhere _ _ other _ _ => other ≠ id
  | .restart log => log.Perm s.log ∧ s.Persisted c id

/-- The mark of a conversation is created from what its log holds. -/
def created (c : MarkCodec) (turn : MarkTurn) (marks : ReadMarks) (rows : MarkRows) (id : String)
    (log : List M) : Viewing M where
  marks := (marks.prime c turn rows id log).1
  rows := (marks.prime c turn rows id log).2
  log := log
  read := log
  added := []

/-- The database takes what is written in an event. -/
def Writes : ViewEvent M → Prop
  | .call _ turn => turn.persistent = true ∧ turn.putFails = none
  | _ => True

/-- What the user sees: as many messages are unread as were added since the conversation was read,
    and the first one of them is at its place in send order, now and after a restart. What is in
    memory stays in the database as long as it takes what is written. -/
structure Exact (c : MarkCodec) (id ownAuthor : String) (floorMs : Nat) (s : Viewing M) : Prop where
  now : ∀ turn, Readable turn s.marks id →
    (s.marks.state c turn s.rows id s.log ownAuthor).1 =
      ⟨s.added.countP ((ReadMark.mk floorMs 0).counts ownAuthor),
        ((ReadMark.mk floorMs 0).incoming s.log ownAuthor)[s.read.countP
          ((ReadMark.mk floorMs 0).counts ownAuthor)]?.bind messageId⟩
  later : ∀ turn turn' log, Readable turn s.marks id → s.Goes c id (.restart log) →
    turn'.persistent = true → turn'.getFails = none →
      ((s.step c id ownAuthor (.restart log)).marks.state c turn' s.rows id log ownAuthor).1 =
        (s.marks.state c turn s.rows id s.log ownAuthor).1
  persisted : s.Persisted c id → ∀ event, s.Goes c id event → Writes event →
    (s.step c id ownAuthor event).Persisted c id

variable {c : MarkCodec} {id ownAuthor : String} {floorMs : Nat} {s : Viewing M}

/-- The mark of a conversation says how many of its messages were read. -/
structure Tracked (c : MarkCodec) (id ownAuthor : String) (floorMs : Nat) (s : Viewing M) : Prop where
  log : s.log.Perm (s.read ++ s.added)
  few : s.log.length < 2 ^ 32
  holds : Holds c s.marks s.rows id
    ⟨floorMs, s.read.countP ((ReadMark.mk floorMs 0).counts ownAuthor)⟩

/-- The marks of another conversation change nothing. -/
theorem Tracked.congr {marks : ReadMarks} {rows : MarkRows} (h : Tracked c id ownAuthor floorMs s)
    (hsame : SameMark s.marks s.rows marks rows id) :
    Tracked c id ownAuthor floorMs { s with marks, rows } :=
  ⟨h.log, h.few, h.holds.congr hsame⟩

theorem sameMark_called {other : String} (hne : other ≠ id) (r : ReadMarks) (rows : MarkRows)
    (log : List M) (author : String) (turn : MarkTurn) (call : MarkCall) :
    SameMark r rows (called c r rows other log author turn call).1
      (called c r rows other log author turn call).2 id := by
  cases call with
  | state => exact sameMark_mark hne
  | prime => exact sameMark_mark hne
  | markRead => exact sameMark_markRead hne
  | forget =>
    refine ⟨rfl, ?_, rfl⟩
    rw [called, ReadMarks.forget, Table.getElem?_erase, if_neg hne]

/-- A mark in memory that is forgotten is still in the database. -/
theorem Tracked.stored (h : Tracked c id ownAuthor floorMs s) (hpersisted : s.Persisted c id) :
    Stored c s.marks s.rows id
      ⟨floorMs, s.read.countP ((ReadMark.mk floorMs 0).counts ownAuthor)⟩ := by
  rcases h.holds with hsome | ⟨-, hstored⟩
  · exact hpersisted _ hsome
  · exact hstored

/-- The mark is found. -/
theorem Tracked.mark (h : Tracked c id ownAuthor floorMs s) {turn : MarkTurn}
    (hread : Readable turn s.marks id) :
    ∃ r', s.marks.mark c turn s.rows id s.log =
      (⟨floorMs, s.read.countP ((ReadMark.mk floorMs 0).counts ownAuthor)⟩, r', s.rows) ∧
        r'.label = s.marks.label ∧ r'.marks[id]? =
          some ⟨floorMs, s.read.countP ((ReadMark.mk floorMs 0).counts ownAuthor)⟩ :=
  mark_of_holds h.holds hread

/-- An event does not change what the mark knows. -/
theorem Tracked.step (h : Tracked c id ownAuthor floorMs s) {event : ViewEvent M}
    (hgoes : s.Goes c id event) : Tracked c id ownAuthor floorMs (s.step c id ownAuthor event) := by
  cases event with
  | add m log =>
    obtain ⟨hperm, hlen⟩ := hgoes
    refine ⟨?_, hlen, h.holds⟩
    change log.Perm (s.read ++ (s.added ++ [m]))
    rw [← List.append_assoc]
    exact hperm.trans ((h.log.cons m).trans (List.perm_append_singleton m _).symm)
  | call call turn =>
    cases call with
    | state =>
      obtain ⟨r', heq, -, hsome⟩ := h.mark hgoes
      refine ⟨h.log, h.few, ?_⟩
      change Holds c (s.marks.mark c turn s.rows id s.log).2.1
        (s.marks.mark c turn s.rows id s.log).2.2 id _
      rw [heq]
      exact .inl hsome
    | prime =>
      obtain ⟨r', heq, -, hsome⟩ := h.mark hgoes
      refine ⟨h.log, h.few, ?_⟩
      change Holds c (s.marks.mark c turn s.rows id s.log).2.1
        (s.marks.mark c turn s.rows id s.log).2.2 id _
      rw [heq]
      exact .inl hsome
    | markRead =>
      obtain ⟨r', heq, -, hsome⟩ := h.mark hgoes
      refine ⟨?_, h.few, ?_⟩
      · change s.log.Perm (s.log ++ [])
        rw [List.append_nil]
      · change Holds c (s.marks.markRead c turn s.rows id s.log ownAuthor).1
          (s.marks.markRead c turn s.rows id s.log ownAuthor).2 id
            ⟨floorMs, s.log.countP ((ReadMark.mk floorMs 0).counts ownAuthor)⟩
        have hseen : (ReadMark.mk floorMs (s.read.countP
            ((ReadMark.mk floorMs 0).counts ownAuthor))).markRead s.log ownAuthor =
              ⟨floorMs, s.log.countP ((ReadMark.mk floorMs 0).counts ownAuthor)⟩ :=
          ReadMark.markRead_eq h.few
        rw [ReadMarks.markRead, heq]
        dsimp only
        split
        · next hne =>
          rw [hseen]
          exact save_holds
        · next heq' =>
          rw [not_not, hseen] at heq'
          rw [heq']
          exact .inl hsome
    | forget =>
      refine ⟨h.log, h.few, .inr ⟨?_, h.stored hgoes⟩⟩
      change (s.marks.marks.erase id)[id]? = none
      rw [Table.getElem?_erase, if_pos rfl]
  | elsewhere call turn other log author =>
    exact h.congr (sameMark_called (show other ≠ id from hgoes) _ _ log author turn call)
  | restart log =>
    obtain ⟨hperm, hpersisted⟩ := hgoes
    refine ⟨hperm.trans h.log, hperm.length_eq.trans_lt h.few, .inr ⟨?_, h.stored hpersisted⟩⟩
    exact Std.ExtTreeMap.getElem?_empty

/-- What is in memory stays in the database. -/
theorem Tracked.persisted (hc : c.Laws) (hfloor : floorMs < 2 ^ 64)
    (h : Tracked c id ownAuthor floorMs s) (hpersisted : s.Persisted c id) {event : ViewEvent M}
    (hgoes : s.Goes c id event) (hwrites : Writes event) :
    (s.step c id ownAuthor event).Persisted c id := by
  have hloaded : ∀ turn, Readable turn s.marks id → ∃ r', s.marks.mark c turn s.rows id s.log =
      (⟨floorMs, s.read.countP ((ReadMark.mk floorMs 0).counts ownAuthor)⟩, r', s.rows) ∧
        ∀ mark, r'.marks[id]? = some mark → Stored c r' s.rows id mark := by
    intro turn hread
    obtain ⟨r', heq, hlabel, hsome⟩ := h.mark hread
    refine ⟨r', heq, fun mark hmark => ?_⟩
    rw [hsome] at hmark
    obtain rfl := Option.some.inj hmark
    rw [Stored, hlabel]
    exact h.stored hpersisted
  cases event with
  | add m log => exact hpersisted
  | call call turn =>
    cases call with
    | state =>
      obtain ⟨r', heq, hstored⟩ := hloaded turn hgoes
      change ∀ mark, (s.marks.mark c turn s.rows id s.log).2.1.marks[id]? = some mark →
        Stored c (s.marks.mark c turn s.rows id s.log).2.1
          (s.marks.mark c turn s.rows id s.log).2.2 id mark
      rw [heq]
      exact hstored
    | prime =>
      obtain ⟨r', heq, hstored⟩ := hloaded turn hgoes
      change ∀ mark, (s.marks.mark c turn s.rows id s.log).2.1.marks[id]? = some mark →
        Stored c (s.marks.mark c turn s.rows id s.log).2.1
          (s.marks.mark c turn s.rows id s.log).2.2 id mark
      rw [heq]
      exact hstored
    | markRead =>
      obtain ⟨r', heq, hstored⟩ := hloaded turn hgoes
      intro mark
      change (s.marks.markRead c turn s.rows id s.log ownAuthor).1.marks[id]? = some mark →
        Stored c (s.marks.markRead c turn s.rows id s.log ownAuthor).1
          (s.marks.markRead c turn s.rows id s.log ownAuthor).2 id mark
      rw [ReadMarks.markRead, heq]
      dsimp only
      split
      · intro hmark
        rw [save_marks, Table.getElem?_insert, if_pos rfl] at hmark
        obtain rfl := Option.some.inj hmark
        exact save_stored hc hfloor (Nat.mod_lt _ (by norm_num)) hwrites.1 hwrites.2
      · exact hstored mark
    | forget =>
      intro mark hmark
      change (s.marks.marks.erase id)[id]? = some mark at hmark
      rw [Table.getElem?_erase, if_pos rfl] at hmark
      cases hmark
  | elsewhere call turn other log author =>
    have hsame : SameMark s.marks s.rows (called c s.marks s.rows other log author turn call).1
        (called c s.marks s.rows other log author turn call).2 id :=
      sameMark_called (show other ≠ id from hgoes) _ _ log author turn call
    intro mark hmark
    change (called c s.marks s.rows other log author turn call).1.marks[id]? = some mark at hmark
    rw [hsame.marks] at hmark
    have hstored := hpersisted mark hmark
    rw [Stored, ← hsame.row, ← hsame.label] at hstored
    exact hstored
  | restart log =>
    intro mark hmark
    change (∅ : Std.ExtTreeMap String ReadMark compare)[id]? = some mark at hmark
    rw [Std.ExtTreeMap.getElem?_empty] at hmark
    cases hmark

/-- What the user sees is read off the mark. -/
theorem Tracked.state (h : Tracked c id ownAuthor floorMs s) {turn : MarkTurn}
    (hread : Readable turn s.marks id) :
    (s.marks.state c turn s.rows id s.log ownAuthor).1 =
      ⟨s.added.countP ((ReadMark.mk floorMs 0).counts ownAuthor),
        ((ReadMark.mk floorMs 0).incoming s.log ownAuthor)[s.read.countP
          ((ReadMark.mk floorMs 0).counts ownAuthor)]?.bind messageId⟩ := by
  obtain ⟨r', heq, -⟩ := h.mark hread
  rw [ReadMarks.state, heq]
  exact ReadMark.state_eq h.log h.few rfl

theorem Tracked.exact (hc : c.Laws) (hfloor : floorMs < 2 ^ 64)
    (h : Tracked c id ownAuthor floorMs s) : Exact c id ownAuthor floorMs s := by
  refine ⟨fun turn hread => h.state hread,
    fun turn turn' log hread hrestart hpersistent hget => ?_,
    fun hpersisted event hgoes hwrites => h.persisted hc hfloor hpersisted hgoes hwrites⟩
  have hafter : Tracked c id ownAuthor floorMs (s.step c id ownAuthor (.restart log)) :=
    h.step hrestart
  have hread' : Readable turn' (s.step c id ownAuthor (.restart log)).marks id :=
    fun _ => ⟨hpersistent, hget⟩
  obtain ⟨r, heq, -⟩ := h.mark hread
  obtain ⟨r', heq', -⟩ := hafter.mark hread'
  change ((s.step c id ownAuthor (.restart log)).marks.state c turn'
    (s.step c id ownAuthor (.restart log)).rows id
    (s.step c id ownAuthor (.restart log)).log ownAuthor).1 = _
  rw [ReadMarks.state, ReadMarks.state, heq, heq']
  exact ReadMark.state_perm hrestart.1.symm

/-- A new mark that the database takes is there, and in all runs with it the messages that were
    added are the unread ones, exactly if what was held when it was created can be told from what
    is added. -/
theorem unread_exact (hc : c.Laws) {turn : MarkTurn} {marks : ReadMarks} {rows : MarkRows}
    {log : List M} (hnew : marks.marks[id]? = none)
    (hrow : rows[readMarkKey marks.label id]? = none) (hget : turn.getFails = none)
    (hnow : turn.nowMs < 2 ^ 64) (hlen : log.length < 2 ^ 32)
    (htimes : ∀ m ∈ log, ∀ sent, sentAtMs m = some sent → sent < 2 ^ 64) :
    (turn.persistent = true → turn.putFails = none →
      (created c turn marks rows id log).Persisted c id) ∧
    ((∀ events s, Runs (Viewing.step c id ownAuthor) (Goes c id) (created c turn marks rows id log)
        events s → Exact c id ownAuthor (ReadMark.startingAfter log turn.nowMs).floorMs s) ↔
      ReadMark.HeldRead ownAuthor log) := by
  have hload : (if turn.persistent then marks.load c turn rows id else .ok none) = .ok none := by
    split
    · rw [load, hget]
      dsimp only
      rw [hrow]
    · rfl
  have hmark : marks.mark c turn rows id log = (ReadMark.startingAfter log turn.nowMs,
      marks.save c turn rows id (ReadMark.startingAfter log turn.nowMs)) := by
    rw [ReadMarks.mark, hnew]
    dsimp only
    rw [hload]
  have hsome : (created c turn marks rows id log).marks.marks[id]? =
      some (ReadMark.startingAfter log turn.nowMs) := by
    rw [created, prime, hmark, save_marks, Table.getElem?_insert, if_pos rfl]
  have hfloor : (ReadMark.startingAfter log turn.nowMs).floorMs < 2 ^ 64 := by
    rw [ReadMark.startingAfter]
    cases (log.filterMap sentAtMs).max? with
    | none => exact hnow
    | some newest => exact Nat.mod_lt _ (by norm_num)
  refine ⟨fun hpersistent hput mark hin => ?_, ?_⟩
  · rw [hsome] at hin
    obtain rfl := Option.some.inj hin
    rw [created, prime, hmark]
    exact save_stored hc hfloor (by norm_num [ReadMark.startingAfter]) hpersistent hput
  have hheld : log.countP ((ReadMark.startingAfter log turn.nowMs).counts ownAuthor) = 0 ↔
      ReadMark.HeldRead ownAuthor log := ReadMark.count_startingAfter_iff htimes
  rw [← hheld]
  constructor
  · intro h
    -- the mark that was just created is asked for
    have hexact := (h [] _ (.nil _)).now turn fun hnone => by
      rw [hsome] at hnone
      cases hnone
    rw [ReadMarks.state, ReadMarks.mark, hsome] at hexact
    have hcount : ((ReadMark.startingAfter log turn.nowMs).incoming log ownAuthor).length %
        2 ^ 32 = 0 := congrArg UnreadState.count hexact
    rwa [ReadMark.length_incoming, Nat.mod_eq_of_lt (List.countP_le_length.trans_lt hlen)] at hcount
  · intro hnone events s hrun
    have hstart : Tracked c id ownAuthor (ReadMark.startingAfter log turn.nowMs).floorMs
        (created c turn marks rows id log) := by
      refine ⟨?_, hlen, .inl ?_⟩
      · change log.Perm (log ++ [])
        rw [List.append_nil]
      · rw [hsome]
        change some (ReadMark.startingAfter log turn.nowMs) = some ⟨_, log.countP
          ((ReadMark.startingAfter log turn.nowMs).counts ownAuthor)⟩
        rw [hnone]
        rfl
    exact (hrun.invariant (fun s event hgoes h => Tracked.step h hgoes) hstart).exact hc hfloor

/-! ## Two conversations -/

/-- Marks as their two numbers. -/
def plainMarks : MarkCodec where
  toVec mark := .ok ((Format.number.pair Format.number).packed (mark.floorMs, mark.seen))
  fromSlice bytes :=
    match (Format.number.pair Format.number).unpacked bytes with
    | some (floorMs, seen) => .ok ⟨floorMs, seen⟩
    | none => .error "not a mark"

theorem plainMarks_laws : plainMarks.Laws where
  reads mark _ _ := by
    refine ⟨_, rfl, ?_⟩
    rw [plainMarks]
    dsimp only
    rw [Format.unpacked_packed]

/-- A message of Bob. -/
def fromBob (id : String) (sent : Option Nat) : ChatMessage where
  fromDevice := "bob"
  body := "hello"
  messageId := some id
  sentAtMs := sent

/-- The database is there, and works. -/
def working : MarkTurn := ⟨1000, true, none, none⟩

/-- One message is unread after it was added to a conversation that held another one. -/
theorem unread_exact_bob :
    (((created plainMarks working { label := "dm" } ∅ "bob" [fromBob "m1" (some 2000)]).step
      plainMarks "bob" "alice" (.add (fromBob "m2" (some 2500))
        [fromBob "m2" (some 2500), fromBob "m1" (some 2000)])).marks.state plainMarks working
      (created plainMarks working { label := "dm" } ∅ "bob" [fromBob "m1" (some 2000)]).rows "bob"
      [fromBob "m2" (some 2500), fromBob "m1" (some 2000)] "alice").1.count = 1 := by
  have hheld : ReadMark.HeldRead "alice" [fromBob "m1" (some 2000)] := by
    simp [ReadMark.HeldRead, fromBob, ConversationMessage.sentAtMs]
  have hruns := (@unread_exact ChatMessage _ plainMarks "bob" "alice" plainMarks_laws working
    { label := "dm" } ∅ [fromBob "m1" (some 2000)] (by decide +kernel) (by decide +kernel) rfl
    (by decide) (by decide) (by simp [fromBob, ConversationMessage.sentAtMs])).2.2 hheld
  have hexact := hruns
    [.add (fromBob "m2" (some 2500)) [fromBob "m2" (some 2500), fromBob "m1" (some 2000)]] _
    (.cons ⟨.refl _, by decide⟩ (.nil _))
  exact (congrArg UnreadState.count (hexact.now working fun _ => ⟨rfl, rfl⟩)).trans (by decide)

/-- A message that was held when the mark was created is unread, if its time is the last one that
    there is, or if it has none. -/
theorem held_unread :
    ((ReadMark.startingAfter [fromBob "m1" (some (2 ^ 64 - 1))] 1000).state
      [fromBob "m1" (some (2 ^ 64 - 1))] "alice").count = 1 ∧
    ((ReadMark.startingAfter [fromBob "m1" none] 1000).state
      [fromBob "m1" none] "alice").count = 1 := by
  refine ⟨?_, ?_⟩
  · rw [ReadMark.state]
    dsimp only
    rw [ReadMark.length_incoming]
    decide +kernel
  · rw [ReadMark.state]
    dsimp only
    rw [ReadMark.length_incoming]
    decide +kernel

end Viewing

end Mosh.Conversation
