import Mosh.Attachment.Delivery
import Mosh.Deletion.Record
import Mosh.Library.Base64
import Mosh.Library.Format
import Mosh.Recovery.Fragment

/-!
# Pages of deletions in fragments

A message about deletions that is too long for one frame is sent in fragments
(`message_deletion/fragments.rs`, `fragment_buffer.rs`). Its receiver keeps those that have
arrived, by the peer that carried them and the digest of the page, until the page is complete.

* `sum_lengths_eq_iff`: a page is complete once the lengths of its chunks sum up to its length;
* `size_add_le`: there are never more than 16 pages that are not complete;
* `getElem?_add_of_ne`: fragments of one page do not touch the others;
* `fragments_assembled`: what is delivered in any order, in between fragments of other pages.
-/

namespace Mosh.Deletion

open Attachment (divCeil lt_divCeil_iff)
open Recovery (FragmentCodec)

/-! ## Messages and fragments -/

/-- The bytes of a fragment, and those of a page. -/
def chunkSize : Nat := 3000
def maxPage : Nat := 200000

/-- The pages that are kept while they are not complete. -/
def maxPages : Nat := 16

structure PageFragment where
  digest : String
  offset : Nat
  total : Nat
  bytesB64 : String

/-- A message about deletions. -/
inductive DeletionMessage
  | fragment (fragment : PageFragment)
  | request (after digest : Option String)
  | state (records : List DeletionRecord) (next : Option String)
  | ack (key : String) (acknowledgement : DeleteAck)

/-- The JSON of messages, beside the hash and the text of bytes. -/
structure PageCodec extends FragmentCodec where
  toVec : DeletionMessage → Except String (List UInt8)
  fromSlice : List UInt8 → Except String DeletionMessage

/-- What was written is read again. -/
structure PageCodec.Lawful (c : PageCodec) : Prop extends c.toFragmentCodec.Lawful where
  fromSlice_toVec : ∀ m bytes, c.toVec m = .ok bytes → c.fromSlice bytes = .ok m

/-- The chunks of a page that have arrived, by their places. -/
structure PartialPage where
  total : Nat
  chunks : Std.ExtTreeMap Nat (List UInt8) compare := ∅

/-- The pages that are not complete. -/
structure FragmentBuffer where
  pages : Std.ExtTreeMap String PartialPage compare := ∅

variable (c : PageCodec)

/-- A part of the bytes of a page. -/
def slice (bytes : List UInt8) (index : Nat) : List UInt8 :=
  (bytes.drop (index * chunkSize)).take chunkSize

/-- A fragment of a page. -/
def fragmentOf (bytes : List UInt8) (index : Nat) : PageFragment where
  digest := c.sha256 bytes
  offset := index * chunkSize
  total := bytes.length
  bytesB64 := c.encode (slice bytes index)

/-- Cuts a page into fragments. -/
def splitBytes (bytes : List UInt8) : Except String (List PageFragment) :=
  if maxPage < bytes.length then .error "deletion page exceeds limit"
  else .ok ((List.range (divCeil bytes.length chunkSize)).map (fragmentOf c bytes))

/-- The messages to send for a message. -/
def split (message : DeletionMessage) : Except String (List DeletionMessage) :=
  match c.toVec message with
  | .error e => .error e
  | .ok bytes =>
    if bytes.length ≤ chunkSize then .ok [message]
    else (splitBytes c bytes).map (List.map .fragment)

/-! ## The buffer -/

namespace FragmentBuffer

/-- The key of a page. -/
def pageKey (carrier digest : String) : String := carrier ++ ":" ++ digest

/-- A fragment is as long as it has to be at its place. -/
def validate (fragment : PageFragment) (bytes : List UInt8) : Except String Unit :=
  if fragment.total = 0 ∨ maxPage < fragment.total ∨ fragment.total ≤ fragment.offset ∨
      fragment.offset % chunkSize ≠ 0 ∨
      bytes.length ≠ min chunkSize (fragment.total - fragment.offset) ∨
      fragment.digest.utf8ByteSize ≠ 64 then
    .error "invalid deletion fragment"
  else .ok ()

/-- Gives up the first page. -/
def popFirst (pages : Std.ExtTreeMap String PartialPage compare) :
    Std.ExtTreeMap String PartialPage compare :=
  match pages.minKey? with
  | none => pages
  | some key => pages.erase key

/-- Makes room for a page. -/
def roomFor (key : String) (pages : Std.ExtTreeMap String PartialPage compare) :
    Std.ExtTreeMap String PartialPage compare :=
  if key ∉ pages ∧ maxPages ≤ pages.size then popFirst pages else pages

/-- A chunk of a page arrives. The page is taken out when it is complete. -/
def addChunk (pages : Std.ExtTreeMap String PartialPage compare) (key : String) (page : PartialPage)
    (fragment : PageFragment) (bytes : List UInt8) :
    Except String (Option (List UInt8)) × FragmentBuffer :=
  if page.total ≠ fragment.total ∨ page.chunks[fragment.offset]?.any (· ≠ bytes) then
    (.error "conflicting deletion fragment", ⟨pages.insert key page⟩)
  else
    let chunks := page.chunks.insert fragment.offset bytes
    let pages := pages.insert key { page with chunks }
    if (chunks.toList.map (·.2.length)).sum ≠ fragment.total then (.ok none, ⟨pages⟩)
    else
      let bytes := (chunks.toList.map (·.2)).flatten
      if c.sha256 bytes ≠ fragment.digest then
        (.error "deletion page digest mismatch", ⟨pages.erase key⟩)
      else (.ok (some bytes), ⟨pages.erase key⟩)

/-- A fragment arrives. -/
def add (buffer : FragmentBuffer) (carrier : String) (fragment : PageFragment) :
    Except String (Option (List UInt8)) × FragmentBuffer :=
  match c.decode fragment.bytesB64 with
  | .error e => (.error e, buffer)
  | .ok bytes =>
    match validate fragment bytes with
    | .error e => (.error e, buffer)
    | .ok () =>
      let key := pageKey carrier fragment.digest
      let pages := roomFor key buffer.pages
      addChunk c pages key ((pages[key]?).getD { total := fragment.total }) fragment bytes

/-- A message arrives. Those that are no fragments are not kept. -/
def assemble (buffer : FragmentBuffer) (carrier : String) (message : DeletionMessage) :
    Except String (Option DeletionMessage) × FragmentBuffer :=
  match message with
  | .fragment fragment =>
    match buffer.add c carrier fragment with
    | (.error e, buffer) => (.error e, buffer)
    | (.ok none, buffer) => (.ok none, buffer)
    | (.ok (some bytes), buffer) =>
      match c.fromSlice bytes with
      | .error e => (.error e, buffer)
      | .ok (.fragment _) => (.error "nested deletion fragments", buffer)
      | .ok message => (.ok (some message), buffer)
  | message => (.ok (some message), buffer)

/-- Messages arrive one after the other, from their carriers. -/
def assembleAll (buffer : FragmentBuffer) : List (String × DeletionMessage) →
    List (Except String (Option DeletionMessage)) × FragmentBuffer
  | [] => ([], buffer)
  | (carrier, message) :: rest =>
    let (result, buffer) := buffer.assemble c carrier message
    let (results, buffer) := buffer.assembleAll rest
    (result :: results, buffer)

end FragmentBuffer

/-! ## The chunks of a page -/

section Chunks

variable {bytes : List UInt8} {seen : List Nat} {chunks : Std.ExtTreeMap Nat (List UInt8) compare}

/-- Some chunks of a page have arrived. -/
structure Collected (bytes : List UInt8) (seen : List Nat)
    (chunks : Std.ExtTreeMap Nat (List UInt8) compare) : Prop where
  chunk : ∀ offset b, chunks[offset]? = some b ↔
    ∃ i ∈ seen, offset = i * chunkSize ∧ b = slice bytes i
  lt : ∀ i ∈ seen, i < divCeil bytes.length chunkSize

theorem collected_empty : Collected bytes [] ∅ :=
  ⟨fun offset b => by simp, nofun⟩

/-- Another chunk arrives. -/
theorem Collected.insert (h : Collected bytes seen chunks) {i : Nat}
    (hi : i < divCeil bytes.length chunkSize) :
    Collected bytes (i :: seen) (chunks.insert (i * chunkSize) (slice bytes i)) := by
  refine ⟨fun offset b => ?_, List.forall_mem_cons.2 ⟨hi, h.lt⟩⟩
  rw [Table.getElem?_insert]
  split
  next heq =>
    constructor
    · intro hb
      exact ⟨i, List.mem_cons_self, heq.symm, (Option.some.inj hb).symm⟩
    · rintro ⟨j, -, hj, rfl⟩
      have hsame : i = j := Nat.eq_of_mul_eq_mul_right (by decide) (heq.trans hj)
      rw [hsame]
  next hne =>
    rw [h.chunk]
    constructor
    · rintro ⟨j, hj, hrest⟩
      exact ⟨j, List.mem_cons_of_mem _ hj, hrest⟩
    · rintro ⟨j, hj, hoffset, hb⟩
      rcases List.mem_cons.1 hj with rfl | hj
      · exact absurd hoffset.symm hne
      · exact ⟨j, hj, hoffset, hb⟩

/-- The places of the chunks, as numbers of fragments. -/
def indices (chunks : Std.ExtTreeMap Nat (List UInt8) compare) : List Nat :=
  chunks.toList.map fun row => row.1 / chunkSize

theorem Collected.row (h : Collected bytes seen chunks) {row : Nat × List UInt8}
    (hrow : row ∈ chunks.toList) : row.1 / chunkSize ∈ seen ∧
      row.1 = row.1 / chunkSize * chunkSize ∧ row.2 = slice bytes (row.1 / chunkSize) := by
  obtain ⟨i, hi, hoffset, hb⟩ := (h.chunk row.1 row.2).1
    (Std.ExtTreeMap.mem_toList_iff_getElem?_eq_some.1 hrow)
  have hindex : row.1 / chunkSize = i := by
    rw [hoffset, Nat.mul_div_cancel i (by decide)]
  rw [hindex]
  exact ⟨hi, hoffset, hb⟩

theorem Collected.mem_indices (h : Collected bytes seen chunks) {i : Nat} :
    i ∈ indices chunks ↔ i ∈ seen := by
  rw [indices, List.mem_map]
  constructor
  · rintro ⟨row, hrow, rfl⟩
    exact (h.row hrow).1
  · intro hi
    refine ⟨(i * chunkSize, slice bytes i), Std.ExtTreeMap.mem_toList_iff_getElem?_eq_some.2
      ((h.chunk _ _).2 ⟨i, hi, rfl, rfl⟩), ?_⟩
    exact Nat.mul_div_cancel i (by decide)

/-- The fragments are in order. -/
theorem Collected.pairwise_indices (h : Collected bytes seen chunks) :
    (indices chunks).Pairwise (· < ·) := by
  rw [indices, List.pairwise_map]
  refine (List.Pairwise.and_mem.1 (List.pairwise_map.1 (Attachment.pairwise_keys chunks))).imp ?_
  rintro row row' ⟨hrow, hrow', hlt⟩
  have hoffset := (h.row hrow).2.1
  have hoffset' := (h.row hrow').2.1
  rw [hoffset, hoffset'] at hlt
  exact Nat.lt_of_mul_lt_mul_right hlt

/-- The values are the parts of the page. -/
theorem Collected.map_snd (h : Collected bytes seen chunks) :
    chunks.toList.map (·.2) = (indices chunks).map (slice bytes) := by
  rw [indices, List.map_map]
  exact List.map_congr_left fun row hrow => (h.row hrow).2.2

/-- All parts of the page are the page. -/
theorem flatMap_slice (bytes : List UInt8) :
    (List.range (divCeil bytes.length chunkSize)).flatMap (slice bytes) = bytes := by
  have hcover : bytes.length ≤ divCeil bytes.length chunkSize * chunkSize := by
    by_contra hlt
    exact absurd ((lt_divCeil_iff (by decide)).2 (not_le.1 hlt)) (lt_irrefl _)
  rw [show slice bytes = fun i => (bytes.drop (i * chunkSize)).take chunkSize from rfl,
    Attachment.flatMap_range_take, List.take_of_length_le hcover]

/-- If all fragments have arrived, they are all in order. -/
theorem Collected.indices_eq (h : Collected bytes seen chunks)
    (hall : ∀ i < divCeil bytes.length chunkSize, i ∈ seen) :
    indices chunks = List.range (divCeil bytes.length chunkSize) := by
  refine List.Perm.eq_of_pairwise (fun a b _ _ hab hba => (lt_asymm hab hba).elim)
    h.pairwise_indices List.pairwise_lt_range ?_
  refine (List.perm_ext_iff_of_nodup (h.pairwise_indices.imp fun hlt => hlt.ne)
    List.nodup_range).2 fun i => ?_
  rw [h.mem_indices, List.mem_range]
  exact ⟨h.lt i, hall i⟩

/-- The chunks are as long as the page exactly if all have arrived. -/
theorem Collected.sum_lengths_eq_iff (h : Collected bytes seen chunks) :
    (chunks.toList.map (·.2.length)).sum = bytes.length ↔
      ∀ i < divCeil bytes.length chunkSize, i ∈ seen := by
  have hlengths : (chunks.toList.map (·.2.length)).sum =
      ((indices chunks).map fun i => (slice bytes i).length).sum := by
    have hmap := congrArg (List.map List.length) h.map_snd
    rw [List.map_map, List.map_map] at hmap
    exact congrArg List.sum hmap
  have htotal : ((List.range (divCeil bytes.length chunkSize)).map fun i =>
      (slice bytes i).length).sum = bytes.length := by
    have hlength := congrArg List.length (flatMap_slice bytes)
    rwa [List.length_flatMap] at hlength
  rw [hlengths]
  constructor
  · intro hsum i hi
    by_contra hmissing
    -- without a fragment the sum is too small
    have hlt : (indices chunks).toFinset.sum (fun i => (slice bytes i).length) <
        (List.range (divCeil bytes.length chunkSize)).toFinset.sum
          fun i => (slice bytes i).length := by
      refine Finset.sum_lt_sum_of_subset (i := i) (fun j hj => ?_) ?_ ?_ ?_ fun _ _ _ => Nat.zero_le _
      · rw [List.mem_toFinset, h.mem_indices] at hj
        exact List.mem_toFinset.2 (List.mem_range.2 (h.lt j hj))
      · exact List.mem_toFinset.2 (List.mem_range.2 hi)
      · rwa [List.mem_toFinset, h.mem_indices]
      · have hstart : i * chunkSize < bytes.length := (lt_divCeil_iff (by decide)).1 hi
        rw [slice, List.length_take, List.length_drop]
        exact lt_min (by decide) (Nat.sub_pos_of_lt hstart)
    rw [List.sum_toFinset _ (h.pairwise_indices.imp fun hlt => hlt.ne),
      List.sum_toFinset _ List.nodup_range, hsum, htotal] at hlt
    exact lt_irrefl _ hlt
  · intro hall
    rw [h.indices_eq hall, htotal]

end Chunks

/-! ## Fragments of one page -/

namespace FragmentBuffer

variable {c} {buffer : FragmentBuffer} {bytes : List UInt8} {seen : List Nat} {carrier : String}

/-- The buffer has some chunks of a page, or none. -/
def Holds (key : String) (bytes : List UInt8) (seen : List Nat)
    (pages : Std.ExtTreeMap String PartialPage compare) : Prop :=
  (seen = [] ∧ pages[key]? = none) ∨
    ∃ chunks, pages[key]? = some ⟨bytes.length, chunks⟩ ∧ Collected bytes seen chunks

theorem validate_fragmentOf (hc : c.Lawful) (hmax : bytes.length ≤ maxPage) {i : Nat}
    (hi : i < divCeil bytes.length chunkSize) :
    validate (fragmentOf c bytes i) (slice bytes i) = .ok () := by
  have hstart : i * chunkSize < bytes.length := (lt_divCeil_iff (by decide)).1 hi
  have hlength : (slice bytes i).length = min chunkSize (bytes.length - i * chunkSize) := by
    rw [slice, List.length_take, List.length_drop]
  rw [validate, if_neg]
  rw [fragmentOf]
  dsimp only
  rw [hlength, hc.size_sha256, Nat.mul_mod_left]
  omega

/-- A fragment of the page arrives. If all others have arrived since it was last complete, it is
    complete again, and otherwise one fragment is there more. -/
theorem add_fragmentOf (hc : c.Lawful) (hmax : bytes.length ≤ maxPage) {i : Nat}
    (hi : i < divCeil bytes.length chunkSize)
    (hroom : pageKey carrier (c.sha256 bytes) ∈ buffer.pages ∨ buffer.pages.size < maxPages)
    (hholds : Holds (pageKey carrier (c.sha256 bytes)) bytes seen buffer.pages) :
    ((∀ j < divCeil bytes.length chunkSize, j ∈ i :: seen) ∧
      (buffer.add c carrier (fragmentOf c bytes i)).1 = .ok (some bytes) ∧
      Holds (pageKey carrier (c.sha256 bytes)) bytes []
        (buffer.add c carrier (fragmentOf c bytes i)).2.pages) ∨
    (¬ (∀ j < divCeil bytes.length chunkSize, j ∈ i :: seen) ∧
      (buffer.add c carrier (fragmentOf c bytes i)).1 = .ok none ∧
      Holds (pageKey carrier (c.sha256 bytes)) bytes (i :: seen)
        (buffer.add c carrier (fragmentOf c bytes i)).2.pages) := by
  have hkeep : roomFor (pageKey carrier (c.sha256 bytes)) buffer.pages = buffer.pages := by
    rw [roomFor, if_neg]
    rintro ⟨hnot, hfull⟩
    rcases hroom with hin | hlt
    · exact hnot hin
    · omega
  obtain ⟨chunks, hpage, hcollected⟩ : ∃ chunks,
      (buffer.pages[pageKey carrier (c.sha256 bytes)]?).getD { total := bytes.length } =
        ⟨bytes.length, chunks⟩ ∧ Collected bytes seen chunks := by
    rcases hholds with ⟨rfl, hnone⟩ | ⟨chunks, hsome, hcollected⟩
    · exact ⟨∅, by rw [hnone, Option.getD_none], collected_empty⟩
    · exact ⟨chunks, by rw [hsome, Option.getD_some], hcollected⟩
  have hsame : chunks[i * chunkSize]?.any (· ≠ slice bytes i) = false := by
    cases hold : chunks[i * chunkSize]? with
    | none => rfl
    | some b =>
      obtain ⟨j, -, hj, rfl⟩ := (hcollected.chunk _ _).1 hold
      obtain rfl := Nat.eq_of_mul_eq_mul_right (by decide) hj
      simp
  have hadd : buffer.add c carrier (fragmentOf c bytes i) =
      addChunk c buffer.pages (pageKey carrier (c.sha256 bytes)) ⟨bytes.length, chunks⟩
        (fragmentOf c bytes i) (slice bytes i) := by
    rw [add, show (fragmentOf c bytes i).bytesB64 = c.encode (slice bytes i) from rfl,
      hc.decode_encode]
    dsimp only
    rw [validate_fragmentOf hc hmax hi]
    dsimp only
    rw [show (fragmentOf c bytes i).digest = c.sha256 bytes from rfl, hkeep,
      show (fragmentOf c bytes i).total = bytes.length from rfl, hpage]
  have hadded := hcollected.insert hi
  have hagrees : ¬ (bytes.length ≠ (fragmentOf c bytes i).total ∨
      chunks[(fragmentOf c bytes i).offset]?.any (· ≠ slice bytes i)) := by
    rintro (hne | hany)
    · exact hne rfl
    · exact Bool.false_ne_true (hsame.symm.trans hany)
  rw [hadd, addChunk, if_neg hagrees]
  by_cases hall : ∀ j < divCeil bytes.length chunkSize, j ∈ i :: seen
  · refine .inl ⟨hall, ?_⟩
    have hflat : ((chunks.insert (i * chunkSize) (slice bytes i)).toList.map (·.2)).flatten =
        bytes := by
      rw [hadded.map_snd, hadded.indices_eq hall, ← List.flatMap_def, flatMap_slice]
    have hsum : ¬ ((chunks.insert (fragmentOf c bytes i).offset (slice bytes i)).toList.map
        (·.2.length)).sum ≠ (fragmentOf c bytes i).total :=
      not_not.2 (hadded.sum_lengths_eq_iff.2 hall)
    have hdigest : ¬ c.sha256 ((chunks.insert (fragmentOf c bytes i).offset
        (slice bytes i)).toList.map (·.2)).flatten ≠ (fragmentOf c bytes i).digest :=
      not_not.2 (congrArg c.sha256 hflat)
    rw [if_neg hsum, if_neg hdigest]
    refine ⟨congrArg (Except.ok ∘ some) hflat, .inl ⟨rfl, ?_⟩⟩
    exact (Table.getElem?_erase _ _ _).trans (if_pos rfl)
  · refine .inr ⟨hall, ?_⟩
    have hsum : ((chunks.insert (fragmentOf c bytes i).offset (slice bytes i)).toList.map
        (·.2.length)).sum ≠ (fragmentOf c bytes i).total :=
      fun hsum => hall (hadded.sum_lengths_eq_iff.1 hsum)
    rw [if_pos hsum]
    refine ⟨rfl, .inr ⟨_, ?_, hadded⟩⟩
    exact (Table.getElem?_insert _ _ _ _).trans (if_pos rfl)

/-! ## The other pages -/

/-- A page is given up only when there are too many. -/
theorem getElem?_addChunk_of_ne {pages : Std.ExtTreeMap String PartialPage compare} {key other : String}
    (hne : key ≠ other) (page : PartialPage) (fragment : PageFragment) (bytes : List UInt8) :
    (addChunk c pages key page fragment bytes).2.pages[other]? = pages[other]? := by
  have hinsert : ∀ page : PartialPage, (pages.insert key page)[other]? = pages[other]? :=
    fun page => (Table.getElem?_insert _ _ _ _).trans (if_neg hne)
  have herase : ∀ page : PartialPage,
      ((pages.insert key page).erase key)[other]? = pages[other]? :=
    fun page => (Table.getElem?_erase _ _ _).trans ((if_neg hne).trans (hinsert page))
  rw [addChunk]
  split
  · exact hinsert _
  · dsimp only
    split
    · exact hinsert _
    · split
      · exact herase _
      · exact herase _

/-- Fragments of one page do not touch the others, as long as there is room. -/
theorem getElem?_add_of_ne {fragment : PageFragment} {other : String}
    (hroom : pageKey carrier fragment.digest ∈ buffer.pages ∨ buffer.pages.size < maxPages)
    (hne : pageKey carrier fragment.digest ≠ other) :
    (buffer.add c carrier fragment).2.pages[other]? = buffer.pages[other]? := by
  have hkeep : roomFor (pageKey carrier fragment.digest) buffer.pages = buffer.pages := by
    rw [roomFor, if_neg]
    rintro ⟨hnot, hfull⟩
    rcases hroom with hin | hlt
    · exact hnot hin
    · omega
  rw [add]
  split
  · rfl
  · split
    · rfl
    · dsimp only
      rw [hkeep]
      exact getElem?_addChunk_of_ne hne _ _ _

/-- There are never more pages than are kept. -/
theorem size_add_le (h : buffer.pages.size ≤ maxPages) (fragment : PageFragment) :
    (buffer.add c carrier fragment).2.pages.size ≤ maxPages := by
  have hinsert : ∀ (pages : Std.ExtTreeMap String PartialPage compare) (key : String)
      (page : PartialPage), pages.size ≤ maxPages → (key ∈ pages ∨ pages.size < maxPages) →
      (pages.insert key page).size ≤ maxPages := by
    intro pages key page hle hroom
    rw [Std.ExtTreeMap.size_insert]
    split
    · exact hle
    next hnot => exact hroom.resolve_left hnot
  have hroom : ∀ key, (roomFor key buffer.pages).size ≤ maxPages ∧
      (key ∈ roomFor key buffer.pages ∨ (roomFor key buffer.pages).size < maxPages) := by
    intro key
    rw [roomFor]
    split
    next hfull =>
      have hsize : (popFirst buffer.pages).size < maxPages := by
        rw [popFirst]
        split
        next hnone =>
          rw [Std.ExtTreeMap.minKey?_eq_none_iff.1 hnone]
          decide
        next first hfirst =>
          obtain ⟨page, hpage⟩ := Option.isSome_iff_exists.1
            (Std.ExtTreeMap.mem_iff_isSome_getElem?.1 (Std.ExtTreeMap.minKey?_mem hfirst))
          exact (Table.size_erase_lt hpage).trans_le h
      exact ⟨hsize.le, .inr hsize⟩
    next hroom =>
      refine ⟨h, ?_⟩
      by_contra hnone
      rw [not_or, not_lt] at hnone
      exact hroom hnone
  rw [add]
  split
  · exact h
  · split
    · exact h
    · dsimp only
      obtain ⟨hle, hkey⟩ := hroom (pageKey carrier fragment.digest)
      rw [addChunk]
      split
      · exact hinsert _ _ _ hle hkey
      · dsimp only
        split
        · exact hinsert _ _ _ hle hkey
        · split
          · exact (Std.ExtTreeMap.size_erase_le).trans (hinsert _ _ _ hle hkey)
          · exact (Std.ExtTreeMap.size_erase_le).trans (hinsert _ _ _ hle hkey)

/-! ## All deliveries -/

/-- A digest is as long as any other one, so that a key has one carrier and one digest. -/
theorem pageKey_inj {other digest digest' : String} (h : pageKey carrier digest = pageKey other digest')
    (hsize : digest.utf8ByteSize = digest'.utf8ByteSize) : carrier = other ∧ digest = digest' := by
  have hbytes := congrArg (fun s => s.toByteArray.data.toList) h
  simp only [pageKey, String.toByteArray_append, ByteArray.data_append, Array.toList_append] at hbytes
  obtain ⟨hcarrier, hdigest⟩ := List.append_inj' hbytes hsize
  obtain ⟨hcarrier, -⟩ := List.append_inj' hcarrier rfl
  exact ⟨String.toByteArray_inj.1 (ByteArray.ext (Array.toList_inj.1 hcarrier)),
    String.toByteArray_inj.1 (ByteArray.ext (Array.toList_inj.1 hdigest))⟩

/-- A fragment of the page, by its number, or another message from a carrier. -/
inductive Delivery
  | own (index : Nat)
  | other (carrier : String) (message : DeletionMessage)

/-- What a delivery brings, and from whom. -/
def Delivery.message (c : PageCodec) (carrier : String) (bytes : List UInt8) :
    Delivery → String × DeletionMessage
  | .own index => (carrier, .fragment (fragmentOf c bytes index))
  | .other carrier message => (carrier, message)

/-- A delivery brings a fragment of the page, or of one of some other pages, or no fragment. -/
def Delivery.Among (bytes : List UInt8) (others : Finset (String × String)) : Delivery → Prop
  | .own index => index < divCeil bytes.length chunkSize
  | .other carrier (.fragment fragment) => (carrier, fragment.digest) ∈ others
  | .other _ _ => True

/-- The numbers of the fragments of the page, as they arrive. -/
def ownIndices : List Delivery → List Nat
  | [] => []
  | .own index :: rest => index :: ownIndices rest
  | .other .. :: rest => ownIndices rest

/-- What the fragments of the page lead to. -/
def ownResults {R : Type} : List Delivery → List R → List R
  | .own _ :: deliveries, result :: results => result :: ownResults deliveries results
  | .other .. :: deliveries, _ :: results => ownResults deliveries results
  | _, _ => []

/-- Whether a fragment completes the page: all fragments arrived since it was last complete. -/
def completions (n : Nat) : List Nat → List Nat → List Bool
  | _, [] => []
  | seen, index :: rest =>
    if ∀ j < n, j ∈ index :: seen then true :: completions n [] rest
    else false :: completions n (index :: seen) rest

/-- The buffer has some chunks of the page, and apart from it only pages of some others. -/
structure Fits (c : PageCodec) (carrier : String) (bytes : List UInt8)
    (others : Finset (String × String)) (seen : List Nat) (buffer : FragmentBuffer) : Prop where
  own : Holds (pageKey carrier (c.sha256 bytes)) bytes seen buffer.pages
  others : ∀ key ∈ buffer.pages, key = pageKey carrier (c.sha256 bytes) ∨
    ∃ p ∈ others, key = pageKey p.1 p.2

variable {others : Finset (String × String)}

/-- There is room for each of these pages. -/
theorem Fits.room (h : Fits c carrier bytes others seen buffer) (hothers : others.card < maxPages)
    {key : String} (hkey : key = pageKey carrier (c.sha256 bytes) ∨
      ∃ p ∈ others, key = pageKey p.1 p.2) :
    key ∈ buffer.pages ∨ buffer.pages.size < maxPages := by
  by_contra hnone
  rw [not_or, not_lt] at hnone
  obtain ⟨hnot, hfull⟩ := hnone
  have hallowed : ∀ k, k = pageKey carrier (c.sha256 bytes) ∨ (∃ p ∈ others, k = pageKey p.1 p.2) →
      k ∈ insert (pageKey carrier (c.sha256 bytes)) (others.image fun p => pageKey p.1 p.2) := by
    rintro k (rfl | ⟨p, hp, rfl⟩)
    · exact Finset.mem_insert_self _ _
    · exact Finset.mem_insert_of_mem (Finset.mem_image_of_mem _ hp)
  -- the pages and the new one are at most one more than the others
  have hsub : insert key buffer.pages.keys.toFinset ⊆
      insert (pageKey carrier (c.sha256 bytes)) (others.image fun p => pageKey p.1 p.2) := by
    intro k hk
    rcases Finset.mem_insert.1 hk with rfl | hk
    · exact hallowed _ hkey
    · exact hallowed _ (h.others k (Std.ExtTreeMap.mem_keys.1 (List.mem_toFinset.1 hk)))
  have hcard := (Finset.card_le_card hsub).trans (Finset.card_insert_le _ _)
  have himage : (others.image fun p => pageKey p.1 p.2).card ≤ others.card := Finset.card_image_le
  rw [Finset.card_insert_of_notMem, List.toFinset_card_of_nodup, Std.ExtTreeMap.length_keys] at hcard
  · omega
  · exact Std.ExtTreeMap.nodup_keys
  · rw [List.mem_toFinset, Std.ExtTreeMap.mem_keys]
    exact hnot

/-- A fragment of one of these pages leaves the others. -/
theorem Fits.others_add (h : Fits c carrier bytes others seen buffer)
    (hothers : others.card < maxPages) {carrier' : String} {fragment : PageFragment}
    (hkey : pageKey carrier' fragment.digest = pageKey carrier (c.sha256 bytes) ∨
      ∃ p ∈ others, pageKey carrier' fragment.digest = pageKey p.1 p.2) (key : String)
    (hin : key ∈ (buffer.add c carrier' fragment).2.pages) :
    key = pageKey carrier (c.sha256 bytes) ∨ ∃ p ∈ others, key = pageKey p.1 p.2 := by
  by_cases heq : pageKey carrier' fragment.digest = key
  · rwa [heq] at hkey
  · have hsame : (buffer.add c carrier' fragment).2.pages[key]? = buffer.pages[key]? :=
      getElem?_add_of_ne (h.room hothers hkey) heq
    rw [Std.ExtTreeMap.mem_iff_isSome_getElem?, hsame, ← Std.ExtTreeMap.mem_iff_isSome_getElem?] at hin
    exact h.others key hin

/-- A fragment of the page arrives. -/
theorem Fits.own_add (hc : c.Lawful) (hmax : bytes.length ≤ maxPage)
    (h : Fits c carrier bytes others seen buffer) (hothers : others.card < maxPages) {index : Nat}
    (hindex : index < divCeil bytes.length chunkSize) :
    ((∀ j < divCeil bytes.length chunkSize, j ∈ index :: seen) ∧
      (buffer.add c carrier (fragmentOf c bytes index)).1 = .ok (some bytes) ∧
      Fits c carrier bytes others [] (buffer.add c carrier (fragmentOf c bytes index)).2) ∨
    (¬ (∀ j < divCeil bytes.length chunkSize, j ∈ index :: seen) ∧
      (buffer.add c carrier (fragmentOf c bytes index)).1 = .ok none ∧
      Fits c carrier bytes others (index :: seen)
        (buffer.add c carrier (fragmentOf c bytes index)).2) := by
  rcases add_fragmentOf hc hmax hindex (h.room hothers (.inl rfl)) h.own with
    ⟨hall, hresult, hholds⟩ | ⟨hall, hresult, hholds⟩
  · exact .inl ⟨hall, hresult, hholds, h.others_add hothers (.inl rfl)⟩
  · exact .inr ⟨hall, hresult, hholds, h.others_add hothers (.inl rfl)⟩

/-- A fragment of another page arrives. -/
theorem Fits.other_add (hc : c.Lawful) (h : Fits c carrier bytes others seen buffer)
    (hothers : others.card < maxPages) (hown : (carrier, c.sha256 bytes) ∉ others)
    {carrier' : String} {fragment : PageFragment} (hin : (carrier', fragment.digest) ∈ others) :
    Fits c carrier bytes others seen (buffer.add c carrier' fragment).2 := by
  have hkey : pageKey carrier' fragment.digest = pageKey carrier (c.sha256 bytes) ∨
      ∃ p ∈ others, pageKey carrier' fragment.digest = pageKey p.1 p.2 := .inr ⟨_, hin, rfl⟩
  refine ⟨?_, h.others_add hothers hkey⟩
  by_cases hsize : fragment.digest.utf8ByteSize = 64
  · have hne : pageKey carrier' fragment.digest ≠ pageKey carrier (c.sha256 bytes) := by
      intro heq
      obtain ⟨rfl, hdigest⟩ := pageKey_inj heq (hsize.trans (hc.size_sha256 bytes).symm)
      exact hown (hdigest ▸ hin)
    rw [Holds, getElem?_add_of_ne (h.room hothers hkey) hne]
    exact h.own
  · -- what has no digest is no fragment
    have hsame : (buffer.add c carrier' fragment).2 = buffer := by
      rw [add]
      split
      · rfl
      · rw [validate, if_pos (by omega)]
    rw [hsame]
    exact h.own

/-- In whatever order messages arrive, there are never more pages than are kept. -/
theorem size_assembleAll_le (deliveries : List (String × DeletionMessage))
    (h : buffer.pages.size ≤ maxPages) :
    (buffer.assembleAll c deliveries).2.pages.size ≤ maxPages := by
  induction deliveries generalizing buffer with
  | nil => exact h
  | cons delivery rest ih =>
    obtain ⟨carrier, message⟩ := delivery
    rw [assembleAll]
    refine ih ?_
    cases message with
    | fragment fragment =>
      have hadd : (buffer.add c carrier fragment).2.pages.size ≤ maxPages :=
        size_add_le h fragment
      rw [assemble]
      split
      next heq => rwa [heq] at hadd
      next heq => rwa [heq] at hadd
      next heq =>
        rw [heq] at hadd
        split
        · exact hadd
        · exact hadd
        · exact hadd
    | request => exact h
    | state => exact h
    | ack => exact h

/-- The message is there each time all fragments have arrived since it was last there, and what is
    delivered in between does not matter. -/
theorem ownResults_assembleAll (hc : c.Lawful) {m : DeletionMessage}
    (hm : ∀ fragment, m ≠ .fragment fragment) (hbytes : c.toVec m = .ok bytes)
    (hmax : bytes.length ≤ maxPage) (hothers : others.card < maxPages)
    (hown : (carrier, c.sha256 bytes) ∉ others) {deliveries : List Delivery}
    (hdeliveries : ∀ delivery ∈ deliveries, delivery.Among bytes others)
    (h : Fits c carrier bytes others seen buffer) :
    ownResults deliveries (buffer.assembleAll c (deliveries.map (Delivery.message c carrier bytes))).1 =
      (completions (divCeil bytes.length chunkSize) seen (ownIndices deliveries)).map
        fun complete => .ok (if complete then some m else none) := by
  have hread := hc.fromSlice_toVec m bytes hbytes
  induction deliveries generalizing buffer seen with
  | nil => rfl
  | cons delivery rest ih =>
    obtain ⟨hdelivery, hrest⟩ := List.forall_mem_cons.1 hdeliveries
    cases delivery with
    | own index =>
      rw [List.map_cons, Delivery.message, assembleAll, ownIndices, completions, ownResults]
      rcases h.own_add hc hmax hothers hdelivery with
        ⟨hall, hresult, hafter⟩ | ⟨hall, hresult, hafter⟩
      · have hassemble : buffer.assemble c carrier (.fragment (fragmentOf c bytes index)) =
            (.ok (some m), (buffer.add c carrier (fragmentOf c bytes index)).2) := by
          rw [assemble]
          split
          next heq => rw [heq] at hresult; cases hresult
          next heq => rw [heq] at hresult; cases hresult
          next bytes' buffer' heq =>
            rw [heq] at hresult ⊢
            obtain rfl := Option.some.inj (Except.ok.inj hresult)
            rw [hread]
            cases m with
            | fragment fragment => exact absurd rfl (hm fragment)
            | request => rfl
            | state => rfl
            | ack => rfl
        rw [if_pos hall, hassemble, List.map_cons, ih hrest hafter]
        rfl
      · have hassemble : buffer.assemble c carrier (.fragment (fragmentOf c bytes index)) =
            (.ok none, (buffer.add c carrier (fragmentOf c bytes index)).2) := by
          rw [assemble]
          split
          next heq => rw [heq] at hresult; cases hresult
          next heq => rw [heq]
          next heq => rw [heq] at hresult; cases hresult
        rw [if_neg hall, hassemble, List.map_cons, ih hrest hafter]
        rfl
    | other carrier' message =>
      rw [List.map_cons, Delivery.message, assembleAll, ownIndices, ownResults]
      refine ih hrest ?_
      cases message with
      | fragment fragment =>
        have hafter := h.other_add hc hothers hown hdelivery
        rw [assemble]
        split
        next heq => rwa [heq] at hafter
        next heq => rwa [heq] at hafter
        next heq =>
          rw [heq] at hafter
          split
          · exact hafter
          · exact hafter
          · exact hafter
      | request => exact h
      | state => exact h
      | ack => exact h

/-- A message that is longer than a fragment is sent in fragments. However these are delivered, in
    between fragments of at most 15 other pages, the message is there exactly when all of them have
    arrived since it was last there, and there are never more than 16 pages that are not complete. -/
theorem fragments_assembled (hc : c.Lawful) {m : DeletionMessage}
    (hm : ∀ fragment, m ≠ .fragment fragment) (hbytes : c.toVec m = .ok bytes)
    (hlong : chunkSize < bytes.length) (hmax : bytes.length ≤ maxPage)
    (hothers : others.card < maxPages) (hown : (carrier, c.sha256 bytes) ∉ others)
    (hnew : pageKey carrier (c.sha256 bytes) ∉ buffer.pages)
    (hbuffer : ∀ key ∈ buffer.pages, ∃ p ∈ others, key = pageKey p.1 p.2)
    {deliveries : List Delivery}
    (hdeliveries : ∀ delivery ∈ deliveries, delivery.Among bytes others) :
    split c m = .ok ((List.range (divCeil bytes.length chunkSize)).map fun index =>
      .fragment (fragmentOf c bytes index)) ∧
    ownResults deliveries (buffer.assembleAll c (deliveries.map (Delivery.message c carrier bytes))).1 =
      ((completions (divCeil bytes.length chunkSize) [] (ownIndices deliveries)).map
        fun complete => .ok (if complete then some m else none)) ∧
    (buffer.assembleAll c (deliveries.map (Delivery.message c carrier bytes))).2.pages.size ≤
      maxPages := by
  have hfits : Fits c carrier bytes others [] buffer :=
    ⟨.inl ⟨rfl, Std.ExtTreeMap.getElem?_eq_none hnew⟩, fun key hkey => .inr (hbuffer key hkey)⟩
  refine ⟨?_, ownResults_assembleAll hc hm hbytes hmax hothers hown hdeliveries hfits,
    size_assembleAll_le _ ?_⟩
  · rw [split, hbytes]
    dsimp only
    rw [if_neg (not_le.2 hlong), splitBytes, if_neg (not_lt.2 hmax)]
    exact congrArg Except.ok (List.map_map ..)
  · rcases hfits.room hothers (.inl rfl) with hin | hlt
    · exact absurd hin hnew
    · exact hlt.le

/-! ## A page of two fragments -/

/-- Hashes of the right size, and requests as the characters of the record that they go on after. -/
def plainPages : PageCodec where
  sha256 _ := String.ofList (List.replicate 64 'a')
  encode := Base64.encode
  decode text := ((Base64.decode text).map Except.ok).getD (.error "invalid base64")
  toVec
    | .request (some after) none => .ok (Format.toBytes after.toList)
    | _ => .error "not written"
  fromSlice bytes := .ok (.request (some (String.ofList (Format.ofBytes bytes))) none)

theorem plainPages_lawful : plainPages.Lawful where
  size_sha256 _ :=
    show (String.ofList (List.replicate 64 'a')).utf8ByteSize = 64 by decide +kernel
  decode_encode bytes := by
    change ((Base64.decode (Base64.encode bytes)).map Except.ok).getD _ = _
    rw [Base64.decode_encode]
    rfl
  size_encode bytes := Base64.utf8ByteSize_encode bytes
  fromSlice_toVec m bytes h := by
    cases m with
    | request after digest =>
      cases after with
      | none => cases h
      | some after =>
        cases digest with
        | none =>
          obtain rfl := Except.ok.inj h
          change Except.ok (DeletionMessage.request
            (some (String.ofList (Format.ofBytes (Format.toBytes after.toList)))) none) = _
          rw [Format.ofBytes_toBytes, String.ofList_toList]
        | some digest => cases h
    | fragment => cases h
    | state => cases h
    | ack => cases h

/-- A request for the records after one with a long name. -/
def requestOf (after : List Char) : DeletionMessage := .request (some (String.ofList after)) none

theorem toVec_requestOf (after : List Char) :
    plainPages.toVec (requestOf after) = .ok (Format.toBytes after) := by
  change Except.ok (Format.toBytes (String.ofList after).toList) = _
  rw [String.toList_ofList]

theorem requestOf_ne (after : List Char) (fragment : PageFragment) :
    requestOf after ≠ .fragment fragment := nofun

/-- A name of which the request takes two fragments. -/
def longName : List Char := List.replicate 1001 'x'

theorem length_longName : (Format.toBytes longName).length = 3003 := by
  rw [longName, Format.toBytes, List.length_flatMap, List.map_replicate, List.sum_replicate]
  rfl

theorem fragments_longName : divCeil (Format.toBytes longName).length chunkSize = 2 := by
  rw [length_longName]
  rfl

/-- The second fragment, and then the first one, bring the request. -/
theorem fragments_assembled_two :
    ownResults [.own 1, .other "bob" (requestOf []), .own 1, .own 0]
      (({} : FragmentBuffer).assembleAll plainPages
        ([.own 1, .other "bob" (requestOf []), .own 1, .own 0].map
          (Delivery.message plainPages "anna" (Format.toBytes longName)))).1 =
      [.ok none, .ok none, .ok (some (requestOf longName))] := by
  have hamong : ∀ delivery ∈ [Delivery.own 1, .other "bob" (requestOf []), .own 1, .own 0],
      delivery.Among (Format.toBytes longName) ∅ := by
    simp [Delivery.Among, requestOf, fragments_longName]
  have hresults := (fragments_assembled plainPages_lawful (requestOf_ne longName)
    (toVec_requestOf longName) (by rw [length_longName]; decide) (by rw [length_longName]; decide)
    (by decide) (Finset.notMem_empty _) (Std.ExtTreeMap.not_mem_empty)
    (fun key hkey => absurd hkey Std.ExtTreeMap.not_mem_empty) hamong :
      _ ∧ ownResults _ (({} : FragmentBuffer).assembleAll plainPages (List.map
        (Delivery.message plainPages "anna" (Format.toBytes longName)) _)).1 = _ ∧ _).2.1
  rw [hresults, fragments_longName]
  rfl

/-- Delivered twice, the fragments bring the request twice. -/
theorem fragments_assembled_again :
    ownResults [.own 0, .own 1, .own 0, .own 1]
      (({} : FragmentBuffer).assembleAll plainPages ([.own 0, .own 1, .own 0, .own 1].map
        (Delivery.message plainPages "anna" (Format.toBytes longName)))).1 =
      [.ok none, .ok (some (requestOf longName)), .ok none, .ok (some (requestOf longName))] := by
  have hamong : ∀ delivery ∈ [Delivery.own 0, .own 1, .own 0, .own 1],
      delivery.Among (Format.toBytes longName) ∅ := by
    simp [Delivery.Among, fragments_longName]
  have hfits : Fits plainPages "anna" (Format.toBytes longName) ∅ [] {} :=
    ⟨.inl ⟨rfl, Std.ExtTreeMap.getElem?_empty⟩,
      fun key hkey => absurd hkey Std.ExtTreeMap.not_mem_empty⟩
  rw [ownResults_assembleAll plainPages_lawful (requestOf_ne longName) (toVec_requestOf longName)
    (by rw [length_longName]; decide) (by decide) (Finset.notMem_empty _) hamong hfits,
    fragments_longName]
  rfl

end FragmentBuffer

end Mosh.Deletion
