import Mosh.Attachment.Delivery
import Mosh.Attachment.Together

/-!
# Ranges for playback

Playback reads ranges of bytes of a file while it is downloaded
(`attachment_runtime/stream_range.rs`) or from its copy on the disk
(`conversation/transfer_restore.rs`). Either way it gets the bytes of the file, up to the end
of it, and as long as some of them have not arrived, it learns that and the first chunk that
is missing is asked for next.

* `bytes_readRange`: what is read of the chunks of a file;
* `pending_readRange`: the chunk that is asked for if one is missing;
* `readFile`: what is read of a file on the disk;
* `playback_exact`: ranges of a file that is downloaded, and of its copy.
-/

namespace Mosh.Attachment

open Conversation (AttachmentDescriptor)
open AttachmentRuntime

/-- The bytes of a file from a place on, up to another one or to the end. -/
def byteRange (plaintext : List UInt8) (start stop : Nat) : List UInt8 :=
  (plaintext.take stop).drop start

/-- A chunk has some of the bytes of a range that is not empty. -/
def Overlaps (chunkSize start stop i : Nat) : Prop :=
  i * chunkSize < stop ∧ start < (i + 1) * chunkSize

/-! ## Reading chunks -/

/-- Some chunks of a list, one after the other. -/
theorem flatMap_range'_take {α : Type} (l : List α) (k first n : Nat) :
    (List.range' first n).flatMap (fun i => (l.drop (i * k)).take k) =
      (l.drop (first * k)).take (n * k) := by
  have hshift : List.range' first n = (List.range n).map (first + ·) := by
    rw [List.range_eq_range', List.map_add_range', Nat.add_zero]
  rw [hshift, List.flatMap_map, ← flatMap_range_take (l.drop (first * k)) k n]
  refine congrArg (List.flatMap · (List.range n)) (funext fun i => ?_)
  rw [List.drop_drop, Nat.add_mul]

/-- The chunks with bytes of a range are those from the chunk of its first byte to the one of its
    last. -/
theorem overlaps_iff {chunkSize start stop i : Nat} (hsize : 0 < chunkSize) (h : start < stop) :
    Overlaps chunkSize start stop i ↔ start / chunkSize ≤ i ∧ i ≤ (stop - 1) / chunkSize := by
  rw [Overlaps, Nat.le_div_iff_mul_le hsize, ← Nat.lt_succ_iff, Nat.succ_eq_add_one,
    Nat.div_lt_iff_lt_mul hsize]
  omega

section Range

variable {t : IncomingTransfer} {plaintext : List UInt8} {start stop : Nat}

/-- The end of a range within the file. -/
def stopOf (t : IncomingTransfer) (start stop : Nat) : Nat :=
  max (min stop t.manifest.totalSize) start

/-- The chunks that a range is read from. -/
def firstOf (t : IncomingTransfer) (start : Nat) : Nat := start / t.manifest.chunkSize

def lastOf (t : IncomingTransfer) (start stop : Nat) : Nat :=
  if start < stopOf t start stop then (stopOf t start stop - 1) / t.manifest.chunkSize
  else firstOf t start

/-- No number that is computed for a range is too large or negative. -/
theorem bounds_readRange (hsize : 0 < t.manifest.chunkSize) (hstart : start < t.manifest.totalSize) :
    stopOf t start stop ≤ t.manifest.totalSize ∧ start ≤ stopOf t start stop ∧
      firstOf t start * t.manifest.chunkSize ≤ start ∧ firstOf t start ≤ lastOf t start stop ∧
      lastOf t start stop < divCeil t.manifest.totalSize t.manifest.chunkSize ∧
      (start - firstOf t start * t.manifest.chunkSize) + (stopOf t start stop - start) ≤
        t.manifest.totalSize := by
  have hstop : stopOf t start stop ≤ t.manifest.totalSize := by
    rw [stopOf]
    omega
  have hle : start ≤ stopOf t start stop := le_max_right _ _
  have hfirst : firstOf t start * t.manifest.chunkSize ≤ start := Nat.div_mul_le_self _ _
  refine ⟨hstop, hle, hfirst, ?_, ?_, by omega⟩
  · rw [lastOf]
    split
    · exact Nat.div_le_div_right (by omega)
    · exact le_rfl
  · rw [lt_divCeil_iff hsize, lastOf]
    split
    · exact (Nat.div_mul_le_self _ _).trans_lt (by omega)
    · exact hfirst.trans_lt hstart

/-- What a range is, in terms of these numbers. -/
theorem readRange_eq (hstart : start < t.manifest.totalSize) :
    readRange t start stop =
      match (List.range' (firstOf t start) (lastOf t start stop + 1 - firstOf t start)).find?
        (· ∉ t.chunks) with
      | some index => (.pending t.manifest.totalSize, some index)
      | none =>
        let assembled := ((List.range' (firstOf t start)
          (lastOf t start stop + 1 - firstOf t start)).map fun index =>
            (t.chunks[index]?).getD []).flatten
        let offset := start - firstOf t start * t.manifest.chunkSize
        (.ready ((assembled.drop offset).take
          (min (offset + (stopOf t start stop - start)) assembled.length - offset))
            t.manifest.totalSize t.manifest.mime, none) := by
  rw [readRange]
  dsimp only
  rw [if_neg (by omega)]
  rfl

/-- The chunks that are there, of a file, give the bytes of the range. -/
theorem bytes_readRange (hsize : 0 < t.manifest.chunkSize)
    (hlength : plaintext.length = t.manifest.totalSize)
    (hchunks : ∀ (i : Nat) (b : List UInt8), t.chunks[i]? = some b →
      chunkSlice plaintext i t.manifest.chunkSize = some b)
    (hstart : start < t.manifest.totalSize)
    (hall : ∀ i, firstOf t start ≤ i → i ≤ lastOf t start stop → i ∈ t.chunks) :
    readRange t start stop =
      (.ready (byteRange plaintext start (min stop t.manifest.totalSize)) t.manifest.totalSize
        t.manifest.mime, none) := by
  have hbounds : stopOf t start stop ≤ t.manifest.totalSize ∧ start ≤ stopOf t start stop ∧
      firstOf t start * t.manifest.chunkSize ≤ start ∧ firstOf t start ≤ lastOf t start stop ∧
      lastOf t start stop < divCeil t.manifest.totalSize t.manifest.chunkSize ∧ _ :=
    bounds_readRange hsize hstart
  obtain ⟨hstop, hle, hfirst, hlast, -, -⟩ := hbounds
  have hreach : stopOf t start stop ≤ (lastOf t start stop + 1) * t.manifest.chunkSize ∧
      start < (lastOf t start stop + 1) * t.manifest.chunkSize := by
    have hfirst : start < (firstOf t start + 1) * t.manifest.chunkSize :=
      Nat.lt_mul_of_div_lt (Nat.lt_succ_self _) hsize
    rw [lastOf]
    split
    next hlt =>
      have hend : stopOf t start stop - 1 <
          ((stopOf t start stop - 1) / t.manifest.chunkSize + 1) * t.manifest.chunkSize :=
        Nat.lt_mul_of_div_lt (Nat.lt_succ_self _) hsize
      omega
    next hlt => omega
  have hnone : (List.range' (firstOf t start) (lastOf t start stop + 1 - firstOf t start)).find?
      (· ∉ t.chunks) = none := by
    refine List.find?_eq_none.2 fun i hi => ?_
    have := List.mem_range'_1.1 hi
    simpa using hall i (by omega) (by omega)
  have hassembled : ((List.range' (firstOf t start)
      (lastOf t start stop + 1 - firstOf t start)).map fun index =>
        (t.chunks[index]?).getD []).flatten =
      (plaintext.drop (firstOf t start * t.manifest.chunkSize)).take
        ((lastOf t start stop + 1 - firstOf t start) * t.manifest.chunkSize) := by
    rw [← flatMap_range'_take, List.flatMap_def]
    refine congrArg List.flatten (List.map_congr_left fun i hi => ?_)
    have := List.mem_range'_1.1 hi
    have hmem := hall i (by omega) (by omega)
    have hrow := Std.ExtTreeMap.getElem?_eq_some_getElem hmem
    rw [hrow, Option.getD_some]
    exact (chunkSlice_eq_some (hchunks i _ hrow)).2
  rw [readRange_eq hstart, hnone]
  dsimp only
  rw [hassembled]
  set first := firstOf t start
  set last := lastOf t start stop
  set k := t.manifest.chunkSize
  have hmul : (last + 1 - first) * k = (last + 1) * k - first * k := Nat.sub_mul _ _ _
  have hcount : min (start - first * k + (stopOf t start stop - start))
      ((plaintext.drop (first * k)).take ((last + 1 - first) * k)).length - (start - first * k) =
        stopOf t start stop - start := by
    rw [List.length_take, List.length_drop, hlength]
    omega
  rw [hcount, List.drop_take, List.drop_drop, Nat.add_sub_cancel' hfirst, List.take_take,
    min_eq_left (by omega), byteRange, List.drop_take]
  have hspan : stopOf t start stop - start = min stop t.manifest.totalSize - start := by
    rw [stopOf]
    omega
  rw [hspan]

/-- A chunk of the range that is missing is waited for, the first one. -/
theorem pending_readRange (hstart : start < t.manifest.totalSize)
    (hmissing : ∃ i, firstOf t start ≤ i ∧ i ≤ lastOf t start stop ∧ i ∉ t.chunks) :
    ∃ index, readRange t start stop = (.pending t.manifest.totalSize, some index) ∧
      firstOf t start ≤ index ∧ index ≤ lastOf t start stop ∧ index ∉ t.chunks ∧
      ∀ i, firstOf t start ≤ i → i < index → i ∈ t.chunks := by
  rw [readRange_eq hstart]
  cases hfind : (List.range' (firstOf t start)
      (lastOf t start stop + 1 - firstOf t start)).find? (· ∉ t.chunks) with
  | none =>
    obtain ⟨i, hfirst, hlast, hi⟩ := hmissing
    have hno := List.find?_eq_none.1 hfind i (List.mem_range'_1.2 (by omega))
    exact absurd (by simpa using hi) hno
  | some index =>
    obtain ⟨hprop, hmem, hbefore⟩ := List.find?_range'_eq_some.1 hfind
    have := List.mem_range'_1.1 hmem
    refine ⟨index, rfl, by omega, by omega, by simpa using hprop, fun i hi hlt => ?_⟩
    simpa using hbefore i hi hlt

/-- A chunk is needed for a range: it has bytes of it, or the byte at its start if it is empty. -/
def Covers (t : IncomingTransfer) (start stop i : Nat) : Prop :=
  Overlaps t.manifest.chunkSize start (max (min stop t.manifest.totalSize) (start + 1)) i

theorem covers_iff (hsize : 0 < t.manifest.chunkSize) (hstart : start < t.manifest.totalSize)
    (i : Nat) : Covers t start stop i ↔ firstOf t start ≤ i ∧ i ≤ lastOf t start stop := by
  have hlast : (max (min stop t.manifest.totalSize) (start + 1) - 1) / t.manifest.chunkSize =
      lastOf t start stop := by
    rw [lastOf, firstOf]
    split
    next hlt =>
      rw [stopOf] at hlt ⊢
      congr 1
      omega
    next hlt =>
      rw [stopOf] at hlt
      congr 1
      omega
  rw [Covers, overlaps_iff hsize (by omega), hlast, firstOf]

end Range

/-! ## Reading a file -/

/-- The bytes of a range that was cut to the size of a file, from the file on the disk. -/
def readFile (file : Option (List UInt8)) (descriptor : AttachmentDescriptor) (start stop : Nat) :
    Option (List UInt8) :=
  file.bind fun contents =>
    if contents.length ≠ descriptor.totalSize then none
    else
      let length := stop - start
      let bytes := (contents.drop start).take length
      if bytes.length < length then none else some bytes

/-- All bytes that are asked for are read. -/
theorem readFile_eq {descriptor : AttachmentDescriptor} {plaintext : List UInt8}
    (hlength : plaintext.length = descriptor.totalSize) (start stop : Nat) :
    readFile (some plaintext) descriptor (min start descriptor.totalSize)
        (max (min stop descriptor.totalSize) (min start descriptor.totalSize)) =
      some (byteRange plaintext start (min stop descriptor.totalSize)) := by
  have hbytes : (plaintext.drop (min start descriptor.totalSize)).take
      (max (min stop descriptor.totalSize) (min start descriptor.totalSize) -
        min start descriptor.totalSize) =
          byteRange plaintext start (min stop descriptor.totalSize) := by
    rw [byteRange, List.drop_take]
    rcases le_total start descriptor.totalSize with hle | hle
    · rw [min_eq_left hle]
      congr 1
      omega
    · have hspan : max (min stop descriptor.totalSize) descriptor.totalSize -
          descriptor.totalSize = 0 := by omega
      have hempty : min stop descriptor.totalSize - start = 0 := by omega
      rw [min_eq_right hle, hspan, hempty, List.take_zero, List.take_zero]
  have hlen : (byteRange plaintext start (min stop descriptor.totalSize)).length =
      max (min stop descriptor.totalSize) (min start descriptor.totalSize) -
        min start descriptor.totalSize := by
    rw [byteRange, List.length_drop, List.length_take]
    omega
  rw [readFile, Option.bind_some, if_neg (not_not.2 hlength)]
  dsimp only
  rw [hbytes, hlen, if_neg (lt_irrefl _)]

/-- Playback reads the file on the disk if it is not downloaded any more. -/
theorem streamRange_file {w : World} {tr : Transfer} {id : String}
    {descriptor : AttachmentDescriptor} {files : AttachmentDescriptor → Option (List UInt8)}
    {plaintext : List UInt8}
    (hread : ∀ d start stop, w.readBlob d start stop = readFile (files d) d start stop)
    (hruntime : tr.runtime.incoming[id]? = none)
    (hcached : tr.slots.cachedDescriptor id = some descriptor)
    (hfile : files descriptor = some plaintext)
    (hlength : plaintext.length = descriptor.totalSize) (start stop : Nat) :
    tr.streamRange w id start stop =
      (.ready (byteRange plaintext start (min stop descriptor.totalSize)) descriptor.totalSize
        descriptor.mime, tr) := by
  have hstart : ∃ result, tr.slots.startDownload id tr.runtime =
      (result, tr.slots, tr.runtime) := by
    rw [AttachmentSlots.startDownload, AttachmentRuntime.startDownload, hruntime]
    split
    · exact ⟨_, rfl⟩
    · split
      · exact ⟨_, rfl⟩
      · exact ⟨_, rfl⟩
  obtain ⟨result, hstart⟩ := hstart
  rw [Transfer.streamRange, if_neg (by simp [hcached]), hstart]
  dsimp only
  rw [ AttachmentRuntime.streamRange, hruntime]
  dsimp only
  rw [if_neg (not_not.2 rfl), hcached]
  dsimp only
  rw [hread, hfile, readFile_eq hlength]

/-! ## Playback -/

/-- A range that playback asks for has the bytes of the file, up to its end, whether the chunks of
    the file or its copy on the disk are read. It is ready if no chunk that it needs is missing,
    otherwise the first of these is asked for next, and no number that is computed for it is too
    large or negative, nor any place outside the chunks. -/
theorem playback_exact {runtime : AttachmentRuntime} {id : String} {t : IncomingTransfer}
    {plaintext : List UInt8} (htransfer : runtime.incoming[id]? = some t)
    (hsize : 0 < t.manifest.chunkSize) (hlength : plaintext.length = t.manifest.totalSize)
    (hchunks : ∀ (i : Nat) (b : List UInt8), t.chunks[i]? = some b →
      chunkSlice plaintext i t.manifest.chunkSize = some b) (start stop : Nat) :
    (∀ bytes total mime, (runtime.streamRange id start stop).1 = .ready bytes total mime →
      bytes = byteRange plaintext start (min stop t.manifest.totalSize) ∧
        total = t.manifest.totalSize ∧ mime = t.manifest.mime) ∧
    (t.manifest.totalSize ≤ start ∨ (∀ i, Covers t start stop i → i ∈ t.chunks) →
      (runtime.streamRange id start stop).1 =
        .ready (byteRange plaintext start (min stop t.manifest.totalSize)) t.manifest.totalSize
          t.manifest.mime) ∧
    (start < t.manifest.totalSize → (∃ i, Covers t start stop i ∧ i ∉ t.chunks) →
      ∃ index, (runtime.streamRange id start stop).1 = .pending t.manifest.totalSize ∧
        ((runtime.streamRange id start stop).2.incoming[id]?.bind (·.priorityChunk)) = some index ∧
        Covers t start stop index ∧ index ∉ t.chunks ∧
        ∀ i, Covers t start stop i → i ∉ t.chunks → index ≤ i) ∧
    (start < t.manifest.totalSize →
      stopOf t start stop ≤ t.manifest.totalSize ∧ start ≤ stopOf t start stop ∧
      firstOf t start * t.manifest.chunkSize ≤ start ∧ firstOf t start ≤ lastOf t start stop ∧
      lastOf t start stop < divCeil t.manifest.totalSize t.manifest.chunkSize ∧
      (start - firstOf t start * t.manifest.chunkSize) + (stopOf t start stop - start) ≤
        t.manifest.totalSize) ∧
    ∀ (w : World) (tr : Transfer) (descriptor : AttachmentDescriptor)
      (files : AttachmentDescriptor → Option (List UInt8)),
      (∀ d a b, w.readBlob d a b = readFile (files d) d a b) →
      tr.runtime.incoming[id]? = none → tr.slots.cachedDescriptor id = some descriptor →
      files descriptor = some plaintext → plaintext.length = descriptor.totalSize →
      (tr.streamRange w id start stop).1 =
        .ready (byteRange plaintext start (min stop t.manifest.totalSize)) descriptor.totalSize
          descriptor.mime := by
  have hrange : (runtime.streamRange id start stop).1 = (readRange t start stop).1 := by
    rw [AttachmentRuntime.streamRange, htransfer]
    rfl
  have hready : t.manifest.totalSize ≤ start ∨ (∀ i, Covers t start stop i → i ∈ t.chunks) →
      readRange t start stop =
        (.ready (byteRange plaintext start (min stop t.manifest.totalSize)) t.manifest.totalSize
          t.manifest.mime, none) := by
    intro hthere
    by_cases hstart : start < t.manifest.totalSize
    · have hall : ∀ i, Covers t start stop i → i ∈ t.chunks :=
        hthere.resolve_left (not_le.2 hstart)
      exact bytes_readRange hsize hlength hchunks hstart
        fun i hfirst hlast => hall i ((covers_iff hsize hstart i).2 ⟨hfirst, hlast⟩)
    · -- past the end of the file there is nothing to read
      have hnone : byteRange plaintext start (min stop t.manifest.totalSize) = [] := by
        rw [byteRange, List.drop_eq_nil_iff, List.length_take]
        omega
      rw [readRange, hnone]
      dsimp only
      rw [if_pos (Or.inr (not_lt.1 hstart))]
  have hpending : start < t.manifest.totalSize → (∃ i, Covers t start stop i ∧ i ∉ t.chunks) →
      ∃ index, readRange t start stop = (.pending t.manifest.totalSize, some index) ∧
        Covers t start stop index ∧ index ∉ t.chunks ∧
        ∀ i, Covers t start stop i → i ∉ t.chunks → index ≤ i := by
    intro hstart hmissing
    have hcovers : ∀ i, Covers t start stop i ↔ firstOf t start ≤ i ∧ i ≤ lastOf t start stop :=
      covers_iff hsize hstart
    obtain ⟨i, hi, hnot⟩ := hmissing
    have hwanted : ∃ i, firstOf t start ≤ i ∧ i ≤ lastOf t start stop ∧ i ∉ t.chunks :=
      ⟨i, ((hcovers i).1 hi).1, ((hcovers i).1 hi).2, hnot⟩
    obtain ⟨index, heq, hfirst, hlast, hout, hleast⟩ := pending_readRange hstart hwanted
    refine ⟨index, heq, (hcovers index).2 ⟨hfirst, hlast⟩, hout, fun j hj hmissing => ?_⟩
    by_contra hlt
    exact hmissing (hleast j ((hcovers j).1 hj).1 (not_le.1 hlt))
  refine ⟨fun bytes total mime heq => ?_, fun hthere => ?_, fun hstart hmissing => ?_,
    fun hstart => bounds_readRange hsize hstart,
    fun w tr descriptor files hread hruntime hcached hfile hfilesize => ?_⟩
  · rw [hrange] at heq
    by_cases hthere : t.manifest.totalSize ≤ start ∨ (∀ i, Covers t start stop i → i ∈ t.chunks)
    · rw [hready hthere] at heq
      cases heq
      exact ⟨rfl, rfl, rfl⟩
    · push_neg at hthere
      obtain ⟨index, hwait, -⟩ := hpending hthere.1 hthere.2
      rw [hwait] at heq
      cases heq
  · rw [hrange, hready hthere]
  · obtain ⟨index, hwait, hindex⟩ := hpending hstart hmissing
    refine ⟨index, hrange.trans (congrArg Prod.fst hwait), ?_, hindex⟩
    rw [AttachmentRuntime.streamRange, htransfer]
    dsimp only
    rw [Table.getElem?_insert, if_pos rfl, Option.bind_some]
    change (readRange t start stop).2.or t.priorityChunk = some index
    rw [hwait, Option.some_or]
  · rw [streamRange_file hread hruntime hcached hfile hfilesize, ← hfilesize, ← hlength]

/-- A letter of two bytes, of which the first has arrived. -/
def letterTransfer : IncomingTransfer where
  manifest := smallManifest "letter" [72, 105]
  key := Vector.replicate _ 7
  noncePrefix := Vector.replicate _ 1
  chunks := (∅ : Std.ExtTreeMap Nat (List UInt8) compare).insert 0 [72]
  state := .active
  downloadStarted := true
  requestCursor := 0
  requestedAt := ∅
  priorityChunk := none

/-- A conversation that has the letter on the disk. -/
def letterCached : Transfer where
  execution := none
  slots := AttachmentSlots.insert {} (descriptorOf (smallManifest "letter" [72, 105])) .incoming
    (some "letter.txt")

/-- The first byte of the letter is there, the second one is asked for, and the copy has both. -/
theorem playback_exact_letter :
    (AttachmentRuntime.streamRange { incoming :=
        (∅ : Std.ExtTreeMap String IncomingTransfer compare).insert "letter" letterTransfer }
      "letter" 0 1).1 = .ready [72] 2 "text/plain" ∧
    (AttachmentRuntime.streamRange { incoming :=
        (∅ : Std.ExtTreeMap String IncomingTransfer compare).insert "letter" letterTransfer }
      "letter" 0 5).1 = .pending 2 ∧
    (letterCached.streamRange
      { calmWorld with readBlob := fun d a b => readFile (some [72, 105]) d a b } "letter" 0 5).1 =
        .ready [72, 105] 2 "text/plain" := by
  have htransfer : ((∅ : Std.ExtTreeMap String IncomingTransfer compare).insert "letter"
      letterTransfer)["letter"]? = some letterTransfer := by
    rw [Table.getElem?_insert, if_pos rfl]
  have hchunks : ∀ (i : Nat) (b : List UInt8), letterTransfer.chunks[i]? = some b →
      chunkSlice [72, 105] i letterTransfer.manifest.chunkSize = some b := by
    intro i b hi
    change ((∅ : Std.ExtTreeMap Nat (List UInt8) compare).insert 0 [72])[i]? = some b at hi
    rw [Table.getElem?_insert] at hi
    split at hi
    · next h0 =>
      obtain rfl := h0
      rw [← hi]
      rfl
    · simp at hi
  have hexact := fun start stop => @playback_exact
    { incoming := (∅ : Std.ExtTreeMap String IncomingTransfer compare).insert "letter"
        letterTransfer } _ _ _ htransfer (by decide) rfl hchunks start stop
  refine ⟨?_, ?_, ?_⟩
  · refine (hexact 0 1).2.1 (.inr fun i hi => ?_)
    have hlt : i < 1 := by
      have := hi.1
      simp [letterTransfer, smallManifest] at this
      omega
    obtain rfl : i = 0 := by omega
    simp [letterTransfer]
  · obtain ⟨index, hwait, -⟩ := (hexact 0 5).2.2.1 (by decide)
      ⟨1, by simp [Covers, Overlaps, letterTransfer, smallManifest], by simp [letterTransfer]⟩
    exact hwait
  · exact (hexact 0 5).2.2.2.2 _ letterCached (descriptorOf (smallManifest "letter" [72, 105]))
      (fun _ => some [72, 105]) (fun _ _ _ => rfl) rfl (by decide +kernel) rfl rfl

end Mosh.Attachment
