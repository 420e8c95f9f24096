import Mosh.Library.Run
import Mosh.Recovery.Fragment
import Mosh.Deletion.Fragments

/-!
# The assembly of a record, fragment after fragment

A reader keeps the beginning of a record between two pages, so that what a refused fragment
leaves behind matters as much as the answer (`conversation/recovery/fragment.rs`). Here the
partial record is a cell that is changed in place (`PartialRecord.acceptIn`).

* `accept_eq_acceptIn`: the answers are those of `PartialRecord.accept`;
* `acceptIn_refused`: a fragment that does not fit is refused, and the bytes that are there stay;
* `Bounded.acceptIn`: there are never more bytes than were announced;
* `feed_held`: a reader that is fed with what it asks for gets the record.
-/

namespace Mosh.Recovery

section Reassembly

variable (c : FragmentCodec)

/-- Add a fragment to the partial record in place: what becomes of it, and the answer. -/
def PartialRecord.acceptIn (current : Option PartialRecord) (f : PageFragment) :
    Option PartialRecord × Except String (Option (List UInt8)) :=
  if f.total = 0 ∨ maxRecord < f.total ∨ f.total ≤ f.offset ∨ f.offset % chunk ≠ 0 ∨
      f.digest.utf8ByteSize ≠ 64 ∨ 4 * chunk / 3 + 8 < f.bytesB64.utf8ByteSize then
    (current, .error "invalid bounded history fragment")
  else
    match c.decode f.bytesB64 with
    | .error e => (current, .error e)
    | .ok bytes =>
      if bytes.length ≠ min chunk (f.total - f.offset) then
        (current, .error "invalid history fragment length")
      else
        -- From here on there is a partial record, be the fragment refused or not.
        let p := current.getD ⟨f.digest, f.total, []⟩
        if p.digest ≠ f.digest ∨ p.total ≠ f.total ∨ p.bytes.length ≠ f.offset then
          (some p, .error "history fragment window differs")
        else
          let p := { p with bytes := p.bytes ++ bytes }
          if p.bytes.length ≠ p.total then (some p, .ok none)
          else if c.sha256 p.bytes ≠ p.digest then
            (some p, .error "history record digest differs")
          else (none, .ok (some p.bytes))

/-- The bytes that are assembled. -/
def assembled (current : Option PartialRecord) : List UInt8 := (current.map (·.bytes)).getD []

/-- The fragment does not continue what is there: it is of another record, of another place, of
    a wrong length, or no encoding at all. -/
def PageFragment.Misfits (current : Option PartialRecord) (f : PageFragment) : Prop :=
  (∃ p, current = some p ∧ (f.digest ≠ p.digest ∨ f.total ≠ p.total)) ∨
    f.offset ≠ (assembled current).length ∨
    (∃ e, c.decode f.bytesB64 = .error e) ∨
    ∃ bytes, c.decode f.bytesB64 = .ok bytes ∧ bytes.length ≠ min chunk (f.total - f.offset)

/-- The number of the fragments of a record. -/
def fragments (bytes : List UInt8) : Nat := (bytes.length + (chunk - 1)) / chunk

/-- Feed a reader once with the fragment at the offset it asks for. -/
def feedOnce (bytes : List UInt8) (current : Option PartialRecord) :
    Option PartialRecord × Except String (Option (List UInt8)) :=
  match fragment c bytes (fragmentOffset current) with
  | .error e => (current, .error e)
  | .ok f => PartialRecord.acceptIn c current f

/-- Feed a reader a number of times, and collect the answers. -/
def feed (bytes : List UInt8) :
    Nat → Option PartialRecord → Option PartialRecord × List (Except String (Option (List UInt8)))
  | 0, current => (current, [])
  | n + 1, current =>
    let (current, answer) := feedOnce c bytes current
    let (current, answers) := feed bytes n current
    (current, answer :: answers)

variable {c} {current : Option PartialRecord} {f : PageFragment} {bytes : List UInt8} {n : Nat}

/-- In place or not, the answers are the same, and what an accepted fragment leaves. -/
theorem accept_eq_acceptIn (current : Option PartialRecord) (f : PageFragment) :
    PartialRecord.accept c current f =
      (PartialRecord.acceptIn c current f).2.map
        fun record => ((PartialRecord.acceptIn c current f).1, record) := by
  rw [PartialRecord.accept, PartialRecord.acceptIn]
  split
  · rfl
  · cases c.decode f.bytesB64 with
    | error e => rfl
    | ok bytes =>
      simp only
      split
      · rfl
      · split
        · rfl
        · split
          · rfl
          · split
            · rfl
            · rfl

theorem acceptIn_of_accept {next : Option PartialRecord} {record : Option (List UInt8)}
    (h : PartialRecord.accept c current f = .ok (next, record)) :
    PartialRecord.acceptIn c current f = (next, .ok record) := by
  rw [accept_eq_acceptIn] at h
  cases hanswer : (PartialRecord.acceptIn c current f).2 with
  | error e =>
    rw [hanswer] at h
    cases h
  | ok record' =>
    rw [hanswer] at h
    injection h with h
    injection h with hnext hrecord
    exact Prod.ext hnext (hrecord ▸ hanswer)

/-! ## Refusals -/

/-- A fragment that does not fit is refused. The bytes that are there stay, and a partial record
    that is there stays the same. -/
theorem acceptIn_refused (h : f.Misfits c current) :
    (∃ e, (PartialRecord.acceptIn c current f).2 = .error e) ∧
      assembled (PartialRecord.acceptIn c current f).1 = assembled current ∧
      ∀ p, current = some p → (PartialRecord.acceptIn c current f).1 = some p := by
  rw [PartialRecord.acceptIn]
  split
  · exact ⟨⟨_, rfl⟩, rfl, fun _ => id⟩
  · cases hdecode : c.decode f.bytesB64 with
    | error e => exact ⟨⟨_, rfl⟩, rfl, fun _ => id⟩
    | ok bytes =>
      simp only
      split
      · exact ⟨⟨_, rfl⟩, rfl, fun _ => id⟩
      · next hlength =>
        -- The encoding and the length are right, so that it is the window that differs.
        have hwindow : (current.getD ⟨f.digest, f.total, []⟩).digest ≠ f.digest ∨
            (current.getD ⟨f.digest, f.total, []⟩).total ≠ f.total ∨
            (current.getD ⟨f.digest, f.total, []⟩).bytes.length ≠ f.offset := by
          rcases h with ⟨p, rfl, hdigest | htotal⟩ | hoffset | ⟨e, he⟩ | ⟨_, hbytes, hwrong⟩
          · exact .inl hdigest.symm
          · exact .inr (.inl htotal.symm)
          · refine .inr (.inr ?_)
            cases current with
            | none => exact hoffset.symm
            | some p => exact hoffset.symm
          · rw [hdecode] at he
            cases he
          · rw [hdecode] at hbytes
            exact absurd (Except.ok.inj hbytes ▸ hwrong) hlength
        rw [if_pos hwindow]
        refine ⟨⟨_, rfl⟩, ?_, ?_⟩
        · cases current with
          | none => rfl
          | some p => rfl
        · rintro p rfl
          rfl

/-! ## The bound -/

/-- Of the bytes that were announced, and no more than a record may have, some are there. -/
def Bounded (current : Option PartialRecord) : Prop :=
  ∀ p, current = some p → p.bytes.length ≤ p.total ∧ p.total ≤ maxRecord

theorem Bounded.none : Bounded none := fun _ h => by cases h

/-- A fragment brings no more than what is missing. -/
theorem Bounded.acceptIn (h : Bounded current) (f : PageFragment) :
    Bounded (PartialRecord.acceptIn c current f).1 := by
  rw [PartialRecord.acceptIn]
  split
  · exact h
  · next hwell =>
    simp only [not_or, not_lt, not_le] at hwell
    obtain ⟨-, hmax, hoffset, -⟩ := hwell
    have hgetD : (current.getD ⟨f.digest, f.total, []⟩).bytes.length ≤
          (current.getD ⟨f.digest, f.total, []⟩).total ∧
        (current.getD ⟨f.digest, f.total, []⟩).total ≤ maxRecord := by
      cases current with
      | none => exact ⟨Nat.zero_le _, hmax⟩
      | some p => exact h p rfl
    cases c.decode f.bytesB64 with
    | error e => exact h
    | ok bytes =>
      simp only
      split
      · exact h
      · next hlength =>
        rw [not_not] at hlength
        split
        · rintro p ⟨⟩
          exact hgetD
        · next hwindow =>
          simp only [ne_eq, not_or, not_not] at hwindow
          obtain ⟨-, htotal, hat⟩ := hwindow
          -- The fragment starts where the bytes end, and ends where the record does at the latest.
          have hlonger : ((current.getD ⟨f.digest, f.total, []⟩).bytes ++ bytes).length ≤
              (current.getD ⟨f.digest, f.total, []⟩).total := by
            rw [List.length_append, hlength, hat, htotal]
            have := min_le_right chunk (f.total - f.offset)
            omega
          split
          · rintro p ⟨⟩
            exact ⟨hlonger, hgetD.2⟩
          · split
            · rintro p ⟨⟩
              exact ⟨hlonger, hgetD.2⟩
            · exact Bounded.none

/-! ## A reader that is fed -/

/-- Who holds a beginning asks for what comes next, and gets it. -/
theorem feedOnce_held (hc : c.Lawful) (hne : bytes ≠ []) (hmax : bytes.length ≤ maxRecord)
    (hn : n < bytes.length) (hchunk : n % chunk = 0) :
    feedOnce c bytes (held c bytes n) =
      if n + chunk < bytes.length then (held c bytes (n + chunk), .ok none)
      else (none, .ok (some bytes)) := by
  have hfragment := fragment_eq_ok (c := c) hne hmax hn hchunk
  have haccept := accept_fragment hc hn.le hfragment
  rw [feedOnce, fragmentOffset_held hn.le, hfragment]
  simp only
  rcases lt_or_ge (n + chunk) bytes.length with hmore | hdone
  · rw [if_pos hmore] at haccept ⊢
    exact acceptIn_of_accept haccept
  · rw [if_neg hdone.not_gt] at haccept ⊢
    exact acceptIn_of_accept haccept

/-- With `k` fragments and the last one missing, there is no record `k` times, and then there is
    the record and nothing else. -/
theorem feed_held (hc : c.Lawful) (hmax : bytes.length ≤ maxRecord) (k : Nat)
    (hchunk : n % chunk = 0) (hmore : n + k * chunk < bytes.length)
    (hlast : bytes.length ≤ n + k * chunk + chunk) :
    feed c bytes (k + 1) (held c bytes n) =
      (none, List.replicate k (.ok none) ++ [.ok (some bytes)]) := by
  have hne : bytes ≠ [] := List.ne_nil_of_length_pos (by omega)
  induction k generalizing n with
  | zero =>
    rw [feed, feedOnce_held hc hne hmax (by omega) hchunk, if_neg (by omega)]
    rfl
  | succ k ih =>
    rw [Nat.succ_mul] at hmore hlast
    have hrest := ih (n := n + chunk) (by rw [Nat.add_mod_right]; exact hchunk) (by omega)
      (by omega)
    rw [feed, feedOnce_held hc hne hmax (by omega) hchunk, if_pos (by omega)]
    simp only
    rw [hrest]
    rfl

/-- The fragments before the last one do not end the record, and the last one does. -/
theorem fragments_bounds (hne : bytes ≠ []) :
    fragments bytes = fragments bytes - 1 + 1 ∧ (fragments bytes - 1) * chunk < bytes.length ∧
      bytes.length ≤ (fragments bytes - 1) * chunk + chunk := by
  have hpos := List.length_pos_of_ne_nil hne
  simp only [fragments, chunk]
  omega

/-- A reader that asks for one fragment after the other has the record at the last one, and has
    nothing left. Whatever fragments a reader was given, one that does not fit changes nothing of
    what is assembled, and no more is assembled than was announced. -/
theorem record_reassembled (hc : c.Lawful) :
    (∀ bytes : List UInt8, bytes ≠ [] → bytes.length ≤ maxRecord →
      feed c bytes (fragments bytes) none =
        (none, List.replicate (fragments bytes - 1) (.ok none) ++ [.ok (some bytes)])) ∧
    ∀ fs current,
      Run.Runs (fun current f => (PartialRecord.acceptIn c current f).1) (fun _ _ => True) none fs
        current →
      (∀ f : PageFragment, f.Misfits c current →
        (∃ e, (PartialRecord.acceptIn c current f).2 = .error e) ∧
        assembled (PartialRecord.acceptIn c current f).1 = assembled current ∧
        ∀ p, current = some p → (PartialRecord.acceptIn c current f).1 = some p) ∧
      ∀ p, current = some p → p.bytes.length ≤ p.total ∧ p.total ≤ maxRecord := by
  constructor
  · intro bytes hne hmax
    obtain ⟨hcount, hmore, hlast⟩ := fragments_bounds hne
    have hfeed := feed_held (n := 0) hc hmax (fragments bytes - 1) (Nat.zero_mod _) (by omega)
      (by omega)
    rw [← hcount, held_zero] at hfeed
    exact hfeed
  · intro fs current hruns
    refine ⟨fun f hf => acceptIn_refused hf, ?_⟩
    exact hruns.invariant (fun _ f _ h => h.acceptIn f) Bounded.none

/-- A record of 3003 bytes takes two fragments. The second one is refused while there is none. -/
theorem record_reassembled_twice :
    feed Deletion.FragmentBuffer.plainPages.toFragmentCodec (List.replicate 3003 7) 2 none =
      (none, [.ok none, .ok (some (List.replicate 3003 7))]) ∧
    ∃ e, (PartialRecord.acceptIn Deletion.FragmentBuffer.plainPages.toFragmentCodec none
      ⟨"", 3003, 3000, ""⟩).2 = .error e := by
  obtain ⟨hfed, hrun⟩ :=
    record_reassembled Deletion.FragmentBuffer.plainPages_lawful.toLawful
  constructor
  · have hlength : (List.replicate 3003 (7 : UInt8)).length = 3003 := List.length_replicate
    have hrecord := hfed (List.replicate 3003 7) (List.ne_nil_of_length_pos (by omega))
      (by rw [hlength]; decide)
    rw [show fragments (List.replicate 3003 7) = 2 by rw [fragments, hlength]; rfl] at hrecord
    exact hrecord
  · exact ((hrun [] none (.nil _)).1 ⟨"", 3003, 3000, ""⟩ (.inr (.inl (by decide)))).1

end Reassembly

end Mosh.Recovery
