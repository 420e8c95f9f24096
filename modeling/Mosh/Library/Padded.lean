import Mathlib

/-!
# Numbers with leading zeros

Numbers that are written with a fixed number of decimal digits are in the order of their texts.

* `padded_lt_iff`, `padded_inj`: the order of two numbers is that of their digits.
-/

namespace Padded

/-- A number with at least `width` digits. -/
def padded (width n : Nat) : List Char := (toString n).toList.leftpad width '0'

variable {width n m : Nat}

theorem padded_eq (width n : Nat) :
    padded width n = List.replicate (width - (Nat.toDigits 10 n).length) '0' ++ Nat.toDigits 10 n := by
  rw [padded, List.leftpad]
  simp [Nat.repr_eq_ofList_toDigits]

theorem length_padded (hwidth : 0 < width) (h : n < 10 ^ width) :
    (padded width n).length = width := by
  have hle := (Nat.length_toDigits_le_iff (b := 10) (by decide) hwidth).2 h
  rw [padded_eq, List.length_append, List.length_replicate]
  omega

/-- The number of the digits. -/
theorem ofDigitChars_padded (width n : Nat) : Nat.ofDigitChars 10 (padded width n) 0 = n := by
  rw [padded_eq, Nat.ofDigitChars_append, Nat.ofDigitChars_replicate_zero, Nat.mul_zero,
    Nat.ofDigitChars_toDigits (by decide) (by decide)]

theorem isDigit_of_mem_padded {c : Char} (h : c ∈ padded width n) : c.isDigit = true := by
  rw [padded_eq, List.mem_append] at h
  rcases h with h | h
  · rw [List.eq_of_mem_replicate h]
    rfl
  · exact Nat.isDigit_of_mem_toDigits (by decide) (by decide) h

/-- The digits after the first one count for less than it. -/
theorem ofDigitChars_cons_eq (c : Char) (l : List Char) : Nat.ofDigitChars 10 (c :: l) 0 =
    10 ^ l.length * (c.toNat - 48) + Nat.ofDigitChars 10 l 0 := by
  rw [Nat.ofDigitChars_cons, Nat.mul_zero, Nat.zero_add]
  exact Nat.ofDigitChars_eq_ofDigitChars_zero

theorem toNat_of_isDigit {c : Char} (h : c.isDigit = true) : 48 ≤ c.toNat ∧ c.toNat ≤ 57 := by
  rw [Char.isDigit, Bool.and_eq_true, decide_eq_true_eq, decide_eq_true_eq] at h
  exact h

theorem ofDigitChars_lt {l : List Char} (h : ∀ c ∈ l, c.isDigit = true) :
    Nat.ofDigitChars 10 l 0 < 10 ^ l.length := by
  induction l with
  | nil => exact Nat.one_pos
  | cons c l ih =>
    have hrest := ih fun c' hc' => h c' (List.mem_cons_of_mem _ hc')
    have hdigit : c.toNat - 48 ≤ 9 := by
      have := toNat_of_isDigit (h c List.mem_cons_self)
      omega
    rw [ofDigitChars_cons_eq, List.length_cons, Nat.pow_succ]
    calc 10 ^ l.length * (c.toNat - 48) + Nat.ofDigitChars 10 l 0
        < 10 ^ l.length * (c.toNat - 48) + 10 ^ l.length := Nat.add_lt_add_left hrest _
      _ ≤ 10 ^ l.length * 9 + 10 ^ l.length := Nat.add_le_add_right (Nat.mul_le_mul_left _ hdigit) _
      _ = 10 ^ l.length * 10 := by ring

/-- Digits of the same length are in the order of their numbers. -/
theorem lt_iff_ofDigitChars_lt {l l' : List Char} (hlength : l.length = l'.length)
    (hl : ∀ c ∈ l, c.isDigit = true) (hl' : ∀ c ∈ l', c.isDigit = true) :
    l < l' ↔ Nat.ofDigitChars 10 l 0 < Nat.ofDigitChars 10 l' 0 := by
  induction l generalizing l' with
  | nil =>
    rw [List.eq_nil_of_length_eq_zero hlength.symm]
    exact iff_of_false (List.lt_irrefl []) (Nat.lt_irrefl _)
  | cons c l ih =>
    rcases l' with - | ⟨c', l'⟩
    · cases hlength
    have hlen : l.length = l'.length := Nat.succ.inj hlength
    have hrest := ofDigitChars_lt fun d hd => hl d (List.mem_cons_of_mem _ hd)
    have hrest' := ofDigitChars_lt fun d hd => hl' d (List.mem_cons_of_mem _ hd)
    have hdigit := toNat_of_isDigit (hl c List.mem_cons_self)
    have hdigit' := toNat_of_isDigit (hl' c' List.mem_cons_self)
    rw [List.cons_lt_cons_iff, ofDigitChars_cons_eq, ofDigitChars_cons_eq, ← hlen,
      ih hlen (fun d hd => hl d (List.mem_cons_of_mem _ hd))
        (fun d hd => hl' d (List.mem_cons_of_mem _ hd))]
    rw [← hlen] at hrest'
    rcases lt_trichotomy c.toNat c'.toNat with hlt | heq | hgt
    · -- the first digits decide
      refine iff_of_true (.inl hlt) ?_
      have hstep : 10 ^ l.length * (c.toNat - 48) + 10 ^ l.length ≤
          10 ^ l.length * (c'.toNat - 48) := by
        rw [← Nat.mul_succ]
        exact Nat.mul_le_mul_left _ (by omega)
      omega
    · have hchar : c = c' := Char.ext (UInt32.toNat_inj.1 heq)
      subst hchar
      simp
    · refine iff_of_false ?_ ?_
      · rintro (hlt | ⟨rfl, -⟩)
        · exact absurd (show c.toNat < c'.toNat from hlt) (by omega)
        · exact Nat.lt_irrefl _ hgt
      · have hstep : 10 ^ l.length * (c'.toNat - 48) + 10 ^ l.length ≤
            10 ^ l.length * (c.toNat - 48) := by
          rw [← Nat.mul_succ]
          exact Nat.mul_le_mul_left _ (by omega)
        omega

/-- Numbers are in the order of their digits. -/
theorem padded_lt_iff (hn : n < 10 ^ width) (hm : m < 10 ^ width) (hwidth : 0 < width) :
    padded width n < padded width m ↔ n < m := by
  rw [lt_iff_ofDigitChars_lt (by rw [length_padded hwidth hn, length_padded hwidth hm])
    (fun _ => isDigit_of_mem_padded) (fun _ => isDigit_of_mem_padded), ofDigitChars_padded,
    ofDigitChars_padded]

/-- A number is told by its digits. -/
theorem padded_inj (h : padded width n = padded width m) : n = m := by
  rw [← ofDigitChars_padded width n, h, ofDigitChars_padded]

end Padded
