import Mosh.Library.Padded
import Mathlib

/-!
# Fixed-point numbers as text

The number `n / 10 ^ d` is written as its whole part and, behind a point, the `d` digits of what
is left, without the zeros at the end.

* `render`: the text of a number; `value`: the number of a text, however it was written;
* `value_render`: the text of a number has the value of the number;
* `canonical_render`: no digit of it is superfluous, nor is the point;
* `Canonical.eq_of_value_eq`: there is no other such text.
-/

namespace Decimal

/-! ## Texts -/

/-- The text with these digits before and behind the point. -/
def write (whole fraction : List Char) : List Char :=
  whole ++ if fraction = [] then [] else '.' :: fraction

/-- The digits behind the point of `r / 10 ^ d`. -/
def fractionDigits (d r : Nat) : List Char := (Padded.padded d r).rdropWhile (· = '0')

/-- The number `n / 10 ^ d` as text. -/
def render (d n : Nat) : List Char :=
  write (toString (n / 10 ^ d)).toList (fractionDigits d (n % 10 ^ d))

/-- The number of some digits. -/
def digits (l : List Char) : Option Nat :=
  if l ≠ [] ∧ ∀ c ∈ l, c.isDigit = true then some (Nat.ofDigitChars 10 l 0) else none

/-- The number that a text with at most one point denotes. -/
def value (text : List Char) : Option ℚ :=
  match text.dropWhile (· ≠ '.') with
  | [] => (digits text).map fun whole => (whole : ℚ)
  | _ :: fraction => do
    let whole ← digits (text.takeWhile (· ≠ '.'))
    let rest ← digits fraction
    return whole + rest / 10 ^ fraction.length

/-- There is no zero in front that could be left out, none at the end, and no bare point. -/
def Canonical (text : List Char) : Prop :=
  ∃ whole fraction, text = write whole fraction ∧
    (whole ≠ [] ∧ (∀ c ∈ whole, c.isDigit = true) ∧ (whole.head? = some '0' → whole = ['0'])) ∧
    (∀ c ∈ fraction, c.isDigit = true) ∧ fraction.getLast? ≠ some '0'

variable {d n r : Nat} {l l' whole fraction text text' : List Char} {c : Char}

theorem digits_of_isDigit (hne : l ≠ []) (h : ∀ c ∈ l, c.isDigit = true) :
    digits l = some (Nat.ofDigitChars 10 l 0) := if_pos ⟨hne, h⟩

theorem ne_point_of_isDigit (h : c.isDigit = true) : c ≠ '.' := by
  rintro rfl
  cases h

/-! ## Digits -/

/-- Digits of the same length are told by their number. -/
theorem eq_of_ofDigitChars_eq (hlength : l.length = l'.length) (hl : ∀ c ∈ l, c.isDigit = true)
    (hl' : ∀ c ∈ l', c.isDigit = true)
    (h : Nat.ofDigitChars 10 l 0 = Nat.ofDigitChars 10 l' 0) : l = l' := by
  rcases lt_trichotomy l l' with hlt | heq | hgt
  · exact absurd ((Padded.lt_iff_ofDigitChars_lt hlength hl hl').1 hlt) (by omega)
  · exact heq
  · exact absurd ((Padded.lt_iff_ofDigitChars_lt hlength.symm hl' hl).1 hgt) (by omega)

/-- A digit other than zero in front counts. -/
theorem pow_le_ofDigitChars (hc : c.isDigit = true) (hzero : c ≠ '0') (l : List Char) :
    10 ^ l.length ≤ Nat.ofDigitChars 10 (c :: l) 0 := by
  have hdigit : 1 ≤ c.toNat - 48 := by
    have := Padded.toNat_of_isDigit hc
    have hne : c.toNat ≠ 48 := fun h => hzero (Char.ext (UInt32.toNat_inj.1 h))
    omega
  rw [Padded.ofDigitChars_cons_eq]
  calc 10 ^ l.length = 10 ^ l.length * 1 := (Nat.mul_one _).symm
    _ ≤ 10 ^ l.length * (c.toNat - 48) := Nat.mul_le_mul_left _ hdigit
    _ ≤ 10 ^ l.length * (c.toNat - 48) + Nat.ofDigitChars 10 l 0 := Nat.le_add_right _ _

/-- Without a zero in front, the digits are told by their number. -/
theorem eq_of_leading (hne : l ≠ []) (hl : ∀ c ∈ l, c.isDigit = true)
    (hzero : l.head? = some '0' → l = ['0']) (hne' : l' ≠ []) (hl' : ∀ c ∈ l', c.isDigit = true)
    (hzero' : l'.head? = some '0' → l' = ['0'])
    (h : Nat.ofDigitChars 10 l 0 = Nat.ofDigitChars 10 l' 0) : l = l' := by
  -- The number says how many digits there are, but for the zero.
  have hsize : ∀ m : List Char, m ≠ [] → (∀ c ∈ m, c.isDigit = true) →
      (m.head? = some '0' → m = ['0']) →
      m = ['0'] ∨ 10 ^ (m.length - 1) ≤ Nat.ofDigitChars 10 m 0 := by
    intro m hm hdigits hlead
    obtain ⟨c, rest, rfl⟩ := List.exists_cons_of_ne_nil hm
    rcases eq_or_ne c '0' with rfl | hc
    · exact .inl (hlead rfl)
    · exact .inr (pow_le_ofDigitChars (hdigits c List.mem_cons_self) hc rest)
  have hpos : ∀ m : List Char, 10 ^ (m.length - 1) ≤ Nat.ofDigitChars 10 m 0 →
      Nat.ofDigitChars 10 m 0 ≠ Nat.ofDigitChars 10 ['0'] 0 := by
    intro m hm heq
    rw [heq] at hm
    exact absurd hm (Nat.not_le.2 (Nat.pow_pos (by decide)))
  rcases hsize l hne hl hzero with rfl | hle
  · rcases hsize l' hne' hl' hzero' with rfl | hle'
    · rfl
    · exact absurd h.symm (hpos l' hle')
  · rcases hsize l' hne' hl' hzero' with rfl | hle'
    · exact absurd h (hpos l hle)
    · have hlt := (Nat.pow_lt_pow_iff_right (by decide : 1 < 10)).1
        ((hle.trans_eq h).trans_lt (Padded.ofDigitChars_lt hl'))
      have hlt' := (Nat.pow_lt_pow_iff_right (by decide : 1 < 10)).1
        ((hle'.trans_eq h.symm).trans_lt (Padded.ofDigitChars_lt hl))
      exact eq_of_ofDigitChars_eq (by omega) hl hl' h

/-- A number is written without a zero in front. -/
theorem leading_toDigits (h : (Nat.toDigits 10 n).head? = some '0') :
    Nat.toDigits 10 n = ['0'] := by
  obtain ⟨rest, hrest⟩ : ∃ rest, Nat.toDigits 10 n = '0' :: rest := by
    cases hdigits : Nat.toDigits 10 n with
    | nil => exact absurd hdigits Nat.toDigits_ne_nil
    | cons c rest =>
      rw [hdigits] at h
      exact ⟨rest, by rw [Option.some.inj h]⟩
  rcases eq_or_ne rest [] with rfl | hne
  · exact hrest
  · have hpos := List.length_pos_of_ne_nil hne
    have hdigits : ∀ c ∈ rest, c.isDigit = true := fun c hc =>
      Nat.isDigit_of_mem_toDigits (by decide) (by decide)
        (hrest ▸ List.mem_cons_of_mem _ hc : c ∈ Nat.toDigits 10 n)
    -- The digits after the zero would do, which is one less than are needed.
    have hlt : n < 10 ^ rest.length := by
      have hn := Nat.ofDigitChars_toDigits (b := 10) (n := n) (by decide) (by decide)
      rw [hrest, Padded.ofDigitChars_cons_eq] at hn
      have := Padded.ofDigitChars_lt hdigits
      simp only [show '0'.toNat - 48 = 0 from rfl, Nat.mul_zero, Nat.zero_add] at hn
      omega
    have hlength := (Nat.length_toDigits_le_iff (b := 10) (by decide) hpos).2 hlt
    rw [hrest, List.length_cons] at hlength
    omega

/-! ## Fractions -/

theorem isDigit_of_mem_fractionDigits (h : c ∈ fractionDigits d r) : c.isDigit = true :=
  Padded.isDigit_of_mem_padded ((List.rdropWhile_prefix _ _).subset h)

theorem getLast?_fractionDigits : (fractionDigits d r).getLast? ≠ some '0' := by
  intro h
  rcases eq_or_ne (fractionDigits d r) [] with hnil | hne
  · rw [hnil] at h
    cases h
  · rw [List.getLast?_eq_some_getLast hne] at h
    have hlast := List.rdropWhile_last_not (fun c : Char => c = '0') (Padded.padded d r) hne
    exact hlast (decide_eq_true (Option.some.inj h))

/-- The zeros at the end do not count. -/
theorem fractionDigits_eq (h : r < 10 ^ d) :
    (Nat.ofDigitChars 10 (fractionDigits d r) 0 : ℚ) / 10 ^ (fractionDigits d r).length =
      r / 10 ^ d := by
  rcases Nat.eq_zero_or_pos d with rfl | hd
  · obtain rfl : r = 0 := by omega
    have hnil : fractionDigits 0 0 = [] := by decide
    simp [hnil]
  · have hzeros : (Padded.padded d r).rtakeWhile (· = '0') =
        List.replicate ((Padded.padded d r).rtakeWhile (· = '0')).length '0' :=
      List.eq_replicate_of_mem fun c hc => by
        have hzero := List.mem_rtakeWhile_imp hc
        exact of_decide_eq_true hzero
    have hsplit := List.rdropWhile_append_rtakeWhile (p := (· = '0')) (l := Padded.padded d r)
    have hlength := congrArg List.length hsplit
    have hnumber := congrArg (Nat.ofDigitChars 10 · 0) hsplit
    rw [List.length_append, Padded.length_padded hd h, ← fractionDigits] at hlength
    rw [hzeros, Nat.ofDigitChars_append, Nat.ofDigitChars_replicate_zero,
      Padded.ofDigitChars_padded, ← fractionDigits] at hnumber
    have hcross : Nat.ofDigitChars 10 (fractionDigits d r) 0 * 10 ^ d =
        r * 10 ^ (fractionDigits d r).length := by
      calc Nat.ofDigitChars 10 (fractionDigits d r) 0 * 10 ^ d
          = Nat.ofDigitChars 10 (fractionDigits d r) 0 * 10 ^ ((fractionDigits d r).length +
              ((Padded.padded d r).rtakeWhile (· = '0')).length) := by rw [hlength]
        _ = 10 ^ ((Padded.padded d r).rtakeWhile (· = '0')).length *
              Nat.ofDigitChars 10 (fractionDigits d r) 0 * 10 ^ (fractionDigits d r).length := by
            ring
        _ = r * 10 ^ (fractionDigits d r).length := by rw [hnumber]
    rw [div_eq_div_iff (by positivity) (by positivity)]
    exact_mod_cast hcross

/-! ## Values -/

/-- A text is read at the point. -/
theorem value_write (hne : whole ≠ []) (hwhole : ∀ c ∈ whole, c.isDigit = true)
    (hfraction : ∀ c ∈ fraction, c.isDigit = true) :
    value (write whole fraction) = some
      ((Nat.ofDigitChars 10 whole 0 : ℚ) +
        Nat.ofDigitChars 10 fraction 0 / 10 ^ fraction.length) := by
  have hpoint : ∀ c ∈ whole, decide (c ≠ '.') = true := fun c hc =>
    decide_eq_true (ne_point_of_isDigit (hwhole c hc))
  rcases eq_or_ne fraction [] with rfl | hfne
  · rw [write, if_pos rfl, List.append_nil, value, List.dropWhile_eq_nil_iff.2 hpoint]
    simp [digits_of_isDigit hne hwhole]
  · have hdrop : (write whole fraction).dropWhile (· ≠ '.') = '.' :: fraction := by
      rw [write, if_neg hfne, List.dropWhile_append_of_pos hpoint]
      rfl
    have htake : (write whole fraction).takeWhile (· ≠ '.') = whole := by
      rw [write, if_neg hfne, List.takeWhile_append_of_pos hpoint]
      simp
    rw [value, hdrop, htake]
    simp only
    rw [digits_of_isDigit hne hwhole, digits_of_isDigit hfne hfraction]
    rfl

/-- The text of a number has its value. -/
theorem value_render (d n : Nat) : value (render d n) = some ((n : ℚ) / 10 ^ d) := by
  have hpow : (10 : ℚ) ^ d ≠ 0 := by positivity
  have hwhole : (toString (n / 10 ^ d)).toList = Nat.toDigits 10 (n / 10 ^ d) := Nat.toList_repr
  rw [render, hwhole, value_write Nat.toDigits_ne_nil
    (fun c => Nat.isDigit_of_mem_toDigits (by decide) (by decide))
    (fun c => isDigit_of_mem_fractionDigits), fractionDigits_eq (Nat.mod_lt _ (by positivity)),
    Nat.ofDigitChars_toDigits (by decide) (by decide)]
  -- The quotient and what is left make up the number.
  have hsplit : ((10 ^ d : Nat) : ℚ) * ((n / 10 ^ d : Nat) : ℚ) + ((n % 10 ^ d : Nat) : ℚ) = n := by
    exact_mod_cast Nat.div_add_mod n (10 ^ d)
  congr 1
  rw [← hsplit]
  push_cast
  field_simp

theorem canonical_render (d n : Nat) : Canonical (render d n) := by
  have hwhole : (toString (n / 10 ^ d)).toList = Nat.toDigits 10 (n / 10 ^ d) := Nat.toList_repr
  refine ⟨_, _, rfl, ?_, fun c => isDigit_of_mem_fractionDigits, getLast?_fractionDigits⟩
  rw [hwhole]
  exact ⟨Nat.toDigits_ne_nil, fun c => Nat.isDigit_of_mem_toDigits (by decide) (by decide),
    leading_toDigits⟩

/-- Numbers with the same text are the same. -/
theorem render_inj {m : Nat} (h : render d n = render d m) : n = m := by
  have hvalue := value_render d n
  rw [h, value_render] at hvalue
  have hpow : (10 : ℚ) ^ d ≠ 0 := by positivity
  exact_mod_cast ((div_left_inj' hpow).1 (Option.some.inj hvalue)).symm

/-! ## There is one text -/

/-- With more digits behind the point than another text of the value has, the last one is zero. -/
theorem last_of_longer {k m : Nat} (hfraction : ∀ c ∈ fraction, c.isDigit = true)
    (hlast : fraction.getLast? ≠ some '0') (hlt : k < fraction.length)
    (h : m * 10 ^ (fraction.length - k) = Nat.ofDigitChars 10 fraction 0) : False := by
  rcases fraction.eq_nil_or_concat with rfl | ⟨front, c, rfl⟩
  · cases hlt
  · rw [List.concat_eq_append] at *
    have hc := Padded.toNat_of_isDigit (hfraction c (by simp))
    rw [Nat.ofDigitChars_append, Nat.ofDigitChars_cons, Nat.ofDigitChars_nil] at h
    obtain ⟨j, hj⟩ : ∃ j, (front ++ [c]).length - k = j + 1 := ⟨_, (Nat.succ_pred_eq_of_pos
      (Nat.sub_pos_of_lt hlt)).symm⟩
    rw [hj, Nat.pow_succ, ← Nat.mul_assoc] at h
    have hdigit : c.toNat = 48 := by
      have h0 : '0'.toNat = 48 := rfl
      omega
    refine hlast ?_
    rw [List.getLast?_append, List.getLast?_singleton]
    exact congrArg some (Char.ext (UInt32.toNat_inj.1 hdigit))

/-- Fractions without a zero at the end are told by their value. -/
theorem eq_of_fraction_eq {fraction' : List Char} (hfraction : ∀ c ∈ fraction, c.isDigit = true)
    (hlast : fraction.getLast? ≠ some '0') (hfraction' : ∀ c ∈ fraction', c.isDigit = true)
    (hlast' : fraction'.getLast? ≠ some '0')
    (h : (Nat.ofDigitChars 10 fraction 0 : ℚ) / 10 ^ fraction.length =
      Nat.ofDigitChars 10 fraction' 0 / 10 ^ fraction'.length) : fraction = fraction' := by
  have hcross : Nat.ofDigitChars 10 fraction 0 * 10 ^ fraction'.length =
      Nat.ofDigitChars 10 fraction' 0 * 10 ^ fraction.length := by
    rw [div_eq_div_iff (by positivity) (by positivity)] at h
    exact_mod_cast h
  rcases lt_trichotomy fraction.length fraction'.length with hlt | heq | hgt
  · refine (last_of_longer (k := fraction.length) (m := Nat.ofDigitChars 10 fraction 0) hfraction'
      hlast' hlt ?_).elim
    refine Nat.eq_of_mul_eq_mul_right (Nat.pow_pos (n := fraction.length) (by decide : 0 < 10)) ?_
    rw [Nat.mul_assoc, ← Nat.pow_add, Nat.sub_add_cancel hlt.le, hcross]
  · rw [heq] at hcross
    exact eq_of_ofDigitChars_eq heq hfraction hfraction'
      (Nat.eq_of_mul_eq_mul_right (Nat.pow_pos (by decide)) hcross)
  · refine (last_of_longer (k := fraction'.length) (m := Nat.ofDigitChars 10 fraction' 0) hfraction
      hlast hgt ?_).elim
    refine Nat.eq_of_mul_eq_mul_right (Nat.pow_pos (n := fraction'.length) (by decide : 0 < 10)) ?_
    rw [Nat.mul_assoc, ← Nat.pow_add, Nat.sub_add_cancel hgt.le, hcross]

/-- What is behind the point is less than one. -/
theorem fraction_lt_one (h : ∀ c ∈ fraction, c.isDigit = true) :
    (Nat.ofDigitChars 10 fraction 0 : ℚ) / 10 ^ fraction.length < 1 := by
  rw [div_lt_one (by positivity)]
  exact_mod_cast Padded.ofDigitChars_lt h

/-- A value has one canonical text. -/
theorem Canonical.eq_of_value_eq (h : Canonical text) (h' : Canonical text')
    (hvalue : value text = value text') : text = text' := by
  obtain ⟨whole, fraction, rfl, ⟨hne, hwhole, hzero⟩, hfraction, hlast⟩ := h
  obtain ⟨whole', fraction', rfl, ⟨hne', hwhole', hzero'⟩, hfraction', hlast'⟩ := h'
  rw [value_write hne hwhole hfraction, value_write hne' hwhole' hfraction'] at hvalue
  have heq := Option.some.inj hvalue
  have hlt := fraction_lt_one hfraction
  have hlt' := fraction_lt_one hfraction'
  have hnonneg : (0 : ℚ) ≤ Nat.ofDigitChars 10 fraction 0 / 10 ^ fraction.length := by positivity
  have hnonneg' : (0 : ℚ) ≤ Nat.ofDigitChars 10 fraction' 0 / 10 ^ fraction'.length := by positivity
  -- The whole parts are less than one apart, so that they are equal.
  have hnumber : Nat.ofDigitChars 10 whole 0 = Nat.ofDigitChars 10 whole' 0 := by
    have h₁ : (Nat.ofDigitChars 10 whole 0 : ℚ) < Nat.ofDigitChars 10 whole' 0 + 1 := by linarith
    have h₂ : (Nat.ofDigitChars 10 whole' 0 : ℚ) < Nat.ofDigitChars 10 whole 0 + 1 := by linarith
    norm_cast at h₁ h₂
    omega
  have hsame : whole = whole' := eq_of_leading hne hwhole hzero hne' hwhole' hzero' hnumber
  have hrest : fraction = fraction' := by
    rw [hnumber] at heq
    exact eq_of_fraction_eq hfraction hlast hfraction' hlast' (add_left_cancel heq)
  rw [hsame, hrest]

end Decimal
