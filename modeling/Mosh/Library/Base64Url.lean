import Mosh.Library.Base64

/-!
# Base64 in URLs

The encoding of bytes that is safe in a URL: the last two characters of the alphabet are `-` and
`_`, and the last group is not filled up.

* `decode_encode`, `encode_inj`: what was encoded can be decoded;
* `length_encodeChars`: the length of a text tells how many bytes there are;
* `take_encodeChars`: its first group tells the first three bytes;
* `isDigit_of_mem`: it has no other characters.
-/

namespace Base64Url

/-- The character of six bits. -/
def digit (n : Nat) : Char :=
  if n = 62 then '-' else if n = 63 then '_' else Base64.digit n

/-- The six bits of a character. -/
def value (ch : Char) : Option Nat :=
  if ch = '-' then some 62
  else if ch = '_' then some 63
  else if ch = '+' ∨ ch = '/' then none
  else Base64.value ch

/-- The characters of bytes. -/
def encodeChars : List UInt8 → List Char
  | [] => []
  | [a] => [digit (a.toNat / 4), digit (a.toNat % 4 * 16)]
  | [a, b] =>
    [digit (a.toNat / 4), digit (a.toNat % 4 * 16 + b.toNat / 16), digit (b.toNat % 16 * 4)]
  | a :: b :: c :: rest =>
    digit (a.toNat / 4) :: digit (a.toNat % 4 * 16 + b.toNat / 16) ::
      digit (b.toNat % 16 * 4 + c.toNat / 64) :: digit (c.toNat % 64) :: encodeChars rest

/-- The bytes of characters. What the last group does not use is zero. -/
def decodeChars : List Char → Option (List UInt8)
  | [] => some []
  | p :: q :: r :: s :: rest =>
    match value p, value q, value r, value s with
    | some i, some j, some k, some l =>
      (decodeChars rest).map fun bytes =>
        UInt8.ofNat (i * 4 + j / 16) :: UInt8.ofNat (j % 16 * 16 + k / 4) ::
          UInt8.ofNat (k % 4 * 64 + l) :: bytes
    | _, _, _, _ => none
  | [p, q, r] =>
    match value p, value q, value r with
    | some i, some j, some k =>
      if k % 4 = 0 then
        some [UInt8.ofNat (i * 4 + j / 16), UInt8.ofNat (j % 16 * 16 + k / 4)]
      else none
    | _, _, _ => none
  | [p, q] =>
    match value p, value q with
    | some i, some j => if j % 16 = 0 then some [UInt8.ofNat (i * 4 + j / 16)] else none
    | _, _ => none
  | [_] => none

def encode (bytes : List UInt8) : String := String.ofList (encodeChars bytes)

def decode (text : String) : Option (List UInt8) := decodeChars text.toList

/-- The characters of the alphabet. -/
def isDigit (ch : Char) : Bool := ch.isAlphanum || ch = '-' || ch = '_'

/-- Every six bits have a character of their own. -/
theorem value_digit {n : Nat} (h : n < 64) :
    value (digit n) = some n ∧ isDigit (digit n) = true := by
  revert n
  decide

theorem decodeChars_encodeChars (bytes : List UInt8) :
    decodeChars (encodeChars bytes) = some bytes := by
  -- group by group: the parts of a byte, put together, are the byte
  fun_induction encodeChars bytes with
  | case1 => rfl
  | case2 a =>
    have ha := a.toNat_lt
    have h₁ := (value_digit (n := a.toNat / 4) (by omega)).1
    have h₂ := (value_digit (n := a.toNat % 4 * 16) (by omega)).1
    simp only [decodeChars, h₁, h₂]
    rw [if_pos (by omega), Base64.ofNat_of_eq (a := a) (by omega)]
  | case3 a b =>
    have ha := a.toNat_lt
    have hb := b.toNat_lt
    have h₁ := (value_digit (n := a.toNat / 4) (by omega)).1
    have h₂ := (value_digit (n := a.toNat % 4 * 16 + b.toNat / 16) (by omega)).1
    have h₃ := (value_digit (n := b.toNat % 16 * 4) (by omega)).1
    simp only [decodeChars, h₁, h₂, h₃]
    rw [if_pos (by omega), Base64.ofNat_of_eq (a := a) (by omega),
      Base64.ofNat_of_eq (a := b) (by omega)]
  | case4 a b c rest ih =>
    have ha := a.toNat_lt
    have hb := b.toNat_lt
    have hc := c.toNat_lt
    have h₁ := (value_digit (n := a.toNat / 4) (by omega)).1
    have h₂ := (value_digit (n := a.toNat % 4 * 16 + b.toNat / 16) (by omega)).1
    have h₃ := (value_digit (n := b.toNat % 16 * 4 + c.toNat / 64) (by omega)).1
    have h₄ := (value_digit (n := c.toNat % 64) (by omega)).1
    simp only [decodeChars, h₁, h₂, h₃, h₄, ih, Option.map_some]
    rw [Base64.ofNat_of_eq (a := a) (by omega), Base64.ofNat_of_eq (a := b) (by omega),
      Base64.ofNat_of_eq (a := c) (by omega)]

/-- What was encoded can be decoded. -/
theorem decode_encode (bytes : List UInt8) : decode (encode bytes) = some bytes := by
  rw [decode, encode, String.toList_ofList]
  exact decodeChars_encodeChars bytes

theorem encodeChars_inj {bytes bytes' : List UInt8} (h : encodeChars bytes = encodeChars bytes') :
    bytes = bytes' := by
  have hdecode := congrArg decodeChars h
  rw [decodeChars_encodeChars, decodeChars_encodeChars] at hdecode
  exact Option.some.inj hdecode

/-- Different bytes have different texts. -/
theorem encode_inj {bytes bytes' : List UInt8} (h : encode bytes = encode bytes') :
    bytes = bytes' :=
  encodeChars_inj (String.ofList_injective h)

/-- Four characters for three bytes, and one more than the bytes in the last group. -/
theorem length_encodeChars (bytes : List UInt8) :
    (encodeChars bytes).length = (4 * bytes.length + 2) / 3 := by
  fun_induction encodeChars bytes with
  | case1 => rfl
  | case2 a => simp
  | case3 a b => simp
  | case4 a b c rest ih =>
    simp only [List.length_cons, ih]
    omega

/-- The first group is that of the first three bytes. -/
theorem take_encodeChars {bytes : List UInt8} (h : 3 ≤ bytes.length) :
    (encodeChars bytes).take 4 = encodeChars (bytes.take 3) := by
  obtain ⟨a, b, c, rest, rfl⟩ : ∃ a b c rest, bytes = a :: b :: c :: rest := by
    match bytes, h with
    | a :: b :: c :: rest, _ => exact ⟨a, b, c, rest, rfl⟩
  rfl

/-- An encoding has only characters of the alphabet. -/
theorem isDigit_of_mem {bytes : List UInt8} {ch : Char} (h : ch ∈ encodeChars bytes) :
    isDigit ch = true := by
  fun_induction encodeChars bytes with
  | case1 => cases h
  | case2 a =>
    have ha := a.toNat_lt
    simp only [List.mem_cons, List.not_mem_nil, or_false] at h
    rcases h with rfl | rfl
    · exact (value_digit (by omega)).2
    · exact (value_digit (by omega)).2
  | case3 a b =>
    have ha := a.toNat_lt
    have hb := b.toNat_lt
    simp only [List.mem_cons, List.not_mem_nil, or_false] at h
    rcases h with rfl | rfl | rfl
    · exact (value_digit (by omega)).2
    · exact (value_digit (by omega)).2
    · exact (value_digit (by omega)).2
  | case4 a b c rest ih =>
    have ha := a.toNat_lt
    have hb := b.toNat_lt
    have hc := c.toNat_lt
    simp only [List.mem_cons] at h
    rcases h with rfl | rfl | rfl | rfl | h
    · exact (value_digit (by omega)).2
    · exact (value_digit (by omega)).2
    · exact (value_digit (by omega)).2
    · exact (value_digit (by omega)).2
    · exact ih h

end Base64Url
