import Mathlib

/-!
# Base64

The standard encoding of bytes as text: three bytes give four characters of an alphabet
of 64, and the last group is filled up with `=`.

* `decode_encode`: what was encoded can be decoded;
* `utf8ByteSize_encode`: a text is as long as its groups are many, times four.
-/

namespace Base64

/-- The character of six bits. -/
def digit (n : Nat) : Char :=
  if n < 26 then Char.ofNat (65 + n)
  else if n < 52 then Char.ofNat (71 + n)
  else if n < 62 then Char.ofNat (n - 4)
  else if n = 62 then '+' else '/'

/-- The six bits of a character. -/
def value (ch : Char) : Option Nat :=
  let n := ch.toNat
  if 65 ≤ n ∧ n ≤ 90 then some (n - 65)
  else if 97 ≤ n ∧ n ≤ 122 then some (n - 71)
  else if 48 ≤ n ∧ n ≤ 57 then some (n + 4)
  else if ch = '+' then some 62
  else if ch = '/' then some 63
  else none

/-- The characters of bytes. -/
def encodeChars : List UInt8 → List Char
  | [] => []
  | [a] => [digit (a.toNat / 4), digit (a.toNat % 4 * 16), '=', '=']
  | [a, b] =>
    [digit (a.toNat / 4), digit (a.toNat % 4 * 16 + b.toNat / 16), digit (b.toNat % 16 * 4), '=']
  | a :: b :: c :: rest =>
    digit (a.toNat / 4) :: digit (a.toNat % 4 * 16 + b.toNat / 16) ::
      digit (b.toNat % 16 * 4 + c.toNat / 64) :: digit (c.toNat % 64) :: encodeChars rest

/-- The bytes of characters. Only the last group may be filled up. -/
def decodeChars : List Char → Option (List UInt8)
  | [] => some []
  | p :: q :: r :: s :: rest =>
    match value p, value q, value r, value s with
    | some i, some j, some k, some l =>
      (decodeChars rest).map fun bytes =>
        UInt8.ofNat (i * 4 + j / 16) :: UInt8.ofNat (j % 16 * 16 + k / 4) ::
          UInt8.ofNat (k % 4 * 64 + l) :: bytes
    | some i, some j, some k, none =>
      if s = '=' ∧ rest = [] then
        some [UInt8.ofNat (i * 4 + j / 16), UInt8.ofNat (j % 16 * 16 + k / 4)]
      else none
    | some i, some j, none, none =>
      if r = '=' ∧ s = '=' ∧ rest = [] then some [UInt8.ofNat (i * 4 + j / 16)] else none
    | _, _, _, _ => none
  | _ => none

def encode (bytes : List UInt8) : String := String.ofList (encodeChars bytes)

def decode (text : String) : Option (List UInt8) := decodeChars text.toList

/-- Every six bits have a character of their own, of one byte. -/
theorem value_digit {n : Nat} (h : n < 64) :
    value (digit n) = some n ∧ (digit n).utf8Size = 1 := by
  revert n
  decide

theorem ofNat_of_eq {a : UInt8} {n : Nat} (h : n = a.toNat) : UInt8.ofNat n = a := by
  rw [h, UInt8.ofNat_toNat]

theorem decodeChars_encodeChars (bytes : List UInt8) :
    decodeChars (encodeChars bytes) = some bytes := by
  -- Group by group: the parts of a byte, put together, are the byte.
  fun_induction encodeChars bytes with
  | case1 => rfl
  | case2 a =>
    have ha := a.toNat_lt
    have h₁ := (value_digit (n := a.toNat / 4) (by omega)).1
    have h₂ := (value_digit (n := a.toNat % 4 * 16) (by omega)).1
    have hpad : value '=' = none := by decide
    simp only [decodeChars, h₁, h₂, hpad, and_self, if_true]
    rw [ofNat_of_eq (a := a) (by omega)]
  | case3 a b =>
    have ha := a.toNat_lt
    have hb := b.toNat_lt
    have h₁ := (value_digit (n := a.toNat / 4) (by omega)).1
    have h₂ := (value_digit (n := a.toNat % 4 * 16 + b.toNat / 16) (by omega)).1
    have h₃ := (value_digit (n := b.toNat % 16 * 4) (by omega)).1
    have hpad : value '=' = none := by decide
    simp only [decodeChars, h₁, h₂, h₃, hpad, and_self, if_true]
    rw [ofNat_of_eq (a := a) (by omega), ofNat_of_eq (a := b) (by omega)]
  | case4 a b c rest ih =>
    have ha := a.toNat_lt
    have hb := b.toNat_lt
    have hc := c.toNat_lt
    have h₁ := (value_digit (n := a.toNat / 4) (by omega)).1
    have h₂ := (value_digit (n := a.toNat % 4 * 16 + b.toNat / 16) (by omega)).1
    have h₃ := (value_digit (n := b.toNat % 16 * 4 + c.toNat / 64) (by omega)).1
    have h₄ := (value_digit (n := c.toNat % 64) (by omega)).1
    simp only [decodeChars, h₁, h₂, h₃, h₄, ih, Option.map_some]
    rw [ofNat_of_eq (a := a) (by omega), ofNat_of_eq (a := b) (by omega),
      ofNat_of_eq (a := c) (by omega)]

/-- What was encoded can be decoded. -/
theorem decode_encode (bytes : List UInt8) : decode (encode bytes) = some bytes := by
  rw [decode, encode, String.toList_ofList]
  exact decodeChars_encodeChars bytes

/-- The size of a text that is given by its characters. -/
theorem utf8ByteSize_ofList (chars : List Char) :
    (String.ofList chars).utf8ByteSize = (chars.map Char.utf8Size).sum := by
  induction chars with
  | nil => rfl
  | cons ch chars ih => simp [String.ofList_cons, ih]

/-- Four characters for three bytes, or what is left of them. -/
theorem utf8ByteSize_encode (bytes : List UInt8) :
    (encode bytes).utf8ByteSize = 4 * ((bytes.length + 2) / 3) := by
  have hpad : Char.utf8Size '=' = 1 := rfl
  rw [encode, utf8ByteSize_ofList]
  fun_induction encodeChars bytes with
  | case1 => rfl
  | case2 a =>
    have ha := a.toNat_lt
    simp [(value_digit (n := a.toNat / 4) (by omega)).2,
      (value_digit (n := a.toNat % 4 * 16) (by omega)).2, hpad]
  | case3 a b =>
    have ha := a.toNat_lt
    have hb := b.toNat_lt
    simp [(value_digit (n := a.toNat / 4) (by omega)).2,
      (value_digit (n := a.toNat % 4 * 16 + b.toNat / 16) (by omega)).2,
      (value_digit (n := b.toNat % 16 * 4) (by omega)).2, hpad]
  | case4 a b c rest ih =>
    have ha := a.toNat_lt
    have hb := b.toNat_lt
    have hc := c.toNat_lt
    simp only [List.map_cons, List.sum_cons, ih, List.length_cons,
      (value_digit (n := a.toNat / 4) (by omega)).2,
      (value_digit (n := a.toNat % 4 * 16 + b.toNat / 16) (by omega)).2,
      (value_digit (n := b.toNat % 16 * 4 + c.toNat / 64) (by omega)).2,
      (value_digit (n := c.toNat % 64) (by omega)).2]
    omega

end Base64
