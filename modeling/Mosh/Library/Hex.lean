import Mosh.Library.Base64

/-!
# Hex digits

Two digits for every byte, in lower or upper case.

* `decode_encode`: what was encoded can be decoded;
* `encode_of_decode`: what was decoded from a text in lower case has this text;
* `toLower_encode`, `toUpper_encodeUpper`: the case of the encodings;
* `exists_encode_toLower`: a text of digits is an encoding, once it is in lower case;
* `utf8ByteSize_encode`, `all_encode`: what an encoding is made of.
-/

namespace Hex

/-- A digit, in lower case. -/
def digit (n : Nat) : Char := Char.ofNat (if n < 10 then 48 + n else 87 + n)

/-- The value of a digit, in either case. -/
def value (ch : Char) : Option Nat :=
  let n := ch.toNat
  if 48 ≤ n ∧ n ≤ 57 then some (n - 48)
  else if 97 ≤ n ∧ n ≤ 102 then some (n - 87)
  else if 65 ≤ n ∧ n ≤ 70 then some (n - 55)
  else none

/-- The character is a digit. -/
def isHexDigit (ch : Char) : Bool := (value ch).isSome

/-- The digits of a byte. -/
def encodeChars (bytes : List UInt8) : List Char :=
  bytes.flatMap fun b => [digit (b.toNat / 16), digit (b.toNat % 16)]

/-- The bytes of pairs of digits. -/
def decodeChars : List Char → Option (List UInt8)
  | [] => some []
  | [_] => none
  | hi :: lo :: rest =>
    match value hi, value lo with
    | some h, some l => (decodeChars rest).map fun bytes => UInt8.ofNat (16 * h + l) :: bytes
    | _, _ => none

/-- The digits of bytes, in lower case. -/
def encode (bytes : List UInt8) : String := String.ofList (encodeChars bytes)

/-- The digits of bytes, in upper case. -/
def encodeUpper (bytes : List UInt8) : String :=
  String.ofList ((encodeChars bytes).map Char.toUpper)

def decode (text : String) : Option (List UInt8) := decodeChars text.toList

/-- What is known of the sixteen digits. -/
theorem digit_spec {n : Nat} (h : n < 16) : value (digit n) = some n ∧
    (digit n).utf8Size = 1 ∧ (digit n).isAlphanum = true ∧ (digit n).isUpper = false ∧
      (digit n).toLower = digit n ∧ (digit n).toUpper.utf8Size = 1 ∧
        (digit n).toUpper.isAlphanum = true ∧ (digit n).toUpper.toUpper = (digit n).toUpper ∧
          isHexDigit (digit n).toUpper = true := by
  revert n
  decide

/-- A digit in lower case is that of its value. -/
theorem digit_of_value {ch : Char} {n : Nat} (h : value ch = some n) (hcase : ch.isUpper = false) :
    n < 16 ∧ digit n = ch := by
  have hnot : ¬ (65 ≤ ch.toNat ∧ ch.toNat ≤ 90) := by
    intro ⟨hlow, hhigh⟩
    rw [Char.isUpper] at hcase
    exact of_decide_eq_false hcase ⟨hlow, hhigh⟩
  have hbound : n < 16 ∧ (if n < 10 then 48 + n else 87 + n) = ch.toNat := by
    simp only [value] at h
    split_ifs at h <;> simp only [Option.some.injEq] at h <;> split_ifs <;> omega
  refine ⟨hbound.1, ?_⟩
  rw [digit, hbound.2, Char.ofNat_toNat]

theorem decodeChars_encodeChars (bytes : List UInt8) :
    decodeChars (encodeChars bytes) = some bytes := by
  induction bytes with
  | nil => rfl
  | cons b bytes ih =>
    have hb := b.toNat_lt
    have hhi := (digit_spec (n := b.toNat / 16) (by omega)).1
    have hlo := (digit_spec (n := b.toNat % 16) (by omega)).1
    rw [encodeChars, List.flatMap_cons, ← encodeChars]
    simp only [List.cons_append, List.nil_append, decodeChars, hhi, hlo, ih, Option.map_some]
    rw [Nat.div_add_mod, UInt8.ofNat_toNat]

/-- What was encoded can be decoded. -/
theorem decode_encode (bytes : List UInt8) : decode (encode bytes) = some bytes := by
  rw [decode, encode, String.toList_ofList]
  exact decodeChars_encodeChars bytes

theorem encode_inj {bytes bytes' : List UInt8} (h : encode bytes = encode bytes') :
    bytes = bytes' := by
  have hdecode := congrArg decode h
  rw [decode_encode, decode_encode] at hdecode
  exact Option.some.inj hdecode

theorem value_toUpper {n : Nat} (h : n < 16) : value (digit n).toUpper = some n := by
  revert n
  decide

theorem decode_encodeUpper (bytes : List UInt8) : decode (encodeUpper bytes) = some bytes := by
  rw [decode, encodeUpper, String.toList_ofList]
  induction bytes with
  | nil => rfl
  | cons b bytes ih =>
    have hb := b.toNat_lt
    have hhi := value_toUpper (n := b.toNat / 16) (by omega)
    have hlo := value_toUpper (n := b.toNat % 16) (by omega)
    rw [encodeChars, List.flatMap_cons, ← encodeChars]
    simp only [List.cons_append, List.nil_append, List.map_cons, decodeChars, hhi, hlo, ih,
      Option.map_some]
    rw [Nat.div_add_mod, UInt8.ofNat_toNat]

theorem encodeUpper_inj {bytes bytes' : List UInt8} (h : encodeUpper bytes = encodeUpper bytes') :
    bytes = bytes' := by
  have hdecode := congrArg decode h
  rw [decode_encodeUpper, decode_encodeUpper] at hdecode
  exact Option.some.inj hdecode

theorem encodeChars_of_decodeChars {chars : List Char} {bytes : List UInt8}
    (h : decodeChars chars = some bytes) (hcase : ∀ ch ∈ chars, ch.isUpper = false) :
    encodeChars bytes = chars := by
  fun_induction decodeChars chars generalizing bytes with
  | case1 =>
    obtain rfl := Option.some.inj h
    rfl
  | case2 => cases h
  | case3 hi lo rest n m hlo hhi ih =>
    rw [Option.map_eq_some_iff] at h
    obtain ⟨bytes, hrest, rfl⟩ := h
    obtain ⟨hn, hdigit⟩ := digit_of_value hhi (hcase hi List.mem_cons_self)
    obtain ⟨hm, hdigit'⟩ := digit_of_value hlo (hcase lo (.tail _ List.mem_cons_self))
    have hnat : (UInt8.ofNat (16 * n + m)).toNat = 16 * n + m := by
      rw [UInt8.toNat_ofNat']
      omega
    rw [encodeChars, List.flatMap_cons, ← encodeChars,
      ih hrest fun ch hch => hcase ch (.tail _ (.tail _ hch)), hnat,
      show (16 * n + m) / 16 = n by omega, show (16 * n + m) % 16 = m by omega, hdigit, hdigit']
    rfl
  | case4 => cases h

/-- What was decoded from a text in lower case has this text. -/
theorem encode_of_decode {text : String} {bytes : List UInt8} (h : decode text = some bytes)
    (hcase : ∀ ch ∈ text.toList, ch.isUpper = false) : encode bytes = text := by
  rw [encode, encodeChars_of_decodeChars h hcase, String.ofList_toList]

/-- Digits can be decoded if there is an even number of them. -/
theorem exists_decodeChars {chars : List Char} {n : Nat} (hlength : chars.length = 2 * n)
    (hdigits : ∀ ch ∈ chars, isHexDigit ch = true) :
    ∃ bytes : List UInt8, decodeChars chars = some bytes ∧ bytes.length = n := by
  induction n generalizing chars with
  | zero =>
    rw [List.eq_nil_of_length_eq_zero hlength]
    exact ⟨[], rfl, rfl⟩
  | succ n ih =>
    rcases chars with - | ⟨hi, - | ⟨lo, rest⟩⟩
    · cases hlength
    · rw [List.length_singleton] at hlength
      omega
    · have hlen : rest.length = 2 * n := by
        rw [List.length_cons, List.length_cons] at hlength
        omega
      obtain ⟨bytes, hrest, hbytes⟩ := ih hlen fun ch hch => hdigits ch (.tail _ (.tail _ hch))
      obtain ⟨h, hhi⟩ := Option.isSome_iff_exists.1 (hdigits hi List.mem_cons_self)
      obtain ⟨l, hlo⟩ := Option.isSome_iff_exists.1 (hdigits lo (.tail _ List.mem_cons_self))
      refine ⟨UInt8.ofNat (16 * h + l) :: bytes, ?_, by rw [List.length_cons, hbytes]⟩
      simp only [decodeChars, hhi, hlo, hrest, Option.map_some]

theorem length_encodeChars (bytes : List UInt8) :
    (encodeChars bytes).length = 2 * bytes.length := by
  induction bytes with
  | nil => rfl
  | cons b bytes ih =>
    rw [encodeChars, List.flatMap_cons, ← encodeChars, List.length_append, ih, List.length_cons]
    simp only [List.length_cons, List.length_nil]
    omega

/-- An encoding is made of digits. -/
theorem exists_digit_of_mem {bytes : List UInt8} {ch : Char} (h : ch ∈ encodeChars bytes) :
    ∃ n < 16, ch = digit n := by
  rw [encodeChars, List.mem_flatMap] at h
  obtain ⟨b, -, hch⟩ := h
  have hb := b.toNat_lt
  simp only [List.mem_cons, List.not_mem_nil, or_false] at hch
  rcases hch with rfl | rfl
  · exact ⟨_, by omega, rfl⟩
  · exact ⟨_, by omega, rfl⟩

theorem exists_digit_of_mem_upper {bytes : List UInt8} {ch : Char}
    (h : ch ∈ (encodeUpper bytes).toList) : ∃ n < 16, ch = (digit n).toUpper := by
  rw [encodeUpper, String.toList_ofList, List.mem_map] at h
  obtain ⟨ch, hch, rfl⟩ := h
  obtain ⟨n, hn, rfl⟩ := exists_digit_of_mem hch
  exact ⟨n, hn, rfl⟩

theorem toList_encode (bytes : List UInt8) : (encode bytes).toList = encodeChars bytes :=
  String.toList_ofList

/-- Characters of one byte are counted by the size of their text. -/
theorem utf8ByteSize_of_forall {chars : List Char} (h : ∀ ch ∈ chars, ch.utf8Size = 1) :
    (String.ofList chars).utf8ByteSize = chars.length := by
  rw [Base64.utf8ByteSize_ofList, List.map_congr_left h, List.map_const', List.sum_replicate,
    smul_eq_mul, Nat.mul_one]

theorem utf8ByteSize_encode (bytes : List UInt8) :
    (encode bytes).utf8ByteSize = 2 * bytes.length := by
  rw [encode, utf8ByteSize_of_forall, length_encodeChars]
  intro ch hch
  obtain ⟨n, hn, rfl⟩ := exists_digit_of_mem hch
  exact (digit_spec hn).2.1

theorem utf8ByteSize_encodeUpper (bytes : List UInt8) :
    (encodeUpper bytes).utf8ByteSize = 2 * bytes.length := by
  rw [encodeUpper, utf8ByteSize_of_forall, List.length_map, length_encodeChars]
  intro ch hch
  rw [← String.toList_ofList (l := List.map _ _), ← encodeUpper] at hch
  obtain ⟨n, hn, rfl⟩ := exists_digit_of_mem_upper hch
  exact (digit_spec hn).2.2.2.2.2.1

theorem all_encode (bytes : List UInt8) : (encode bytes).toList.all isHexDigit = true := by
  rw [List.all_eq_true]
  intro ch hch
  rw [toList_encode] at hch
  obtain ⟨n, hn, rfl⟩ := exists_digit_of_mem hch
  rw [isHexDigit, (digit_spec hn).1]
  rfl

theorem all_encodeUpper (bytes : List UInt8) :
    (encodeUpper bytes).toList.all isHexDigit = true := by
  rw [List.all_eq_true]
  intro ch hch
  obtain ⟨n, hn, rfl⟩ := exists_digit_of_mem_upper hch
  exact (digit_spec hn).2.2.2.2.2.2.2.2

theorem isUpper_of_mem_encode {bytes : List UInt8} {ch : Char} (h : ch ∈ (encode bytes).toList) :
    ch.isUpper = false := by
  rw [toList_encode] at h
  obtain ⟨n, hn, rfl⟩ := exists_digit_of_mem h
  exact (digit_spec hn).2.2.2.1

theorem toLower_encode (bytes : List UInt8) : (encode bytes).toLower = encode bytes := by
  refine String.toList_inj.1 ?_
  rw [String.toLower, String.toList_map, toList_encode]
  refine (List.map_congr_left fun ch hch => ?_).trans (List.map_id _)
  obtain ⟨n, hn, rfl⟩ := exists_digit_of_mem hch
  exact (digit_spec hn).2.2.2.2.1

theorem toUpper_encodeUpper (bytes : List UInt8) :
    (encodeUpper bytes).toUpper = encodeUpper bytes := by
  refine String.toList_inj.1 ?_
  rw [String.toUpper, String.toList_map]
  refine (List.map_congr_left fun ch hch => ?_).trans (List.map_id _)
  obtain ⟨n, hn, rfl⟩ := exists_digit_of_mem_upper hch
  exact (digit_spec hn).2.2.2.2.2.2.2.1

/-- A digit in either case is one in lower case. -/
theorem lower_of_isHexDigit {ch : Char} (h : isHexDigit ch = true) :
    isHexDigit ch.toLower = true ∧ ch.toLower.isUpper = false ∧ ch.utf8Size = 1 := by
  obtain ⟨n, hn⟩ := Option.isSome_iff_exists.1 h
  have hrange : ch.toNat < 128 := by
    simp only [value] at hn
    split_ifs at hn <;> omega
  have hall : ∀ m : Fin 128, isHexDigit (Char.ofNat m) = true →
      isHexDigit (Char.ofNat m).toLower = true ∧ (Char.ofNat m).toLower.isUpper = false ∧
        (Char.ofNat m).utf8Size = 1 := by decide
  have hch := hall ⟨ch.toNat, hrange⟩
  rw [Char.ofNat_toNat] at hch
  exact hch h

/-- The text of as many digits as there are bytes is the encoding of bytes, once it is in lower
    case. -/
theorem exists_encode_toLower {text : String} {n : Nat} (hsize : text.utf8ByteSize = 2 * n)
    (hdigits : text.toList.all isHexDigit = true) :
    ∃ bytes : List UInt8, bytes.length = n ∧ encode bytes = text.toLower := by
  rw [List.all_eq_true] at hdigits
  have hbyte : ∀ ch ∈ text.toList, ch.utf8Size = 1 := fun ch hch =>
    (lower_of_isHexDigit (hdigits ch hch)).2.2
  have hlength : text.toList.length = 2 * n := by
    rw [← hsize, ← utf8ByteSize_of_forall hbyte, String.ofList_toList]
  have hlower : text.toLower.toList = text.toList.map Char.toLower := by
    rw [String.toLower, String.toList_map]
  obtain ⟨bytes, hdecode, hbytes⟩ := exists_decodeChars
    (show text.toLower.toList.length = 2 * n by rw [hlower, List.length_map, hlength]) (by
      intro ch hch
      rw [hlower, List.mem_map] at hch
      obtain ⟨ch, hmem, rfl⟩ := hch
      exact (lower_of_isHexDigit (hdigits ch hmem)).1)
  refine ⟨bytes, hbytes, encode_of_decode hdecode fun ch hch => ?_⟩
  rw [hlower, List.mem_map] at hch
  obtain ⟨ch, hmem, rfl⟩ := hch
  exact (lower_of_isHexDigit (hdigits ch hmem)).2.1

end Hex
