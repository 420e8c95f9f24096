import Mathlib

/-!
# Formats

A format writes the values of a type as text, so that they can be read back at the start
of any longer text: what follows a value does not matter, and values can stand one
after the other. Formats of numbers and texts are put together to formats of records.

* `Format.parse_print`: what is printed can be parsed;
* `Format.decode_encode`, `Format.encode_inj`: the same for the values as bytes.
-/

/-- A way to write values as text. What was written is read back from the start of a text, with
    the rest of the text. -/
structure Format (α : Type) where
  write : α → List Char
  read : List Char → Option (α × List Char)
  read_write : ∀ a rest, read (write a ++ rest) = some (a, rest)

namespace Format

variable {α β : Type}

/-- A value as a text. -/
def print (f : Format α) (a : α) : String := String.ofList (f.write a)

/-- The value of a text. -/
def parse (f : Format α) (text : String) : Option α :=
  match f.read text.toList with
  | some (a, []) => some a
  | _ => none

/-- What is printed can be parsed. -/
theorem parse_print (f : Format α) (a : α) : f.parse (f.print a) = some a := by
  have hread := f.read_write a []
  rw [List.append_nil] at hread
  rw [parse, print, String.toList_ofList, hread]

/-- Reads as many marks as there are, up to the end mark. -/
def readNat : List Char → Option (Nat × List Char)
  | '1' :: rest => (readNat rest).map fun row => (row.1 + 1, row.2)
  | '0' :: rest => some (0, rest)
  | _ => none

/-- A number, as so many marks and an end mark. -/
def nat : Format Nat where
  write n := List.replicate n '1' ++ ['0']
  read := readNat
  read_write n rest := by
    induction n with
    | zero => rfl
    | succ n ih =>
      rw [List.replicate_succ, List.cons_append, List.cons_append, readNat, ih]
      rfl

/-- Reads characters with a mark before each, up to the end mark. -/
def readChars : List Char → Option (List Char × List Char)
  | '1' :: c :: rest => (readChars rest).map fun row => (c :: row.1, row.2)
  | '0' :: rest => some ([], rest)
  | _ => none

/-- A text, with a mark before each character and an end mark. -/
def text : Format String where
  write s := s.toList.flatMap (fun c => ['1', c]) ++ ['0']
  read chars := (readChars chars).map fun row => (String.ofList row.1, row.2)
  read_write s rest := by
    have hread : ∀ chars : List Char,
        readChars (chars.flatMap (fun c => ['1', c]) ++ ['0'] ++ rest) = some (chars, rest) := by
      intro chars
      induction chars with
      | nil => rfl
      | cons c chars ih =>
        rw [List.flatMap_cons, List.append_assoc, List.append_assoc] at *
        rw [List.cons_append, List.cons_append, List.nil_append, readChars, ih]
        rfl
    rw [hread, Option.map_some, String.ofList_toList]

/-- A value that may be missing. -/
def option (f : Format α) : Format (Option α) where
  write
    | none => ['0']
    | some a => '1' :: f.write a
  read
    | '0' :: rest => some (none, rest)
    | '1' :: rest => (f.read rest).map fun row => (some row.1, row.2)
    | _ => none
  read_write a rest := by
    cases a with
    | none => rfl
    | some a =>
      change (f.read (f.write a ++ rest)).map _ = _
      rw [f.read_write]
      rfl

/-- Two values, one after the other. -/
def pair (f : Format α) (g : Format β) : Format (α × β) where
  write row := f.write row.1 ++ g.write row.2
  read chars := (f.read chars).bind fun row => (g.read row.2).map fun row' => ((row.1, row'.1), row'.2)
  read_write row rest := by
    rw [List.append_assoc, f.read_write, Option.bind_some, g.read_write, Option.map_some]

/-- Values that are written as other ones, from which they can be told. -/
def through (f : Format α) (onto : β → α) (back : α → Option β)
    (h : ∀ b, back (onto b) = some b) : Format β where
  write b := f.write (onto b)
  read chars := (f.read chars).bind fun row => (back row.1).map fun b => (b, row.2)
  read_write b rest := by
    rw [f.read_write, Option.bind_some, h, Option.map_some]

/-- Reads as many values as are marked, up to the end mark, but no more than a number of them. -/
def readList (f : Format α) : Nat → List Char → Option (List α × List Char)
  | n + 1, '1' :: rest =>
    (f.read rest).bind fun row => (readList f n row.2).map fun row' => (row.1 :: row'.1, row'.2)
  | _ + 1, '0' :: rest => some ([], rest)
  | _, _ => none

/-- Values with a mark before each, and an end mark. -/
def list (f : Format α) : Format (List α) where
  write xs := xs.flatMap (fun a => '1' :: f.write a) ++ ['0']
  read chars := readList f chars.length chars
  read_write xs rest := by
    have hread : ∀ (xs : List α) (n : Nat), xs.length < n →
        readList f n (xs.flatMap (fun a => '1' :: f.write a) ++ ['0'] ++ rest) =
          some (xs, rest) := by
      intro xs
      induction xs with
      | nil =>
        intro n hn
        obtain ⟨m, rfl⟩ := Nat.exists_eq_succ_of_ne_zero (Nat.ne_of_gt hn)
        rfl
      | cons a xs ih =>
        intro n hn
        obtain ⟨m, rfl⟩ := Nat.exists_eq_succ_of_ne_zero (Nat.ne_of_gt (Nat.zero_lt_of_lt hn))
        have hm : xs.length < m := by
          rw [List.length_cons] at hn
          omega
        have hsplit : (a :: xs).flatMap (fun a => '1' :: f.write a) ++ ['0'] ++ rest =
            '1' :: (f.write a ++ (xs.flatMap (fun a => '1' :: f.write a) ++ ['0'] ++ rest)) := by
          simp
        rw [hsplit, readList, f.read_write, Option.bind_some, ih m hm, Option.map_some]
    have hlength : xs.length ≤ (xs.flatMap fun a => '1' :: f.write a).length := by
      induction xs with
      | nil => exact Nat.zero_le _
      | cons a xs ih =>
        rw [List.flatMap_cons, List.length_append, List.length_cons, List.length_cons]
        omega
    refine hread xs _ ?_
    rw [List.length_append, List.length_append, List.length_singleton]
    omega

/-! ## Bytes -/

/-- A text as bytes, three for a character. -/
def toBytes (chars : List Char) : List UInt8 :=
  chars.flatMap fun ch =>
    [UInt8.ofNat (ch.toNat / 65536), UInt8.ofNat (ch.toNat / 256), UInt8.ofNat ch.toNat]

def ofBytes : List UInt8 → List Char
  | a :: b :: c :: rest => Char.ofNat (a.toNat * 65536 + b.toNat * 256 + c.toNat) :: ofBytes rest
  | _ => []

theorem ofBytes_toBytes (chars : List Char) : ofBytes (toBytes chars) = chars := by
  induction chars with
  | nil => rfl
  | cons ch chars ih =>
    have hlt : ch.toNat < 1114112 := by
      rcases ch.valid with h | ⟨-, h⟩
      · exact Nat.lt_trans h (by decide)
      · exact h
    have hnat : (ch.toNat / 65536) % 256 * 65536 + (ch.toNat / 256) % 256 * 256 + ch.toNat % 256 =
        ch.toNat := by
      omega
    change ofBytes (_ :: _ :: _ :: toBytes chars) = _
    rw [ofBytes, ih, UInt8.toNat_ofNat', UInt8.toNat_ofNat', UInt8.toNat_ofNat', hnat,
      Char.ofNat_toNat]

/-- A value as bytes. -/
def encode (f : Format α) (a : α) : List UInt8 := toBytes (f.write a)

/-- The value of bytes. -/
def decode (f : Format α) (bytes : List UInt8) : Option α :=
  match f.read (ofBytes bytes) with
  | some (a, []) => some a
  | _ => none

theorem decode_encode (f : Format α) (a : α) : f.decode (f.encode a) = some a := by
  have hread := f.read_write a []
  rw [List.append_nil] at hread
  rw [decode, encode, ofBytes_toBytes, hread]

theorem encode_inj (f : Format α) {a b : α} (h : f.encode a = f.encode b) : a = b := by
  have hdecode := f.decode_encode a
  rw [h, f.decode_encode] at hdecode
  exact (Option.some.inj hdecode).symm

/-- Bytes, as the characters with these numbers. -/
def bytes : Format (List UInt8) :=
  text.through (fun row => String.ofList (row.map fun b => Char.ofNat b.toNat))
    (fun s => some (s.toList.map fun ch => UInt8.ofNat ch.toNat)) fun row => by
    have hbyte : ∀ b : UInt8, UInt8.ofNat (Char.ofNat b.toNat).toNat = b := by
      intro b
      have hlt := b.toNat_lt
      rw [Char.toNat_ofNat, if_pos (.inl (by omega)), UInt8.ofNat_toNat]
    rw [String.toList_ofList, List.map_map]
    exact congrArg some ((List.map_congr_left fun b _ => hbyte b).trans (List.map_id row))

/-! ## Short texts -/

/-- Reads how often the mark of 250 stands, up to the rest of the number. -/
def readNumber : List Char → Option (Nat × List Char)
  | [] => none
  | ch :: rest =>
    if ch.toNat = 250 then (readNumber rest).map fun row => (row.1 + 250, row.2)
    else some (ch.toNat, rest)

/-- A number, in pieces of 250 and with the rest as one character. -/
def number : Format Nat where
  write n := List.replicate (n / 250) (Char.ofNat 250) ++ [Char.ofNat (n % 250)]
  read := readNumber
  read_write n rest := by
    have hread : ∀ q r : Nat, r < 250 →
        readNumber (List.replicate q (Char.ofNat 250) ++ [Char.ofNat r] ++ rest) =
          some (250 * q + r, rest) := by
      intro q r hr
      have hchar : (Char.ofNat r).toNat = r := by
        rw [Char.toNat_ofNat, if_pos (.inl (by omega))]
      induction q with
      | zero =>
        rw [List.replicate_zero, List.nil_append, List.singleton_append, readNumber, hchar,
          if_neg (by omega), Nat.mul_zero, Nat.zero_add]
      | succ q ih =>
        rw [List.replicate_succ, List.cons_append, List.cons_append, readNumber, if_pos (by decide),
          ih, Option.map_some]
        congr 2
        omega
    rw [hread _ _ (Nat.mod_lt _ (by decide)), Nat.div_add_mod]

/-- Reads characters up to the end mark; the one after an escape mark is read as it is. -/
def readMarked : Bool → List Char → Option (List Char × List Char)
  | _, [] => none
  | true, ch :: rest => (readMarked false rest).map fun row => (ch :: row.1, row.2)
  | false, ch :: rest =>
    if ch.toNat = 254 then some ([], rest)
    else if ch.toNat = 253 then readMarked true rest
    else (readMarked false rest).map fun row => (ch :: row.1, row.2)

/-- Characters with an end mark; some of them have an escape mark before them. -/
def marked : Format (List Char) where
  write chars := chars.flatMap (fun ch =>
    if ch.toNat < 253 then [ch] else [Char.ofNat 253, ch]) ++ [Char.ofNat 254]
  read := readMarked false
  read_write chars rest := by
    induction chars with
    | nil => rw [List.flatMap_nil, List.nil_append, List.singleton_append, readMarked,
        if_pos (by decide)]
    | cons ch chars ih =>
      rw [List.flatMap_cons, List.append_assoc, List.append_assoc]
      rw [List.append_assoc] at ih
      split
      · next hlt =>
        rw [List.singleton_append, readMarked, if_neg (by omega), if_neg (by omega), ih]
        rfl
      · rw [List.cons_append, List.singleton_append, readMarked, if_neg (by decide),
          if_pos (by decide), readMarked, ih]
        rfl

/-- The bytes of a text, as the characters with these numbers. -/
def asciiOf (s : String) : List Char := s.toUTF8.data.toList.map fun b => Char.ofNat b.toNat

/-- The characters of a text. Those of a text of ASCII are its bytes. -/
def charsOf (s : String) : List Char :=
  if String.ofList (asciiOf s) = s then asciiOf s else s.toList

theorem ofList_charsOf (s : String) : String.ofList (charsOf s) = s := by
  unfold charsOf
  split
  · assumption
  · exact String.ofList_toList

/-- A text with an end mark. -/
def word : Format String :=
  marked.through charsOf (fun chars => some (String.ofList chars)) fun s =>
    congrArg some (ofList_charsOf s)

/-- Bytes, as the characters with these numbers. -/
def octets : Format (List UInt8) :=
  marked.through (fun row => row.map fun b => Char.ofNat b.toNat)
    (fun chars => some (chars.map fun ch => UInt8.ofNat ch.toNat)) fun row => by
    have hbyte : ∀ b : UInt8, UInt8.ofNat (Char.ofNat b.toNat).toNat = b := by
      intro b
      have hlt := b.toNat_lt
      rw [Char.toNat_ofNat, if_pos (.inl (by omega)), UInt8.ofNat_toNat]
    rw [List.map_map]
    exact congrArg some ((List.map_congr_left fun b _ => hbyte b).trans (List.map_id row))

/-- A text as bytes, with the number of each character in pieces of 250. -/
def pack (chars : List Char) : List UInt8 :=
  chars.flatMap fun ch => List.replicate (ch.toNat / 250) 250 ++ [UInt8.ofNat (ch.toNat % 250)]

/-- The text of bytes, with what was read of the first character. -/
def unpack : Nat → List UInt8 → List Char
  | _, [] => []
  | n, b :: rest =>
    if b = 250 then unpack (n + 250) rest else Char.ofNat (n + b.toNat) :: unpack 0 rest

theorem unpack_pack (chars : List Char) : unpack 0 (pack chars) = chars := by
  have hchar : ∀ (q r n : Nat) (rest : List UInt8), r < 250 →
      unpack n (List.replicate q 250 ++ [UInt8.ofNat r] ++ rest) =
        Char.ofNat (n + 250 * q + r) :: unpack 0 rest := by
    intro q r n rest hr
    have hnat : (UInt8.ofNat r).toNat = r := by
      rw [UInt8.toNat_ofNat', Nat.mod_eq_of_lt (by omega)]
    induction q generalizing n with
    | zero =>
      have hne : UInt8.ofNat r ≠ 250 := by
        intro h
        rw [h] at hnat
        exact absurd hnat (Nat.ne_of_gt hr)
      rw [List.replicate_zero, List.nil_append, List.singleton_append, unpack, if_neg hne, hnat,
        Nat.mul_zero, Nat.add_zero]
    | succ q ih =>
      rw [List.replicate_succ, List.cons_append, List.cons_append, unpack, if_pos rfl, ih]
      congr 2
      omega
  induction chars with
  | nil => rfl
  | cons ch chars ih =>
    rw [pack, List.flatMap_cons, ← pack, hchar _ _ _ _ (Nat.mod_lt _ (by decide)), ih, Nat.zero_add,
      Nat.div_add_mod, Char.ofNat_toNat]

/-- A value as few bytes. -/
def packed (f : Format α) (a : α) : List UInt8 := pack (f.write a)

/-- The value of few bytes. -/
def unpacked (f : Format α) (bytes : List UInt8) : Option α :=
  match f.read (unpack 0 bytes) with
  | some (a, []) => some a
  | _ => none

theorem unpacked_packed (f : Format α) (a : α) : f.unpacked (f.packed a) = some a := by
  have hread := f.read_write a []
  rw [List.append_nil] at hread
  rw [unpacked, packed, unpack_pack, hread]

theorem packed_inj (f : Format α) {a b : α} (h : f.packed a = f.packed b) : a = b := by
  have hunpacked := f.unpacked_packed a
  rw [h, f.unpacked_packed] at hunpacked
  exact (Option.some.inj hunpacked).symm

end Format
