import Mosh.Conversation.ChatNames
import Mosh.Library.Hex
import Mosh.Library.Trim

/-!
# Names of cached files

A file that a peer sends is kept under its hash, with the name that the peer gave it
(`attachment_store.rs`). The name is sanitized first, so that it cannot leave the directory of
its hash.

* `sanitizeFileName`, `pathFor`: the name and the path of a file;
* `Tidy`: blanks and dots around a name come in the order in which they are taken away;
* `StaysInside`: the name stays in its directory, and sanitizing it again changes nothing;
* `file_name_stays_inside_iff`: this holds of the names that are tidy, and only of them.
-/

namespace Mosh.Attachment

open Conversation DeviceLink Trim

/-! ## The store -/

inductive AttachmentStoreError
  | io (error : String)
  | hashMismatch (expected actual : String)
  | invalidHash (value : String)
  deriving DecidableEq, Repr

def maxFileNameLen : Nat := 200

/-- Separators and control characters are replaced. -/
def cleanChar (ch : Char) : Char :=
  if ch = '/' || ch = '\\' || ch = ':' || isControl ch then '_' else ch

/-- The name of a file that a peer sent, without separators, and without blanks and dots around
    it. -/
def sanitizeFileName (raw : String) : String :=
  let cleaned := raw.toList.map cleanChar
  let trimmed := strip isWhitespace (strip (· = '.') (strip isWhitespace cleaned))
  let bounded := trimmed.take maxFileNameLen
  if bounded.isEmpty then "file" else String.ofList bounded

def validateHash (hash : String) : Except AttachmentStoreError Unit :=
  if hash.utf8ByteSize ≠ 64 || !hash.toList.all Hex.isHexDigit then .error (.invalidHash hash)
  else .ok ()

/-- The path of a file, as the list of its components. -/
def pathFor (root : List String) (contentHash fileName : String) :
    Except AttachmentStoreError (List String) := do
  validateHash contentHash
  return root ++ [contentHash, sanitizeFileName fileName]

/-- A component of a path: `.` stays, and `..` goes up. -/
def walk (at' : List String) (component : String) : List String :=
  if component = "" || component = "." then at'
  else if component = ".." then at'.dropLast
  else at' ++ [component]

/-- Where a path leads. -/
def resolve (path : List String) : List String := path.foldl walk []

/-! ## Blanks and dots -/

/-- A blank, which is no control character. -/
def isBlank (ch : Char) : Bool := isWhitespace ch && !isControl ch

def isDot (ch : Char) : Bool := ch = '.'

def Blanks (l : List Char) : Prop := ∀ ch ∈ l, isBlank ch = true

def Dots (l : List Char) : Prop := ∀ ch ∈ l, isDot ch = true

/-- Blanks, dots, and blanks. -/
def Edge (l : List Char) : Prop := ∃ w d b, l = w ++ d ++ b ∧ Blanks w ∧ Dots d ∧ Blanks b

/-- The list neither starts nor ends with a blank or a dot. -/
def Plain (l : List Char) : Prop := Bare isBlank l ∧ Bare isDot l

/-- The name is made of blanks, dots, blanks, dots, and blanks; or these surround a part that neither
    starts nor ends with one of them, on both sides, or, if this part is as long as a name can be, on
    the left side. -/
def Tidy (name : List Char) : Prop :=
  (∃ w d b d' w', name = w ++ d ++ b ++ d' ++ w' ∧ Blanks w ∧ Dots d ∧ Blanks b ∧ Dots d' ∧
    Blanks w') ∨
  ∃ lead core rest, name = lead ++ core ++ rest ∧ Edge lead ∧ core ≠ [] ∧ Plain core ∧
    core.length ≤ maxFileNameLen ∧ (Edge rest ∨ core.length = maxFileNameLen)

/-- What is left of a name without the blanks, the dots, and again the blanks around it. -/
def inner (name : List Char) : List Char := strip isBlank (strip isDot (strip isBlank name))

variable {l lead core rest : List Char}

theorem isDot_of_isBlank {ch : Char} (h : isBlank ch = true) : isDot ch = false := by
  refine Bool.eq_false_iff.2 fun hdot => ?_
  rw [of_decide_eq_true hdot] at h
  exact absurd h (by decide)

theorem bare_isDot_of_blanks (h : Blanks l) : Bare isDot l :=
  ⟨fun ch hch => isDot_of_isBlank (h ch (List.mem_of_head? hch)),
    fun ch hch => isDot_of_isBlank (h ch (List.mem_of_getLast? hch))⟩

theorem bare_isBlank_of_dots (h : Dots l) : Bare isBlank l := by
  have hdot : ∀ ch ∈ l, isBlank ch = false := fun ch hch => by
    refine Bool.eq_false_iff.2 fun hblank => ?_
    exact absurd (isDot_of_isBlank hblank) (by rw [h ch hch]; nofun)
  exact ⟨fun ch hch => hdot ch (List.mem_of_head? hch),
    fun ch hch => hdot ch (List.mem_of_getLast? hch)⟩

theorem blanks_append {l' : List Char} (h : Blanks l) (h' : Blanks l') : Blanks (l ++ l') :=
  fun ch hch => (List.mem_append.1 hch).elim (h ch) (h' ch)

/-- A name is what is left of it, between edges. -/
theorem exists_inner (name : List Char) : ∃ w d b b' d' w',
    name = w ++ d ++ b ++ inner name ++ b' ++ d' ++ w' ∧
      Blanks w ∧ Dots d ∧ Blanks b ∧ Blanks b' ∧ Dots d' ∧ Blanks w' := by
  obtain ⟨w, w', hname, hw, hw'⟩ := exists_strip isBlank name
  obtain ⟨d, d', hdots, hd, hd'⟩ := exists_strip isDot (strip isBlank name)
  obtain ⟨b, b', hblanks, hb, hb'⟩ := exists_strip isBlank (strip isDot (strip isBlank name))
  refine ⟨w, d, b, b', d', w', ?_, hw, hd, hb, hb', hd', hw'⟩
  rw [← inner] at hblanks
  rw [hblanks] at hdots
  rw [hdots] at hname
  exact hname.trans (by simp only [List.append_assoc])

/-- Nothing is left of a name exactly if it is made of edges. -/
theorem inner_eq_nil_iff {name : List Char} : inner name = [] ↔ ∃ w d b d' w',
    name = w ++ d ++ b ++ d' ++ w' ∧ Blanks w ∧ Dots d ∧ Blanks b ∧ Dots d' ∧ Blanks w' := by
  constructor
  · intro h
    obtain ⟨w, d, b, b', d', w', hname, hw, hd, hb, hb', hd', hw'⟩ := exists_inner name
    refine ⟨w, d, b ++ b', d', w', ?_, hw, hd, blanks_append hb hb', hd', hw'⟩
    rw [hname, h]
    simp only [List.append_assoc, List.nil_append]
  · rintro ⟨w, d, b, d', w', rfl, hw, hd, hb, hd', hw'⟩
    -- without the outer blanks, blanks between dots are left
    have hmiddle : ∃ d₁ b₁ d₂, strip isBlank (w ++ d ++ b ++ d' ++ w') = d₁ ++ b₁ ++ d₂ ∧
        Dots d₁ ∧ Blanks b₁ ∧ Dots d₂ := by
      rcases eq_or_ne d [] with rfl | hne
      · refine ⟨[], [], d', ?_, nofun, nofun, hd'⟩
        rw [List.append_nil]
        exact strip_eq (blanks_append hw hb) hw' (bare_isBlank_of_dots hd')
      · rcases eq_or_ne d' [] with rfl | hne'
        · refine ⟨d, [], [], ?_, hd, nofun, nofun⟩
          rw [List.append_nil, List.append_assoc, List.append_nil, List.append_nil]
          exact strip_eq hw (blanks_append hb hw') (bare_isBlank_of_dots hd)
        · refine ⟨d, b, d', ?_, hd, hb, hd'⟩
          have hbare : Bare isBlank (d ++ b ++ d') := by
            constructor
            · intro ch hch
              rw [List.append_assoc, List.head?_append_of_ne_nil _ hne] at hch
              exact (bare_isBlank_of_dots hd).1 ch hch
            · intro ch hch
              rw [List.getLast?_append_of_ne_nil _ hne'] at hch
              exact (bare_isBlank_of_dots hd').2 ch hch
          rw [show w ++ d ++ b ++ d' ++ w' = w ++ (d ++ b ++ d') ++ w' by
            simp only [List.append_assoc]]
          exact strip_eq hw hw' hbare
    obtain ⟨d₁, b₁, d₂, heq, hd₁, hb₁, hd₂⟩ := hmiddle
    rw [inner, heq, strip_eq hd₁ hd₂ (bare_isDot_of_blanks hb₁)]
    exact strip_eq_nil_iff.2 hb₁

/-- A name around a plain part is trimmed on either side of it. -/
theorem inner_around (hcore : Plain core) (hne : core ≠ []) (lead rest : List Char) :
    ∃ lead' rest', inner (lead ++ core ++ rest) = lead' ++ core ++ rest' ∧
      (Edge lead → lead' = []) ∧ (Edge rest → rest' = []) := by
  refine ⟨_, _, by rw [inner, strip_around hcore.1 hne, strip_around hcore.2 hne,
    strip_around hcore.1 hne], ?_, ?_⟩
  · rintro ⟨w, d, b, rfl, hw, hd, hb⟩
    rw [List.append_assoc, List.dropWhile_append_of_pos hw]
    rcases d with - | ⟨ch, d⟩
    · rw [List.nil_append, List.dropWhile_eq_nil_iff.2 hb]
      rfl
    · have hch : isBlank ch = false := (bare_isBlank_of_dots hd).1 ch rfl
      rw [List.cons_append, List.dropWhile_cons_of_neg (by rw [hch]; nofun), ← List.cons_append,
        List.dropWhile_append_of_pos hd]
      rw [List.dropWhile_eq_nil_iff]
      exact fun ch hch => hb ch ((List.dropWhile_sublist _).subset hch)
  · rintro ⟨b, d, w, rfl, hb, hd, hw⟩
    have hmirror : ∀ (p : Char → Bool) (l : List Char), l.rdropWhile p =
        (l.reverse.dropWhile p).reverse := fun _ _ => rfl
    rw [hmirror, hmirror, hmirror]
    simp only [List.reverse_reverse, List.reverse_append, List.reverse_eq_nil_iff]
    rw [List.dropWhile_append_of_pos (fun ch hch => hw ch (List.mem_reverse.1 hch))]
    rcases hreverse : d.reverse with - | ⟨ch, d'⟩
    · rw [List.nil_append, List.dropWhile_eq_nil_iff.2 fun ch hch => hb ch (List.mem_reverse.1 hch)]
      rfl
    · have hd' : Dots (ch :: d') := fun x hx => hd x (List.mem_reverse.1 (hreverse ▸ hx))
      have hch : isBlank ch = false := (bare_isBlank_of_dots hd').1 ch rfl
      rw [List.cons_append, List.dropWhile_cons_of_neg (by rw [hch]; nofun), ← List.cons_append,
        List.dropWhile_append_of_pos hd', List.dropWhile_eq_nil_iff]
      exact fun ch hch => hb ch (List.mem_reverse.1 ((List.dropWhile_sublist _).subset hch))

theorem inner_of_plain (hcore : Plain core) : inner core = core := by
  rw [inner, strip_of_bare hcore.1, strip_of_bare hcore.2, strip_of_bare hcore.1]

/-- A name of which nothing is taken away is plain. -/
theorem plain_of_length_le (h : l.length ≤ (inner l).length) : inner l = l ∧ Plain l := by
  have h₁ := length_strip_le isBlank (strip isDot (strip isBlank l))
  have h₂ := length_strip_le isDot (strip isBlank l)
  have h₃ := length_strip_le isBlank l
  rw [inner] at h
  obtain ⟨hblank, hbare⟩ := bare_of_length_le (p := isBlank) (l := l) (by omega)
  rw [hblank] at h₁ h₂ h
  obtain ⟨hdot, hbare'⟩ := bare_of_length_le (p := isDot) (l := l) (by omega)
  exact ⟨by rw [inner, hblank, hdot, hblank], hbare, hbare'⟩

/-! ## Sanitized names -/

/-- Replaced characters are no blanks and no dots. -/
theorem cleanChar_spec (ch : Char) : isWhitespace (cleanChar ch) = isBlank ch ∧
    ((cleanChar ch = '.') = (ch = '.')) ∧ cleanChar (cleanChar ch) = cleanChar ch ∧
      cleanChar ch ≠ '/' ∧ cleanChar ch ≠ '\\' ∧ cleanChar ch ≠ ':' ∧
        isControl (cleanChar ch) = false := by
  have hunderscore : isWhitespace '_' = false ∧ isControl '_' = false := by decide
  by_cases hsep : ch = '/' ∨ ch = '\\' ∨ ch = ':'
  · rcases hsep with rfl | rfl | rfl <;> decide
  · rw [not_or, not_or] at hsep
    cases hcontrol : isControl ch with
    | true =>
      have hdot : ch ≠ '.' := by
        rintro rfl
        exact absurd hcontrol (by decide)
      have hclean : cleanChar ch = '_' := by simp [cleanChar, hcontrol]
      rw [hclean]
      refine ⟨by simp [isBlank, hcontrol, hunderscore], ?_, rfl, by decide, by decide, by decide,
        hunderscore.2⟩
      simp [hdot]
    | false =>
      have hclean : cleanChar ch = ch := by simp [cleanChar, hcontrol, hsep]
      rw [hclean]
      exact ⟨by simp [isBlank, hcontrol], rfl, hclean, hsep.1, hsep.2.1, hsep.2.2, hcontrol⟩

/-- The characters of a sanitized name are those that are left of the name, replaced. -/
theorem sanitizeFileName_eq (raw : String) : sanitizeFileName raw =
    if ((inner raw.toList).take maxFileNameLen) = [] then "file"
    else String.ofList (((inner raw.toList).take maxFileNameLen).map cleanChar) := by
  have hblank : isWhitespace ∘ cleanChar = isBlank := funext fun ch => (cleanChar_spec ch).1
  have hdot : (fun ch => decide (ch = '.')) ∘ cleanChar = isDot :=
    funext fun ch => decide_eq_decide.2 (iff_of_eq (cleanChar_spec ch).2.1)
  rw [sanitizeFileName, strip_map, hblank, strip_map, hdot, strip_map, hblank, ← inner, ← List.map_take]
  simp only [List.isEmpty_map, List.isEmpty_iff]

/-- A peer's name for a file is safe. -/
structure StaysInside (raw : String) : Prop where
  nonempty : sanitizeFileName raw ≠ ""
  bounded : (sanitizeFileName raw).length ≤ maxFileNameLen
  chars : ∀ ch ∈ (sanitizeFileName raw).toList, ch ≠ '/' ∧ ch ≠ '\\' ∧ ch ≠ ':' ∧
    isControl ch = false
  notDots : sanitizeFileName raw ≠ "." ∧ sanitizeFileName raw ≠ ".."
  /-- The file is a direct child of the directory of its hash. -/
  child : ∀ root hash path, pathFor root hash raw = .ok path →
    resolve path = resolve (root ++ [hash]) ++ [sanitizeFileName raw]
  idempotent : sanitizeFileName (sanitizeFileName raw) = sanitizeFileName raw
  /-- The name and its sanitized form denote the same file. -/
  same : ∀ root hash, pathFor root hash (sanitizeFileName raw) = pathFor root hash raw

/-- What holds of every sanitized name. -/
theorem sanitizeFileName_spec (raw : String) : sanitizeFileName raw ≠ "" ∧
    (sanitizeFileName raw).length ≤ maxFileNameLen ∧
    ∀ ch ∈ (sanitizeFileName raw).toList, ch ≠ '/' ∧ ch ≠ '\\' ∧ ch ≠ ':' ∧
      isControl ch = false := by
  rw [sanitizeFileName_eq]
  split
  · have hall : ("file".toList.all fun ch => ch ≠ '/' && ch ≠ '\\' && ch ≠ ':' && !isControl ch) =
        true := by decide
    refine ⟨by decide, by decide, fun ch hch => ?_⟩
    have hclean := List.all_eq_true.1 hall ch hch
    simpa [and_assoc] using hclean
  · next hne =>
    refine ⟨fun heq => hne ?_, ?_, ?_⟩
    · have hlist := congrArg String.toList heq
      rw [String.toList_ofList] at hlist
      exact List.map_eq_nil_iff.1 hlist
    · rw [String.length_ofList, List.length_map, List.length_take]
      exact min_le_left _ _
    · intro ch hch
      rw [String.toList_ofList, List.mem_map] at hch
      obtain ⟨ch, -, rfl⟩ := hch
      exact (cleanChar_spec ch).2.2.2

/-- A name that is its own sanitized form stays in its directory. -/
theorem staysInside_of_idempotent {raw : String}
    (h : sanitizeFileName (sanitizeFileName raw) = sanitizeFileName raw) : StaysInside raw := by
  obtain ⟨hne, hbounded, hchars⟩ := sanitizeFileName_spec raw
  have hdots : sanitizeFileName raw ≠ "." ∧ sanitizeFileName raw ≠ ".." := by
    constructor <;> intro hdot <;> rw [hdot] at h <;> exact absurd h (by decide)
  refine ⟨hne, hbounded, hchars, hdots, fun root hash path hpath => ?_, h, fun root hash => ?_⟩
  · rw [pathFor] at hpath
    rcases hhash : validateHash hash with e | ⟨⟩
    · rw [hhash] at hpath
      cases hpath
    · rw [hhash] at hpath
      obtain rfl := Except.ok.inj hpath
      rw [show root ++ [hash, sanitizeFileName raw] = (root ++ [hash]) ++ [sanitizeFileName raw] by
        rw [List.append_assoc]; rfl, resolve, List.foldl_append, ← resolve, List.foldl_cons,
        List.foldl_nil, walk]
      simp [hne, hdots.1, hdots.2]
  · rw [pathFor, pathFor, h]

/-- What is left of a name with characters replaced. -/
theorem inner_map_cleanChar (l : List Char) : inner (l.map cleanChar) = (inner l).map cleanChar := by
  have hblank : isBlank ∘ cleanChar = isBlank := funext fun ch => by
    obtain ⟨hspace, -, -, -, -, -, hcontrol⟩ := cleanChar_spec ch
    rw [Function.comp_apply, isBlank, hspace, hcontrol, Bool.not_false, Bool.and_true]
  have hdot : isDot ∘ cleanChar = isDot :=
    funext fun ch => decide_eq_decide.2 (iff_of_eq (cleanChar_spec ch).2.1)
  rw [inner, strip_map, hblank, strip_map, hdot, strip_map, hblank, ← inner]

/-- A sanitized name, sanitized again. -/
theorem sanitizeFileName_ofList (l : List Char) :
    sanitizeFileName (String.ofList (l.map cleanChar)) =
      if (inner l).take maxFileNameLen = [] then "file"
      else String.ofList (((inner l).take maxFileNameLen).map cleanChar) := by
  have htwice : cleanChar ∘ cleanChar = cleanChar := funext fun ch => (cleanChar_spec ch).2.2.1
  rw [sanitizeFileName_eq, String.toList_ofList, inner_map_cleanChar, ← List.map_take]
  simp only [List.map_map, List.map_eq_nil_iff, htwice]

/-- A part of a name stays under sanitizing exactly if it is plain. -/
theorem sanitizeFileName_ofList_eq_iff (hne : l ≠ []) (hlength : l.length ≤ maxFileNameLen) :
    sanitizeFileName (String.ofList (l.map cleanChar)) = String.ofList (l.map cleanChar) ↔
      Plain l := by
  rw [sanitizeFileName_ofList]
  constructor
  · intro h
    split at h
    · next hnil =>
      -- the fallback would have to be the name itself, but nothing is taken from it
      have hlist : l.map cleanChar = ['f', 'i', 'l', 'e'] := (String.ofList_injective h).symm
      have hinner := inner_map_cleanChar l
      have hfile : inner ['f', 'i', 'l', 'e'] = ['f', 'i', 'l', 'e'] := by decide
      rw [hlist, hfile] at hinner
      rcases hl : inner l with - | ⟨ch, rest⟩
      · rw [hl] at hinner
        cases hinner
      · rw [hl] at hnil
        cases hnil
    · have hlist := congrArg List.length (String.ofList_injective h)
      rw [List.length_map, List.length_map, List.length_take] at hlist
      exact (plain_of_length_le (by omega)).2
  · intro hplain
    rw [inner_of_plain hplain, List.take_of_length_le hlength, if_neg hne]

/-- As much of a name as is kept is plain exactly if the name is tidy. -/
theorem plain_take_inner_iff {name : List Char} (hne : (inner name).take maxFileNameLen ≠ []) :
    Plain ((inner name).take maxFileNameLen) ↔ Tidy name := by
  constructor
  · intro hplain
    obtain ⟨w, d, b, b', d', w', hname, hw, hd, hb, hb', hd', hw'⟩ := exists_inner name
    have hparts : name = (w ++ d ++ b) ++ (inner name).take maxFileNameLen ++
        ((inner name).drop maxFileNameLen ++ (b' ++ d' ++ w')) := by
      have hsplit := List.take_append_drop maxFileNameLen (inner name)
      calc name = (w ++ d ++ b) ++ (inner name) ++ (b' ++ d' ++ w') :=
            hname.trans (by simp only [List.append_assoc])
        _ = (w ++ d ++ b) ++ ((inner name).take maxFileNameLen ++
            (inner name).drop maxFileNameLen) ++ (b' ++ d' ++ w') := by rw [hsplit]
        _ = _ := by simp only [List.append_assoc]
    refine .inr ⟨_, _, _, hparts, ⟨w, d, b, rfl, hw, hd, hb⟩, hne, hplain, ?_, ?_⟩
    · rw [List.length_take]
      exact min_le_left _ _
    · rcases le_or_gt (inner name).length maxFileNameLen with hle | hlt
      · rw [List.drop_eq_nil_of_le hle, List.nil_append]
        exact .inl ⟨b', d', w', rfl, hb', hd', hw'⟩
      · rw [List.length_take]
        exact .inr (min_eq_left hlt.le)
  · rintro (hedges | ⟨lead, core, rest, hname, hlead, hcore, hplain, hlength, hrest⟩)
    · rw [inner_eq_nil_iff.2 hedges, List.take_nil] at hne
      exact absurd rfl hne
    · obtain ⟨lead', rest', hinner, hlead', hrest'⟩ := inner_around hplain hcore lead rest
      rw [hname, hinner, hlead' hlead, List.nil_append]
      rcases hrest with hrest | hfull
      · rw [hrest' hrest, List.append_nil, List.take_of_length_le hlength]
        exact hplain
      · rw [List.take_append_of_le_length hfull.ge, List.take_of_length_le hfull.le]
        exact hplain

/-- Sanitizing again changes nothing exactly if the name is tidy. -/
theorem idempotent_iff (raw : String) :
    sanitizeFileName (sanitizeFileName raw) = sanitizeFileName raw ↔ Tidy raw.toList := by
  by_cases hnil : (inner raw.toList).take maxFileNameLen = []
  · have hraw : sanitizeFileName raw = "file" := by rw [sanitizeFileName_eq, if_pos hnil]
    rw [hraw]
    refine iff_of_true (by decide) (.inl (inner_eq_nil_iff.1 ?_))
    rcases hinner : inner raw.toList with - | ⟨ch, rest⟩
    · rfl
    · rw [hinner] at hnil
      cases hnil
  · have hlength : ((inner raw.toList).take maxFileNameLen).length ≤ maxFileNameLen := by
      rw [List.length_take]
      exact min_le_left _ _
    have hraw : sanitizeFileName raw =
        String.ofList (((inner raw.toList).take maxFileNameLen).map cleanChar) := by
      rw [sanitizeFileName_eq, if_neg hnil]
    rw [hraw, sanitizeFileName_ofList_eq_iff hnil hlength]
    exact plain_take_inner_iff hnil

/-- A peer's name for a file stays inside the directory of its hash, and sanitizing it again changes
    nothing, exactly if it is tidy. -/
theorem file_name_stays_inside_iff (raw : String) : StaysInside raw ↔ Tidy raw.toList :=
  ⟨fun h => (idempotent_iff raw).1 h.idempotent,
    fun h => staysInside_of_idempotent ((idempotent_iff raw).2 h)⟩

/-- Dots between blanks become a name that leads out of the directory of the hash; and the dot after
    a blank that follows a dot is only taken away when the name is sanitized again. -/
theorem dots_between_blanks_escape :
    sanitizeFileName ". .. ." = ".." ∧
    (∃ path, pathFor ["data", "attachments"] ("".pushn 'a' 64) ". .. ." = .ok path ∧
      resolve path = ["data", "attachments"]) ∧
    sanitizeFileName ". .a" = ".a" ∧ sanitizeFileName ".a" = "a" :=
  ⟨by decide +kernel, ⟨_, rfl, by decide +kernel⟩, by decide +kernel, by decide +kernel⟩

end Mosh.Attachment
