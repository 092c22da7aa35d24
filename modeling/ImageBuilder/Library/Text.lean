import Mathlib.Data.List.Basic
import Mathlib.Data.List.TakeWhile

/-! Unicode text as a list of scalar values, with the character classes, trimming
and splitting of the Rust standard library's `str`. -/
abbrev Text := List Char

/-- A file's bytes: the encoding of one text, or bytes that are not UTF-8. -/
inductive Bytes where
  | utf8 (text : Text)
  | binary (bytes : List UInt8)
  deriving DecidableEq

namespace Text

instance : Coe String Text := ⟨String.toList⟩

/-- `char::is_whitespace`: the `White_Space` property. -/
def isWhitespace (c : Char) : Bool :=
  let n := c.toNat
  (9 ≤ n && n ≤ 13) || n == 32 || n == 0x85 || n == 0xA0 || n == 0x1680 ||
    (0x2000 ≤ n && n ≤ 0x200A) || n == 0x2028 || n == 0x2029 || n == 0x202F || n == 0x205F ||
    n == 0x3000

/-- `char::is_control`: the general category `Cc`. -/
def isControl (c : Char) : Bool :=
  c.toNat ≤ 0x1F || (0x7F ≤ c.toNat && c.toNat ≤ 0x9F)

def trimStart (text : Text) : Text := text.dropWhile isWhitespace

def trimEnd (text : Text) : Text := (text.reverse.dropWhile isWhitespace).reverse

def trim (text : Text) : Text := trimEnd (trimStart text)

/-- The line without the carriage return before its newline. -/
def stripReturn (line : Text) : Text :=
  if line.getLast? = some '\r' then line.dropLast else line

/-- `str::lines`. Text after the last newline is a line unless it is empty, and keeps
a carriage return at its end. -/
def lines (text : Text) : List Text :=
  let pieces := text.splitOn '\n'
  pieces.dropLast.map stripReturn ++ pieces.getLast?.toList.filter (· ≠ [])

/-- `str::split_whitespace`. -/
def words (text : Text) : List Text := (text.splitOnP isWhitespace).filter (· ≠ [])

/-- `str::strip_prefix`. -/
def stripPrefix? (lead : Text) (text : Text) : Option Text :=
  if lead.isPrefixOf text then some (text.drop lead.length) else none

/-- `str::split_once`. -/
def splitOnce? (separator : Text) : Text → Option (Text × Text)
  | [] => if separator = [] then some ([], []) else none
  | c :: rest =>
    if separator.isPrefixOf (c :: rest) then some ([], (c :: rest).drop separator.length)
    else (splitOnce? separator rest).map fun (before, after) => (c :: before, after)

/-- Printing ASCII characters are neither white space nor control characters. -/
theorem isWhitespace_of_graphic {c : Char} (low : 32 < c.toNat) (high : c.toNat < 127) :
    isWhitespace c = false := by
  simp only [isWhitespace, Bool.or_eq_false_iff, Bool.and_eq_false_iff, decide_eq_false_iff_not,
    beq_eq_false_iff_ne]
  omega

theorem alphanum_graphic {c : Char} (plain : c.isAlphanum = true) :
    32 < c.toNat ∧ c.toNat < 127 := by
  have ranges : ((decide (c.val ≥ 'A'.val ∧ c.val ≤ 'Z'.val) ||
      (decide (c.val ≥ 'a'.val) && decide (c.val ≤ 'z'.val))) ||
      (decide (c.val ≥ '0'.val) && decide (c.val ≤ '9'.val))) = true := plain
  simp only [Bool.or_eq_true, Bool.and_eq_true, decide_eq_true_eq, ge_iff_le,
    UInt32.le_iff_toNat_le, Char.toNat_val, Char.reduceToNat] at ranges
  omega

theorem isWhitespace_of_alphanum {c : Char} (plain : c.isAlphanum = true) :
    isWhitespace c = false :=
  isWhitespace_of_graphic (alphanum_graphic plain).1 (alphanum_graphic plain).2

theorem trimStart_of_head (h : ∀ c, text.head? = some c → isWhitespace c = false) :
    trimStart text = text := by
  cases text with
  | nil => rfl
  | cons c rest => simp [trimStart, h c rfl]

theorem trimEnd_of_last (h : ∀ c, text.getLast? = some c → isWhitespace c = false) :
    trimEnd text = text := by
  have reversed : trimStart text.reverse = text.reverse :=
    trimStart_of_head (by simpa using h)
  rw [trimEnd, ← trimStart, reversed, List.reverse_reverse]

/-- Text whose first and last characters are not white space is its own trim. -/
theorem trim_of_ends (first : ∀ c, text.head? = some c → isWhitespace c = false)
    (last : ∀ c, text.getLast? = some c → isWhitespace c = false) : trim text = text := by
  rw [trim, trimStart_of_head first, trimEnd_of_last last]

theorem trim_of_solid (solid : ∀ c ∈ text, isWhitespace c = false) : trim text = text :=
  trim_of_ends (fun c h => solid c (List.mem_of_head? h)) (fun c h => solid c (List.mem_of_getLast? h))

/-- A text with white space before and after it. -/
def Padded (core text : Text) : Prop :=
  ∃ lead trail, text = lead ++ core ++ trail ∧ (∀ c ∈ lead, isWhitespace c = true) ∧
    ∀ c ∈ trail, isWhitespace c = true

/-- A text with no white space at its ends. -/
structure Trimmed (text : Text) : Prop where
  first : ∀ c, text.head? = some c → isWhitespace c = false
  last : ∀ c, text.getLast? = some c → isWhitespace c = false

theorem Trimmed.of_solid (solid : ∀ c ∈ text, isWhitespace c = false) : Trimmed text where
  first c found := solid c (List.mem_of_head? found)
  last c found := solid c (List.mem_of_getLast? found)

theorem trimStart_shown (text : Text) : ∃ lead, text = lead ++ trimStart text ∧
    ∀ c ∈ lead, isWhitespace c = true :=
  ⟨text.takeWhile isWhitespace, List.takeWhile_append_dropWhile.symm,
    fun _ member => List.mem_takeWhile_imp member⟩

theorem head?_trimStart (found : (trimStart text).head? = some c) : isWhitespace c = false := by
  have stops := List.head?_dropWhile_not isWhitespace text
  rw [trimStart] at found
  rw [found] at stops
  simpa using stops

theorem trimEnd_shown (text : Text) : ∃ trail, text = trimEnd text ++ trail ∧
    ∀ c ∈ trail, isWhitespace c = true := by
  obtain ⟨lead, shown, blank⟩ := trimStart_shown text.reverse
  refine ⟨lead.reverse, ?_, fun c member => blank c (List.mem_reverse.mp member)⟩
  rw [trimEnd, ← trimStart, ← List.reverse_append, ← shown, List.reverse_reverse]

theorem trimmed_trim (text : Text) : Trimmed (trim text) where
  first c found := by
    obtain ⟨trail, shown, _⟩ := trimEnd_shown (trimStart text)
    have first : (trimStart text).head? = some c := by
      rw [shown, List.head?_append, ← trim, found, Option.some_or]
    exact head?_trimStart first
  last c found := by
    rw [trim, trimEnd, List.getLast?_reverse, ← trimStart] at found
    exact head?_trimStart found

theorem trim_padded (text : Text) : Padded (trim text) text := by
  obtain ⟨lead, shown, before⟩ := trimStart_shown text
  obtain ⟨trail, ended, after⟩ := trimEnd_shown (trimStart text)
  refine ⟨lead, trail, ?_, before, after⟩
  rw [trim, List.append_assoc, ← ended, ← shown]

/-- Trimming takes the white space off again, and no more. -/
theorem trim_eq_iff : trim text = core ↔ Padded core text ∧ Trimmed core := by
  constructor
  · rintro rfl
    exact ⟨trim_padded text, trimmed_trim text⟩
  · rintro ⟨⟨lead, trail, rfl, before, after⟩, trimmed⟩
    have started : trimStart (lead ++ core ++ trail) = trimStart (core ++ trail) := by
      rw [List.append_assoc]
      exact List.dropWhile_append_of_pos before
    have ended : trimEnd (core ++ trail) = trimEnd core := by
      unfold trimEnd
      rw [List.reverse_append, List.dropWhile_append_of_pos fun c member =>
        after c (List.mem_reverse.mp member)]
    rw [trim, started]
    cases core with
    | nil =>
      have blank : trimStart trail = [] := List.dropWhile_eq_nil_iff.mpr after
      rw [List.nil_append, blank]
      rfl
    | cons c rest =>
      have kept : trimStart (c :: rest ++ trail) = c :: rest ++ trail := by
        apply trimStart_of_head
        rintro _ ⟨⟩
        exact trimmed.first c rfl
      rw [kept, ended]
      exact trimEnd_of_last trimmed.last

theorem Padded.trim (padded : Padded core text) (solid : ∀ c ∈ core, isWhitespace c = false) :
    trim text = core :=
  trim_eq_iff.mpr ⟨padded, .of_solid solid⟩

/-- A text without white space, checked character by character. -/
theorem solid_of_all {text : Text} (plain : text.all (!isWhitespace ·) = true) :
    ∀ c ∈ text, isWhitespace c = false := by
  simpa using plain

@[simp] theorem lines_nil : lines [] = [] := rfl

/-- A newline ends a line. -/
theorem lines_cons (line : Text) (bare : '\n' ∉ line) (rest : Text) :
    lines (line ++ '\n' :: rest) = stripReturn line :: lines rest := by
  obtain ⟨first, more, split⟩ := List.exists_cons_of_ne_nil (List.splitOn_ne_nil '\n' rest)
  simp only [lines, List.splitOn_append_cons_self_of_not_mem bare, split]
  simp

/-- Text after the last newline is a line. -/
theorem lines_last (bare : '\n' ∉ line) (full : line ≠ []) : lines line = [line] := by
  simp [lines, List.splitOn_eq_singleton bare, full]

theorem stripReturn_of_last (plain : line.getLast? ≠ some '\r') : stripReturn line = line := by
  simp [stripReturn, plain]

/-- White space ends a word. -/
theorem words_cons (word : Text) (solid : ∀ c ∈ word, isWhitespace c = false) (full : word ≠ [])
    (space : isWhitespace c = true) (rest : Text) : words (word ++ c :: rest) = word :: words rest := by
  simp [words, List.splitOnP_append_cons_of_forall_mem solid c space, full]

/-- Joined text is made of the parts and the separator. -/
theorem mem_intercalate {sep : Char} {parts : List Text} (member : c ∈ [sep].intercalate parts) :
    c = sep ∨ ∃ part ∈ parts, c ∈ part := by
  induction parts with
  | nil => cases member
  | cons part parts ih =>
    cases parts with
    | nil => exact .inr ⟨part, List.mem_cons_self, by simpa using member⟩
    | cons next parts =>
      rw [List.intercalate_cons_cons, List.mem_append, List.mem_append, List.mem_singleton] at member
      rcases member with (inside | rfl) | member
      · exact .inr ⟨part, List.mem_cons_self, inside⟩
      · exact .inl rfl
      · exact (ih member).imp id fun ⟨other, found, inside⟩ =>
          ⟨other, List.mem_cons_of_mem _ found, inside⟩

theorem words_space (space : isWhitespace c = true) (rest : Text) :
    words (c :: rest) = words rest := by
  have split := List.splitOnP_append_cons [] rest space
  simp only [List.nil_append, List.splitOnP_nil] at split
  simp [words, split]

@[simp] theorem words_trimStart (text : Text) : words (trimStart text) = words text := by
  induction text with
  | nil => rfl
  | cons c rest ih =>
    by_cases space : isWhitespace c = true
    · rw [words_space space, ← ih, trimStart, List.dropWhile_cons_of_pos space, trimStart]
    · rw [trimStart, List.dropWhile_cons_of_neg space]

theorem stripPrefix?_eq_some : stripPrefix? lead text = some rest ↔ text = lead ++ rest := by
  unfold stripPrefix?
  constructor
  · intro stripped
    split at stripped
    · rename_i starts
      obtain ⟨more, rfl⟩ := List.isPrefixOf_iff_prefix.mp starts
      cases stripped
      simp
    · cases stripped
  · rintro rfl
    have starts : lead.isPrefixOf (lead ++ rest) = true :=
      List.isPrefixOf_iff_prefix.mpr (List.prefix_append _ _)
    simp [starts]

/-- A text is split where the separator first occurs. -/
theorem splitOnce?_eq_some : splitOnce? separator text = some (before, after) ↔
    text = before ++ separator ++ after ∧
      ∀ earlier later, text = earlier ++ separator ++ later → before.length ≤ earlier.length := by
  induction text generalizing before with
  | nil =>
    simp only [splitOnce?, List.nil_eq, List.append_eq_nil_iff]
    constructor
    · intro found
      split at found
      · rename_i bare
        cases found
        exact ⟨⟨⟨rfl, bare⟩, rfl⟩, fun _ _ _ => Nat.zero_le _⟩
      · cases found
    · rintro ⟨⟨⟨rfl, rfl⟩, rfl⟩, -⟩
      rw [if_pos rfl]
  | cons c rest ih =>
    rw [splitOnce?]
    by_cases starts : separator.isPrefixOf (c :: rest) = true
    · obtain ⟨more, shown⟩ := List.isPrefixOf_iff_prefix.mp starts
      rw [if_pos starts, ← shown, List.drop_left, Option.some.injEq, Prod.mk.injEq]
      constructor
      · rintro ⟨rfl, rfl⟩
        exact ⟨rfl, fun _ _ _ => Nat.zero_le _⟩
      · rintro ⟨same, first⟩
        have bare : before = [] := List.eq_nil_of_length_eq_zero
          (Nat.le_zero.mp (first [] more rfl))
        subst bare
        exact ⟨rfl, List.append_cancel_left same⟩
    · have inside : ∀ earlier later, c :: rest = earlier ++ separator ++ later →
          ∃ start, earlier = c :: start ∧ rest = start ++ separator ++ later := by
        intro earlier later shown
        cases earlier with
        | nil =>
          exact absurd (List.isPrefixOf_iff_prefix.mpr ⟨later, shown.symm⟩) starts
        | cons d start =>
          simp only [List.cons_append, List.cons.injEq] at shown
          exact ⟨start, by rw [shown.1], shown.2⟩
      rw [if_neg starts, Option.map_eq_some_iff]
      constructor
      · rintro ⟨⟨start, later⟩, found, same⟩
        cases same
        obtain ⟨shown, first⟩ := ih.mp found
        refine ⟨by rw [shown]; rfl, fun earlier later' split => ?_⟩
        obtain ⟨start', rfl, inner⟩ := inside earlier later' split
        exact Nat.succ_le_succ (first start' later' inner)
      · rintro ⟨shown, first⟩
        obtain ⟨start, rfl, inner⟩ := inside before after shown
        refine ⟨(start, after), ih.mpr ⟨inner, fun earlier later split => ?_⟩, rfl⟩
        exact Nat.le_of_succ_le_succ (first (c :: earlier) later (by rw [split]; rfl))

/-- Text that ends where a line ends. -/
def LineEnd (text : Text) : Prop := text = [] ∨ text.getLast? = some '\n'

/-- The lines after the end of a line are read on their own. -/
theorem lines_append (ends : LineEnd text) (more : Text) :
    lines (text ++ more) = lines text ++ lines more := by
  induction h : text.length using Nat.strongRecOn generalizing text with
  | ind n ih =>
    rcases ends with rfl | last
    · simp
    · have member : '\n' ∈ text := List.mem_of_getLast? last
      obtain ⟨line, rest, rfl, bare⟩ := List.eq_append_cons_of_mem member
      rw [List.append_assoc, List.cons_append, lines_cons line bare, lines_cons line bare]
      have ends : LineEnd rest := by
        cases rest with
        | nil => exact .inl rfl
        | cons c rest => exact .inr (by simpa [List.getLast?_append] using last)
      rw [ih rest.length (by simp [← h]; omega) ends rfl, List.cons_append]

/-- Text written line by line is read back line by line. -/
theorem lines_unlines {texts : List Text} (bare : ∀ line ∈ texts, '\n' ∉ line)
    (plain : ∀ line ∈ texts, line.getLast? ≠ some '\r') :
    lines (texts.flatMap (· ++ ['\n'])) = texts := by
  induction texts with
  | nil => exact lines_nil
  | cons line rest ih =>
    rw [List.flatMap_cons, List.append_assoc, List.singleton_append,
      lines_cons line (bare line List.mem_cons_self),
      stripReturn_of_last (plain line List.mem_cons_self),
      ih (fun other member => bare other (List.mem_cons_of_mem _ member))
        (fun other member => plain other (List.mem_cons_of_mem _ member))]

end Text
