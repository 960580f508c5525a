/-!
# Blanks, letter case and lines

Text is read as a list of characters, so that every reader is a recursion on that list.

- `isBlank`: the characters that separate words in running text (Unicode White_Space), and
  `trim`, which drops them at both ends.
- `isAsciiBlank`: the five blanks of markup and path data, a strict subset
  (`isBlank_of_isAsciiBlank`).
- `sameIgnoringCase`: comparison that ignores the case of ASCII letters and of nothing
  else.
- `lines`: a line feed ends a line and takes one carriage return before it along; a lone
  carriage return does not end a line, and text after the last line feed is a line only if
  there is some.
-/

namespace Kerf.Text

/-! ## Blanks -/

/-- A blank is a character with the Unicode property White_Space. -/
def isBlank (c : Char) : Bool :=
  let n := c.toNat
  (9 ≤ n && n ≤ 13) || n == 0x20 || n == 0x85 || n == 0xA0 || n == 0x1680 ||
    (0x2000 ≤ n && n ≤ 0x200A) || n == 0x2028 || n == 0x2029 || n == 0x202F || n == 0x205F ||
    n == 0x3000

/-- Space, tab, line feed, form feed and carriage return. -/
def isAsciiBlank (c : Char) : Bool :=
  c == ' ' || c == '\t' || c == '\n' || c == '\x0c' || c == '\r'

theorem isBlank_of_isAsciiBlank {c : Char} (h : isAsciiBlank c = true) : isBlank c = true := by
  simp only [isAsciiBlank, Bool.or_eq_true, beq_iff_eq] at h
  rcases h with (((rfl | rfl) | rfl) | rfl) | rfl <;> decide

/-- The text without the blanks it starts with. -/
def trimStart (text : List Char) : List Char :=
  text.dropWhile isBlank

/-- The text without the blanks it ends with. -/
def trimEnd (text : List Char) : List Char :=
  (text.reverse.dropWhile isBlank).reverse

/-- The text without the blanks at its two ends. -/
def trim (text : List Char) : List Char :=
  trimEnd (trimStart text)

@[simp] theorem trimStart_nil : trimStart [] = [] := rfl

@[simp] theorem trimEnd_nil : trimEnd [] = [] := rfl

@[simp] theorem trim_nil : trim [] = [] := rfl

/-! ## Letter case -/

/-- Two texts are the same once ASCII capitals are made small. -/
def sameIgnoringCase (a b : List Char) : Bool :=
  a.map Char.toLower == b.map Char.toLower

@[simp] theorem sameIgnoringCase_self (a : List Char) : sameIgnoringCase a a = true := by
  simp [sameIgnoringCase]

/-- The rest of a text after an opening word, whatever the case of the word's letters. -/
def afterIgnoringCase? : (word text : List Char) → Option (List Char)
  | [], text => some text
  | _ :: _, [] => none
  | w :: word, c :: text =>
    if w.toLower = c.toLower then afterIgnoringCase? word text else none

/-- The rest of a text after an opening word that is written exactly so. -/
def after? : (word text : List Char) → Option (List Char)
  | [], text => some text
  | _ :: _, [] => none
  | w :: word, c :: text => if w = c then after? word text else none

theorem after?_eq_some_iff {word text rest : List Char} :
    after? word text = some rest ↔ text = word ++ rest := by
  induction word generalizing text with
  | nil => simp [after?, eq_comm]
  | cons w word ih =>
    cases text with
    | nil => simp [after?]
    | cons c text =>
      by_cases h : w = c
      · simp [after?, h, ih]
      · simp [after?, h, Ne.symm h]

/-! ## Lines -/

/-- The parts of a text between its line feeds; there is one more part than line feeds. -/
def segments : List Char → List (List Char)
  | [] => [[]]
  | c :: text =>
    if c = '\n' then [] :: segments text
    else
      match segments text with
      | [] => [[c]]
      | part :: parts => (c :: part) :: parts

/-- A line without the carriage return that it may end with. -/
def dropReturn (line : List Char) : List Char :=
  if line.getLast? = some '\r' then line.dropLast else line

/-- The lines of a text. -/
def lines (text : List Char) : List (List Char) :=
  let parts := segments text
  parts.dropLast.map dropReturn ++ (parts.getLast?.toList).filter (fun last => !last.isEmpty)

theorem segments_ne_nil (text : List Char) : segments text ≠ [] := by
  cases text with
  | nil => simp [segments]
  | cons c text =>
    simp only [segments]
    split
    · simp
    · split <;> simp

/-- A text without line feeds is a single part. -/
theorem segments_of_not_mem {text : List Char} (h : '\n' ∉ text) : segments text = [text] := by
  induction text with
  | nil => rfl
  | cons c text ih =>
    simp only [List.mem_cons, not_or] at h
    simp [segments, ih h.2, Ne.symm h.1]

end Kerf.Text
