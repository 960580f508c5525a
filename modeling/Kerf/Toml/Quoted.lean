import Kerf.Text.Radix
import Kerf.Toml.Line

/-!
# Strings of TOML

There are four kinds of strings. In double quotes a backslash starts an escape, in single
quotes it is a character like any other, and either kind may run over several lines
between three quotes. There, a line break that follows the opening quotes does not count,
up to two quotes may stand in the string also at its end, and with escapes a backslash at
the end of a line joins it to the next text.
-/

namespace Kerf.Toml

/-- The character with a code that is written in hexadecimal digits. -/
def ofCode? (digits : List Char) : Option Char :=
  let code := Text.valueIn 16 digits
  if digits.all (Text.isDigitIn 16) && code.isValidChar then some (Char.ofNat code) else none

/-- The character that a backslash and a letter stand for. -/
def escaped? : Char → Option Char
  | 'b' => some '\x08'
  | 't' => some '\t'
  | 'n' => some '\n'
  | 'f' => some '\x0c'
  | 'r' => some '\r'
  | '"' => some '"'
  | '\\' => some '\\'
  | _ => none

/-- The number of digits that a letter after a backslash announces. -/
def codeLength (c : Char) : Nat :=
  if c = 'u' then 4 else if c = 'U' then 8 else 0

/-- Takes off what follows a backslash: the character that it stands for. -/
def takeEscape? : List Char → Option (Char × List Char)
  | [] => none
  | c :: text =>
    if codeLength c = 0 then (escaped? c).map fun c => (c, text)
    else if text.length < codeLength c then none
    else (ofCode? (text.take (codeLength c))).map fun c' => (c', text.drop (codeLength c))

theorem length_lt_of_takeEscape? {text rest : List Char} {c : Char}
    (h : takeEscape? text = some (c, rest)) : rest.length < text.length := by
  cases text with
  | nil => simp [takeEscape?] at h
  | cons d text =>
    simp only [takeEscape?] at h
    split at h
    · simp only [Option.map_eq_some_iff, Prod.mk.injEq] at h
      obtain ⟨_, _, _, rfl⟩ := h
      simp
    · split at h
      · cases h
      · simp only [Option.map_eq_some_iff, Prod.mk.injEq] at h
        obtain ⟨_, _, _, rfl⟩ := h
        simp only [List.length_drop, List.length_cons]
        omega

/-! ## Strings on one line -/

/-- Takes a string in double quotes off, whose first quote is read already. -/
def takeBasic? : List Char → Option (List Char × List Char)
  | [] => none
  | '"' :: rest => some ([], rest)
  | '\\' :: text =>
    match _taken : takeEscape? text with
    | none => none
    | some (c, rest) => (takeBasic? rest).map fun (value, rest) => (c :: value, rest)
  | c :: text =>
    if isPlain c then (takeBasic? text).map fun (value, rest) => (c :: value, rest) else none
termination_by text => text.length
decreasing_by
  · have := length_lt_of_takeEscape? _taken
    simp only [List.length_cons]
    omega
  · simp

/-- Takes a string in single quotes off, whose first quote is read already. -/
def takeLiteral? : List Char → Option (List Char × List Char)
  | [] => none
  | '\'' :: rest => some ([], rest)
  | c :: text =>
    if isPlain c then (takeLiteral? text).map fun (value, rest) => (c :: value, rest) else none

/-! ## Strings over several lines -/

/-- Takes off what may stand between the three quotes that end a string and the text after
it: quotes that are the string's last characters. -/
def takeLastQuotes (quote : Char) (text : List Char) : List Char × List Char :=
  let count := min 2 (text.takeWhile (· == quote)).length
  (text.take count, text.drop count)

/-- The text after a backslash at the end of a line: it goes on with the next character
that is neither a blank nor part of a line break. -/
def afterJoint? (text : List Char) : Option (List Char) :=
  (afterBreak? (skipBlank text)).map skipSpaces
where
  /-- The text without the blanks and line breaks it starts with. -/
  skipSpaces : List Char → List Char
    | '\n' :: rest => skipSpaces rest
    | '\r' :: '\n' :: rest => skipSpaces rest
    | c :: rest => if isBlank c then skipSpaces rest else c :: rest
    | [] => []

theorem length_afterBreak?_lt {text rest : List Char} (h : afterBreak? text = some rest) :
    rest.length < text.length := by
  unfold afterBreak? at h
  split at h
  · cases h
    simp
  · cases h
    simp only [List.length_cons]
    omega
  · cases h

theorem length_skipSpaces_le (text : List Char) :
    (afterJoint?.skipSpaces text).length ≤ text.length := by
  fun_induction afterJoint?.skipSpaces text <;> simp_all <;> omega

theorem length_dropWhile_le (p : Char → Bool) (text : List Char) :
    (text.dropWhile p).length ≤ text.length :=
  (List.dropWhile_suffix p).length_le

theorem length_lt_of_afterJoint? {text rest : List Char} (h : afterJoint? text = some rest) :
    rest.length < text.length := by
  simp only [afterJoint?, Option.map_eq_some_iff] at h
  obtain ⟨joined, hj, rfl⟩ := h
  have h1 := length_afterBreak?_lt hj
  have h2 := length_skipSpaces_le joined
  have h3 := length_dropWhile_le isBlank text
  simp only [skipBlank] at h1
  omega

/-- Takes a string off that runs between three double quotes, the first of which are read
already. -/
def takeLongBasic? : List Char → Option (List Char × List Char)
  | [] => none
  | '"' :: '"' :: '"' :: rest => some (takeLastQuotes '"' rest)
  | '\n' :: text => (takeLongBasic? text).map fun (value, rest) => ('\n' :: value, rest)
  | '\r' :: '\n' :: text => (takeLongBasic? text).map fun (value, rest) => ('\n' :: value, rest)
  | '\\' :: text =>
    match _joined : afterJoint? text with
    | some rest => takeLongBasic? rest
    | none =>
      match _taken : takeEscape? text with
      | none => none
      | some (c, rest) => (takeLongBasic? rest).map fun (value, rest) => (c :: value, rest)
  | c :: text =>
    if isPlain c then (takeLongBasic? text).map fun (value, rest) => (c :: value, rest)
    else none
termination_by text => text.length
decreasing_by
  · simp
  · simp only [List.length_cons]
    omega
  · have := length_lt_of_afterJoint? _joined
    simp only [List.length_cons]
    omega
  · have := length_lt_of_takeEscape? _taken
    simp only [List.length_cons]
    omega
  · simp

/-- Takes a string off that runs between three single quotes, the first of which are read
already. -/
def takeLongLiteral? : List Char → Option (List Char × List Char)
  | [] => none
  | '\'' :: '\'' :: '\'' :: rest => some (takeLastQuotes '\'' rest)
  | '\n' :: text => (takeLongLiteral? text).map fun (value, rest) => ('\n' :: value, rest)
  | '\r' :: '\n' :: text =>
    (takeLongLiteral? text).map fun (value, rest) => ('\n' :: value, rest)
  | c :: text =>
    if isPlain c then (takeLongLiteral? text).map fun (value, rest) => (c :: value, rest)
    else none

/-- The text without the line break it starts with, if there is one. -/
def skipFirstBreak (text : List Char) : List Char :=
  (afterBreak? text).getD text

/-- Takes a string off. -/
def takeString? : List Char → Option (List Char × List Char)
  | '"' :: '"' :: '"' :: text => takeLongBasic? (skipFirstBreak text)
  | '"' :: text => takeBasic? text
  | '\'' :: '\'' :: '\'' :: text => takeLongLiteral? (skipFirstBreak text)
  | '\'' :: text => takeLiteral? text
  | _ => none

end Kerf.Toml
