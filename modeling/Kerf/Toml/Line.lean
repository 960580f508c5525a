import Kerf.Text.Words

/-!
# Lines of TOML

What stands between the parts of a document: blanks, comments and line breaks.
`takeLineEnd?` takes off what may follow a statement on its line, and `skipLines` whatever
may stand between the items of an array.
-/

namespace Kerf.Toml

/-- Space and tab. -/
def isBlank (c : Char) : Bool :=
  c == ' ' || c == '\t'

/-- The characters of comments and strings: all but control characters, the tab excepted. -/
def isPlain (c : Char) : Bool :=
  c == '\t' || (0x20 ≤ c.toNat && c.toNat != 0x7F)

/-- The text without the blanks it starts with. -/
def skipBlank (text : List Char) : List Char :=
  text.dropWhile isBlank

/-- The text after a line break: a line feed that may have a carriage return before it. -/
def afterBreak? : List Char → Option (List Char)
  | '\n' :: rest => some rest
  | '\r' :: '\n' :: rest => some rest
  | _ => none

/-- The text without the comment it starts with, if there is one. -/
def skipComment : List Char → List Char
  | '#' :: text => text.dropWhile isPlain
  | text => text

/-- Takes the end of a line off: blanks, a comment, and a line break unless the text ends. -/
def takeLineEnd? (text : List Char) : Option (List Char) :=
  match skipComment (skipBlank text) with
  | [] => some []
  | text => afterBreak? text

/-- The text without the blanks, comments and line breaks it starts with; it may start
inside of a comment. -/
def skipLinesFrom (inComment : Bool) : List Char → List Char
  | [] => []
  | '\n' :: rest => skipLinesFrom false rest
  | '\r' :: '\n' :: rest => skipLinesFrom false rest
  | c :: rest =>
    if inComment then if isPlain c then skipLinesFrom true rest else c :: rest
    else if isBlank c then skipLinesFrom false rest
    else if c = '#' then skipLinesFrom true rest
    else c :: rest

/-- The text without the blanks, comments and line breaks it starts with. -/
def skipLines (text : List Char) : List Char :=
  skipLinesFrom false text

end Kerf.Toml
