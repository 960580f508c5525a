import Kerf.Toml.Moment
import Kerf.Toml.Number
import Kerf.Toml.Quoted
import Kerf.Toml.Table

/-!
# Documents of TOML

`read?` reads a document into a record. Arrays may run over lines and have a comma at
their end, tables in braces may not. Neither arrays and tables in braces nor the names of
a key may go deeper than a limit.
-/

namespace Kerf.Toml

/-- The depth of arrays and tables in braces, and the number of names of a key. -/
def maxDepth : Nat := 79

/-! ## Keys -/

/-- The characters of names that need no quotes. -/
def isBare (c : Char) : Bool :=
  c.isAlphanum || c == '-' || c == '_'

/-- Takes a name off. -/
def takeName? : List Char → Option (List Char × List Char)
  | '"' :: text => takeBasic? text
  | '\'' :: text => takeLiteral? text
  | text =>
    let name := text.takeWhile isBare
    if name.isEmpty then none else some (name, text.dropWhile isBare)

/-- Takes names with points between them off, of which there may be so many; blanks may
stand around each of them. -/
def takeNames? : (limit : Nat) → List Char → Option (List (List Char) × List Char)
  | 0, _ => none
  | limit + 1, text => do
    let (name, text) ← takeName? (skipBlank text)
    match skipBlank text with
    | '.' :: text =>
      let (names, rest) ← takeNames? limit text
      return (name :: names, rest)
    | rest => return ([name], rest)

/-- Takes a key off. -/
def takeKey? (text : List Char) : Option (Key × List Char) := do
  let (names, rest) ← takeNames? maxDepth text
  let name ← names.getLast?
  return (⟨names.dropLast, name⟩, rest)

/-- Takes a key and the sign after it off. -/
def takeKeyOfEntry? (text : List Char) : Option (Key × List Char) :=
  match takeKey? text with
  | some (key, '=' :: rest) => some (key, skipBlank rest)
  | _ => none

/-! ## Values -/

/-- Takes a value off that has no parts. -/
def takeSimple? (text : List Char) : Option (Datum × List Char) :=
  match text with
  | '"' :: _ | '\'' :: _ => (takeString? text).map fun (value, rest) => (.text value, rest)
  | 't' :: 'r' :: 'u' :: 'e' :: rest => some (.flag true, rest)
  | 'f' :: 'a' :: 'l' :: 's' :: 'e' :: rest => some (.flag false, rest)
  | _ =>
    match takeMoment? text with
    | some (written, rest) => some (.moment written, rest)
    | none => takeNumber? text

mutual

/-- Takes a value off; `depth` says how deep it may go, and `fuel` bounds the number of
its parts. -/
def takeValue? : (fuel depth : Nat) → List Char → Option (Datum × List Char)
  | 0, _, _ => none
  | fuel + 1, depth, '[' :: text =>
    match depth with
    | 0 => none
    | depth + 1 =>
      (takeItems? fuel depth (skipLines text)).map fun (items, rest) => (.sequence items, rest)
  | fuel + 1, depth, '{' :: text =>
    match depth with
    | 0 => none
    | depth + 1 =>
      match skipBlank text with
      | '}' :: rest => some (.record [], rest)
      | text => do
        let (entries, rest) ← takeEntries? fuel depth text
        let datum ← ofStatements? entries
        return (datum, rest)
  | _ + 1, _, text => takeSimple? text

/-- Takes the items of an array off, with the bracket after them. -/
def takeItems? : (fuel depth : Nat) → List Char → Option (List Datum × List Char)
  | 0, _, _ => none
  | _ + 1, _, ']' :: rest => some ([], rest)
  | fuel + 1, depth, text => do
    let (item, text) ← takeValue? fuel depth text
    match skipLines text with
    | ',' :: text =>
      let (items, rest) ← takeItems? fuel depth (skipLines text)
      return (item :: items, rest)
    | ']' :: rest => return ([item], rest)
    | _ => none

/-- Takes the entries of a table in braces off, with the brace after them. -/
def takeEntries? : (fuel depth : Nat) → List Char → Option (List Statement × List Char)
  | 0, _, _ => none
  | fuel + 1, depth, text => do
    let (key, text) ← takeKeyOfEntry? text
    let (value, text) ← takeValue? fuel depth text
    match skipBlank text with
    | ',' :: text =>
      let (entries, rest) ← takeEntries? fuel depth text
      return (.entry key value :: entries, rest)
    | '}' :: rest => return ([.entry key value], rest)
    | _ => none

end

/-! ## Documents -/

/-- Takes a statement off, without the end of its line. -/
def takeStatement? : List Char → Option (Statement × List Char)
  | '[' :: '[' :: text =>
    match takeKey? text with
    | some (key, ']' :: ']' :: rest) => some (.item key, rest)
    | _ => none
  | '[' :: text =>
    match takeKey? text with
    | some (key, ']' :: rest) => some (.table key, rest)
    | _ => none
  | text => do
    let (key, text) ← takeKeyOfEntry? text
    let (value, rest) ← takeValue? (text.length + 1) maxDepth text
    return (.entry key value, rest)

/-- Reads statements, each on lines of its own; `fuel` bounds their number. -/
def statements? : (fuel : Nat) → List Char → Option (List Statement)
  | 0, _ => none
  | fuel + 1, text =>
    match skipLines text with
    | [] => some []
    | text => do
      let (statement, text) ← takeStatement? text
      let rest ← takeLineEnd? text
      let statements ← statements? fuel rest
      return statement :: statements

/-- The text without the byte order mark it starts with, if there is one. -/
def skipMark : List Char → List Char
  | '\uFEFF' :: text => text
  | text => text

/-- Reads a document. -/
def read? (text : List Char) : Option Datum :=
  statements? (text.length + 1) (skipMark text) >>= ofStatements?

end Kerf.Toml
