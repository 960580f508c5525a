import Kerf.Text.Blank
import Kerf.Text.Radix
import Kerf.Xml.Character

/-!
# Markup

The content of a document is made of tags and text, and `takeToken?` takes one piece of it
off. Of a text between tags the names of the entities are kept that it refers to;
comments, instructions and marked text are checked and dropped. Nothing is looked up here:
an attribute's value is kept as it is written, and tags need not match; later stages see
to that.

Each reader takes one thing off the front of a text and gives the rest.
-/

namespace Kerf.Xml

/-- A name with the prefix before its colon; without a colon the prefix is empty. -/
structure Name where
  space : List Char
  base : List Char
  deriving DecidableEq, Repr

/-- An attribute as it is written in a tag. -/
structure RawAttribute where
  name : Name
  value : List Char
  deriving DecidableEq, Repr

/-- How a start tag ends: its element is empty, or has content that follows, or the text
ends before the tag does. -/
inductive Ending where
  | empty
  | opened
  | cut
  deriving DecidableEq, Repr

/-- A piece of content. -/
inductive Token where
  | start (name : Name) (attributes : List RawAttribute) (ending : Ending)
  | finish (name : Name)
  /-- Anything else, with the entities it refers to. -/
  | text (entities : List (List Char))
  deriving DecidableEq, Repr

/-! ## Names and quoted values -/

/-- Takes a name off, colons counting as letters. -/
def takeName? : List Char → Option (List Char × List Char)
  | [] => none
  | c :: text =>
    if isNameStart c then some (c :: text.takeWhile isNameChar, text.dropWhile isNameChar)
    else none

/-- Splits a name at its colon; a second colon, or a part that is not a name, spoils it. -/
def splitName? (name : List Char) : Option Name :=
  let isColon (c : Char) : Bool := c == ':'
  let startsWell (part : List Char) : Bool := (part.head?.map isNameStart).getD false
  let before := name.takeWhile (fun c => !isColon c)
  match name.dropWhile (fun c => !isColon c) with
  | [] => if startsWell before then some ⟨[], before⟩ else none
  | _ :: after =>
    if after.any isColon || !startsWell after || !(before.isEmpty || startsWell before) then
      none
    else some ⟨before, after⟩

/-- Takes a name with an optional prefix off. -/
def takeQualifiedName? (text : List Char) : Option (Name × List Char) :=
  (splitName? (text.takeWhile isNameChar)).map fun name => (name, text.dropWhile isNameChar)

/-- Takes a quoted text off. -/
def takeQuoted? : List Char → Option (List Char × List Char)
  | [] => none
  | quote :: text =>
    if quote = '"' ∨ quote = '\'' then
      match text.dropWhile fun c => c != quote with
      | [] => none
      | _ :: rest => some (text.takeWhile fun c => c != quote, rest)
    else none

/-- Takes an attribute off; its value is of allowed characters and does not open a tag. -/
def takeAttribute? (text : List Char) : Option (RawAttribute × List Char) := do
  let (name, text) ← takeQualifiedName? text
  match skipSpace text with
  | '=' :: text =>
    let (value, text) ← takeQuoted? (skipSpace text)
    if value.all fun c => isAllowed c && c != '<' then return (⟨name, value⟩, text) else none
  | _ => none

/-! ## Comments, instructions and marked text -/

/-- Splits a text at the first place where a mark stands. -/
def splitAt? (mark : List Char) : List Char → Option (List Char × List Char)
  | [] => if mark.isEmpty then some ([], []) else none
  | c :: text =>
    match Text.after? mark (c :: text) with
    | some rest => some ([], rest)
    | none => (splitAt? mark text).map fun (before, rest) => (c :: before, rest)

/-- Whether a mark stands somewhere in a text. -/
def holds (mark text : List Char) : Bool :=
  (splitAt? mark text).isSome

/-- Splits a text of allowed characters at a mark. -/
def takeAllowed? (mark text : List Char) : Option (List Char × List Char) := do
  let (before, rest) ← splitAt? mark text
  if before.all isAllowed then some (before, rest) else none

/-- The text after a comment, whose opening mark is read already. -/
def afterComment? (text : List Char) : Option (List Char) := do
  let (comment, rest) ← takeAllowed? "-->".toList text
  if holds "--".toList comment || comment.getLast? == some '-' then none else some rest

/-- The text after an instruction, whose opening mark is read already. The name `xml` with
a space after it is kept for the declaration at the start of a document. -/
def afterInstruction? (text : List Char) : Option (List Char) := do
  if (Text.after? "xml ".toList text).isSome then none
  else
    let (_, text) ← takeName? text
    let (_, rest) ← takeAllowed? "?>".toList (skipSpace text)
    return rest

/-! ## Tags -/

/-- Takes the rest of a start tag off, from the end of its name; `fuel` bounds the number of
attributes. The text may end right after the name or an attribute. -/
def takeAttributes? : (fuel : Nat) → List Char → Option (List RawAttribute × Ending × List Char)
  | 0, _ => none
  | _ + 1, [] => some ([], .cut, [])
  | fuel + 1, text =>
    match skipSpace text with
    | '/' :: '>' :: rest => some ([], .empty, rest)
    | '>' :: rest => some ([], .opened, rest)
    | rest =>
      if rest.length < text.length then do
        let (first, rest) ← takeAttribute? rest
        let (others, ending, rest) ← takeAttributes? fuel rest
        return (first :: others, ending, rest)
    else none

/-- Takes a start tag off, whose opening mark is read already. -/
def takeStart? (text : List Char) : Option (Token × List Char) := do
  let (name, text) ← takeQualifiedName? text
  let (attributes, ending, rest) ← takeAttributes? (text.length + 1) text
  return (.start name attributes ending, rest)

/-- Takes an end tag off, whose opening mark is read already. -/
def takeFinish? (text : List Char) : Option (Token × List Char) := do
  let (name, text) ← takeQualifiedName? text
  match skipSpace text with
  | '>' :: rest => return (.finish name, rest)
  | _ => none

/-! ## References -/

/-- What a reference stands for. -/
inductive Reference where
  | character (c : Char)
  | entity (name : List Char)
  deriving DecidableEq, Repr

/-- The value of a run of digits in a base, if it fits in 32 bits. -/
def codePoint? (base : Nat) (digits : List Char) : Option Nat :=
  let n := Text.valueIn base digits
  if digits.isEmpty || Nat.pow 2 32 ≤ n then none else some n

/-- The character with a code point; what is no character is replaced, and it must be
allowed. -/
def characterAt? (n : Nat) : Option Char :=
  let c := if n.isValidChar then Char.ofNat n else '\uFFFD'
  if isAllowed c then some c else none

/-- Takes a reference off, whose ampersand is read already. -/
def takeReference? (text : List Char) : Option (Reference × List Char) := do
  let (reference, text) ← match text with
    | '#' :: 'x' :: text => do
      let c ← codePoint? 16 (text.takeWhile (Text.isDigitIn 16)) >>= characterAt?
      pure (Reference.character c, text.dropWhile (Text.isDigitIn 16))
    | '#' :: text => do
      let c ← codePoint? 10 (text.takeWhile Char.isDigit) >>= characterAt?
      pure (Reference.character c, text.dropWhile Char.isDigit)
    | text => do
      let (name, text) ← takeName? text
      let reference :=
        if name = "quot".toList then Reference.character '"'
        else if name = "amp".toList then Reference.character '&'
        else if name = "apos".toList then Reference.character '\''
        else if name = "lt".toList then Reference.character '<'
        else if name = "gt".toList then Reference.character '>'
        else Reference.entity name
      pure (reference, text)
  match text with
  | ';' :: rest => return (reference, rest)
  | _ => none

/-- The entities that a run of text refers to; `fuel` bounds its length. -/
def entitiesIn? : (fuel : Nat) → List Char → Option (List (List Char))
  | _, [] => some []
  | 0, _ :: _ => none
  | fuel + 1, '&' :: text => do
    let (reference, rest) ← takeReference? text
    let names ← entitiesIn? fuel rest
    match reference with
    | .character _ => return names
    | .entity name => return name :: names
  | fuel + 1, _ :: text => entitiesIn? fuel text

/-! ## Content -/

/-- Takes one piece of content off. -/
def takeToken? (text : List Char) : Option (Token × List Char) :=
  match text with
  | '<' :: '!' :: text =>
    match Text.after? "--".toList text, Text.after? "[CDATA[".toList text with
    | some text, _ => (afterComment? text).map fun rest => (.text [], rest)
    | none, some text => (takeAllowed? "]]>".toList text).map fun (_, rest) => (.text [], rest)
    | none, none => none
  | '<' :: '?' :: text => (afterInstruction? text).map fun rest => (.text [], rest)
  | '<' :: '/' :: text => takeFinish? text
  | '<' :: text => takeStart? text
  | text =>
    let run := text.takeWhile fun c => c != '<'
    if run.all isAllowed && !holds "]]>".toList run then
      (entitiesIn? run.length run).map fun names =>
        (.text names, text.dropWhile fun c => c != '<')
    else none

end Kerf.Xml
