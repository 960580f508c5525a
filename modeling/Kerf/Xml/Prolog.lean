import Kerf.Xml.Markup

/-!
# Prologs

What stands before the root element: a byte order mark, the declaration, comments and
instructions, and the document type. Of all this the document's content needs the internal
entities alone, so `prolog?` gives those and the rest of the text.
-/

namespace Kerf.Xml

/-- An internal entity and the text it stands for. -/
structure Entity where
  name : List Char
  value : List Char
  deriving DecidableEq, Repr

/-- The text after a blank and all blanks that follow it. -/
def afterSpace? : List Char → Option (List Char)
  | [] => none
  | c :: text => if isSpace c then some (skipSpace text) else none

/-! ## The declaration -/

/-- The text after an attribute of the declaration; unless the declaration ends there, a
blank must follow. -/
def afterDeclared? (text : List Char) : Option (List Char) := do
  let (_, text) ← takeAttribute? text
  if text.isEmpty || (Text.after? "?>".toList text).isSome then some text else afterSpace? text

/-- The text after an attribute of the declaration if one with such a name comes next. -/
def afterOptional? (name : String) (text : List Char) : Option (List Char) :=
  if (Text.after? name.toList text).isSome then afterDeclared? text else some text

/-- The text after the declaration, if there is one. -/
def afterDeclaration? (text : List Char) : Option (List Char) :=
  match Text.after? "<?xml ".toList text with
  | none => some text
  | some text => do
    let text := skipSpace text
    if (Text.after? "version".toList text).isNone then none
    else
      let text ← afterDeclared? text
      let text ← afterOptional? "encoding" text
      let text ← if (Text.after? "standalone".toList text).isSome then
          (takeAttribute? text).map (·.2)
        else some text
      Text.after? "?>".toList (skipSpace text)

/-! ## Comments and instructions -/

/-- The text after blanks, comments and instructions; `fuel` bounds their number. -/
def afterMisc? : (fuel : Nat) → List Char → Option (List Char)
  | 0, text => some text
  | fuel + 1, text =>
    let text := skipSpace text
    match Text.after? "<!--".toList text, Text.after? "<?".toList text with
    | some text, _ => afterComment? text >>= afterMisc? fuel
    | none, some text => afterInstruction? text >>= afterMisc? fuel
    | none, none => some text

/-! ## The document type -/

/-- The text after an external identifier, if one comes next. -/
def afterExternal? (text : List Char) : Option (List Char) :=
  let quoted (text : List Char) : Option (List Char) := do
    let (_, rest) ← takeQuoted? (← afterSpace? text)
    return rest
  match Text.after? "SYSTEM".toList text, Text.after? "PUBLIC".toList text with
  | some text, _ => quoted text
  | none, some text => quoted text >>= quoted
  | none, none => some text

/-- The text after the notation of an unparsed entity, if one comes next. -/
def afterNotation? (text : List Char) : Option (List Char) :=
  match Text.after? "NDATA".toList (skipSpace text) with
  | none => some text
  | some text => do
    let text ← afterSpace? text
    let (_, rest) ← takeName? text
    return rest

/-- Takes an entity declaration off, whose opening mark is read already. An external
entity declares nothing that can be referred to. Any characters may stand in the text of
an entity: it is looked at where it is used. -/
def takeEntity? (text : List Char) : Option (Option Entity × List Char) := do
  let text ← afterSpace? text
  let (general, text) ← match text with
    | '%' :: text => (afterSpace? text).map fun text => (false, text)
    | text => some (true, text)
  let (name, text) ← takeName? text
  let text ← afterSpace? text
  let (entity, text) ← match takeQuoted? text with
    | some (value, text) => some (some ⟨name, value⟩, text)
    | none => do
      let rest ← afterExternal? text
      if rest.length < text.length then
        let rest ← if general then afterNotation? rest else some rest
        pure (none, rest)
      else none
  match skipSpace text with
  | '>' :: rest => return (entity, rest)
  | _ => none

/-- Whether a declaration that is passed over comes next. -/
def startsOther (text : List Char) : Bool :=
  ["<!ELEMENT", "<!ATTLIST", "<!NOTATION"].any fun mark => (Text.after? mark.toList text).isSome

/-- The declarations up to the closing bracket; `fuel` bounds their number. -/
def takeDeclarations? : (fuel : Nat) → List Char → Option (List Entity × List Char)
  | 0, _ => none
  | fuel + 1, text => do
    let text := skipSpace text
    if let some text := Text.after? "<!ENTITY".toList text then
      let (entity, text) ← takeEntity? text
      let (entities, rest) ← takeDeclarations? fuel text
      return (entity.toList ++ entities, rest)
    else if let some text := Text.after? "<!--".toList text then
      afterComment? text >>= takeDeclarations? fuel
    else if let some text := Text.after? "<?".toList text then
      afterInstruction? text >>= takeDeclarations? fuel
    else if let some text := Text.after? "]".toList text then
      let rest ← Text.after? ">".toList (skipSpace text)
      return ([], rest)
    else if startsOther text then
      match text.dropWhile fun c => c != '>' with
      | [] => none
      | _ :: text => takeDeclarations? fuel text
    else none

/-- Takes the document type off, if there is one. -/
def takeDoctype? (text : List Char) : Option (List Entity × List Char) :=
  match Text.after? "<!DOCTYPE".toList text with
  | none => some ([], text)
  | some text => do
    let text ← afterSpace? text
    let (_, text) ← takeName? text
    let text ← afterExternal? (skipSpace text)
    match skipSpace text with
    | '>' :: rest => return ([], rest)
    | '[' :: text => takeDeclarations? (text.length + 1) text
    | _ => none

/-- A text without the byte order mark it may start with. -/
def dropByteOrderMark : List Char → List Char
  | '\uFEFF' :: text => text
  | text => text

/-- The entities of a prolog, and the text after it. -/
def prolog? (text : List Char) : Option (List Entity × List Char) := do
  let text ← afterDeclaration? (dropByteOrderMark text)
  let text ← afterMisc? text.length text
  let (entities, text) ← takeDoctype? text
  let rest ← afterMisc? text.length text
  return (entities, rest)

end Kerf.Xml
