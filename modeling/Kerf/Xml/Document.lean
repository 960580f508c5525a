import Kerf.Xml.Builder
import Kerf.Xml.Expansion

/-!
# Documents

`read?` reads a document as the tree of its elements, or says nothing if it is not
well-formed.

The text of an entity is read where it is referred to, and by the same rules as the
document's own text. It may open elements that stay open after it, and close one that was
opened before it, but no more than one: each text is read up to the first end tag for
which it has no start tag of its own. In an entity what follows is passed over; in the
document only comments, instructions and blanks may follow.
-/

namespace Kerf.Xml

/-- Reads a start tag whose attributes are brought into their normal form. -/
def readStart (value : List Char → Budget (List Char)) (name : Name)
    (attributes : List RawAttribute) (ending : Ending) (builder : Builder) :
    Budget Builder := do
  let attributes ← attributes.mapM fun raw => do
    return { raw with value := ← value raw.value }
  builder.openTag? name attributes ending

/-- Reads content until its text ends, or an end tag comes for which the text has no start
tag, and gives what follows. `inside` is what reading the text of an entity does. `opened`
counts the start tags of the text whose end tags are still to come, and `named` tells
whether there was one at all, before which no end tag may come. `fuel` bounds the number
of pieces. -/
def contentWith (value : List Char → Budget (List Char))
    (inside : List Char → Builder → Budget Builder) :
    (fuel opened : Nat) → (named : Bool) → List Char → Builder → Budget (Builder × List Char)
  | _, _, _, [], builder => pure (builder, [])
  | 0, _, _, _ :: _, _ => failure
  | fuel + 1, opened, named, text, builder => do
    let (token, rest) ← takeToken? text
    match token with
    | .text names =>
      let builder ← names.foldlM (fun builder name => inside name builder) builder
      contentWith value inside fuel opened named rest builder
    | .start name attributes ending =>
      let builder ← readStart value name attributes ending builder
      let opened := if ending = .opened then opened + 1 else opened
      contentWith value inside fuel opened true rest builder
    | .finish name =>
      if named then
        let builder ← builder.closeTag? name
        match opened with
        | 0 => return (builder, rest)
        | opened + 1 => contentWith value inside fuel opened named rest builder
      else failure

/-- Reads content in which references may nest `levels` deep. -/
def content (entities : List Entity) :
    (levels : Nat) → (named : Bool) → List Char → Builder → Budget (Builder × List Char)
  | 0, named, text, builder =>
    contentWith (attributeValue entities 0) (fun _ _ => failure) text.length 0 named text
      builder
  | levels + 1, named, text, builder =>
    let inside (name : List Char) (builder : Builder) : Budget Builder :=
      follow entities (levels + 1) name fun value => do
        let (builder, _) ← content entities levels false value builder
        return builder
    contentWith (attributeValue entities (levels + 1)) inside text.length 0 named text builder

/-- Reads the element that a text starts with, and gives what follows. -/
def rootElement (entities : List Entity) (text : List Char) : Budget (Builder × List Char) := do
  match ← takeToken? text with
  | (.start name attributes ending, rest) =>
    let builder ← readStart (attributeValue entities maxLevels) name attributes ending .start
    if ending = .opened then content entities maxLevels true rest builder
    else return (builder, rest)
  | _ => failure

/-- Reads a document as the tree of its elements. -/
def read? (text : List Char) : Option Element := do
  let (entities, text) ← prolog? text
  let (builder, rest) ← (rootElement entities text).run' 0
  if (← afterMisc? rest.length rest).isEmpty then builder.root? else none

end Kerf.Xml
