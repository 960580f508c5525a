import Kerf.Xml.Prolog

/-!
# Expansion of entities

`follow` goes from a reference to the text of its entity; the first declaration of a name
counts. `attributeValue` brings the value of an attribute into its normal form, in which
nothing is left to follow.

References inside of entities are bounded, which ends every loop: `levels` is how deep
they may nest, and `Budget` counts them from one reference of the document's own text to
the next.
-/

namespace Kerf.Xml

/-- How deep references may nest. -/
def maxLevels : Nat := 10

/-- How many references may stand inside of the entities that one reference leads to. -/
def maxNested : Nat := 255

/-- A result with the number of nested references met so far, or nothing if they are too many or
something else is amiss. -/
abbrev Budget (β : Type) := StateT Nat Option β

/-- The text of an entity. -/
def entityValue? (entities : List Entity) (name : List Char) : Option (List Char) :=
  (entities.find? fun entity => entity.name == name).map (·.value)

/-- Follows a reference that may nest `levels` deeper: what is done with the entity's text
is counted as nested, and at the outermost level the count starts anew. -/
def follow {β : Type} (entities : List Entity) (levels : Nat) (name : List Char)
    (inside : List Char → Budget β) : Budget β := do
  let value ← entityValue? entities name
  if levels = maxLevels then
    set 0
    let result ← inside value
    set 0
    return result
  else
    let count ← get
    if count < maxNested then
      set (count + 1)
      inside value
    else failure

/-! ## Attribute values -/

/-- A run of an attribute's text: each blank becomes a space, the two characters that end
a line one. -/
def normalBlanks : List Char → List Char
  | '\r' :: '\n' :: text => ' ' :: normalBlanks text
  | c :: text => (if isSpace c then ' ' else c) :: normalBlanks text
  | [] => []

/-- The parts of an attribute's value: plain runs and references; `fuel` bounds its length. -/
def valueParts? : (fuel : Nat) → List Char → Option (List (Reference ⊕ List Char))
  | _, [] => some []
  | 0, _ :: _ => none
  | fuel + 1, '&' :: text => do
    let (reference, rest) ← takeReference? text
    let parts ← valueParts? fuel rest
    return .inl reference :: parts
  | fuel + 1, text => do
    let parts ← valueParts? fuel (text.dropWhile fun c => c != '&')
    return .inr (text.takeWhile fun c => c != '&') :: parts

/-- The value of an attribute. A character reference is taken as it is in a document's own
text; in an entity it is blank where it stands for a blank, and must not open a tag. -/
def attributeValue (entities : List Entity) : (levels : Nat) → List Char → Budget (List Char)
  | levels, raw => do
    let parts ← valueParts? raw.length raw
    let values ← parts.mapM fun part =>
      match part, levels with
      | .inr run, _ => pure (normalBlanks run)
      | .inl (.character c), levels =>
        if levels = maxLevels then pure [c]
        else if c = '<' then failure
        else pure (normalBlanks [c])
      | .inl (.entity _), 0 => failure
      | .inl (.entity name), levels + 1 =>
        follow entities (levels + 1) name (attributeValue entities levels)
    return values.flatten

end Kerf.Xml
