import Kerf.Xml.Scope

/-!
# Building the tree

A `Builder` takes tags in one after the other and keeps the elements that are open, each
with the namespaces in scope, and the finished ones. Attributes are gathered until a tag
ends: a start tag that its text ends in leaves its attributes to the next tag, be it a
start tag, which takes them for its own, or an end tag, which drops them.
-/

namespace Kerf.Xml

/-- An element whose end tag is still to come. -/
structure Open where
  name : Name
  scope : Scope
  attributes : List Attribute
  /-- The elements inside so far, the last one first. -/
  inside : List Element

/-- The elements that are open, the innermost first, the finished ones outside of all, the
last one first, and the attributes that no tag has taken yet. -/
structure Builder where
  opened : List Open
  roots : List Element
  gathered : Gathered

namespace Builder

/-- Nothing read so far. -/
def start : Builder := ⟨[], [], .nothing⟩

/-- The namespaces in scope. -/
def scope (builder : Builder) : Scope :=
  (builder.opened.head?.map (·.scope)).getD []

/-- Adds a finished element. -/
def add (builder : Builder) (element : Element) : Builder :=
  match builder.opened with
  | [] => { builder with roots := element :: builder.roots }
  | inner :: outer =>
    { builder with opened := { inner with inside := element :: inner.inside } :: outer }

/-- Takes a start tag in, whose attributes have their normal values. -/
def openTag? (builder : Builder) (name : Name) (attributes : List RawAttribute)
    (ending : Ending) : Option Builder := do
  let gathered ← attributes.foldlM Gathered.add? builder.gathered
  let builder := { builder with gathered := gathered }
  if name.space = "xmlns".toList then none
  else if ending = .cut then return builder
  else
    let (scope, attributes) ← gathered.resolve? builder.scope
    let builder := { builder with gathered := .nothing }
    if !scope.admits name then none
    else if ending = .empty then return builder.add (.node name.base attributes [])
    else return { builder with opened := ⟨name, scope, attributes, []⟩ :: builder.opened }

/-- Takes an end tag in, which must match the innermost open element. -/
def closeTag? (builder : Builder) (name : Name) : Option Builder := do
  let _ ← builder.gathered.resolve? builder.scope
  match builder.opened with
  | [] => none
  | inner :: outer =>
    if inner.name = name then
      let builder := { builder with opened := outer, gathered := .nothing }
      return builder.add (.node inner.name.base inner.attributes inner.inside.reverse)
    else none

/-- The root, if every element is finished: the first one outside of all. -/
def root? (builder : Builder) : Option Element :=
  if builder.opened.isEmpty then builder.roots.getLast? else none

end Builder

end Kerf.Xml
