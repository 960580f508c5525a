import Kerf.Xml.Element
import Kerf.Xml.Markup

/-!
# Namespaces

A prefix stands for a namespace inside of the element whose tag declares it. Prefixes
matter for two things only: each must be declared, and no two attributes of a tag may be
the same once their prefixes are resolved. After that an attribute is known by its local
name. A default namespace changes neither, so it is checked and dropped.
-/

namespace Kerf.Xml

/-- The namespace of the prefix `xml`. -/
def xmlNamespace : List Char := "http://www.w3.org/XML/1998/namespace".toList

/-- The namespace of the prefix `xmlns`. -/
def xmlnsNamespace : List Char := "http://www.w3.org/2000/xmlns/".toList

/-- Declared prefixes with their namespaces, the inner ones first. -/
abbrev Scope := List (List Char × List Char)

namespace Scope

/-- Whether a tag with a name may stand in a scope. -/
def admits (scope : Scope) (name : Name) : Bool :=
  name.space.isEmpty || (scope.lookup name.space).isSome

/-- The namespace and local name of an attribute: without a prefix it is in no namespace,
and the prefix `xml` needs no declaration. -/
def expandedName? (scope : Scope) (name : Name) : Option (Option (List Char) × List Char) :=
  if name.space.isEmpty then some (none, name.base)
  else if name.space = "xml".toList then some (some xmlNamespace, name.base)
  else (scope.lookup name.space).map fun namespace_ => (some namespace_, name.base)

end Scope

/-- Whether no element of a list is there twice. -/
def allDistinct {β : Type} [DecidableEq β] : List β → Bool
  | [] => true
  | b :: rest => !rest.contains b && allDistinct rest

/-! ## The attributes of a tag -/

/-- Attributes that have been read: the namespaces that they declare, and those that
declare none, in the order they are written. -/
structure Gathered where
  scope : Scope
  plain : List RawAttribute

namespace Gathered

/-- No attributes. -/
def nothing : Gathered := ⟨[], []⟩

/-- Adds an attribute. The two reserved namespaces and the prefix `xml` cannot be declared
to be anything else, and no prefix can be declared twice. -/
def add? (gathered : Gathered) (raw : RawAttribute) : Option Gathered :=
  let ⟨name, value⟩ := raw
  if name.space = "xmlns".toList then
    if value = xmlnsNamespace then none
    else if (name.base = "xml".toList) ≠ (value = xmlNamespace) then none
    else if (gathered.scope.lookup name.base).isSome then none
    else if value = xmlNamespace then some gathered
    else some { gathered with scope := (name.base, value) :: gathered.scope }
  else if name.base = "xmlns".toList then
    if value = xmlNamespace ∨ value = xmlnsNamespace then none else some gathered
  else some { gathered with plain := gathered.plain ++ [raw] }

/-- The scope that a tag with these attributes opens inside of another one, and its
attributes under their local names, if all prefixes are declared and no two attributes are
the same. -/
def resolve? (gathered : Gathered) (outer : Scope) : Option (Scope × List Attribute) := do
  let scope := gathered.scope ++ outer
  let expanded ← gathered.plain.mapM fun raw => scope.expandedName? raw.name
  if allDistinct expanded then
    return (scope, gathered.plain.map fun raw => ⟨raw.name.base, raw.value⟩)
  else none

end Gathered

end Kerf.Xml
