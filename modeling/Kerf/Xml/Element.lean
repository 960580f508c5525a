/-!
# Elements

The part of a document that drawings are read from: a tree of elements with attributes. A
name is kept as its local part, as it is written. Text, comments and instructions are not
kept.
-/

namespace Kerf.Xml

/-- An attribute of an element. -/
structure Attribute where
  name : List Char
  value : List Char
  deriving DecidableEq, Repr

/-- An element with its attributes and the elements inside it. -/
inductive Element where
  | node (tag : List Char) (attributes : List Attribute) (children : List Element)
  deriving Repr

namespace Element

/-- The local name of an element. -/
def tag : Element → List Char
  | node tag _ _ => tag

/-- The attributes of an element in the order they are written. -/
def attributes : Element → List Attribute
  | node _ attributes _ => attributes

/-- The elements directly inside an element. -/
def children : Element → List Element
  | node _ _ children => children

/-- The value of the first attribute with a local name. -/
def attribute? (element : Element) (name : String) : Option (List Char) :=
  (element.attributes.find? fun entry => entry.name == name.toList).map (·.value)

/-! ## Equality -/

mutual

/-- Elements are compared by their tags, their attributes and what is inside of them. -/
def decEq : (a b : Element) → Decidable (a = b)
  | node tag attributes children, node otherTag otherAttributes otherChildren =>
    if h : tag = otherTag ∧ attributes = otherAttributes then
      match decEqAll children otherChildren with
      | isTrue hchildren => isTrue (by rw [h.1, h.2, hchildren])
      | isFalse hchildren => isFalse fun heq => hchildren (node.inj heq).2.2
    else isFalse fun heq => h ⟨(node.inj heq).1, (node.inj heq).2.1⟩

/-- Lists of elements are compared one by one. -/
def decEqAll : (a b : List Element) → Decidable (a = b)
  | [], [] => isTrue rfl
  | [], _ :: _ | _ :: _, [] => isFalse (by rintro ⟨⟩)
  | a :: as, b :: bs =>
    match decEq a b, decEqAll as bs with
    | isTrue hfirst, isTrue hrest => isTrue (by rw [hfirst, hrest])
    | isFalse hfirst, _ => isFalse fun heq => hfirst (List.cons.inj heq).1
    | _, isFalse hrest => isFalse fun heq => hrest (List.cons.inj heq).2

end

instance : DecidableEq Element := decEq

end Element

end Kerf.Xml
