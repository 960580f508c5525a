import Kerf.Data.Datum

/-!
# Layouts of records

How a structure is laid out as a record is said once, as a list of fields in order
(`Field`); writing and reading both follow from it. A record is read starting from a
default: members that are not there keep it, and members that no field has are passed
over, but a field may not be there twice. A sequence in the place of a record gives the
fields in order. A moment in the place of a record gives none.
-/

namespace Kerf.Data

/-- A field of a structure: its name in records, how it is taken out as a datum, and how
it is replaced by a datum, if the datum fits. -/
structure Field (σ : Type) where
  name : String
  get : σ → Datum
  set? : σ → Datum → Option σ

variable {σ : Type}

/-- A field whose values are held by data in a way of their own. -/
def Field.of {β : Type} (name : String) (encode : β → Datum) (decode? : Datum → Option β)
    (get : σ → β) (set : σ → β → σ) : Field σ where
  name := name
  get value := encode (get value)
  set? value datum := (decode? datum).map (set value)

/-- A field that holds a truth value. -/
def Field.flag (name : String) (get : σ → Bool) (set : σ → Bool → σ) : Field σ :=
  .of name .flag Datum.flag? get set

/-- A field that holds a float. -/
def Field.real (name : String) (get : σ → Float) (set : σ → Float → σ) : Field σ :=
  .of name .real Datum.real? get set

/-- A field that holds a 32-bit number. -/
def Field.word32 (name : String) (get : σ → UInt32) (set : σ → UInt32 → σ) : Field σ :=
  .of name (fun word => .whole word.toNat) Datum.word32? get set

/-- A field that holds a 64-bit number. -/
def Field.word64 (name : String) (get : σ → UInt64) (set : σ → UInt64 → σ) : Field σ :=
  .of name (fun word => .whole word.toNat) Datum.word64? get set

/-- A structure as a record. -/
def write (fields : List (Field σ)) (value : σ) : Datum :=
  .record (fields.map fun field => (field.name.toList, field.get value))

/-- The members of a record that a field has. -/
def ofField (members : List (List Char × Datum)) (field : Field σ) : List Datum :=
  (members.filter fun (name, _) => name == field.name.toList).map (·.2)

/-- Replaces a field by the data that a record has for it: none, or one that fits. -/
def readField (members : List (List Char × Datum)) (value : σ) (field : Field σ) : Option σ :=
  match ofField members field with
  | [] => some value
  | [datum] => field.set? value datum
  | _ => none

/-- Replaces fields by items in their order. -/
def readItems : List (Field σ) → List Datum → σ → Option σ
  | field :: fields, item :: items, value => field.set? value item >>= readItems fields items
  | _, _, value => some value

/-- Reads a structure. Whether items beyond the last field spoil a sequence is for the
format to say. -/
def read? (strict : Bool) (fields : List (Field σ)) (default : σ) : Datum → Option σ
  | .record members => fields.foldlM (readField members) default
  | .sequence items =>
    if strict && fields.length < items.length then none else readItems fields items default
  | .moment _ => some default
  | _ => none

end Kerf.Data
