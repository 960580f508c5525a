import Kerf.Data.Layout

/-!
# Records with one member for each field

If no two fields have the same name, a record with one member for each field is read by
replacing each field by the datum of its member (`read?_members`). Nothing of the default
is left then but what no field replaces.
-/

namespace Kerf.Data

variable {σ : Type} {fields : List (Field σ)} {datum : Field σ → Datum}

/-- Members for all fields, by what they hold. -/
def membersOf (fields : List (Field σ)) (datum : Field σ → Datum) : List (List Char × Datum) :=
  fields.map fun field => (field.name.toList, datum field)

theorem membersOf_fst : (membersOf fields datum).map Prod.fst = fields.map (·.name.toList) := by
  rw [membersOf, List.map_map]
  rfl

/-- Without a field of that name, a record has no member for it. -/
theorem ofField_eq_nil {field : Field σ} (h : field.name.toList ∉ fields.map (·.name.toList)) :
    ofField (membersOf fields datum) field = [] := by
  unfold ofField
  rw [List.map_eq_nil_iff, List.filter_eq_nil_iff]
  intro member hmember hname
  rw [beq_iff_eq] at hname
  have hfirst : member.1 ∈ (membersOf fields datum).map Prod.fst := List.mem_map_of_mem hmember
  rw [membersOf_fst, hname] at hfirst
  exact h hfirst

/-- A field has the one member that is for it. -/
theorem ofField_membersOf (hnodup : (fields.map (·.name.toList)).Nodup) {field : Field σ}
    (hfield : field ∈ fields) : ofField (membersOf fields datum) field = [datum field] := by
  induction fields with
  | nil => cases hfield
  | cons first fields ih =>
    rw [List.map_cons, List.nodup_cons] at hnodup
    -- the member of the first field stands in front
    have hcons : membersOf (first :: fields) datum =
        (first.name.toList, datum first) :: membersOf fields datum := rfl
    rw [ofField, hcons]
    rcases List.mem_cons.mp hfield with rfl | hfield
    · rw [List.filter_cons_of_pos (by simp), List.map_cons]
      exact congrArg (datum field :: ·) (ofField_eq_nil hnodup.1)
    · have hne : first.name.toList ≠ field.name.toList := by
        intro heq
        exact hnodup.1 (heq ▸ List.mem_map_of_mem hfield)
      rw [List.filter_cons_of_neg (by simpa using hne)]
      exact ih hnodup.2 hfield

/-- Replaces fields one after the other, each by a datum. -/
def replace? (fields : List (Field σ)) (datum : Field σ → Datum) (value : σ) : Option σ :=
  fields.foldlM (fun value field => field.set? value (datum field)) value

theorem replace?_nil (datum : Field σ → Datum) (value : σ) :
    replace? [] datum value = some value := rfl

theorem replace?_cons (field : Field σ) (value : σ) :
    replace? (field :: fields) datum value =
      (field.set? value (datum field)).bind (replace? fields datum) :=
  List.foldlM_cons

theorem foldlM_readField {members : List (List Char × Datum)}
    (h : ∀ field ∈ fields, ofField members field = [datum field]) (value : σ) :
    fields.foldlM (readField members) value = replace? fields datum value := by
  induction fields generalizing value with
  | nil => rfl
  | cons field fields ih =>
    obtain ⟨hfield, hfields⟩ := List.forall_mem_cons.mp h
    have hread : readField members value field = field.set? value (datum field) := by
      rw [readField, hfield]
    rw [List.foldlM_cons, replace?_cons, hread]
    exact congrArg _ (funext fun next => ih hfields next)

/-- **A record with one member for each field** is read by replacing the fields. -/
theorem read?_members (hnodup : (fields.map (·.name.toList)).Nodup) (strict : Bool)
    (default : σ) :
    read? strict fields default (.record (membersOf fields datum)) =
      replace? fields datum default :=
  foldlM_readField (fun _ hfield => ofField_membersOf hnodup hfield) default

end Kerf.Data
