import Kerf.Proofs.Configuration.Storage
import Kerf.Proofs.Data.Layout
import Kerf.Proofs.Json.Reading
import Kerf.Proofs.Toml.Document

/-!
# Configurations are read back

A configuration that makes sense is written as truth values, whole numbers below the limit
of words and finite floats (`Datum.IsStored`), in records whose names are plain in both
formats. So its text is read as the datum it was written from, with each float as the
format reads it (`json_read?_write`, `toml_read?_of_write?`), and that datum is read as
the configuration of these floats (`read?_write_withReals`, `IsReadAs`).

TOML reads every float as the one that was written, JSON need not
(`not_forall_load_eq_saved`). `save_load_round_trip` says what this makes of files: what a
save that fails before it touches any file leaves, and what is loaded after one that does
not fail.
-/

namespace Kerf

/-! ## What is read -/

/-- A setup is read as another one: each float as what `f` gives for it, and all else as
it is. -/
structure Setup.IsReadAs (f : Float → Option Float) (setup read : Setup Float) : Prop where
  cutFeed : f setup.cutFeed = some read.cutFeed
  rapidFeed : f setup.rapidFeed = some read.rapidFeed
  power : read.power = setup.power
  safeHeight : f setup.safeHeight = some read.safeHeight
  workHeight : f setup.workHeight = some read.workHeight
  laser : read.laser = setup.laser
  comments : read.comments = setup.comments
  scale : f setup.scale = some read.scale
  x : f setup.offset.x = some read.offset.x
  y : f setup.offset.y = some read.offset.y
  places : read.places = setup.places

namespace Configuration

/-- A configuration is read as another one. -/
structure IsReadAs (f : Float → Option Float) (configuration read : Configuration) : Prop where
  setup : configuration.setup.IsReadAs f read.setup
  fineness : read.fineness = configuration.fineness

variable {configuration read : Configuration}

theorem isReadAs_some_iff : configuration.IsReadAs some read ↔ read = configuration := by
  constructor
  · rintro ⟨h, hfineness⟩
    obtain ⟨⟨_, _, _, _, _, _, _, _, ⟨_, _⟩, _⟩, _⟩ := read
    obtain ⟨⟨_, _, _, _, _, _, _, _, ⟨_, _⟩, _⟩, _⟩ := configuration
    cases h
    simp_all
  · rintro rfl
    exact ⟨⟨rfl, rfl, rfl, rfl, rfl, rfl, rfl, rfl, rfl, rfl, rfl⟩, rfl⟩

end Configuration

/-! ## Data of configurations -/

namespace Datum

theorem word32?_toNat (n : UInt32) : word32? (.whole n.toNat) = some n := by
  have hlimit : n.toNat < Nat.pow 2 32 := n.toNat_lt
  show (if n.toNat < Nat.pow 2 32 then some n.toNat else none).map UInt32.ofNat = some n
  rw [if_pos hlimit, Option.map_some, UInt32.ofNat_toNat]

theorem word64?_toNat (n : UInt64) : word64? (.whole n.toNat) = some n := by
  have hlimit : n.toNat < Nat.pow 2 64 := n.toNat_lt
  show (if n.toNat < Nat.pow 2 64 then some n.toNat else none).map UInt64.ofNat = some n
  rw [if_pos hlimit, Option.map_some, UInt64.ofNat_toNat]

mutual

/-- A datum with other data in the place of its floats and of the floats in its members. -/
def withReals (f : Float → Datum) : Datum → Datum
  | .real x => f x
  | .record members => .record (membersWithReals f members)
  | datum => datum

/-- Members with other data in the place of their floats. -/
def membersWithReals (f : Float → Datum) : List (List Char × Datum) → List (List Char × Datum)
  | [] => []
  | (name, datum) :: members => (name, withReals f datum) :: membersWithReals f members

end

mutual

theorem withReals_real : ∀ datum : Datum, datum.withReals .real = datum
  | .real _ => rfl
  | .record members => congrArg Datum.record (membersWithReals_real members)
  | .null | .flag _ | .whole _ | .text _ | .moment _ | .sequence _ | .invalid => rfl

theorem membersWithReals_real :
    ∀ members : List (List Char × Datum), membersWithReals .real members = members
  | [] => rfl
  | (name, datum) :: members => by
    rw [membersWithReals, withReals_real datum, membersWithReals_real members]

end

theorem membersWithReals_eq_map (f : Float → Datum) (members : List (List Char × Datum)) :
    membersWithReals f members = members.map fun (name, datum) =>
      (name, datum.withReals f) := by
  induction members with
  | nil => rfl
  | cons member members ih => rw [membersWithReals, ih]; rfl

/-- The data that fields of a configuration have. -/
inductive IsStored : Datum → Prop
  | flag (value : Bool) : IsStored (.flag value)
  | whole {n : Nat} (h : n < Json.wordLimit) : IsStored (.whole n)
  | real {x : Float} (h : x.isFinite = true) : IsStored (.real x)

variable {datum : Datum}

theorem IsStored.isLegible (h : datum.IsStored) : Toml.IsLegible datum := by
  cases h with
  | flag value => exact .flag value
  | whole _ => exact .whole _
  | real h => exact .real h

theorem IsStored.readsAs (h : datum.IsStored) :
    Json.ReadsAs datum (datum.withReals Json.reread) := by
  cases h with
  | flag value => exact Json.readsAs_flag value
  | whole h => exact Json.readsAs_whole h
  | real h => exact Json.readsAs_real h

end Datum

namespace Data

variable {σ : Type} {fields : List (Field σ)} {value : σ}

/-- The names of fields are told apart and written as they are, whatever the format is. -/
structure HasPlainNames (fields : List (Field σ)) : Prop where
  nodup : (fields.map (·.name.toList)).Nodup
  isBareName : ∀ field ∈ fields, Toml.IsBareName field.name.toList
  isPlainName : ∀ field ∈ fields, Json.IsPlainName field.name.toList

theorem HasPlainNames.of_all (hnodup : (fields.map (·.name.toList)).Nodup)
    (hbare : (fields.all fun field => decide (Toml.IsBareName field.name.toList)) = true)
    (hplain : (fields.all fun field => decide (Json.IsPlainName field.name.toList)) = true) :
    HasPlainNames fields where
  nodup := hnodup
  isBareName field hfield := of_decide_eq_true (List.all_eq_true.mp hbare field hfield)
  isPlainName field hfield := of_decide_eq_true (List.all_eq_true.mp hplain field hfield)

theorem write_withReals (f : Float → Datum) :
    (write fields value).withReals f =
      .record (membersOf fields fun field => (field.get value).withReals f) := by
  show Datum.record (Datum.membersWithReals f (fields.map _)) = _
  rw [Datum.membersWithReals_eq_map, List.map_map]
  rfl

/-- A record is read as the record of what its members are read as. -/
theorem readsAs_write (hnames : HasPlainNames fields)
    (hvalues : ∀ field ∈ fields,
      Json.ReadsAs (field.get value) ((field.get value).withReals Json.reread)) :
    Json.ReadsAs (write fields value) ((write fields value).withReals Json.reread) := by
  rw [write_withReals]
  refine Json.readsAs_record ?_
  rw [membersOf, List.forall₂_map_left_iff, List.forall₂_map_right_iff, List.forall₂_same]
  exact fun field hfield => ⟨rfl, hnames.isPlainName field hfield, hvalues field hfield⟩

theorem isLegibleTable_membersOf (hnames : HasPlainNames fields) {name : List Char}
    (hname : Toml.IsBareName name) (hvalues : ∀ field ∈ fields, (field.get value).IsStored) :
    Toml.IsLegibleTable (name, membersOf fields fun field => field.get value) where
  name := hname
  entries := by
    rintro entry hentry
    obtain ⟨field, hfield, rfl⟩ := List.mem_map.mp hentry
    exact ⟨hnames.isBareName field hfield, (hvalues field hfield).isLegible⟩
  nodup := by
    rw [membersOf_fst]
    exact hnames.nodup

end Data

namespace Configuration

open Data

variable {configuration read : Configuration}

/-- Configurations that make sense have finite floats only. -/
theorem isStored_of_mem_setupFields (hcheck : configuration.check = .ok ()) :
    ∀ field ∈ setupFields, (field.get configuration.setup).IsStored := by
  have h : configuration.setup.IsSensible :=
    Setup.check_eq_ok_iff.mp (Setup.bind_eq_ok_iff.mp hcheck).1
  have hpower : configuration.setup.power.toNat < Json.wordLimit :=
    configuration.setup.power.toNat_lt.trans (by decide)
  obtain ⟨hx, hy⟩ := Bool.and_eq_true_iff.mp h.offset
  simp only [setupFields, List.forall_mem_cons]
  exact ⟨.real h.cutFeed.1, .real h.rapidFeed.1, .whole hpower, .real h.safeHeight,
    .real h.workHeight, .flag _, .flag _, .real h.scale.1, .real hx, .real hy,
    .whole configuration.setup.places.toNat_lt, nofun⟩

theorem isStored_of_mem_finenessFields (fineness : Fineness) :
    ∀ field ∈ finenessFields, (field.get fineness).IsStored := by
  simp only [finenessFields, List.forall_mem_cons]
  exact ⟨.whole fineness.curveSteps.toNat_lt, .whole fineness.ellipseSegments.toNat_lt, nofun⟩

/-! ## Reading records -/

theorem hasPlainNames_setupFields : HasPlainNames setupFields :=
  .of_all (by decide) (by decide) (by decide)

theorem hasPlainNames_finenessFields : HasPlainNames finenessFields :=
  .of_all (by decide) (by decide) (by decide)

theorem hasPlainNames_fields (strict : Bool) : HasPlainNames (fields strict) := by
  cases strict with
  | false => exact .of_all (by decide) (by decide) (by decide)
  | true => exact .of_all (by decide) (by decide) (by decide)

variable {f : Float → Datum}

theorem replace?_setupFields {setup read : Setup Float} :
    replace? setupFields (fun field => (field.get setup).withReals f) .default = some read ↔
      setup.IsReadAs (fun x => (f x).real?) read := by
  simp only [setupFields, replace?_cons, replace?_nil, Field.real, Field.flag, Field.word32,
    Field.word64, Field.of, Datum.withReals, Datum.word32?_toNat, Datum.word64?_toNat,
    Datum.flag?, Option.map_some, Option.bind_some, Option.bind_map, Function.comp_def,
    Option.bind_eq_some_iff]
  constructor
  · rintro ⟨_, hcut, _, hrapid, _, hsafe, _, hwork, _, hscale, _, hx, _, hy, ⟨⟩⟩
    exact ⟨hcut, hrapid, rfl, hsafe, hwork, rfl, rfl, hscale, hx, hy, rfl⟩
  · intro h
    refine ⟨_, h.cutFeed, _, h.rapidFeed, _, h.safeHeight, _, h.workHeight, _, h.scale, _, h.x,
      _, h.y, ?_⟩
    rw [← h.power, ← h.laser, ← h.comments, ← h.places]

theorem replace?_finenessFields (fineness : Fineness) :
    replace? finenessFields (fun field => (field.get fineness).withReals f) .default =
      some fineness := by
  simp only [finenessFields, replace?_cons, replace?_nil, Field.word64, Field.of,
    Datum.withReals, Datum.word64?_toNat, Option.map_some, Option.bind_some]

/-- **A configuration with other data in the place of its floats** is read as the numbers
of these say. -/
theorem read?_write_withReals (strict : Bool) :
    Configuration.read? strict (configuration.write.withReals f) = some read ↔
      configuration.IsReadAs (fun x => (f x).real?) read := by
  have hread : Configuration.read? strict (configuration.write.withReals f) =
      (replace? setupFields (fun field => (field.get configuration.setup).withReals f)
        .default).map
        fun setup => ⟨setup, configuration.fineness⟩ := by
    -- the names and the data of the fields do not depend on how they are read
    have hmembers : (Data.write (fields true) configuration).withReals f = .record
        (membersOf (fields strict) fun field => (field.get configuration).withReals f) :=
      write_withReals f
    rw [Configuration.write, hmembers, Configuration.read?,
      read?_members (hasPlainNames_fields strict).nodup]
    simp only [fields, replace?_cons, replace?_nil, Field.of, write_withReals,
      read?_members hasPlainNames_setupFields.nodup,
      read?_members hasPlainNames_finenessFields.nodup, replace?_finenessFields,
      Option.map_some, Option.bind_map, Function.comp_def, Option.bind_some]
    exact Option.map_eq_bind.symm
  rw [hread, Option.map_eq_some_iff]
  constructor
  · rintro ⟨setup, hsetup, rfl⟩
    exact ⟨replace?_setupFields.mp hsetup, rfl⟩
  · rintro ⟨hsetup, hfineness⟩
    refine ⟨read.setup, replace?_setupFields.mpr hsetup, ?_⟩
    rw [← hfineness]

/-! ## Texts of configurations -/

theorem json_read?_write (hcheck : configuration.check = .ok ()) :
    Json.read? (Json.write configuration.write) =
      some (configuration.write.withReals Json.reread) := by
  have hsetup := isStored_of_mem_setupFields hcheck
  have hfineness := isStored_of_mem_finenessFields configuration.fineness
  refine Json.read?_write (readsAs_write (hasPlainNames_fields true) ?_)
  simp only [fields, List.forall_mem_cons]
  exact ⟨readsAs_write hasPlainNames_setupFields fun field hfield =>
    (hsetup field hfield).readsAs,
      readsAs_write hasPlainNames_finenessFields fun field hfield =>
        (hfineness field hfield).readsAs,
    nofun⟩

/-- The tables that a configuration is written as. -/
def tables (configuration : Configuration) : List Toml.PlainTable :=
  [("gcode".toList, membersOf setupFields fun field => field.get configuration.setup),
    ("flattening".toList, membersOf finenessFields fun field =>
      field.get configuration.fineness)]

theorem toml_read?_of_write? (hcheck : configuration.check = .ok ()) {text : List Char}
    (h : Toml.write? configuration.write = some text) :
    Toml.read? text = some configuration.write := by
  have hsetup := isStored_of_mem_setupFields hcheck
  have hfineness := isStored_of_mem_finenessFields configuration.fineness
  have htables : ∀ table ∈ configuration.tables, Toml.IsLegibleTable table := by
    simp only [tables, List.forall_mem_cons]
    exact ⟨isLegibleTable_membersOf hasPlainNames_setupFields (by decide) hsetup,
      isLegibleTable_membersOf hasPlainNames_finenessFields (by decide) hfineness, nofun⟩
  exact Toml.read?_of_write? htables (hasPlainNames_fields true).nodup h

/-- What a float that is written in a format is read as. -/
def Format.reread : Format → Float → Option Float
  | json, x => (Json.reread x).real?
  | toml, x => some x

/-- **The text of a configuration that makes sense is read as the configuration**, but for
what becomes of floats. -/
theorem Format.read?_of_write? (hcheck : configuration.check = .ok ()) {format : Format}
    {text : List Char} (h : format.write? configuration = some text) :
    format.read? text = some read ↔ configuration.IsReadAs format.reread read := by
  cases format with
  | json =>
    cases h
    show (Json.read? (Json.write configuration.write) >>= Configuration.read? true) =
      some read ↔ _
    rw [json_read?_write hcheck]
    exact read?_write_withReals true
  | toml =>
    show (Toml.read? text >>= Configuration.read? false) = some read ↔ _
    rw [toml_read?_of_write? hcheck h, ← configuration.write.withReals_real]
    exact read?_write_withReals false

/-! ## Files of configurations -/

open Store

variable {store : Store} {location : Location}

/-- The extension of a file says the format, in any letter case. -/
theorem Format.ofLocation?_eq_some_iff {format : Format} :
    Format.ofLocation? location = some format ↔
      ∃ extension, location.extension? = some extension ∧
        extension.map Char.toLower = format.extension := by
  unfold Format.ofLocation?
  rw [Option.bind_eq_bind, Option.bind_eq_some_iff]
  refine exists_congr fun extension => and_congr_right fun _ => ?_
  unfold Format.ofExtension?
  -- the table has two extensions, and what is neither stands for no format
  by_cases hjson : extension.map Char.toLower = json.extension
  · rw [hjson]
    cases format <;> decide
  by_cases htoml : extension.map Char.toLower = toml.extension
  · rw [htoml]
    cases format <;> decide
  · rw [List.find?_cons_of_neg (by simpa using hjson),
      List.find?_cons_of_neg (by simpa using htoml)]
    refine iff_of_false nofun fun h => ?_
    cases format with
    | json => exact hjson h
    | toml => exact htoml h

theorem eq_ok_of_isOk {result : Except Error Unit} (h : result.isOk = true) :
    result = .ok () := by
  cases result with
  | ok => rfl
  | error e => cases h

/-- A file that may not be read is not loaded. -/
theorem answer_load_of_unreadable {format : Format} {cause : FileError}
    (hformat : formatOf location = .ok format) (hread : store.read location = .error cause) :
    store.answer (load location) = .error (.notLoaded location cause) := by
  have htext : store.answer (FileAccess.readText location) = .error cause := by
    rw [answer_readText, hread]
    rfl
  unfold load
  rw [hformat]
  dsimp only
  rw [onlyReads_readText.answer_bind, htext]
  rfl

/-- What is saved makes sense. Unless the file may not be read, it is read from it as the
text of the configuration. -/
theorem answer_load_of_save (h : store.answer (save location configuration) = .ok ()) :
    configuration.check = .ok () ∧ ∃ format, Format.ofLocation? location = some format ∧
      ∃ place, (store.after (save location configuration)).resolve location = .ok place ∧
        (∀ cause, store.refusals.reading place = some cause →
          (store.after (save location configuration)).answer (load location) =
            .error (.notLoaded location cause)) ∧
        (store.refusals.reading place = none → ∀ read,
          (store.after (save location configuration)).answer (load location) = .ok read ↔
            configuration.IsReadAs format.reread read ∧ read.check = .ok ()) := by
  have hsaves := save_saves location configuration store
  generalize store.after (save location configuration) = changed at hsaves ⊢
  rw [h] at hsaves
  -- of all the ways in which saving can end, one leaves no error
  cases hsaves with
  | @done text place htext htarget =>
    obtain ⟨hcheck, format, hformat, htext⟩ := textFor_eq_ok_iff.mp htext
    have hof : formatOf location = .ok format := by rw [formatOf, hformat]
    have hsame := (addsDirectories_makeParents store location).refusals
    refine ⟨hcheck, format, hformat, place, (resolve_put_of_target htarget _).1, ?_, ?_⟩
    -- the file may not be read
    · intro cause hcause
      apply answer_load_of_unreadable hof
      rw [read_of_target htarget, hsame, hcause]
      rfl
    -- the file is read, and holds the text that was written
    · intro hreading read
      have hread :=
        answer_readText_of_target htarget (by rw [hsame, hreading]) (String.ofList text)
      rw [answer_load_eq_ok_iff]
      constructor
      · rintro ⟨_, _, hof', hread', hparse⟩
        rw [hof] at hof'
        rw [hread] at hread'
        cases hof'
        cases hread'
        rw [ofText_eq_ok_iff, String.toList_ofList,
          Format.read?_of_write? hcheck htext] at hparse
        exact hparse
      · rintro ⟨hreads, hcheck'⟩
        refine ⟨format, _, hof, hread, ?_⟩
        rw [ofText_eq_ok_iff, String.toList_ofList, Format.read?_of_write? hcheck htext]
        exact ⟨hreads, hcheck'⟩

/-- **Saving writes the whole of a configuration or nothing, and loading gives what makes
sense.** Unless the file may not be read, the configuration that was saved is loaded again
from a TOML file. From a JSON file it is too, but for its floats, each of which is what
the number written for it is read as. -/
theorem save_load_round_trip (store : Store) (location : Location)
    (configuration : Configuration) :
    let saved := store.after (save location configuration)
    (∀ format, Format.ofLocation? location = some format ↔
      ∃ extension, location.extension? = some extension ∧
        extension.map Char.toLower = format.extension) ∧
    ((configuration.check ≠ .ok () ∨ Format.ofLocation? location = none ∨
        (∃ format, Format.ofLocation? location = some format ∧
          format.write? configuration = none)) →
      (∃ e, store.answer (save location configuration) = .error e) ∧ saved = store) ∧
    (store.answer (save location configuration) = .ok () →
      ∃ place, saved.resolve location = .ok place ∧
        (∀ cause, store.refusals.reading place = some cause →
          saved.answer (load location) = .error (.notLoaded location cause)) ∧
        (store.refusals.reading place = none →
          (Format.ofLocation? location = some .toml ∧
            saved.answer (load location) = .ok configuration) ∨
          (Format.ofLocation? location = some .json ∧
            ∀ read, saved.answer (load location) = .ok read ↔
              configuration.IsReadAs (fun x => (Json.reread x).real?) read ∧
                read.check = .ok ()))) ∧
    (∀ read, store.answer (load location) = .ok read → read.check = .ok ()) ∧
    (∀ read, store.answer (loadOrDefault location) = .ok read → read.check = .ok ()) := by
  intro saved
  refine ⟨fun _ => Format.ofLocation?_eq_some_iff, ?refused, ?saved, fun _ => check_of_load,
    fun _ => check_of_loadOrDefault⟩
  case refused =>
    intro hnone
    -- each of the three leaves no text to write
    cases htext : textFor location configuration with
    | error e => exact ⟨⟨e, (save_of_refused htext store).1⟩, (save_of_refused htext store).2⟩
    | ok text =>
      obtain ⟨hcheck, format, hformat, hwrite⟩ := textFor_eq_ok_iff.mp htext
      rcases hnone with hcheck' | hformat' | ⟨_, hformat', hwrite'⟩
      · exact absurd hcheck hcheck'
      · rw [hformat] at hformat'
        cases hformat'
      · rw [hformat] at hformat'
        cases hformat'
        rw [hwrite] at hwrite'
        cases hwrite'
  case saved =>
    intro h
    -- the extension says which of the two formats it is
    obtain ⟨hcheck, format, hformat, place, hplace, hunreadable, hload⟩ := answer_load_of_save h
    refine ⟨place, hplace, hunreadable, fun hreading => ?_⟩
    cases format with
    | toml =>
      have hsame := (hload hreading configuration).mpr ⟨isReadAs_some_iff.mpr rfl, hcheck⟩
      exact .inl ⟨hformat, hsame⟩
    | json => exact .inr ⟨hformat, hload hreading⟩

/-- A configuration with numbers of all kinds is saved over files that are there. It is
loaded again from the TOML file, and from the JSON file with one of its floats read as the
next one. -/
theorem save_load_round_trip_over_files :
    ∃ (store : Store) (configuration read : Configuration), read ≠ configuration ∧
      (∃ bytes, store.read "mill.toml".toList = .ok bytes) ∧
      (∃ bytes, store.read "mill.JSON".toList = .ok bytes) ∧
      (store.after (save "mill.toml".toList configuration)).answer (load "mill.toml".toList) =
        .ok configuration ∧
      (store.after (save "mill.JSON".toList configuration)).answer (load "mill.JSON".toList) =
        .ok read := by
  let setup : Setup Float :=
    { cutFeed := 1234.5, rapidFeed := 1e22, power := 4294967295, safeHeight := 0.1
      workHeight := -2.25, laser := false, comments := false, scale := -1e-7
      offset := ⟨125.90606439370877, 5e-324⟩, places := 10 }
  let configuration : Configuration := ⟨setup, ⟨9223372036854775807, 1⟩⟩
  let read : Configuration :=
    ⟨{ setup with offset := ⟨125.90606439370876, 5e-324⟩ }, configuration.fineness⟩
  let toml : Location := "mill.toml".toList
  let json : Location := "mill.JSON".toList
  let store : Store :=
    { workingDirectory := []
      entries := [([toml], .file "[gcode]".toUTF8), ([json], .file .empty)] }
  -- both files are there before, with other content
  have hloaded (location : Location) := save_load_round_trip store location configuration
  have htoml : store.answer (save toml configuration) = .ok () :=
    eq_ok_of_isOk (by decide +kernel)
  have hjson : store.answer (save json configuration) = .ok () :=
    eq_ok_of_isOk (by decide +kernel)
  have hread : configuration.IsReadAs (fun x => (Json.reread x).real?) read := by
    constructor
    · constructor <;> decide +kernel
    · rfl
  have hcheck : read.check = .ok () := by decide +kernel
  refine ⟨store, configuration, read, ?_, ⟨_, rfl⟩, ⟨_, rfl⟩, ?_, ?_⟩
  · intro h
    exact absurd (congrArg (·.setup.offset.x) h) (by decide +kernel)
  · obtain ⟨place, -, -, hkept⟩ := (hloaded toml).2.2.1 htoml
    obtain ⟨-, hload⟩ | ⟨hformat, -⟩ := hkept rfl
    · exact hload
    · exact absurd hformat (by decide)
  · obtain ⟨place, -, -, hkept⟩ := (hloaded json).2.2.1 hjson
    obtain ⟨hformat, -⟩ | ⟨-, hload⟩ := hkept rfl
    · exact absurd hformat (by decide)
    · exact (hload read).mpr ⟨hread, hcheck⟩

/-- A float in a JSON file need not be loaded as it was saved: the digits that are written
for it are read with two roundings. -/
theorem not_forall_load_eq_saved :
    ¬ ∀ (store : Store) (location : Location) (configuration : Configuration),
      store.answer (save location configuration) = .ok () →
        (store.after (save location configuration)).answer (load location) =
          .ok configuration := by
  intro h
  let configuration : Configuration :=
    { default with setup := { Setup.default with offset := ⟨125.90606439370877, 0.0⟩ } }
  let store : Store := { workingDirectory := [], entries := [] }
  have hok : store.answer (save "c.json".toList configuration) = .ok () :=
    eq_ok_of_isOk (by decide +kernel)
  obtain ⟨_, format, hformat, _, _, _, hload⟩ := answer_load_of_save hok
  have hreads := ((hload rfl configuration).mp (h _ _ _ hok)).1
  have hjson : Format.ofLocation? "c.json".toList = some .json := by decide
  rw [hjson] at hformat
  cases hformat
  have hx : (Json.reread 125.90606439370877).real? = some 125.90606439370877 := hreads.setup.x
  exact absurd hx (by decide +kernel)

end Configuration

end Kerf
