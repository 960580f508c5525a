import Kerf.Configuration.Storage
import Kerf.Proofs.Files.Store
import Kerf.Proofs.Setup

/-!
# Loading and saving

What loading and saving configurations come to on a store. Loading only reads
(`onlyReads_load`), and what it gives makes sense (`check_of_load`,
`check_of_loadOrDefault`).

Saving goes through `Configuration.textFor`, which looks at no file, and after it changes
files in two steps: it makes the directories above the file, and then writes the file.
`Saves` lists the ways in which it ends, with what it leaves of the store (`save_saves`):
nothing is changed unless there is a text to write.
-/

namespace Kerf.Configuration

open Store

variable {store changed : Store} {location : Location} {configuration : Configuration}

/-! ## Loading -/

theorem ofText_eq_ok_iff {format : Format} {text : List Char} :
    ofText format text = .ok configuration ↔
      format.read? text = some configuration ∧ configuration.check = .ok () := by
  unfold ofText
  cases hread : format.read? text with
  | none => exact iff_of_false nofun fun ⟨h, _⟩ => nomatch h
  | some read =>
    dsimp only
    cases hcheck : read.check with
    | ok =>
      constructor
      · rintro ⟨⟩
        exact ⟨rfl, hcheck⟩
      · rintro ⟨⟨⟩, _⟩
        rfl
    | error cause =>
      refine iff_of_false nofun ?_
      rintro ⟨⟨⟩, h⟩
      rw [hcheck] at h
      cases h

theorem onlyReads_load : OnlyReads (load location) := by
  unfold load
  cases formatOf location with
  | error e => exact .pure _
  | ok format =>
    refine onlyReads_readText.bind fun text => ?_
    cases text with
    | error cause => exact .pure _
    | ok text => exact .pure _

theorem onlyReads_loadOrDefault : OnlyReads (loadOrDefault location) := by
  refine onlyReads_isPresent.bind fun isPresent => ?_
  cases isPresent with
  | false => exact .pure _
  | true => exact onlyReads_load

/-- What is loaded is in the file, whose extension says how it is to be read. -/
theorem answer_load_eq_ok_iff :
    store.answer (load location) = .ok configuration ↔
      ∃ format text, formatOf location = .ok format ∧
        store.answer (FileAccess.readText location) = .ok text ∧
        ofText format text.toList = .ok configuration := by
  unfold load
  -- no format, then no file, then what the text says
  cases formatOf location with
  | error e => exact iff_of_false nofun fun ⟨_, _, h, _⟩ => nomatch h
  | ok format =>
    dsimp only
    rw [onlyReads_readText.answer_bind]
    cases store.answer (FileAccess.readText location) with
    | error cause => exact iff_of_false nofun fun ⟨_, _, _, h, _⟩ => nomatch h
    | ok text =>
      constructor
      · intro h
        exact ⟨format, text, rfl, rfl, h⟩
      · rintro ⟨_, _, ⟨⟩, ⟨⟩, h⟩
        exact h

theorem check_of_load (h : store.answer (load location) = .ok configuration) :
    configuration.check = .ok () := by
  obtain ⟨_, _, _, _, htext⟩ := answer_load_eq_ok_iff.mp h
  exact (ofText_eq_ok_iff.mp htext).2

theorem check_default : default.check = .ok () := rfl

theorem check_of_loadOrDefault (h : store.answer (loadOrDefault location) = .ok configuration) :
    configuration.check = .ok () := by
  unfold loadOrDefault at h
  rw [onlyReads_isPresent.answer_bind] at h
  cases hpresent : store.answer (FileAccess.isPresent location) with
  | false =>
    rw [hpresent] at h
    cases h
    exact check_default
  | true =>
    rw [hpresent] at h
    exact check_of_load h

/-! ## Saving -/

/-- There is a text for a configuration that makes sense, if the extension stands for a
format that can hold it. -/
theorem textFor_eq_ok_iff {text : List Char} :
    textFor location configuration = .ok text ↔
      configuration.check = .ok () ∧
        ∃ format, Format.ofLocation? location = some format ∧
          format.write? configuration = some text := by
  unfold textFor
  -- the checks are made in this order, and the first that fails ends it
  cases configuration.check with
  | error cause => exact iff_of_false nofun fun ⟨h, _⟩ => nomatch h
  | ok =>
    rw [and_iff_right rfl]
    dsimp only [Except.mapError, bind, Except.bind]
    unfold formatOf
    cases Format.ofLocation? location with
    | none => exact iff_of_false nofun fun ⟨_, h, _⟩ => nomatch h
    | some format =>
      dsimp only
      cases hwrite : format.write? configuration with
      | none =>
        refine iff_of_false nofun ?_
        rintro ⟨_, ⟨⟩, h⟩
        rw [hwrite] at h
        cases h
      | some written =>
        constructor
        · rintro ⟨⟩
          exact ⟨format, rfl, hwrite⟩
        · rintro ⟨_, ⟨⟩, h⟩
          rw [hwrite] at h
          cases h
          rfl

/-- Without a text, nothing is saved and nothing is changed. -/
theorem save_of_refused {e : Error} (h : textFor location configuration = .error e)
    (store : Store) :
    store.answer (save location configuration) = .error e ∧
      store.after (save location configuration) = store := by
  unfold save
  rw [h]
  exact ⟨rfl, rfl⟩

theorem addsDirectories_makeParents (store : Store) (location : Location) :
    store.AddsDirectories (store.after (makeParents location)) := by
  unfold makeParents
  cases location.parent? with
  | none => exact .refl store
  | some parent =>
    cases parent with
    | nil => exact .refl store
    | cons first rest => exact store.addsDirectories_makeDirectories (first :: rest)

/-- Where something is, no directory above it is made. -/
theorem after_makeParents_of_has (h : store.Has location) :
    store.after (makeParents location) = store := by
  unfold makeParents
  cases hparent : location.parent? with
  | none => rfl
  | some parent =>
    cases parent with
    | nil => rfl
    | cons first rest => exact makeDirectories_parent hparent (List.cons_ne_nil first rest) h

/-- The ways in which saving a configuration ends: what is given, and what is left of the
store. -/
inductive Saves (location : Location) (configuration : Configuration) (store : Store) :
    Except Error Unit → Store → Prop
  /-- There is no text to write. -/
  | refused {e : Error} (h : textFor location configuration = .error e) :
    Saves location configuration store (.error e) store
  /-- The directories above the file are not all made. -/
  | incomplete {text : List Char} {e : Error} (h : textFor location configuration = .ok text) :
    Saves location configuration store (.error e) (store.after (makeParents location))
  /-- The file is not written, or not to its end. -/
  | unwritten {text : List Char} {e : Error} {cause : FileError} {changed : Store}
    (h : textFor location configuration = .ok text)
    (hwrites : Writes (store.after (makeParents location)) location (String.ofList text).toUTF8
      changed (.error cause)) :
    Saves location configuration store (.error e) changed
  | done {text : List Char} {place : Place} (h : textFor location configuration = .ok text)
    (htarget : (store.after (makeParents location)).target location = .ok place) :
    Saves location configuration store (.ok ())
      ((store.after (makeParents location)).put place (.file (String.ofList text).toUTF8))

/-- **Saving ends in one of the ways listed.** -/
theorem save_saves (location : Location) (configuration : Configuration) (store : Store) :
    Saves location configuration store (store.answer (save location configuration))
      (store.after (save location configuration)) := by
  unfold save
  -- nothing is made before there is a text
  cases htext : textFor location configuration with
  | error e => exact .refused htext
  | ok text =>
    dsimp only
    rw [answer_bind, after_bind]
    -- the directories come before the file, and stay if it fails
    cases store.answer (makeParents location) with
    | error cause => exact .incomplete htext
    | ok =>
      dsimp only
      rw [answer_bind, after_bind, answer_write, after_write]
      have hwrites := write_writes (store.after (makeParents location)) location
        (String.ofList text).toUTF8
      generalize (store.after (makeParents location)).write location _ = written at hwrites ⊢
      obtain ⟨changed, result⟩ := written
      cases result with
      | error cause => exact .unwritten htext hwrites
      | ok =>
        cases hwrites with
        | done htarget => exact .done htext htarget

/-- Whatever is saved, directories are made above the file, and then at most what is at
the place that the location names is changed. -/
theorem Saves.others {result : Except Error Unit}
    (h : Saves location configuration store result changed) :
    ∃ made, AddsDirectories store made ∧
      (changed = made ∨ ∃ place, made.resolve location = .ok place ∧
        SameBut place made changed) := by
  have hmade := addsDirectories_makeParents store location
  cases h with
  | refused => exact ⟨store, .refl store, .inl rfl⟩
  | incomplete => exact ⟨_, hmade, .inl rfl⟩
  | unwritten _ hwrites => exact ⟨_, hmade, hwrites.others⟩
  | @done text place _ htarget =>
    exact ⟨_, hmade, .inr ⟨place, resolve_of_target htarget, sameBut_put _ _ _⟩⟩

/-- Where something is that cannot be found, nothing is saved and nothing is changed. -/
theorem Saves.of_not_admits {result : Except Error Unit}
    (h : Saves location configuration store result changed) (hhas : store.Has location)
    (hadmits : ¬ store.Admits location) : changed = store ∧ ∃ e, result = .error e := by
  have htarget : ∀ {place}, (store.after (makeParents location)).target location ≠
      .ok place := by
    intro place htarget
    rw [after_makeParents_of_has hhas] at htarget
    exact hadmits (resolve_eq_ok_iff_lifted.mp (resolve_of_target htarget)).2
  cases h with
  | refused => exact ⟨rfl, _, rfl⟩
  | incomplete => exact ⟨after_makeParents_of_has hhas, _, rfl⟩
  | unwritten _ hwrites =>
    cases hwrites with
    | unopened => exact ⟨after_makeParents_of_has hhas, _, rfl⟩
    | broken hplace => exact absurd hplace htarget
  | done _ hplace => exact absurd hplace htarget

end Kerf.Configuration
