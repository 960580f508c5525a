import Kerf.CommandLine.Run
import Kerf.Proofs.Configuration.Storage

/-!
# What commands do to files

Every command looks at files first and changes them, if it does, in its last step. So a
command that fails before that step leaves the store as it was. One that fails in that
step need not: writing can break off after it has taken away what was in the file.

- `Converts` and `Initializes` list the ways in which the two commands end that write,
  with what is left of the store.
- `run_spares`: of a conversion, only what is at the place that the output names can be
  changed. Writing a configuration leaves all of the store alone if something is at the
  location and there is no force, or if its extension stands for no format. Else it makes
  directories, and changes at most what is at the place that the location then names. The
  other commands, and command lines that are no request, change nothing.
- `not_forall_target_spared`: without force, the place written can still be one where a
  file was. The location is looked at before the directories above it are made, and making
  them can let it lead to a file.
-/

namespace Kerf.CommandLine

open Store

variable {environment : Environment} {store : Store}

/-! ## Commands that only read -/

theorem onlyReads_loadConfiguration (environment : Environment)
    (configuration : Option Location) :
    OnlyReads (loadConfiguration environment configuration) := by
  cases configuration with
  | none => exact Configuration.onlyReads_loadOrDefault.bind fun _ => .pure _
  | some location => exact Configuration.onlyReads_load.bind fun _ => .pure _

theorem onlyReads_loadDrawing (fineness : Fineness) (location : Location) :
    OnlyReads (Drawing.load fineness location :
      StateM Store (Except Drawing.Error (List (Outline Float)))) := by
  refine onlyReads_isPresent.bind fun isPresent => ?_
  cases isPresent with
  | false => exact .pure _
  | true =>
    refine onlyReads_read.bind fun bytes => ?_
    cases bytes with
    | error cause => exact .pure _
    | ok bytes => exact .pure _

theorem onlyReads_validate (file : Location) : OnlyReads (CommandLine.validate file) := by
  refine onlyReads_readText.bind fun program => ?_
  cases program with
  | error cause => exact .pure _
  | ok program =>
    dsimp only
    cases Program.check program.toList with
    | error e => exact .pure _
    | ok => exact .pure _

theorem onlyReads_estimate (environment : Environment) (file : Location)
    (configuration : Option Location) :
    OnlyReads (CommandLine.estimate environment file configuration) := by
  refine (onlyReads_loadConfiguration environment configuration).bind fun loaded => ?_
  cases loaded with
  | error failure => exact .pure _
  | ok loaded =>
    refine onlyReads_readText.bind fun program => ?_
    cases program with
    | error cause => exact .pure _
    | ok program => exact .pure _

theorem onlyReads_inspect (environment : Environment) (input : Location) :
    OnlyReads (CommandLine.inspect environment input) := by
  refine (onlyReads_loadConfiguration environment none).bind fun loaded => ?_
  cases loaded with
  | error failure => exact .pure _
  | ok loaded =>
    refine (onlyReads_loadDrawing loaded.fineness input).bind fun outlines => ?_
    cases outlines with
    | error cause => exact .pure _
    | ok outlines => exact .pure _

/-! ## Conversions -/

/-- The ways in which a conversion ends: what is given, and what is left of the store. -/
inductive Converts (environment : Environment) (input : Location)
    (output configuration : Option Location) (overrides : Overrides) (store : Store) :
    Except Failure (List Char) → Store → Prop
  | unloaded {failure : Failure}
    (h : store.answer (loadConfiguration environment configuration) = .error failure) :
    Converts environment input output configuration overrides store (.error failure) store
  | refused {loaded : Configuration} {cause : ParameterError Float} {failure : Failure}
    (h : store.answer (loadConfiguration environment configuration) = .ok loaded)
    (hcheck : (overrides.apply loaded.setup).check = .error cause) :
    Converts environment input output configuration overrides store (.error failure) store
  | unread {loaded : Configuration} {cause : Drawing.Error} {failure : Failure}
    (h : store.answer (loadConfiguration environment configuration) = .ok loaded)
    (hcheck : (overrides.apply loaded.setup).check = .ok ())
    (hread : store.answer (Drawing.load (α := Float) loaded.fineness input) = .error cause) :
    Converts environment input output configuration overrides store (.error failure) store
  /-- The drawing is converted, and the program given out. -/
  | converted {loaded : Configuration} {outlines : List (Outline Float)}
    (h : store.answer (loadConfiguration environment configuration) = .ok loaded)
    (hcheck : (overrides.apply loaded.setup).check = .ok ())
    (hread : store.answer (Drawing.load loaded.fineness input) = .ok outlines)
    (program : List Char) :
    Converts environment input output configuration overrides store
      (store.answer (deliver program output)) (store.after (deliver program output))

theorem convert_converts (environment : Environment) (input : Location)
    (output configuration : Option Location) (overrides : Overrides) (store : Store) :
    Converts environment input output configuration overrides store
      (store.answer (CommandLine.convert environment input output configuration overrides))
      (store.after (CommandLine.convert environment input output configuration overrides)) := by
  unfold CommandLine.convert
  have hreads := onlyReads_loadConfiguration environment configuration
  rw [hreads.answer_bind, hreads.after_bind]
  -- the steps one by one: each either ends the command or leads to the next
  cases hloaded : store.answer (loadConfiguration environment configuration) with
  | error failure => exact .unloaded hloaded
  | ok loaded =>
    dsimp only [Conversion.ofFile]
    cases hcheck : (overrides.apply loaded.setup).check with
    | error cause => exact .refused hloaded hcheck
    | ok =>
      have hdrawing := onlyReads_loadDrawing loaded.fineness input
      dsimp only
      rw [bind_assoc, hdrawing.answer_bind, hdrawing.after_bind]
      cases hread : store.answer (Drawing.load (α := Float) loaded.fineness input) with
      | error cause => exact .unread hloaded hcheck hread
      | ok outlines => exact .converted hloaded hcheck hread _

/-- Giving a program out changes at most what is at the place that the output names. -/
theorem after_deliver_cases (program : List Char) (output : Option Location) (store : Store) :
    store.after (deliver program output) = store ∨
      ∃ location place, output = some location ∧ store.resolve location = .ok place ∧
        SameBut place store (store.after (deliver program output)) := by
  cases output with
  | none => exact .inl rfl
  | some location =>
    have hafter : store.after (deliver program (some location)) =
        (store.write location (String.ofList program).toUTF8).1 := by
      unfold deliver
      dsimp only
      rw [after_bind, answer_write, after_write]
      cases (store.write location (String.ofList program).toUTF8).2 <;> rfl
    rw [hafter]
    obtain hsame | ⟨place, hplace, hbut⟩ := (write_writes store location _).others
    · exact .inl hsame
    · exact .inr ⟨location, place, rfl, hplace, hbut⟩

/-! ## Writing a configuration -/

/-- The ways in which writing a configuration to start from ends: what is given, and what
is left of the store. -/
inductive Initializes (location : Location) (force : Bool) (store : Store) :
    Except Failure (List Char) → Store → Prop
  | present {failure : Failure} (h : store.isPresent location = true) (hforce : force = false) :
    Initializes location force store (.error failure) store
  /-- It is saved, if nothing is present or there is force. -/
  | unsaved {failure : Failure} {e : Configuration.Error} {changed : Store}
    (h : store.isPresent location = false ∨ force = true)
    (hsaves : Configuration.Saves location .default store (.error e) changed) :
    Initializes location force store (.error failure) changed
  | saved {output : List Char} {changed : Store}
    (h : store.isPresent location = false ∨ force = true)
    (hsaves : Configuration.Saves location .default store (.ok ()) changed) :
    Initializes location force store (.ok output) changed

theorem writeDefault_initializes (environment : Environment) (path : Option Location)
    (force : Bool) (store : Store) :
    Initializes (path.getD environment.configuration) force store
      (store.answer (CommandLine.writeDefault environment path force))
      (store.after (CommandLine.writeDefault environment path force)) := by
  unfold CommandLine.writeDefault
  generalize path.getD environment.configuration = location
  rw [onlyReads_isPresent.answer_bind, onlyReads_isPresent.after_bind, answer_isPresent]
  -- whether it goes on depends on what is found there, and on force
  cases hpresent : store.isPresent location && !force with
  | true =>
    rw [Bool.and_eq_true, Bool.not_eq_true'] at hpresent
    exact .present hpresent.1 hpresent.2
  | false =>
    rw [Bool.and_eq_false_iff, Bool.not_eq_false'] at hpresent
    rw [if_neg Bool.false_ne_true, answer_bind, after_bind]
    have hsaves := Configuration.save_saves location .default store
    cases hanswer : store.answer (Configuration.save location .default) with
    | error e =>
      rw [hanswer] at hsaves
      exact .unsaved hpresent hsaves
    | ok =>
      rw [hanswer] at hsaves
      exact .saved hpresent hsaves

/-! ## Command lines -/

theorem answer_run {arguments : List (List Char)} {request : Request}
    (h : Request.read arguments = .ok request) (store : Store) :
    store.answer (run environment arguments) =
      outcomeOf (store.answer (request.perform environment)) := by
  unfold run
  rw [h]
  rfl

theorem after_run {arguments : List (List Char)} {request : Request}
    (h : Request.read arguments = .ok request) (store : Store) :
    store.after (run environment arguments) = store.after (request.perform environment) := by
  unfold run
  rw [h]
  rfl

/-- What a conversion leaves alone that ends with an exit code. -/
structure ConversionSpares (environment : Environment) (input : Location)
    (output configuration : Option Location) (overrides : Overrides) (store : Store)
    (exitCode : UInt32) (changed : Store) : Prop where
  /-- At most what is at the place that the output names is changed. -/
  others : changed = store ∨ ∃ location place, output = some location ∧
    store.resolve location = .ok place ∧ SameBut place store changed
  unloaded : ∀ failure,
    store.answer (loadConfiguration environment configuration) = .error failure →
      changed = store ∧ exitCode = 1
  refused : ∀ loaded cause,
    store.answer (loadConfiguration environment configuration) = .ok loaded →
      (overrides.apply loaded.setup).check = .error cause → changed = store ∧ exitCode = 1
  unread : ∀ loaded cause,
    store.answer (loadConfiguration environment configuration) = .ok loaded →
      store.answer (Drawing.load (α := Float) loaded.fineness input) = .error cause →
        changed = store ∧ exitCode = 1

theorem Converts.spares {input : Location} {output configuration : Option Location}
    {overrides : Overrides} {result : Except Failure (List Char)} {changed : Store}
    (h : Converts environment input output configuration overrides store result changed) :
    ConversionSpares environment input output configuration overrides store
      (outcomeOf result).exitCode changed := by
  cases h with
  | unloaded | refused | unread =>
    exact ⟨.inl rfl, fun _ _ => ⟨rfl, rfl⟩, fun _ _ _ _ => ⟨rfl, rfl⟩,
      fun _ _ _ _ => ⟨rfl, rfl⟩⟩
  | @converted loaded outlines hloaded hcheck hread program =>
    -- none of the earlier steps can fail as well
    refine ⟨after_deliver_cases program output store, fun _ h => ?_, fun _ _ h hrefused => ?_,
      fun _ _ h hunread => ?_⟩
    · rw [hloaded] at h
      cases h
    · rw [hloaded] at h
      cases h
      rw [hcheck] at hrefused
      cases hrefused
    · rw [hloaded] at h
      cases h
      rw [hread] at hunread
      cases hunread

/-- What writing a configuration to start from leaves alone, ending with an exit code. -/
structure InitializationSpares (location : Location) (force : Bool) (store : Store)
    (exitCode : UInt32) (changed : Store) : Prop where
  /-- However it ends, directories are made, and then at most what is at the place that
  the location names is changed. -/
  others : ∃ made, AddsDirectories store made ∧
    (changed = made ∨ ∃ place, made.resolve location = .ok place ∧ SameBut place made changed)
  /-- What is at the location is left alone, whether or not it may be found there. -/
  present : force = false → store.Has location → changed = store ∧ exitCode = 1
  noFormat : Configuration.Format.ofLocation? location = none → changed = store ∧ exitCode = 1
  noText : ∀ e, Configuration.textFor location .default = .error e →
    changed = store ∧ exitCode = 1
  /-- The directories above it are made, and then the configuration is put at the place
  that the location names. -/
  done : exitCode = 0 → ∃ made place text, AddsDirectories store made ∧
    made.resolve location = .ok place ∧ SameBut place made changed ∧
      Configuration.textFor location .default = .ok text ∧
        changed.entry? place = some (.file (String.ofList text).toUTF8)

section Ends

variable {location : Location} {force : Bool} {result : Except Failure (List Char)}
  {changed : Store}

theorem Initializes.exists_made (h : Initializes location force store result changed) :
    ∃ made, AddsDirectories store made ∧
      (changed = made ∨
        ∃ place, made.resolve location = .ok place ∧ SameBut place made changed) := by
  cases h with
  | present => exact ⟨store, .refl store, .inl rfl⟩
  | unsaved _ hsaves | saved _ hsaves => exact hsaves.others

/-- Without a text for the file nothing has been written. -/
theorem Initializes.of_textFor_eq_error (h : Initializes location force store result changed)
    {e : Configuration.Error} (htext : Configuration.textFor location .default = .error e) :
    changed = store ∧ (outcomeOf result).exitCode = 1 := by
  cases h with
  | present => exact ⟨rfl, rfl⟩
  | unsaved _ hsaves =>
    cases hsaves with
    | refused => exact ⟨rfl, rfl⟩
    | incomplete hok | unwritten hok => rw [htext] at hok; cases hok
  | saved _ hsaves =>
    cases hsaves with
    | done hok => rw [htext] at hok; cases hok

/-- Without force it goes on only if nothing is found, so what is there may not be found. -/
theorem Initializes.of_has (h : Initializes location force store result changed)
    (hforce : force = false) (hhas : store.Has location) :
    changed = store ∧ (outcomeOf result).exitCode = 1 := by
  have hhidden : ∀ {saved}, store.isPresent location = false ∨ force = true →
      Configuration.Saves location .default store saved changed →
        changed = store ∧ ∃ e, saved = .error e := by
    intro saved hgo hsaves
    refine hsaves.of_not_admits hhas fun hadmits => ?_
    have hfound : store.isPresent location = true := isPresent_iff.mpr ⟨hhas, hadmits⟩
    rcases hgo with habsent | hforced
    · rw [hfound] at habsent
      cases habsent
    · rw [hforce] at hforced
      cases hforced
  cases h with
  | present => exact ⟨rfl, rfl⟩
  | unsaved hgo hsaves => exact ⟨(hhidden hgo hsaves).1, rfl⟩
  | saved hgo hsaves =>
    obtain ⟨-, e, he⟩ := hhidden hgo hsaves
    cases he

/-- It ends well only if the configuration is put in its place. -/
theorem Initializes.of_exitCode_eq_zero (h : Initializes location force store result changed)
    (hcode : (outcomeOf result).exitCode = 0) :
    ∃ made place text, AddsDirectories store made ∧ made.resolve location = .ok place ∧
      SameBut place made changed ∧ Configuration.textFor location .default = .ok text ∧
        changed.entry? place = some (.file (String.ofList text).toUTF8) := by
  cases h with
  | present | unsaved => cases hcode
  | saved _ hsaves =>
    cases hsaves with
    | @done text place htext htarget =>
      exact ⟨_, place, text, Configuration.addsDirectories_makeParents store location,
        resolve_of_target htarget, sameBut_put _ _ _, htext,
        (resolve_put_of_target htarget _).2⟩

theorem Initializes.spares (h : Initializes location force store result changed) :
    InitializationSpares location force store (outcomeOf result).exitCode changed where
  others := h.exists_made
  present := h.of_has
  noFormat := by
    -- there is no text without a format
    intro hformat
    cases htext : Configuration.textFor location .default with
    | error e => exact h.of_textFor_eq_error htext
    | ok text =>
      obtain ⟨_, format, hsome, _⟩ := Configuration.textFor_eq_ok_iff.mp htext
      rw [hformat] at hsome
      cases hsome
  noText := fun _ htext => h.of_textFor_eq_error htext
  done := h.of_exitCode_eq_zero

end Ends

/-- **Commands change only what they are for**, whatever the store and the command line are. -/
theorem run_spares (environment : Environment) (arguments : List (List Char)) (store : Store) :
    let outcome := store.answer (run environment arguments)
    let changed := store.after (run environment arguments)
    (∀ stop, Request.read arguments = .error stop → changed = store) ∧
      (∀ file, Request.read arguments = .ok (.validate file) → changed = store) ∧
      (∀ file configuration, Request.read arguments = .ok (.estimate file configuration) →
        changed = store) ∧
      (∀ input, Request.read arguments = .ok (.inspect input) → changed = store) ∧
      (∀ input output configuration overrides,
        Request.read arguments = .ok (.convert input output configuration overrides) →
          ConversionSpares environment input output configuration overrides store
            outcome.exitCode changed) ∧
      (∀ path force, Request.read arguments = .ok (.writeDefault path force) →
        InitializationSpares (path.getD environment.configuration) force store
          outcome.exitCode changed) := by
  intro outcome changed
  refine ⟨fun stop h => ?_, fun file h => ?_, fun file configuration h => ?_, fun input h => ?_,
    fun input output configuration overrides h => ?_, fun path force h => ?_⟩
  -- no command was understood
  · show store.after (run environment arguments) = store
    unfold run
    rw [h]
    rfl
  -- the commands that only read
  · exact (after_run h store).trans (onlyReads_validate file store)
  · exact (after_run h store).trans (onlyReads_estimate environment file configuration store)
  · exact (after_run h store).trans (onlyReads_inspect environment input store)
  -- the commands that write
  · show ConversionSpares _ _ _ _ _ _ (store.answer (run environment arguments)).exitCode
      (store.after (run environment arguments))
    rw [answer_run h, after_run h]
    exact (convert_converts environment input output configuration overrides store).spares
  · show InitializationSpares _ _ _ (store.answer (run environment arguments)).exitCode
      (store.after (run environment arguments))
    rw [answer_run h, after_run h]
    exact (writeDefault_initializes environment path force store).spares

/-- Without force a file is written over that the location leads to only once the
directories above it are made. -/
theorem not_forall_target_spared :
    ¬ ∀ (environment : Environment) (arguments : List (List Char)) (store : Store)
      (location : Location) (place : Place) (content : ByteArray),
      Request.read arguments = .ok (.writeDefault (some location) false) →
        (store.after (run environment arguments)).resolve location = .ok place →
          store.entry? place = some (.file content) →
            Store.entry? (store.after (run environment arguments)) place =
              some (.file content) ∧
              (store.answer (run environment arguments)).exitCode = 1 := by
  intro h
  let location : Location := "missing/../config.toml".toList
  let store : Store :=
    { workingDirectory := [], entries := [(["config.toml".toList], .file "mine".toUTF8)] }
  let arguments : List (List Char) := ["config".toList, "init".toList, "-p".toList, location]
  -- once the directory is there, the location leads to the file
  have hplace : ((store.after (run ⟨[], []⟩ arguments)).resolve location).toOption =
      some ["config.toml".toList] := by decide +kernel
  cases hresolve : (store.after (run ⟨[], []⟩ arguments)).resolve location with
  | error cause =>
    rw [hresolve] at hplace
    cases hplace
  | ok place =>
    rw [hresolve] at hplace
    have hentry : store.entry? place = some (.file "mine".toUTF8) := by
      rw [Option.some.inj hplace]
      decide +kernel
    have hcode := (h ⟨[], []⟩ arguments store location place _ rfl hresolve hentry).2
    exact absurd hcode (by decide +kernel)

end Kerf.CommandLine
