import Kerf.Files.Store
import Kerf.Proofs.Files.Location

/-!
# What operations do to a store

An operation on files gives an answer for a store (`Store.answer`) and leaves a store
(`Store.after`). `Store.OnlyReads` tells the operations that always leave the store that
they are given.

Something can be at a location (`Has`) that may not be followed to its end (`Admits`).
What is looked up is found exactly if both hold (`exists_lookup_iff`): where a location
leads does not depend on what is refused, only whether it may be followed there does
(`walk_eq_ok_iff`).

The two operations that change a store are bounded by what they leave alone. Writing
changes at most what is at the one place that the location names (`SameBut`), also where
it breaks off (`Writes`). That place is no directory, so the location goes on to name it,
and what is written is read back (`read_of_target`). Making directories changes nothing
that is there and adds nothing but directories (`AddsDirectories`), and above something
that is there it adds none (`makeDirectories_parent`).
-/

namespace Kerf

/-- Nothing is refused. -/
def Refusals.none : Refusals where
  naming _ := .none
  searching _ _ := .none

namespace Store

variable {store other changed : Store} {location : Location} {place : Place}
    {content : ByteArray}

/-! ## Operations -/

/-- What an operation on files gives. -/
def answer {β : Type} (store : Store) (operation : StateM Store β) : β :=
  (operation store).1

/-- What an operation on files leaves. -/
def after {β : Type} (store : Store) (operation : StateM Store β) : Store :=
  (operation store).2

section Operations

variable {β γ : Type}

theorem answer_bind (operation : StateM Store β) (next : β → StateM Store γ) :
    store.answer (operation >>= next) =
      (store.after operation).answer (next (store.answer operation)) := rfl

theorem after_bind (operation : StateM Store β) (next : β → StateM Store γ) :
    store.after (operation >>= next) =
      (store.after operation).after (next (store.answer operation)) := rfl

@[simp] theorem answer_isPresent :
    store.answer (FileAccess.isPresent location) = store.isPresent location := rfl

@[simp] theorem answer_read :
    store.answer (FileAccess.read location) = store.read location := rfl

@[simp] theorem answer_write :
    store.answer (FileAccess.write location content) = (store.write location content).2 := rfl

@[simp] theorem after_write :
    store.after (FileAccess.write location content) = (store.write location content).1 := rfl

/-- An operation that leaves every store as it is. -/
def OnlyReads (operation : StateM Store β) : Prop :=
  ∀ store : Store, store.after operation = store

theorem OnlyReads.pure (value : β) : OnlyReads (pure value : StateM Store β) := fun _ => rfl

theorem OnlyReads.bind {operation : StateM Store β} {next : β → StateM Store γ}
    (h : OnlyReads operation) (hnext : ∀ value, OnlyReads (next value)) :
    OnlyReads (operation >>= next) := by
  intro store
  rw [after_bind, h, hnext]

theorem onlyReads_isPresent : OnlyReads (FileAccess.isPresent location) := fun _ => rfl

theorem onlyReads_read : OnlyReads (FileAccess.read location) := fun _ => rfl

theorem onlyReads_readText : OnlyReads (FileAccess.readText location) := by
  refine onlyReads_read.bind fun bytes => ?_
  cases bytes with
  | error cause => exact .pure _
  | ok bytes =>
    dsimp only
    cases Text.decode bytes with
    | error fault => exact .pure _
    | ok text => exact .pure _

/-- What follows an operation that only reads is carried out on the same store. -/
theorem OnlyReads.answer_bind {operation : StateM Store β} (h : OnlyReads operation)
    (next : β → StateM Store γ) :
    store.answer (operation >>= next) = store.answer (next (store.answer operation)) := by
  rw [Store.answer_bind, h]

theorem OnlyReads.after_bind {operation : StateM Store β} (h : OnlyReads operation)
    (next : β → StateM Store γ) :
    store.after (operation >>= next) = store.after (next (store.answer operation)) := by
  rw [Store.after_bind, h]

end Operations

/-! ## Places -/

theorem entry?_put_self (hplace : place ≠ []) (entry : Entry) :
    Store.entry? (store.put place entry) place = some entry := by
  unfold entry?
  rw [if_neg (by rwa [List.isEmpty_iff])]
  exact List.lookup_cons_self

/-- What is at one place is looked up the same without what is at another. -/
theorem lookup_filter_ne {other : Place} (h : other ≠ place) (entries : List (Place × Entry)) :
    (entries.filter fun (here, _) => here != place).lookup other = entries.lookup other := by
  induction entries with
  | nil => rfl
  | cons first rest ih =>
    obtain ⟨here, entry⟩ := first
    by_cases hplace : here = place
    · rw [List.filter_cons_of_neg (by simpa using hplace), ih, List.lookup_cons, hplace,
        beq_eq_false_iff_ne.mpr h]
    · rw [List.filter_cons_of_pos (by simpa using hplace), List.lookup_cons,
        List.lookup_cons, ih]

theorem entry?_put_of_ne {other : Place} (h : other ≠ place) (entry : Entry) :
    Store.entry? (store.put place entry) other = store.entry? other := by
  unfold entry?
  split
  · rfl
  · show List.lookup other ((place, entry) :: _) = _
    rw [List.lookup_cons, beq_eq_false_iff_ne.mpr h]
    exact lookup_filter_ne h store.entries

/-- Two stores are the same but for what is at a place. -/
structure SameBut (place : Place) (store changed : Store) : Prop where
  workingDirectory : changed.workingDirectory = store.workingDirectory
  refusals : changed.refusals = store.refusals
  entry : ∀ other, other ≠ place → changed.entry? other = store.entry? other

theorem sameBut_put (store : Store) (place : Place) (entry : Entry) :
    SameBut place store (store.put place entry) :=
  ⟨rfl, rfl, fun _ h => entry?_put_of_ne h entry⟩

/-- A store has what another has, and beyond that nothing but directories. -/
structure AddsDirectories (store changed : Store) : Prop where
  workingDirectory : changed.workingDirectory = store.workingDirectory
  refusals : changed.refusals = store.refusals
  entry : ∀ place, changed.entry? place = store.entry? place ∨
    store.entry? place = none ∧ changed.entry? place = some .directory

theorem AddsDirectories.refl (store : Store) : AddsDirectories store store :=
  ⟨rfl, rfl, fun _ => .inl rfl⟩

theorem AddsDirectories.trans (h : AddsDirectories store other)
    (h' : AddsDirectories other changed) : AddsDirectories store changed := by
  refine ⟨h'.workingDirectory.trans h.workingDirectory, h'.refusals.trans h.refusals,
    fun place => ?_⟩
  rcases h'.entry place with hsame | ⟨hnone, hdirectory⟩
  · rw [hsame]
    exact h.entry place
  · rcases h.entry place with hsame | ⟨_, hother⟩
    · rw [hsame] at hnone
      exact .inr ⟨hnone, hdirectory⟩
    · rw [hnone] at hother
      cases hother

/-! ## Making directories -/

theorem addsDirectories_put (h : store.entry? place = none) :
    AddsDirectories store (store.put place .directory) := by
  have hplace : place ≠ [] := by
    rintro rfl
    cases h
  refine ⟨rfl, rfl, fun other => ?_⟩
  by_cases hother : other = place
  · subst hother
    exact .inr ⟨h, entry?_put_self hplace .directory⟩
  · exact .inl (entry?_put_of_ne hother .directory)

theorem addsDirectories_makeAlong (components : List (List Char)) (store : Store)
    (place : Place) :
    AddsDirectories store (store.makeAlong place components).1 := by
  induction components generalizing store place with
  | nil => exact .refl store
  | cons component rest ih =>
    rw [makeAlong]
    cases store.step place component with
    | error cause => exact .refl store
    | ok next =>
      dsimp only
      -- a directory is only made where nothing is
      cases hentry : store.entry? next with
      | some entry =>
        cases entry with
        | file present => exact .refl store
        | directory => exact ih store next
      | none =>
        dsimp only
        cases store.refusals.making next with
        | some cause => exact .refl store
        | none => exact (addsDirectories_put hentry).trans (ih _ next)

/-- Making directories takes nothing away and changes no file. -/
theorem addsDirectories_makeDirectories (store : Store) (location : Location) :
    AddsDirectories store (store.makeDirectories location).1 := by
  unfold makeDirectories
  cases permit (store.refusals.naming location) with
  | error cause => exact .refl store
  | ok => exact addsDirectories_makeAlong location.steps store (store.start location)

/-! ## Following locations -/

theorem permit_eq_ok_iff {refusal : Option FileError} :
    permit refusal = .ok () ↔ refusal = none := by
  cases refusal with
  | none => exact iff_of_true rfl rfl
  | some cause => exact iff_of_false nofun nofun

theorem bind_eq_ok_iff {β γ : Type} {first : Except FileError β} {next : β → Except FileError γ}
    {result : γ} :
    first >>= next = .ok result ↔ ∃ value, first = .ok value ∧ next value = .ok result := by
  cases first with
  | error cause => exact iff_of_false nofun fun ⟨_, h, _⟩ => nomatch h
  | ok value => simp [bind, Except.bind]

/-- Something is gone on with exactly if it is not refused. -/
theorem permit_bind_eq_ok_iff {β : Type} {refusal : Option FileError} {value result : β} :
    (permit refusal >>= fun _ => .ok value) = .ok result ↔ refusal = none ∧ value = result := by
  rw [bind_eq_ok_iff, ← permit_eq_ok_iff]
  constructor
  · rintro ⟨_, hpermit, ⟨⟩⟩
    exact ⟨hpermit, rfl⟩
  · rintro ⟨hpermit, rfl⟩
    exact ⟨(), hpermit, rfl⟩

/-- A component is followed from a directory in which it may be looked up. -/
theorem step_eq_ok_iff {component : List Char} {next : Place} :
    store.step place component = .ok next ↔
      store.entry? place = some .directory ∧ store.refusals.searching place component = none ∧
        place.follow component = next := by
  unfold step
  cases store.entry? place with
  | none => exact iff_of_false nofun fun ⟨h, _⟩ => nomatch h
  | some entry =>
    cases entry with
    | file present => exact iff_of_false nofun fun ⟨h, _⟩ => nomatch h
    | directory =>
      rw [and_iff_right rfl]
      exact permit_bind_eq_ok_iff

/-- Further components can be followed only from a directory. -/
theorem entry?_of_walk {components : List (List Char)} {target : Place} (hne : components ≠ [])
    (h : components.foldlM store.step place = .ok target) :
    store.entry? place = some .directory := by
  cases components with
  | nil => exact absurd rfl hne
  | cons component rest =>
    rw [List.foldlM_cons, bind_eq_ok_iff] at h
    obtain ⟨next, hstep, -⟩ := h
    exact (step_eq_ok_iff.mp hstep).1

/-! ## Refusals -/

/-- The components that are looked up where some are followed from a place on, each with
the place of the directory that it is looked up in. -/
def lookups (place : Place) : List (List Char) → List (Place × List Char)
  | [] => []
  | component :: rest => (place, component) :: lookups (place.follow component) rest

/-- A location may be followed to its end: neither it nor any component on its way is
refused. -/
structure Admits (store : Store) (location : Location) : Prop where
  naming : store.refusals.naming location = none
  searching : ∀ step ∈ lookups (store.start location) location.steps,
    store.refusals.searching step.1 step.2 = none

/-- The store if nothing were refused. -/
def lifted (store : Store) : Store :=
  { store with refusals := .none }

/-- Something is at a location, whether or not it may be found there. -/
def Has (store : Store) (location : Location) : Prop :=
  ∃ found, store.lifted.lookup location = .ok found

theorem lifted_step_eq_ok_iff {component : List Char} {next : Place} :
    store.lifted.step place component = .ok next ↔
      store.entry? place = some .directory ∧ place.follow component = next := by
  rw [step_eq_ok_iff]
  exact and_congr_right fun _ => and_iff_right rfl

/-- Where components lead does not depend on what is refused, only whether they may be
followed does. -/
theorem walk_eq_ok_iff {components : List (List Char)} {target : Place} :
    components.foldlM store.step place = .ok target ↔
      components.foldlM store.lifted.step place = .ok target ∧
        ∀ step ∈ lookups place components, store.refusals.searching step.1 step.2 = none := by
  induction components generalizing place with
  | nil => exact (and_iff_left (List.forall_mem_nil _)).symm
  | cons component rest ih =>
    rw [List.foldlM_cons, List.foldlM_cons, bind_eq_ok_iff, bind_eq_ok_iff, lookups,
      List.forall_mem_cons]
    constructor
    · rintro ⟨next, hstep, hrest⟩
      obtain ⟨hentry, hsearching, rfl⟩ := step_eq_ok_iff.mp hstep
      obtain ⟨hwalk, hall⟩ := ih.mp hrest
      exact ⟨⟨_, lifted_step_eq_ok_iff.mpr ⟨hentry, rfl⟩, hwalk⟩, hsearching, hall⟩
    · rintro ⟨⟨next, hstep, hwalk⟩, hsearching, hall⟩
      obtain ⟨hentry, rfl⟩ := lifted_step_eq_ok_iff.mp hstep
      exact ⟨_, step_eq_ok_iff.mpr ⟨hentry, hsearching, rfl⟩, ih.mpr ⟨hwalk, hall⟩⟩

theorem resolve_eq_ok_iff :
    store.resolve location = .ok place ↔
      location ≠ [] ∧ store.refusals.naming location = none ∧
        location.steps.foldlM store.step (store.start location) = .ok place := by
  unfold resolve
  cases location with
  | nil => exact iff_of_false nofun fun ⟨h, _⟩ => h rfl
  | cons c rest =>
    rw [List.isEmpty_cons, if_neg Bool.false_ne_true, and_iff_right (List.cons_ne_nil _ _),
      ← permit_eq_ok_iff, bind_eq_ok_iff]
    constructor
    · rintro ⟨_, hpermit, hwalk⟩
      exact ⟨hpermit, hwalk⟩
    · rintro ⟨hpermit, hwalk⟩
      exact ⟨(), hpermit, hwalk⟩

theorem resolve_eq_ok_iff_lifted :
    store.resolve location = .ok place ↔
      store.lifted.resolve location = .ok place ∧ store.Admits location := by
  rw [resolve_eq_ok_iff, resolve_eq_ok_iff, walk_eq_ok_iff]
  constructor
  · rintro ⟨hne, hnaming, hwalk, hall⟩
    exact ⟨⟨hne, rfl, hwalk⟩, hnaming, hall⟩
  · rintro ⟨⟨hne, -, hwalk⟩, hnaming, hall⟩
    exact ⟨hne, hnaming, hwalk, hall⟩

theorem lookup_eq_ok_iff {found : Place × Entry} :
    store.lookup location = .ok found ↔
      store.lifted.lookup location = .ok found ∧ store.Admits location := by
  unfold lookup
  rw [bind_eq_ok_iff, bind_eq_ok_iff]
  constructor
  · rintro ⟨place, hresolve, hfound⟩
    obtain ⟨hlifted, hadmits⟩ := resolve_eq_ok_iff_lifted.mp hresolve
    exact ⟨⟨place, hlifted, hfound⟩, hadmits⟩
  · rintro ⟨⟨place, hlifted, hfound⟩, hadmits⟩
    exact ⟨place, resolve_eq_ok_iff_lifted.mpr ⟨hlifted, hadmits⟩, hfound⟩

/-- What is found at a location is there and may be found. -/
theorem exists_lookup_iff :
    (∃ found, store.lookup location = .ok found) ↔
      store.Has location ∧ store.Admits location := by
  constructor
  · rintro ⟨found, h⟩
    obtain ⟨hlifted, hadmits⟩ := lookup_eq_ok_iff.mp h
    exact ⟨⟨found, hlifted⟩, hadmits⟩
  · rintro ⟨⟨found, hlifted⟩, hadmits⟩
    exact ⟨found, lookup_eq_ok_iff.mpr ⟨hlifted, hadmits⟩⟩

theorem isPresent_iff :
    store.isPresent location = true ↔ store.Has location ∧ store.Admits location := by
  rw [← exists_lookup_iff]
  unfold isPresent
  cases store.lookup location with
  | error cause => exact iff_of_false nofun fun ⟨_, h⟩ => nomatch h
  | ok found => exact iff_of_true rfl ⟨found, rfl⟩

/-! ## Directories that are there -/

/-- On the way to a place all directories are there, so none is made, also where following
components is refused. -/
theorem makeAlong_eq_self {components rest : List (List Char)} {target : Place}
    (hrest : rest ≠ []) (h : (components ++ rest).foldlM store.lifted.step place = .ok target) :
    (store.makeAlong place components).1 = store := by
  induction components generalizing place with
  | nil => rfl
  | cons component components ih =>
    rw [List.cons_append, List.foldlM_cons, bind_eq_ok_iff] at h
    obtain ⟨next, hstep, hwalk⟩ := h
    -- the walk goes on from here, so this is a directory
    have hnext : store.lifted.entry? next = some .directory :=
      entry?_of_walk (List.append_ne_nil_of_right_ne_nil _ hrest) hwalk
    change store.entry? next = some .directory at hnext
    rw [makeAlong]
    cases hfollow : store.step place component with
    | error cause => rfl
    | ok found =>
      obtain ⟨-, -, rfl⟩ := step_eq_ok_iff.mp hfollow
      obtain ⟨-, rfl⟩ := lifted_step_eq_ok_iff.mp hstep
      dsimp only
      rw [hnext]
      exact ih hwalk

/-- The directory that a location lies in is not made if something is at the location. -/
theorem makeDirectories_parent {parent : Location} (hparent : location.parent? = some parent)
    (hne : parent ≠ []) (h : store.Has location) :
    (store.makeDirectories parent).1 = store := by
  obtain ⟨habsolute, rest, hrest, hsteps⟩ := Location.exists_steps_of_parent? hparent hne
  obtain ⟨found, hlookup⟩ := h
  unfold lookup at hlookup
  obtain ⟨place, hresolve, -⟩ := bind_eq_ok_iff.mp hlookup
  obtain ⟨-, -, hwalk⟩ := resolve_eq_ok_iff.mp hresolve
  -- both walks start at the same place
  have hstart : store.start parent = store.lifted.start location := by
    unfold start
    rw [habsolute]
    rfl
  unfold makeDirectories
  cases permit (store.refusals.naming parent) with
  | error cause => rfl
  | ok =>
    rw [hsteps, ← hstart] at hwalk
    exact makeAlong_eq_self hrest hwalk

/-! ## Writing and reading -/

/-- What can be written is a place where no directory is, in a directory. -/
theorem target_eq_ok_iff :
    store.target location = .ok place ↔
      location.namesDirectory = false ∧ store.resolve location = .ok place ∧
        store.entry? place ≠ some .directory ∧
        ((∃ present, store.entry? place = some (.file present)) ∨
          store.entry? place.dropLast = some .directory) ∧
        store.refusals.writing place = none := by
  unfold target
  cases store.resolve location with
  | error cause => exact iff_of_false nofun fun ⟨_, h, _⟩ => nomatch h
  | ok resolved =>
    rw [Except.ok.injEq]
    dsimp only [bind, Except.bind]
    cases hentry : store.entry? resolved with
    | none =>
      cases location.namesDirectory with
      | true => exact iff_of_false nofun fun ⟨h, _⟩ => nomatch h
      | false =>
        -- a new file, which needs a directory to be in
        by_cases hparent : store.entry? resolved.dropLast = some .directory
        · dsimp only
          rw [if_neg Bool.false_ne_true, if_pos hparent]
          refine permit_bind_eq_ok_iff.trans ?_
          constructor
          · rintro ⟨hwriting, rfl⟩
            exact ⟨rfl, rfl, by rw [hentry]; exact nofun, .inr hparent, hwriting⟩
          · rintro ⟨_, rfl, _, _, hwriting⟩
            exact ⟨hwriting, rfl⟩
        · dsimp only
          rw [if_neg Bool.false_ne_true, if_neg hparent]
          refine iff_of_false nofun ?_
          rintro ⟨_, rfl, _, ⟨present, hpresent⟩ | hdirectory, _⟩
          · rw [hentry] at hpresent
            cases hpresent
          · exact hparent hdirectory
    | some entry =>
      cases entry with
      | directory =>
        refine iff_of_false nofun ?_
        rintro ⟨_, rfl, hne, _⟩
        exact hne hentry
      | file present =>
        -- a file that is there, which no slash may follow
        cases location.namesDirectory with
        | true => exact iff_of_false nofun fun ⟨h, _⟩ => nomatch h
        | false =>
          refine permit_bind_eq_ok_iff.trans ?_
          constructor
          · rintro ⟨hwriting, rfl⟩
            exact ⟨rfl, rfl, by rw [hentry]; exact nofun, .inl ⟨present, hentry⟩, hwriting⟩
          · rintro ⟨_, rfl, _, _, hwriting⟩
            exact ⟨hwriting, rfl⟩

/-- The ways in which writing a content to a location ends: what is left of the store, and
what is given. -/
inductive Writes (store : Store) (location : Location) (content : ByteArray) :
    Store → Except FileError Unit → Prop
  /-- The file is not opened. -/
  | unopened {cause : FileError} (h : store.target location = .error cause) :
    Writes store location content store (.error cause)
  /-- Writing breaks off, and the file holds what is written until then. -/
  | broken {place : Place} {size : Nat} {cause : FileError}
    (h : store.target location = .ok place)
    (hfilling : store.refusals.filling place = some (size, cause))
    (hsize : size < content.size) :
    Writes store location content (store.put place (.file (content.extract 0 size)))
      (.error cause)
  | done {place : Place} (h : store.target location = .ok place) :
    Writes store location content (store.put place (.file content)) (.ok ())

theorem write_writes (store : Store) (location : Location) (content : ByteArray) :
    Writes store location content (store.write location content).1
      (store.write location content).2 := by
  unfold write
  -- the file is emptied first, so a fault after that leaves what was taken till then
  cases htarget : store.target location with
  | error cause => exact .unopened htarget
  | ok place =>
    dsimp only
    unfold fill
    cases hfilling : store.refusals.filling place with
    | none => exact .done htarget
    | some limit =>
      obtain ⟨size, cause⟩ := limit
      dsimp only
      split
      · exact .done htarget
      · next hsize => exact .broken htarget hfilling (Nat.lt_of_not_le hsize)

/-- Following a component passes through a directory, so it is the same after something is
put where none is. -/
theorem step_put (h : store.entry? place ≠ some .directory) (entry : Entry)
    {origin next : Place} {component : List Char}
    (hstep : store.step origin component = .ok next) :
    (store.put place entry).step origin component = .ok next := by
  obtain ⟨hentry, hsearching, hnext⟩ := step_eq_ok_iff.mp hstep
  have hne : origin ≠ place := fun heq => h (heq ▸ hentry)
  exact step_eq_ok_iff.mpr ⟨(entry?_put_of_ne hne entry).trans hentry, hsearching, hnext⟩

theorem walk_put (h : store.entry? place ≠ some .directory) (entry : Entry)
    {origin target : Place} {components : List (List Char)}
    (hwalk : components.foldlM store.step origin = .ok target) :
    components.foldlM (store.put place entry).step origin = .ok target := by
  induction components generalizing origin with
  | nil => exact hwalk
  | cons component rest ih =>
    rw [List.foldlM_cons, bind_eq_ok_iff] at hwalk ⊢
    obtain ⟨next, hstep, hrest⟩ := hwalk
    exact ⟨next, step_put h entry hstep, ih hrest⟩

theorem resolve_put (h : store.entry? place ≠ some .directory) (entry : Entry) {target : Place}
    (hresolve : store.resolve location = .ok target) :
    (store.put place entry).resolve location = .ok target := by
  obtain ⟨hne, hnaming, hwalk⟩ := resolve_eq_ok_iff.mp hresolve
  exact resolve_eq_ok_iff.mpr ⟨hne, hnaming, walk_put h entry hwalk⟩

theorem resolve_of_target (h : store.target location = .ok place) :
    store.resolve location = .ok place :=
  (target_eq_ok_iff.mp h).2.1

/-- What is written is at the place that the location goes on to name. -/
theorem resolve_put_of_target (h : store.target location = .ok place) (content : ByteArray) :
    (store.put place (.file content)).resolve location = .ok place ∧
      Store.entry? (store.put place (.file content)) place = some (.file content) := by
  obtain ⟨_, hresolve, hne, _⟩ := target_eq_ok_iff.mp h
  have hplace : place ≠ [] := by
    rintro rfl
    exact hne rfl
  exact ⟨resolve_put hne _ hresolve, entry?_put_self hplace _⟩

/-- Writing changes at most what is at the place that the location names. -/
theorem Writes.others {result : Except FileError Unit}
    (h : Writes store location content changed result) :
    changed = store ∨ ∃ place, store.resolve location = .ok place ∧
      SameBut place store changed := by
  cases h with
  | unopened => exact .inl rfl
  | broken htarget | done htarget =>
    exact .inr ⟨_, resolve_of_target htarget, sameBut_put store _ _⟩

/-- **What is written is read back**, unless the file may not be read. -/
theorem read_of_target (h : store.target location = .ok place) (content : ByteArray) :
    (store.put place (.file content)).read location =
      (permit (store.refusals.reading place)).map fun _ => content := by
  obtain ⟨hresolve, hentry⟩ := resolve_put_of_target h content
  have hname : location.namesDirectory = false := (target_eq_ok_iff.mp h).1
  -- the location still leads to the place, where the new content is
  have hlookup : (store.put place (.file content)).lookup location =
      .ok (place, .file content) := by
    unfold lookup
    rw [hresolve]
    dsimp only [bind, Except.bind]
    rw [hentry]
    simp [hname]
  rw [read, hlookup]
  show (permit (store.refusals.reading place) >>= fun _ => _) = _
  cases permit (store.refusals.reading place) with
  | error cause => rfl
  | ok => rfl

theorem answer_readText (store : Store) (location : Location) :
    store.answer (FileAccess.readText location) = store.read location >>= fun bytes =>
      (Text.decode bytes).mapError fun _ => .notText := by
  unfold FileAccess.readText
  rw [onlyReads_read.answer_bind, answer_read]
  cases store.read location with
  | error cause => rfl
  | ok bytes =>
    dsimp only [bind, Except.bind]
    cases Text.decode bytes with
    | error fault => rfl
    | ok text => rfl

theorem answer_readText_of_target (h : store.target location = .ok place)
    (hreading : store.refusals.reading place = none) (text : String) :
    (store.put place (.file text.toUTF8)).answer (FileAccess.readText location) = .ok text := by
  rw [answer_readText, read_of_target h, hreading]
  show (Text.decode text.toUTF8).mapError _ = _
  rw [Text.decode_eq_ok_iff.mpr rfl]
  rfl

end Store

end Kerf
