import Kerf.Files.Location

/-!
# A store of files

A file system as a value: a working directory, what is at each place, and what is refused.
A place is the list of names that leads to it from the root, which is always a directory.

`Refusals` holds all that can keep an operation from being carried out besides what is at
the places: permissions, lengths of names, room for content. It says where looking a name
up is refused, so that something can be at a location and not be found, and after how many
bytes writing breaks off, so that a write that fails can have changed a file.

`Store` provides the operations of `FileAccess` on its own state, so that what a program
does to files can be computed and reasoned about.
-/

namespace Kerf

/-- A place of a store: the names that lead to it from the root. -/
abbrev Place := List (List Char)

/-- The place that a component leads to from another. -/
def Place.follow (place : Place) (component : List Char) : Place :=
  if component = Location.here then place
  else if component = Location.up then place.dropLast
  else place ++ [component]

/-- What is at a place. -/
inductive Entry where
  | file (content : ByteArray)
  | directory

instance : DecidableEq Entry
  | .file a, .file b =>
    decidable_of_iff (a.data = b.data)
      ⟨fun h => congrArg Entry.file (ByteArray.ext h), fun h => Entry.file.inj h ▸ rfl⟩
  | .directory, .directory => isTrue rfl
  | .file _, .directory | .directory, .file _ => isFalse nofun

/-- What a file system refuses, with the errors that it gives. -/
structure Refusals where
  /-- To take a location at all. -/
  naming : Location → Option FileError :=
    fun location => if location.size < 4096 then none else some .nameTooLong
  /-- To look a component up in the directory at a place. -/
  searching : Place → List Char → Option FileError :=
    fun _ component => if Location.size component < 256 then none else some .nameTooLong
  /-- To read what is at a place. -/
  reading : Place → Option FileError := fun _ => none
  /-- To write to the file at a place, or to make it. -/
  writing : Place → Option FileError := fun _ => none
  /-- To make the directory at a place. -/
  making : Place → Option FileError := fun _ => none
  /-- To take more than a number of bytes at a place. -/
  filling : Place → Option (Nat × FileError) := fun _ => none

/-- Goes on unless that is refused. -/
def permit : Option FileError → Except FileError Unit
  | none => .ok ()
  | some cause => .error cause

/-- A file system. -/
structure Store where
  workingDirectory : Place
  entries : List (Place × Entry)
  refusals : Refusals := {}

namespace Store

/-- What is at a place, if anything. -/
def entry? (store : Store) (place : Place) : Option Entry :=
  if place.isEmpty then some .directory else store.entries.lookup place

/-- Puts something at a place, instead of what is there. -/
def put (store : Store) (place : Place) (entry : Entry) : Store :=
  { store with
    entries := (place, entry) :: store.entries.filter fun (other, _) => other != place }

/-- The place where a location starts. -/
def start (store : Store) (location : Location) : Place :=
  if location.isAbsolute then [] else store.workingDirectory

/-- Follows one component from a place on, which must be that of a directory. -/
def step (store : Store) (place : Place) (component : List Char) : Except FileError Place := do
  match store.entry? place with
  | none => .error .notFound
  | some (.file _) => .error .notADirectory
  | some .directory =>
    permit (store.refusals.searching place component)
    return place.follow component

/-- The place that a location names; nothing need be there. -/
def resolve (store : Store) (location : Location) : Except FileError Place := do
  if location.isEmpty then .error .notFound
  else
    permit (store.refusals.naming location)
    location.steps.foldlM store.step (store.start location)

/-- The place that a location names, and what is there. -/
def lookup (store : Store) (location : Location) : Except FileError (Place × Entry) := do
  let place ← store.resolve location
  match store.entry? place with
  | none => .error .notFound
  | some (.file content) =>
    if location.namesDirectory then .error .notADirectory else .ok (place, .file content)
  | some .directory => .ok (place, .directory)

/-- Whether something is found at a location. -/
def isPresent (store : Store) (location : Location) : Bool :=
  (store.lookup location).isOk

/-- The content of the file at a location. -/
def read (store : Store) (location : Location) : Except FileError ByteArray := do
  let (place, entry) ← store.lookup location
  permit (store.refusals.reading place)
  match entry with
  | .file content => .ok content
  | .directory => .error .isADirectory

/-- The place of the file at a location, which can be written. -/
def target (store : Store) (location : Location) : Except FileError Place := do
  let place ← store.resolve location
  match store.entry? place with
  | some .directory => .error .isADirectory
  | some (.file _) =>
    if location.namesDirectory then .error .notADirectory
    else
      permit (store.refusals.writing place)
      return place
  | none =>
    if location.namesDirectory then .error .isADirectory
    else if store.entry? place.dropLast = some .directory then
      permit (store.refusals.writing place)
      return place
    else .error .notFound

/-- Makes the content of the file at a place, or as much of it as is taken there. -/
def fill (store : Store) (place : Place) (content : ByteArray) :
    Store × Except FileError Unit :=
  match store.refusals.filling place with
  | none => (store.put place (.file content), .ok ())
  | some (size, cause) =>
    if content.size ≤ size then (store.put place (.file content), .ok ())
    else (store.put place (.file (content.extract 0 size)), .error cause)

/-- Makes the content of the file at a location. -/
def write (store : Store) (location : Location) (content : ByteArray) :
    Store × Except FileError Unit :=
  match store.target location with
  | .error cause => (store, .error cause)
  | .ok place => store.fill place content

/-- Follows components from a place on and makes the directories that are missing. -/
def makeAlong (store : Store) (place : Place) : List (List Char) → Store × Except FileError Unit
  | [] => (store, .ok ())
  | component :: rest =>
    match store.step place component with
    | .error cause => (store, .error cause)
    | .ok next =>
      match store.entry? next with
      | some .directory => makeAlong store next rest
      | some (.file _) =>
        (store, .error (if rest.isEmpty then .alreadyExists else .notADirectory))
      | none =>
        match store.refusals.making next with
        | some cause => (store, .error cause)
        | none => makeAlong (store.put next .directory) next rest

/-- Makes the directory at a location and those above it. -/
def makeDirectories (store : Store) (location : Location) : Store × Except FileError Unit :=
  match permit (store.refusals.naming location) with
  | .error cause => (store, .error cause)
  | .ok () => store.makeAlong (store.start location) location.steps

instance : FileAccess (StateM Store) where
  isPresent location := do return (← get).isPresent location
  read location := do return (← get).read location
  write location content := do
    let (store, result) := (← get).write location content
    set store
    return result
  makeDirectories location := do
    let (store, result) := (← get).makeDirectories location
    set store
    return result

end Store

end Kerf
