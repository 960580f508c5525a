import Kerf.Data.Datum

/-!
# Tables of TOML

A document is a sequence of statements: entries, and headers that say to which table the
entries after them belong. The statements build a tree of tables (`ofStatements?`), in
which no table and no value may be made twice.

How a table came to be says what may still be done to it. One with a header of its own is
complete where its entries end, and dotted keys cannot go through it. One that only stands
above others may get a header later. One that dotted keys made grows by dotted keys alone.
-/

namespace Kerf.Toml

/-- A key: the names of the tables that it leads through, and the name it ends in. -/
structure Key where
  path : List (List Char)
  name : List Char
  deriving DecidableEq, Repr

/-- All names of a key. -/
def Key.names (key : Key) : List (List Char) :=
  key.path ++ [key.name]

/-- What a document is made of. -/
inductive Statement where
  | entry (key : Key) (value : Datum)
  /-- The header of a table. -/
  | table (key : Key)
  /-- The header of a table that is added to an array of tables. -/
  | item (key : Key)
  deriving Repr

/-- How a table came to be. -/
inductive Origin where
  /-- By a header of its own. -/
  | stated
  /-- By a longer header. -/
  | implied
  /-- By dotted keys. -/
  | dotted
  deriving DecidableEq, Repr

/-- What a name stands for. -/
inductive Node where
  | value (datum : Datum)
  | table (origin : Origin) (entries : List (List Char × Node))
  /-- An array of tables: the last one, and the others from the last to the first. -/
  | tables (last : List (List Char × Node)) (earlier : List (List (List Char × Node)))
  deriving Repr

/-- What is in a table. -/
abbrev Entries := List (List Char × Node)

/-! ## Changing tables -/

/-- Makes a name stand for a node. -/
def put (name : List Char) (node : Node) : Entries → Entries
  | [] => [(name, node)]
  | (other, old) :: entries =>
    if other = name then (name, node) :: entries else (other, old) :: put name node entries

/-- A change of a table, which may depend on how the table came to be, and may not be
allowed. -/
abbrev Change := Origin → Entries → Option Entries

/-- A change of the table that a path leads to from another one; tables that are missing
on the way are made. The path is that of a dotted key or that of a header. -/
def changeAt (isDotted : Bool) (change : Change) : List (List Char) → Change
  | [], origin, entries => change origin entries
  | name :: path, _, entries =>
    match entries.lookup name with
    | none =>
      let origin := if isDotted then .dotted else .implied
      (changeAt isDotted change path origin []).map fun inner =>
        put name (.table origin inner) entries
    | some (.value _) => none
    | some (.table origin inner) =>
      if isDotted && origin == .stated then none
      else
        (changeAt isDotted change path origin inner).map fun inner =>
          put name (.table origin inner) entries
    | some (.tables last earlier) =>
      (changeAt isDotted change path .stated last).map fun last =>
        put name (.tables last earlier) entries

/-- Adds an entry to the table it is written in. A dotted key must end in a table made by
dotted keys, another key in a table not made by them. -/
def addEntry (key : Key) (value : Datum) : Change :=
  changeAt true (fun origin entries =>
    if (origin == .dotted) = key.path.isEmpty ∨ (entries.lookup key.name).isSome then none
    else some (put key.name (.value value) entries)) key.path

/-- Starts a table. -/
def startTable (name : List Char) : Change := fun _ entries =>
  match entries.lookup name with
  | none => some (put name (.table .stated []) entries)
  | some (.table .implied inner) => some (put name (.table .stated inner) entries)
  | some _ => none

/-- Adds a table to an array of tables. -/
def startItem (name : List Char) : Change := fun _ entries =>
  match entries.lookup name with
  | none => some (put name (.tables [] []) entries)
  | some (.tables last earlier) => some (put name (.tables [] (last :: earlier)) entries)
  | some _ => none

/-! ## Documents -/

/-- A document read so far: its root, and the path to the table that entries are added to. -/
structure Draft where
  root : Entries
  current : List (List Char)

/-- Carries a statement out. -/
def Draft.add? (draft : Draft) : Statement → Option Draft
  | .entry key value =>
    (changeAt false (addEntry key value) draft.current .stated draft.root).map fun root =>
      { draft with root }
  | .table key =>
    (changeAt false (startTable key.name) key.path .stated draft.root).map fun root =>
      ⟨root, key.names⟩
  | .item key =>
    (changeAt false (startItem key.name) key.path .stated draft.root).map fun root =>
      ⟨root, key.names⟩

mutual

/-- What a node stands for as a datum. -/
def Node.datum : Node → Datum
  | .value datum => datum
  | .table _ entries => .record (members entries)
  | .tables last earlier => .sequence (.record (members last) :: records earlier).reverse

/-- The entries of a table as members of a record. -/
def members : List (List Char × Node) → List (List Char × Datum)
  | [] => []
  | (name, node) :: entries => (name, node.datum) :: members entries

/-- Tables as records. -/
def records : List (List (List Char × Node)) → List Datum
  | [] => []
  | entries :: tables => .record (members entries) :: records tables

end

/-- The datum that statements make. -/
def ofStatements? (statements : List Statement) : Option Datum :=
  (statements.foldlM Draft.add? ⟨[], []⟩).map fun draft => .record (members draft.root)

end Kerf.Toml
