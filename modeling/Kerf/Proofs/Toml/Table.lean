import Kerf.Toml.Table

/-!
# Tables of plain documents

A document whose tables have headers of a single name each, and entries with single names,
makes the record of these tables (`ofStatements?_statementsOf`), provided that no name is
there twice. Each statement adds a node at the end: a header one to the root
(`add?_header`), and an entry one to the table that was started last (`add?_entry`).
-/

namespace Kerf.Toml

/-- A table by its name and its entries. -/
abbrev PlainTable := List Char × List (List Char × Datum)

namespace PlainTable

/-- A table as a member of a record. -/
def member (table : PlainTable) : List Char × Datum :=
  (table.1, .record table.2)

/-- The statement of an entry. -/
def entryOf (entry : List Char × Datum) : Statement :=
  .entry ⟨[], entry.1⟩ entry.2

/-- The statements of a table: its header and its entries. -/
def statements (table : PlainTable) : List Statement :=
  .table ⟨[], table.1⟩ :: table.2.map entryOf

/-- What the name of an entry stands for. -/
def leaf (entry : List Char × Datum) : List Char × Node :=
  (entry.1, .value entry.2)

/-- What the name of a table stands for. -/
def node (table : PlainTable) : List Char × Node :=
  (table.1, .table .stated (table.2.map leaf))

end PlainTable

open PlainTable

/-! ## Entries -/

section Entries

variable {entries : Entries} {name : List Char}

theorem lookup_eq_none (h : name ∉ entries.map Prod.fst) : entries.lookup name = none := by
  rw [List.lookup_eq_none_iff]
  intro entry hentry
  rw [bne_iff_ne]
  rintro rfl
  exact h (List.mem_map_of_mem hentry)

/-- A new name is put at the end. -/
theorem put_of_not_mem (h : name ∉ entries.map Prod.fst) (node : Node) :
    put name node entries = entries ++ [(name, node)] := by
  induction entries with
  | nil => rfl
  | cons entry entries ih =>
    rw [List.map_cons, List.mem_cons, not_or] at h
    rw [put, if_neg fun heq => h.1 heq.symm, ih h.2]
    rfl

/-- The name at the end is found there. -/
theorem lookup_append_self (h : name ∉ entries.map Prod.fst) (node : Node) :
    (entries ++ [(name, node)]).lookup name = some node := by
  rw [List.lookup_append, lookup_eq_none h, Option.none_or, List.lookup_cons_self]

/-- The name at the end is given another node there. -/
theorem put_append_self (h : name ∉ entries.map Prod.fst) (old node : Node) :
    put name node (entries ++ [(name, old)]) = entries ++ [(name, node)] := by
  induction entries with
  | nil =>
    show (if name = name then [(name, node)] else _) = _
    rw [if_pos rfl]
    rfl
  | cons entry entries ih =>
    rw [List.map_cons, List.mem_cons, not_or] at h
    rw [List.cons_append, put, if_neg fun heq => h.1 heq.symm, ih h.2]
    rfl

end Entries

/-! ## Statements -/

section Statements

variable {root inner : Entries} {name : List Char}

/-- A header starts a table at the end of the root. -/
theorem add?_header (current : List (List Char)) (h : name ∉ root.map Prod.fst) :
    Draft.add? ⟨root, current⟩ (.table ⟨[], name⟩) =
      some ⟨root ++ [(name, .table .stated [])], [name]⟩ := by
  show (startTable name .stated root).map _ = _
  rw [startTable, lookup_eq_none h]
  dsimp only
  rw [put_of_not_mem h]
  rfl

/-- An entry goes to the end of the table that was started last. -/
theorem add?_entry {entry : List Char × Datum} (h : name ∉ root.map Prod.fst)
    (hentry : entry.1 ∉ inner.map Prod.fst) :
    Draft.add? ⟨root ++ [(name, .table .stated inner)], [name]⟩ (entryOf entry) =
      some ⟨root ++ [(name, .table .stated (inner ++ [leaf entry]))], [name]⟩ := by
  have hinner : addEntry ⟨[], entry.1⟩ entry.2 .stated inner =
      some (inner ++ [leaf entry]) := by
    show (if (Origin.stated == .dotted) = true ∨ (inner.lookup entry.1).isSome = true then none
      else some (put entry.1 (.value entry.2) inner)) = _
    rw [lookup_eq_none hentry, if_neg (by decide), put_of_not_mem hentry]
    rfl
  show (changeAt false (addEntry ⟨[], entry.1⟩ entry.2) [name] .stated
    (root ++ [(name, .table .stated inner)])).map _ = _
  rw [changeAt, lookup_append_self h]
  show Option.map _ (Option.map _ (addEntry ⟨[], entry.1⟩ entry.2 .stated inner)) = _
  rw [hinner, Option.map_some, Option.map_some, put_append_self h]

/-- The entries of a table go to its end one after the other. -/
theorem foldlM_add?_entries {entries : List (List Char × Datum)} (h : name ∉ root.map Prod.fst)
    (hentries : (inner.map Prod.fst ++ entries.map Prod.fst).Nodup) :
    (entries.map entryOf).foldlM Draft.add? ⟨root ++ [(name, .table .stated inner)], [name]⟩ =
      some ⟨root ++ [(name, .table .stated (inner ++ entries.map leaf))], [name]⟩ := by
  induction entries generalizing inner with
  | nil =>
    rw [List.map_nil, List.map_nil, List.append_nil]
    rfl
  | cons entry entries ih =>
    have hnew : entry.1 ∉ inner.map Prod.fst := by
      intro hmem
      exact (List.nodup_append.mp hentries).2.2 _ hmem _ List.mem_cons_self rfl
    rw [List.map_cons, List.foldlM_cons, add?_entry h hnew]
    -- the names that are left differ from this one too
    have hrest : ((inner ++ [leaf entry]).map Prod.fst ++ entries.map Prod.fst).Nodup := by
      rw [List.map_append, List.append_assoc]
      exact hentries
    show (entries.map entryOf).foldlM Draft.add? ⟨root ++ [(name, .table .stated _)], [name]⟩ =
      _
    rw [ih hrest, List.append_assoc]
    rfl

/-- The tables go to the end of the root one after the other. -/
theorem foldlM_add?_statements {tables : List PlainTable} (current : List (List Char))
    (htables : (root.map Prod.fst ++ tables.map Prod.fst).Nodup)
    (hentries : ∀ table ∈ tables, (table.2.map Prod.fst).Nodup) :
    ∃ current', (tables.flatMap statements).foldlM Draft.add? ⟨root, current⟩ =
      some ⟨root ++ tables.map node, current'⟩ := by
  induction tables generalizing root current with
  | nil =>
    refine ⟨current, ?_⟩
    rw [List.map_nil, List.append_nil]
    rfl
  | cons table tables ih =>
    rw [List.forall_mem_cons] at hentries
    have hnew : table.1 ∉ root.map Prod.fst := by
      intro hmem
      exact (List.nodup_append.mp htables).2.2 _ hmem _ List.mem_cons_self rfl
    have hrest : ((root ++ [node table]).map Prod.fst ++ tables.map Prod.fst).Nodup := by
      rw [List.map_append, List.append_assoc]
      exact htables
    obtain ⟨current', hfold⟩ := ih [table.1] hrest hentries.2
    refine ⟨current', ?_⟩
    rw [List.flatMap_cons, List.foldlM_append, statements, List.foldlM_cons, add?_header _ hnew]
    show ((table.2.map entryOf).foldlM Draft.add?
      ⟨root ++ [(table.1, .table .stated [])], _⟩ >>= _) = _
    -- the header opens an empty table, and the entries fill it
    rw [foldlM_add?_entries hnew (by simpa using hentries.1)]
    show (tables.flatMap statements).foldlM Draft.add? ⟨root ++ [node table], [table.1]⟩ = _
    rw [hfold, List.append_assoc]
    rfl

end Statements

/-! ## Documents -/

theorem members_eq_map (entries : Entries) :
    members entries = entries.map fun (name, node) => (name, node.datum) := by
  induction entries with
  | nil => rfl
  | cons entry entries ih => rw [members, ih]; rfl

theorem members_leaves (entries : List (List Char × Datum)) :
    members (entries.map leaf) = entries := by
  rw [members_eq_map, List.map_map]
  exact List.map_id _

/-- **Plain tables make the record of themselves.** -/
theorem ofStatements?_statements {tables : List PlainTable}
    (htables : (tables.map Prod.fst).Nodup)
    (hentries : ∀ table ∈ tables, (table.2.map Prod.fst).Nodup) :
    ofStatements? (tables.flatMap statements) = some (.record (tables.map member)) := by
  have hnames : (([] : Entries).map Prod.fst ++ tables.map Prod.fst).Nodup := htables
  obtain ⟨current, hfold⟩ := foldlM_add?_statements [] hnames hentries
  rw [ofStatements?, hfold]
  show some (Datum.record (members (tables.map node))) = _
  rw [members_eq_map, List.map_map]
  congr 2
  refine List.map_congr_left fun table _ => ?_
  show (table.1, Datum.record (members (table.2.map leaf))) = _
  rw [members_leaves]
  rfl

end Kerf.Toml
