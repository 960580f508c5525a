import Kerf.Proofs.Toml.Number
import Kerf.Proofs.Toml.Table

/-!
# Documents of TOML are read back

A record of records is written as plain tables. If its names need no quotes, none of them
is there twice, and its values are truth values, whole numbers that are not negative and
finite floats (`IsLegible`), then what is written is read as that very record
(`read?_of_write?`). Each line is taken off as the statement that it was written for, and
the statements make the record.
-/

namespace Kerf.Toml

open Decimal PlainTable

variable {rest : List Char}

/-! ## Names -/

/-- A name that needs no quotes. -/
def IsBareName (name : List Char) : Prop :=
  name ≠ [] ∧ ∀ c ∈ name, isBare c = true

instance (name : List Char) : Decidable (IsBareName name) :=
  decidable_of_iff ((!name.isEmpty && name.all isBare) = true) (by simp [IsBareName])

/-- The characters of names are no marks. -/
theorem ne_of_isBare {c d : Char} (hc : isBare c = true) (hd : isBare d = false) : c ≠ d := by
  rintro rfl
  rw [hd] at hc
  cases hc

theorem skipBlank_of_head {text : List Char} (h : ∀ c ∈ text.head?, Toml.isBlank c = false) :
    skipBlank text = text :=
  Text.dropWhile_of_head h

theorem isBlank_of_isBare {c : Char} (hc : isBare c = true) : Toml.isBlank c = false := by
  rw [Toml.isBlank, Bool.or_eq_false_iff, beq_eq_false_iff_ne, beq_eq_false_iff_ne]
  exact ⟨ne_of_isBare hc rfl, ne_of_isBare hc rfl⟩

theorem takeName?_append {name : List Char} (hname : IsBareName name)
    (hrest : ∀ c ∈ rest.head?, isBare c = false) :
    takeName? (name ++ rest) = some (name, rest) := by
  have htake := Text.takeWhile_run_append hname.2 hrest
  have hdrop := Text.dropWhile_run_append hname.2 hrest
  obtain ⟨c, letters, rfl⟩ := List.exists_cons_of_ne_nil hname.1
  have hc : isBare c = true := hname.2 c List.mem_cons_self
  rw [List.cons_append] at htake hdrop ⊢
  rw [takeName?, htake, hdrop]
  · rfl
  · exact fun _ heq => ne_of_isBare hc rfl (List.cons.inj heq).1
  · exact fun _ heq => ne_of_isBare hc rfl (List.cons.inj heq).1

/-- A name in front of a mark that is no point is a key by itself. -/
theorem takeKey?_append {name : List Char} (hname : IsBareName name)
    (hrest : ∀ c ∈ rest.head?, isBare c = false)
    (hpoint : ∀ c ∈ (skipBlank rest).head?, c ≠ '.') :
    takeKey? (name ++ rest) = some (⟨[], name⟩, skipBlank rest) := by
  have hblank : skipBlank (name ++ rest) = name ++ rest := by
    refine skipBlank_of_head fun c hc => ?_
    rw [List.head?_append_of_ne_nil _ hname.1] at hc
    exact isBlank_of_isBare (hname.2 c (List.mem_of_mem_head? hc))
  have hnames : takeNames? maxDepth (name ++ rest) = some ([name], skipBlank rest) := by
    rw [maxDepth, takeNames?, hblank, takeName?_append hname hrest]
    simp only [Option.bind_eq_bind, Option.bind_some]
    split
    · next htext => exact absurd rfl (hpoint '.' (by rw [htext]; rfl))
    · rfl
  rw [takeKey?, hnames]
  rfl

/-! ## Values -/

/-- The values that are read back as they are written. -/
inductive IsLegible : Datum → Prop
  | flag (value : Bool) : IsLegible (.flag value)
  | whole (n : Nat) : IsLegible (.whole n)
  | real {x : Float} (h : x.isFinite = true) : IsLegible (.real x)

theorem takeSimple?_of_writeValue? {value : Datum} (hvalue : IsLegible value) {text : List Char}
    (h : writeValue? value = some text) (hrest : Literal.Stops rest) :
    takeSimple? (text ++ rest) = some (value, rest) := by
  cases hvalue with
  | flag flag =>
    cases flag with
    | true => cases h; rfl
    | false => cases h; rfl
  | whole n => exact takeSimple?_of_writeWhole? h hrest
  | real hfinite =>
    cases h
    exact takeSimple?_writeFloat hfinite hrest

/-- No value without parts starts with a blank or a bracket. -/
theorem takeSimple?_cons_eq_none {c : Char} (hc : c = ' ' ∨ c = '\t' ∨ c = '[' ∨ c = '{')
    (tail : List Char) : takeSimple? (c :: tail) = none := by
  have hdigit : c.isDigit = false := by rcases hc with rfl | rfl | rfl | rfl <;> rfl
  have hmoment : takeMoment? (c :: tail) = none := by
    rw [takeMoment?, afterMoment?, afterDate?, afterTime?, takeBetween?_cons hdigit,
      takeBetween?_cons hdigit]
    rfl
  have hnumber : takeNumber? (c :: tail) = none := by
    rcases hc with rfl | rfl | rfl | rfl <;> rfl
  -- it opens no string and no word, and is neither a moment nor a number
  rw [takeSimple?, hmoment]
  · exact hnumber
  · rintro _ ⟨⟩
    simp at hc
  · rintro _ ⟨⟩
    simp at hc
  · rintro _ ⟨⟩
    simp at hc
  · rintro _ ⟨⟩
    simp at hc

theorem head?_of_takeSimple? {text : List Char} {taken : Datum × List Char}
    (h : takeSimple? text = some taken) {c : Char} (hc : c ∈ text.head?) :
    c ≠ ' ' ∧ c ≠ '\t' ∧ c ≠ '[' ∧ c ≠ '{' := by
  rw [← not_or, ← not_or, ← not_or]
  intro hmark
  obtain ⟨tail, rfl⟩ := List.head?_eq_some_iff.mp hc
  rw [takeSimple?_cons_eq_none hmark] at h
  cases h

/-- What has no parts is neither an array nor a table. -/
theorem takeValue?_of_takeSimple? {text : List Char} {taken : Datum × List Char}
    (h : takeSimple? text = some taken) (fuel depth : Nat) :
    takeValue? (fuel + 1) depth text = some taken := by
  rw [takeValue?, h]
  · rintro tail rfl
    exact (head?_of_takeSimple? h rfl).2.2.1 rfl
  · rintro tail rfl
    exact (head?_of_takeSimple? h rfl).2.2.2 rfl

/-! ## Lines -/

/-- What can be written as an entry. -/
structure IsLegibleEntry (entry : List Char × Datum) : Prop where
  name : IsBareName entry.1
  value : IsLegible entry.2

/-- No name starts like a header. -/
theorem ne_cons_of_isBareName {name : List Char} (hname : IsBareName name) {c : Char}
    (hc : isBare c = false) (text tail : List Char) : name ++ text ≠ c :: tail := by
  obtain ⟨d, letters, rfl⟩ := List.exists_cons_of_ne_nil hname.1
  exact fun heq => ne_of_isBare (hname.2 d List.mem_cons_self) hc (List.cons.inj heq).1

/-- The key of an entry, with the text of a value behind it. -/
theorem takeKeyOfEntry?_append {name : List Char} (hname : IsBareName name) {text : List Char}
    (htext : ∀ c ∈ text.head?, Toml.isBlank c = false) :
    takeKeyOfEntry? (name ++ ' ' :: '=' :: ' ' :: text) = some (⟨[], name⟩, text) := by
  have hmark : ∀ c ∈ (' ' :: '=' :: ' ' :: text).head?, isBare c = false := by
    rintro c ⟨⟩
    rfl
  have hpoint : ∀ c ∈ (skipBlank (' ' :: '=' :: ' ' :: text)).head?, c ≠ '.' := by
    rintro c ⟨⟩
    decide
  unfold takeKeyOfEntry?
  rw [takeKey?_append hname hmark hpoint]
  show some (Key.mk [] name, skipBlank text) = _
  rw [skipBlank_of_head htext]

theorem takeStatement?_of_writeEntry? {entry : List Char × Datum}
    (hentry : IsLegibleEntry entry) {line : List Char} (h : writeEntry? entry = some line)
    (rest : List Char) :
    takeStatement? (line ++ rest) = some (entryOf entry, '\n' :: rest) := by
  obtain ⟨value, hvalue, rfl⟩ := Option.map_eq_some_iff.mp h
  have hsimple := takeSimple?_of_writeValue? hentry.value hvalue
    (Literal.stops_cons (.inr rfl) rest)
  -- the value stands right behind the blank that is skipped
  have hblank : ∀ c ∈ (value ++ '\n' :: rest).head?, Toml.isBlank c = false := by
    intro c hc
    obtain ⟨hspace, htab, _⟩ := head?_of_takeSimple? hsimple hc
    rw [Toml.isBlank, Bool.or_eq_false_iff, beq_eq_false_iff_ne, beq_eq_false_iff_ne]
    exact ⟨hspace, htab⟩
  have hline : entry.1 ++ ' ' :: '=' :: ' ' :: (value ++ ['\n']) ++ rest =
      entry.1 ++ ' ' :: '=' :: ' ' :: (value ++ '\n' :: rest) := by simp
  rw [hline, takeStatement?, takeKeyOfEntry?_append hentry.name hblank]
  · show (takeValue? ((value ++ '\n' :: rest).length + 1) maxDepth (value ++ '\n' :: rest) >>=
      _) = _
    rw [takeValue?_of_takeSimple? hsimple]
    rfl
  · exact fun _ => ne_cons_of_isBareName hentry.name rfl _ _
  · exact fun _ => ne_cons_of_isBareName hentry.name rfl _ _

theorem takeStatement?_header {name : List Char} (hname : IsBareName name) (rest : List Char) :
    takeStatement? ('[' :: (name ++ ']' :: rest)) = some (.table ⟨[], name⟩, rest) := by
  have hmark : ∀ c ∈ (']' :: rest).head?, isBare c = false := by
    rintro c ⟨⟩
    rfl
  have hpoint : ∀ c ∈ (skipBlank (']' :: rest)).head?, c ≠ '.' := by
    rintro c ⟨⟩
    decide
  rw [takeStatement?, takeKey?_append hname hmark hpoint]
  · rfl
  · exact fun _ => ne_cons_of_isBareName hname rfl _ _

/-- A line that starts with a name or a bracket has neither blanks nor comments in front. -/
theorem skipLines_of_head {c : Char} (hc : isBare c = true ∨ c = '[') (text : List Char) :
    skipLines (c :: text) = c :: text := by
  have hne : ∀ d : Char, isBare d = false → d ≠ '[' → c ≠ d := by
    rintro d hd hbracket
    rcases hc with hc | rfl
    · exact ne_of_isBare hc hd
    · exact hbracket.symm
  have hblank : Toml.isBlank c = false := by
    rw [Toml.isBlank, Bool.or_eq_false_iff, beq_eq_false_iff_ne, beq_eq_false_iff_ne]
    exact ⟨hne _ rfl (by decide), hne _ rfl (by decide)⟩
  rw [skipLines, skipLinesFrom, if_neg Bool.false_ne_true, hblank, if_neg Bool.false_ne_true,
    if_neg (hne '#' rfl (by decide))]
  · exact fun heq => hne '\n' rfl (by decide) heq
  · exact fun _ heq => absurd heq (hne '\r' rfl (by decide))

/-- A statement on a line of its own, and the statements after it. -/
theorem statements?_of_takeStatement? {text : List Char} {statement : Statement}
    (h : takeStatement? text = some (statement, '\n' :: rest)) {c : Char} (hc : c ∈ text.head?)
    (hstart : isBare c = true ∨ c = '[') (fuel : Nat) :
    statements? (fuel + 1) text = (statements? fuel rest).map (statement :: ·) := by
  obtain ⟨tail, rfl⟩ := List.head?_eq_some_iff.mp hc
  rw [statements?, skipLines_of_head hstart]
  show (takeStatement? (c :: tail) >>= _) = _
  rw [h]
  exact (Option.map_eq_bind ..).symm

/-- An empty line does not count. -/
theorem statements?_feed (fuel : Nat) (text : List Char) :
    statements? fuel ('\n' :: text) = statements? fuel text := by
  cases fuel with
  | zero => rfl
  | succ fuel => rfl

theorem statements?_of_writeEntry? {entry : List Char × Datum} (hentry : IsLegibleEntry entry)
    {line : List Char} (h : writeEntry? entry = some line) (fuel : Nat) (rest : List Char) :
    statements? (fuel + 1) (line ++ rest) =
      (statements? fuel rest).map (entryOf entry :: ·) := by
  have htake := takeStatement?_of_writeEntry? hentry h rest
  obtain ⟨value, -, rfl⟩ := Option.map_eq_some_iff.mp h
  obtain ⟨c, letters, hcons⟩ := List.exists_cons_of_ne_nil hentry.name.1
  refine statements?_of_takeStatement? htake ?_ (.inl (hentry.name.2 c ?_)) fuel
  · rw [hcons]
    rfl
  · rw [hcons]
    exact List.mem_cons_self

/-- A list is written if its first element and all others can be. -/
theorem exists_of_mapM_cons {α β : Type} {write : α → Option β} {first : α} {others : List α}
    {texts : List β} (h : (first :: others).mapM write = some texts) :
    ∃ text rest, write first = some text ∧ others.mapM write = some rest ∧
      texts = text :: rest := by
  rw [List.mapM_cons] at h
  obtain ⟨text, htext, h⟩ := Option.bind_eq_some_iff.mp h
  obtain ⟨rest, hrest, h⟩ := Option.bind_eq_some_iff.mp h
  exact ⟨text, rest, htext, hrest, (Option.some.inj h).symm⟩

theorem statements?_of_mapM_writeEntry? {entries : List (List Char × Datum)}
    (hentries : ∀ entry ∈ entries, IsLegibleEntry entry) {lines : List (List Char)}
    (h : entries.mapM writeEntry? = some lines) (fuel : Nat) (rest : List Char) :
    statements? (fuel + entries.length) (lines.flatten ++ rest) =
      (statements? fuel rest).map (entries.map entryOf ++ ·) := by
  induction entries generalizing lines with
  | nil =>
    cases h
    show statements? fuel rest = (statements? fuel rest).map id
    rw [Option.map_id]
    rfl
  | cons entry entries ih =>
    rw [List.forall_mem_cons] at hentries
    obtain ⟨line, lines, hline, hlines, rfl⟩ := exists_of_mapM_cons h
    rw [List.flatten_cons, List.append_assoc, List.length_cons, ← Nat.add_assoc,
      statements?_of_writeEntry? hentries.1 hline, ih hentries.2 hlines, Option.map_map]
    rfl

/-! ## Tables -/

/-- What can be written as a table. -/
structure IsLegibleTable (table : PlainTable) : Prop where
  name : IsBareName table.1
  entries : ∀ entry ∈ table.2, IsLegibleEntry entry
  nodup : (table.2.map Prod.fst).Nodup

theorem statements?_of_writeTable? {table : PlainTable} (htable : IsLegibleTable table)
    {text : List Char} (h : writeTable? table.member = some text) (fuel : Nat)
    (rest : List Char) :
    statements? (fuel + table.statements.length) (text ++ rest) =
      (statements? fuel rest).map (table.statements ++ ·) := by
  obtain ⟨lines, hlines, rfl⟩ := Option.map_eq_some_iff.mp h
  have htext : '[' :: (table.1 ++ [']', '\n'] ++ lines.flatten) ++ rest =
      '[' :: (table.1 ++ ']' :: '\n' :: (lines.flatten ++ rest)) := by simp
  have hlength : fuel + table.statements.length = fuel + table.2.length + 1 := by
    rw [statements, List.length_cons, List.length_map]
    omega
  rw [htext, hlength,
    statements?_of_takeStatement? (takeStatement?_header htable.name _) rfl (.inr rfl),
    statements?_of_mapM_writeEntry? htable.entries hlines, Option.map_map]
  rfl

/-- The empty line between two tables does not count. -/
theorem exists_intercalate_cons (text : List Char) (texts : List (List Char)) :
    ∃ rest, List.intercalate ['\n'] (text :: texts) = text ++ rest ∧
      (List.intercalate ['\n'] texts).length ≤ rest.length ∧
      ∀ fuel, statements? fuel rest = statements? fuel (List.intercalate ['\n'] texts) := by
  cases texts with
  | nil => exact ⟨[], by simp [List.intercalate], Nat.le_refl _, fun _ => rfl⟩
  | cons second others =>
    exact ⟨'\n' :: List.intercalate ['\n'] (second :: others),
      by simp [List.intercalate, List.intersperse], Nat.le_succ _,
      fun fuel => statements?_feed fuel _⟩

theorem statements?_of_mapM_writeTable? {tables : List PlainTable}
    (htables : ∀ table ∈ tables, IsLegibleTable table) {texts : List (List Char)}
    (h : (tables.map member).mapM writeTable? = some texts) (fuel : Nat) :
    statements? (fuel + 1 + (tables.flatMap statements).length)
      (List.intercalate ['\n'] texts) =
      some (tables.flatMap statements) := by
  induction tables generalizing texts with
  | nil =>
    cases h
    rfl
  | cons table tables ih =>
    rw [List.forall_mem_cons] at htables
    obtain ⟨text, texts, htext, htexts, rfl⟩ := exists_of_mapM_cons h
    -- a blank line comes between two tables, and none behind the last
    obtain ⟨rest, hjoined, -, hrest⟩ := exists_intercalate_cons text texts
    rw [hjoined, List.flatMap_cons, List.length_append, Nat.add_comm table.statements.length,
      ← Nat.add_assoc, statements?_of_writeTable? htables.1 htext, hrest, ih htables.2 htexts]
    rfl

/-- Each statement has a line of its own. -/
theorem length_le_of_mapM_writeEntry? {entries : List (List Char × Datum)}
    {lines : List (List Char)} (h : entries.mapM writeEntry? = some lines) :
    entries.length ≤ lines.flatten.length := by
  induction entries generalizing lines with
  | nil => exact Nat.zero_le _
  | cons entry entries ih =>
    obtain ⟨line, lines, hline, hlines, rfl⟩ := exists_of_mapM_cons h
    obtain ⟨value, -, rfl⟩ := Option.map_eq_some_iff.mp hline
    have hrest := ih hlines
    rw [List.flatten_cons, List.length_append, List.length_append, List.length_cons,
      List.length_cons]
    omega

theorem length_statements_le {tables : List PlainTable} {texts : List (List Char)}
    (h : (tables.map member).mapM writeTable? = some texts) :
    (tables.flatMap statements).length ≤ (List.intercalate ['\n'] texts).length := by
  induction tables generalizing texts with
  | nil => exact Nat.zero_le _
  | cons table tables ih =>
    obtain ⟨text, texts, htext, htexts, rfl⟩ := exists_of_mapM_cons h
    obtain ⟨lines, hlines, rfl⟩ := Option.map_eq_some_iff.mp htext
    have hentries := length_le_of_mapM_writeEntry? hlines
    have htables := ih htexts
    -- a header and every entry take a character at least
    obtain ⟨rest, hjoined, hrest, -⟩ :=
      exists_intercalate_cons ('[' :: (table.1 ++ [']', '\n'] ++ lines.flatten)) texts
    rw [hjoined, List.flatMap_cons, List.length_append, List.length_append, List.length_cons,
      List.length_append, statements, List.length_cons, List.length_map]
    omega

/-! ## Documents -/

theorem skipMark_of_head {text : List Char} (h : ∀ c ∈ text.head?, c = '[') :
    skipMark text = text := by
  cases text with
  | nil => rfl
  | cons c text =>
    rw [h c rfl]
    rfl

theorem head?_of_mapM_writeTable? {tables : List PlainTable} {texts : List (List Char)}
    (h : (tables.map member).mapM writeTable? = some texts) {c : Char}
    (hc : c ∈ (List.intercalate ['\n'] texts).head?) : c = '[' := by
  cases tables with
  | nil =>
    cases h
    cases hc
  | cons table tables =>
    obtain ⟨text, texts, htext, -, rfl⟩ := exists_of_mapM_cons h
    obtain ⟨lines, -, rfl⟩ := Option.map_eq_some_iff.mp htext
    -- the first table starts with its header
    obtain ⟨rest, hjoined, -⟩ :=
      exists_intercalate_cons ('[' :: (table.1 ++ [']', '\n'] ++ lines.flatten)) texts
    rw [hjoined] at hc
    exact (Option.some.inj hc).symm

/-- **A document is read as what it was written from.** -/
theorem read?_of_write? {tables : List PlainTable}
    (htables : ∀ table ∈ tables, IsLegibleTable table) (hnodup : (tables.map Prod.fst).Nodup)
    {text : List Char} (h : write? (.record (tables.map member)) = some text) :
    read? text = some (.record (tables.map member)) := by
  obtain ⟨texts, htexts, rfl⟩ := Option.map_eq_some_iff.mp h
  have hlength := length_statements_le htexts
  have hread := statements?_of_mapM_writeTable? htables htexts
    ((List.intercalate ['\n'] texts).length - (tables.flatMap statements).length)
  have hfuel : (List.intercalate ['\n'] texts).length - (tables.flatMap statements).length + 1 +
      (tables.flatMap statements).length = (List.intercalate ['\n'] texts).length + 1 := by
        omega
  rw [hfuel] at hread
  rw [read?, skipMark_of_head fun _ => head?_of_mapM_writeTable? htexts, hread]
  exact ofStatements?_statements hnodup fun table htable => (htables table htable).nodup

end Kerf.Toml
