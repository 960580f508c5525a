import Kerf.Proofs.Path.Writing
import Kerf.Shape.Basic

/-!
# Vertex lists as path data

A list of numbers with blanks and commas between them is a vertex list, and behind the
letter `M` it is path data: a new subpath at the first pair, and lines to the others. The
two readings have nothing in common but the numbers, and yet the path draws the polyline
of the vertices, and with a `Z` at its end their polygon.

- `vertices`: the vertices that some numbers are, taken two at a time.
- `readPointList_of_isSpaced`: the vertex list is read as the vertices.
- `commands_line`, `commands_loop`: the path data is read as one command, and as two with
  the `Z`.
- `points_line`, `points_loop`: the commands draw the vertices, and come back to the
  first.
- `points_readPointList`: so the two are drawn the same.
-/

namespace Kerf

open Decimal (Literal)

namespace Shape

/-- The vertices that some numbers are; a number without a partner is left out. -/
def vertices {α : Type} (values : List α) : List (Point α) :=
  (Path.pairs values).map fun pair => ⟨pair.1, pair.2⟩

/-! ## As a vertex list -/

/-- What separates the numbers of a vertex list. -/
def isListSeparator (c : Char) : Bool :=
  Text.isBlank c || c == ','

theorem isListSeparator_of_isSeparator {c : Char} (h : Path.isSeparator c = true) :
    isListSeparator c = true := by
  rw [Path.isSeparator, Bool.or_eq_true] at h
  rw [isListSeparator, Bool.or_eq_true]
  exact h.imp_left Text.isBlank_of_isAsciiBlank

theorem isListSeparator_of_mem_text {literal : Literal} {c : Char} (hc : c ∈ literal.text) :
    isListSeparator c = false := by
  have hall : ∀ c ∈ literal.text, (!isListSeparator c) = true := by
    refine literal.all_text ?_ rfl
    intro c hdigit
    rw [isListSeparator, Text.isBlank_of_isDigit hdigit, Bool.false_or, Bool.not_eq_true',
      beq_eq_false_iff_ne]
    rintro rfl
    cases hdigit
  simpa using hall c hc

/-- Pairs of literals are read as pairs of their values. The induction takes two literals
at a time. -/
theorem readPairs_literals (literals : List Literal) :
    readPairs (literals.map (·.text)) = vertices (literals.map Literal.value) := by
  have hread : ∀ literal : Literal, Written.read? literal.text = some literal.value :=
    Literal.readFloat?_text
  induction literals using List.twoStepInduction with
  | nil => rfl
  | singleton literal => rfl
  | cons_cons first second rest ih _ =>
    rw [List.map_cons, List.map_cons, readPairs, hread first, hread second, ih]
    rfl

theorem readPointList_of_isSpaced {literals : List Literal} {text : List Char}
    (h : Text.IsSpaced Path.isSeparator (literals.map (·.text)) text) :
    readPointList text = vertices (literals.map Literal.value) := by
  have hwords : Text.words isListSeparator text = literals.map (·.text) := by
    refine Text.words_of_isSpaced (h.mono fun _ => isListSeparator_of_isSeparator) ?_
    intro part hpart
    obtain ⟨literal, -, rfl⟩ := List.mem_map.mp hpart
    obtain ⟨c, rest, htext, -⟩ := Path.exists_text_eq_cons literal
    exact ⟨htext ▸ List.cons_ne_nil c rest, fun c => isListSeparator_of_mem_text⟩
  rw [← readPairs_literals, ← hwords]
  rfl

/-! ## As path data -/

section After

/-! Spaced numbers may be followed by whatever may follow the last of them. -/

variable {rest : List Path.Lexeme} {after : List Char}
  (hafter : ∀ previous, Path.IsWritingAfter previous rest after)

include hafter

/-- The first of some spaced numbers may touch what is before it if that is a letter. -/
theorem isWritingAfter_of_isSpaced {literals : List Literal} {text : List Char}
    (h : Text.IsSpaced Path.isSeparator (literals.map (·.text)) text)
    {previous : Option Path.Lexeme}
    (hfirst : (∀ c ∈ text.head?, Path.isSeparator c = true) ∨
      ∀ before ∈ previous, ∀ next, before.mayTouch next) :
    Path.IsWritingAfter previous (literals.map .number ++ rest) (text ++ after) := by
  induction literals generalizing text previous with
  | nil =>
    cases h with
    | nil hrun => exact (hafter previous).run_append hrun
  | cons literal literals ih =>
    cases h with
    | @cons run _ _ text hrun hnext hrest =>
      -- without separators in front, the number touches what is before it
      have htouch : run = [] → ∀ before ∈ previous, before.mayTouch (.number literal) := by
        rintro rfl before hbefore
        rcases hfirst with hseparator | hletter
        · -- numbers do not start with a separator
          obtain ⟨c, tail, htext, hstart⟩ := Path.exists_text_eq_cons literal
          have hc := hseparator c (by show c ∈ (literal.text ++ text).head?; rw [htext]; rfl)
          rw [(Path.not_of_isNumberStart hstart).1] at hc
          cases hc
        · exact hletter before hbefore _
      rw [List.append_assoc, List.append_assoc]
      exact .cons hrun htouch (ih hrest (.inl hnext))

theorem isWriting_of_isSpaced {literals : List Literal} {text : List Char}
    (h : Text.IsSpaced Path.isSeparator (literals.map (·.text)) text) :
    Path.IsWriting (.letter 'M' rfl :: (literals.map .number ++ rest))
      ('M' :: (text ++ after)) := by
  have hnumbers : Path.IsWritingAfter (some (.letter 'M' rfl)) (literals.map .number ++ rest)
      (text ++ after) := by
    refine isWritingAfter_of_isSpaced hafter h (.inr ?_)
    rintro _ ⟨⟩ _
    trivial
  have hnone : ∀ c ∈ ([] : List Char), Path.isSeparator c = true := List.forall_mem_nil _
  exact .cons hnone (fun _ before hbefore => absurd hbefore (by simp)) hnumbers

end After

theorem isAlpha_move : 'M'.isAlpha = true := rfl

/-- The path data of a line through some vertices. -/
def linePhrase (literals : List Literal) : Path.Phrase :=
  ⟨'M', isAlpha_move, literals⟩

/-- The path data of a line back to the start. -/
def closingPhrase : Path.Phrase :=
  ⟨'Z', rfl, []⟩

theorem commands_line {literals : List Literal} {text : List Char}
    (h : Text.IsSpaced Path.isSeparator (literals.map (·.text)) text) :
    Path.commands ('M' :: text) = .ok [(linePhrase literals).command] := by
  have hafter : ∀ previous, Path.IsWritingAfter previous [] [] := fun _ =>
    .nil (List.forall_mem_nil _)
  have hwriting : Path.IsWriting ([linePhrase literals].flatMap Path.Phrase.lexemes)
      ('M' :: (text ++ [])) := isWriting_of_isSpaced hafter h
  rw [List.append_nil] at hwriting
  exact (Path.commands_of_isWriting hwriting).1

theorem commands_loop {literals : List Literal} {text : List Char}
    (h : Text.IsSpaced Path.isSeparator (literals.map (·.text)) text) :
    Path.commands ('M' :: (text ++ [' ', 'Z'])) =
      .ok [(linePhrase literals).command, closingPhrase.command] := by
  have hblank : ∀ c ∈ [' '], Path.isSeparator c = true := List.all_eq_true.mp rfl
  have hafter :
    ∀ previous, Path.IsWritingAfter previous [.letter 'Z' rfl] [' ', 'Z'] := fun _ =>
    .cons hblank (fun hempty => absurd hempty (by decide)) (.nil (List.forall_mem_nil _))
  have hwriting :
    Path.IsWriting ([linePhrase literals, closingPhrase].flatMap Path.Phrase.lexemes)
      ('M' :: (text ++ [' ', 'Z'])) := isWriting_of_isSpaced hafter h
  exact (Path.commands_of_isWriting hwriting).1

/-! ## Drawing -/

section Drawing

variable {α : Type} [Scalar α]

/-- Lines to given places leave these places. -/
theorem collect_lineTo (pen : Path.Pen α) (pairs : List (α × α)) :
    (Path.collect (Path.Pen.lineTo false) pen pairs).2 =
        pairs.map (fun pair => ⟨pair.1, pair.2⟩) ∧
      (Path.collect (Path.Pen.lineTo false) pen pairs).1.start = pen.start := by
  induction pairs generalizing pen with
  | nil => exact ⟨rfl, rfl⟩
  | cons pair pairs ih =>
    obtain ⟨hpoints, hstart⟩ := ih (Path.Pen.lineTo false pen pair).1
    rw [Path.collect_cons]
    dsimp only
    rw [hpoints, hstart]
    exact ⟨rfl, rfl⟩

/-- Moving along some vertices leaves them, and the subpath starts at the first. -/
theorem moveTo_pairs (pen : Path.Pen α) (values : List α) :
    (pen.moveTo false (Path.pairs values)).2 = vertices values ∧
      ∀ first ∈ (vertices values).head?,
        (pen.moveTo false (Path.pairs values)).1.start = first := by
  unfold vertices
  cases Path.pairs values with
  | nil => exact ⟨rfl, by simp⟩
  | cons pair pairs =>
    obtain ⟨hpoints, hstart⟩ :=
      collect_lineTo ⟨⟨pair.1, pair.2⟩, ⟨pair.1, pair.2⟩⟩ pairs
    constructor
    · exact congrArg (List.cons _) hpoints
    · rintro _ ⟨⟩
      exact hstart

theorem points_line (fineness : Fineness) (values : List α) :
    Path.points [⟨'M', values⟩] fineness = vertices values :=
  (List.append_nil _).trans (moveTo_pairs .atOrigin values).1

theorem points_loop (fineness : Fineness) {values : List α} (h : 2 ≤ values.length) :
    Path.points [⟨'M', values⟩, ⟨'Z', []⟩] fineness = closed (vertices values) := by
  obtain ⟨first, hfirst⟩ : ∃ first, (vertices values).head? = some first := by
    cases values with
    | nil => cases h
    | cons x values =>
      cases values with
      | nil => exact absurd h (Nat.not_succ_le_self 1)
      | cons y values => exact ⟨⟨x, y⟩, rfl⟩
  obtain ⟨hpoints, hstart⟩ := moveTo_pairs .atOrigin values
  have hclose : Path.points [⟨'M', values⟩, ⟨'Z', []⟩] fineness =
      (Path.Pen.atOrigin.moveTo false (Path.pairs values)).2 ++
        [(Path.Pen.atOrigin.moveTo false (Path.pairs values)).1.start] := rfl
  rw [hclose, hpoints, hstart first hfirst, closed, hfirst]
  rfl

end Drawing

/-- **Vertex lists and path data**: numbers with blanks and commas between them are drawn
the same as the vertices of a polyline and as path data behind an `M`, and the same as
those of a polygon and as path data with a `Z` at its end. They are taken two at a time,
and a last one without a partner is left out. -/
theorem points_readPointList {literals : List Literal} (hlength : 2 ≤ literals.length)
    {text : List Char} (h : Text.IsSpaced Path.isSeparator (literals.map (·.text)) text)
    (fineness : Fineness) :
    ∃ line loop : List (Path.Command Float),
      Path.commands ('M' :: text) = .ok line ∧
      Path.commands ('M' :: (text ++ [' ', 'Z'])) = .ok loop ∧
      (polyline (readPointList text)).points fineness = (path line).points fineness ∧
      (polygon (readPointList text)).points fineness = (path loop).points fineness ∧
      readPointList text = vertices (literals.map Literal.value) := by
  have hvertices : readPointList text = vertices (literals.map Literal.value) :=
    readPointList_of_isSpaced h
  have hvalues : 2 ≤ (literals.map Literal.value).length := by rwa [List.length_map]
  refine ⟨_, _, commands_line h, commands_loop h, ?_, ?_, hvertices⟩
  · rw [points, hvertices]
    exact (points_line fineness _).symm
  · rw [points, hvertices]
    exact (points_loop fineness hvalues).symm

/-- Of five numbers the last one has no partner; the polygon of the others comes back to
its first vertex. -/
theorem points_readPointList_odd_count :
    ∃ literals : List Literal, literals.length = 5 ∧
      Text.IsSpaced Path.isSeparator (literals.map (·.text)) "1.5,-2e1 .5\t, +3\n7".toList ∧
      ∃ loop, Path.commands "M1.5,-2e1 .5\t, +3\n7 Z".toList = .ok loop ∧
        (path loop : Shape Float).points .default =
          [⟨1.5, -20.0⟩, ⟨0.5, 3.0⟩, ⟨1.5, -20.0⟩] := by
  let literals : List Literal :=
    [ ⟨⟨.unsigned, ['1'], some ['5'], none, by simp, by simp⟩, by simp⟩,
      ⟨⟨.minus, ['2'], none, some ⟨'e', .unsigned, ['1'], .inl rfl, by decide⟩, by simp,
        by simp⟩, by simp⟩,
      ⟨⟨.unsigned, [], some ['5'], none, by simp, by simp⟩, by simp⟩,
      ⟨⟨.plus, ['3'], none, none, by simp, by simp⟩, by simp⟩,
      ⟨⟨.unsigned, ['7'], none, none, by simp, by simp⟩, by simp⟩ ]
  have hnone : ∀ c ∈ ([] : List Char), Path.isSeparator c = true := List.forall_mem_nil _
  have hcomma : ∀ c ∈ [','], Path.isSeparator c = true := List.all_eq_true.mp rfl
  have hblank : ∀ c ∈ [' '], Path.isSeparator c = true := List.all_eq_true.mp rfl
  have hmixed : ∀ c ∈ ['\t', ',', ' '], Path.isSeparator c = true := List.all_eq_true.mp rfl
  have hfeed : ∀ c ∈ ['\n'], Path.isSeparator c = true := List.all_eq_true.mp rfl
  have h : Text.IsSpaced Path.isSeparator (literals.map (·.text))
      "1.5,-2e1 .5\t, +3\n7".toList := by
    refine .cons_separator hnone rfl
      (.cons_separator hcomma rfl (.cons_separator hblank rfl ?_))
    exact .cons_separator hmixed rfl (.cons hfeed (by simp) (.nil hnone))
  have hlength : 2 ≤ literals.length := Nat.le_add_left 2 3
  -- the outline is that of the path, and the path is shorter to look at
  obtain ⟨_, loop, -, hloop, -, hpolygon, -⟩ := points_readPointList hlength h .default
  refine ⟨literals, rfl, h, loop, hloop, ?_⟩
  rw [← hpolygon]
  decide +kernel

end Shape

end Kerf
