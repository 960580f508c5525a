import Kerf.Path.Pen

/-!
# Subpaths

A move that names a place begins a subpath, which goes on until the next such move. The
points of a path are a single list, in which it can no longer be seen where the subpaths
begin.

- `Pen.strokes`: what commands draw, with the subpaths kept apart, and `subpaths`, those
  of a path. What is drawn before the first move goes first, if there is such.
- `flatten_subpaths`: one after the other, the subpaths of a path are its points.
- `exists_draw_of_begins`: a subpath starts with the place that its move names, so none is
  empty (`ne_nil_of_mem_subpaths`).
- `Pen.length_begun_strokes`: as many subpaths are begun as there are moves that name a
  place.
-/

namespace Kerf.Path

variable {α : Type}

/-- Whether a command begins a subpath: a move that names a place does. -/
def Command.begins (command : Command α) : Bool :=
  command.letter.toUpper == 'M' && !(pairs command.parameters).isEmpty

/-- What commands draw, with the subpaths kept apart. -/
structure Strokes (α : Type) where
  /-- The points that are left before a subpath is begun. -/
  before : List (Point α)
  /-- The points of each subpath that is begun. -/
  begun : List (List (Point α))
  deriving DecidableEq, Repr

/-- All that is drawn, piece by piece. -/
def Strokes.pieces (strokes : Strokes α) : List (List (Point α)) :=
  if strokes.before.isEmpty then strokes.begun else strokes.before :: strokes.begun

theorem Strokes.flatten_pieces (strokes : Strokes α) :
    strokes.pieces.flatten = strokes.before ++ strokes.begun.flatten := by
  unfold pieces
  split
  · next hempty => rw [List.isEmpty_iff.mp hempty, List.nil_append]
  · rfl

variable [Scalar α]

/-- What a pen draws by some commands, with the subpaths kept apart. -/
def Pen.strokes (fineness : Fineness) (pen : Pen α) : List (Command α) → Strokes α
  | [] => ⟨[], []⟩
  | command :: rest =>
    let (next, points) := pen.draw fineness command
    let strokes := next.strokes fineness rest
    if command.begins then ⟨[], (points ++ strokes.before) :: strokes.begun⟩
    else ⟨points ++ strokes.before, strokes.begun⟩

/-- The subpaths of a path. -/
def subpaths (commands : List (Command α)) (fineness : Fineness) : List (List (Point α)) :=
  (Pen.atOrigin.strokes fineness commands).pieces

theorem Pen.strokes_cons_of_begins (fineness : Fineness) (pen : Pen α) {command : Command α}
    (h : command.begins = true) (rest : List (Command α)) :
    pen.strokes fineness (command :: rest) =
      ⟨[], ((pen.draw fineness command).2 ++
          ((pen.draw fineness command).1.strokes fineness rest).before) ::
        ((pen.draw fineness command).1.strokes fineness rest).begun⟩ := by
  rw [strokes]
  exact if_pos h

theorem Pen.strokes_cons_of_not_begins (fineness : Fineness) (pen : Pen α) {command : Command α}
    (h : ¬ command.begins = true) (rest : List (Command α)) :
    pen.strokes fineness (command :: rest) =
      ⟨(pen.draw fineness command).2 ++
          ((pen.draw fineness command).1.strokes fineness rest).before,
        ((pen.draw fineness command).1.strokes fineness rest).begun⟩ := by
  rw [strokes]
  exact if_neg h

/-! ## Points of subpaths -/

/-- Nothing that is drawn gets lost between the subpaths. -/
theorem Pen.flatten_strokes (fineness : Fineness) (pen : Pen α) (commands : List (Command α)) :
    (pen.strokes fineness commands).before ++ (pen.strokes fineness commands).begun.flatten =
      (pen.drawAll fineness commands).2 := by
  induction commands generalizing pen with
  | nil => rfl
  | cons command rest ih =>
    have hrest := ih (pen.draw fineness command).1
    rw [drawAll] at hrest
    rw [drawAll, collect_cons]
    by_cases hbegins : command.begins = true
    · rw [strokes_cons_of_begins fineness pen hbegins, List.nil_append, List.flatten_cons,
        List.append_assoc, hrest]
    · rw [strokes_cons_of_not_begins fineness pen hbegins, List.append_assoc, hrest]

/-- One after the other, the subpaths of a path are its points. -/
theorem flatten_subpaths (commands : List (Command α)) (fineness : Fineness) :
    (subpaths commands fineness).flatten = points commands fineness := by
  rw [subpaths, Strokes.flatten_pieces, Pen.flatten_strokes, points]

/-! ## Starts of subpaths -/

/-- A move that begins a subpath takes the pen to the place that it names first. -/
theorem exists_draw_of_begins (fineness : Fineness) (pen : Pen α) {command : Command α}
    (h : command.begins = true) :
    ∃ x y others points, pairs command.parameters = (x, y) :: others ∧
      (pen.draw fineness command).2 = pen.resolve command.isRelative x y :: points := by
  rw [Command.begins, Bool.and_eq_true, beq_iff_eq, Bool.not_eq_true',
    List.isEmpty_eq_false_iff] at h
  obtain ⟨hletter, hne⟩ := h
  obtain ⟨⟨x, y⟩, others, hpairs⟩ := List.exists_cons_of_ne_nil hne
  let place := pen.resolve command.isRelative x y
  refine ⟨x, y, others, (collect (Pen.lineTo command.isRelative) ⟨place, place⟩ others).2,
    hpairs, ?_⟩
  simp only [Pen.draw, hletter, hpairs, Pen.moveTo, place]

theorem Pen.ne_nil_of_mem_begun_strokes {fineness : Fineness} {pen : Pen α}
    {commands : List (Command α)} {subpath : List (Point α)}
    (h : subpath ∈ (pen.strokes fineness commands).begun) : subpath ≠ [] := by
  induction commands generalizing pen with
  | nil => cases h
  | cons command rest ih =>
    by_cases hbegins : command.begins = true
    · rw [strokes_cons_of_begins fineness pen hbegins, List.mem_cons] at h
      rcases h with rfl | hlater
      · obtain ⟨x, y, others, points, -, hdraw⟩ := exists_draw_of_begins fineness pen hbegins
        rw [hdraw, List.cons_append]
        exact List.cons_ne_nil _ _
      · exact ih hlater
    · rw [strokes_cons_of_not_begins fineness pen hbegins] at h
      exact ih h

theorem ne_nil_of_mem_subpaths {commands : List (Command α)} {fineness : Fineness}
    {subpath : List (Point α)} (h : subpath ∈ subpaths commands fineness) : subpath ≠ [] := by
  unfold subpaths Strokes.pieces at h
  split at h
  · exact Pen.ne_nil_of_mem_begun_strokes h
  · next hbefore =>
    rcases List.mem_cons.mp h with rfl | hbegun
    · exact mt List.isEmpty_iff.mpr hbefore
    · exact Pen.ne_nil_of_mem_begun_strokes hbegun

/-- As many subpaths are begun as there are moves that name a place. -/
theorem Pen.length_begun_strokes (fineness : Fineness) (pen : Pen α)
    (commands : List (Command α)) :
    (pen.strokes fineness commands).begun.length = commands.countP Command.begins := by
  induction commands generalizing pen with
  | nil => rfl
  | cons command rest ih =>
    by_cases hbegins : command.begins = true
    · rw [strokes_cons_of_begins fineness pen hbegins, List.countP_cons_of_pos hbegins,
        List.length_cons, ih]
    · rw [strokes_cons_of_not_begins fineness pen hbegins, List.countP_cons_of_neg hbegins, ih]

theorem countP_begins_le_length_subpaths (commands : List (Command α)) (fineness : Fineness) :
    commands.countP Command.begins ≤ (subpaths commands fineness).length := by
  have hbegun := Pen.length_begun_strokes fineness Pen.atOrigin commands
  unfold subpaths Strokes.pieces
  split
  · exact Nat.le_of_eq hbegun.symm
  · rw [List.length_cons, hbegun]
    exact Nat.le_succ _

end Kerf.Path
