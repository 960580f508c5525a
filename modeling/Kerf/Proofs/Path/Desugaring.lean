import Mathlib
import Kerf.Path.Pen

/-!
# Desugaring of path data

A command with relative coordinates, several tuples or a single coordinate stands for a
few plain ones: absolute, and with one tuple each (`Command.IsPlain`).

- `canonical`: the plain commands that a command stands for where the pen is. Tuples are
  written one after the other, each from where the one before it ends (`chained`).
- `desugar`: the plain commands of a list, each command taken where the pen is by then.
- `drawAll_canonical`: a command draws what its plain commands draw, and leaves the pen as
  they do.
- `drawAll_desugar`: so does a list. Nothing is assumed of the scalars: both sides do the
  same operations in the same order.
-/

namespace Kerf.Path

variable {α : Type}

/-! ## Plain commands -/

/-- A new subpath at a place. -/
def Command.moveTo (place : Point α) : Command α :=
  ⟨'M', [place.x, place.y]⟩

/-- A straight line to a place. -/
def Command.lineTo (place : Point α) : Command α :=
  ⟨'L', [place.x, place.y]⟩

/-- A line back to where the subpath began. -/
def Command.close : Command α :=
  ⟨'Z', []⟩

/-- A quadratic curve to a place. -/
def Command.quadraticTo (control place : Point α) : Command α :=
  ⟨'Q', [control.x, control.y, place.x, place.y]⟩

/-- A cubic curve to a place. -/
def Command.cubicTo (control₁ control₂ place : Point α) : Command α :=
  ⟨'C', [control₁.x, control₁.y, control₂.x, control₂.y, place.x, place.y]⟩

/-- An arc to a place. -/
def Command.arcTo (rx ry rotation large sweep : α) (place : Point α) : Command α :=
  ⟨'A', [rx, ry, rotation, large, sweep, place.x, place.y]⟩

/-- Whether a command is absolute and has the numbers of one tuple. -/
def Command.IsPlain (command : Command α) : Prop :=
  (command.letter, command.parameters.length) ∈
    [('M', 2), ('L', 2), ('Z', 0), ('Q', 4), ('C', 6), ('A', 7)]

/-- How many numbers make a tuple of a command. -/
def arity? (letter : Char) : Option Nat :=
  match letter.toUpper with
  | 'M' | 'L' => some 2
  | 'H' | 'V' => some 1
  | 'Q' => some 4
  | 'C' => some 6
  | 'A' => some 7
  | _ => none

/-- How many plain commands a command stands for. -/
def Command.plainCount (command : Command α) : Nat :=
  if command.letter.toUpper = 'Z' then 1
  else match arity? command.letter with
    | some arity => command.parameters.length / arity
    | none => 0

/-! ## Complete tuples -/

/-- Whether a list is cut into its complete tuples: they hold its numbers in their order,
as many as make whole tuples. -/
structure IsTupling {τ : Type} (arity : Nat) (split : List α → List τ) (join : τ → List α) :
    Prop where
  length_join : ∀ tuple, (join tuple).length = arity
  flatMap_join : ∀ values,
    (split values).flatMap join = values.take (arity * (values.length / arity))

theorem flatMap_pairs : ∀ values : List α,
    (pairs values).flatMap (fun (a, b) => [a, b]) = values.take (2 * (values.length / 2))
  | [] | [_] => by simp [pairs]
  | a :: b :: rest => by
    have hlength : 2 * ((rest.length + 1 + 1) / 2) = 2 * (rest.length / 2) + 1 + 1 := by omega
    simp only [pairs, List.flatMap_cons, flatMap_pairs rest, List.length_cons, hlength,
      List.take_succ_cons]
    rfl

theorem isTupling_pairs : IsTupling 2 (pairs (α := α)) fun (a, b) => [a, b] where
  length_join _ := rfl
  flatMap_join := flatMap_pairs

theorem flatMap_fours : ∀ values : List α,
    (fours values).flatMap (fun (a, b, c, d) => [a, b, c, d]) =
      values.take (4 * (values.length / 4))
  | [] | [_] | [_, _] | [_, _, _] => by simp [fours]
  | a :: b :: c :: d :: rest => by
    have hlength : 4 * ((rest.length + 1 + 1 + 1 + 1) / 4) =
        4 * (rest.length / 4) + 1 + 1 + 1 + 1 := by omega
    simp only [fours, List.flatMap_cons, flatMap_fours rest, List.length_cons, hlength,
      List.take_succ_cons]
    rfl

theorem isTupling_fours : IsTupling 4 (fours (α := α)) fun (a, b, c, d) => [a, b, c, d] where
  length_join _ := rfl
  flatMap_join := flatMap_fours

theorem flatMap_sixes : ∀ values : List α,
    (sixes values).flatMap (fun (a, b, c, d, e, f) => [a, b, c, d, e, f]) =
      values.take (6 * (values.length / 6))
  | [] | [_] | [_, _] | [_, _, _] | [_, _, _, _] | [_, _, _, _, _] => by simp [sixes]
  | a :: b :: c :: d :: e :: f :: rest => by
    have hlength : 6 * ((rest.length + 1 + 1 + 1 + 1 + 1 + 1) / 6) =
        6 * (rest.length / 6) + 1 + 1 + 1 + 1 + 1 + 1 := by omega
    simp only [sixes, List.flatMap_cons, flatMap_sixes rest, List.length_cons, hlength,
      List.take_succ_cons]
    rfl

theorem isTupling_sixes :
    IsTupling 6 (sixes (α := α)) fun (a, b, c, d, e, f) => [a, b, c, d, e, f] where
  length_join _ := rfl
  flatMap_join := flatMap_sixes

theorem flatMap_sevens : ∀ values : List α,
    (sevens values).flatMap (fun (a, b, c, d, e, f, g) => [a, b, c, d, e, f, g]) =
      values.take (7 * (values.length / 7))
  | [] | [_] | [_, _] | [_, _, _] | [_, _, _, _] | [_, _, _, _, _] | [_, _, _, _, _, _] => by
    simp [sevens]
  | a :: b :: c :: d :: e :: f :: g :: rest => by
    have hlength : 7 * ((rest.length + 1 + 1 + 1 + 1 + 1 + 1 + 1) / 7) =
        7 * (rest.length / 7) + 1 + 1 + 1 + 1 + 1 + 1 + 1 := by omega
    simp only [sevens, List.flatMap_cons, flatMap_sevens rest, List.length_cons, hlength,
      List.take_succ_cons]
    rfl

theorem isTupling_sevens :
    IsTupling 7 (sevens (α := α)) fun (a, b, c, d, e, f, g) => [a, b, c, d, e, f, g] where
  length_join _ := rfl
  flatMap_join := flatMap_sevens

/-- There are as many tuples as fit into the list. -/
theorem IsTupling.length_split {τ : Type} {arity : Nat} {split : List α → List τ}
    {join : τ → List α} (h : IsTupling arity split join) (hpos : 0 < arity) (values : List α) :
    (split values).length = values.length / arity := by
  have hjoined := congrArg List.length (h.flatMap_join values)
  rw [List.length_flatMap, List.map_congr_left fun tuple _ => h.length_join tuple,
    List.map_const', List.sum_replicate_nat, List.length_take,
    Nat.min_eq_left (Nat.mul_div_le ..), Nat.mul_comm] at hjoined
  exact Nat.eq_of_mul_eq_mul_left hpos hjoined

theorem length_pairs (values : List α) : (pairs values).length = values.length / 2 :=
  isTupling_pairs.length_split (by decide) values

theorem length_fours (values : List α) : (fours values).length = values.length / 4 :=
  isTupling_fours.length_split (by decide) values

theorem length_sixes (values : List α) : (sixes values).length = values.length / 6 :=
  isTupling_sixes.length_split (by decide) values

theorem length_sevens (values : List α) : (sevens values).length = values.length / 7 :=
  isTupling_sevens.length_split (by decide) values

/-! ## Canonical forms -/

/-- The commands of some tuples, each written from where the one before it ends. -/
def chained {τ : Type} (write : Point α → τ → Command α × Point α) :
    Point α → List τ → List (Command α)
  | _, [] => []
  | place, tuple :: rest =>
    let (command, finish) := write place tuple
    command :: chained write finish rest

/-- Each tuple is written as one command. -/
theorem length_chained {τ : Type} (write : Point α → τ → Command α × Point α) (place : Point α)
    (tuples : List τ) : (chained write place tuples).length = tuples.length := by
  induction tuples generalizing place with
  | nil => rfl
  | cons tuple tuples ih => rw [chained, List.length_cons, List.length_cons, ih]

/-- Tuples are written as plain commands, if each of them is. -/
theorem isPlain_chained {τ : Type} {write : Point α → τ → Command α × Point α}
    (h : ∀ place tuple, (write place tuple).1.IsPlain) (place : Point α) (tuples : List τ) :
    ∀ command ∈ chained write place tuples, command.IsPlain := by
  induction tuples generalizing place with
  | nil => simp [chained]
  | cons tuple tuples ih =>
    rw [chained, List.forall_mem_cons]
    exact ⟨h place tuple, ih _⟩

variable [Scalar α]

/-- The place that coordinates name, relative to a place or not. -/
def located (relative : Bool) (place : Point α) (x y : α) : Point α :=
  if relative then ⟨place.x + x, place.y + y⟩ else ⟨x, y⟩

/-- A pair as a straight line. -/
def lineFrom (relative : Bool) (place : Point α) : α × α → Command α × Point α
  | (x, y) =>
    let finish := located relative place x y
    (.lineTo finish, finish)

/-- A single abscissa as a straight line. -/
def acrossFrom (relative : Bool) (place : Point α) (x : α) : Command α × Point α :=
  let finish : Point α := ⟨if relative then place.x + x else x, place.y⟩
  (.lineTo finish, finish)

/-- A single ordinate as a straight line. -/
def upFrom (relative : Bool) (place : Point α) (y : α) : Command α × Point α :=
  let finish : Point α := ⟨place.x, if relative then place.y + y else y⟩
  (.lineTo finish, finish)

/-- Four numbers as a quadratic curve. -/
def quadraticFrom (relative : Bool) (place : Point α) : α × α × α × α → Command α × Point α
  | (x₁, y₁, x, y) =>
    let finish := located relative place x y
    (.quadraticTo (located relative place x₁ y₁) finish, finish)

/-- Six numbers as a cubic curve. -/
def cubicFrom (relative : Bool) (place : Point α) :
    α × α × α × α × α × α → Command α × Point α
  | (x₁, y₁, x₂, y₂, x, y) =>
    let finish := located relative place x y
    (.cubicTo (located relative place x₁ y₁) (located relative place x₂ y₂) finish, finish)

/-- Seven numbers as an arc; only the last two are a place. -/
def arcFrom (relative : Bool) (place : Point α) :
    α × α × α × α × α × α × α → Command α × Point α
  | (rx, ry, rotation, large, sweep, x, y) =>
    let finish := located relative place x y
    (.arcTo rx ry rotation large sweep finish, finish)

/-- The plain commands that a command stands for where the pen is. -/
def canonical (pen : Pen α) (command : Command α) : List (Command α) :=
  let relative := command.isRelative
  match command.letter.toUpper with
  | 'M' =>
    match pairs command.parameters with
    | [] => []
    | (x, y) :: rest =>
      -- only the first pair is a move; the others are lines
      let place := located relative pen.current x y
      .moveTo place :: chained (lineFrom relative) place rest
  | 'L' => chained (lineFrom relative) pen.current (pairs command.parameters)
  | 'H' => chained (acrossFrom relative) pen.current command.parameters
  | 'V' => chained (upFrom relative) pen.current command.parameters
  | 'Z' => [.close]
  | 'A' => chained (arcFrom relative) pen.current (sevens command.parameters)
  | 'Q' => chained (quadraticFrom relative) pen.current (fours command.parameters)
  | 'C' => chained (cubicFrom relative) pen.current (sixes command.parameters)
  | _ => []

/-- The plain commands that a list of commands stands for. -/
def desugar (fineness : Fineness) (pen : Pen α) : List (Command α) → List (Command α)
  | [] => []
  | command :: rest =>
    canonical pen command ++ desugar fineness (pen.draw fineness command).1 rest

/-! ## Drawing plain commands -/

variable (fineness : Fineness)

theorem collect_singleton {σ τ β : Type} (step : σ → τ → σ × List β) (state : σ) (item : τ) :
    collect step state [item] = step state item := by
  simp [collect_cons]

/-- Whether plain commands stand for what a step of the pen does with tuples: each is
drawn like its tuple, and written with the place where the tuple takes the pen. -/
structure StandsFor {τ : Type} (write : Point α → τ → Command α × Point α)
    (step : Pen α → τ → Pen α × List (Point α)) : Prop where
  draw_eq : ∀ pen tuple, pen.draw fineness (write pen.current tuple).1 = step pen tuple
  current_eq : ∀ pen tuple, (step pen tuple).1.current = (write pen.current tuple).2

theorem standsFor_line (relative : Bool) :
    StandsFor fineness (lineFrom (α := α) relative) (Pen.lineTo relative) where
  draw_eq _ _ := rfl
  current_eq _ _ := rfl

theorem standsFor_across (relative : Bool) :
    StandsFor fineness (acrossFrom (α := α) relative) (Pen.acrossTo relative) where
  draw_eq _ _ := rfl
  current_eq _ _ := rfl

theorem standsFor_up (relative : Bool) :
    StandsFor fineness (upFrom (α := α) relative) (Pen.upTo relative) where
  draw_eq _ _ := rfl
  current_eq _ _ := rfl

theorem standsFor_quadratic (relative : Bool) :
    StandsFor fineness (quadraticFrom (α := α) relative)
      (Pen.quadraticTo relative fineness.curveSteps.toNat) where
  draw_eq _ _ :=
    collect_singleton (Pen.quadraticTo false fineness.curveSteps.toNat) _ (_, _, _, _)
  current_eq _ _ := rfl

theorem standsFor_cubic (relative : Bool) :
    StandsFor fineness (cubicFrom (α := α) relative)
      (Pen.cubicTo relative fineness.curveSteps.toNat) where
  draw_eq _ _ :=
    collect_singleton (Pen.cubicTo false fineness.curveSteps.toNat) _ (_, _, _, _, _, _)
  current_eq _ _ := rfl

theorem standsFor_arc (relative : Bool) :
    StandsFor fineness (arcFrom (α := α) relative)
      (Pen.arcTo relative fineness.curveSteps.toNat) where
  draw_eq _ _ :=
    collect_singleton (Pen.arcTo false fineness.curveSteps.toNat) _ (_, _, _, _, _, _, _)
  current_eq _ _ := rfl

/-- Tuples are drawn like the plain commands that they are written as. -/
theorem StandsFor.drawAll_chained {fineness : Fineness} {τ : Type}
    {write : Point α → τ → Command α × Point α} {step : Pen α → τ → Pen α × List (Point α)}
    (h : StandsFor fineness write step) (pen : Pen α) (tuples : List τ) :
    pen.drawAll fineness (chained write pen.current tuples) = collect step pen tuples := by
  induction tuples generalizing pen with
  | nil => rfl
  | cons tuple tuples ih =>
    -- the next tuple is written from where the pen is after this one
    have hrest := ih (step pen tuple).1
    rw [h.current_eq, Pen.drawAll] at hrest
    rw [chained, Pen.drawAll, collect_cons, collect_cons, h.draw_eq, hrest]

theorem drawAll_moves (relative : Bool) (pen : Pen α) (x y : α) (rest : List (α × α)) :
    pen.drawAll fineness (.moveTo (located relative pen.current x y) ::
        chained (lineFrom relative) (located relative pen.current x y) rest) =
      pen.moveTo relative ((x, y) :: rest) := by
  let place := located relative pen.current x y
  have hlines :=
    (standsFor_line fineness relative).drawAll_chained (⟨place, place⟩ : Pen α) rest
  rw [Pen.drawAll, collect_cons]
  exact congrArg (fun out : Pen α × List (Point α) => (out.1, place :: out.2)) hlines

/-- A command draws what its plain commands draw, and leaves the pen as they do. -/
theorem drawAll_canonical (pen : Pen α) (command : Command α) :
    pen.drawAll fineness (canonical pen command) = pen.draw fineness command := by
  unfold canonical Pen.draw
  simp only
  -- both sides go by the letter, whatever it is the capital of
  generalize command.letter.toUpper = letter
  split
  · cases hpairs : pairs command.parameters with
    | nil => rfl
    | cons pair rest => exact drawAll_moves fineness _ pen _ _ rest
  · exact (standsFor_line fineness _).drawAll_chained pen _
  · exact (standsFor_across fineness _).drawAll_chained pen _
  · exact (standsFor_up fineness _).drawAll_chained pen _
  · exact collect_singleton (Pen.draw fineness) pen .close
  · exact (standsFor_arc fineness _).drawAll_chained pen _
  · exact (standsFor_quadratic fineness _).drawAll_chained pen _
  · exact (standsFor_cubic fineness _).drawAll_chained pen _
  · -- a letter without a meaning
    simp_all [Pen.drawAll]

/-! ## The form of what is drawn -/

theorem length_canonical (pen : Pen α) (command : Command α) :
    (canonical pen command).length = command.plainCount := by
  unfold canonical Command.plainCount arity?
  simp only
  generalize command.letter.toUpper = letter
  split
  · cases hpairs : pairs command.parameters with
    | nil => simp [← length_pairs, hpairs]
    | cons pair rest => simp [← length_pairs, hpairs, length_chained]
  all_goals simp_all [length_chained, length_pairs, length_fours, length_sixes, length_sevens]

theorem isPlain_canonical (pen : Pen α) (command : Command α) :
    ∀ plain ∈ canonical pen command, plain.IsPlain := by
  have hline : ∀ relative place tuple, (lineFrom (α := α) relative place tuple).1.IsPlain :=
    fun _ _ _ => by simp [lineFrom, Command.lineTo, Command.IsPlain]
  -- what each letter stands for is written with the plain letters
  unfold canonical
  simp only
  split
  · split
    · simp
    · rw [List.forall_mem_cons]
      exact ⟨by simp [Command.moveTo, Command.IsPlain], isPlain_chained (hline _) _ _⟩
  · exact isPlain_chained (hline _) _ _
  · exact isPlain_chained (by simp [acrossFrom, Command.lineTo, Command.IsPlain]) _ _
  · exact isPlain_chained (by simp [upFrom, Command.lineTo, Command.IsPlain]) _ _
  · simp [Command.close, Command.IsPlain]
  · exact isPlain_chained (by simp [arcFrom, Command.arcTo, Command.IsPlain]) _ _
  · exact isPlain_chained (by simp [quadraticFrom, Command.quadraticTo, Command.IsPlain]) _ _
  · exact isPlain_chained (by simp [cubicFrom, Command.cubicTo, Command.IsPlain]) _ _
  · simp

/-! ## Paths -/

/-- **Desugaring**: a list of commands draws what its plain commands draw and leaves the
pen as they do, value for value. There is a plain command for each complete tuple, and
none for what is left over. -/
theorem drawAll_desugar (pen : Pen α) (commands : List (Command α)) :
    pen.drawAll fineness (desugar fineness pen commands) = pen.drawAll fineness commands ∧
      (∀ plain ∈ desugar fineness pen commands, plain.IsPlain) ∧
      (desugar fineness pen commands).length = (commands.map Command.plainCount).sum := by
  induction commands generalizing pen with
  | nil => simp [desugar]
  | cons command commands ih =>
    obtain ⟨hdraw, hplain, hlength⟩ := ih (pen.draw fineness command).1
    refine ⟨?_, ?_, ?_⟩
    · -- after the plain commands the pen is where the command itself leaves it
      have hcommand := drawAll_canonical fineness pen command
      unfold Pen.drawAll at hdraw hcommand ⊢
      rw [desugar, collect_append, hcommand, hdraw, collect_cons]
    · rw [desugar, List.forall_mem_append]
      exact ⟨isPlain_canonical pen command, hplain⟩
    · rw [desugar, List.length_append, length_canonical, hlength, List.map_cons, List.sum_cons]

end Kerf.Path
