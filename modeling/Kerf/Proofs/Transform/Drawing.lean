import Mathlib
import Kerf.Proofs.Exact
import Kerf.Path.Pen
import Kerf.Transform.Basic

/-!
# Drawing and transforms

Places may be transformed before they are drawn or after, in exact arithmetic. A transform
is affine, and the weights of a Bézier curve's control points sum up to one, so the points
of the transformed curve are the transformed points.

- `IsAffine`: maps whose coordinates are linear in those of the point, up to a shift.
  Every transform is one, whether its rotation is carried out or left out
  (`isAffine_apply`).
- `quadratic_map`, `cubic_map`: an affine map of the control points is one of the points.
- `Pen.draw_mapPlaces`: a command with mapped places, drawn with a mapped pen, leaves
  mapped points and a mapped pen. An induction over the commands takes this to a path,
  once its first command has taken both pens to the same place.
- `points_mapPlaces_apply`: the same of paths that start with a move, and of single
  curves.
-/

namespace Kerf

open Scalar (Exact)
open Scalar.Exact (value)

variable {α : Type} [Scalar α] [Exact α]

/-! ## Affine maps -/

/-- Whether the coordinates of a mapped point are linear in those of the point, up to a
shift. -/
def IsAffine (f : Point α → Point α) : Prop :=
  ∃ a b c d : ℝ, ∃ x y : ℝ, ∀ p : Point α,
    value (f p).x = a * value p.x + b * value p.y + x ∧
      value (f p).y = c * value p.x + d * value p.y + y

theorem Transform.isAffine_apply (t : Transform α) : IsAffine t.apply := by
  let sx := value t.scaling.x
  let sy := value t.scaling.y
  let cx := value t.center.x
  let cy := value t.center.y
  -- a turn about the center, or none
  by_cases hturned : leastRotation < Scalar.abs t.rotation
  · let s := value (Scalar.sin (Scalar.radians t.rotation))
    let c := value (Scalar.cos (Scalar.radians t.rotation))
    refine ⟨sx * c, -(sy * s), sx * s, sy * c, cx - cx * c + cy * s + value t.shift.x,
      cy - cx * s - cy * c + value t.shift.y, fun p => ?_⟩
    simp only [apply, if_pos hturned, rotate, Point.add_def, Exact.value_add, Exact.value_sub,
      Exact.value_mul]
    constructor
    · ring
    · ring
  · refine ⟨sx, 0, 0, sy, value t.shift.x, value t.shift.y, fun p => ?_⟩
    simp only [apply, if_neg hturned, Point.add_def, Exact.value_add, Exact.value_mul]
    constructor
    · ring
    · ring

namespace Curve

/-! ## Curves -/

/-- The weights of the control points of a quadratic curve. -/
theorem value_quadraticAt (p0 p1 p2 : Point α) (t : α) :
    let u := 1 - value t
    value (quadraticAt p0 p1 p2 t).x =
        u ^ 2 * value p0.x + 2 * u * value t * value p1.x + value t ^ 2 * value p2.x ∧
      value (quadraticAt p0 p1 p2 t).y =
        u ^ 2 * value p0.y + 2 * u * value t * value p1.y + value t ^ 2 * value p2.y := by
  have hone : (1.0 : ℝ) = 1 := by norm_num
  have htwo : (2.0 : ℝ) = 2 := by norm_num
  simp only [quadraticAt, Point.scale, Point.add_def, Exact.value_add, Exact.value_sub,
    Exact.value_mul, Exact.value_ofScientific, hone, htwo]
  constructor
  · ring
  · ring

/-- The weights of the control points of a cubic curve. -/
theorem value_cubicAt (p0 p1 p2 p3 : Point α) (t : α) :
    let u := 1 - value t
    value (cubicAt p0 p1 p2 p3 t).x =
        u ^ 3 * value p0.x + 3 * u ^ 2 * value t * value p1.x +
          3 * u * value t ^ 2 * value p2.x +
          value t ^ 3 * value p3.x ∧
      value (cubicAt p0 p1 p2 p3 t).y =
        u ^ 3 * value p0.y + 3 * u ^ 2 * value t * value p1.y +
          3 * u * value t ^ 2 * value p2.y +
          value t ^ 3 * value p3.y := by
  have hone : (1.0 : ℝ) = 1 := by norm_num
  have hthree : (3.0 : ℝ) = 3 := by norm_num
  simp only [cubicAt, Point.scale, Point.add_def, Exact.value_add, Exact.value_sub,
    Exact.value_mul, Exact.value_ofScientific, hone, hthree]
  constructor
  · ring
  · ring

variable {f : Point α → Point α}

/-- The weights sum up to one, so the shift of an affine map counts once. -/
theorem quadraticAt_map (hf : IsAffine f) (p0 p1 p2 : Point α) (t : α) :
    quadraticAt (f p0) (f p1) (f p2) t = f (quadraticAt p0 p1 p2 t) := by
  obtain ⟨a, b, c, d, x, y, hf⟩ := hf
  obtain ⟨hx, hy⟩ := value_quadraticAt p0 p1 p2 t
  obtain ⟨hfx, hfy⟩ := value_quadraticAt (f p0) (f p1) (f p2) t
  refine Point.eq_of_value_eq ?_ ?_
  · rw [hfx, (hf _).1, (hf _).1, (hf _).1, (hf _).1, hx, hy]
    ring
  · rw [hfy, (hf _).2, (hf _).2, (hf _).2, (hf _).2, hx, hy]
    ring

theorem cubicAt_map (hf : IsAffine f) (p0 p1 p2 p3 : Point α) (t : α) :
    cubicAt (f p0) (f p1) (f p2) (f p3) t = f (cubicAt p0 p1 p2 p3 t) := by
  obtain ⟨a, b, c, d, x, y, hf⟩ := hf
  obtain ⟨hx, hy⟩ := value_cubicAt p0 p1 p2 p3 t
  obtain ⟨hfx, hfy⟩ := value_cubicAt (f p0) (f p1) (f p2) (f p3) t
  refine Point.eq_of_value_eq ?_ ?_
  · rw [hfx, (hf _).1, (hf _).1, (hf _).1, (hf _).1, (hf _).1, hx, hy]
    ring
  · rw [hfy, (hf _).2, (hf _).2, (hf _).2, (hf _).2, (hf _).2, hx, hy]
    ring

omit [Exact α] in
theorem samples_map (f : Point α → Point α) (steps : Nat) (curve : α → Point α) :
    (samples steps curve).map f = samples steps fun t => f (curve t) := by
  unfold samples overSteps
  rw [List.map_map]
  rfl

theorem quadratic_map (hf : IsAffine f) (p0 p1 p2 : Point α) (steps : Nat) :
    quadratic (f p0) (f p1) (f p2) steps = (quadratic p0 p1 p2 steps).map f := by
  unfold quadratic
  rw [samples_map, funext (quadraticAt_map hf p0 p1 p2)]

theorem cubic_map (hf : IsAffine f) (p0 p1 p2 p3 : Point α) (steps : Nat) :
    cubic (f p0) (f p1) (f p2) (f p3) steps = (cubic p0 p1 p2 p3 steps).map f := by
  unfold cubic
  rw [samples_map, funext (cubicAt_map hf p0 p1 p2 p3)]

end Curve

namespace Path

/-! ## Mapped places -/

/-- The numbers of a list with a map done to each complete pair. -/
def mapPairs (f : Point α → Point α) : List α → List α
  | x :: y :: rest => (f ⟨x, y⟩).x :: (f ⟨x, y⟩).y :: mapPairs f rest
  | rest => rest

/-- A command with a map done to each coordinate pair. -/
def Command.mapPlaces (f : Point α → Point α) (command : Command α) : Command α :=
  { command with parameters := mapPairs f command.parameters }

/-- A pen with a map done to its places. -/
def Pen.map (f : Point α → Point α) (pen : Pen α) : Pen α :=
  ⟨f pen.current, f pen.start⟩

section Tuples

omit [Scalar α] [Exact α]

variable (f : Point α → Point α)

/-- A map done to a pair. -/
def onPair : α × α → α × α
  | (x, y) => ((f ⟨x, y⟩).x, (f ⟨x, y⟩).y)

/-- A map done to the two pairs of a four. -/
def onFour : α × α × α × α → α × α × α × α
  | (x₁, y₁, x, y) => ((f ⟨x₁, y₁⟩).x, (f ⟨x₁, y₁⟩).y, (f ⟨x, y⟩).x, (f ⟨x, y⟩).y)

/-- A map done to the three pairs of a six. -/
def onSix : α × α × α × α × α × α → α × α × α × α × α × α
  | (x₁, y₁, x₂, y₂, x, y) =>
    ((f ⟨x₁, y₁⟩).x, (f ⟨x₁, y₁⟩).y, (f ⟨x₂, y₂⟩).x, (f ⟨x₂, y₂⟩).y, (f ⟨x, y⟩).x, (f ⟨x, y⟩).y)

theorem pairs_mapPairs :
    ∀ values : List α, pairs (mapPairs f values) = (pairs values).map (onPair f)
  | [] | [_] => rfl
  | x :: y :: rest => by
    rw [mapPairs, pairs, pairs, List.map_cons, pairs_mapPairs rest]
    rfl

theorem fours_mapPairs :
    ∀ values : List α, fours (mapPairs f values) = (fours values).map (onFour f)
  | [] | [_] | [_, _] | [_, _, _] => rfl
  | x₁ :: y₁ :: x :: y :: rest => by
    rw [mapPairs, mapPairs, fours, fours, List.map_cons, fours_mapPairs rest]
    rfl

theorem sixes_mapPairs :
    ∀ values : List α, sixes (mapPairs f values) = (sixes values).map (onSix f)
  | [] | [_] | [_, _] | [_, _, _] | [_, _, _, _] | [_, _, _, _, _] => rfl
  | x₁ :: y₁ :: x₂ :: y₂ :: x :: y :: rest => by
    rw [mapPairs, mapPairs, mapPairs, sixes, sixes, List.map_cons, sixes_mapPairs rest]
    rfl

/-- Steps that agree up to maps of states, items and results agree on lists. -/
theorem collect_map {σ τ β : Type} {step : σ → τ → σ × List β} {onState : σ → σ}
    {onItem : τ → τ} {onResult : β → β} {items : List τ}
    (h : ∀ item ∈ items, ∀ state, step (onState state) (onItem item) =
      (onState (step state item).1, (step state item).2.map onResult)) (state : σ) :
    collect step (onState state) (items.map onItem) =
      (onState (collect step state items).1, (collect step state items).2.map onResult) := by
  induction items generalizing state with
  | nil => rfl
  | cons item items ih =>
    rw [List.forall_mem_cons] at h
    rw [List.map_cons, collect_cons, collect_cons, h.1, ih h.2, List.map_append]

end Tuples

/-! ## Drawing mapped places -/

/-- Whether a command is absolute and all that its numbers say is places: a line, a Bézier
curve, or the closing of a subpath. -/
def Command.IsPlacewise (command : Command α) : Prop :=
  command.letter ∈ ['M', 'L', 'Q', 'C', 'Z', 'z']

variable (fineness : Fineness) {f : Point α → Point α}

omit [Exact α] in
theorem Pen.lineTo_map (pen : Pen α) (pair : α × α) :
    (pen.map f).lineTo false (onPair f pair) =
      ((pen.lineTo false pair).1.map f, (pen.lineTo false pair).2.map f) :=
  rfl

omit [Exact α] in
theorem Pen.moveTo_map (pen : Pen α) (places : List (α × α)) :
    (pen.map f).moveTo false (places.map (onPair f)) =
      ((pen.moveTo false places).1.map f, (pen.moveTo false places).2.map f) := by
  cases places with
  | nil => rfl
  | cons first places =>
    -- the lines go on from the mapped place of the move
    let place : Point α := ⟨first.1, first.2⟩
    have hline : ∀ pair ∈ places, ∀ pen : Pen α, (pen.map f).lineTo false (onPair f pair) =
        ((pen.lineTo false pair).1.map f, (pen.lineTo false pair).2.map f) :=
      fun pair _ pen => pen.lineTo_map pair
    exact congrArg (fun out : Pen α × List (Point α) => (out.1, f place :: out.2))
      (collect_map hline ⟨place, place⟩)

theorem Pen.quadraticTo_map (hf : IsAffine f) (steps : Nat) (pen : Pen α)
    (four : α × α × α × α) :
    (pen.map f).quadraticTo false steps (onFour f four) =
      ((pen.quadraticTo false steps four).1.map f,
        (pen.quadraticTo false steps four).2.map f) :=
  congrArg (_, ·) (Curve.quadratic_map hf _ _ _ steps)

theorem Pen.cubicTo_map (hf : IsAffine f) (steps : Nat) (pen : Pen α)
    (six : α × α × α × α × α × α) :
    (pen.map f).cubicTo false steps (onSix f six) =
      ((pen.cubicTo false steps six).1.map f, (pen.cubicTo false steps six).2.map f) :=
  congrArg (_, ·) (Curve.cubic_map hf _ _ _ _ steps)

/-- A command with mapped places, drawn with a mapped pen, leaves mapped points and a
mapped pen. -/
theorem Pen.draw_mapPlaces (hf : IsAffine f) {command : Command α} (h : command.IsPlacewise)
    (pen : Pen α) :
    (pen.map f).draw fineness (command.mapPlaces f) =
      ((pen.draw fineness command).1.map f, (pen.draw fineness command).2.map f) := by
  obtain ⟨letter, parameters⟩ := command
  simp only [Command.IsPlacewise, List.mem_cons, List.not_mem_nil, or_false] at h
  -- places are mapped one by one, so what each letter groups is mapped in groups
  rcases h with rfl | rfl | rfl | rfl | rfl | rfl
  · have hdraw (pen : Pen α) (numbers : List α) :
        pen.draw fineness ⟨'M', numbers⟩ = pen.moveTo false (pairs numbers) := rfl
    rw [Command.mapPlaces, hdraw, hdraw, pairs_mapPairs]
    exact pen.moveTo_map (pairs parameters)
  · have hdraw (pen : Pen α) (numbers : List α) :
        pen.draw fineness ⟨'L', numbers⟩ = collect (lineTo false) pen (pairs numbers) := rfl
    rw [Command.mapPlaces, hdraw, hdraw, pairs_mapPairs]
    exact collect_map (fun pair _ pen => pen.lineTo_map pair) pen
  · have hdraw (pen : Pen α) (numbers : List α) : pen.draw fineness ⟨'Q', numbers⟩ =
        collect (quadraticTo false fineness.curveSteps.toNat) pen (fours numbers) := rfl
    rw [Command.mapPlaces, hdraw, hdraw, fours_mapPairs]
    exact collect_map (fun four _ pen => pen.quadraticTo_map hf _ four) pen
  · have hdraw (pen : Pen α) (numbers : List α) : pen.draw fineness ⟨'C', numbers⟩ =
        collect (cubicTo false fineness.curveSteps.toNat) pen (sixes numbers) := rfl
    rw [Command.mapPlaces, hdraw, hdraw, sixes_mapPairs]
    exact collect_map (fun six _ pen => pen.cubicTo_map hf _ six) pen
  · have hdraw (pen : Pen α) (numbers : List α) :
      pen.draw fineness ⟨'Z', numbers⟩ = pen.close := rfl
    rw [Command.mapPlaces, hdraw, hdraw]
    rfl
  -- the small letter closes too
  · have hupper : 'z'.toUpper = 'Z' := by decide
    have hdraw (pen : Pen α) (numbers : List α) :
        pen.draw fineness ⟨'z', numbers⟩ = pen.close := by
      simp only [draw, hupper]
    rw [Command.mapPlaces, hdraw, hdraw]
    rfl

/-- So do several commands. -/
theorem Pen.drawAll_mapPlaces (hf : IsAffine f) {commands : List (Command α)}
    (h : ∀ command ∈ commands, command.IsPlacewise) (pen : Pen α) :
    (pen.map f).drawAll fineness (commands.map (Command.mapPlaces f)) =
      ((pen.drawAll fineness commands).1.map f, (pen.drawAll fineness commands).2.map f) :=
  collect_map (fun command hcommand pen => pen.draw_mapPlaces fineness hf (h command hcommand))
    pen

/-- A path may be mapped before it is drawn or after, if it starts with a move: then it
does not count where the pen was. -/
theorem points_mapPlaces (hf : IsAffine f) (x y : α) (more : List α) {rest : List (Command α)}
    (h : ∀ command ∈ rest, command.IsPlacewise) :
    points ((⟨'M', x :: y :: more⟩ :: rest).map (Command.mapPlaces f)) fineness =
      (points (⟨'M', x :: y :: more⟩ :: rest) fineness).map f := by
  have hmove : (⟨'M', x :: y :: more⟩ : Command α).IsPlacewise := List.mem_cons_self
  have hdraw := (Pen.atOrigin : Pen α).drawAll_mapPlaces fineness hf
    (List.forall_mem_cons.mpr ⟨hmove, h⟩)
  exact congrArg Prod.snd hdraw

/-- **Places may be transformed before they are drawn or after**, in exact arithmetic and
whatever the sine and the cosine of the rotation are: a path of absolute moves, lines,
Bézier curves and closings that starts with a move of a complete pair gives the
transformed points if all its coordinate pairs are transformed. So does a Bézier curve of
its own, with any number of steps. -/
theorem points_mapPlaces_apply (t : Transform α) :
    (∀ (fineness : Fineness) (x y : α) (more : List α) (rest : List (Command α)),
      (∀ command ∈ rest, command.IsPlacewise) →
        points ((⟨'M', x :: y :: more⟩ :: rest).map (Command.mapPlaces t.apply)) fineness =
          (points (⟨'M', x :: y :: more⟩ :: rest) fineness).map t.apply) ∧
    (∀ (p0 p1 p2 : Point α) (steps : Nat),
      Curve.quadratic (t.apply p0) (t.apply p1) (t.apply p2) steps =
        (Curve.quadratic p0 p1 p2 steps).map t.apply) ∧
    ∀ (p0 p1 p2 p3 : Point α) (steps : Nat),
      Curve.cubic (t.apply p0) (t.apply p1) (t.apply p2) (t.apply p3) steps =
        (Curve.cubic p0 p1 p2 p3 steps).map t.apply := by
  have haffine := t.isAffine_apply
  refine ⟨?_, Curve.quadratic_map haffine, Curve.cubic_map haffine⟩
  intro fineness x y more rest hrest
  exact points_mapPlaces fineness haffine x y more hrest

/-- A closed outline with both kinds of curves, stretched and turned about a place off the
origin. -/
theorem points_mapPlaces_apply_turned_leaf :
    let t : Transform ℝ := ⟨⟨1, -1⟩, ⟨2, 3⟩, 90, ⟨4, 0⟩⟩
    let rest : List (Command ℝ) :=
      [⟨'Q', [1, 1, 0, 1]⟩, ⟨'C', [-1, 1, -1, 0, 0, 0, 7]⟩, ⟨'Z', []⟩]
    (∀ command ∈ rest, command.IsPlacewise) ∧
      points ((⟨'M', [0, 0, 1, 0]⟩ :: rest).map (Command.mapPlaces t.apply)) .default =
        (points (⟨'M', [0, 0, 1, 0]⟩ :: rest) .default).map t.apply := by
  intro t rest
  have hrest : ∀ command ∈ rest, command.IsPlacewise := by
    simp [rest, Command.IsPlacewise]
  exact ⟨hrest, (points_mapPlaces_apply t).1 .default 0 0 [1, 0] rest hrest⟩

end Path

end Kerf
