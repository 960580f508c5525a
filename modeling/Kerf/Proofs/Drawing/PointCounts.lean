import Kerf.Program.Contour
import Kerf.Proofs.Drawing.Loading
import Kerf.Proofs.Drawing.Walk
import Kerf.Proofs.Path.Following

/-!
# How many points there are

The number of points that a path has can be told without drawing it.

- `Command.pointCount`: how many points a command leaves, from its letter, the number of
  its parameters and the number of steps of a curve. Only for arcs it matters where the
  pen is, since an arc between ends that are not told apart leaves none.
- `length_draw`, `length_drawAll`: a command leaves so many points, and commands together
  as many as on their course.
- `length_points_exact`: so many points a path has, and the contour that a path of a
  drawing becomes.
-/

namespace Kerf

namespace Path

variable {α : Type}

/-! ## Points of commands -/

/-- Steps that leave the same number of points each leave so many times their number. -/
theorem length_collect {σ τ β : Type} {step : σ → τ → σ × List β} {count : Nat}
    (h : ∀ state item, (step state item).2.length = count) (state : σ) (items : List τ) :
    (collect step state items).2.length = items.length * count := by
  induction items generalizing state with
  | nil => simp
  | cons item items ih =>
    rw [collect_cons, List.length_append, h, ih, List.length_cons, Nat.succ_mul, Nat.add_comm]

variable [Scalar α]

/-- How many points an arc leaves: none between ends that are not told apart, its end
alone if a radius is zero, and else one for each step and one more. -/
def arcPointCount (steps : Nat) (start finish : Point α) (rx ry : α) : Nat :=
  if start.near finish then 0
  else if Scalar.same (Scalar.abs rx) 0.0 || Scalar.same (Scalar.abs ry) 0.0 then 1
  else steps + 1

/-- How many points arcs leave that follow each other from a place on, seven numbers for
each of them. -/
def arcsPointCount (relative : Bool) (steps : Nat) (start : Point α) : List α → Nat
  | rx :: ry :: _ :: _ :: _ :: x :: y :: rest =>
    let finish := located relative start x y
    arcPointCount steps start finish rx ry + arcsPointCount relative steps finish rest
  | _ => 0

/-- How many points a command leaves, if the pen is at a place before it. -/
def Command.pointCount (fineness : Fineness) (place : Point α) (command : Command α) : Nat :=
  let steps := max fineness.curveSteps.toNat 1
  let parameters := command.parameters.length
  match command.letter.toUpper with
  | 'M' | 'L' => parameters / 2
  | 'H' | 'V' => parameters
  | 'Z' => 1
  | 'Q' => parameters / 4 * (steps + 1)
  | 'C' => parameters / 6 * (steps + 1)
  | 'A' => arcsPointCount command.isRelative steps place command.parameters
  | _ => 0

theorem length_arc_points (arc : Curve.Arc α) (steps : Nat) :
    (arc.points steps).length =
      arcPointCount (max steps 1) arc.start arc.finish arc.rx arc.ry := by
  unfold Curve.Arc.points Curve.Arc.toCentered? arcPointCount
  -- ends that are not told apart, radii of zero, and the others
  cases hnear : arc.start.near arc.finish with
  | true => rfl
  | false =>
    simp only [Bool.false_or, Bool.false_eq_true, if_false]
    cases hflat : arc.isFlat with
    | true =>
      unfold Curve.Arc.isFlat at hflat
      rw [if_pos rfl, if_pos hflat]
      rfl
    | false =>
      unfold Curve.Arc.isFlat at hflat
      rw [if_neg Bool.false_ne_true, hflat, if_neg Bool.false_ne_true]
      exact Curve.length_samples steps _

theorem length_collect_arcTo (relative : Bool) (steps : Nat) (pen : Pen α)
    (parameters : List α) :
    (collect (Pen.arcTo relative steps) pen (sevens parameters)).2.length =
      arcsPointCount relative (max steps 1) pen.current parameters := by
  induction parameters using sevens.induct generalizing pen with
  | case1 rx ry rotation large sweep x y rest ih =>
    rw [sevens, collect_cons, List.length_append, ih, arcsPointCount]
    congr 1
    exact length_arc_points _ steps
  | case2 parameters h =>
    -- what is left over is no arc
    rw [sevens.eq_2 parameters h, arcsPointCount.eq_2 relative _ _ parameters h]
    rfl

/-- A command leaves as many points as its letter, its parameters and the place of the pen
tell. -/
theorem length_draw (fineness : Fineness) (pen : Pen α) (command : Command α) :
    (pen.draw fineness command).2.length = command.pointCount fineness pen.current := by
  let relative := command.isRelative
  let steps := fineness.curveSteps.toNat
  -- what one tuple of each letter leaves
  have hline : ∀ (pen : Pen α) pair, (pen.lineTo relative pair).2.length = 1 := fun _ _ => rfl
  have hacross : ∀ (pen : Pen α) x, (pen.acrossTo relative x).2.length = 1 := fun _ _ => rfl
  have hup : ∀ (pen : Pen α) y, (pen.upTo relative y).2.length = 1 := fun _ _ => rfl
  have hquadratic : ∀ (pen : Pen α) four,
      (pen.quadraticTo relative steps four).2.length = max steps 1 + 1 :=
    fun _ _ => Curve.length_samples steps _
  have hcubic : ∀ (pen : Pen α) six,
      (pen.cubicTo relative steps six).2.length = max steps 1 + 1 :=
    fun _ _ => Curve.length_samples steps _
  unfold Pen.draw Command.pointCount
  simp only
  -- both sides go by the letter, whatever it is the capital of
  generalize command.letter.toUpper = letter
  split
  · rw [← length_pairs]
    cases pairs command.parameters with
    | nil => rfl
    | cons pair rest =>
      have hrest := length_collect hline
        ⟨pen.resolve relative pair.1 pair.2, pen.resolve relative pair.1 pair.2⟩ rest
      rw [Nat.mul_one] at hrest
      exact congrArg Nat.succ hrest
  · rw [length_collect hline, length_pairs, Nat.mul_one]
    rfl
  · rw [length_collect hacross, Nat.mul_one]
    rfl
  · rw [length_collect hup, Nat.mul_one]
    rfl
  · rfl
  · exact length_collect_arcTo relative steps pen command.parameters
  · rw [length_collect hquadratic, length_fours]
    rfl
  · rw [length_collect hcubic, length_sixes]
    rfl
  · simp_all

/-! ## Points of paths -/

/-- How many points commands leave on their course. -/
def courseCount (fineness : Fineness) (course : List (Pen α × Command α)) : Nat :=
  (course.map fun stop => stop.2.pointCount fineness stop.1.current).sum

theorem length_drawAll (fineness : Fineness) (pen : Pen α) (commands : List (Command α)) :
    (pen.drawAll fineness commands).2.length =
      courseCount fineness (pen.course fineness commands) := by
  have hleft : ∀ stop : Pen α × Command α,
      (left fineness stop).length = stop.2.pointCount fineness stop.1.current :=
    fun stop => length_draw fineness stop.1 stop.2
  rw [← Pen.flatMap_left_course, List.length_flatMap, funext hleft]
  rfl

end Path

/-! ## Paths of drawings -/

namespace Drawing

open Xml (Element)

variable {α : Type} [Written α]

/-- An element that is a path with some commands and has only groups around it. -/
structure Site.IsPath (site : Site) (commands : List (Path.Command α)) : Prop where
  around : site.around.all isGroup = true
  kind : Shape.Kind.ofTag? site.element.tag = some .path
  data : ∃ data, site.element.attribute? "d" = some data ∧ Path.commands data = .ok commands

section Sites

variable {fineness : Fineness} {site : Site} {commands : List (Path.Command α)}

/-- Moving the points of a path does not change their number. -/
theorem Site.IsPath.length_outline (h : site.IsPath commands) :
    (site.outline fineness : Outline α).points.length =
      (Path.points commands fineness).length := by
  obtain ⟨data, hattribute, hdata⟩ := h.data
  rw [Site.outline, List.length_map, shapePoints_of_path fineness h.kind hattribute hdata]

theorem Site.IsPath.isDrawn_iff (h : site.IsPath commands) :
    site.isDrawn α fineness = true ↔ (Path.points commands fineness).length ≠ 0 := by
  obtain ⟨data, hattribute, hdata⟩ := h.data
  have htag : isShapeTag site.element.tag = true := by
    rw [← isSome_ofTag?, h.kind]
    rfl
  rw [Site.isDrawn, htag, h.around, shapePoints_of_path fineness h.kind hattribute hdata]
  simp [List.length_eq_zero_iff]

end Sites

end Drawing

/-! ## Contours of paths -/

namespace Program

open Drawing (Site)

variable {α : Type} [Written α]

/-- The contour that an element is where it stands. -/
def contourOf (fineness : Fineness) (site : Site) : Contour α :=
  let outline : Outline α := site.outline fineness
  ⟨outlineLabel outline, outline.points⟩

/-- Each site of a drawing that is drawn is a contour. -/
theorem contourOf_mem_contours {fineness : Fineness} {text : List Char} {root : Xml.Element}
    {outlines : List (Outline α)} (htree : Drawing.tree? text = some root)
    (hread : Drawing.readText fineness text = .ok outlines) {site : Site}
    (hsite : site ∈ Drawing.below root) (hdrawn : site.isDrawn α fineness = true) :
    contourOf fineness site ∈ (Source.outlines outlines).contours fineness := by
  obtain ⟨_, htree', -, rfl⟩ := Drawing.readText_eq_ok_iff.mp hread
  obtain rfl := Option.some.inj (htree.symm.trans htree')
  rw [← Drawing.drawn_below, Drawing.drawn, Source.contours, List.map_map]
  exact List.mem_map_of_mem (List.mem_filter.mpr ⟨hsite, hdrawn⟩)

/-- **Numbers of points**: a command leaves as many points as its letter, the number of
its parameters and the steps of a curve tell, and for arcs the place of the pen. Commands
leave as many as each of them on their course. A path of a drawing becomes a contour of so
many points, or none if there are no points. -/
theorem length_points_exact (fineness : Fineness) :
    (∀ (pen : Path.Pen α) (command : Path.Command α),
      (pen.draw fineness command).2.length = command.pointCount fineness pen.current) ∧
    (∀ (pen : Path.Pen α) (commands : List (Path.Command α)),
      (pen.drawAll fineness commands).2.length =
        Path.courseCount fineness (pen.course fineness commands)) ∧
    (∀ commands : List (Path.Command α), (Path.points commands fineness).length =
      Path.courseCount fineness (Path.Pen.atOrigin.course fineness commands)) ∧
    ∀ (text : List Char) (root : Xml.Element) (outlines : List (Outline α)),
      Drawing.tree? text = some root → Drawing.readText fineness text = .ok outlines →
      ∀ site ∈ Drawing.below root, ∀ commands : List (Path.Command α), site.IsPath commands →
        (contourOf fineness site : Contour α).points.length =
            Path.courseCount fineness (Path.Pen.atOrigin.course fineness commands) ∧
          (site.isDrawn α fineness = true ↔ (contourOf fineness site : Contour α).points ≠ []) ∧
          (site.isDrawn α fineness = true →
            contourOf fineness site ∈ (Source.outlines outlines).contours fineness) := by
  have hpath : ∀ commands : List (Path.Command α), (Path.points commands fineness).length =
      Path.courseCount fineness (Path.Pen.atOrigin.course fineness commands) :=
    Path.length_drawAll fineness Path.Pen.atOrigin
  refine ⟨Path.length_draw fineness, Path.length_drawAll fineness, hpath, ?_⟩
  intro text root outlines htree hread site hsite commands hcommands
  have hlength : (contourOf fineness site : Contour α).points.length =
      (Path.points commands fineness).length := hcommands.length_outline
  refine ⟨hlength.trans (hpath commands), ?_, contourOf_mem_contours htree hread hsite⟩
  rw [hcommands.isDrawn_iff, ← hlength, Ne, List.length_eq_zero_iff]

/-- Curves of no steps are drawn in one. Of the three arcs the first has no radius, the
second goes nowhere, and the third has two points; the letter `Q` has no numbers and
leaves nothing. -/
theorem length_points_exact_three_arcs :
    ∃ (root : Xml.Element) (outlines : List (Outline Float)) (site : Site)
        (commands : List (Path.Command Float)),
      Drawing.tree? ("<svg><g transform='scale(2)'><path d='M0 0 1 1h1" ++
        "a0 5 0 0 0 3 4 1 1 0 0 1 0 0 2 2 0 0 1 4 0Qz'/></g></svg>").toList = some root ∧
      Drawing.readText ⟨0, 50⟩ ("<svg><g transform='scale(2)'><path d='M0 0 1 1h1" ++
        "a0 5 0 0 0 3 4 1 1 0 0 1 0 0 2 2 0 0 1 4 0Qz'/></g></svg>").toList = .ok outlines ∧
      site ∈ Drawing.below root ∧ site.IsPath commands ∧
      contourOf ⟨0, 50⟩ site ∈ (Source.outlines outlines).contours ⟨0, 50⟩ ∧
      (contourOf ⟨0, 50⟩ site : Contour Float).points.length = 7 := by
  let text := ("<svg><g transform='scale(2)'><path d='M0 0 1 1h1" ++
    "a0 5 0 0 0 3 4 1 1 0 0 1 0 0 2 2 0 0 1 4 0Qz'/></g></svg>").toList
  let data := "M0 0 1 1h1a0 5 0 0 0 3 4 1 1 0 0 1 0 0 2 2 0 0 1 4 0Qz".toList
  let commands : List (Path.Command Float) :=
    [⟨'M', [0.0, 0.0, 1.0, 1.0]⟩, ⟨'h', [1.0]⟩,
      ⟨'a', [0.0, 5.0, 0.0, 0.0, 0.0, 3.0, 4.0, 1.0, 1.0, 0.0, 0.0, 1.0, 0.0, 0.0,
        2.0, 2.0, 0.0, 0.0, 1.0, 4.0, 0.0]⟩, ⟨'Q', []⟩, ⟨'z', []⟩]
  let root := (Drawing.tree? text).get (by decide +kernel)
  let site := (Drawing.below root).getLast (by decide +kernel)
  have htree : Drawing.tree? text = some root := (Option.some_get _).symm
  obtain ⟨outlines, hread⟩ : ∃ outlines : List (Outline Float),
      Drawing.readText ⟨0, 50⟩ text = .ok outlines :=
    Drawing.isDrawing_iff_exists_readText.mp (by decide +kernel)
  have hsite : site ∈ Drawing.below root := List.getLast_mem _
  have hcommands : site.IsPath commands :=
    ⟨by decide +kernel, by decide +kernel, data, by decide +kernel, by decide +kernel⟩
  -- the line, the two ends of a line across, and four points of the arcs
  have hcount : Path.courseCount ⟨0, 50⟩ (Path.Pen.atOrigin.course ⟨0, 50⟩ commands) = 7 := by
    decide +kernel
  obtain ⟨hlength, hdrawn, hcontour⟩ := (length_points_exact (α := Float) ⟨0, 50⟩).2.2.2
    text root outlines htree hread site hsite commands hcommands
  rw [hcount] at hlength
  have hne : (contourOf ⟨0, 50⟩ site : Contour Float).points ≠ [] := by
    rw [← List.length_pos_iff, hlength]
    exact Nat.succ_pos 6
  exact ⟨root, outlines, site, commands, htree, hread, hsite, hcommands,
    hcontour (hdrawn.mpr hne), hlength⟩

end Program

end Kerf
