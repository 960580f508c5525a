import Mathlib
import Kerf.Piece
import Kerf.Proofs.Decimal.Order
import Kerf.Proofs.Plane.Box

/-!
# Boxes of placed shapes

A piece that is moved takes its points along, and so its box and what is in it. In exact
arithmetic two moves are one move by the sum of their offsets (`translate_translate`).

`boxes_least_and_carried` says what a box is: the least one around points that are finite
floats, in any order of the points and taken together from any parts of their list, and in
exact arithmetic what moves with its piece. Zeros of both signs are equal as numbers, so
which of them is a coordinate of the box may depend on the order of the points, and
nothing else does.
-/

namespace Kerf.Piece

/-! ## Moved pieces -/

section Exact

variable {α : Type} [Scalar α] [Scalar.Exact α] (piece : Piece α) (fineness : Fineness)

theorem points_translate (offset : Point α) :
    (piece.translate offset).points fineness = (piece.points fineness).map (· + offset) := by
  rw [points, points, List.map_map]
  refine List.map_congr_left fun p _ => ?_
  exact (Point.add_assoc p piece.position offset).symm

theorem box?_translate (offset : Point α) :
    (piece.translate offset).box? fineness = (piece.box? fineness).map (·.shift offset) := by
  rw [box?, points_translate, Box.ofPoints?_map_add, box?]

theorem contains_translate (place offset : Point α) :
    (piece.translate offset).contains (place + offset) fineness =
      piece.contains place fineness := by
  rw [contains, box?_translate, Option.any_map, contains]
  refine congrArg (Option.any · (piece.box? fineness)) (funext fun box => ?_)
  exact Box.contains_shift box place offset

theorem translate_translate (first second : Point α) :
    (piece.translate first).translate second = piece.translate (first + second) := by
  simp only [translate, Point.add_assoc]

/-- The points of a piece are in its box. -/
theorem contains_of_mem_points {p : Point α} (hp : p ∈ piece.points fineness) :
    piece.contains p fineness = true := by
  have hnumbers : ∀ p ∈ piece.points fineness, p.IsNumber := fun p _ =>
    ⟨Scalar.Exact.isNaN_eq_false p.x, Scalar.Exact.isNaN_eq_false p.y⟩
  obtain ⟨box, hbox⟩ := Box.exists_ofPoints? (List.ne_nil_of_mem hp)
  rw [contains, box?, hbox, Option.any_some]
  exact Box.contains_of_ofPoints? hnumbers hbox p hp

end Exact

/-! ## Boxes -/

theorem isNumber_of_isFinite {p : Point Float} (h : p.isFinite = true) : p.IsNumber := by
  rw [Point.isFinite, Bool.and_eq_true] at h
  exact ⟨Decimal.scalarIsNaN_of_isFinite h.1, Decimal.scalarIsNaN_of_isFinite h.2⟩

/-- **The box of points is the least one around them, and the box of a piece moves with
it.** Of finite floats, the box contains all points, and it is within every box that does;
its corners are the same numbers in any order of the points; and the box of two lists is
the union of their boxes. In exact arithmetic, whatever the sines and cosines in the shape
are, the points of a piece are in its box; a moved piece contains the moved places that it
contained; two moves are one by the sum of the offsets. In any arithmetic, a moved piece
is the same piece in another position. -/
theorem boxes_least_and_carried :
    (∀ points : List (Point Float), points ≠ [] → (∀ p ∈ points, p.isFinite = true) →
      ∃ box, Box.ofPoints? points = some box ∧
        (∀ p ∈ points, box.contains p = true) ∧
        (∀ outer : Box Float, (∀ p ∈ points, outer.contains p = true) →
          box.IsWithin outer ∧ ∀ place, box.contains place = true →
            outer.contains place = true) ∧
        ∀ others, others.Perm points →
          ∃ other, Box.ofPoints? others = some other ∧ other.same box = true) ∧
    (∀ first second : List (Point Float), first ≠ [] → second ≠ [] →
      (∀ p ∈ first ++ second, p.isFinite = true) →
      ∃ box other, Box.ofPoints? first = some box ∧ Box.ofPoints? second = some other ∧
        Box.ofPoints? (first ++ second) = some (box.union other)) ∧
    (∀ (α : Type) [Scalar α] [Scalar.Exact α] (piece : Piece α) (fineness : Fineness)
      (offset : Point α),
      (∀ p ∈ piece.points fineness, piece.contains p fineness = true) ∧
      (∀ place, (piece.translate offset).contains (place + offset) fineness =
        piece.contains place fineness) ∧
      ∀ next, ((piece.translate offset).translate next).points fineness =
          (piece.translate (offset + next)).points fineness ∧
        ((piece.translate offset).translate next).box? fineness =
          (piece.translate (offset + next)).box? fineness) ∧
    ∀ (α : Type) [Scalar α] (piece : Piece α) (offset : Point α),
      (piece.translate offset).id = piece.id ∧ (piece.translate offset).name = piece.name ∧
        (piece.translate offset).visible = piece.visible ∧
        (piece.translate offset).shape = piece.shape := by
  refine ⟨?_, ?_, ?_, fun _ _ _ _ => ⟨rfl, rfl, rfl, rfl⟩⟩
  -- the least box, in any order of the points
  · intro points hne hfinite
    have hnumbers : ∀ p ∈ points, p.IsNumber := fun p hp => isNumber_of_isFinite (hfinite p hp)
    obtain ⟨box, hbox⟩ := Box.exists_ofPoints? hne
    refine ⟨box, hbox, Box.contains_of_ofPoints? hnumbers hbox, fun outer houter => ?_,
      fun others hperm => ?_⟩
    · have hwithin := (Box.isWithin_iff_of_ofPoints? hnumbers hbox).mpr houter
      exact ⟨hwithin, fun place => hwithin.contains⟩
    · have hothers : others ≠ [] := by
        rintro rfl
        exact hne hperm.nil_eq.symm
      obtain ⟨other, hother⟩ := Box.exists_ofPoints? hothers
      exact ⟨other, hother, Box.same_of_perm hperm hnumbers hbox hother⟩
  -- the box of two lists
  · intro first second hfirst hsecond hfinite
    rw [List.forall_mem_append] at hfinite
    obtain ⟨box, hbox⟩ := Box.exists_ofPoints? hfirst
    obtain ⟨other, hother⟩ := Box.exists_ofPoints? hsecond
    exact ⟨box, other, hbox, hother,
      Box.ofPoints?_append (fun p hp => isNumber_of_isFinite (hfinite.1 p hp))
      (fun p hp => isNumber_of_isFinite (hfinite.2 p hp)) hbox hother⟩
  -- moved pieces
  · intro α _ _ piece fineness offset
    refine ⟨fun p hp => piece.contains_of_mem_points fineness hp,
      fun place => piece.contains_translate fineness place offset, fun next => ?_⟩
    rw [translate_translate]
    exact ⟨rfl, rfl⟩

/-- Points with zeros of both signs, in two orders. -/
theorem boxes_least_and_carried_signed_zeros :
    let points : List (Point Float) := [⟨-0.0, 8.0⟩, ⟨0.0, -5.0⟩, ⟨4.0, 0.0⟩]
    (points ≠ [] ∧ ∀ p ∈ points, p.isFinite = true) ∧
      Box.ofPoints? points = some ⟨⟨-0.0, -5.0⟩, ⟨4.0, 8.0⟩⟩ ∧
      ∃ box, Box.ofPoints? points = some box ∧
        (∀ p ∈ points, box.contains p = true) ∧ box.IsWithin ⟨⟨0.0, -5.0⟩, ⟨4.0, 8.0⟩⟩ ∧
        ∃ other, Box.ofPoints? points.reverse = some other ∧ other.same box = true := by
  intro points
  have hne : points ≠ [] := List.cons_ne_nil _ _
  have hfinite : ∀ p ∈ points, p.isFinite = true := List.all_eq_true.mp (by decide +kernel)
  have houter : ∀ p ∈ points, (⟨⟨0.0, -5.0⟩, ⟨4.0, 8.0⟩⟩ : Box Float).contains p = true :=
    List.all_eq_true.mp (by decide +kernel)
  obtain ⟨box, hbox, hcontains, hleast, horder⟩ := boxes_least_and_carried.1 points hne hfinite
  exact ⟨⟨hne, hfinite⟩, by decide +kernel, box, hbox, hcontains, (hleast _ houter).1,
    horder points.reverse points.reverse_perm⟩

end Kerf.Piece
