import Mathlib
import Kerf.Plane.Box
import Kerf.Proofs.Ordered

/-!
# Boxes around points

Boxes are ordered by what is within what (`Box.IsWithin`), and a point is the box that it
is alone. The union of two boxes is the least box around both (`isWithin_union_iff`), so
the box of some points is the least one around all of them (`isWithin_iff_of_ofPoints?`),
in whatever order they come. The box of two lists is the union of their boxes
(`ofPoints?_append`).

All of this holds of boxes whose coordinates are numbers, be they floats or exact. Nothing
is within the box of what is no number.

In exact arithmetic the box of moved points is the moved box (`ofPoints?_map_add`).
-/

namespace Kerf

/-- Whether both coordinates are numbers. -/
def Point.IsNumber {α : Type} [Scalar α] (p : Point α) : Prop :=
  Scalar.isNaN p.x = false ∧ Scalar.isNaN p.y = false

namespace Box

variable {α : Type} [Scalar α]

/-- Whether all four coordinates are numbers. -/
def IsNumber (box : Box α) : Prop :=
  box.topLeft.IsNumber ∧ box.bottomRight.IsNumber

/-- Whether a box reaches no further than another one to any side. -/
def IsWithin (inner outer : Box α) : Prop :=
  (outer.topLeft.x ≤ inner.topLeft.x ∧ inner.bottomRight.x ≤ outer.bottomRight.x) ∧
    outer.topLeft.y ≤ inner.topLeft.y ∧ inner.bottomRight.y ≤ outer.bottomRight.y

/-- Whether the corners of two boxes are equal as numbers. -/
def same (a b : Box α) : Bool :=
  Scalar.same a.topLeft.x b.topLeft.x && Scalar.same a.topLeft.y b.topLeft.y &&
    (Scalar.same a.bottomRight.x b.bottomRight.x && Scalar.same a.bottomRight.y b.bottomRight.y)

theorem contains_iff_isWithin {box : Box α} {p : Point α} :
    box.contains p = true ↔ IsWithin ⟨p, p⟩ box := by
  simp only [contains, IsWithin, Bool.and_eq_true, decide_eq_true_eq, and_assoc]

theorem isWithin_refl {box : Box α} (h : box.IsNumber) : box.IsWithin box := by
  obtain ⟨⟨hleft, htop⟩, hright, hbottom⟩ := h
  rw [Scalar.isNaN_eq_false_iff] at hleft htop hright hbottom
  exact ⟨⟨hleft, hright⟩, htop, hbottom⟩

theorem same_iff {a b : Box α} : a.same b = true ↔ a.IsWithin b ∧ b.IsWithin a := by
  simp only [same, Scalar.same, IsWithin, Bool.and_eq_true, decide_eq_true_eq]
  tauto

theorem IsNumber.union {a b : Box α} (ha : a.IsNumber) (hb : b.IsNumber) :
    (a.union b).IsNumber :=
  ⟨⟨Scalar.isNaN_min ha.1.1 hb.1.1, Scalar.isNaN_min ha.1.2 hb.1.2⟩,
    Scalar.isNaN_max ha.2.1 hb.2.1, Scalar.isNaN_max ha.2.2 hb.2.2⟩

/-! ## Least boxes -/

section Ordered

variable [Scalar.Ordered α]

theorem IsWithin.trans {a b c : Box α} (hab : a.IsWithin b) (hbc : b.IsWithin c) :
    a.IsWithin c :=
  ⟨⟨Scalar.Ordered.le_trans hbc.1.1 hab.1.1, Scalar.Ordered.le_trans hab.1.2 hbc.1.2⟩,
    Scalar.Ordered.le_trans hbc.2.1 hab.2.1, Scalar.Ordered.le_trans hab.2.2 hbc.2.2⟩

/-- What is in a box is in all boxes around it. -/
theorem IsWithin.contains {inner outer : Box α} (h : inner.IsWithin outer) {p : Point α}
    (hp : inner.contains p = true) : outer.contains p = true :=
  contains_iff_isWithin.mpr ((contains_iff_isWithin.mp hp).trans h)

/-- The union of two boxes is the least box around both. -/
theorem isWithin_union_iff {a b : Box α} (ha : a.IsNumber) (hb : b.IsNumber) {outer : Box α} :
    (a.union b).IsWithin outer ↔ a.IsWithin outer ∧ b.IsWithin outer := by
  simp only [IsWithin, Box.union, Scalar.le_min_iff ha.1.1 hb.1.1,
    Scalar.le_min_iff ha.1.2 hb.1.2, Scalar.max_le_iff ha.2.1 hb.2.1,
    Scalar.max_le_iff ha.2.2 hb.2.2]
  tauto

theorem union_assoc {a b c : Box α} (ha : a.IsNumber) (hb : b.IsNumber) (hc : c.IsNumber) :
    (a.union b).union c = a.union (b.union c) := by
  simp only [Box.union, Scalar.min_assoc ha.1.1 hb.1.1 hc.1.1,
    Scalar.min_assoc ha.1.2 hb.1.2 hc.1.2, Scalar.max_assoc ha.2.1 hb.2.1 hc.2.1,
    Scalar.max_assoc ha.2.2 hb.2.2 hc.2.2]

variable {points : List (Point α)}

omit [Scalar.Ordered α] in
theorem IsNumber.foldl_insert {box : Box α} (hbox : box.IsNumber)
    (hpoints : ∀ p ∈ points, p.IsNumber) :
    (points.foldl insert box).IsNumber := by
  induction points generalizing box with
  | nil => exact hbox
  | cons p points ih =>
    rw [List.forall_mem_cons] at hpoints
    rw [List.foldl_cons, insert_eq_union]
    exact ih (hbox.union ⟨hpoints.1, hpoints.1⟩) hpoints.2

/-- Points that are taken in one by one make the least box around them and the one at the
start. -/
theorem isWithin_foldl_insert_iff {box : Box α} (hbox : box.IsNumber)
    (hpoints : ∀ p ∈ points, p.IsNumber) {outer : Box α} :
    (points.foldl insert box).IsWithin outer ↔
      box.IsWithin outer ∧ ∀ p ∈ points, outer.contains p = true := by
  induction points generalizing box with
  | nil => simp
  | cons p points ih =>
    rw [List.forall_mem_cons] at hpoints
    have hp : IsNumber ⟨p, p⟩ := ⟨hpoints.1, hpoints.1⟩
    rw [List.foldl_cons, insert_eq_union, ih (hbox.union hp) hpoints.2,
      isWithin_union_iff hbox hp, List.forall_mem_cons, contains_iff_isWithin, and_assoc]

/-- A box may be joined before points are taken in or after. -/
theorem union_foldl_insert {a b : Box α} (ha : a.IsNumber) (hb : b.IsNumber)
    (hpoints : ∀ p ∈ points, p.IsNumber) :
    points.foldl insert (a.union b) = a.union (points.foldl insert b) := by
  induction points generalizing b with
  | nil => rfl
  | cons p points ih =>
    rw [List.forall_mem_cons] at hpoints
    have hp : IsNumber ⟨p, p⟩ := ⟨hpoints.1, hpoints.1⟩
    rw [List.foldl_cons, List.foldl_cons, insert_eq_union, insert_eq_union,
      union_assoc ha hb hp, ih (hb.union hp) hpoints.2]

omit [Scalar.Ordered α] in
theorem exists_ofPoints? (hne : points ≠ []) : ∃ box, ofPoints? points = some box := by
  obtain ⟨p, rest, rfl⟩ := List.exists_cons_of_ne_nil hne
  exact ⟨_, rfl⟩

omit [Scalar.Ordered α] in
theorem isNumber_of_ofPoints? (hpoints : ∀ p ∈ points, p.IsNumber) {box : Box α}
    (h : ofPoints? points = some box) : box.IsNumber := by
  cases points with
  | nil => cases h
  | cons p points =>
    cases h
    rw [List.forall_mem_cons] at hpoints
    exact IsNumber.foldl_insert ⟨hpoints.1, hpoints.1⟩ hpoints.2

/-- The box of some points is within exactly those boxes that contain all of them. -/
theorem isWithin_iff_of_ofPoints? (hpoints : ∀ p ∈ points, p.IsNumber) {box : Box α}
    (h : ofPoints? points = some box) {outer : Box α} :
    box.IsWithin outer ↔ ∀ p ∈ points, outer.contains p = true := by
  cases points with
  | nil => cases h
  | cons p points =>
    cases h
    rw [List.forall_mem_cons] at hpoints
    rw [isWithin_foldl_insert_iff ⟨hpoints.1, hpoints.1⟩ hpoints.2, List.forall_mem_cons,
      contains_iff_isWithin]

theorem contains_of_ofPoints? (hpoints : ∀ p ∈ points, p.IsNumber) {box : Box α}
    (h : ofPoints? points = some box) : ∀ p ∈ points, box.contains p = true :=
  (isWithin_iff_of_ofPoints? hpoints h).mp (isWithin_refl (isNumber_of_ofPoints? hpoints h))

/-- The order of points does not matter to their box. -/
theorem same_of_perm {others : List (Point α)} (hperm : others.Perm points)
    (hpoints : ∀ p ∈ points, p.IsNumber) {box other : Box α}
    (hbox : ofPoints? points = some box) (hother : ofPoints? others = some other) :
    other.same box = true := by
  have hothers : ∀ p ∈ others, p.IsNumber := fun p hp => hpoints p (hperm.mem_iff.mp hp)
  have hcontains := contains_of_ofPoints? hpoints hbox
  have hotherContains := contains_of_ofPoints? hothers hother
  refine same_iff.mpr ⟨(isWithin_iff_of_ofPoints? hothers hother).mpr fun p hp => ?_,
    (isWithin_iff_of_ofPoints? hpoints hbox).mpr fun p hp => ?_⟩
  · exact hcontains p (hperm.mem_iff.mp hp)
  · exact hotherContains p (hperm.mem_iff.mpr hp)

/-- The box of two lists is the union of their boxes. -/
theorem ofPoints?_append {others : List (Point α)} (hpoints : ∀ p ∈ points, p.IsNumber)
    (hothers : ∀ p ∈ others, p.IsNumber) {box other : Box α}
    (hbox : ofPoints? points = some box) (hother : ofPoints? others = some other) :
    ofPoints? (points ++ others) = some (box.union other) := by
  have hnumber := isNumber_of_ofPoints? hpoints hbox
  cases points with
  | nil => cases hbox
  | cons p points =>
    cases others with
    | nil => cases hother
    | cons q others =>
      cases hbox
      cases hother
      rw [List.forall_mem_cons] at hothers
      rw [List.cons_append, ofPoints?, List.foldl_append, List.foldl_cons, insert_eq_union,
        union_foldl_insert hnumber ⟨hothers.1, hothers.1⟩ hothers.2]

end Ordered

/-! ## Moved boxes -/

section Exact

open Scalar (Exact)

/-- A box moved by an offset. -/
def shift (box : Box α) (offset : Point α) : Box α :=
  ⟨box.topLeft + offset, box.bottomRight + offset⟩

variable [Exact α]

theorem insert_shift (box : Box α) (p offset : Point α) :
    (box.shift offset).insert (p + offset) = (box.insert p).shift offset := by
  simp only [insert, shift, Point.add_def, Scalar.min_add, Scalar.max_add]

theorem foldl_insert_shift (box : Box α) (points : List (Point α)) (offset : Point α) :
    (points.map (· + offset)).foldl insert (box.shift offset) =
      (points.foldl insert box).shift offset := by
  induction points generalizing box with
  | nil => rfl
  | cons p points ih => rw [List.map_cons, List.foldl_cons, insert_shift, ih, List.foldl_cons]

/-- The box of moved points is the moved box. -/
theorem ofPoints?_map_add (points : List (Point α)) (offset : Point α) :
    ofPoints? (points.map (· + offset)) = (ofPoints? points).map (·.shift offset) := by
  cases points with
  | nil => rfl
  | cons p points => exact congrArg some (foldl_insert_shift ⟨p, p⟩ points offset)

/-- A moved box contains what the box did before both were moved. -/
theorem contains_shift (box : Box α) (p offset : Point α) :
    (box.shift offset).contains (p + offset) = box.contains p := by
  simp only [contains, shift, Point.add_def, Exact.add_le_add_iff]

end Exact

end Box

end Kerf
