import Mathlib.Tactic.LinearCombination
import Kerf.Proofs.Drawing.Walk

/-!
# Transforms that keep shapes

A transform that scales both axes by factors of one magnitude multiplies all distances by
it, whether its rotation is carried out or left out: the squares of a sine and a cosine
sum up to one. An induction over the transforms that are applied one after the other takes
this to all of them. The arithmetic is exact, and that of the real numbers, since sines
and cosines count.

- `IsUniform`: transforms whose two factors have the same magnitude. They may mirror.
- `IsSimilarity`: maps that multiply all distances by a number. `isSimilarity_apply` says
  it of a uniform transform, and `isSimilarity_outward` of several, with the product of
  their magnitudes (`enlargement`).
- `distance_outward`: the same of a transform and those around it. A rotation leaves its
  center where it is, and everything as far from it as it was.
- `Site.exists_isSimilarity`: so what a drawing shows of a shape is similar to it, however
  deep its groups are nested.
-/

namespace Kerf

/-- Whether a map multiplies the distance of any two points by a number. -/
def IsSimilarity (ratio : ℝ) (f : Point ℝ → Point ℝ) : Prop :=
  ∀ p q : Point ℝ, (f p).distance (f q) = ratio * p.distance q

theorem isSimilarity_id : IsSimilarity 1 id :=
  fun p q => (one_mul (p.distance q)).symm

theorem IsSimilarity.comp {r s : ℝ} {f g : Point ℝ → Point ℝ} (hg : IsSimilarity s g)
    (hf : IsSimilarity r f) : IsSimilarity (r * s) (g ∘ f) := by
  intro p q
  calc (g (f p)).distance (g (f q)) = s * (r * p.distance q) := by rw [hg, hf]
    _ = r * s * p.distance q := by ring

namespace Transform

/-! ## The parts of a transform -/

/-- Whether a transform scales both axes by factors of the same magnitude. -/
def IsUniform (t : Transform ℝ) : Prop :=
  |t.scaling.x| = |t.scaling.y|

/-- The magnitudes of the factors of some uniform transforms, multiplied. -/
def enlargement (transforms : List (Transform ℝ)) : ℝ :=
  (transforms.map fun t => |t.scaling.x|).prod

theorem isSimilarity_scale {t : Transform ℝ} (h : t.IsUniform) :
    IsSimilarity |t.scaling.x| fun p => ⟨p.x * t.scaling.x, p.y * t.scaling.y⟩ := by
  intro p q
  have hsq : t.scaling.y ^ 2 = t.scaling.x ^ 2 := (sq_eq_sq_iff_abs_eq_abs _ _).mpr h.symm
  have hinside : (p.x * t.scaling.x - q.x * t.scaling.x) ^ 2 +
      (p.y * t.scaling.y - q.y * t.scaling.y) ^ 2 =
        t.scaling.x ^ 2 * ((p.x - q.x) ^ 2 + (p.y - q.y) ^ 2) := by
    linear_combination (p.y - q.y) ^ 2 * hsq
  rw [Point.distance_eq, Point.distance_eq, hinside, Real.sqrt_mul (sq_nonneg _),
    Real.sqrt_sq_eq_abs]

theorem isSimilarity_rotate (degrees : ℝ) (center : Point ℝ) :
    IsSimilarity 1 (rotate degrees center) := by
  intro p q
  have hunit := Real.sin_sq_add_cos_sq (Scalar.radians degrees)
  rw [one_mul, Point.distance_eq, Point.distance_eq]
  congr 1
  simp only [rotate, Scalar.sin_eq, Scalar.cos_eq]
  linear_combination ((p.x - q.x) ^ 2 + (p.y - q.y) ^ 2) * hunit

theorem isSimilarity_shift (offset : Point ℝ) : IsSimilarity 1 (· + offset) := by
  intro p q
  simp only [one_mul, Point.distance, Point.add_def, add_sub_add_right_eq_sub]

/-! ## Transforms one after the other -/

/-- A rotation that is left out changes no distance, just as one that is carried out. -/
theorem isSimilarity_apply {t : Transform ℝ} (h : t.IsUniform) :
    IsSimilarity |t.scaling.x| t.apply := by
  have hscale := isSimilarity_scale h
  by_cases hturned : leastRotation < Scalar.abs t.rotation
  · have happly : t.apply = (· + t.shift) ∘ rotate t.rotation t.center ∘
        fun p => ⟨p.x * t.scaling.x, p.y * t.scaling.y⟩ := by
      funext p
      rw [apply, if_pos hturned]
      rfl
    -- the scaling comes first, then the turn, then the shift
    have hturn := (isSimilarity_rotate t.rotation t.center).comp hscale
    rw [happly, ← mul_one |t.scaling.x|, ← mul_one |t.scaling.x|]
    exact (isSimilarity_shift t.shift).comp hturn
  · have happly : t.apply = (· + t.shift) ∘ fun p =>
        ⟨p.x * t.scaling.x, p.y * t.scaling.y⟩ := by
      funext p
      rw [apply, if_neg hturned]
      rfl
    rw [happly, ← mul_one |t.scaling.x|]
    exact (isSimilarity_shift t.shift).comp hscale

/-- Several transforms, the innermost one first. -/
theorem isSimilarity_outward {transforms : List (Transform ℝ)}
    (h : ∀ t ∈ transforms, t.IsUniform) :
    IsSimilarity (enlargement transforms) (outward transforms) := by
  induction transforms with
  | nil => exact isSimilarity_id
  | cons t transforms ih =>
    rw [List.forall_mem_cons] at h
    have houtward : outward (t :: transforms) = outward transforms ∘ t.apply := by
      funext p
      rw [outward, List.foldl_cons, applyOrSkip_eq_apply]
      rfl
    have hprod : enlargement (t :: transforms) = |t.scaling.x| * enlargement transforms :=
      List.prod_cons
    rw [houtward, hprod]
    exact (ih h.2).comp (isSimilarity_apply h.1)

/-- A transform of its own, whether or not it is the identity, and those around it. -/
theorem isSimilarity_outward_apply {leaf : Transform ℝ} {groups : List (Transform ℝ)}
    (h : ∀ t ∈ leaf :: groups, t.IsUniform) :
    IsSimilarity (enlargement (leaf :: groups)) (outward groups ∘ leaf.apply) := by
  rw [List.forall_mem_cons] at h
  exact (isSimilarity_outward h.2).comp (isSimilarity_apply h.1)

/-! ## Rotations -/

theorem isUniform_ofRotation (degrees : ℝ) (center : Point ℝ) :
    (ofRotation degrees center).IsUniform :=
  rfl

theorem ofRotation_apply_center (degrees : ℝ) (center : Point ℝ) :
    (ofRotation degrees center).apply center = center := by
  obtain ⟨x, y⟩ := center
  have hscaled : (⟨x * 1.0, y * 1.0⟩ : Point ℝ) = ⟨x, y⟩ := by norm_num
  have hturned : rotate degrees ⟨x, y⟩ ⟨x, y⟩ = (⟨x, y⟩ : Point ℝ) := by simp [rotate]
  have hshift : (⟨x, y⟩ : Point ℝ) + ⟨0.0, 0.0⟩ = ⟨x, y⟩ := by
    rw [Point.add_def]
    norm_num
  simp only [apply, ofRotation, identity, hscaled, hturned, ite_self, hshift]

/-- **Uniform transforms keep shapes**, over the real numbers: a transform and any number
of others around it, each of which scales both axes by factors of one magnitude, multiply
the distance of every two points by the product of the magnitudes, whatever their
rotations, centers and shifts are. A rotation leaves its center where it is, and every
point as far from the center as it was. -/
theorem distance_outward {leaf : Transform ℝ} {groups : List (Transform ℝ)}
    (h : ∀ t ∈ leaf :: groups, |t.scaling.x| = |t.scaling.y|) :
    (∀ p q : Point ℝ, (outward groups (leaf.apply p)).distance (outward groups (leaf.apply q)) =
      ((leaf :: groups).map fun t => |t.scaling.x|).prod * p.distance q) ∧
    ∀ (degrees : ℝ) (center : Point ℝ),
      (ofRotation degrees center).apply center = center ∧
        ∀ p : Point ℝ,
          ((ofRotation degrees center).apply p).distance center = p.distance center := by
  refine ⟨isSimilarity_outward_apply h, fun degrees center => ?_⟩
  have hcenter := ofRotation_apply_center degrees center
  refine ⟨hcenter, fun p => ?_⟩
  have hsimilar := isSimilarity_apply (isUniform_ofRotation degrees center) p center
  have hfactor : |(ofRotation degrees center).scaling.x| = 1 := by
    show |(1.0 : ℝ)| = 1
    norm_num
  rwa [hcenter, hfactor, one_mul] at hsimilar

/-- A leaf that is mirrored, turned by a right angle and doubled, in a group whose
rotation is left out, in one that halves it upside down. -/
theorem distance_outward_mirrored_leaf :
    let leaf : Transform ℝ := ⟨⟨1, 2⟩, ⟨-2, 2⟩, 90, ⟨4, 0⟩⟩
    let groups : List (Transform ℝ) :=
      [⟨⟨0, 7⟩, ⟨1, 1⟩, 0.0005, ⟨5, 5⟩⟩, ⟨⟨3, 0⟩, ⟨1 / 2, -1 / 2⟩, -45, ⟨1, 1⟩⟩]
    (∀ t ∈ leaf :: groups, |t.scaling.x| = |t.scaling.y|) ∧
      (outward groups (leaf.apply ⟨0, 0⟩)).distance (outward groups (leaf.apply ⟨3, 4⟩)) =
        5 := by
  intro leaf groups
  have huniform : ∀ t ∈ leaf :: groups, |t.scaling.x| = |t.scaling.y| := by
    simp [leaf, groups, neg_div, abs_neg]
  refine ⟨huniform, ?_⟩
  have hfive : (⟨0, 0⟩ : Point ℝ).distance ⟨3, 4⟩ = 5 := by
    rw [Point.distance_eq, Real.sqrt_eq_iff_eq_sq (by norm_num) (by norm_num)]
    norm_num
  rw [(distance_outward huniform).1, hfive]
  norm_num [leaf, groups]

end Transform

namespace Drawing

open Transform (IsUniform enlargement outward isSimilarity_outward_apply)

/-- The real numbers, with some way of reading and writing them. -/
noncomputable abbrev realsWritten (read? : List Char → Option ℝ) (plain : ℝ → List Char)
    (fixed : Nat → ℝ → List Char) : Written ℝ where
  read? := read?
  plain := plain
  fixed := fixed

/-- **What a drawing shows of a shape is similar to it**: if the shape's own transform and
those of the groups around it are uniform, a similarity takes the points of the shape to
those of its outline, however numbers are read. -/
theorem Site.exists_isSimilarity (read? : List Char → Option ℝ) (plain : ℝ → List Char)
    (fixed : Nat → ℝ → List Char) (fineness : Fineness) (site : Site) :
    let _ : Written ℝ := realsWritten read? plain fixed
    let transforms : List (Transform ℝ) := (site.element :: site.around).map transformOf
    (∀ t ∈ transforms, t.IsUniform) →
      ∃ f, IsSimilarity (enlargement transforms) f ∧
        (site.outline fineness).points = (shapePoints fineness site.element).map f := by
  intro _ transforms h
  exact ⟨outward (site.around.map transformOf) ∘ (transformOf site.element).apply,
    isSimilarity_outward_apply h, rfl⟩

end Drawing

end Kerf
