import Kerf.Proofs.Exact
import Kerf.Transform.Basic

/-!
# Transforms in exact arithmetic

A transform with the parts of the identity moves nothing, so it may be left out
(`applyOrSkip_eq_apply`), also of several that are applied one after the other
(`outward_eq_foldl_apply`).
-/

namespace Kerf.Transform

variable {α : Type} [Scalar α]

/-- Where a transform takes a point, if the identity is left out. -/
def applyOrSkip (t : Transform α) (p : Point α) : Point α :=
  if t.isIdentity then p else t.apply p

/-- Where some transforms take a point, the innermost one first, if identities are left out. -/
def outward (transforms : List (Transform α)) (p : Point α) : Point α :=
  transforms.foldl (fun p t => t.applyOrSkip p) p

theorem eq_identity_of_isIdentity {t : Transform ℝ} (h : t.isIdentity = true) :
    t = identity := by
  obtain ⟨⟨_, _⟩, ⟨_, _⟩, _, ⟨_, _⟩⟩ := t
  simp only [isIdentity, samePoint, Bool.and_eq_true, Scalar.same_iff] at h
  obtain ⟨⟨⟨⟨rfl, rfl⟩, rfl, rfl⟩, rfl⟩, rfl, rfl⟩ := h
  rfl

theorem identity_apply (p : Point ℝ) : (identity : Transform ℝ).apply p = p := by
  -- a rotation by nothing is too small to be carried out
  have hturned : ¬(leastRotation : ℝ) < Scalar.abs (identity : Transform ℝ).rotation := by
    show ¬(0.001 : ℝ) < |0.0|
    norm_num
  rw [apply, if_neg hturned]
  show Point.mk (p.x * 1.0 + 0.0) (p.y * 1.0 + 0.0) = p
  norm_num

/-- Leaving out the identity changes nothing. -/
theorem applyOrSkip_eq_apply (t : Transform ℝ) (p : Point ℝ) : t.applyOrSkip p = t.apply p := by
  rw [applyOrSkip]
  split
  · next h => rw [eq_identity_of_isIdentity h, identity_apply]
  · rfl

theorem outward_eq_foldl_apply (transforms : List (Transform ℝ)) (p : Point ℝ) :
    outward transforms p = transforms.foldl (fun p t => t.apply p) p := by
  simp only [outward, applyOrSkip_eq_apply]

end Kerf.Transform
