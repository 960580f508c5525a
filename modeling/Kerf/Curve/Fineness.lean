import Kerf.Plane.Point

/-!
# Sampling

Curves are drawn as polylines by evenly sampling their parameter. A `Fineness` says how finely:
`samples n curve` evaluates a curve at `0, 1/n, …, 1`, so `n` steps give `n + 1` points
(`length_samples`). Zero steps count as one.
-/

namespace Kerf

/-- How finely curves are sampled. -/
structure Fineness where
  /-- The steps of a Bézier curve or an arc. -/
  curveSteps : UInt64
  /-- The segments of a circle or an ellipse. -/
  ellipseSegments : UInt64
  deriving DecidableEq, Repr

/-- The fineness used where none is asked for. -/
def Fineness.default : Fineness := ⟨100, 50⟩

instance : Inhabited Fineness := ⟨.default⟩

namespace Curve

/-- The step count that sampling works with: at least one. -/
def stepCount (steps : Nat) : Nat :=
  max steps 1

/-- The values of a function at the steps from the first to the last, both included. -/
def overSteps {β : Type} (steps : Nat) (value : Nat → β) : List β :=
  (List.range (stepCount steps + 1)).map value

/-- The points of a curve at evenly spaced parameters from zero to one. -/
def samples {α : Type} [Scalar α] (steps : Nat) (curve : α → Point α) : List (Point α) :=
  overSteps steps fun i => curve ((i : α) / (stepCount steps : α))

@[simp] theorem length_overSteps {β : Type} (steps : Nat) (value : Nat → β) :
    (overSteps steps value).length = stepCount steps + 1 := by
  simp [overSteps]

@[simp] theorem length_samples {α : Type} [Scalar α] (steps : Nat) (curve : α → Point α) :
    (samples steps curve).length = stepCount steps + 1 := by
  simp [samples]

end Curve

end Kerf
