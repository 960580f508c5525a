import Kerf.Plane.Point

/-!
# Setups

A `Setup` says how a machine is to be driven and how programs for it are written. Any
setup can be worked with; `Setup.check` tells those that make sense, and names the first
parameter that does not. The parameters are looked at in a fixed order, so of several
faults the same one is always named.
-/

namespace Kerf

/-- What is wrong with a parameter that no range describes. -/
inductive Flaw where
  | notFinite
  | zero
  | lessThanOne
  deriving DecidableEq, Repr

/-- The wording of a flaw. -/
def Flaw.reason : Flaw → String
  | notFinite => "must be a finite number"
  | zero => "must not be zero"
  | lessThanOne => "must be at least 1"

/-- What is wrong with a parameter. -/
inductive ParameterError (α : Type) where
  /-- The value is outside of a range, which may have no end. -/
  | outOfRange (name : String) (value least : α) (greatest : Option α)
  | invalid (name : String) (flaw : Flaw)
  deriving DecidableEq, Repr

/-- The wording of an error. -/
def ParameterError.message {α : Type} [Written α] : ParameterError α → String
  | outOfRange name value least greatest =>
    "Parameter '" ++ name ++ "' out of range: " ++ String.ofList (Written.plain value) ++
      " (valid: " ++ String.ofList (Written.plain least) ++ ".." ++
      ((greatest.map fun greatest => String.ofList (Written.plain greatest)).getD "inf") ++ ")"
  | invalid name flaw => "Invalid value for '" ++ name ++ "': " ++ flaw.reason

/-- How a machine is driven and how its programs are written. -/
structure Setup (α : Type) where
  /-- The feed of cutting moves, in millimetres a minute. -/
  cutFeed : α
  /-- The feed that rapid moves are taken to have. -/
  rapidFeed : α
  /-- The power of a laser or the speed of a spindle while it cuts. -/
  power : UInt32
  /-- The height for travel. -/
  safeHeight : α
  /-- The height for cutting. -/
  workHeight : α
  /-- Whether the tool is a laser, which is armed without power at the start. -/
  laser : Bool
  /-- Whether programs have comments. -/
  comments : Bool
  /-- What coordinates are multiplied by. -/
  scale : α
  /-- What is added to scaled coordinates. -/
  offset : Point α
  /-- How many places coordinates and heights are written with. -/
  places : UInt64
  deriving DecidableEq, Repr

namespace Setup

variable {α : Type} [Scalar α]

/-- The setup used where none is asked for. -/
def default : Setup α where
  cutFeed := 1000.0
  rapidFeed := 3000.0
  power := 255
  safeHeight := 5.0
  workHeight := 0.0
  laser := true
  comments := true
  scale := 1.0
  offset := ⟨0.0, 0.0⟩
  places := 3

/-- The greatest number of places that coordinates are written with. -/
def maxPlaces : Nat := 10

/-- Checks that a parameter is finite. -/
def checkFinite (name : String) (value : α) : Except (ParameterError α) Unit :=
  if Scalar.isFinite value then .ok () else .error (.invalid name .notFinite)

/-- Checks that a parameter is finite and positive. -/
def checkPositive (name : String) (value : α) : Except (ParameterError α) Unit := do
  checkFinite name value
  if 0.0 < value then .ok () else .error (.outOfRange name value 0.0 none)

/-- Checks that a setup makes sense. -/
def check (setup : Setup α) : Except (ParameterError α) Unit := do
  checkPositive "cut_feed_rate" setup.cutFeed
  checkPositive "rapid_feed_rate" setup.rapidFeed
  checkFinite "safe_height" setup.safeHeight
  checkFinite "work_height" setup.workHeight
  checkFinite "x_offset" setup.offset.x
  checkFinite "y_offset" setup.offset.y
  checkFinite "scale_factor" setup.scale
  if Scalar.same setup.scale 0.0 then .error (.invalid "scale_factor" .zero)
  else if maxPlaces < setup.places.toNat then
    .error (.outOfRange "decimal_places" (setup.places.toNat : α) 0.0 (some (maxPlaces : α)))
  else .ok ()

end Setup

end Kerf
