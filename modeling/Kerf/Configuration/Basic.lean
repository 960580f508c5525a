import Kerf.Curve.Fineness
import Kerf.Data.Layout
import Kerf.Setup.Basic

/-!
# Configurations

A `Configuration` is all that can be set: the setup of the machine and the fineness of
curves. `Configuration.write` and `Configuration.read?` turn it into a datum and back,
whatever format the datum is written in.
-/

namespace Kerf

/-- All that can be set. -/
structure Configuration where
  setup : Setup Float
  fineness : Fineness
  deriving DecidableEq, Repr

namespace Configuration

/-- The configuration used where there is none. -/
def default : Configuration := ⟨.default, .default⟩

/-- Checks that a parameter counts to at least one. -/
def checkCount (name : String) (count : UInt64) : Except (ParameterError Float) Unit :=
  if count = 0 then .error (.invalid name .lessThanOne) else .ok ()

/-- Checks that a configuration makes sense. -/
def check (configuration : Configuration) : Except (ParameterError Float) Unit := do
  configuration.setup.check
  checkCount "curve_steps" configuration.fineness.curveSteps
  checkCount "ellipse_segments" configuration.fineness.ellipseSegments

/-! ## Configurations as data -/

/-- The fields of a setup. -/
def setupFields : List (Data.Field (Setup Float)) :=
  [.real "cut_feed_rate" (·.cutFeed) fun setup value => { setup with cutFeed := value },
    .real "rapid_feed_rate" (·.rapidFeed) fun setup value => { setup with rapidFeed := value },
    .word32 "laser_power" (·.power) fun setup value => { setup with power := value },
    .real "safe_height" (·.safeHeight) fun setup value => { setup with safeHeight := value },
    .real "work_height" (·.workHeight) fun setup value => { setup with workHeight := value },
    .flag "use_laser_mode" (·.laser) fun setup value => { setup with laser := value },
    .flag "include_comments" (·.comments) fun setup value => { setup with comments := value },
    .real "scale_factor" (·.scale) fun setup value => { setup with scale := value },
    .real "x_offset" (·.offset.x) fun setup value =>
      { setup with offset := { setup.offset with x := value } },
    .real "y_offset" (·.offset.y) fun setup value =>
      { setup with offset := { setup.offset with y := value } },
    .word64 "decimal_places" (·.places) fun setup value => { setup with places := value }]

/-- The fields of a fineness. -/
def finenessFields : List (Data.Field Fineness) :=
  [.word64 "curve_steps" (·.curveSteps) fun fineness value =>
      { fineness with curveSteps := value },
    .word64 "ellipse_segments" (·.ellipseSegments) fun fineness value =>
      { fineness with ellipseSegments := value }]

/-- The fields of a configuration. -/
def fields (strict : Bool) : List (Data.Field Configuration) :=
  [.of "gcode" (Data.write setupFields) (Data.read? strict setupFields .default) (·.setup)
      fun configuration value => { configuration with setup := value },
    .of "flattening" (Data.write finenessFields) (Data.read? strict finenessFields .default)
      (·.fineness) fun configuration value => { configuration with fineness := value }]

/-- A configuration as a datum. -/
def write (configuration : Configuration) : Datum :=
  Data.write (fields true) configuration

/-- Reads a configuration from a datum. -/
def read? (strict : Bool) (datum : Datum) : Option Configuration :=
  Data.read? strict (fields strict) default datum

end Configuration

end Kerf
