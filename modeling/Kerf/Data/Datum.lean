/-!
# Data

A `Datum` is what a settings file or a report holds, whatever format it is written in.
-/

namespace Kerf

/-- A value of a settings file or a report. -/
inductive Datum where
  | null
  | flag (value : Bool)
  | whole (value : Int)
  | real (value : Float)
  | text (value : List Char)
  /-- A date or a time, as it is written. -/
  | moment (written : List Char)
  | sequence (items : List Datum)
  /-- Members with names, in the order they are written; a name may be there twice. -/
  | record (members : List (List Char × Datum))
  /-- What is well-formed in its format but has no value. -/
  | invalid
  deriving Repr

namespace Datum

/-- The truth value of a datum. -/
def flag? : Datum → Option Bool
  | flag value => some value
  | _ => none

/-- The number of a datum; a whole number is taken as the nearest float. -/
def real? : Datum → Option Float
  | real value => some value
  | whole (.ofNat n) => some (Float.ofNat n)
  | whole (.negSucc n) => some (-Float.ofNat (n + 1))
  | _ => none

/-- The whole number of a datum, if it is below a limit and not negative. -/
def below? (limit : Nat) : Datum → Option Nat
  | whole (.ofNat n) => if n < limit then some n else none
  | _ => none

/-- The 32-bit number of a datum. -/
def word32? (datum : Datum) : Option UInt32 :=
  (datum.below? (Nat.pow 2 32)).map UInt32.ofNat

/-- The 64-bit number of a datum. -/
def word64? (datum : Datum) : Option UInt64 :=
  (datum.below? (Nat.pow 2 64)).map UInt64.ofNat

end Datum

end Kerf
