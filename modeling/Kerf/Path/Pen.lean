import Kerf.Curve.Arc
import Kerf.Curve.Bezier
import Kerf.Path.Command

/-!
# The pen

Commands move a pen and leave points behind. A command with several tuples of parameters
is its tuples one after the other, each counted from where the pen is when its turn comes;
numbers that do not fill a tuple do nothing. `Pen.draw` does one command and `Pen.drawAll`
a list of them; `points` starts at the origin.

What takes a state through a list and collects what each step gives is `collect`; drawing
a list in two parts is drawing the second from where the first ends (`collect_append`).
-/

namespace Kerf.Path

/-- Steps through a list with a state and joins what the steps give. -/
def collect {σ τ β : Type} (step : σ → τ → σ × List β) : σ → List τ → σ × List β
  | state, [] => (state, [])
  | state, item :: items =>
    let (next, out) := step state item
    let (last, outs) := collect step next items
    (last, out ++ outs)

@[simp] theorem collect_nil {σ τ β : Type} (step : σ → τ → σ × List β) (state : σ) :
    collect step state [] = (state, []) := rfl

theorem collect_cons {σ τ β : Type} (step : σ → τ → σ × List β) (state : σ) (item : τ)
    (items : List τ) :
    collect step state (item :: items) =
      ((collect step (step state item).1 items).1,
        (step state item).2 ++ (collect step (step state item).1 items).2) := rfl

theorem collect_append {σ τ β : Type} (step : σ → τ → σ × List β) (state : σ) (a b : List τ) :
    collect step state (a ++ b) =
      ((collect step (collect step state a).1 b).1,
        (collect step state a).2 ++ (collect step (collect step state a).1 b).2) := by
  induction a generalizing state with
  | nil => rfl
  | cons item a ih => simp [collect_cons, ih]

/-! ## Tuples of parameters -/

/-- The complete pairs of a list. -/
def pairs {α : Type} : List α → List (α × α)
  | a :: b :: rest => (a, b) :: pairs rest
  | _ => []

/-- The complete fours of a list. -/
def fours {α : Type} : List α → List (α × α × α × α)
  | a :: b :: c :: d :: rest => (a, b, c, d) :: fours rest
  | _ => []

/-- The complete sixes of a list. -/
def sixes {α : Type} : List α → List (α × α × α × α × α × α)
  | a :: b :: c :: d :: e :: f :: rest => (a, b, c, d, e, f) :: sixes rest
  | _ => []

/-- The complete sevens of a list. -/
def sevens {α : Type} : List α → List (α × α × α × α × α × α × α)
  | a :: b :: c :: d :: e :: f :: g :: rest => (a, b, c, d, e, f, g) :: sevens rest
  | _ => []

/-! ## Drawing -/

/-- Where the pen is, and where the subpath began that closing returns to. -/
structure Pen (α : Type) where
  current : Point α
  start : Point α
  deriving DecidableEq, Repr, Inhabited

namespace Pen

variable {α : Type} [Scalar α]

/-- The pen before the first command. -/
def atOrigin : Pen α := ⟨.origin, .origin⟩

/-- The place that coordinates name: counted from the pen, or from the origin. -/
def resolve (pen : Pen α) (relative : Bool) (x y : α) : Point α :=
  if relative then pen.current + ⟨x, y⟩ else ⟨x, y⟩

/-- The pen at another place of the same subpath. -/
def moved (pen : Pen α) (place : Point α) : Pen α :=
  { pen with current := place }

/-- A straight line to the place that a pair names. -/
def lineTo (relative : Bool) (pen : Pen α) : α × α → Pen α × List (Point α)
  | (x, y) =>
    let place := pen.resolve relative x y
    (pen.moved place, [place])

/-- A straight line along the first axis. -/
def acrossTo (relative : Bool) (pen : Pen α) (x : α) : Pen α × List (Point α) :=
  let place := ⟨if relative then pen.current.x + x else x, pen.current.y⟩
  (pen.moved place, [place])

/-- A straight line along the second axis. -/
def upTo (relative : Bool) (pen : Pen α) (y : α) : Pen α × List (Point α) :=
  let place := ⟨pen.current.x, if relative then pen.current.y + y else y⟩
  (pen.moved place, [place])

/-- A new subpath at the first pair, and lines to the others. -/
def moveTo (relative : Bool) (pen : Pen α) : List (α × α) → Pen α × List (Point α)
  | [] => (pen, [])
  | (x, y) :: rest =>
    let place := pen.resolve relative x y
    let (last, points) := collect (lineTo relative) ⟨place, place⟩ rest
    (last, place :: points)

/-- A line back to where the subpath began. -/
def close (pen : Pen α) : Pen α × List (Point α) :=
  (pen.moved pen.start, [pen.start])

/-- A quadratic curve. -/
def quadraticTo (relative : Bool) (steps : Nat) (pen : Pen α) :
    α × α × α × α → Pen α × List (Point α)
  | (x1, y1, x, y) =>
    let finish := pen.resolve relative x y
    (pen.moved finish,
      Curve.quadratic pen.current (pen.resolve relative x1 y1) finish steps)

/-- A cubic curve. -/
def cubicTo (relative : Bool) (steps : Nat) (pen : Pen α) :
    α × α × α × α × α × α → Pen α × List (Point α)
  | (x1, y1, x2, y2, x, y) =>
    let finish := pen.resolve relative x y
    (pen.moved finish,
      Curve.cubic pen.current (pen.resolve relative x1 y1) (pen.resolve relative x2 y2) finish
        steps)

/-- An elliptical arc; a flag is set by any number that is not zero. -/
def arcTo (relative : Bool) (steps : Nat) (pen : Pen α) :
    α × α × α × α × α × α × α → Pen α × List (Point α)
  | (rx, ry, rotation, large, sweep, x, y) =>
    let finish := pen.resolve relative x y
    let arc : Curve.Arc α :=
      { start := pen.current
        finish := finish
        rx := rx
        ry := ry
        rotation := rotation
        large := !Scalar.same large 0.0
        sweep := !Scalar.same sweep 0.0 }
    (pen.moved finish, arc.points steps)

/-- Does one command: the pen after it and the points it leaves. -/
def draw (fineness : Fineness) (pen : Pen α) (command : Command α) : Pen α × List (Point α) :=
  let relative := command.isRelative
  let steps := fineness.curveSteps.toNat
  match command.letter.toUpper with
  | 'M' => pen.moveTo relative (pairs command.parameters)
  | 'L' => collect (lineTo relative) pen (pairs command.parameters)
  | 'H' => collect (acrossTo relative) pen command.parameters
  | 'V' => collect (upTo relative) pen command.parameters
  | 'Z' => pen.close
  | 'A' => collect (arcTo relative steps) pen (sevens command.parameters)
  | 'Q' => collect (quadraticTo relative steps) pen (fours command.parameters)
  | 'C' => collect (cubicTo relative steps) pen (sixes command.parameters)
  | _ => (pen, [])

/-- Does a list of commands. -/
def drawAll (fineness : Fineness) (pen : Pen α) (commands : List (Command α)) :
    Pen α × List (Point α) :=
  collect (draw fineness) pen commands

end Pen

/-- The points of a path. -/
def points {α : Type} [Scalar α] (commands : List (Command α)) (fineness : Fineness) :
    List (Point α) :=
  (Pen.drawAll fineness .atOrigin commands).2

/-- Reads path data and gives its points; blank text has none. -/
def readPoints {α : Type} [Written α] (text : List Char) (fineness : Fineness) :
    Except Fault (List (Point α)) :=
  if (Text.trim text).isEmpty then .ok []
  else (commands text).map fun commands => points commands fineness

end Kerf.Path
