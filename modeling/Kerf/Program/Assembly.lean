import Kerf.Program.Contour
import Kerf.Program.Line

/-!
# Assembly of programs

`assemble` makes the program that cuts some contours. It starts by setting units and modes
and travels over the origin at the safe height. For each contour it travels to the first
point, lowers the tool, switches it on, cuts to every other point, switches the tool off
and raises it. At the end the tool is off, at the safe height and over the origin.
Contours without points leave nothing behind but their number.

There is a program for every setup, be it sensible or not.
-/

namespace Kerf.Program

variable {α : Type} [Written α]

/-- Where a setup has a point of the drawing cut. -/
def placed (setup : Setup α) (p : Point α) : Point α :=
  ⟨p.x * setup.scale + setup.offset.x, p.y * setup.scale + setup.offset.y⟩

/-- What the tool of a setup is called. -/
def toolName (setup : Setup α) : List Char :=
  if setup.laser then "laser".toList else "spindle".toList

/-- The remarks at the head of a program, one of which says when it was made. -/
def headRemarks (setup : Setup α) (stamp : List Char) : List (Line α) :=
  [.remark "G-Code generated by vectorcut".toList,
    .remark ("Generated on: ".toList ++ stamp),
    .remark "Settings:".toList,
    .remark ("  Cut feed rate: ".toList ++ Written.plain setup.cutFeed ++ " mm/min".toList),
    .remark ("  Rapid feed rate: ".toList ++ Written.plain setup.rapidFeed ++ " mm/min".toList),
    .remark ("  Power: ".toList ++ Nat.toDigits 10 setup.power.toNat),
    .remark ("  Scale factor: ".toList ++ Written.plain setup.scale),
    .remark ("  Offset: X".toList ++ Written.plain setup.offset.x ++ " Y".toList ++
      Written.plain setup.offset.y),
    .remark ("  Mode: ".toList ++ toolName setup)]

/-- The line that raises the tool. -/
def raise (setup : Setup α) : Line α :=
  .command (.heightTo setup.safeHeight) "Move to safe height".toList

/-- The line that switches the tool off. -/
def switchOff (setup : Setup α) : Line α :=
  .command .disengage ("Turn off ".toList ++ toolName setup)

/-- The lines before the first contour. -/
def header (setup : Setup α) (stamp : List Char) : List (Line α) :=
  (if setup.comments then headRemarks setup stamp ++ [.blank] else []) ++
    [.command .millimetres "Set units to millimeters".toList,
      .command .absolute "Absolute positioning".toList,
      .command .feedPerMinute "Units per minute feed rate mode".toList] ++
    (if setup.laser then [.command .arm "Enable laser mode with power off".toList] else []) ++
    [raise setup, .command .home "Move to origin".toList, .blank]

/-- The lines that cut a contour with a number. -/
def contourLines (setup : Setup α) (number : Nat) (contour : Contour α) : List (Line α) :=
  match contour.points with
  | [] => []
  | first :: rest =>
    [.remark ("Contour ".toList ++ Nat.toDigits 10 number ++ [':', ' '] ++ contour.label),
      .command (.rapidTo (placed setup first)) "Rapid to contour start".toList,
      .command (.heightTo setup.workHeight) "Lower to work height".toList,
      .command (.engage setup.power) ("Turn on ".toList ++ toolName setup)] ++
      rest.map (fun p => .command (.cutTo (placed setup p) setup.cutFeed) []) ++
      [switchOff setup, raise setup, .blank]

/-- The lines that cut contours numbered from one on. -/
def cutting (setup : Setup α) (number : Nat) : List (Contour α) → List (Line α)
  | [] => []
  | contour :: rest => contourLines setup number contour ++ cutting setup (number + 1) rest

/-- The lines after the last contour. -/
def footer (setup : Setup α) : List (Line α) :=
  [.remark "End of program".toList, switchOff setup, raise setup,
    .command .home "Return to origin".toList, .command .finish "Program end".toList]

/-- The program that cuts some contours. -/
def assemble (setup : Setup α) (stamp : List Char) (contours : List (Contour α)) :
    List (Line α) :=
  header setup stamp ++ cutting setup 1 contours ++ footer setup

/-- The text of the program that cuts the geometry of a source. -/
def generate (setup : Setup α) (fineness : Fineness) (stamp : List Char) (source : Source α) :
    List Char :=
  render setup (assemble setup stamp (source.contours fineness))

/-- How far along the work is at its start, after each contour and at its end, in parts of
the whole. -/
def progress (contours : Nat) : List Float32 :=
  let total := (max contours 1).toFloat32
  0 :: (List.range contours).map (fun index => (index + 1).toFloat32 / total) ++ [1]

end Kerf.Program
