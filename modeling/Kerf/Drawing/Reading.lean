import Kerf.Drawing.Outline
import Kerf.Files.Access
import Kerf.Xml.Document

/-!
# Reading drawings

A drawing is a well-formed document whose root is an `svg` element, written exactly so.
Reading one fails only for the document as a whole; `Drawing.Error` tells the causes
apart.
-/

namespace Kerf.Drawing

/-- Why there is no drawing to read. -/
inductive Error where
  | notFound (location : Location)
  | unreadable (cause : FileError)
  | badEncoding (fault : Text.Fault)
  /-- The text is not well-formed. -/
  | malformed
  /-- The root is another element. -/
  | otherRoot (tag : List Char)
  deriving DecidableEq, Repr

/-- The wording of an error. -/
def Error.message : Error → String
  | notFound location => "SVG file not found: " ++ String.ofList location
  | unreadable cause => "I/O error: " ++ cause.message
  | badEncoding fault => "Invalid text encoding: " ++ fault.message
  | malformed => "Malformed XML"
  | otherRoot tag => "Not an SVG document: root element is <" ++ String.ofList tag ++ ">"

/-- The tree of a document's text, which may start with a byte order mark. -/
def tree? (text : List Char) : Option Xml.Element :=
  Xml.read? (Xml.dropByteOrderMark text)

/-- Whether a root is that of a drawing. -/
def isRoot (root : Xml.Element) : Bool :=
  root.tag == ['s', 'v', 'g']

/-- Whether a text is a drawing. -/
def isDrawing (text : List Char) : Bool :=
  (tree? text).any isRoot

variable {α : Type} [Written α]

/-- The outlines of the drawing in a text. -/
def readText (fineness : Fineness) (text : List Char) : Except Error (List (Outline α)) :=
  match tree? text with
  | none => .error .malformed
  | some root =>
    if isRoot root then .ok (outlinesIn fineness root.children)
    else .error (.otherRoot root.tag)

/-- The outlines of the drawing in some bytes. -/
def readBytes (fineness : Fineness) (bytes : ByteArray) : Except Error (List (Outline α)) :=
  match Text.decode bytes with
  | .error fault => .error (.badEncoding fault)
  | .ok text => readText fineness text.toList

variable {m : Type → Type} [Monad m] [FileAccess m]

/-- The outlines of the drawing in a file. -/
def load (fineness : Fineness) (location : Location) :
    m (Except Error (List (Outline α))) := do
  if ← FileAccess.isPresent location then
    match ← FileAccess.read location with
    | .error cause => return .error (.unreadable cause)
    | .ok bytes => return readBytes fineness bytes
  else return .error (.notFound location)

/-- Whether a file can be read and is a drawing. -/
def isDrawingFile (location : Location) : m Bool := do
  match ← FileAccess.read location with
  | .error _ => return false
  | .ok bytes =>
    match Text.decode bytes with
    | .error _ => return false
    | .ok text => return isDrawing text.toList

end Kerf.Drawing
