import Kerf.Files.Access
import Kerf.Text.Words

/-!
# Parts of locations

A location is a sequence of components between slashes. Doubled slashes and a slash at the
end do not count. A component that is a single point stays where it is, and two points go
up. The last component that goes anywhere is the name of what the location names, and what
follows the last point of that name is its extension, unless the point is the name's first
character.
-/

namespace Kerf.Location

/-- The component that stays where it is. -/
def here : List Char := ['.']

/-- The component that goes up. -/
def up : List Char := ['.', '.']

/-- The components of a location, in the order in which they are followed. -/
def steps (location : Location) : List (List Char) :=
  Text.words (· == '/') location

/-- The components of a location, those that lead nowhere left out. -/
def components (location : Location) : List (List Char) :=
  location.steps.filter fun component => component != here

/-- Whether a location starts at the root. -/
def isAbsolute (location : Location) : Bool :=
  location.head? == some '/'

/-- Whether a location can only be that of a directory. -/
def namesDirectory (location : Location) : Bool :=
  match (Text.cut (· == '/') location).getLast? with
  | some last => last.isEmpty || last == here || last == up
  | none => false

/-- The number of bytes of a location or a component. -/
def size (location : Location) : Nat :=
  (location.flatMap String.utf8EncodeChar).length

/-- The name of what a location names; a location that ends by going up has none. -/
def name? (location : Location) : Option (List Char) :=
  location.components.getLast?.filter fun last => last != up

/-- The extension of a name. -/
def extensionOf? (name : List Char) : Option (List Char) :=
  let after := (name.reverse.takeWhile fun c => c != '.').reverse
  let before := name.take (name.length - after.length - 1)
  if before.isEmpty || after.length = name.length then none else some after

/-- The extension of the name of a location. -/
def extension? (location : Location) : Option (List Char) :=
  location.name?.bind extensionOf?

/-- A location that is read from its end, without what leads nowhere there: slashes, and
components that are a single point behind a slash. -/
def trimmed : List Char → List Char
  | '/' :: rest => trimmed rest
  | '.' :: '/' :: rest => trimmed rest
  | rest => rest

/-- The location of the directory that a location lies in, which is empty for the working
directory; none if the location names no place inside of a directory. -/
def parent? (location : Location) : Option Location :=
  let path := trimmed location.reverse
  let above := (trimmed (path.dropWhile fun c => c != '/')).reverse
  if path.isEmpty then none
  else some (if above.isEmpty && location.isAbsolute then ['/'] else above)

end Kerf.Location
