import Kerf.Text.Blank

/-!
# Words

`words` cuts a text at the characters of a class and keeps what stands between them,
without the empty pieces: a run of separators counts as one, and separators at the ends as
none.
-/

namespace Kerf.Text

/-- The pieces of a text between the characters of a class, empty ones included. -/
def cut (isSeparator : Char → Bool) : List Char → List (List Char)
  | [] => [[]]
  | c :: text =>
    if isSeparator c then [] :: cut isSeparator text
    else
      match cut isSeparator text with
      | [] => [[c]]
      | piece :: pieces => (c :: piece) :: pieces

/-- The non-empty pieces of a text between the characters of a class. -/
def words (isSeparator : Char → Bool) (text : List Char) : List (List Char) :=
  (cut isSeparator text).filter fun piece => !piece.isEmpty

end Kerf.Text
