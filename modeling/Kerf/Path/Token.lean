import Kerf.Scalar
import Kerf.Text.Blank

/-!
# Tokens of path data

Path data is a run of letters and numbers, with blanks and commas between them where they
would otherwise join. A number is scanned by maximal munch (`scanNumber`): a sign, digits
with at most one point, and an exponent if digits follow its mark; a second sign or point
starts the next number, so that `1.5.5` and `10-20` are two numbers each. `scan` takes one
lexeme off the front, and `tokens` all.

Everything before a fault is ASCII, so a count of characters is a count of bytes there.
-/

namespace Kerf.Path

/-- Why text is not path data. -/
structure Fault where
  /-- The number of bytes before the unreadable part. -/
  position : Nat
  /-- The number without digits, or the character that belongs to no token. -/
  token : List Char
  deriving DecidableEq, Repr

/-- The wording of a fault. -/
def Fault.message (fault : Fault) : String :=
  "Invalid number '" ++ String.ofList fault.token ++ "' at offset " ++ toString fault.position

/-- What may stand between tokens. -/
def isSeparator (c : Char) : Bool :=
  Text.isAsciiBlank c || c == ','

/-- What a number may start with. -/
def isNumberStart (c : Char) : Bool :=
  c.isDigit || c == '-' || c == '+' || c == '.'

/-! ## Numbers -/

/-- Splits a sign off. -/
def scanSign : List Char → List Char × List Char
  | '-' :: text => (['-'], text)
  | '+' :: text => (['+'], text)
  | text => ([], text)

/-- Splits a point and the digits after it off. -/
def scanFraction : List Char → List Char × List Char
  | '.' :: text => ('.' :: text.takeWhile Char.isDigit, text.dropWhile Char.isDigit)
  | text => ([], text)

/-- Splits an exponent off, if its mark and sign are followed by a digit. -/
def scanExponent : List Char → List Char × List Char
  | [] => ([], [])
  | c :: text =>
    let (sign, unsigned) := scanSign text
    let digits := unsigned.takeWhile Char.isDigit
    if (c = 'e' ∨ c = 'E') ∧ digits ≠ [] then
      (c :: (sign ++ digits), unsigned.dropWhile Char.isDigit)
    else ([], c :: text)

/-- Splits the longest number off. -/
def scanNumber (text : List Char) : List Char × List Char :=
  let (sign, unsigned) := scanSign text
  let whole := unsigned.takeWhile Char.isDigit
  let (fraction, afterFraction) := scanFraction (unsigned.dropWhile Char.isDigit)
  let (exponent, rest) := scanExponent afterFraction
  (sign ++ whole ++ fraction ++ exponent, rest)

theorem scanSign_append (text : List Char) : (scanSign text).1 ++ (scanSign text).2 = text := by
  unfold scanSign
  split <;> simp

theorem scanFraction_append (text : List Char) :
    (scanFraction text).1 ++ (scanFraction text).2 = text := by
  unfold scanFraction
  split <;> simp

theorem scanExponent_append (text : List Char) :
    (scanExponent text).1 ++ (scanExponent text).2 = text := by
  cases text with
  | nil => rfl
  | cons c text =>
    simp only [scanExponent]
    split
    · have := scanSign_append text
      simp only [List.cons_append, List.append_assoc, List.takeWhile_append_dropWhile, this]
    · rfl

/-- Scanning a number loses nothing. -/
theorem scanNumber_append (text : List Char) :
    (scanNumber text).1 ++ (scanNumber text).2 = text := by
  simp only [scanNumber, List.append_assoc, scanExponent_append, scanFraction_append,
    List.takeWhile_append_dropWhile, scanSign_append]

/-- Where a number may start, its scan takes at least one character. -/
theorem scanNumber_ne_nil {c : Char} {text : List Char} (h : isNumberStart c = true) :
    (scanNumber (c :: text)).1 ≠ [] := by
  simp only [isNumberStart, Bool.or_eq_true, beq_iff_eq] at h
  rcases h with ((h | rfl) | rfl) | rfl
  · have h1 : c ≠ '-' := by rintro rfl; simp at h
    have h2 : c ≠ '+' := by rintro rfl; simp at h
    have hs : scanSign (c :: text) = ([], c :: text) := by
      unfold scanSign
      split <;> simp_all
    simp [scanNumber, hs, h]
  · simp [scanNumber, scanSign]
  · simp [scanNumber, scanSign]
  · simp [scanNumber, scanSign, scanFraction]

theorem length_scanNumber_lt {c : Char} {text : List Char} (h : isNumberStart c = true) :
    (scanNumber (c :: text)).2.length < (c :: text).length := by
  have hne : 0 < (scanNumber (c :: text)).1.length :=
    List.length_pos_iff.mpr (scanNumber_ne_nil h)
  have happ := congrArg List.length (scanNumber_append (c :: text))
  rw [List.length_append] at happ
  omega

/-! ## Tokens -/

/-- A token of path data. -/
inductive Token (α : Type) where
  | letter (c : Char)
  | number (value : α)
  deriving DecidableEq, Repr

/-- Puts a token in front of those that follow it. -/
def andThen {α : Type} (token : Token α) (rest : Except Fault (List (Token α))) :
    Except Fault (List (Token α)) :=
  rest.map (token :: ·)

/-- The tokens of path data that starts at a position. -/
def tokensFrom {α : Type} [Written α] (position : Nat) (text : List Char) :
    Except Fault (List (Token α)) :=
  match text with
  | [] => .ok []
  | c :: rest =>
    if isSeparator c then tokensFrom (position + 1) rest
    else if c.isAlpha then andThen (.letter c) (tokensFrom (position + 1) rest)
    else if _h : isNumberStart c then
      let number := (scanNumber (c :: rest)).1
      match Written.read? number with
      | none => .error ⟨position, number⟩
      | some value =>
        andThen (.number value)
          (tokensFrom (position + number.length) (scanNumber (c :: rest)).2)
    else .error ⟨position, [c]⟩
termination_by text.length
decreasing_by
  · simp
  · simp
  · exact length_scanNumber_lt _h

/-- The tokens of path data. -/
def tokens {α : Type} [Written α] (text : List Char) : Except Fault (List (Token α)) :=
  tokensFrom 0 text

end Kerf.Path
