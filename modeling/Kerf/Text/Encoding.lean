/-!
# Bytes as text

`decode` reads bytes as UTF-8. A failure says where the longest readable part ends and,
unless the bytes stop inside a character that could still be completed, how many bytes
there form the longest start of a character (`Encoding.Fault`). `decode_eq_ok_iff` is the
meaning: a text is read exactly from its own encoding.
-/

namespace Kerf.Text

/-- Why bytes are not text. -/
structure Fault where
  /-- The number of bytes before the first unreadable one. -/
  position : Nat
  /-- The length of the unreadable part; none if the bytes end inside a character. -/
  length : Option Nat
  deriving DecidableEq, Repr

/-- The wording of a fault. -/
def Fault.message (fault : Fault) : String :=
  match fault.length with
  | some n => s!"invalid utf-8 sequence of {n} bytes from index {fault.position}"
  | none => s!"incomplete utf-8 byte sequence from index {fault.position}"

/-- The bytes allowed after each possible first byte of a character, or none if it starts no
character: the second byte has a range of its own, the others are continuation bytes. -/
def followers (first : UInt8) : Option (List (UInt8 × UInt8)) :=
  if first < 0x80 then some []
  else if 0xC2 ≤ first ∧ first ≤ 0xDF then some [(0x80, 0xBF)]
  else if first = 0xE0 then some [(0xA0, 0xBF), (0x80, 0xBF)]
  else if first = 0xED then some [(0x80, 0x9F), (0x80, 0xBF)]
  else if 0xE1 ≤ first ∧ first ≤ 0xEF then some [(0x80, 0xBF), (0x80, 0xBF)]
  else if first = 0xF0 then some [(0x90, 0xBF), (0x80, 0xBF), (0x80, 0xBF)]
  else if first = 0xF4 then some [(0x80, 0x8F), (0x80, 0xBF), (0x80, 0xBF)]
  else if 0xF1 ≤ first ∧ first ≤ 0xF3 then some [(0x80, 0xBF), (0x80, 0xBF), (0x80, 0xBF)]
  else none

/-- What becomes of the bytes expected after a first byte. -/
inductive Continuation where
  /-- They are all there, and these bytes follow. -/
  | complete (rest : List UInt8)
  /-- After so many of them comes a byte that is not one of them. -/
  | broken (read : Nat)
  /-- The bytes end before they do. -/
  | cut

/-- Reads the bytes that a first byte asks for. -/
def continuation (read : Nat) : List (UInt8 × UInt8) → List UInt8 → Continuation
  | [], bytes => .complete bytes
  | _ :: _, [] => .cut
  | (low, high) :: ranges, byte :: bytes =>
    if low ≤ byte ∧ byte ≤ high then continuation (read + 1) ranges bytes else .broken read

/-- The first fault of a list of bytes; `fuel` bounds the number of characters read. -/
def firstFault (position : Nat) : (fuel : Nat) → List UInt8 → Option Fault
  | 0, _ => none
  | _, [] => none
  | fuel + 1, first :: bytes =>
    match followers first with
    | none => some ⟨position, some 1⟩
    | some ranges =>
      match continuation 1 ranges bytes with
      | .complete rest => firstFault (position + 1 + ranges.length) fuel rest
      | .broken read => some ⟨position, some read⟩
      | .cut => some ⟨position, none⟩

/-- Reads bytes as text. -/
def decode (bytes : ByteArray) : Except Fault String :=
  match String.fromUTF8? bytes with
  | some text => .ok text
  | none => .error ((firstFault 0 bytes.size bytes.toList).getD ⟨0, none⟩)

theorem fromUTF8?_eq_some_iff {bytes : ByteArray} {text : String} :
    String.fromUTF8? bytes = some text ↔ bytes = text.toUTF8 := by
  unfold String.fromUTF8?
  constructor
  · intro h
    split at h
    · cases h
      rfl
    · cases h
  · rintro rfl
    exact dif_pos text.isValidUTF8

/-- A text is read exactly from its own encoding. -/
theorem decode_eq_ok_iff {bytes : ByteArray} {text : String} :
    decode bytes = .ok text ↔ bytes = text.toUTF8 := by
  rw [← fromUTF8?_eq_some_iff, decode]
  cases String.fromUTF8? bytes <;> simp

end Kerf.Text
