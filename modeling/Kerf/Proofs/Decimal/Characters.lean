import Kerf.Proofs.Text.Classes
import Kerf.Scalar

/-!
# Characters of written numbers

Numbers are written with ASCII digits, a minus sign, a point and the letters of `inf` and
`NaN`, and with nothing else (`isNumberChar`). What holds of programs with such numbers is
shown for all scalars that are `Written.Compact`, and floats are: `Decimal.mem_plain` and
`Decimal.mem_fixed` go through the digits of both notations.
-/

namespace Kerf

namespace Decimal

/-- What numbers are written with. -/
def isNumberChar (c : Char) : Bool :=
  c.isDigit || c == '-' || c == '.' || nanText.contains c || infinityText.contains c

theorem isNumberChar_of_isDigit {c : Char} (h : c.isDigit = true) : isNumberChar c = true := by
  simp [isNumberChar, h]

/-! ## Digits -/

theorem mem_toDigits {n : Nat} {c : Char} (h : c ∈ Nat.toDigits 10 n) : c.isDigit = true :=
  Nat.isDigit_of_mem_toDigits (by omega) (by omega) h

theorem mem_significant {n : Nat} {c : Char} (h : c ∈ significant n) : c.isDigit = true := by
  have hmem : c ∈ (Nat.toDigits 10 n).reverse :=
    (List.dropWhile_sublist _).mem (List.mem_reverse.mp h)
  exact mem_toDigits (List.mem_reverse.mp hmem)

theorem mem_leftpad {length n : Nat} {c : Char}
    (h : c ∈ List.leftpad length '0' (Nat.toDigits 10 n)) : c.isDigit = true := by
  rcases List.mem_append.mp h with hzero | hdigit
  · rw [List.eq_of_mem_replicate hzero]
    rfl
  · exact mem_toDigits hdigit

/-! ## Notations -/

theorem mem_pointed {places units : Nat} {c : Char} (h : c ∈ pointed places units) :
    isNumberChar c = true := by
  simp only [pointed] at h
  split at h
  · exact isNumberChar_of_isDigit (mem_leftpad (List.mem_of_mem_take h))
  · rcases List.mem_append.mp h with hwhole | hfraction
    · exact isNumberChar_of_isDigit (mem_leftpad (List.mem_of_mem_take hwhole))
    · rcases List.mem_cons.mp hfraction with rfl | hdigit
      · rfl
      · exact isNumberChar_of_isDigit (mem_leftpad (List.mem_of_mem_drop hdigit))

theorem mem_positionalText {digits : List Char} (hdigits : ∀ c ∈ digits, c.isDigit = true)
    {point : Int} {c : Char} (h : c ∈ positionalText [] digits point) :
    isNumberChar c = true := by
  have hzeros : ∀ n, c ∈ List.replicate n '0' → isNumberChar c = true := fun n hc => by
    rw [List.eq_of_mem_replicate hc]
    rfl
  simp only [positionalText] at h
  split at h
  · -- all digits are behind the point
    simp only [List.mem_cons, List.mem_append] at h
    rcases h with rfl | rfl | hzero | hdigit
    · rfl
    · rfl
    · exact hzeros _ hzero
    · exact isNumberChar_of_isDigit (hdigits c hdigit)
  · split at h
    · -- all digits are in front of it, so it is not written
      simp only [List.append_nil, List.mem_append] at h
      rcases h with hdigit | hzero
      · exact isNumberChar_of_isDigit (hdigits c hdigit)
      · exact hzeros _ hzero
    · -- it is among them
      simp only [List.mem_append, List.mem_cons] at h
      rcases h with hdigit | rfl | hdigit
      · exact isNumberChar_of_isDigit (hdigits c (List.mem_of_mem_take hdigit))
      · rfl
      · exact isNumberChar_of_isDigit (hdigits c (List.mem_of_mem_drop hdigit))

theorem mem_signed {negative : Bool} {text : List Char}
    (htext : ∀ c ∈ text, isNumberChar c = true) {c : Char} (h : c ∈ signed negative text) :
    isNumberChar c = true := by
  cases negative with
  | false => exact htext c h
  | true =>
    rcases List.mem_cons.mp h with rfl | hc
    · rfl
    · exact htext c hc

theorem mem_infinityText : ∀ c ∈ infinityText, isNumberChar c = true :=
  List.all_eq_true.mp rfl

theorem mem_nanText : ∀ c ∈ nanText, isNumberChar c = true :=
  List.all_eq_true.mp rfl

theorem mem_fixed {places : Nat} {x : Float} {c : Char} (h : c ∈ fixed places x) :
    isNumberChar c = true := by
  simp only [fixed] at h
  split at h
  · exact mem_nanText c h
  · exact mem_signed mem_infinityText h
  · exact mem_signed (fun _ => mem_pointed) h

theorem mem_plain_magnitude {index : Nat} {c : Char} (h : c ∈ Layout.plain.magnitude index) :
    isNumberChar c = true := by
  simp only [Layout.magnitude] at h
  split at h
  · rw [List.mem_singleton.mp h]
    rfl
  · exact mem_positionalText (fun _ => mem_significant) h

theorem mem_plain {x : Float} {c : Char} (h : c ∈ Layout.plain.write x) :
    isNumberChar c = true := by
  simp only [Layout.write] at h
  split at h
  · exact mem_nanText c h
  · exact mem_signed mem_infinityText h
  · exact mem_signed (fun _ => mem_plain_magnitude) h

end Decimal

/-- Scalars whose texts hold no other characters than those of numbers. -/
class Written.Compact (α : Type) [Written α] : Prop where
  mem_plain : ∀ {a : α} {c : Char}, c ∈ Written.plain a → Decimal.isNumberChar c = true
  mem_fixed : ∀ {places : Nat} {a : α} {c : Char},
    c ∈ Written.fixed places a → Decimal.isNumberChar c = true

instance : Written.Compact Float where
  mem_plain := Decimal.mem_plain
  mem_fixed := Decimal.mem_fixed

end Kerf
