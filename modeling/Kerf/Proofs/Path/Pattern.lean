import Mathlib
import Kerf.Proofs.Path.Bytes
import Kerf.Proofs.Path.Munch
import Kerf.Proofs.Text.Classes

/-!
# The pattern of a number

What may be taken for one number, as a regular expression: `[+-]?d*(.d*)?([eE][+-]?d+)?`.
Each part of the expression is told apart from the others as the parts of a `Munch` are.

- `mem_numberPattern_iff`: the words of the expression are the texts of munches.
- `isGreatest_scanEnd`: from any offset of any bytes, a scan ends where the longest such
  word does.
- `exists_ascii_of_lt_scanEnd`: it passes over bytes of ASCII only.
-/

namespace Kerf.Path

open Decimal (Sign Exponent)
open RegularExpression (char star)

/-! ## The parts of a number -/

/-- One of some characters. -/
def oneOf (chars : List Char) : RegularExpression Char :=
  (chars.map char).sum

/-- A part that may be missing. -/
def optional (pattern : RegularExpression Char) : RegularExpression Char :=
  1 + pattern

/-- `d`. -/
def digitPattern : RegularExpression Char :=
  oneOf "0123456789".toList

/-- `d*`. -/
def digitsPattern : RegularExpression Char :=
  star digitPattern

/-- `[+-]?`. -/
def signPattern : RegularExpression Char :=
  optional (oneOf ['+', '-'])

/-- `(.d*)?`. -/
def fractionPattern : RegularExpression Char :=
  optional (char '.' * digitsPattern)

/-- `([eE][+-]?d+)?`. -/
def exponentPattern : RegularExpression Char :=
  optional (oneOf ['e', 'E'] * (signPattern * (digitPattern * digitsPattern)))

/-- `[+-]?d*(.d*)?([eE][+-]?d+)?`. -/
def numberPattern : RegularExpression Char :=
  signPattern * (digitsPattern * (fractionPattern * exponentPattern))

/-! ## Words of the parts -/

theorem mem_oneOf_iff {chars word : List Char} :
    word ∈ (oneOf chars).matches' ↔ ∃ c ∈ chars, word = [c] := by
  induction chars with
  | nil =>
    simp only [oneOf, List.map_nil, List.sum_nil, RegularExpression.matches'_zero,
      Language.notMem_zero, List.not_mem_nil, false_and, exists_false]
  | cons c chars ih =>
    have hsum : oneOf (c :: chars) = char c + oneOf chars := List.sum_cons
    rw [hsum, RegularExpression.matches'_add, Language.mem_add, ih,
      RegularExpression.matches'_char, List.exists_mem_cons_iff]
    rfl

theorem mem_optional_iff {pattern : RegularExpression Char} {word : List Char} :
    word ∈ (optional pattern).matches' ↔ word = [] ∨ word ∈ pattern.matches' := by
  rw [optional, RegularExpression.matches'_add, Language.mem_add,
    RegularExpression.matches'_epsilon, Language.mem_one]

theorem mem_comp_iff {first second : RegularExpression Char} {word : List Char} :
    word ∈ (first * second).matches' ↔
      ∃ front ∈ first.matches', ∃ rest ∈ second.matches', front ++ rest = word := by
  rw [RegularExpression.matches'_mul, Language.mem_mul]

theorem mem_digits_iff {c : Char} : c ∈ "0123456789".toList ↔ c.isDigit = true := by
  constructor
  · have hall : "0123456789".toList.all Char.isDigit = true := by decide
    exact List.all_eq_true.mp hall c
  · intro hdigit
    obtain ⟨hlow, hhigh⟩ := Text.toNat_of_isDigit hdigit
    have hall : ∀ n < 10, Char.ofNat (48 + n) ∈ "0123456789".toList := by decide
    have hmem := hall (c.toNat - 48) (by omega)
    rwa [Nat.add_sub_cancel' hlow, Char.ofNat_toNat] at hmem

theorem mem_digitPattern_iff {word : List Char} :
    word ∈ digitPattern.matches' ↔ ∃ c, c.isDigit = true ∧ word = [c] := by
  simp only [digitPattern, mem_oneOf_iff, mem_digits_iff]

/-- The words of repeated characters are those of such characters only. -/
theorem mem_star_iff {pattern : RegularExpression Char} {IsMember : Char → Prop}
    (hpattern : ∀ {word : List Char}, word ∈ pattern.matches' ↔ ∃ c, IsMember c ∧ word = [c])
    {word : List Char} : word ∈ (star pattern).matches' ↔ ∀ c ∈ word, IsMember c := by
  rw [RegularExpression.matches'_star, Language.mem_kstar]
  constructor
  · rintro ⟨words, rfl, hwords⟩ c hc
    obtain ⟨part, hpart, hmem⟩ := List.mem_flatten.mp hc
    obtain ⟨d, hd, rfl⟩ := hpattern.mp (hwords part hpart)
    obtain rfl := List.mem_singleton.mp hmem
    exact hd
  · intro h
    -- each character is a word of its own
    have hflatten : word = (word.map fun c => [c]).flatten := by
      rw [← List.flatMap_def, List.flatMap_singleton']
    refine ⟨word.map fun c => [c], hflatten, fun part hpart => ?_⟩
    obtain ⟨c, hc, rfl⟩ := List.mem_map.mp hpart
    exact hpattern.mpr ⟨c, h c hc, rfl⟩

theorem mem_digitsPattern_iff {word : List Char} :
    word ∈ digitsPattern.matches' ↔ ∀ c ∈ word, c.isDigit = true :=
  mem_star_iff mem_digitPattern_iff

theorem mem_signPattern_iff {word : List Char} :
    word ∈ signPattern.matches' ↔ ∃ sign : Sign, sign.text = word := by
  rw [signPattern, mem_optional_iff, mem_oneOf_iff]
  constructor
  · rintro (rfl | ⟨c, hc, rfl⟩)
    · exact ⟨.unsigned, rfl⟩
    · rcases List.mem_pair.mp hc with rfl | rfl
      · exact ⟨.plus, rfl⟩
      · exact ⟨.minus, rfl⟩
  · rintro ⟨sign, rfl⟩
    cases sign with
    | unsigned => exact .inl rfl
    | plus => exact .inr ⟨'+', by simp, rfl⟩
    | minus => exact .inr ⟨'-', by simp, rfl⟩

theorem mem_fractionPattern_iff {word : List Char} :
    word ∈ fractionPattern.matches' ↔
      ∃ fraction : Option (List Char), (∀ digits ∈ fraction, ∀ c ∈ digits, c.isDigit = true) ∧
        fraction.elim [] ('.' :: ·) = word := by
  rw [fractionPattern, mem_optional_iff, mem_comp_iff]
  constructor
  · rintro (rfl | ⟨_, rfl, digits, hdigits, rfl⟩)
    · exact ⟨none, by simp, rfl⟩
    · refine ⟨some digits, ?_, rfl⟩
      rintro _ ⟨⟩
      exact mem_digitsPattern_iff.mp hdigits
  · rintro ⟨fraction, hdigits, rfl⟩
    cases fraction with
    | none => exact .inl rfl
    | some digits =>
      exact .inr ⟨['.'], rfl, digits, mem_digitsPattern_iff.mpr (hdigits digits rfl), rfl⟩

theorem mem_exponentPattern_iff {word : List Char} :
    word ∈ exponentPattern.matches' ↔
      ∃ exponent : Option Exponent, exponent.elim [] Exponent.text = word := by
  simp only [exponentPattern, mem_optional_iff, mem_comp_iff, mem_oneOf_iff,
    mem_signPattern_iff, mem_digitPattern_iff, mem_digitsPattern_iff]
  constructor
  · rintro (rfl | ⟨_, ⟨mark, hmark, rfl⟩, _,
      ⟨_, ⟨sign, rfl⟩, _, ⟨_, ⟨first, hfirst, rfl⟩, rest, hrest,
      rfl⟩, rfl⟩, rfl⟩)
    · exact ⟨none, rfl⟩
    · exact ⟨some ⟨mark, sign, first :: rest, List.mem_pair.mp hmark,
        List.cons_ne_nil first rest, List.forall_mem_cons.mpr ⟨hfirst, hrest⟩⟩, rfl⟩
  · rintro ⟨exponent, rfl⟩
    cases exponent with
    | none => exact .inl rfl
    | some exponent =>
      obtain ⟨hne, hdigits⟩ := exponent.isDigits
      obtain ⟨first, rest, hcons⟩ := List.exists_cons_of_ne_nil hne
      rw [hcons, List.forall_mem_cons] at hdigits
      refine .inr ⟨_, ⟨exponent.mark, List.mem_pair.mpr exponent.mark_eq, rfl⟩, _, ⟨_,
        ⟨exponent.sign, rfl⟩, _, ⟨_, ⟨first, hdigits.1, rfl⟩, rest, hdigits.2, rfl⟩, rfl⟩, ?_⟩
      rw [Option.elim, Exponent.text, hcons]
      rfl

/-- The words of the pattern are what may be taken for one number. -/
theorem mem_numberPattern_iff {word : List Char} :
    word ∈ numberPattern.matches' ↔ ∃ munch : Munch, munch.text = word := by
  simp only [numberPattern, mem_comp_iff, mem_signPattern_iff, mem_digitsPattern_iff,
    mem_fractionPattern_iff, mem_exponentPattern_iff]
  constructor
  · rintro ⟨_, ⟨sign, rfl⟩, _,
      ⟨whole, hwhole, _, ⟨_, ⟨fraction, hfraction, rfl⟩, _, ⟨exponent, rfl⟩,
      rfl⟩, rfl⟩, rfl⟩
    exact ⟨⟨sign, whole, fraction, exponent, hwhole, hfraction⟩, rfl⟩
  · rintro ⟨munch, rfl⟩
    exact ⟨_, ⟨munch.sign, rfl⟩, _, ⟨munch.whole, munch.isDigit_whole, _, ⟨_,
      ⟨munch.fraction, munch.isDigit_fraction, rfl⟩, _, ⟨munch.exponent, rfl⟩, rfl⟩, rfl⟩, rfl⟩

/-! ## The longest word -/

theorem Munch.toNat_lt_of_mem_text {munch : Munch} {c : Char} (h : c ∈ munch.text) :
    c.toNat < 128 := by
  rcases munch.isDigit_or_of_mem_text h with hdigit | hother
  · exact (Text.toNat_of_isDigit hdigit).2.trans_lt (by decide)
  · have hall : ∀ c ∈ ['-', '+', '.', 'e', 'E'], c.toNat < 128 := by simp
    exact hall c hother

/-- Whether the bytes from one offset to another are a word of the pattern. -/
def IsNumberEnd (data : List UInt8) (start stop : Nat) : Prop :=
  start ≤ stop ∧ stop ≤ data.length ∧
    (view data start).take (stop - start) ∈ numberPattern.matches'

variable {data : List UInt8} {start : Nat}

theorem length_view (data : List UInt8) (start : Nat) :
    (view data start).length = data.length - start := by
  rw [view, List.length_map, List.length_drop]

theorem scanEnd_le (h : start ≤ data.length) : scanEnd data start ≤ data.length := by
  have happ := congrArg List.length (scanNumber_append (view data start))
  rw [List.length_append, length_view] at happ
  rw [scanEnd_eq]
  omega

/-- The characters that are passed over are those of the scan. -/
theorem take_scanEnd (data : List UInt8) (start : Nat) :
    (view data start).take (scanEnd data start - start) = (scanNumber (view data start)).1 := by
  have hfront : (scanNumber (view data start)).1 <+: view data start :=
    ⟨_, scanNumber_append (view data start)⟩
  rw [scanEnd_eq, Nat.add_sub_cancel_left]
  exact (List.prefix_iff_eq_take.mp hfront).symm

/-- **A scan goes as far as a number can**: its end is the farthest one to which the bytes
are a word of the pattern. -/
theorem isGreatest_scanEnd (h : start ≤ data.length) :
    IsGreatest {stop | IsNumberEnd data start stop} (scanEnd data start) := by
  have hle : start ≤ scanEnd data start := by
    rw [scanEnd_eq]
    omega
  obtain ⟨scanned, hscanned⟩ := Munch.exists_text_eq_scanNumber (view data start)
  refine ⟨⟨hle, scanEnd_le h, ?_⟩, ?_⟩
  -- what is scanned is a word of the pattern
  · rw [take_scanEnd, mem_numberPattern_iff]
    exact ⟨scanned, hscanned⟩
  -- and no longer beginning is one
  · rintro stop ⟨hstart, hstop, hword⟩
    obtain ⟨other, hother⟩ := mem_numberPattern_iff.mp hword
    have hfront : other.text <+: view data start := hother ▸ List.take_prefix _ _
    have hlength := (Munch.isLongest_iff.mpr hscanned).length_le other hfront
    rw [hother, hscanned, List.length_take, length_view] at hlength
    rw [scanEnd_eq]
    omega

theorem exists_ascii_of_lt_scanEnd {i : Nat} (hi : start ≤ i) (hlt : i < scanEnd data start) :
    ∃ b ∈ data[i]?, b.toNat < 128 := by
  obtain ⟨scanned, hscanned⟩ := Munch.exists_text_eq_scanNumber (view data start)
  have hoffset : i - start < scanned.text.length := by
    rw [scanEnd_eq, ← hscanned] at hlt
    omega
  have hfront : scanned.text <+: view data start :=
    hscanned ▸ ⟨_, scanNumber_append (view data start)⟩
  have hget : (view data start)[i - start]? = some scanned.text[i - start] := by
    rw [List.prefix_iff_getElem?.mp hfront]
  rw [view, List.getElem?_map, List.getElem?_drop, Nat.add_sub_cancel' hi] at hget
  obtain ⟨b, hb, hchar⟩ := Option.map_eq_some_iff.mp hget
  have hascii := Munch.toNat_lt_of_mem_text (List.getElem_mem hoffset)
  rw [← hchar] at hascii
  exact ⟨b, hb, hascii⟩

end Kerf.Path
