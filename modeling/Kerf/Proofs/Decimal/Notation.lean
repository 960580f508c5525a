import Kerf.Proofs.Decimal.Characters
import Kerf.Proofs.Text.Spacing

/-!
# Plain decimals

A plain decimal is a minus sign or none, digits, and a point with more digits or nothing
(`IsPlainDecimal`). Finite floats are written as plain decimals and all others as one of
`notFiniteTexts`, in both notations, and each plain decimal is read back as a number.

- `isMagnitude_pointed`, `isMagnitude_positionalText`: the digits of the two notations.
  The second needs digits to lay out, and the shortest decimal of a magnitude other than
  zero has some (`shortest_ne_zero`, `isDigits_significant`).
- `isFinite_iff`: a float is finite exactly if its magnitude comes before infinity in the
  order of magnitudes.
- `isSome_readFloat?`: plain decimals are read.

What holds of programs with such numbers is shown for all scalars that are
`Written.Legible`.
-/

namespace Kerf

namespace Decimal

/-! ## The notation -/

/-- Digits, at least one of them. -/
def IsDigits (text : List Char) : Prop :=
  text ≠ [] ∧ ∀ c ∈ text, c.isDigit = true

instance (text : List Char) : Decidable (IsDigits text) :=
  decidable_of_iff ((!text.isEmpty && text.all Char.isDigit) = true) (by simp [IsDigits])

/-- What is written of a number's magnitude: digits, and perhaps a point with more digits. -/
inductive IsMagnitude : List Char → Prop
  | whole {digits : List Char} (h : IsDigits digits) : IsMagnitude digits
  | pointed {digits fraction : List Char} (h : IsDigits digits)
    (hfraction : IsDigits fraction) :
    IsMagnitude (digits ++ '.' :: fraction)

/-- A magnitude, or a minus sign and a magnitude. -/
inductive IsPlainDecimal : List Char → Prop
  | unsigned {text : List Char} (h : IsMagnitude text) : IsPlainDecimal text
  | minus {text : List Char} (h : IsMagnitude text) : IsPlainDecimal ('-' :: text)

/-- The texts of what is no finite number. -/
def notFiniteTexts : List (List Char) :=
  [nanText, infinityText, '-' :: infinityText]

theorem IsMagnitude.exists_cons {text : List Char} (h : IsMagnitude text) :
    ∃ c rest, text = c :: rest ∧ c.isDigit = true := by
  cases h with
  | whole h =>
    obtain ⟨c, rest, rfl⟩ := List.exists_cons_of_ne_nil h.1
    exact ⟨c, rest, rfl, h.2 c List.mem_cons_self⟩
  | pointed h _ =>
    obtain ⟨c, rest, rfl⟩ := List.exists_cons_of_ne_nil h.1
    exact ⟨c, rest ++ '.' :: _, rfl, h.2 c List.mem_cons_self⟩

theorem IsPlainDecimal.isMagnitude_of_minus {text : List Char}
    (h : IsPlainDecimal ('-' :: text)) :
    IsMagnitude text := by
  cases h with
  | unsigned h =>
    obtain ⟨c, rest, heq, hc⟩ := h.exists_cons
    rw [← (List.cons.inj heq).1] at hc
    exact absurd hc (by decide)
  | minus h => exact h

/-- What is no finite number is not written like one. -/
theorem IsPlainDecimal.not_mem_notFiniteTexts {text : List Char} (h : IsPlainDecimal text) :
    text ∉ notFiniteTexts := by
  intro hmem
  simp only [notFiniteTexts, nanText, infinityText, List.mem_cons, List.not_mem_nil,
    or_false] at hmem
  -- the first digit would be a letter of a word
  cases h with
  | unsigned h =>
    obtain ⟨c, rest, rfl, hc⟩ := h.exists_cons
    rcases hmem with hnan | hinf | hneg
    · rw [(List.cons.inj hnan).1] at hc
      exact absurd hc (by decide)
    · rw [(List.cons.inj hinf).1] at hc
      exact absurd hc (by decide)
    · rw [(List.cons.inj hneg).1] at hc
      exact absurd hc (by decide)
  | minus h =>
    obtain ⟨c, rest, rfl, hc⟩ := h.exists_cons
    rcases hmem with hnan | hinf | hneg
    · exact absurd (List.cons.inj hnan).1 (by decide)
    · exact absurd (List.cons.inj hinf).1 (by decide)
    · rw [(List.cons.inj (List.cons.inj hneg).2).1] at hc
      exact absurd hc (by decide)

/-- The text of a number, or of what is no finite number. -/
def IsNumberText (text : List Char) : Prop :=
  IsPlainDecimal text ∨ text ∈ notFiniteTexts

theorem IsMagnitude.isNumberChar {text : List Char} (h : IsMagnitude text) :
    ∀ c ∈ text, isNumberChar c = true := by
  cases h with
  | whole h => exact fun c hc => isNumberChar_of_isDigit (h.2 c hc)
  | pointed h hfraction =>
    rw [List.forall_mem_append, List.forall_mem_cons]
    exact ⟨fun c hc => isNumberChar_of_isDigit (h.2 c hc), rfl,
      fun c hc => isNumberChar_of_isDigit (hfraction.2 c hc)⟩

theorem IsPlainDecimal.isNumberChar {text : List Char} (h : IsPlainDecimal text) :
    ∀ c ∈ text, isNumberChar c = true := by
  cases h with
  | unsigned h => exact h.isNumberChar
  | minus h => exact List.forall_mem_cons.mpr ⟨rfl, h.isNumberChar⟩

theorem isNumberChar_of_mem_notFiniteTexts {text : List Char} (h : text ∈ notFiniteTexts) :
    ∀ c ∈ text, isNumberChar c = true := by
  have hall : notFiniteTexts.all (·.all isNumberChar) = true := rfl
  exact List.all_eq_true.mp (List.all_eq_true.mp hall text h)

theorem IsNumberText.isNumberChar {text : List Char} (h : IsNumberText text) :
    ∀ c ∈ text, isNumberChar c = true :=
  h.elim IsPlainDecimal.isNumberChar isNumberChar_of_mem_notFiniteTexts

theorem IsPlainDecimal.ne_nil {text : List Char} (h : IsPlainDecimal text) : text ≠ [] := by
  cases h with
  | unsigned h =>
    obtain ⟨c, rest, rfl, -⟩ := h.exists_cons
    exact List.cons_ne_nil c rest
  | minus h => exact List.cons_ne_nil _ _

theorem IsNumberText.ne_nil {text : List Char} (h : IsNumberText text) : text ≠ [] := by
  rcases h with hplain | hmem
  · exact hplain.ne_nil
  · rintro rfl
    exact absurd hmem (by decide)

/-! ## Digits -/

theorem isDigits_toDigits (n : Nat) : IsDigits (Nat.toDigits 10 n) :=
  ⟨Nat.toDigits_ne_nil, fun _ => mem_toDigits⟩

theorem IsDigits.append {a b : List Char} (h : IsDigits a) (hb : ∀ c ∈ b, c.isDigit = true) :
    IsDigits (a ++ b) := by
  refine ⟨List.append_ne_nil_of_left_ne_nil h.1 b, ?_⟩
  rw [List.forall_mem_append]
  exact ⟨h.2, hb⟩

theorem isDigit_of_mem_replicate {n : Nat} : ∀ c ∈ List.replicate n '0', c.isDigit = true := by
  intro c hc
  rw [List.eq_of_mem_replicate hc]
  rfl

theorem IsDigits.zeros_append {digits : List Char} (h : IsDigits digits) (zeros : Nat) :
    IsDigits (List.replicate zeros '0' ++ digits) := by
  refine ⟨List.append_ne_nil_of_right_ne_nil _ h.1, ?_⟩
  rw [List.forall_mem_append]
  exact ⟨isDigit_of_mem_replicate, h.2⟩

theorem isMagnitude_pointed (places units : Nat) : IsMagnitude (pointed places units) := by
  let digits := List.leftpad (places + 1) '0' (Nat.toDigits 10 units)
  have hdigits : ∀ c ∈ digits, c.isDigit = true := fun _ => mem_leftpad
  -- there are more digits than places
  have hlength : places < digits.length := by
    rw [List.length_leftpad]
    omega
  have hwhole : IsDigits (digits.take (digits.length - places)) := by
    refine ⟨?_, fun c hc => hdigits c (List.mem_of_mem_take hc)⟩
    rw [← List.length_pos_iff, List.length_take]
    omega
  show IsMagnitude (if places = 0 then digits.take (digits.length - places)
    else digits.take (digits.length - places) ++ '.' :: digits.drop (digits.length - places))
  split
  · exact .whole hwhole
  · refine .pointed hwhole ⟨?_, fun c hc => hdigits c (List.mem_of_mem_drop hc)⟩
    rw [← List.length_pos_iff, List.length_drop]
    omega

theorem isMagnitude_positionalText {digits : List Char} (h : IsDigits digits) (point : Int) :
    IsMagnitude (positionalText [] digits point) := by
  unfold positionalText
  split
  -- all digits are behind the point
  · have hzero : IsDigits ['0'] := by decide
    exact .pointed hzero (h.zeros_append _)
  · split
    -- all digits are in front of it, and it is not written
    · rw [List.append_nil]
      exact .whole (h.append isDigit_of_mem_replicate)
    · -- the point is among the digits
      refine .pointed ⟨?_, fun c hc => h.2 c (List.mem_of_mem_take hc)⟩
        ⟨?_, fun c hc => h.2 c (List.mem_of_mem_drop hc)⟩
      · rw [← List.length_pos_iff, List.length_take]
        omega
      · rw [← List.length_pos_iff, List.length_drop]
        omega

/-! ## The digits of shortest decimals -/

/-- Not all digits of a number are zeros, unless it is zero. -/
theorem exists_mem_toDigits_ne_zero {n : Nat} (h : n ≠ 0) :
    ∃ c ∈ Nat.toDigits 10 n, c ≠ '0' := by
  induction n using Nat.strongRecOn with
  | ind n ih =>
    by_cases hsmall : n < 10
    · rw [Nat.toDigits_of_lt_base hsmall]
      refine ⟨n.digitChar, List.mem_singleton.mpr rfl, ?_⟩
      have hall : ∀ d < 10, d ≠ 0 → d.digitChar ≠ '0' := by decide
      exact hall n hsmall h
    · obtain ⟨c, hc, hne⟩ := ih (n / 10) (by omega) (by omega)
      rw [Nat.toDigits_of_base_le (by omega) (by omega)]
      exact ⟨c, List.mem_append_left _ hc, hne⟩

theorem isDigits_significant {coefficient : Nat} (h : coefficient ≠ 0) :
    IsDigits (significant coefficient) := by
  refine ⟨?_, fun _ => mem_significant⟩
  obtain ⟨c, hc, hne⟩ := exists_mem_toDigits_ne_zero h
  intro hnil
  rw [significant, List.reverse_eq_nil_iff, List.dropWhile_eq_nil_iff] at hnil
  exact hne (by simpa using hnil c (List.mem_reverse.mpr hc))

/-- Zero reads back as zero only. -/
theorem ne_zero_of_readsBack {index coefficient : Nat} {power : Int} (hindex : index ≠ 0)
    (h : readsBack index power coefficient = true) : coefficient ≠ 0 := by
  rintro rfl
  rw [readsBack, beq_iff_eq] at h
  exact hindex h.symm

theorem mantissa_ne_zero {index : Nat} (h : index ≠ 0) : mantissa index ≠ 0 := by
  have hpow : 0 < Nat.pow 2 52 := by decide
  unfold mantissa
  split
  · exact h
  · omega

theorem exactDecimal_ne_zero {mantissa : Nat} (h : mantissa ≠ 0) (exponent : Int) :
    (exactDecimal mantissa exponent).1 ≠ 0 := by
  unfold exactDecimal
  split
  · exact Nat.mul_ne_zero h (Nat.pow_pos (by decide)).ne'
  · exact Nat.mul_ne_zero h (Nat.pow_pos (by decide)).ne'

theorem shortest_ne_zero {index : Nat} (h : index ≠ 0) : (shortest index).1 ≠ 0 := by
  unfold shortest
  cases hfound : (List.range' 1 17).findSome? (ofLength? index (quotient (mantissa index)
      (exponent index)).1 (quotient (mantissa index) (exponent index)).2) with
  | none => simpa [hfound] using exactDecimal_ne_zero (mantissa_ne_zero h) (exponent index)
  | some found =>
    obtain ⟨length, -, hlength⟩ := List.exists_of_findSome?_eq_some hfound
    simpa [hfound] using ne_zero_of_readsBack h (readsBack_of_ofLength? hlength)

theorem isMagnitude_plain_magnitude (index : Nat) :
    IsMagnitude (Layout.plain.magnitude index) := by
  unfold Layout.magnitude
  split
  · have hzero : IsDigits ['0'] := by decide
    exact .whole hzero
  · next h => exact isMagnitude_positionalText (isDigits_significant (shortest_ne_zero h)) _

/-! ## Floats -/

theorem isPlainDecimal_signed {text : List Char} (h : IsMagnitude text) (negative : Bool) :
    IsPlainDecimal (signed negative text) := by
  cases negative with
  | false => exact .unsigned h
  | true => exact .minus h

theorem signed_infinityText_mem (negative : Bool) :
    signed negative infinityText ∈ notFiniteTexts := by
  cases negative <;> simp [signed, notFiniteTexts]

section Bits

open Float.Model (UnpackedFloat)

/-- A word is that of a finite float unless all bits of its exponent are set. -/
theorem isFinite_unpack_iff (word : BitVec 64) :
    (UnpackedFloat.unpack .binary64 word).isFinite = true ↔
      @UnpackedFloat.unpackExponent .binary64 word ≠ -1#11 := by
  unfold UnpackedFloat.unpack
  dsimp only
  -- with all bits of the exponent set it is an infinity or no number
  by_cases h : @UnpackedFloat.unpackExponent .binary64 word = -1#11
  · rw [if_pos h]
    refine iff_of_false ?_ fun hne => hne h
    split <;> exact Bool.false_ne_true
  · rw [if_neg h]
    refine iff_of_true ?_ h
    by_cases hzero : @UnpackedFloat.unpackExponent .binary64 word = 0#11
    · rw [if_pos hzero]
      by_cases hmantissa : @UnpackedFloat.unpackMantissa .binary64 word = 0#52
      · rw [dif_pos hmantissa]
        rfl
      · rw [dif_neg hmantissa]
        rfl
    · rw [if_neg hzero]
      rfl

theorem toNat_unpackExponent (word : BitVec 64) :
    (@UnpackedFloat.unpackExponent .binary64 word).toNat =
      word.toNat / Nat.pow 2 52 % Nat.pow 2 11 := by
  simp only [UnpackedFloat.unpackExponent, BitVec.toNat_cast, BitVec.extractLsb_toNat]
  rw [Nat.shiftRight_eq_div_pow]

/-- Finite are the floats whose magnitudes come before infinity. -/
theorem isFinite_iff (x : Float) : x.isFinite = true ↔ indexOf x < infinityIndex := by
  have hones : (-1#11).toNat = 2047 := rfl
  have hword : x.toBits.toNat < Nat.pow 2 64 := x.toBits.toBitVec.isLt
  show (UnpackedFloat.unpack .binary64 x.toBits.toBitVec).isFinite = true ↔
    x.toBits.toNat % Nat.pow 2 63 < 2047 * Nat.pow 2 52
  rw [isFinite_unpack_iff, Ne, ← BitVec.toNat_inj, toNat_unpackExponent, hones,
    UInt64.toNat_toBitVec]
  -- the powers as numbers, so that the bits can be divided out
  have h11 : Nat.pow 2 11 = 2048 := rfl
  have h52 : Nat.pow 2 52 = 4503599627370496 := rfl
  have h63 : Nat.pow 2 63 = 9223372036854775808 := rfl
  have h64 : Nat.pow 2 64 = 18446744073709551616 := rfl
  rw [h11, h52, h63]
  rw [h64] at hword
  omega

end Bits

theorem ofFloat_of_finite {x : Float} (h : x.isFinite = true) :
    Binary64.ofFloat x =
      .finite (isNegative x) (mantissa (indexOf x)) (exponent (indexOf x)) := by
  have hindex : indexOf x < infinityIndex := (isFinite_iff x).mp h
  simp only [Binary64.ofFloat, hindex, if_true]

theorem ofFloat_of_not_finite {x : Float} (h : x.isFinite = false) :
    Binary64.ofFloat x = .infinite (isNegative x) ∨ Binary64.ofFloat x = .notANumber := by
  have hindex : ¬ indexOf x < infinityIndex := by
    rw [← isFinite_iff, h]
    exact Bool.false_ne_true
  simp only [Binary64.ofFloat, hindex, if_false]
  split
  · exact .inl rfl
  · exact .inr rfl

theorem isPlainDecimal_fixed (places : Nat) {x : Float} (h : x.isFinite = true) :
    IsPlainDecimal (fixed places x) := by
  rw [fixed, ofFloat_of_finite h]
  exact isPlainDecimal_signed (isMagnitude_pointed places _) _

theorem fixed_mem_notFiniteTexts (places : Nat) {x : Float} (h : x.isFinite = false) :
    fixed places x ∈ notFiniteTexts := by
  rcases ofFloat_of_not_finite h with hinfinite | hnan
  · rw [fixed, hinfinite]
    exact signed_infinityText_mem _
  · rw [fixed, hnan]
    exact List.mem_cons_self

theorem isPlainDecimal_plain {x : Float} (h : x.isFinite = true) :
    IsPlainDecimal (Layout.plain.write x) := by
  rw [Layout.write, ofFloat_of_finite h]
  exact isPlainDecimal_signed (isMagnitude_plain_magnitude _) _

theorem plain_mem_notFiniteTexts {x : Float} (h : x.isFinite = false) :
    Layout.plain.write x ∈ notFiniteTexts := by
  rcases ofFloat_of_not_finite h with hinfinite | hnan
  · rw [Layout.write, hinfinite]
    exact signed_infinityText_mem _
  · rw [Layout.write, hnan]
    exact List.mem_cons_self

/-! ## Reading -/

/-- A magnitude is a decimal without an exponent. -/
theorem isSome_readDecimal? {text : List Char} (h : IsMagnitude text) :
    (readDecimal? text).isSome = true := by
  -- digits up to the end of the text
  have hend : ∀ {digits : List Char}, IsDigits digits →
      digits.takeWhile Char.isDigit = digits ∧ digits.dropWhile Char.isDigit = [] :=
    fun h => ⟨List.takeWhile_eq_self_iff.mpr h.2, List.dropWhile_eq_nil_iff.mpr h.2⟩
  cases h with
  | whole h =>
    obtain ⟨htake, hdrop⟩ := hend h
    simp [readDecimal?, htake, hdrop, takeFraction, readExponent?, h.1]
  | @pointed digits fraction h hfraction =>
    have hpoint : ∀ c ∈ ('.' :: fraction).head?, c.isDigit = false := by
      rintro c ⟨⟩
      rfl
    have htake := Text.takeWhile_run_append h.2 hpoint
    have hdrop := Text.dropWhile_run_append h.2 hpoint
    obtain ⟨hfractionTake, hfractionDrop⟩ := hend hfraction
    simp [readDecimal?, htake, hdrop, takeFraction, hfractionTake, hfractionDrop,
      readExponent?, h.1]

/-- What does not start like a word is read as a decimal behind its sign. -/
theorem Numeral.read?_of_head {text unsigned : List Char} {negative : Bool}
    (hsign : takeSign text = (negative, unsigned))
    (hhead : ∀ c ∈ unsigned.head?, c.toLower ≠ 'i' ∧ c.toLower ≠ 'n') :
    Numeral.read? text =
      (readDecimal? unsigned).map fun decimal => .decimal negative decimal.1 decimal.2 := by
  have hword : ∀ letter word, letter = 'i' ∨ letter = 'n' →
      unsigned.map Char.toLower ≠ letter :: word := by
    intro letter word hletter heq
    obtain ⟨c, rest, rfl, hc, -⟩ := List.map_eq_cons_iff.mp heq
    obtain ⟨hi, hn⟩ := hhead c rfl
    rcases hletter with rfl | rfl
    · exact hi hc
    · exact hn hc
  have hinf : unsigned.map Char.toLower ≠ "inf".toList := hword 'i' _ (.inl rfl)
  have hinfinity : unsigned.map Char.toLower ≠ "infinity".toList := hword 'i' _ (.inl rfl)
  have hnan : unsigned.map Char.toLower ≠ "nan".toList := hword 'n' _ (.inr rfl)
  simp only [Numeral.read?, hsign, hinf, hinfinity, hnan, or_false, if_false]

/-- A magnitude starts with a digit, so it has no sign and is no word. -/
theorem isSome_read?_of_isMagnitude {text : List Char} (h : IsMagnitude text)
    (negative : Bool) :
    (Numeral.read? (signed negative text)).isSome = true := by
  obtain ⟨c, rest, rfl, hc⟩ := h.exists_cons
  have hsign : takeSign (signed negative (c :: rest)) = (negative, c :: rest) := by
    cases negative with
    | true => rfl
    | false =>
      have hminus : c ≠ '-' := by rintro rfl; exact absurd hc (by decide)
      have hplus : c ≠ '+' := by rintro rfl; exact absurd hc (by decide)
      simp [takeSign, signed, hminus, hplus]
  have hhead : ∀ d ∈ (c :: rest).head?, d.toLower ≠ 'i' ∧ d.toLower ≠ 'n' := by
    rintro d ⟨⟩
    exact ⟨Text.toLower_ne_of_isDigit hc rfl, Text.toLower_ne_of_isDigit hc rfl⟩
  rw [Numeral.read?_of_head hsign hhead, Option.isSome_map]
  exact isSome_readDecimal? h

theorem isSome_readFloat? {text : List Char} (h : IsPlainDecimal text) :
    (readFloat? text).isSome = true := by
  rw [readFloat?, Option.isSome_map]
  cases h with
  | unsigned h => exact isSome_read?_of_isMagnitude h false
  | minus h => exact isSome_read?_of_isMagnitude h true

end Decimal

/-- Scalars that are written as plain decimals exactly if they are finite, and that plain
decimals are read as. -/
class Written.Legible (α : Type) [Written α] : Prop extends Written.Compact α where
  isPlainDecimal_fixed : ∀ (places : Nat) {a : α}, Scalar.isFinite a = true →
    Decimal.IsPlainDecimal (Written.fixed places a)
  fixed_mem_notFiniteTexts : ∀ (places : Nat) {a : α}, Scalar.isFinite a = false →
    Written.fixed places a ∈ Decimal.notFiniteTexts
  isPlainDecimal_plain : ∀ {a : α}, Scalar.isFinite a = true →
    Decimal.IsPlainDecimal (Written.plain a)
  plain_mem_notFiniteTexts : ∀ {a : α}, Scalar.isFinite a = false →
    Written.plain a ∈ Decimal.notFiniteTexts
  isSome_read? : ∀ {text : List Char}, Decimal.IsPlainDecimal text →
    (Written.read? text : Option α).isSome = true
  read?_zero : Written.read? ['0'] = some (0.0 : α)

instance : Written.Legible Float where
  isPlainDecimal_fixed := Decimal.isPlainDecimal_fixed
  fixed_mem_notFiniteTexts := Decimal.fixed_mem_notFiniteTexts
  isPlainDecimal_plain := Decimal.isPlainDecimal_plain
  plain_mem_notFiniteTexts := Decimal.plain_mem_notFiniteTexts
  isSome_read? := Decimal.isSome_readFloat?
  read?_zero := by decide +kernel

end Kerf
