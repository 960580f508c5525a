import Mathlib.Data.List.Basic
import Kerf.Color.Reading
import Kerf.Proofs.Text.Case
import Kerf.Proofs.Text.Classes
import Kerf.Proofs.Text.Spacing

/-!
# The hexadecimal notation of colors

Behind a hash, a color is three hexadecimal digits, one for each channel, or six, two for
each channel, or eight, with the opacity first.

- `IsHex`: the digits of a color.
- `toOption_readHex_eq_some_iff`: they are what is read behind any number of hashes.
- `isHex_opacity`: the digits that a color is written with are its digits, in any letter
  case (`IsHex.of_sameIgnoringCase`).
-/

namespace Kerf.Color

/-! ## Digits and their values -/

/-- The byte that two hexadecimal digits are. -/
def byteOf (high low : Char) : UInt8 :=
  UInt8.ofNat (Text.valueIn 16 [high, low])

/-- The colors that hexadecimal digits are. -/
inductive IsHex : List Char → Color → Prop
  | single {r g b : Char} (h : ∀ c ∈ [r, g, b], Text.isDigitIn 16 c = true) :
    IsHex [r, g, b] (opaqueOf (byteOf r r) (byteOf g g) (byteOf b b))
  | pairs {r₁ r₀ g₁ g₀ b₁ b₀ : Char}
    (h : ∀ c ∈ [r₁, r₀, g₁, g₀, b₁, b₀], Text.isDigitIn 16 c = true) :
    IsHex [r₁, r₀, g₁, g₀, b₁, b₀] (opaqueOf (byteOf r₁ r₀) (byteOf g₁ g₀) (byteOf b₁ b₀))
  | opacity {a₁ a₀ r₁ r₀ g₁ g₀ b₁ b₀ : Char}
    (h : ∀ c ∈ [a₁, a₀, r₁, r₀, g₁, g₀, b₁, b₀], Text.isDigitIn 16 c = true) :
    IsHex [a₁, a₀, r₁, r₀, g₁, g₀, b₁, b₀]
      ⟨byteOf r₁ r₀, byteOf g₁ g₀, byteOf b₁ b₀, byteOf a₁ a₀⟩

theorem IsHex.isDigitIn {digits : List Char} {color : Color} (h : IsHex digits color) :
    ∀ c ∈ digits, Text.isDigitIn 16 c = true := by
  cases h with
  | single h | pairs h | opacity h => exact h

/-- The value of a digit, and zero for what is none. -/
def digitOf (c : Char) : Nat :=
  (Text.digitValue? c).getD 0

theorem byteOf_eq (high low : Char) :
    byteOf high low = channelOf (digitOf high) (digitOf low) := by
  simp [byteOf, Text.valueIn, channelOf, digitOf]

theorem isDigitIn_sixteen (c : Char) : Text.isDigitIn 16 c = (Text.digitValue? c).isSome := by
  have hvalue : ∀ value ∈ Text.digitValue? c, value < 16 := by
    rw [Text.digitValue?_eq]
    grind
  unfold Text.isDigitIn
  cases h : Text.digitValue? c with
  | none => rfl
  | some value => simpa using hvalue value h

theorem mapM_digitValue? (digits : List Char) :
    digits.mapM Text.digitValue? =
      if digits.all (Text.isDigitIn 16) then some (digits.map digitOf) else none := by
  induction digits with
  | nil => rfl
  | cons c digits ih =>
    rw [List.mapM_cons, ih, List.all_cons, isDigitIn_sixteen, List.map_cons, digitOf]
    cases hvalue : Text.digitValue? c with
    | none => rfl
    | some value =>
      cases digits.all (Text.isDigitIn 16) with
      | true => rfl
      | false => rfl

/-- The color of digits, if they are those of one. -/
def ofHex? (digits : List Char) : Option Color :=
  digits.mapM Text.digitValue? >>= ofHexValues?

theorem ofHex?_of_isDigitIn {digits : List Char}
    (h : ∀ c ∈ digits, Text.isDigitIn 16 c = true) :
    ofHex? digits = ofHexValues? (digits.map digitOf) := by
  rw [ofHex?, mapM_digitValue?, if_pos (List.all_eq_true.mpr h)]
  rfl

theorem IsHex.ofHex? {digits : List Char} {color : Color} (h : IsHex digits color) :
    ofHex? digits = some color := by
  rw [ofHex?_of_isDigitIn h.isDigitIn]
  cases h with
  | single | pairs | opacity => simp only [byteOf_eq, List.map_cons, List.map_nil, ofHexValues?]

theorem isHex_of_ofHex? {digits : List Char} {color : Color}
    (h : Color.ofHex? digits = some color) :
    IsHex digits color := by
  -- no color is read unless all are digits
  have hall : digits.all (Text.isDigitIn 16) = true := by
    rw [Color.ofHex?, mapM_digitValue?] at h
    split at h
    · assumption
    · cases h
  have hdigits : ∀ c ∈ digits, Text.isDigitIn 16 c = true := List.all_eq_true.mp hall
  rw [ofHex?_of_isDigitIn hdigits] at h
  -- the lengths that a color has
  unfold ofHexValues? at h
  split at h
  · next heq =>
    simp only [List.map_eq_cons_iff, List.map_eq_nil_iff] at heq
    obtain ⟨r, _, rfl, rfl, g, _, rfl, rfl, b, _, rfl, rfl, rfl⟩ := heq
    cases h
    simp only [← byteOf_eq]
    exact .single hdigits
  · next heq =>
    simp only [List.map_eq_cons_iff, List.map_eq_nil_iff] at heq
    obtain ⟨r₁, _, rfl, rfl, r₀, _, rfl, rfl, g₁, _, rfl, rfl, g₀, _, rfl, rfl, b₁, _, rfl, rfl,
      b₀, _, rfl, rfl, rfl⟩ := heq
    cases h
    simp only [← byteOf_eq]
    exact .pairs hdigits
  · next heq =>
    simp only [List.map_eq_cons_iff, List.map_eq_nil_iff] at heq
    obtain ⟨a₁, _, rfl, rfl, a₀, _, rfl, rfl, r₁, _, rfl, rfl, r₀, _, rfl, rfl, g₁, _, rfl, rfl,
      g₀, _, rfl, rfl, b₁, _, rfl, rfl, b₀, _, rfl, rfl, rfl⟩ := heq
    cases h
    simp only [← byteOf_eq]
    exact .opacity hdigits
  · cases h

theorem ofHex?_eq_some_iff {digits : List Char} {color : Color} :
    ofHex? digits = some color ↔ IsHex digits color :=
  ⟨isHex_of_ofHex?, IsHex.ofHex?⟩

/-! ## Behind hashes -/

theorem ne_hash_of_isDigitIn {c : Char} (h : Text.isDigitIn 16 c = true) : c ≠ '#' := by
  rintro rfl
  cases h

theorem isBlank_of_isDigitIn {c : Char} (h : Text.isDigitIn 16 c = true) :
    Text.isBlank c = false := by
  rw [Bool.eq_false_iff]
  intro hblank
  have hcode := Text.toNat_of_isBlank hblank
  rw [isDigitIn_sixteen, Text.digitValue?_eq] at h
  grind

theorem toOption_readHex (text : List Char) :
    (readHex text).toOption = ofHex? ((Text.trim text).dropWhile (· == '#')) := by
  unfold readHex
  rw [← ofHex?]
  cases ofHex? ((Text.trim text).dropWhile (· == '#')) with
  | none => rfl
  | some color => rfl

/-- Any number of hashes may stand in front of the digits. -/
theorem toOption_readHex_eq_some_iff {text : List Char} {color : Color} :
    (readHex text).toOption = some color ↔
      ∃ hashes digits, Text.trim text = hashes ++ digits ∧ (∀ c ∈ hashes, c = '#') ∧
        IsHex digits color := by
  rw [toOption_readHex, ofHex?_eq_some_iff]
  constructor
  · intro h
    refine ⟨_, _, (List.takeWhile_append_dropWhile (p := (· == '#'))).symm, ?_, h⟩
    intro c hc
    have hhash : (c == '#') = true := List.mem_takeWhile_imp (p := (· == '#')) hc
    exact beq_iff_eq.mp hhash
  · rintro ⟨hashes, digits, htext, hhashes, h⟩
    have hdrop : (hashes ++ digits).dropWhile (· == '#') = digits := by
      refine Text.dropWhile_run_append (fun c hc => beq_iff_eq.mpr (hhashes c hc)) ?_
      intro c hc
      have hdigit := h.isDigitIn c (List.mem_of_mem_head? hc)
      exact beq_eq_false_iff_ne.mpr (ne_hash_of_isDigitIn hdigit)
    rw [htext, hdrop]
    exact h

/-! ## The digits of a color -/

theorem digitValue?_hexDigit {n : Nat} (h : n < 16) :
    Text.digitValue? (hexDigit n) = some n := by
  have hall : ∀ n < 16, Text.digitValue? (hexDigit n) = some n := by decide
  exact hall n h

theorem channelOf_halves (channel : UInt8) :
    channelOf (channel.toNat / 16) (channel.toNat % 16) = channel := by
  rw [channelOf, Nat.div_add_mod, UInt8.ofNat_toNat]

theorem byteOf_hexByte (channel : UInt8) :
    byteOf (hexDigit (channel.toNat / 16)) (hexDigit (channel.toNat % 16)) = channel := by
  have hchannel : channel.toNat < 256 := channel.toNat_lt
  have hhigh : digitOf (hexDigit (channel.toNat / 16)) = channel.toNat / 16 := by
    rw [digitOf, digitValue?_hexDigit (by omega), Option.getD_some]
  have hlow : digitOf (hexDigit (channel.toNat % 16)) = channel.toNat % 16 := by
    rw [digitOf, digitValue?_hexDigit (by omega), Option.getD_some]
  rw [byteOf_eq, hhigh, hlow, channelOf_halves]

theorem isDigitIn_of_mem_hexByte {channel : UInt8} {c : Char} (hc : c ∈ hexByte channel) :
    Text.isDigitIn 16 c = true := by
  have hchannel : channel.toNat < 256 := channel.toNat_lt
  simp only [hexByte, List.mem_cons, List.not_mem_nil, or_false] at hc
  rcases hc with rfl | rfl
  · rw [isDigitIn_sixteen, digitValue?_hexDigit (by omega), Option.isSome_some]
  · rw [isDigitIn_sixteen, digitValue?_hexDigit (by omega), Option.isSome_some]

/-- Three bytes are an opaque color. -/
theorem isHex_pairs (r g b : UInt8) :
    IsHex (hexByte r ++ hexByte g ++ hexByte b) (opaqueOf r g b) := by
  have hdigits : ∀ c ∈ hexByte r ++ hexByte g ++ hexByte b, Text.isDigitIn 16 c = true := by
    simp only [List.forall_mem_append]
    exact ⟨⟨fun _ => isDigitIn_of_mem_hexByte, fun _ => isDigitIn_of_mem_hexByte⟩,
      fun _ => isDigitIn_of_mem_hexByte⟩
  have h := IsHex.pairs hdigits
  simp only [byteOf_hexByte] at h
  exact h

theorem isHex_opacity (color : Color) :
    IsHex (hexByte color.alpha ++ hexByte color.red ++ hexByte color.green ++
      hexByte color.blue)
      color := by
  have hdigits : ∀ c ∈ hexByte color.alpha ++ hexByte color.red ++ hexByte color.green ++
    hexByte color.blue,
      Text.isDigitIn 16 c = true := by
    simp only [List.forall_mem_append]
    exact ⟨⟨⟨fun _ => isDigitIn_of_mem_hexByte, fun _ => isDigitIn_of_mem_hexByte⟩,
      fun _ => isDigitIn_of_mem_hexByte⟩, fun _ => isDigitIn_of_mem_hexByte⟩
  have h := IsHex.opacity hdigits
  simp only [byteOf_hexByte] at h
  exact h

/-- Digits are read alike in either case. -/
theorem IsHex.of_sameIgnoringCase {a b : List Char} {color : Color} (h : IsHex b color)
    (hsame : Text.sameIgnoringCase a b = true) : IsHex a color := by
  have hlower : ∀ digits : List Char, digits.mapM Text.digitValue? =
      (digits.map Char.toLower).mapM Text.digitValue? := by
    intro digits
    rw [List.mapM_map]
    exact congrArg (fun read => digits.mapM read)
      (funext fun c => (Text.digitValue?_toLower c).symm)
  rw [← ofHex?_eq_some_iff, Color.ofHex?, hlower a,
    Text.sameIgnoringCase_iff.mp hsame, ← hlower b]
  exact h.ofHex?

end Kerf.Color
