import Kerf.Proofs.Color.Functional
import Kerf.Proofs.Color.Hexadecimal
import Kerf.Proofs.Decimal.Literal

/-!
# What texts denote colors

A text is transparent if there is nothing in it, or `none`. Any other text is read in the
notation that it announces, and a given color is what it is where that fails.

- `IsDocumented`: the texts of the three notations.
- `Denotes`: the texts that are colors beyond these, since any number of hashes may stand
  in front of hexadecimal digits, and the functional notation is looked for anywhere in a
  text that starts with a keyword.
- `read?_eq_some_iff`: these texts are read, and no others (`readOr_notations`).
- `readOr_every_notation`: the three notations of a color agree.
-/

namespace Kerf.Color

/-! ## Functional arguments -/

/-- The channel that ASCII digits are. -/
def IsChannel (digits : List Char) (channel : UInt8) : Prop :=
  (∀ c ∈ digits, c.isDigit = true) ∧ Decimal.digitsValue digits = channel.toNat

instance (digits : List Char) (channel : UInt8) : Decidable (IsChannel digits channel) :=
  decidable_of_iff (digits.all Char.isDigit && Decimal.digitsValue digits == channel.toNat)
    (by simp only [IsChannel, Bool.and_eq_true, List.all_eq_true, beq_iff_eq])

/-- The channel that an opacity is: all of it if there is none. -/
inductive IsOpacity : Option (List Char) → UInt8 → Prop
  | absent : IsOpacity none 255
  | literal (literal : Decimal.Literal) (hsign : literal.sign = .unsigned)
    (hexponent : literal.exponent = none) :
    IsOpacity (some literal.text) (opacityChannel literal.value)

/-- The color that arguments are. -/
structure Arguments.Says (arguments : Arguments) (color : Color) : Prop where
  red : IsChannel arguments.red color.red
  green : IsChannel arguments.green color.green
  blue : IsChannel arguments.blue color.blue
  opacity : IsOpacity arguments.opacity color.alpha

theorem readChannel?_eq_some_iff {digits : List Char} {channel : UInt8} :
    readChannel? digits = some channel ↔ IsChannel digits channel := by
  have hchannel : channel.toNat < 256 := channel.toNat_lt
  unfold readChannel? IsChannel
  rw [Option.ite_none_right_eq_some, Bool.and_eq_true, List.all_eq_true, decide_eq_true_eq,
    Option.some_inj]
  constructor
  · rintro ⟨⟨hdigits, hvalue⟩, rfl⟩
    refine ⟨hdigits, ?_⟩
    rw [UInt8.toNat_ofNat', Nat.mod_eq_of_lt (by omega)]
  · rintro ⟨hdigits, hvalue⟩
    refine ⟨⟨hdigits, by omega⟩, ?_⟩
    rw [hvalue, UInt8.ofNat_toNat]

/-- An opacity has no sign and no letters. -/
theorem toLower_not_mem_of_isOpacityChar {c : Char} (h : isOpacityChar c = true) :
    c.toLower ∉ ['-', '+', 'i', 'n', 'e'] := by
  have hlower : c.toLower = c := by
    rcases Bool.or_eq_true_iff.mp h with hdigit | hpoint
    · exact Text.toLower_of_isAnyDigit hdigit
    · rw [beq_iff_eq.mp hpoint]
      rfl
  have hall : ['-', '+', 'i', 'n', 'e'].all (fun c => !isOpacityChar c) = true := rfl
  intro hmem
  have hc := List.all_eq_true.mp hall c (hlower ▸ hmem)
  rw [h] at hc
  cases hc

theorem readOpacity_iff {run : List Char} (hrun : ∀ c ∈ run, isOpacityChar c = true)
    {channel : UInt8} :
    (Decimal.readFloat? run).map opacityChannel = some channel ↔
      IsOpacity (some run) channel := by
  rw [Option.map_eq_some_iff]
  constructor
  · rintro ⟨opacity, hread, rfl⟩
    have hchars : ∀ c ∈ run, c.toLower ∉ ['-', '+', 'i', 'n', 'e'] :=
      fun c hc => toLower_not_mem_of_isOpacityChar (hrun c hc)
    obtain ⟨literal, hsign, hexponent, rfl, rfl⟩ :=
      Decimal.exists_literal_of_readFloat? hchars hread
    exact .literal literal hsign hexponent
  · intro h
    cases h with
    | literal literal => exact ⟨literal.value, literal.readFloat?_text, rfl⟩

/-- Arguments are read as the color that they are. -/
theorem ofArguments?_eq_some_iff {arguments : Arguments} (hplain : arguments.IsPlain)
    {color : Color} :
    ofArguments? arguments = some color ↔ arguments.Says color := by
  obtain ⟨red, green, blue, opacity⟩ := arguments
  simp only [ofArguments?, Option.bind_eq_bind, Option.bind_eq_some_iff,
    readChannel?_eq_some_iff]
  cases opacity with
  | none =>
    constructor
    · rintro ⟨r, hr, g, hg, b, hb, heq⟩
      cases heq
      exact ⟨hr, hg, hb, .absent⟩
    · rintro ⟨hr, hg, hb, habsent⟩
      obtain ⟨r, g, b, a⟩ := color
      cases habsent
      exact ⟨r, hr, g, hg, b, hb, rfl⟩
  | some run =>
    have hopacity : ∀ channel, (Decimal.readFloat? run).map opacityChannel = some channel ↔
        IsOpacity (some run) channel := fun _ => readOpacity_iff (hplain.opacity run rfl).2
    constructor
    · rintro ⟨r, hr, g, hg, b, hb, hread⟩
      obtain ⟨opacity, hrun, heq⟩ := Option.bind_eq_some_iff.mp hread
      cases heq
      exact ⟨hr, hg, hb, (hopacity _).mp (by rw [hrun, Option.map_some])⟩
    · rintro ⟨hr, hg, hb, hsays⟩
      obtain ⟨r, g, b, a⟩ := color
      obtain ⟨opacity, hrun, heq⟩ := Option.map_eq_some_iff.mp ((hopacity a).mpr hsays)
      exact ⟨r, hr, g, hg, b, hb, Option.bind_eq_some_iff.mpr ⟨opacity, hrun, by rw [heq]; rfl⟩⟩

/-! ## Keywords announce the functional notation -/

/-- Whether a text starts with the shorter keyword. -/
def StartsFunctional (text : List Char) : Prop :=
  (Text.afterIgnoringCase? ['r', 'g', 'b'] text).isSome = true

theorem IsFunctional.startsFunctional {arguments : Arguments} {form : List Char}
    (h : IsFunctional arguments form) : StartsFunctional form := by
  obtain ⟨hword, -, -⟩ := h
  next keyword text =>
  have hrest : ∃ letters rest, keyword ++ text = letters ++ rest ∧
      Text.sameIgnoringCase letters ['r', 'g', 'b'] = true := by
    rcases hword with hletters | hletters
    · exact ⟨keyword, text, rfl, hletters⟩
    · obtain ⟨letters, last, rfl, hletters, -⟩ := Text.sameIgnoringCase_append_iff.mp hletters
      exact ⟨letters, last ++ text, List.append_assoc .., hletters⟩
  obtain ⟨letters, rest, htext, hletters⟩ := hrest
  have hafter := Text.afterIgnoringCase?_eq_some_iff.mpr ⟨letters, hletters, htext⟩
  rw [StartsFunctional, hafter, Option.isSome_some]

theorem StartsFunctional.head?_ne {text : List Char} (h : StartsFunctional text) :
    text.head? ≠ some '#' := by
  obtain ⟨rest, hrest⟩ := Option.isSome_iff_exists.mp h
  obtain ⟨front, hfront, rfl⟩ := Text.afterIgnoringCase?_eq_some_iff.mp hrest
  obtain ⟨c, others, rfl, hc, -⟩ := Text.sameIgnoringCase_cons_iff.mp hfront
  intro hhead
  obtain rfl := Option.some.inj hhead
  exact absurd hc (by decide)

theorem toOption_readFunctional (text : List Char) :
    (readFunctional text).toOption = findFunctional? text >>= ofArguments? := by
  unfold readFunctional
  cases findFunctional? text >>= ofArguments? with
  | none => rfl
  | some color => rfl

theorem IsFirst.isPlain {arguments : Arguments} {text : List Char}
    (h : IsFirst arguments text) :
    arguments.IsPlain := by
  obtain ⟨_, _, _, -, ⟨-, hplain, -⟩, -⟩ := h
  exact hplain

theorem toOption_readFunctional_eq_some_iff {text : List Char} {color : Color} :
    (readFunctional text).toOption = some color ↔
      ∃ arguments, IsFirst arguments text ∧ arguments.Says color := by
  rw [toOption_readFunctional, Option.bind_eq_bind, Option.bind_eq_some_iff]
  constructor
  · rintro ⟨arguments, hfind, hcolor⟩
    have hfirst := findFunctional?_eq_some_iff.mp hfind
    exact ⟨arguments, hfirst, (ofArguments?_eq_some_iff hfirst.isPlain).mp hcolor⟩
  · rintro ⟨arguments, hfirst, hsays⟩
    exact ⟨arguments, findFunctional?_eq_some_iff.mpr hfirst,
      (ofArguments?_eq_some_iff hfirst.isPlain).mpr hsays⟩

/-! ## Names -/

/-- A text is a name of a color, in any letter case. -/
def IsNamed (text : List Char) (color : Color) : Prop :=
  ∃ name, (name, color) ∈ names ∧ Text.sameIgnoringCase text name.toList = true

/-- Names announce no other notation, and none of them is `none`. -/
theorem names_announce_nothing :
    names.all (fun named => (named.1.toList.map Char.toLower).head?.any (· != '#') &&
      !(Text.afterIgnoringCase? ['r', 'g', 'b'] named.1.toList).isSome &&
        !isNone named.1.toList) = true := by
  decide +kernel

/-- No two colors have the same name. -/
theorem names_unique :
    names.all (fun named => names.all fun other =>
      !Text.sameIgnoringCase named.1.toList other.1.toList || named.2 == other.2) = true := by
  decide +kernel

theorem named?_eq_some_iff {text : List Char} (htrim : Text.trim text = text) {color : Color} :
    named? text = some color ↔ IsNamed text color := by
  unfold named?
  rw [htrim, Option.map_eq_some_iff]
  constructor
  · rintro ⟨⟨name, found⟩, hfind, rfl⟩
    have hsame := List.find?_some hfind
    exact ⟨name, List.mem_of_find?_eq_some hfind, hsame⟩
  · rintro ⟨name, hmem, hsame⟩
    -- some name is found, as there is one that is the text
    have hfound : (names.find? fun named => Text.sameIgnoringCase text named.1.toList).isSome =
        true := by
      rw [List.find?_isSome]
      exact ⟨_, hmem, hsame⟩
    obtain ⟨⟨other, found⟩, hfind⟩ := Option.isSome_iff_exists.mp hfound
    refine ⟨_, hfind, ?_⟩
    -- the one that is found has the same name
    have hother := List.find?_some hfind
    have hnames := List.all_eq_true.mp names_unique _ (List.mem_of_find?_eq_some hfind)
    have hunique := List.all_eq_true.mp hnames _ hmem
    have heq : Text.sameIgnoringCase other.toList name.toList = true := by
      rw [Text.sameIgnoringCase_iff] at hother hsame ⊢
      exact hother.symm.trans hsame
    simpa [heq] using hunique

theorem isNone_congr {a b : List Char} (h : Text.sameIgnoringCase a b = true) :
    isNone a = isNone b := by
  rw [isNone, isNone, Text.sameIgnoringCase, Text.sameIgnoringCase,
    Text.sameIgnoringCase_iff.mp h]

/-- No name announces another notation or is `none`. -/
theorem IsNamed.announces_nothing {text : List Char} {color : Color} (h : IsNamed text color) :
    text ≠ [] ∧ text.head? ≠ some '#' ∧ ¬ StartsFunctional text ∧ isNone text = false := by
  obtain ⟨name, hmem, hsame⟩ := h
  -- every name of the table has been looked through
  have hname := List.all_eq_true.mp names_announce_nothing _ hmem
  simp only [Bool.and_eq_true, Bool.not_eq_true', Option.any_eq_true] at hname
  obtain ⟨⟨⟨c, hc, hne⟩, hfunctional⟩, hnone⟩ := hname
  rw [← Text.sameIgnoringCase_iff.mp hsame] at hc
  refine ⟨?_, ?_, ?_, ?_⟩
  · rintro rfl
    cases hc
  · intro hhead
    rw [List.head?_map, hhead] at hc
    obtain rfl := Option.some.inj hc
    exact absurd hne (by decide)
  · rw [StartsFunctional, Text.isSome_afterIgnoringCase? hsame, hfunctional]
    exact Bool.false_ne_true
  · rw [isNone_congr hsame, hnone]

/-! ## Any notation -/

/-- The texts of the three notations. -/
inductive IsDocumented : List Char → Color → Prop
  | hexadecimal {digits : List Char} {color : Color} (h : IsHex digits color) :
    IsDocumented ('#' :: digits) color
  | functional {text : List Char} {arguments : Arguments} {color : Color}
    (htext : IsFunctional arguments text) (h : arguments.Says color) : IsDocumented text color
  | named {text : List Char} {color : Color} (h : IsNamed text color) : IsDocumented text color

/-- The texts that are colors. -/
inductive Denotes : List Char → Color → Prop
  | hexadecimal {hashes digits : List Char} {color : Color} (hne : hashes ≠ [])
    (hhashes : ∀ c ∈ hashes, c = '#') (h : IsHex digits color) :
    Denotes (hashes ++ digits) color
  | functional {text : List Char} {arguments : Arguments} {color : Color}
    (hstart : StartsFunctional text) (hfirst : IsFirst arguments text)
    (h : arguments.Says color) :
    Denotes text color
  | named {text : List Char} {color : Color} (h : IsNamed text color) : Denotes text color

theorem IsDocumented.denotes {text : List Char} {color : Color} (h : IsDocumented text color) :
    Denotes text color := by
  cases h with
  | hexadecimal h => exact .hexadecimal (List.cons_ne_nil '#' []) (by simp) h
  | functional htext h => exact .functional htext.startsFunctional htext.isFirst h
  | named h => exact .named h

theorem read?_of_startsFunctional {text : List Char} (h : StartsFunctional text) :
    read? text = (readFunctional text).toOption := by
  rw [read?, if_neg h.head?_ne]
  exact if_pos h

/-- What is left of a text without the blanks around it is read if it denotes a color, and
only then. -/
theorem read?_eq_some_iff {text : List Char} (htrim : Text.trim text = text) {color : Color} :
    read? text = some color ↔ Denotes text color := by
  constructor
  · intro h
    unfold read? at h
    split at h
    · next hhash =>
      -- the text starts with a hash, and hexadecimal digits have none, so it is among the
      -- hashes
      obtain ⟨hashes, digits, htext, hhashes, hhex⟩ := toOption_readHex_eq_some_iff.mp h
      rw [htrim] at htext
      subst htext
      refine .hexadecimal ?_ hhashes hhex
      rintro rfl
      exact ne_hash_of_isDigitIn (hhex.isDigitIn '#' (List.mem_of_mem_head? hhash)) rfl
    · split at h
      · next hstart =>
        obtain ⟨arguments, hfirst, hsays⟩ := toOption_readFunctional_eq_some_iff.mp h
        exact .functional hstart hfirst hsays
      · exact .named ((named?_eq_some_iff htrim).mp h)
  · intro h
    cases h with
    | @hexadecimal hashes digits _ hne hhashes hhex =>
      have hhead : (hashes ++ digits).head? = some '#' := by
        obtain ⟨c, rest, rfl⟩ := List.exists_cons_of_ne_nil hne
        rw [hhashes c List.mem_cons_self]
        rfl
      rw [read?, if_pos hhead]
      exact toOption_readHex_eq_some_iff.mpr ⟨hashes, digits, htrim, hhashes, hhex⟩
    | functional hstart hfirst hsays =>
      rw [read?_of_startsFunctional hstart]
      exact toOption_readFunctional_eq_some_iff.mpr ⟨_, hfirst, hsays⟩
    | named h =>
      obtain ⟨-, hhead, hstart, -⟩ := h.announces_nothing
      rw [read?, if_neg hhead]
      exact (if_neg hstart).trans ((named?_eq_some_iff htrim).mpr h)

/-- What is not painted: nothing, or `none` in any letter case. -/
def IsUnpainted (text : List Char) : Prop :=
  text = [] ∨ Text.sameIgnoringCase text "none".toList = true

theorem StartsFunctional.not_isUnpainted {text : List Char} (h : StartsFunctional text) :
    ¬ IsUnpainted text := by
  rintro (rfl | hnone)
  · cases h
  · rw [StartsFunctional, Text.isSome_afterIgnoringCase? hnone] at h
    exact absurd h (by decide)

/-- Colors are neither nothing nor `none`. -/
theorem Denotes.not_isUnpainted {text : List Char} {color : Color} (h : Denotes text color) :
    ¬ IsUnpainted text := by
  cases h with
  | @hexadecimal hashes digits _ hne hhashes hhex =>
    -- the text starts with a hash, which `none` does not
    obtain ⟨c, rest, rfl⟩ := List.exists_cons_of_ne_nil hne
    obtain rfl : c = '#' := hhashes c List.mem_cons_self
    rintro (hnil | hnone)
    · cases hnil
    · rw [List.cons_append, Text.sameIgnoringCase_iff] at hnone
      exact absurd (List.cons.inj hnone).1 (by decide)
  | functional hstart _ _ => exact hstart.not_isUnpainted
  | named h =>
    obtain ⟨hne, -, -, hnone⟩ := h.announces_nothing
    rintro (hnil | hsame)
    · exact hne hnil
    · rw [isNone, hsame] at hnone
      cases hnone

section Settling

variable {text : List Char} (default : Color)

theorem readOr_of_isUnpainted (h : IsUnpainted (Text.trim text)) :
    readOr default text = transparent := by
  have hunpainted : ((Text.trim text).isEmpty || isNone (Text.trim text)) = true := by
    rw [Bool.or_eq_true, List.isEmpty_iff]
    exact h
  rw [readOr]
  exact if_pos hunpainted

theorem readOr_of_not_isUnpainted (h : ¬ IsUnpainted (Text.trim text)) :
    readOr default text = (read? (Text.trim text)).getD default := by
  have hpainted : ¬ ((Text.trim text).isEmpty || isNone (Text.trim text)) = true := by
    rw [Bool.or_eq_true, List.isEmpty_iff]
    exact h
  rw [readOr]
  exact if_neg hpainted

theorem readOr_of_denotes {color : Color} (h : Denotes (Text.trim text) color) :
    readOr default text = color := by
  rw [readOr_of_not_isUnpainted default h.not_isUnpainted,
    (read?_eq_some_iff (Text.trim_trim text)).mpr h, Option.getD_some]

theorem readOr_of_forall_not_denotes (hpainted : ¬ IsUnpainted (Text.trim text))
    (h : ∀ color, ¬ Denotes (Text.trim text) color) : readOr default text = default := by
  have hnone : read? (Text.trim text) = none := by
    rw [Option.eq_none_iff_forall_ne_some]
    intro color hsome
    exact h color ((read?_eq_some_iff (Text.trim_trim text)).mp hsome)
  rw [readOr_of_not_isUnpainted default hpainted, hnone, Option.getD_none]

end Settling

/-- **What texts are read as**: apart from the blanks around it, nothing and `none` are
transparent, a color in one of the three notations is that color, and so is one with more
hashes in front of hexadecimal digits, or the first color in functional notation in a text
that starts with its keyword. All else is the given color. -/
theorem readOr_notations (default : Color) (text : List Char) :
    (IsUnpainted (Text.trim text) → readOr default text = transparent) ∧
      (∀ color, IsDocumented (Text.trim text) color → readOr default text = color) ∧
      (∀ color, Denotes (Text.trim text) color → readOr default text = color) ∧
      (¬ IsUnpainted (Text.trim text) → (∀ color, ¬ Denotes (Text.trim text) color) →
        readOr default text = default) := by
  refine ⟨?_, ?_, ?_, ?_⟩
  · exact readOr_of_isUnpainted default
  · intro color h
    exact readOr_of_denotes default h.denotes
  · intro color h
    exact readOr_of_denotes default h
  · exact readOr_of_forall_not_denotes default

/-- Blanks are skipped, and half of the opacity is rounded down. -/
theorem readOr_notations_half_opaque :
    IsDocumented (Text.trim "\tRGBA (1, 2 ,3,.5 ) ".toList) ⟨1, 2, 3, 127⟩ ∧
      readOr black "\tRGBA (1, 2 ,3,.5 ) ".toList = ⟨1, 2, 3, 127⟩ := by
  let half : Decimal.Literal := ⟨⟨.unsigned, [], some ['5'], none, by simp, by simp⟩, by simp⟩
  let arguments : Arguments := ⟨['1'], ['2'], ['3'], some ['.', '5']⟩
  have hnone : ∀ c ∈ ([] : List Char), Text.isBlank c = true := List.forall_mem_nil _
  have hblank : ∀ c ∈ [' '], Text.isBlank c = true := List.all_eq_true.mp rfl
  have hplain : arguments.IsPlain := by decide
  have hloose : IsLoose arguments.parts " (1, 2 ,3,.5 )".toList := by
    refine .cons hblank (.cons hnone (.cons hnone (.cons hblank (.cons hblank ?_))))
    exact .cons hnone (.cons hnone (.cons hnone (.cons hblank .nil)))
  have hkeyword : IsKeyword ['R', 'G', 'B', 'A'] := .inr rfl
  -- half of 255 is 127.5
  have hsays : arguments.Says ⟨1, 2, 3, 127⟩ := by
    have hopacity : opacityChannel half.value = 127 := by decide +kernel
    refine ⟨by decide, by decide, by decide, ?_⟩
    rw [← hopacity]
    exact .literal half rfl rfl
  have h : IsDocumented (Text.trim "\tRGBA (1, 2 ,3,.5 ) ".toList) ⟨1, 2, 3, 127⟩ :=
    .functional (.intro hkeyword hplain hloose) hsays
  obtain ⟨-, hdocumented, -, -⟩ := readOr_notations black "\tRGBA (1, 2 ,3,.5 ) ".toList
  exact ⟨h, hdocumented _ h⟩

theorem IsLoose.getLast? {parts : List (List Char)} {text : List Char} (h : IsLoose parts text)
    {c : Char} (hlast : parts.getLast? = some [c]) : text.getLast? = some c := by
  induction h with
  | nil => cases hlast
  | @cons run part parts text _ h ih =>
    cases parts with
    | nil =>
      cases h
      obtain rfl := Option.some.inj hlast
      simp
    | cons next parts =>
      rw [List.getLast?_cons_cons] at hlast
      rw [List.getLast?_append, List.getLast?_append, ih hlast]
      rfl

/-- The functional notation ends with its closing parenthesis. -/
theorem IsFunctional.getLast? {arguments : Arguments} {form : List Char}
    (h : IsFunctional arguments form) : form.getLast? = some ')' := by
  obtain ⟨-, -, hloose⟩ := h
  have hclose : arguments.parts.getLast? = some [')'] := by
    obtain ⟨red, green, blue, _ | opacity⟩ := arguments
    · rfl
    · rfl
  rw [List.getLast?_append, hloose.getLast? hclose]
  rfl

/-- Not only the three notations are colors: what follows a color in functional notation
does not matter. -/
theorem not_forall_readOr_documented :
    ¬ ∀ (default : Color) (text : List Char),
      (IsUnpainted (Text.trim text) → readOr default text = transparent) ∧
        (∀ color, IsDocumented (Text.trim text) color → readOr default text = color) ∧
        (¬ IsUnpainted (Text.trim text) → (∀ color, ¬ IsDocumented (Text.trim text) color) →
          readOr default text = default) := by
  intro h
  obtain ⟨-, -, hother⟩ := h black "rgb(255, 0, 0) nope".toList
  have hread : readOr black "rgb(255, 0, 0) nope".toList = opaqueOf 255 0 0 := by decide +kernel
  have hpainted : ¬ IsUnpainted (Text.trim "rgb(255, 0, 0) nope".toList) := by
    rintro (hnil | hnone)
    · cases hnil
    · cases hnone
  have hundocumented :
      ∀ color, ¬ IsDocumented (Text.trim "rgb(255, 0, 0) nope".toList) color := by
    intro color hdocumented
    generalize htext : Text.trim "rgb(255, 0, 0) nope".toList = text at hdocumented
    have hhead : text.head? = some 'r' := by rw [← htext]; rfl
    have hstart : StartsFunctional text := by rw [← htext]; rfl
    have hlast : text.getLast? = some 'e' := by rw [← htext]; rfl
    -- it starts as the functional notation does, and does not end as it does
    cases hdocumented with
    | hexadecimal => exact absurd (Option.some.inj hhead) (by decide)
    | functional hform =>
      rw [hform.getLast?] at hlast
      exact absurd (Option.some.inj hlast) (by decide)
    | named hnamed =>
      obtain ⟨-, -, hother, -⟩ := hnamed.announces_nothing
      exact hother hstart
  rw [hread] at hother
  exact absurd (hother hpainted hundocumented) (by decide)

/-! ## Colors in every notation -/

section Notations

variable {text digits : List Char} {color : Color} (default : Color)

theorem readOr_of_isHex (h : IsHex digits color) : readOr default ('#' :: digits) = color := by
  have htrim : Text.trim ('#' :: digits) = '#' :: digits := by
    refine Text.trim_of_ends ?_ ?_
    · rintro _ ⟨⟩
      rfl
    · intro c hc
      rcases List.mem_cons.mp (List.mem_of_mem_getLast? hc) with rfl | hdigit
      · rfl
      · exact isBlank_of_isDigitIn (h.isDigitIn c hdigit)
  refine readOr_of_denotes default ?_
  rw [htrim]
  exact (IsDocumented.hexadecimal h).denotes

/-- Hexadecimal digits are read in either case. -/
theorem readOr_of_sameIgnoringCase (h : IsHex digits color)
    (hsame : Text.sameIgnoringCase text ('#' :: digits) = true) :
    readOr default text = color := by
  obtain ⟨c, others, rfl, hc, hothers⟩ := Text.sameIgnoringCase_cons_iff.mp hsame
  obtain rfl : c = '#' := Text.eq_of_toLower_eq (by decide) hc
  exact readOr_of_isHex default (h.of_sameIgnoringCase hothers)

theorem readOr_of_sameIgnoringCase_text (h : Text.sameIgnoringCase text color.text = true) :
    readOr default text = color :=
  readOr_of_sameIgnoringCase default (isHex_opacity color) h

/-- Functional notation is what its arguments are. -/
theorem readOr_of_isFunctional {arguments : Arguments}
    (h : IsFunctional arguments (Text.trim text)) :
    readOr default text = (ofArguments? arguments).getD default := by
  rw [readOr_of_not_isUnpainted default h.startsFunctional.not_isUnpainted,
    read?_of_startsFunctional h.startsFunctional, toOption_readFunctional,
    findFunctional?_eq_some_iff.mpr h.isFirst, Option.bind_eq_bind, Option.bind_some]

theorem readOr_of_channels {red green blue : List Char} {r g b : UInt8} (hr : IsChannel red r)
    (hg : IsChannel green g) (hb : IsChannel blue b)
    (h : IsFunctional ⟨red, green, blue, none⟩ (Text.trim text)) :
    readOr default text = opaqueOf r g b :=
  readOr_of_denotes default (IsDocumented.functional h ⟨hr, hg, hb, .absent⟩).denotes

theorem readOr_of_excess {arguments : Arguments} (h : IsFunctional arguments (Text.trim text))
    (hdigits : digits ∈ [arguments.red, arguments.green, arguments.blue])
    (hexcess : 255 < Decimal.digitsValue digits) : readOr default text = default := by
  -- no channel has such a value
  have hchannel : ∀ channel, ¬ IsChannel digits channel := by
    rintro channel ⟨-, hvalue⟩
    have hbound : channel.toNat < 256 := channel.toNat_lt
    omega
  have hnone : ofArguments? arguments = none := by
    rw [Option.eq_none_iff_forall_ne_some]
    intro color hcolor
    obtain ⟨hr, hg, hb, -⟩ := (ofArguments?_eq_some_iff h.isFirst.isPlain).mp hcolor
    simp only [List.mem_cons, List.not_mem_nil, or_false] at hdigits
    rcases hdigits with rfl | rfl | rfl
    · exact hchannel _ hr
    · exact hchannel _ hg
    · exact hchannel _ hb
  rw [readOr_of_isFunctional default h, hnone, Option.getD_none]

end Notations

/-- **Colors are read back in every notation**: in hexadecimal notation with or without an
opacity and in either case, and in functional notation with the channels in decimal. A
single hexadecimal digit stands for a pair of it, and with a channel of more than 255 the
functional notation is no color. -/
theorem readOr_every_notation (default : Color) :
    (∀ color text, Text.sameIgnoringCase text (Color.text color) = true →
      readOr default text = color) ∧
      (∀ r g b text,
        Text.sameIgnoringCase text ('#' :: (hexByte r ++ hexByte g ++ hexByte b)) = true ∨
            Text.sameIgnoringCase text
              ('#' :: 'F' :: 'F' :: (hexByte r ++ hexByte g ++ hexByte b)) = true ∨
            (∃ red green blue, IsChannel red r ∧ IsChannel green g ∧ IsChannel blue b ∧
              IsFunctional ⟨red, green, blue, none⟩ (Text.trim text)) →
          readOr default text = opaqueOf r g b) ∧
      (∀ x y z, (∀ c ∈ [x, y, z], Text.isDigitIn 16 c = true) →
        readOr default ['#', x, y, z] = readOr default ['#', x, x, y, y, z, z] ∧
          readOr default ['#', x, y, z] = opaqueOf (byteOf x x) (byteOf y y) (byteOf z z)) ∧
      (∀ arguments text digits, IsFunctional arguments (Text.trim text) →
        digits ∈ [arguments.red, arguments.green, arguments.blue] →
          255 < Decimal.digitsValue digits →
          readOr default text = default) := by
  refine ⟨?_, ?_, ?_, ?_⟩
  · intro color text h
    exact readOr_of_sameIgnoringCase_text default h
  · rintro r g b text (hpairs | hopacity | ⟨red, green, blue, hr, hg, hb, h⟩)
    · exact readOr_of_sameIgnoringCase default (isHex_pairs r g b) hpairs
    · have hfull : hexByte 255 = ['F', 'F'] := by decide
      refine readOr_of_sameIgnoringCase_text default ?_
      show Text.sameIgnoringCase text
        ('#' :: (hexByte 255 ++ hexByte r ++ hexByte g ++ hexByte b)) = true
      rw [hfull]
      exact hopacity
    · exact readOr_of_channels default hr hg hb h
  · intro x y z h
    have hdoubled : ∀ c ∈ [x, x, y, y, z, z], Text.isDigitIn 16 c = true := by
      simpa using h
    have hsingle := readOr_of_isHex default (.single h)
    have hpairs := readOr_of_isHex default (.pairs hdoubled)
    exact ⟨hsingle.trans hpairs.symm, hsingle⟩
  · intro arguments text digits h hdigits hexcess
    exact readOr_of_excess default h hdigits hexcess

/-- One color in hexadecimal notation and in functional notation with leading zeros, and a
channel that is too great. -/
theorem readOr_every_notation_ten_twenty_thirty :
    readOr black "#fF0a141E".toList = opaqueOf 10 20 30 ∧
      readOr black " rGb( 0010,20 ,30)\n".toList = opaqueOf 10 20 30 ∧
      readOr black "rgba(10,20,300)".toList = black := by
  have hnone : ∀ c ∈ ([] : List Char), Text.isBlank c = true := List.forall_mem_nil _
  have hblank : ∀ c ∈ [' '], Text.isBlank c = true := List.all_eq_true.mp rfl
  obtain ⟨hhex, hopaque, -, hexcess⟩ := readOr_every_notation black
  refine ⟨hhex (opaqueOf 10 20 30) _ (by decide), hopaque 10 20 30 _ (.inr (.inr ?_)), ?_⟩
  · refine ⟨['0', '0', '1', '0'], ['2', '0'], ['3', '0'], by decide, by decide, by decide, ?_⟩
    have hkeyword : IsKeyword ['r', 'G', 'b'] := .inl rfl
    refine .intro hkeyword (by decide)
      (.cons hnone (.cons hblank (.cons hnone (.cons hnone ?_))))
    exact .cons hblank (.cons hnone (.cons hnone .nil))
  · let arguments : Arguments := ⟨['1', '0'], ['2', '0'], ['3', '0', '0'], none⟩
    have hkeyword : IsKeyword ['r', 'g', 'b', 'a'] := .inr rfl
    have hform : IsFunctional arguments (Text.trim "rgba(10,20,300)".toList) := by
      refine .intro hkeyword (by decide)
        (.cons hnone (.cons hnone (.cons hnone (.cons hnone ?_))))
      exact .cons hnone (.cons hnone (.cons hnone .nil))
    exact hexcess arguments _ ['3', '0', '0'] hform (by simp [arguments]) (by decide)

end Kerf.Color
