import Mathlib
import Kerf.Path.Command
import Kerf.Proofs.Text.Classes

/-!
# Path data as bytes

Path data may also be read byte by byte, from one offset to the next. A number is then a
slice of the text between two offsets, and a slice is there only if both of them lie
between characters.

- `bytes`, `splitAt?`, `slice?`: a text in UTF-8, and its parts up to, after and between
  offsets.
- `scanEnd`: where a number ends. `scanEnd_eq`: this is as far as the bytes go on as
  characters of a number would.
- `tokensAt?`: the tokens from an offset, or nothing if a slice is not there.
- `tokensAt?_eq`: all slices are there, whatever characters the text has, and the tokens
  are those of the characters.
-/

namespace Kerf.Path

/-! ## Texts in UTF-8 -/

/-- A text in UTF-8. -/
def bytes (text : List Char) : List UInt8 :=
  text.flatMap String.utf8EncodeChar

theorem bytes_append (before after : List Char) :
    bytes (before ++ after) = bytes before ++ bytes after :=
  List.flatMap_append

theorem bytes_cons (c : Char) (text : List Char) :
    bytes (c :: text) = String.utf8EncodeChar c ++ bytes text :=
  List.flatMap_cons

/-- A text with each of its bytes as a character. -/
def bytewise (text : List Char) : List Char :=
  (bytes text).map Char.ofUInt8

theorem length_bytewise (text : List Char) : (bytewise text).length = (bytes text).length :=
  List.length_map _

theorem bytewise_append (before after : List Char) :
    bytewise (before ++ after) = bytewise before ++ bytewise after := by
  rw [bytewise, bytes_append, List.map_append, bytewise, bytewise]

theorem utf8Size_eq_one_iff {c : Char} : c.utf8Size = 1 ↔ c.toNat < 128 := by
  rw [Char.utf8Size_eq_one_iff, UInt32.le_iff_toNat_le]
  exact Nat.lt_succ_iff.symm

/-- A character of ASCII is one byte. -/
theorem bytewise_cons_of_ascii {c : Char} (hc : c.toNat < 128) (text : List Char) :
    bytewise (c :: text) = c :: bytewise text := by
  have hbyte : Char.ofUInt8 c.val.toUInt8 = c := by
    refine Char.ext (UInt32.toNat_inj.mp ?_)
    have hmod : c.val.toUInt8.toNat = c.toNat % 256 := UInt32.toNat_toUInt8 c.val
    show c.val.toUInt8.toNat = c.toNat
    omega
  rw [bytewise, bytes_cons, String.utf8EncodeChar_eq_singleton (utf8Size_eq_one_iff.mpr hc),
    List.singleton_append, List.map_cons, hbyte, bytewise]

/-- Another character starts with a byte that is no character of ASCII. -/
theorem exists_bytewise_cons {c : Char} (hc : 128 ≤ c.toNat) (text : List Char) :
    ∃ d rest, bytewise (c :: text) = d :: rest ∧ 128 ≤ d.toNat := by
  -- the first byte of two, three or four has its upper bit set
  have hfirst : ∃ b rest, String.utf8EncodeChar c = b :: rest ∧ 128 ≤ b.toNat := by
    have hsmall : ¬c.val.toNat ≤ 127 := by
      show ¬c.toNat ≤ 127
      omega
    rw [String.utf8EncodeChar, if_neg hsmall]
    split
    · refine ⟨_, _, rfl, ?_⟩
      rw [UInt8.toNat_ofNat']
      omega
    · split
      · refine ⟨_, _, rfl, ?_⟩
        rw [UInt8.toNat_ofNat']
        omega
      · refine ⟨_, _, rfl, ?_⟩
        rw [UInt8.toNat_ofNat']
        omega
  obtain ⟨b, rest, hencode, hb⟩ := hfirst
  refine ⟨Char.ofUInt8 b, (rest ++ bytes text).map Char.ofUInt8, ?_, hb⟩
  rw [bytewise, bytes_cons, hencode, List.cons_append, List.map_cons]

/-- The parts of a text before and after an offset, if it lies between characters. -/
def splitAt? : (offset : Nat) → List Char → Option (List Char × List Char)
  | 0, text => some ([], text)
  | _ + 1, [] => none
  | offset + 1, c :: text =>
    if c.utf8Size ≤ offset + 1 then
      (splitAt? (offset + 1 - c.utf8Size) text).map fun (before, after) => (c :: before, after)
    else none

/-- The part of a text between two offsets, if they lie between characters. -/
def slice? (start stop : Nat) (text : List Char) : Option (List Char) := do
  let (before, _) ← splitAt? stop text
  let (_, part) ← splitAt? start before
  return part

theorem length_bytes_cons (c : Char) (text : List Char) :
    (bytes (c :: text)).length = c.utf8Size + (bytes text).length := by
  rw [bytes_cons, List.length_append, String.length_utf8EncodeChar]

theorem length_bytes_cons_of_ascii {c : Char} (hc : c.toNat < 128) (text : List Char) :
    (bytes (c :: text)).length = (bytes text).length + 1 := by
  rw [length_bytes_cons, utf8Size_eq_one_iff.mpr hc, Nat.add_comm]

/-- A text is split where one part ends, and the first part is as long as its bytes. -/
theorem splitAt?_eq_some_iff {offset : Nat} {text before after : List Char} :
    splitAt? offset text = some (before, after) ↔
      text = before ++ after ∧ (bytes before).length = offset := by
  constructor
  -- the induction is on the text, of which characters are taken while they fit
  · intro h
    induction text generalizing offset before with
    | nil =>
      cases offset with
      | zero =>
        cases h
        exact ⟨rfl, rfl⟩
      | succ offset => cases h
    | cons c text ih =>
      cases offset with
      | zero =>
        cases h
        exact ⟨rfl, rfl⟩
      | succ offset =>
        rw [splitAt?] at h
        split at h
        · next hfits =>
          obtain ⟨⟨front, rest⟩, hsplit, heq⟩ := Option.map_eq_some_iff.mp h
          cases heq
          obtain ⟨rfl, hlength⟩ := ih hsplit
          refine ⟨rfl, ?_⟩
          rw [length_bytes_cons]
          omega
        · cases h
  -- and here on the first part, every character of which is taken whole
  · rintro ⟨rfl, rfl⟩
    induction before with
    | nil =>
      cases after <;> rfl
    | cons c before ih =>
      obtain ⟨offset, hoffset⟩ : ∃ offset, (bytes (c :: before)).length = offset + 1 := by
        refine ⟨(bytes (c :: before)).length - 1, ?_⟩
        have hpos := Char.utf8Size_pos c
        rw [length_bytes_cons]
        omega
      have hlength := hoffset.symm.trans (length_bytes_cons c before)
      have hrest : offset + 1 - c.utf8Size = (bytes before).length := by omega
      rw [hoffset, List.cons_append, splitAt?, if_pos (by omega), hrest, ih, Option.map_some]

theorem splitAt?_append (before after : List Char) :
    splitAt? (bytes before).length (before ++ after) = some (before, after) :=
  splitAt?_eq_some_iff.mpr ⟨rfl, rfl⟩

/-- What stands between two parts is the slice between their offsets. -/
theorem slice?_append (before part after : List Char) :
    slice? (bytes before).length (bytes (before ++ part)).length (before ++ (part ++ after)) =
      some part := by
  rw [slice?, ← List.append_assoc, splitAt?_append]
  simp only [Option.bind_eq_bind, Option.bind_some, splitAt?_append]
  rfl

theorem utf8ByteSize_ofList (text : List Char) :
    (String.ofList text).utf8ByteSize = (bytes text).length := by
  show (bytes text).toByteArray.size = _
  rw [List.size_toByteArray]

/-- The offsets that lie between characters are the positions of the text. -/
theorem isSome_splitAt?_iff {offset : Nat} {text : List Char} :
    (splitAt? offset text).isSome = true ↔
      String.Pos.Raw.IsValid (String.ofList text) ⟨offset⟩ := by
  rw [String.Pos.Raw.isValid_iff_exists_append, Option.isSome_iff_exists]
  constructor
  · rintro ⟨⟨before, after⟩, hsplit⟩
    obtain ⟨rfl, rfl⟩ := splitAt?_eq_some_iff.mp hsplit
    refine ⟨String.ofList before, String.ofList after, String.ofList_append, ?_⟩
    rw [String.rawEndPos, utf8ByteSize_ofList]
  · rintro ⟨before, after, htext, hoffset⟩
    refine ⟨(before.toList, after.toList), splitAt?_eq_some_iff.mpr ⟨?_, ?_⟩⟩
    · rw [← String.toList_append, ← htext, String.toList_ofList]
    · rw [← utf8ByteSize_ofList, String.ofList_toList]
      exact (congrArg String.Pos.Raw.byteIdx hoffset).symm

/-! ## Reading bytes -/

/-- The byte at an offset, as a character. -/
def byteAt? (data : List UInt8) (i : Nat) : Option Char :=
  (data[i]?).map Char.ofUInt8

/-- The offset behind a sign. -/
def skipSign (data : List UInt8) (i : Nat) : Nat :=
  if byteAt? data i = some '-' ∨ byteAt? data i = some '+' then i + 1 else i

/-- The offset behind a run of digits. -/
def skipDigits (data : List UInt8) (i : Nat) : Nat :=
  if h : i < data.length then
    if (Char.ofUInt8 data[i]).isDigit then skipDigits data (i + 1) else i
  else i
termination_by data.length - i

/-- The offset behind a point and the digits after it. -/
def skipFraction (data : List UInt8) (i : Nat) : Nat :=
  if byteAt? data i = some '.' then skipDigits data (i + 1) else i

/-- The offset behind an exponent. -/
def skipExponent (data : List UInt8) (i : Nat) : Nat :=
  if byteAt? data i = some 'e' ∨ byteAt? data i = some 'E' then
    let digits := skipSign data (i + 1)
    if (byteAt? data digits).any Char.isDigit then skipDigits data digits else i
  else i

/-- The offset behind a number. -/
def scanEnd (data : List UInt8) (start : Nat) : Nat :=
  skipExponent data (skipFraction data (skipDigits data (skipSign data start)))

/-- The bytes from an offset on, as characters. -/
def view (data : List UInt8) (i : Nat) : List Char :=
  (data.drop i).map Char.ofUInt8

theorem byteAt?_eq (data : List UInt8) (i : Nat) : byteAt? data i = (view data i).head? := by
  rw [byteAt?, view, List.head?_map, List.head?_drop]

theorem view_add (data : List UInt8) (i k : Nat) :
    view data (i + k) = (view data i).drop k := by
  rw [view, view, ← List.map_drop, List.drop_drop]

/-- Behind what is scanned stands what is left. -/
theorem view_add_length {data : List UInt8} {i : Nat} {part rest : List Char}
    (h : part ++ rest = view data i) : view data (i + part.length) = rest := by
  rw [view_add, ← h, List.drop_left]

theorem view_of_lt {data : List UInt8} {i : Nat} (h : i < data.length) :
    view data i = Char.ofUInt8 data[i] :: view data (i + 1) := by
  rw [view, List.drop_eq_getElem_cons h, List.map_cons, view]

theorem skipSign_eq (data : List UInt8) (i : Nat) :
    skipSign data i = i + (scanSign (view data i)).1.length := by
  rw [skipSign, byteAt?_eq]
  cases hview : view data i with
  | nil => rfl
  | cons c rest =>
    simp only [List.head?_cons, Option.some.injEq]
    by_cases hsign : c = '-' ∨ c = '+'
    · rw [if_pos hsign]
      rcases hsign with rfl | rfl
      · rfl
      · rfl
    · rw [if_neg hsign]
      rw [not_or] at hsign
      simp [scanSign, hsign]

theorem skipDigits_eq (data : List UInt8) (i : Nat) :
    skipDigits data i = i + ((view data i).takeWhile Char.isDigit).length := by
  induction i using skipDigits.induct data with
  | case1 i h hdigit ih =>
    rw [skipDigits, dif_pos h, if_pos hdigit, ih, view_of_lt h,
      List.takeWhile_cons_of_pos hdigit, List.length_cons]
    omega
  | case2 i h hdigit =>
    rw [skipDigits, dif_pos h, if_neg hdigit, view_of_lt h, List.takeWhile_cons_of_neg hdigit]
    rfl
  | case3 i h =>
    rw [skipDigits, dif_neg h, view, List.drop_eq_nil_of_le (Nat.le_of_not_lt h)]
    rfl

theorem skipFraction_eq (data : List UInt8) (i : Nat) :
    skipFraction data i = i + (scanFraction (view data i)).1.length := by
  rw [skipFraction, byteAt?_eq, skipDigits_eq, view_add]
  cases hview : view data i with
  | nil => rfl
  | cons c rest =>
    simp only [List.head?_cons, Option.some.injEq]
    by_cases hpoint : c = '.'
    · subst hpoint
      rw [if_pos rfl, scanFraction, List.length_cons]
      simp only [List.drop_succ_cons, List.drop_zero]
      omega
    · rw [if_neg hpoint]
      simp [scanFraction, hpoint]

theorem any_isDigit_head?_iff (text : List Char) :
    text.head?.any Char.isDigit = true ↔ text.takeWhile Char.isDigit ≠ [] := by
  cases text with
  | nil => simp
  | cons c text => by_cases hc : c.isDigit = true <;> simp [hc]

theorem skipExponent_eq (data : List UInt8) (i : Nat) :
    skipExponent data i = i + (scanExponent (view data i)).1.length := by
  rw [skipExponent, byteAt?_eq]
  cases hview : view data i with
  | nil => rfl
  | cons c rest =>
    have hrest : view data (i + 1) = rest :=
      view_add_length (show [c] ++ rest = view data i from hview.symm)
    have hsign : skipSign data (i + 1) = i + 1 + (scanSign rest).1.length := by
      rw [skipSign_eq, hrest]
    have hdigits : view data (i + 1 + (scanSign rest).1.length) = (scanSign rest).2 :=
      view_add_length ((scanSign_append rest).trans hrest.symm)
    -- both sides ask for the letter, and then for a digit behind the sign
    simp only [List.head?_cons, Option.some.injEq, hsign, byteAt?_eq, hdigits,
      any_isDigit_head?_iff, skipDigits_eq, scanExponent]
    by_cases hmark : c = 'e' ∨ c = 'E'
    · by_cases hnone : (scanSign rest).2.takeWhile Char.isDigit = []
      · simp [hmark, hnone]
      · simp only [hmark, hnone, ne_eq, not_false_eq_true, and_self, if_true, List.length_cons,
          List.length_append]
        omega
    · simp [hmark]

/-- A number ends where the scan of the bytes as characters does. -/
theorem scanEnd_eq (data : List UInt8) (start : Nat) :
    scanEnd data start = start + (scanNumber (view data start)).1.length := by
  have hsign := view_add_length (scanSign_append (view data start))
  have hdigits : view data _ = _ := view_add_length <|
    (List.takeWhile_append_dropWhile (p := Char.isDigit)).trans hsign.symm
  have hfraction := view_add_length ((scanFraction_append _).trans hdigits.symm)
  rw [scanEnd, skipSign_eq, skipDigits_eq, hsign, skipFraction_eq, hdigits, skipExponent_eq,
    hfraction, scanNumber]
  simp only [List.length_append, Nat.add_assoc]

/-! ## Bytes of characters -/

/-- What is no character of ASCII is told apart from those that are. -/
theorem ne_of_high {c d : Char} (hd : 128 ≤ d.toNat) (hc : c.toNat < 128) : d ≠ c := by
  rintro rfl
  omega

theorem isDigit_of_high {c : Char} (hc : 128 ≤ c.toNat) : ¬c.isDigit = true := by
  intro hdigit
  have hbounds := Text.toNat_of_isDigit hdigit
  omega

theorem isAlpha_of_high {c : Char} (hc : 128 ≤ c.toNat) : ¬c.isAlpha = true := by
  intro hletter
  have hbounds := Text.toNat_of_isAlpha hletter
  omega

theorem isSeparator_of_high {c : Char} (hc : 128 ≤ c.toNat) : ¬isSeparator c = true := by
  have hne : ∀ d : Char, d.toNat < 128 → c ≠ d := fun _ => ne_of_high hc
  simp [isSeparator, Text.isAsciiBlank, hne]

theorem isNumberStart_of_high {c : Char} (hc : 128 ≤ c.toNat) : ¬isNumberStart c = true := by
  have hne : ∀ d : Char, d.toNat < 128 → c ≠ d := fun _ => ne_of_high hc
  simp [isNumberStart, isDigit_of_high hc, hne]

/-- Digits are the same bytes as characters. -/
theorem takeWhile_isDigit_bytewise (text : List Char) :
    (bytewise text).takeWhile Char.isDigit = text.takeWhile Char.isDigit ∧
      (bytewise text).dropWhile Char.isDigit = bytewise (text.dropWhile Char.isDigit) := by
  induction text with
  | nil => exact ⟨rfl, rfl⟩
  | cons c text ih =>
    by_cases hc : c.toNat < 128
    · rw [bytewise_cons_of_ascii hc]
      by_cases hdigit : c.isDigit = true
      · rw [List.takeWhile_cons_of_pos hdigit, List.takeWhile_cons_of_pos hdigit,
          List.dropWhile_cons_of_pos hdigit, List.dropWhile_cons_of_pos hdigit]
        exact ⟨congrArg (c :: ·) ih.1, ih.2⟩
      · rw [List.takeWhile_cons_of_neg hdigit, List.takeWhile_cons_of_neg hdigit,
          List.dropWhile_cons_of_neg hdigit, List.dropWhile_cons_of_neg hdigit,
          bytewise_cons_of_ascii hc]
        exact ⟨rfl, rfl⟩
    -- another character ends the digits, and so does its first byte
    · have hhigh := Nat.le_of_not_lt hc
      obtain ⟨d, rest, hbytes, hd⟩ := exists_bytewise_cons hhigh text
      rw [List.takeWhile_cons_of_neg (isDigit_of_high hhigh),
        List.dropWhile_cons_of_neg (isDigit_of_high hhigh), hbytes,
        List.takeWhile_cons_of_neg (isDigit_of_high hd),
        List.dropWhile_cons_of_neg (isDigit_of_high hd)]
      exact ⟨rfl, rfl⟩

/-- Where a scan takes nothing in front of a character, it takes nothing in front of its
bytes. -/
theorem scan_bytewise_of_not_mem {scan : List Char → List Char × List Char} {marks : List Char}
    (hmarks : ∀ mark ∈ marks, mark.toNat < 128)
    (hscan : ∀ c rest, c ∉ marks → scan (c :: rest) = ([], c :: rest)) {c : Char}
    (hc : c ∉ marks) (text : List Char) :
    scan (bytewise (c :: text)) = ((scan (c :: text)).1, bytewise (scan (c :: text)).2) := by
  rw [hscan c text hc]
  by_cases hascii : c.toNat < 128
  · rw [bytewise_cons_of_ascii hascii, hscan c _ hc]
  · obtain ⟨d, rest, hbytes, hd⟩ := exists_bytewise_cons (Nat.le_of_not_lt hascii) text
    have hnone : d ∉ marks := fun hmem => ne_of_high hd (hmarks d hmem) rfl
    rw [hbytes, hscan d rest hnone]

theorem scanSign_bytewise (text : List Char) :
    scanSign (bytewise text) = ((scanSign text).1, bytewise (scanSign text).2) := by
  cases text with
  | nil => rfl
  | cons c text =>
    by_cases hc : c ∈ ['-', '+']
    · rw [List.mem_pair] at hc
      rcases hc with rfl | rfl
      · rw [bytewise_cons_of_ascii (by decide), scanSign, scanSign]
      · rw [bytewise_cons_of_ascii (by decide), scanSign, scanSign]
    · refine scan_bytewise_of_not_mem (by simp) (fun d rest hd => ?_) hc text
      rw [List.mem_pair, not_or] at hd
      simp [scanSign, hd]

theorem scanFraction_bytewise (text : List Char) :
    scanFraction (bytewise text) = ((scanFraction text).1, bytewise (scanFraction text).2) := by
  cases text with
  | nil => rfl
  | cons c text =>
    by_cases hc : c ∈ ['.']
    · obtain rfl := List.mem_singleton.mp hc
      obtain ⟨htake, hdrop⟩ := takeWhile_isDigit_bytewise text
      rw [bytewise_cons_of_ascii (by decide), scanFraction, scanFraction, htake, hdrop]
    · refine scan_bytewise_of_not_mem (by simp) (fun d rest hd => ?_) hc text
      rw [List.mem_singleton] at hd
      simp [scanFraction, hd]

theorem scanExponent_bytewise (text : List Char) :
    scanExponent (bytewise text) = ((scanExponent text).1, bytewise (scanExponent text).2) := by
  cases text with
  | nil => rfl
  | cons c text =>
    by_cases hc : c ∈ ['e', 'E']
    · have hascii : c.toNat < 128 := by
        rw [List.mem_pair] at hc
        rcases hc with rfl | rfl <;> decide
      -- where no digit follows, the letter is given back
      obtain ⟨htake, hdrop⟩ := takeWhile_isDigit_bytewise (scanSign text).2
      rw [bytewise_cons_of_ascii hascii, scanExponent, scanSign_bytewise, scanExponent]
      simp only [htake, hdrop]
      split
      · rfl
      · rw [bytewise_cons_of_ascii hascii]
    · refine scan_bytewise_of_not_mem (by simp) (fun d rest hd => ?_) hc text
      rw [List.mem_pair, not_or] at hd
      simp [scanExponent, hd]

/-- A number is the same bytes as characters. -/
theorem scanNumber_bytewise (text : List Char) :
    scanNumber (bytewise text) = ((scanNumber text).1, bytewise (scanNumber text).2) := by
  obtain ⟨htake, hdrop⟩ := takeWhile_isDigit_bytewise (scanSign text).2
  rw [scanNumber, scanSign_bytewise]
  simp only [htake, hdrop, scanFraction_bytewise, scanExponent_bytewise, scanNumber]

/-- So a number has as many bytes as characters. -/
theorem length_bytes_scanNumber (text : List Char) :
    (bytes (scanNumber text).1).length = (scanNumber text).1.length := by
  have happ := scanNumber_append (bytewise text)
  rw [scanNumber_bytewise] at happ
  conv at happ => rhs; rw [← scanNumber_append text, bytewise_append]
  rw [← length_bytewise, ← List.append_cancel_right happ]

/-! ## Tokens from an offset -/

theorem lt_scanEnd {data : List UInt8} {i : Nat} {c : Char} (h : byteAt? data i = some c)
    (hc : isNumberStart c = true) : i < scanEnd data i := by
  rw [byteAt?_eq] at h
  cases hview : view data i with
  | nil =>
    rw [hview] at h
    cases h
  | cons d rest =>
    rw [hview] at h
    cases h
    have hne : (scanNumber (c :: rest)).1 ≠ [] := scanNumber_ne_nil hc
    have hpos := List.length_pos_iff.mpr hne
    rw [scanEnd_eq, hview]
    omega

theorem lt_length_of_byteAt? {data : List UInt8} {i : Nat} {c : Char}
    (h : byteAt? data i = some c) : i < data.length := by
  obtain ⟨b, hb, -⟩ := Option.map_eq_some_iff.mp h
  exact (List.getElem?_eq_some_iff.mp hb).1

/-- The tokens of path data from an offset on, unless a slice is not there. -/
def tokensAt? {α : Type} [Written α] (text : List Char) (i : Nat) :
    Option (Except Fault (List (Token α))) :=
  match _h : byteAt? (bytes text) i with
  | none => some (.ok [])
  | some c =>
    if isSeparator c then tokensAt? text (i + 1)
    else if c.isAlpha then (tokensAt? text (i + 1)).map (andThen (.letter c))
    else if _hstart : isNumberStart c then
      let stop := scanEnd (bytes text) i
      (slice? i stop text).bind fun number =>
        match Written.read? number with
        | none => some (.error ⟨i, number⟩)
        | some value => (tokensAt? text stop).map (andThen (.number value))
    else (splitAt? i text).map fun (_, rest) => .error ⟨i, rest.take 1⟩
termination_by (bytes text).length - i
decreasing_by
  · have hlt := lt_length_of_byteAt? _h
    omega
  · have hlt := lt_length_of_byteAt? _h
    omega
  · have hlt := lt_length_of_byteAt? _h
    have hstop := lt_scanEnd _h _hstart
    omega

variable {α : Type} [Written α]

theorem view_bytes (before rest : List Char) :
    view (bytes (before ++ rest)) (bytes before).length = bytewise rest := by
  rw [view, bytes_append, List.drop_left, bytewise]

/-- A number ends where its characters do. -/
theorem scanEnd_bytes (before rest : List Char) :
    scanEnd (bytes (before ++ rest)) (bytes before).length =
      (bytes before).length + (bytes (scanNumber rest).1).length := by
  rw [scanEnd_eq, view_bytes, scanNumber_bytewise, length_bytes_scanNumber]

/-- The slice that a number is read from is there. -/
theorem slice?_scanNumber (before rest : List Char) :
    slice? (bytes before).length
        ((bytes before).length + (bytes (scanNumber rest).1).length) (before ++ rest) =
      some (scanNumber rest).1 := by
  have hpart := slice?_append before (scanNumber rest).1 (scanNumber rest).2
  rwa [scanNumber_append, bytes_append, List.length_append] at hpart

theorem tokensAt?_of_none {text : List Char} {i : Nat} (h : byteAt? (bytes text) i = none) :
    (tokensAt? text i : Option (Except Fault (List (Token α)))) = some (.ok []) := by
  rw [tokensAt?]
  split
  · rfl
  · next c hc =>
    rw [h] at hc
    cases hc

theorem tokensAt?_of_some {text : List Char} {i : Nat} {c : Char}
    (h : byteAt? (bytes text) i = some c) :
    (tokensAt? text i : Option (Except Fault (List (Token α)))) =
      if isSeparator c then tokensAt? text (i + 1)
      else if c.isAlpha then (tokensAt? text (i + 1)).map (andThen (.letter c))
      else if isNumberStart c then
        (slice? i (scanEnd (bytes text) i) text).bind fun number =>
          match Written.read? number with
          | none => some (.error ⟨i, number⟩)
          | some value =>
            (tokensAt? text (scanEnd (bytes text) i)).map (andThen (.number value))
      else (splitAt? i text).map fun (_, rest) => .error ⟨i, rest.take 1⟩ := by
  rw [tokensAt?]
  split
  · next hnone =>
    rw [h] at hnone
    cases hnone
  · next d hd =>
    cases h.symm.trans hd
    rfl

omit [Written α] in
/-- Where no token starts, the fault has the whole character. -/
theorem map_splitAt?_fault (before rest : List Char) (c : Char) :
    (splitAt? (bytes before).length (before ++ c :: rest)).map
        (fun parts => (.error ⟨(bytes before).length, parts.2.take 1⟩)) =
      some (.error ⟨(bytes before).length, [c]⟩ : Except Fault (List (Token α))) := by
  rw [splitAt?_append]
  rfl

theorem byteAt?_bytes (before rest : List Char) :
    byteAt? (bytes (before ++ rest)) (bytes before).length = (bytewise rest).head? := by
  rw [byteAt?_eq, view_bytes]

/-- A character beyond ASCII starts no token, and neither does its first byte. -/
theorem tokensAt?_of_high {c : Char} (hc : 128 ≤ c.toNat) (before rest : List Char) :
    tokensAt? (before ++ c :: rest) (bytes before).length =
      some (tokensFrom (bytes before).length (c :: rest) :
        Except Fault (List (Token α))) := by
  obtain ⟨d, after, hbytes, hd⟩ := exists_bytewise_cons hc rest
  have hbyte := byteAt?_bytes before (c :: rest)
  rw [hbytes, List.head?_cons] at hbyte
  rw [tokensAt?_of_some hbyte, tokensFrom, if_neg (isSeparator_of_high hd),
    if_neg (isAlpha_of_high hd), if_neg (isNumberStart_of_high hd),
    if_neg (isSeparator_of_high hc), if_neg (isAlpha_of_high hc),
    dif_neg (isNumberStart_of_high hc)]
  exact map_splitAt?_fault before rest c

/-- All slices are there, and what is read is what the characters say. -/
theorem tokensAt?_eq (before rest : List Char) :
    tokensAt? (before ++ rest) (bytes before).length =
      some (tokensFrom (bytes before).length rest : Except Fault (List (Token α))) := by
  induction hlength : rest.length using Nat.strong_induction_on generalizing before rest with
  | h n ih =>
  subst hlength
  have hbyte := byteAt?_bytes before rest
  cases rest with
  | nil => rw [tokensAt?_of_none hbyte, tokensFrom]
  | cons c rest =>
    -- behind the part that is taken, the tokens go on
    have hnext : ∀ part after, part ++ after = c :: rest → part ≠ [] →
        tokensAt? (before ++ c :: rest) ((bytes before).length + (bytes part).length) =
          some (tokensFrom ((bytes before).length + (bytes part).length) after :
            Except Fault (List (Token α))) := by
      intro part after hsplit hne
      have hlt : after.length < (c :: rest).length := by
        have hpos := List.length_pos_iff.mpr hne
        rw [← hsplit, List.length_append]
        omega
      have htokens := ih after.length hlt (before ++ part) after rfl
      rwa [List.append_assoc, hsplit, bytes_append, List.length_append] at htokens
    by_cases hc : c.toNat < 128
    -- a character of ASCII is one byte, so both readers see the same
    · rw [bytewise_cons_of_ascii hc, List.head?_cons] at hbyte
      have hone : (bytes [c]).length = 1 := length_bytes_cons_of_ascii hc []
      have hrest := hnext [c] rest rfl (List.cons_ne_nil c [])
      rw [hone] at hrest
      rw [tokensAt?_of_some hbyte, tokensFrom]
      by_cases hseparator : isSeparator c = true
      · rw [if_pos hseparator, if_pos hseparator, hrest]
      rw [if_neg hseparator, if_neg hseparator]
      by_cases hletter : c.isAlpha = true
      · rw [if_pos hletter, if_pos hletter, hrest, Option.map_some]
      rw [if_neg hletter, if_neg hletter]
      by_cases hstart : isNumberStart c = true
      · have hnumber := hnext _ _ (scanNumber_append (c :: rest)) (scanNumber_ne_nil hstart)
        rw [if_pos hstart, dif_pos hstart, scanEnd_bytes, slice?_scanNumber,
          Option.bind_some, hnumber, length_bytes_scanNumber]
        dsimp only
        cases Written.read? (α := α) (scanNumber (c :: rest)).1 with
        | none => rfl
        | some value => rfl
      · rw [if_neg hstart, dif_neg hstart]
        exact map_splitAt?_fault before rest c
    · exact tokensAt?_of_high (Nat.le_of_not_lt hc) before rest

/-- The commands of path data, read byte by byte. -/
def commandsOfBytes? (text : List Char) : Option (Except Fault (List (Command α))) :=
  (tokensAt? text 0).map (Except.map fun tokens => (group tokens).2)

theorem commandsOfBytes?_eq (text : List Char) :
    commandsOfBytes? text = some (commands text : Except Fault (List (Command α))) := by
  have htokens : tokensAt? text 0 = some (tokensFrom 0 text : Except Fault (List (Token α))) :=
    tokensAt?_eq [] text
  rw [commandsOfBytes?, htokens]
  rfl

end Kerf.Path
