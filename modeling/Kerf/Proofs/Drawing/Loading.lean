import Kerf.Drawing.Reading
import Kerf.Proofs.Files.Store

/-!
# Why there is no drawing

A drawing can be asked for in three forms, as a text, as bytes and as a file, and each
form can also be asked whether it is one. The two questions are answered alike, and where
there is no drawing the error names the one cause.

- `readText_eq_error_iff`, `readBytes_eq_error_iff`: the causes of the first two forms.
  Bytes are read if they are the encoding of a text, and it is the text that is a drawing
  or not.
- `loaded_cases`: the three ways in which a file is loaded, told apart by whether
  something is found at its location and whether that can be read. What can be read is
  found, so they exclude each other (`loaded_eq_error_iff`).
- `isDrawing_and_faults_exact`: the questions and the causes, all together.
- `not_forall_notFound_iff_absent`: a file that is there but may not be found gives the
  same error as one that is not there.
-/

namespace Kerf.Drawing

variable {α : Type} [Written α] {fineness : Fineness}

/-! ## Texts -/

section Texts

variable {text : List Char}

theorem isDrawing_iff_exists_root :
    isDrawing text = true ↔ ∃ root, tree? text = some root ∧ isRoot root = true := by
  unfold isDrawing
  cases tree? text with
  | none => simp
  | some root => simp

theorem readText_eq_ok_iff {outlines : List (Outline α)} :
    readText fineness text = .ok outlines ↔
      ∃ root, tree? text = some root ∧ isRoot root = true ∧
        outlinesIn fineness root.children = outlines := by
  unfold readText
  cases htree : tree? text with
  | none => simp
  | some root => cases hroot : isRoot root <;> simp [hroot]

/-- A text is no drawing if it is not well-formed, or if it is and has another root. -/
theorem readText_eq_error_iff {cause : Error} :
    (readText fineness text : Except Error (List (Outline α))) = .error cause ↔
      (tree? text = none ∧ cause = .malformed) ∨
        ∃ root, tree? text = some root ∧ isRoot root = false ∧ cause = .otherRoot root.tag := by
  unfold readText
  cases tree? text with
  | none => simp [@eq_comm _ cause]
  | some root => cases hroot : isRoot root <;> simp [hroot, @eq_comm _ cause]

theorem isRoot_eq_false_iff {root : Xml.Element} :
    isRoot root = false ↔ root.tag ≠ ['s', 'v', 'g'] := by
  simp [isRoot]

theorem isDrawing_iff_exists_readText :
    isDrawing text = true ↔
      ∃ outlines : List (Outline α), readText fineness text = .ok outlines := by
  rw [isDrawing_iff_exists_root]
  constructor
  · rintro ⟨root, htree, hroot⟩
    exact ⟨_, readText_eq_ok_iff.mpr ⟨root, htree, hroot, rfl⟩⟩
  · rintro ⟨outlines, hread⟩
    obtain ⟨root, htree, hroot, -⟩ := readText_eq_ok_iff.mp hread
    exact ⟨root, htree, hroot⟩

end Texts

/-! ## Bytes -/

section Bytes

variable {bytes : ByteArray}

/-- There is a fault in bytes exactly if they are the encoding of no text. -/
theorem exists_decode_eq_error_iff :
    (∃ fault, Text.decode bytes = .error fault) ↔ ∀ text : String, bytes ≠ text.toUTF8 := by
  constructor
  · rintro ⟨fault, hfault⟩ text hbytes
    rw [Text.decode_eq_ok_iff.mpr hbytes] at hfault
    cases hfault
  · intro hnone
    cases hdecode : Text.decode bytes with
    | ok text => exact absurd (Text.decode_eq_ok_iff.mp hdecode) (hnone text)
    | error fault => exact ⟨fault, rfl⟩

theorem readBytes_toUTF8 (text : String) :
    (readBytes fineness text.toUTF8 : Except Error (List (Outline α))) =
      readText fineness text.toList := by
  rw [readBytes, Text.decode_eq_ok_iff.mpr rfl]

theorem readBytes_of_fault {fault : Text.Fault} (h : Text.decode bytes = .error fault) :
    (readBytes fineness bytes : Except Error (List (Outline α))) =
      .error (.badEncoding fault) := by
  rw [readBytes, h]

theorem readBytes_eq_ok_iff {outlines : List (Outline α)} :
    readBytes fineness bytes = .ok outlines ↔
      ∃ text : String, bytes = text.toUTF8 ∧ readText fineness text.toList = .ok outlines := by
  constructor
  · intro hread
    cases hdecode : Text.decode bytes with
    | error fault =>
      rw [readBytes_of_fault hdecode] at hread
      cases hread
    | ok text =>
      obtain rfl := Text.decode_eq_ok_iff.mp hdecode
      exact ⟨text, rfl, (readBytes_toUTF8 text).symm.trans hread⟩
  · rintro ⟨text, rfl, hread⟩
    rw [readBytes_toUTF8, hread]

/-- Bytes are no drawing if they are the encoding of no text, or of one that is no drawing. -/
theorem readBytes_eq_error_iff {cause : Error} :
    (readBytes fineness bytes : Except Error (List (Outline α))) = .error cause ↔
      (∃ fault, Text.decode bytes = .error fault ∧ cause = .badEncoding fault) ∨
      ∃ text : String, bytes = text.toUTF8 ∧
        ((tree? text.toList = none ∧ cause = .malformed) ∨
          ∃ root, tree? text.toList = some root ∧ isRoot root = false ∧
            cause = .otherRoot root.tag) := by
  simp only [← @readText_eq_error_iff α _ fineness]
  constructor
  · intro hread
    cases hdecode : Text.decode bytes with
    | error fault =>
      rw [readBytes_of_fault hdecode] at hread
      exact .inl ⟨fault, rfl, (Except.error.inj hread).symm⟩
    | ok text =>
      obtain rfl := Text.decode_eq_ok_iff.mp hdecode
      exact .inr ⟨text, rfl, (readBytes_toUTF8 text).symm.trans hread⟩
  · rintro (⟨fault, hfault, rfl⟩ | ⟨text, rfl, hread⟩)
    · exact readBytes_of_fault hfault
    · rw [readBytes_toUTF8, hread]

theorem exists_readBytes_iff :
    (∃ outlines : List (Outline α), readBytes fineness bytes = .ok outlines) ↔
      ∃ text : String, bytes = text.toUTF8 ∧ isDrawing text.toList = true := by
  simp only [readBytes_eq_ok_iff, @isDrawing_iff_exists_readText α _ fineness]
  constructor
  · rintro ⟨outlines, text, hbytes, hread⟩
    exact ⟨text, hbytes, outlines, hread⟩
  · rintro ⟨text, hbytes, outlines, hread⟩
    exact ⟨outlines, text, hbytes, hread⟩

end Bytes

/-! ## Files -/

section Files

variable {store : Store} {location : Location} {bytes : ByteArray}

/-- What can be read is there and may be found. -/
theorem has_and_admits_of_read (h : store.read location = .ok bytes) :
    store.Has location ∧ store.Admits location := by
  unfold Store.read at h
  obtain ⟨found, hlookup, -⟩ := Store.bind_eq_ok_iff.mp h
  exact Store.exists_lookup_iff.mp ⟨found, hlookup⟩

/-- What loading the drawing at a location of a store gives. -/
def loaded (α : Type) [Written α] (fineness : Fineness) (store : Store) (location : Location) :
    Except Error (List (Outline α)) :=
  store.answer (load fineness location)

theorem loaded_of_not_found (h : ¬ (store.Has location ∧ store.Admits location)) :
    loaded α fineness store location = .error (.notFound location) := by
  have hpresent : store.isPresent location = false := by
    rw [Bool.eq_false_iff, Ne, Store.isPresent_iff]
    exact h
  unfold loaded load
  rw [Store.onlyReads_isPresent.answer_bind, Store.answer_isPresent, hpresent]
  rfl

/-- Where something is found, it is read at once. -/
theorem loaded_of_found (h : store.Has location ∧ store.Admits location) :
    (∀ failure, store.read location = .error failure →
      loaded α fineness store location = .error (.unreadable failure)) ∧
    ∀ bytes, store.read location = .ok bytes →
      loaded α fineness store location = readBytes fineness bytes := by
  unfold loaded load
  rw [Store.onlyReads_isPresent.answer_bind, Store.answer_isPresent, Store.isPresent_iff.mpr h,
    if_pos rfl, Store.onlyReads_read.answer_bind, Store.answer_read]
  constructor
  · intro failure hread
    rw [hread]
    rfl
  · intro bytes hread
    rw [hread]
    rfl

theorem loaded_of_read (h : store.read location = .ok bytes) :
    loaded α fineness store location = readBytes fineness bytes :=
  (loaded_of_found (has_and_admits_of_read h)).2 bytes h

/-- A drawing is loaded in one of three ways: nothing is found at the location, what is
found there cannot be read as a file, or it is a file with some bytes. -/
theorem loaded_cases (α : Type) [Written α] (fineness : Fineness) (store : Store)
    (location : Location) :
    (¬ (store.Has location ∧ store.Admits location) ∧
        loaded α fineness store location = .error (.notFound location)) ∨
      ((store.Has location ∧ store.Admits location) ∧
        ∃ failure, store.read location = .error failure ∧
          loaded α fineness store location = .error (.unreadable failure)) ∨
      ∃ bytes, store.read location = .ok bytes ∧
        loaded α fineness store location = readBytes fineness bytes := by
  cases hread : store.read location with
  | ok bytes => exact .inr (.inr ⟨bytes, rfl, loaded_of_read hread⟩)
  | error failure =>
    by_cases hfound : store.Has location ∧ store.Admits location
    · exact .inr (.inl ⟨hfound, failure, rfl, (loaded_of_found hfound).1 failure hread⟩)
    · exact .inl ⟨hfound, loaded_of_not_found hfound⟩

theorem loaded_eq_ok_iff {outlines : List (Outline α)} :
    loaded α fineness store location = .ok outlines ↔
      ∃ bytes, store.read location = .ok bytes ∧ readBytes fineness bytes = .ok outlines := by
  constructor
  · intro h
    obtain ⟨-, hload⟩ | ⟨-, failure, -, hload⟩ | ⟨bytes, hread, hload⟩ :=
      loaded_cases α fineness store location
    · exact nomatch h.symm.trans hload
    · exact nomatch h.symm.trans hload
    · exact ⟨bytes, hread, hload.symm.trans h⟩
  · rintro ⟨bytes, hread, hbytes⟩
    exact (loaded_of_read hread).trans hbytes

theorem exists_loaded_iff :
    (∃ outlines, loaded α fineness store location = .ok outlines) ↔
      ∃ bytes, store.read location = .ok bytes ∧
        ∃ text : String, bytes = text.toUTF8 ∧ isDrawing text.toList = true := by
  simp only [loaded_eq_ok_iff, ← @exists_readBytes_iff α _ fineness]
  constructor
  · rintro ⟨outlines, bytes, hread, hbytes⟩
    exact ⟨bytes, hread, outlines, hbytes⟩
  · rintro ⟨bytes, hread, outlines, hbytes⟩
    exact ⟨outlines, bytes, hread, hbytes⟩

/-- A file is a drawing exactly if its bytes are the encoding of one. -/
theorem answer_isDrawingFile_iff :
    store.answer (isDrawingFile location) = true ↔
      ∃ bytes, store.read location = .ok bytes ∧
        ∃ text : String, bytes = text.toUTF8 ∧ isDrawing text.toList = true := by
  unfold isDrawingFile
  rw [Store.onlyReads_read.answer_bind, Store.answer_read]
  cases store.read location with
  | error failure => exact iff_of_false nofun fun ⟨_, h, _⟩ => nomatch h
  | ok bytes =>
    dsimp only
    cases hdecode : Text.decode bytes with
    | error fault =>
      refine iff_of_false nofun ?_
      rintro ⟨_, ⟨⟩, text, hbytes, -⟩
      exact exists_decode_eq_error_iff.mp ⟨fault, hdecode⟩ text hbytes
    | ok text =>
      constructor
      · intro h
        exact ⟨bytes, rfl, text, Text.decode_eq_ok_iff.mp hdecode, h⟩
      · rintro ⟨_, ⟨⟩, other, hbytes, h⟩
        -- bytes are the encoding of one text only
        obtain rfl := Except.ok.inj (hdecode.symm.trans (Text.decode_eq_ok_iff.mpr hbytes))
        exact h

/-! ## Causes -/

/-- Each of the three ways has its own causes why there is no drawing. -/
theorem loaded_eq_error_iff {cause : Error} :
    loaded α fineness store location = .error cause ↔
      (¬ (store.Has location ∧ store.Admits location) ∧ cause = .notFound location) ∨
      ((store.Has location ∧ store.Admits location) ∧
        ∃ failure, store.read location = .error failure ∧ cause = .unreadable failure) ∨
      ∃ bytes, store.read location = .ok bytes ∧
        (readBytes fineness bytes : Except Error (List (Outline α))) = .error cause := by
  constructor
  · intro h
    obtain ⟨hfound, hload⟩ | ⟨hfound, failure, hread, hload⟩ | ⟨bytes, hread, hload⟩ :=
      loaded_cases α fineness store location
    · exact .inl ⟨hfound, Except.error.inj (h.symm.trans hload)⟩
    · exact .inr (.inl ⟨hfound, failure, hread, Except.error.inj (h.symm.trans hload)⟩)
    · exact .inr (.inr ⟨bytes, hread, hload.symm.trans h⟩)
  · rintro (⟨hfound, rfl⟩ | ⟨hfound, failure, hread, rfl⟩ | ⟨bytes, hread, hbytes⟩)
    · exact loaded_of_not_found hfound
    · exact (loaded_of_found hfound).1 failure hread
    · exact (loaded_of_read hread).trans hbytes

theorem loaded_eq_notFound_iff {named : Location} :
    loaded α fineness store location = .error (.notFound named) ↔
      named = location ∧ (¬ store.Has location ∨ ¬ store.Admits location) := by
  rw [← not_and_or]
  simp [loaded_eq_error_iff, readBytes_eq_error_iff, and_comm]

theorem loaded_eq_unreadable_iff {failure : FileError} :
    loaded α fineness store location = .error (.unreadable failure) ↔
      store.Has location ∧ store.Admits location ∧ store.read location = .error failure := by
  simp [loaded_eq_error_iff, readBytes_eq_error_iff, and_assoc]

theorem loaded_eq_badEncoding_iff {fault : Text.Fault} :
    loaded α fineness store location = .error (.badEncoding fault) ↔
      ∃ bytes, store.read location = .ok bytes ∧ Text.decode bytes = .error fault := by
  simp [loaded_eq_error_iff, readBytes_eq_error_iff]

theorem loaded_eq_malformed_iff :
    loaded α fineness store location = .error .malformed ↔
      ∃ text : String, store.read location = .ok text.toUTF8 ∧ tree? text.toList = none := by
  simp only [loaded_eq_error_iff, readBytes_eq_error_iff, reduceCtorEq, and_false, and_true,
    exists_false, false_or, or_false]
  constructor
  · rintro ⟨_, hread, text, rfl, hnone⟩
    exact ⟨text, hread, hnone⟩
  · rintro ⟨text, hread, hnone⟩
    exact ⟨_, hread, text, rfl, hnone⟩

theorem loaded_eq_otherRoot_iff {tag : List Char} :
    loaded α fineness store location = .error (.otherRoot tag) ↔
      ∃ (text : String) (root : Xml.Element), store.read location = .ok text.toUTF8 ∧
        tree? text.toList = some root ∧ root.tag ≠ ['s', 'v', 'g'] ∧ tag = root.tag := by
  simp only [loaded_eq_error_iff, readBytes_eq_error_iff, isRoot_eq_false_iff,
    Error.otherRoot.injEq, reduceCtorEq, and_false, exists_false, false_or]
  constructor
  · rintro ⟨_, hread, text, rfl, root, htree, hroot, htag⟩
    exact ⟨text, root, hread, htree, hroot, htag⟩
  · rintro ⟨text, root, hread, htree, hroot, htag⟩
    exact ⟨_, hread, text, rfl, root, htree, hroot, htag⟩

end Files

/-- **Drawings and the causes why there is none**: a text, some bytes or a file is a
drawing exactly if it is read as one. Bytes have to be the encoding of a text that is a
drawing, and a file has to have such bytes. If it is not loaded, nothing is at its
location or it may not be followed to its end, or what is found there cannot be read as a
file, or its bytes are the encoding of no text, or its text without a byte order mark is
not well-formed, or is well-formed with another root. The error names which it is, and the
root, but for the first two, which it does not tell apart. -/
theorem isDrawing_and_faults_exact (fineness : Fineness) :
    (∀ text : List Char, isDrawing text = true ↔
      ∃ outlines : List (Outline α), readText fineness text = .ok outlines) ∧
    (∀ bytes : ByteArray,
      (∃ outlines : List (Outline α), readBytes fineness bytes = .ok outlines) ↔
      ∃ text : String, bytes = text.toUTF8 ∧ isDrawing text.toList = true) ∧
    ∀ (store : Store) (location : Location),
      (store.answer (isDrawingFile location) = true ↔
        ∃ outlines, loaded α fineness store location = .ok outlines) ∧
      (∀ named, loaded α fineness store location = .error (.notFound named) ↔
        named = location ∧ (¬ store.Has location ∨ ¬ store.Admits location)) ∧
      (∀ failure, loaded α fineness store location = .error (.unreadable failure) ↔
        store.Has location ∧ store.Admits location ∧ store.read location = .error failure) ∧
      ((∃ fault, loaded α fineness store location = .error (.badEncoding fault)) ↔
        ∃ bytes, store.read location = .ok bytes ∧ ∀ text : String, bytes ≠ text.toUTF8) ∧
      (loaded α fineness store location = .error .malformed ↔
        ∃ text : String, store.read location = .ok text.toUTF8 ∧
          Xml.read? (Xml.dropByteOrderMark text.toList) = none) ∧
      ∀ tag, loaded α fineness store location = .error (.otherRoot tag) ↔
        ∃ (text : String) (root : Xml.Element), store.read location = .ok text.toUTF8 ∧
          Xml.read? (Xml.dropByteOrderMark text.toList) = some root ∧
          root.tag ≠ ['s', 'v', 'g'] ∧ tag = root.tag := by
  refine ⟨fun text => isDrawing_iff_exists_readText, fun bytes => exists_readBytes_iff,
    fun store location => ⟨?_, fun named => loaded_eq_notFound_iff,
      fun failure => loaded_eq_unreadable_iff, ?_, loaded_eq_malformed_iff,
      fun tag => loaded_eq_otherRoot_iff⟩⟩
  · rw [answer_isDrawingFile_iff, exists_loaded_iff]
  · -- which fault it is does not matter
    simp only [loaded_eq_badEncoding_iff, ← exists_decode_eq_error_iff]
    constructor
    · rintro ⟨fault, bytes, hread, hfault⟩
      exact ⟨bytes, hread, fault, hfault⟩
    · rintro ⟨bytes, hread, fault, hfault⟩
      exact ⟨fault, bytes, hread, hfault⟩

/-- A drawing in a directory that may not be searched is there, but it is said not to be
found. -/
theorem not_forall_notFound_iff_absent :
    ¬ ∀ (store : Store) (location : Location),
      loaded Float .default store location = .error (.notFound location) ↔
        ¬ store.Has location := by
  intro h
  let box : Place := ["box".toList]
  let drawing : Place := ["box".toList, "a.svg".toList]
  let store : Store :=
    { workingDirectory := []
      entries := [(box, .directory), (drawing, .file "<svg/>".toUTF8)]
      refusals := { searching := fun place _ => if place = box then some .denied else none } }
  let location : Location := "box/a.svg".toList
  -- refusals aside, the location leads to the file
  have hhas : store.Has location := ⟨(drawing, .file "<svg/>".toUTF8), by decide +kernel⟩
  -- but what is in the box is not found by its name
  have hadmits : ¬ store.Admits location := by
    intro hadmits
    have hsearching := hadmits.searching (box, "a.svg".toList) (by decide +kernel)
    cases hsearching
  exact (h store location).mp (loaded_eq_notFound_iff.mpr ⟨rfl, .inr hadmits⟩) hhas

end Kerf.Drawing
