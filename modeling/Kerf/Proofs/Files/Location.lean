import Kerf.Files.Location
import Kerf.Proofs.Text.Spacing

/-!
# The directory that a location lies in

The location of the directory above is the location cut off at a slash
(`parent?_eq_some_iff`), so its components are the first ones of the location, and
something is left to follow from there on (`exists_steps_of_parent?`).
-/

namespace Kerf.Location

variable {location parent : Location}

/-- Only slashes and single points behind slashes are left out, so what is left out ends,
read from the end of the location, with a slash. -/
theorem trimmed_cases (path : List Char) :
    trimmed path = path ∨ ∃ dropped, path = dropped ++ '/' :: trimmed path := by
  fun_induction trimmed path with
  | case1 rest ih =>
    obtain hsame | ⟨dropped, hrest⟩ := ih
    · exact .inr ⟨[], by rw [hsame, List.nil_append]⟩
    · exact .inr ⟨'/' :: dropped, by rw [List.cons_append, ← hrest]⟩
  | case2 rest ih =>
    obtain hsame | ⟨dropped, hrest⟩ := ih
    · exact .inr ⟨['.'], by rw [hsame]; rfl⟩
    · exact .inr ⟨'.' :: '/' :: dropped, by rw [List.cons_append, List.cons_append, ← hrest]⟩
  | case3 => exact .inl rfl

theorem ne_of_mem_head?_trimmed {path : List Char} {c : Char} (h : c ∈ (trimmed path).head?) :
    c ≠ '/' := by
  fun_induction trimmed path with
  | case1 rest ih => exact ih h
  | case2 rest ih => exact ih h
  | case3 path hslash =>
    rintro rfl
    obtain ⟨rest, rfl⟩ := List.head?_eq_some_iff.mp h
    exact hslash rest rfl

/-- The location of the directory above is what stands in front of a slash, or the root,
or nothing. What it is cut off from is not made of slashes alone. -/
theorem exists_of_parent? (h : parent? location = some parent) :
    ∃ above more : Location, (location = above ++ '/' :: more ∨ above = [] ∧ location = more) ∧
      (∃ c ∈ more, c ≠ '/') ∧
      parent = if above.isEmpty && location.isAbsolute then ['/'] else above := by
  unfold parent? at h
  -- the location is looked at from its end, where slashes do not count
  obtain ⟨dropped, hdropped⟩ : ∃ dropped, location.reverse =
    dropped ++ trimmed location.reverse := by
    obtain hsame | ⟨dropped, hdropped⟩ := trimmed_cases location.reverse
    · exact ⟨[], hsame.symm⟩
    · exact ⟨dropped ++ ['/'], by rw [List.append_assoc]; exact hdropped⟩
  have hhead := @ne_of_mem_head?_trimmed location.reverse
  generalize trimmed location.reverse = path at h hdropped hhead
  dsimp only at h
  cases path with
  | nil => cases h
  | cons c path =>
    rw [List.isEmpty_cons, if_neg Bool.false_ne_true, Option.some.injEq] at h
    have hc : c ≠ '/' := hhead rfl
    have hmem : c ∈ location := by
      rw [← List.mem_reverse, hdropped]
      exact List.mem_append_right _ List.mem_cons_self
    -- the last component, and what stands in front of it
    have hlast : (c :: path).takeWhile (fun d => d != '/') =
      c :: path.takeWhile fun d => d != '/' :=
      List.takeWhile_cons_of_pos (by simpa using hc)
    have hslash : ∀ d ∈ ((c :: path).dropWhile fun d => d != '/').head?, d = '/' := by
      intro d hd
      simpa using Text.not_of_mem_head?_dropWhile d hd
    rw [← List.takeWhile_append_dropWhile (p := fun d => d != '/') (l := c :: path),
      hlast] at hdropped
    generalize (c :: path).dropWhile (fun d => d != '/') = front at h hdropped hslash
    obtain hsame | ⟨gap, hgap⟩ := trimmed_cases front
    · -- no slash is left, so nothing stands in front of it
      have hfront : front = [] := by
        cases front with
        | nil => rfl
        | cons d front =>
          have hd : d ∈ (trimmed (d :: front)).head? := by rw [hsame]; rfl
          exact absurd (hslash d rfl) (ne_of_mem_head?_trimmed hd)
      subst hfront
      exact ⟨[], location, .inr ⟨rfl, rfl⟩, ⟨c, hmem, hc⟩, h.symm⟩
    -- the directory is in front of the slash and of what else does not count
    · generalize trimmed front = rest at h hgap
      subst hgap
      have hlocation : location = rest.reverse ++ '/' ::
          (dropped ++ (c :: path.takeWhile fun d => d != '/') ++ gap).reverse := by
        rw [← List.reverse_reverse location, hdropped]
        simp
      exact ⟨rest.reverse, _, .inl hlocation, ⟨c, by simp, hc⟩, h.symm⟩

/-- A location is followed through the directory that it lies in, and then further. -/
theorem exists_steps_of_parent? (h : parent? location = some parent) (hne : parent ≠ []) :
    parent.isAbsolute = location.isAbsolute ∧
      ∃ rest, rest ≠ [] ∧ location.steps = parent.steps ++ rest := by
  obtain ⟨above, more, hlocation, ⟨c, hmem, hc⟩, rfl⟩ := exists_of_parent? h
  have hmore : more.steps ≠ [] := Text.words_ne_nil hmem (beq_eq_false_iff_ne.mpr hc)
  have hsteps : location.steps = above.steps ++ more.steps := by
    obtain rfl | ⟨rfl, rfl⟩ := hlocation
    · exact Text.words_append_cons rfl above more
    · rfl
  cases above with
  | nil =>
    -- what is not empty then is the root
    cases habsolute : location.isAbsolute with
    | false => rw [habsolute] at hne; exact absurd rfl hne
    | true => exact ⟨rfl, more.steps, hmore, hsteps⟩
  | cons d above =>
    obtain rfl | ⟨hnil, -⟩ := hlocation
    · exact ⟨rfl, more.steps, hmore, hsteps⟩
    · cases hnil

end Kerf.Location
