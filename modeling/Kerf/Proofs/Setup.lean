import Kerf.Setup.Basic

/-!
# Sensible setups

`Setup.check` accepts exactly the setups that are sensible (`Setup.check_eq_ok_iff`):
feeds are positive, all lengths and factors are finite, the scale is not zero, and
coordinates have no more places than are ever written.
-/

namespace Kerf.Setup

variable {α : Type} [Scalar α]

theorem checkFinite_eq_ok_iff {name : String} {value : α} :
    checkFinite name value = .ok () ↔ Scalar.isFinite value = true := by
  unfold checkFinite
  split
  · next h => exact iff_of_true rfl h
  · next h => exact iff_of_false (by rintro ⟨⟩) h

/-- A check that follows another is passed with it. -/
theorem bind_eq_ok_iff {ε : Type} {first second : Except ε Unit} :
    (first >>= fun _ => second) = .ok () ↔ first = .ok () ∧ second = .ok () := by
  cases first with
  | error cause => exact iff_of_false (by rintro ⟨⟩) (by rintro ⟨⟨⟩, _⟩)
  | ok => exact (and_iff_right rfl).symm

theorem checkPositive_eq_ok_iff {name : String} {value : α} :
    checkPositive name value = .ok () ↔ Scalar.isFinite value = true ∧ 0.0 < value := by
  unfold checkPositive
  rw [bind_eq_ok_iff, checkFinite_eq_ok_iff]
  refine and_congr_right fun _ => ?_
  split
  · next h => exact iff_of_true rfl h
  · next h => exact iff_of_false (by rintro ⟨⟩) h

/-- What a setup must be like for a machine to be driven with it. -/
structure IsSensible (setup : Setup α) : Prop where
  cutFeed : Scalar.isFinite setup.cutFeed = true ∧ 0.0 < setup.cutFeed
  rapidFeed : Scalar.isFinite setup.rapidFeed = true ∧ 0.0 < setup.rapidFeed
  safeHeight : Scalar.isFinite setup.safeHeight = true
  workHeight : Scalar.isFinite setup.workHeight = true
  offset : setup.offset.isFinite = true
  scale : Scalar.isFinite setup.scale = true ∧ Scalar.same setup.scale 0.0 = false
  places : setup.places.toNat ≤ maxPlaces

theorem check_eq_ok_iff {setup : Setup α} : setup.check = .ok () ↔ setup.IsSensible := by
  -- the scale and the places are looked at last, and together
  have hlast : (if Scalar.same setup.scale 0.0 then
        .error (.invalid "scale_factor" .zero)
      else if maxPlaces < setup.places.toNat then
        .error (.outOfRange "decimal_places" (setup.places.toNat : α) 0.0
          (some (maxPlaces : α)))
      else .ok () : Except (ParameterError α) Unit) = .ok () ↔
      Scalar.same setup.scale 0.0 = false ∧ setup.places.toNat ≤ maxPlaces := by
    split
    · next hzero => exact iff_of_false (by rintro ⟨⟩) fun h => by simp [hzero] at h
    · next hzero =>
      split
      · next hplaces => exact iff_of_false (by rintro ⟨⟩) fun h => by omega
      · next hplaces => exact iff_of_true rfl ⟨by simpa using hzero, by omega⟩
  -- the other checks come one after the other, each of a number by itself
  unfold check
  simp only [bind_eq_ok_iff, checkPositive_eq_ok_iff, checkFinite_eq_ok_iff, hlast]
  constructor
  · rintro ⟨hcut, hrapid, hsafe, hwork, hx, hy, hfinite, hzero, hplaces⟩
    exact ⟨hcut, hrapid, hsafe, hwork, Bool.and_eq_true_iff.mpr ⟨hx, hy⟩,
      ⟨hfinite, hzero⟩, hplaces⟩
  · rintro ⟨hcut, hrapid, hsafe, hwork, hoffset, ⟨hfinite, hzero⟩, hplaces⟩
    obtain ⟨hx, hy⟩ := Bool.and_eq_true_iff.mp hoffset
    exact ⟨hcut, hrapid, hsafe, hwork, hx, hy, hfinite, hzero, hplaces⟩

/-- The setup that is used where none is asked for passes its check. -/
theorem isSensible_default : (default : Setup Float).IsSensible :=
  check_eq_ok_iff.mp rfl

end Kerf.Setup
