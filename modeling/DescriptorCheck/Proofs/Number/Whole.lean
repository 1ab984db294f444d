import DescriptorCheck.Value.Number
import Mathlib.Algebra.Order.Ring.Nat

set_option autoImplicit false

namespace DescriptorCheck.Number

theorem le_scaleOf {whole k : Nat} (large : 2 ^ (52 + k) ≤ whole) : k ≤ scaleOf whole := by
  have nonzero : whole ≠ 0 := by
    have := Nat.two_pow_pos (52 + k)
    omega
  have exponent := (Nat.le_log2 nonzero).2 large
  unfold scaleOf
  omega

theorem scaleOf_lt {whole k : Nat} (small : whole < 2 ^ (52 + k)) (positive : 0 < k) :
    scaleOf whole < k := by
  by_cases zero : whole = 0
  · subst zero
    exact positive
  · have exponent := (Nat.log2_lt zero).2 small
    unfold scaleOf
    omega

namespace Magnitude

-- The exponent is a variable so that no step evaluates the power.
theorem unit_eq {bits : Nat} (exponent : bits = 1074) : unit = 2 ^ bits := by
  rw [unit, ← exponent, Nat.one_shiftLeft]

theorem unit_pos : 0 < unit := by
  obtain ⟨bits, exponent⟩ : ∃ bits, bits = 1074 := ⟨_, rfl⟩
  rw [unit_eq exponent]
  exact Nat.two_pow_pos bits

theorem le_scale_of_ofRounded? {rounded scale : Nat} (le : rounded ≤ 2 * leastFull)
    (full : scale = 0 ∨ leastFull ≤ rounded) {x : Magnitude}
    (done : ofRounded? rounded scale le full = some x) : scale ≤ x.scale := by
  unfold ofRounded? at done
  split at done
  · split at done
    · cases done
      exact Nat.le_succ scale
    · cases done
  · split at done
    · cases done
      exact Nat.le_refl scale
    · cases done

theorem exists_ofRounded? {rounded scale : Nat} (le : rounded ≤ 2 * leastFull)
    (full : scale = 0 ∨ leastFull ≤ rounded) (small : scale < 2045) :
    ∃ x, ofRounded? rounded scale le full = some x := by
  unfold ofRounded?
  split
  · exact ⟨_, dif_pos (by omega)⟩
  · exact ⟨_, dif_pos (by omega)⟩

/-- A ratio of `2 ^ k` or more is rounded to a magnitude of that many bits before the point. -/
theorem le_scale_of_ofRatio? {num den k : Nat} {x : Magnitude} (positive : 0 < den)
    (large : den * 2 ^ k ≤ num) (rounded : ofRatio? num den = some x) : 1022 + k ≤ x.scale := by
  refine Nat.le_trans (le_scaleOf ?_) (le_scale_of_ofRounded? (roundDiv_scaleOf_le _ _)
    (scaleOf_eq_zero_or_le_roundDiv _ _) rounded)
  obtain ⟨bits, exponent⟩ : ∃ bits, bits = 1074 := ⟨_, rfl⟩
  rw [Nat.le_div_iff_mul_le positive, unit_eq exponent]
  calc 2 ^ (52 + (1022 + k)) * den = den * 2 ^ k * 2 ^ bits := by
        rw [show 52 + (1022 + k) = k + bits by omega, Nat.pow_add]
        ac_rfl
    _ ≤ num * 2 ^ bits := Nat.mul_le_mul_right _ large

theorem exists_ofRatio? {num den k : Nat} (small : num < den * 2 ^ k) (fits : k < 1023) :
    ∃ x, ofRatio? num den = some x := by
  have scale : scaleOf (num * unit / den) < 1022 + k + 1 := by
    obtain ⟨bits, exponent⟩ : ∃ bits, bits = 1074 := ⟨_, rfl⟩
    refine Nat.lt_succ_of_lt (scaleOf_lt (Nat.div_lt_of_lt_mul ?_) (by omega))
    rw [unit_eq exponent]
    calc num * 2 ^ bits < den * 2 ^ k * 2 ^ bits :=
          Nat.mul_lt_mul_of_pos_right small (Nat.two_pow_pos bits)
      _ = den * 2 ^ (52 + (1022 + k)) := by
          rw [Nat.mul_assoc, ← Nat.pow_add, show k + bits = 52 + (1022 + k) by omega]
  exact exists_ofRounded? (roundDiv_scaleOf_le _ _) (scaleOf_eq_zero_or_le_roundDiv _ _)
    (by omega)

theorem le_scaled {x : Magnitude} {k : Nat} (scale : 1022 + k ≤ x.scale) :
    2 ^ k * unit ≤ x.scaled := by
  have full : 2 ^ 52 ≤ x.significand := x.full.resolve_left (by omega)
  obtain ⟨bits, exponent⟩ : ∃ bits, bits = 1074 := ⟨_, rfl⟩
  rw [scaled, Nat.shiftLeft_eq, unit_eq exponent]
  calc 2 ^ k * 2 ^ bits = 2 ^ 52 * 2 ^ (1022 + k) := by
        rw [← Nat.pow_add, ← Nat.pow_add, show k + bits = 52 + (1022 + k) by omega]
    _ ≤ x.significand * 2 ^ x.scale :=
      Nat.mul_le_mul full (Nat.pow_le_pow_right (by decide) scale)

theorem isWhole_of_le_scale {x : Magnitude} (scale : 1074 ≤ x.scale) : x.isWhole = true := by
  obtain ⟨bits, exponent⟩ : ∃ bits, bits = 1074 := ⟨_, rfl⟩
  have divides : unit ∣ x.scaled := by
    rw [scaled, Nat.shiftLeft_eq, unit_eq exponent]
    exact Nat.dvd_mul_left_of_dvd (Nat.pow_dvd_pow 2 (exponent ▸ scale)) x.significand
  rw [isWhole, beq_iff_eq]
  exact Nat.mod_eq_zero_of_dvd divides

theorem isWhole_of_ofRatio? {num den : Nat} {x : Magnitude} (positive : 0 < den)
    (large : den * 2 ^ 52 ≤ num) (rounded : ofRatio? num den = some x) : x.isWhole = true :=
  isWhole_of_le_scale (le_scale_of_ofRatio? positive large rounded)

end Magnitude

namespace Binary64

theorem display_of_isWhole {x : Magnitude} (whole : x.isWhole = true) (negative : Bool) :
    (finite negative x).display =
      (if negative then "-" else "") ++ naturalText x.floor ++ ".0" := by
  unfold display
  cases negative <;> simp [whole, String.append_assoc]

theorem ofRatio_of_ofRatio? {num den : Nat} {x : Magnitude}
    (rounded : Magnitude.ofRatio? num den = some x) (negative : Bool) :
    ofRatio negative num den = .finite negative x := by
  -- Unfolded at its arguments, the kernel would compute with the unit of magnitudes.
  generalize unfolded : ofRatio = round
  delta ofRatio at unfolded
  subst unfolded
  dsimp only
  rw [rounded]

/-- A whole number of 53 bits or more that does not lie beyond all floats becomes a float
that is whole as well. -/
theorem exists_ofInt {i : Int} {k : Nat} (large : 2 ^ 52 ≤ i.natAbs) (small : i.natAbs < 2 ^ k)
    (fits : k < 1023) :
    ∃ x : Magnitude, ofInt i = .finite (decide (i < 0)) x ∧ x.isWhole = true := by
  rw [← Nat.one_mul (2 ^ k)] at small
  rw [← Nat.one_mul (2 ^ 52)] at large
  obtain ⟨x, rounded⟩ := Magnitude.exists_ofRatio? small fits
  have whole := Magnitude.isWhole_of_ofRatio? Nat.one_pos large rounded
  have finite : ofInt i = .finite (decide (i < 0)) x := ofRatio_of_ofRatio? rounded _
  exact ⟨x, finite, whole⟩

end Binary64

end DescriptorCheck.Number
