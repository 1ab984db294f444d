import DescriptorCheck.Proofs.Number.Whole
import Mathlib.Tactic.Ring

set_option autoImplicit false

/-! The ratios that a decimal is tested for before it is written are those that are rounded to
the magnitude it is written for. -/
namespace DescriptorCheck.Number

/-- A ratio within a half of a whole number is rounded to it, and at a half of it if the
number is even. -/
theorem roundDiv_eq {num den m : Nat} (positive : 0 < den)
    (low : 2 * (m * den) ≤ 2 * num + den) (high : 2 * num ≤ 2 * (m * den) + den)
    (odd : m % 2 = 1 → 2 * (m * den) ≠ 2 * num + den ∧ 2 * num ≠ 2 * (m * den) + den) :
    roundDiv num den = m := by
  have parts : den * (num / den) + num % den = num := Nat.div_add_mod num den
  have bound : num % den < den := Nat.mod_lt num positive
  unfold roundDiv
  simp only
  generalize num / den = below at *
  generalize num % den = rest at *
  have least : m ≤ below + 1 := by
    by_contra beyond
    have more : (below + 2) * den ≤ m * den := Nat.mul_le_mul_right den (by omega)
    rw [Nat.add_mul, Nat.mul_comm below] at more
    omega
  have most : below ≤ m := by
    by_contra short
    have more : (m + 1) * den ≤ below * den := Nat.mul_le_mul_right den (by omega)
    rw [Nat.add_mul, Nat.mul_comm below] at more
    omega
  rcases Nat.lt_or_eq_of_le least with within | rfl
  · obtain rfl : m = below := by omega
    rw [Nat.mul_comm m] at low high odd
    split
    · rfl
    · split <;> omega
  · rw [Nat.add_mul, Nat.mul_comm below] at low high odd
    split
    · omega
    · split <;> omega

theorem shiftLeft_pos {den : Nat} (positive : 0 < den) (scale : Nat) : 0 < den <<< scale := by
  rw [Nat.shiftLeft_eq]
  exact Nat.mul_pos positive (Nat.two_pow_pos scale)

/-- The scale of a ratio is the one at which it has 53 bits, or zero if it has less there. -/
theorem scaleOf_div_eq {units den scale : Nat} (positive : 0 < den)
    (full : scale = 0 ∨ leastFull * (den <<< scale) ≤ units)
    (small : units < 2 * leastFull * (den <<< scale)) : scaleOf (units / den) = scale := by
  have bits : leastFull = 2 ^ 52 := rfl
  have most : scaleOf (units / den) < scale + 1 := by
    refine scaleOf_lt (Nat.div_lt_of_lt_mul (Nat.lt_of_lt_of_eq small ?_)) scale.succ_pos
    rw [bits, Nat.shiftLeft_eq, show 52 + (scale + 1) = 53 + scale by omega, Nat.pow_add]
    ring
  have least : scale ≤ scaleOf (units / den) := by
    rcases full with zero | large
    · omega
    · refine le_scaleOf ((Nat.le_div_iff_mul_le positive).2 (Nat.le_trans (Nat.le_of_eq ?_) large))
      rw [bits, Nat.shiftLeft_eq, Nat.pow_add]
      ring
  omega

theorem roundDiv_mul {den : Nat} (positive : 0 < den) (m : Nat) : roundDiv (m * den) den = m :=
  roundDiv_eq positive (by omega) (by omega) (by omega)

namespace Magnitude

/-- The ratio lies between the midpoints next to `x`, and on one only if the significand
is even. -/
structure Covers (x : Magnitude) (num den : Nat) : Prop where
  low : x.lowest * den ≤ 4 * (num * unit)
  high : 4 * (num * unit) ≤ x.highest * den
  odd : x.significand % 2 = 1 →
    x.lowest * den ≠ 4 * (num * unit) ∧ 4 * (num * unit) ≠ x.highest * den

variable {x : Magnitude} {num den : Nat}

theorem gapBelow_mul (x : Magnitude) (den : Nat) :
    x.gapBelow * den =
      if x.significand = leastFull ∧ x.scale ≠ 0 then den <<< x.scale
      else 2 * (den <<< x.scale) := by
  unfold gapBelow
  simp only [Nat.shiftLeft_eq]
  split <;> ring

theorem highest_mul (x : Magnitude) (den : Nat) :
    x.highest * den = 4 * (x.significand * (den <<< x.scale)) + 2 * (den <<< x.scale) := by
  simp only [highest, scaled, Nat.shiftLeft_eq]
  ring

theorem le_lowest_mul (x : Magnitude) (den : Nat) :
    4 * (x.significand * (den <<< x.scale)) ≤ x.lowest * den + x.gapBelow * den := by
  calc 4 * (x.significand * (den <<< x.scale)) = 4 * x.scaled * den := by
        simp only [scaled, Nat.shiftLeft_eq]
        ring
    _ ≤ (x.lowest + x.gapBelow) * den := Nat.mul_le_mul_right den (by unfold lowest; omega)
    _ = x.lowest * den + x.gapBelow * den := Nat.add_mul _ _ _

theorem covers_of_eq (positive : 0 < den) (exact : num * unit = x.scaled * den) :
    x.Covers num den := by
  have up : 4 * x.scaled < x.highest := by
    have := shiftLeft_pos (show 0 < 2 by decide) x.scale
    unfold highest
    omega
  have low : x.lowest ≤ 4 * x.scaled := Nat.sub_le _ _
  refine ⟨?_, ?_, fun odd => ⟨Nat.ne_of_lt ?_, Nat.ne_of_lt ?_⟩⟩
  all_goals rw [exact, ← Nat.mul_assoc]
  · exact Nat.mul_le_mul_right den low
  · exact Nat.mul_le_mul_right den (Nat.le_of_lt up)
  · -- An odd significand is not zero, so there is a way down.
    have down : x.lowest < 4 * x.scaled := by
      have some := shiftLeft_pos (show 0 < x.significand by omega) x.scale
      have gap : 0 < x.gapBelow := by
        unfold gapBelow
        split <;> exact shiftLeft_pos (by decide) _
      unfold lowest scaled
      omega
    exact Nat.mul_lt_mul_of_pos_right down positive
  · exact Nat.mul_lt_mul_of_pos_right up positive

theorem ofRatio?_eq {scale rounded : Nat} (scaled : scaleOf (num * unit / den) = scale)
    (nearest : roundDiv (num * unit) (den <<< scale) = rounded) (le : rounded ≤ 2 * leastFull)
    (full : scale = 0 ∨ leastFull ≤ rounded) :
    ofRatio? num den = ofRounded? rounded scale le full := by
  subst scaled nearest
  rfl

theorem ofRounded?_self (x : Magnitude) (le : x.significand ≤ 2 * leastFull) :
    ofRounded? x.significand x.scale le x.full = some x := by
  unfold ofRounded?
  rw [dif_neg (Nat.ne_of_lt x.significand_lt), dif_pos x.scale_le]

theorem ofRounded?_carry {scale : Nat} (next : x.scale = scale + 1)
    (least : x.significand = leastFull) (full : scale = 0 ∨ leastFull ≤ 2 * leastFull) :
    ofRounded? (2 * leastFull) scale (Nat.le_refl _) full = some x := by
  have fits := x.scale_le
  rw [next] at fits
  unfold ofRounded?
  rw [dif_pos rfl, dif_pos fits]
  obtain ⟨significand, scale', _, _, _⟩ := x
  subst next least
  rfl

namespace Covers

variable (covers : x.Covers num den) (positive : 0 < den)

include covers positive

theorem congr {num' den' : Nat} (positive' : 0 < den') (same : num * den' = num' * den) :
    x.Covers num' den' := by
  have ratio : 4 * (num * unit) * den' = 4 * (num' * unit) * den := by
    calc 4 * (num * unit) * den' = 4 * unit * (num * den') := by ring
      _ = 4 * unit * (num' * den) := by rw [same]
      _ = 4 * (num' * unit) * den := by ring
  have low (ends : Nat) : ends * den ≤ 4 * (num * unit) ↔ ends * den' ≤ 4 * (num' * unit) := by
    rw [← Nat.mul_le_mul_right_iff positive', ratio, Nat.mul_right_comm ends,
      Nat.mul_le_mul_right_iff positive]
  have high (ends : Nat) : 4 * (num * unit) ≤ ends * den ↔ 4 * (num' * unit) ≤ ends * den' := by
    rw [← Nat.mul_le_mul_right_iff positive', ratio, Nat.mul_right_comm ends,
      Nat.mul_le_mul_right_iff positive]
  have apart (ends : Nat) (other : ends * den ≠ 4 * (num * unit)) :
      ends * den' ≠ 4 * (num' * unit) := by
    intro both
    exact other (Nat.le_antisymm ((low ends).2 (Nat.le_of_eq both))
      ((high ends).2 (Nat.le_of_eq both.symm)))
  exact
    { low := (low x.lowest).1 covers.low
      high := (high x.highest).1 covers.high
      odd := fun odd => ⟨apart _ (covers.odd odd).1, (apart _ (covers.odd odd).2.symm).symm⟩ }

/-- The scale is that of the magnitude where the ratio does not lie below its first
significand of 53 bits. -/
theorem ofRatio?_of_full (full : x.scale = 0 ∨ leastFull * (den <<< x.scale) ≤ num * unit) :
    ofRatio? num den = some x := by
  have share := shiftLeft_pos positive x.scale
  have low := covers.low
  have high := covers.high
  have odd := covers.odd
  have upper := x.highest_mul den
  have lower := x.le_lowest_mul den
  have gap : x.gapBelow * den ≤ 2 * (den <<< x.scale) := by
    rw [gapBelow_mul]
    split <;> omega
  have nearest : roundDiv (num * unit) (den <<< x.scale) = x.significand :=
    roundDiv_eq share (by omega) (by omega) (fun one => by have := odd one; omega)
  have significand : x.significand * (den <<< x.scale) ≤
      (2 * leastFull - 1) * (den <<< x.scale) :=
    Nat.mul_le_mul_right _ (Nat.le_sub_one_of_lt x.significand_lt)
  have small : num * unit < 2 * leastFull * (den <<< x.scale) := by
    unfold leastFull at *
    omega
  rw [ofRatio?_eq (scaleOf_div_eq positive full small) nearest (Nat.le_of_lt x.significand_lt)
    x.full, ofRounded?_self]

/-- Below a power of two the ratio has a scale less, and is rounded up to the power. -/
theorem ofRatio?_of_carry {scale : Nat} (next : x.scale = scale + 1)
    (small : num * unit < leastFull * (den <<< x.scale)) : ofRatio? num den = some x := by
  have double : den <<< x.scale = 2 * (den <<< scale) := by
    rw [next]
    simp only [Nat.shiftLeft_eq]
    ring
  have low := covers.low
  have lower := x.le_lowest_mul den
  have full : leastFull ≤ x.significand := x.full.resolve_left (by omega)
  have least : x.significand = leastFull := by
    by_contra other
    rw [gapBelow_mul, if_neg (fun both => other both.1)] at lower
    have more : (leastFull + 1) * (den <<< x.scale) ≤ x.significand * (den <<< x.scale) :=
      Nat.mul_le_mul_right _ (by omega)
    rw [Nat.add_mul] at more
    omega
  have share := shiftLeft_pos positive scale
  rw [gapBelow_mul, if_pos ⟨least, by omega⟩, least, double] at lower
  rw [double, ← Nat.mul_assoc, Nat.mul_comm leastFull] at small
  have reached : leastFull * (den <<< scale) ≤ num * unit := by
    unfold leastFull at *
    omega
  have nearest : roundDiv (num * unit) (den <<< scale) = 2 * leastFull :=
    roundDiv_eq share (by unfold leastFull at *; omega) (by unfold leastFull at *; omega)
      (fun one => by unfold leastFull at one; omega)
  rw [ofRatio?_eq (scaleOf_div_eq positive (.inr reached) small) nearest (Nat.le_refl _)
    (.inr (by omega)), ofRounded?_carry next least]

theorem ofRatio?_eq_some : ofRatio? num den = some x := by
  by_cases full : x.scale = 0 ∨ leastFull * (den <<< x.scale) ≤ num * unit
  · exact covers.ofRatio?_of_full positive full
  · obtain ⟨raised, small⟩ := not_or.1 full
    obtain ⟨scale, next⟩ := Nat.exists_eq_succ_of_ne_zero raised
    exact covers.ofRatio?_of_carry positive next (Nat.lt_of_not_le small)

end Covers

theorem scaled_of_ofRounded? {rounded scale : Nat} (le : rounded ≤ 2 * leastFull)
    (full : scale = 0 ∨ leastFull ≤ rounded) (done : ofRounded? rounded scale le full = some x) :
    x.scaled = rounded <<< scale := by
  unfold ofRounded? at done
  split at done
  · rename_i carry
    split at done
    · cases done
      rw [carry, scaled, Nat.shiftLeft_succ_inside]
    · contradiction
  · split at done
    · cases done
      rfl
    · contradiction

theorem isWhole_of_ofRatio?_one {n : Nat} (rounded : ofRatio? n 1 = some x) :
    x.isWhole = true := by
  by_cases large : 1074 ≤ scaleOf (n * unit / 1)
  · exact isWhole_of_le_scale (Nat.le_trans large (le_scale_of_ofRounded?
      (roundDiv_scaleOf_le _ _) (scaleOf_eq_zero_or_le_roundDiv _ _) rounded))
  · -- No bit behind the point is cut off.
    have exact := scaled_of_ofRounded? (roundDiv_scaleOf_le (n * unit) 1)
      (scaleOf_eq_zero_or_le_roundDiv (n * unit) 1) rounded
    generalize scaleOf (n * unit / 1) = scale at large exact
    obtain ⟨bits, exponent⟩ : ∃ bits, bits = 1074 := ⟨_, rfl⟩
    have units : n * unit = n * 2 ^ (bits - scale) * 2 ^ scale := by
      rw [unit_eq exponent, Nat.mul_assoc, ← Nat.pow_add,
        Nat.sub_add_cancel (exponent ▸ Nat.le_of_not_le large)]
    rw [Nat.one_shiftLeft, units, roundDiv_mul (Nat.two_pow_pos scale), Nat.shiftLeft_eq,
      ← units] at exact
    rw [isWhole, beq_iff_eq, exact]
    exact Nat.mul_mod_left n unit

end Magnitude

end DescriptorCheck.Number
