set_option autoImplicit false

/-! A finite number is `significand * 2 ^ scale / 2 ^ 1074` with a sign. Magnitudes have one
canonical form each, so equality of forms is equality of values except that zero keeps its sign.
-/
namespace DescriptorCheck.Number

def leastFull : Nat := 0x10000000000000

/-- Canonical finite magnitudes: 53 bits of significand, all of them in use
unless the scale is the least one. -/
structure Magnitude where
  significand : Nat
  scale : Nat
  significand_lt : significand < 2 * leastFull
  full : scale = 0 ∨ leastFull ≤ significand
  scale_le : scale ≤ 2045
deriving DecidableEq

namespace Magnitude

/-- What a significand and scale are divided by to give the value. -/
def unit : Nat := 1 <<< 1074

def zero : Magnitude := ⟨0, 0, by decide, .inl rfl, by decide⟩

def isZero (x : Magnitude) : Bool := x.significand == 0

def scaled (x : Magnitude) : Nat := x.significand <<< x.scale

def isWhole (x : Magnitude) : Bool := x.scaled % unit == 0

def floor (x : Magnitude) : Nat := x.scaled / unit

end Magnitude

def roundDiv (num den : Nat) : Nat :=
  let below := num / den
  let twice := 2 * (num % den)
  if twice < den then below
  else if den < twice then below + 1
  else below + below % 2

theorem le_roundDiv (num den : Nat) : num / den ≤ roundDiv num den := by
  unfold roundDiv
  simp only
  split
  · exact Nat.le_refl _
  · split <;> omega

theorem roundDiv_le (num den : Nat) : roundDiv num den ≤ num / den + 1 := by
  unfold roundDiv
  simp only
  split
  · omega
  · split <;> omega

def scaleOf (whole : Nat) : Nat := whole.log2 - 52

theorem shiftRight_scaleOf_lt (whole : Nat) : whole >>> scaleOf whole < 2 * leastFull := by
  rw [Nat.shiftRight_eq_div_pow, Nat.div_lt_iff_lt_mul (Nat.two_pow_pos _)]
  have bound : 2 * leastFull = 2 ^ 53 := by decide
  rw [bound, ← Nat.pow_add]
  exact Nat.lt_of_lt_of_le Nat.lt_log2_self
    (Nat.pow_le_pow_right (by decide) (by unfold scaleOf; omega))

theorem le_shiftRight_scaleOf {whole : Nat} (h : scaleOf whole ≠ 0) :
    leastFull ≤ whole >>> scaleOf whole := by
  have large : whole ≠ 0 := by
    intro zero
    subst zero
    exact h (by decide)
  rw [Nat.shiftRight_eq_div_pow, Nat.le_div_iff_mul_le (Nat.two_pow_pos _)]
  have bound : leastFull = 2 ^ 52 := by decide
  rw [bound, ← Nat.pow_add]
  have exponent : 52 + scaleOf whole = whole.log2 := by
    unfold scaleOf at h ⊢
    omega
  rw [exponent]
  exact Nat.log2_self_le large

theorem div_shiftLeft (num den scale : Nat) : num / (den <<< scale) = (num / den) >>> scale := by
  rw [Nat.shiftLeft_eq, Nat.shiftRight_eq_div_pow, Nat.div_div_eq_div_mul]

theorem roundDiv_scaleOf_le (num den : Nat) :
    roundDiv num (den <<< scaleOf (num / den)) ≤ 2 * leastFull := by
  have upper := roundDiv_le num (den <<< scaleOf (num / den))
  rw [div_shiftLeft] at upper
  exact Nat.le_trans upper (shiftRight_scaleOf_lt (num / den))

theorem scaleOf_eq_zero_or_le_roundDiv (num den : Nat) :
    scaleOf (num / den) = 0 ∨ leastFull ≤ roundDiv num (den <<< scaleOf (num / den)) := by
  by_cases h : scaleOf (num / den) = 0
  · exact .inl h
  · have lower := le_roundDiv num (den <<< scaleOf (num / den))
    rw [div_shiftLeft] at lower
    exact .inr (Nat.le_trans (le_shiftRight_scaleOf h) lower)

/-- The magnitude of `rounded * 2 ^ scale` units, where a full carry out of the
53 bits moves to the next scale; none if that lies beyond the largest. -/
def Magnitude.ofRounded? (rounded scale : Nat) (le : rounded ≤ 2 * leastFull)
    (full : scale = 0 ∨ leastFull ≤ rounded) : Option Magnitude :=
  if carry : rounded = 2 * leastFull then
    if fits : scale + 1 ≤ 2045 then
      some ⟨leastFull, scale + 1, by decide, .inr (Nat.le_refl _), fits⟩
    else none
  else
    if fits : scale ≤ 2045 then
      some ⟨rounded, scale, Nat.lt_of_le_of_ne le carry, full, fits⟩
    else none

/-- The magnitude nearest to `num / den`; none if that lies beyond the largest. -/
def Magnitude.ofRatio? (num den : Nat) : Option Magnitude :=
  let units := num * Magnitude.unit
  let scale := scaleOf (units / den)
  Magnitude.ofRounded? (roundDiv units (den <<< scale)) scale
    (roundDiv_scaleOf_le units den) (scaleOf_eq_zero_or_le_roundDiv units den)

inductive Binary64 where
  | finite (negative : Bool) (magnitude : Magnitude)
  | infinite (negative : Bool)
  | nan
deriving DecidableEq

namespace Binary64

def zero (negative : Bool) : Binary64 := .finite negative .zero

def ofRatio (negative : Bool) (num den : Nat) : Binary64 :=
  match Magnitude.ofRatio? num den with
  | some magnitude => .finite negative magnitude
  | none => .infinite negative

def ofInt (i : Int) : Binary64 := ofRatio (decide (i < 0)) i.natAbs 1

/-- The nearest number to `digits * 10 ^ exponent`. An exponent that puts the
value beyond all magnitudes, or below half the least, is cut short. -/
def ofDecimal (negative : Bool) (digits : Nat) (exponent : Int) : Binary64 :=
  let length : Int := (Nat.toDigits 10 digits).length
  if digits = 0 then zero negative
  else if 310 < length + exponent then .infinite negative
  else if length + exponent < -330 then zero negative
  else if 0 ≤ exponent then ofRatio negative (digits * Nat.pow 10 exponent.toNat) 1
  else ofRatio negative digits (Nat.pow 10 (-exponent).toNat)

/-- Comparison of values: zeros of both signs are equal, and `nan` equals nothing. -/
def equal : Binary64 → Binary64 → Bool
  | .finite s x, .finite t y => x == y && (s == t || x.isZero)
  | .infinite s, .infinite t => s == t
  | _, _ => false

theorem equal_nan (x : Binary64) : equal x .nan = false := by
  cases x <;> rfl

theorem equal_self_iff (x : Binary64) : equal x x = true ↔ x ≠ .nan := by
  cases x <;> simp [equal]

end Binary64

end DescriptorCheck.Number
