import DescriptorCheck.Proofs.Number.Decimals
import DescriptorCheck.Proofs.Number.Rounding
import DescriptorCheck.Text.Affix

set_option autoImplicit false

namespace DescriptorCheck.Number

namespace Decimal

variable {d : Decimal} {k : Nat}

theorem pow_mul_den_le (positive : 0 < d.digits) (large : (k : Int) < d.pointAt) :
    10 ^ k * d.den ≤ d.num := by
  have first : 10 ^ (d.digitChars.length - 1) ≤ d.digits := pow_length_le positive
  unfold pointAt at large
  calc 10 ^ k * d.den = 10 ^ (k + (-d.exponent).toNat) := (Nat.pow_add 10 _ _).symm
    _ ≤ 10 ^ (d.digitChars.length - 1 + d.exponent.toNat) :=
      Nat.pow_le_pow_right (by decide) (by omega)
    _ = 10 ^ (d.digitChars.length - 1) * 10 ^ d.exponent.toNat := Nat.pow_add 10 _ _
    _ ≤ d.num := Nat.mul_le_mul_right _ first

theorem num_mul_pow_lt (small : d.pointAt ≤ -k) : d.num * 10 ^ k < d.den := by
  have digits : d.digits < 10 ^ d.digitChars.length := lt_pow_length d.digits
  unfold pointAt at small
  calc d.num * 10 ^ k = d.digits * 10 ^ (d.exponent.toNat + k) := by
        rw [Nat.pow_add, ← Nat.mul_assoc]
        rfl
    _ < 10 ^ d.digitChars.length * 10 ^ (d.exponent.toNat + k) :=
      Nat.mul_lt_mul_of_pos_right digits (Nat.pow_pos (by decide))
    _ = 10 ^ (d.digitChars.length + (d.exponent.toNat + k)) := (Nat.pow_add 10 _ _).symm
    _ ≤ 10 ^ (-d.exponent).toNat := Nat.pow_le_pow_right (by decide) (by omega)

end Decimal

namespace Magnitude

variable {x : Magnitude} {d : Decimal}

theorem isReadFrom_iff (x : Magnitude) (d : Decimal) :
    x.isReadFrom d = true ↔ x.Covers d.num d.den := by
  have point : 4 * unit * d.digits * Nat.pow 10 d.exponent.toNat = 4 * (d.num * unit) := by
    unfold Decimal.num
    ring
  unfold isReadFrom
  simp only [point]
  change (if _ then decide (x.lowest * d.den ≤ _) && decide (_ ≤ x.highest * d.den)
    else decide (x.lowest * d.den < _) && decide (_ < x.highest * d.den)) = true ↔ _
  split <;> rename_i parity <;> simp only [Bool.and_eq_true, decide_eq_true_eq]
  · exact ⟨fun both => ⟨both.1, both.2, fun odd => by omega⟩,
      fun covers => ⟨covers.low, covers.high⟩⟩
  · constructor
    · intro both
      exact ⟨Nat.le_of_lt both.1, Nat.le_of_lt both.2,
        fun _ => ⟨Nat.ne_of_lt both.1, Nat.ne_of_lt both.2⟩⟩
    · intro covers
      have apart := covers.odd (by omega)
      exact ⟨Nat.lt_of_le_of_ne covers.low apart.1, Nat.lt_of_le_of_ne covers.high apart.2⟩

theorem isReadFrom_of_onGrid? {tie : Tie} {exponent : Int}
    (found : x.onGrid? tie exponent = some d) : x.isReadFrom d = true := by
  unfold onGrid? at found
  simp only at found
  generalize x.scaled * Nat.pow 10 (-exponent).toNat / (unit * Nat.pow 10 exponent.toNat) = point
    at found
  split at found
  · rename_i both
    obtain ⟨below, above⟩ := Bool.and_eq_true_iff.1 both
    have either (takesBelow : Bool) :
        x.isReadFrom ⟨if takesBelow then point else point + 1, exponent⟩ = true := by
      cases takesBelow
      · exact above
      · exact (Bool.and_eq_true_iff.1 below).2
    cases found
    exact either _
  · split at found
    · rename_i below
      cases found
      exact (Bool.and_eq_true_iff.1 below).2
    · split at found
      · rename_i above
        cases found
        exact above
      · contradiction

theorem isReadFrom_of_onGrids? {tie : Tie} {count : Nat} {exponent : Int}
    (found : x.onGrids? tie count exponent = some d) : x.isReadFrom d = true := by
  induction count generalizing exponent with
  | zero => contradiction
  | succ count ih =>
    unfold onGrids? at found
    split at found
    · rename_i first
      cases found
      exact isReadFrom_of_onGrid? first
    · exact ih found

theorem covers_exactDecimal (x : Magnitude) :
    x.Covers x.exactDecimal.num x.exactDecimal.den := by
  obtain ⟨bits, exponent⟩ : ∃ bits, bits = 1074 := ⟨_, rfl⟩
  have num : x.exactDecimal.num = x.scaled * 5 ^ bits := by
    simp only [exactDecimal, Decimal.num, ← exponent]
    exact Nat.mul_one _
  have den : x.exactDecimal.den = 10 ^ bits := by
    have places : (-x.exactDecimal.exponent).toNat = bits := exponent.symm
    rw [Decimal.den, places]
    rfl
  refine covers_of_eq (Decimal.den_pos _) ?_
  rw [num, den, unit_eq exponent, Nat.mul_assoc, ← Nat.mul_pow]

theorem covers_shortest (tie : Tie) (x : Magnitude) :
    x.Covers (x.shortest tie).num (x.shortest tie).den := by
  unfold shortest
  simp only
  generalize (Nat.toDigits 10 x.floor).length = start
  cases found : x.onGrids? tie (start + 400) start with
  | none => exact x.covers_exactDecimal
  | some d => exact (x.isReadFrom_iff d).1 (isReadFrom_of_onGrids? found)

theorem two_le_lowest (nonzero : x.significand ≠ 0) : 2 ≤ x.lowest := by
  have gap := x.gapBelow_mul 1
  have value := Nat.mul_le_mul_right (2 ^ x.scale) (Nat.pos_of_ne_zero nonzero)
  have step := Nat.two_pow_pos x.scale
  unfold lowest scaled
  simp only [Nat.shiftLeft_eq, Nat.one_mul, Nat.mul_one] at gap value ⊢
  split at gap <;> omega

theorem eq_zero_of_significand (none : x.significand = 0) : x = zero := by
  have bits : leastFull ≠ 0 := by decide
  have least : x.scale = 0 := by
    have full := x.full
    omega
  obtain ⟨significand, scale, _, _, _⟩ := x
  subst none least
  rfl

theorem highest_le {top : Nat} (scale : x.scale ≤ top) :
    x.highest ≤ 8 * leastFull * 2 ^ top := by
  have significand := x.significand_lt
  calc x.highest = (4 * x.significand + 2) * 2 ^ x.scale := by
        simp only [highest, scaled, Nat.shiftLeft_eq]
        ring
    _ ≤ 8 * leastFull * 2 ^ top :=
      Nat.mul_le_mul (by omega) (Nat.pow_le_pow_right (by decide) scale)

variable (covers : x.Covers d.num d.den)

include covers

theorem Covers.pointAt_le (positive : 0 < d.digits) : d.pointAt ≤ 310 := by
  -- The exponents are variables so that no step evaluates the powers.
  obtain ⟨k, limit⟩ : ∃ k, k = 310 := ⟨_, rfl⟩
  obtain ⟨top, most⟩ : ∃ top, top = 2045 := ⟨_, rfl⟩
  have beyond : 8 * leastFull * 2 ^ top < 4 * (10 ^ k * unit) := by
    subst limit most
    decide +kernel
  by_contra huge
  have large := Decimal.pow_mul_den_le positive (k := k) (by omega)
  have low : 4 * (10 ^ k * unit) * d.den ≤ x.highest * d.den := by
    calc 4 * (10 ^ k * unit) * d.den = 4 * unit * (10 ^ k * d.den) := by ring
      _ ≤ 4 * unit * d.num := Nat.mul_le_mul_left _ large
      _ = 4 * (d.num * unit) := by ring
      _ ≤ x.highest * d.den := covers.high
  have high := Nat.mul_le_mul_right d.den (highest_le (most ▸ x.scale_le))
  exact Nat.lt_irrefl _ (Nat.lt_of_lt_of_le (Nat.mul_lt_mul_of_pos_right beyond d.den_pos)
    (Nat.le_trans low high))

theorem Covers.eq_zero (tiny : 2 * (d.num * unit) < d.den) : x = zero := by
  refine eq_zero_of_significand (by_contra fun nonzero => ?_)
  have low := Nat.le_trans (Nat.mul_le_mul_right d.den (two_le_lowest nonzero)) covers.low
  omega

theorem Covers.eq_zero_of_pointAt (small : d.pointAt < -330) : x = zero := by
  obtain ⟨k, limit⟩ : ∃ k, k = 330 := ⟨_, rfl⟩
  have units : 2 * unit ≤ 10 ^ k := by
    subst limit
    decide +kernel
  refine covers.eq_zero ?_
  calc 2 * (d.num * unit) = d.num * (2 * unit) := by ring
    _ ≤ d.num * 10 ^ k := Nat.mul_le_mul_left _ units
    _ < d.den := Decimal.num_mul_pow_lt (by omega)

/-- A decimal between the midpoints next to a magnitude is read as that magnitude. -/
theorem Covers.ofDecimal_eq (negative : Bool) :
    Binary64.ofDecimal negative d.digits d.exponent = .finite negative x := by
  have rounded := covers.ofRatio?_eq_some d.den_pos
  unfold Binary64.ofDecimal
  simp only
  split_ifs with none huge tiny up
  · have tiny : 2 * (d.num * unit) < d.den := by
      rw [Decimal.num, none, Nat.zero_mul, Nat.zero_mul]
      exact d.den_pos
    rw [covers.eq_zero tiny, Binary64.zero]
  · exact absurd (covers.pointAt_le (Nat.pos_of_ne_zero none)) (Int.not_le.2 huge)
  · rw [covers.eq_zero_of_pointAt tiny, Binary64.zero]
  · have one : d.den = 1 := by
      rw [Decimal.den, Int.toNat_eq_zero.2 (by omega)]
    rw [one] at rounded
    exact Binary64.ofRatio_of_ofRatio? rounded negative
  · have digits : d.num = d.digits := by
      rw [Decimal.num, Int.toNat_eq_zero.2 (by omega)]
      exact Nat.mul_one _
    rw [digits] at rounded
    exact Binary64.ofRatio_of_ofRatio? rounded negative

omit covers

def decimal (x : Magnitude) : Decimal := if x.isWhole then ⟨x.floor, 0⟩ else x.shortest .up

theorem covers_decimal (x : Magnitude) : x.Covers x.decimal.num x.decimal.den := by
  unfold decimal
  split
  · rename_i whole
    have value : x.floor * unit = x.scaled :=
      Nat.div_mul_cancel (Nat.dvd_of_mod_eq_zero (beq_iff_eq.1 whole))
    have one : (⟨x.floor, 0⟩ : Decimal).num = x.floor := Nat.mul_one _
    refine covers_of_eq (Decimal.den_pos _) ?_
    rw [one, value]
    exact (Nat.mul_one _).symm
  · exact x.covers_shortest .up

theorem covers_pointed (x : Magnitude) :
    x.Covers x.decimal.pointed.decimal.num x.decimal.pointed.decimal.den :=
  x.covers_decimal.congr (Decimal.den_pos _) (Decimal.den_pos _) x.decimal.equals_pointed

theorem fraction_eq_iff (x : Magnitude) :
    x.decimal.pointed.fraction = ['0'] ↔ x.isWhole = true := by
  constructor
  · intro zero
    have natural : x.Covers (naturalOf x.decimal.pointed.whole) 1 := by
      refine x.covers_pointed.congr (Decimal.den_pos _) Nat.one_pos ?_
      rw [Nat.mul_one, Pointed.num_of_fraction zero]
    exact isWhole_of_ofRatio?_one (natural.ofRatio?_eq_some Nat.one_pos)
  · intro whole
    rw [decimal, if_pos whole, Decimal.pointed_natural]
    rfl

end Magnitude

namespace Binary64

theorem toList_display (negative : Bool) (x : Magnitude) :
    (finite negative x).display.toList =
      if negative then '-' :: x.decimal.pointed.chars else x.decimal.pointed.chars := by
  have text : (if x.isWhole then naturalText x.floor ++ ".0" else (x.shortest .up).positional) =
      x.decimal.positional := by
    unfold Magnitude.decimal
    split
    · exact (Decimal.positional_natural _).symm
    · rfl
  rw [← Decimal.toList_positional, display, text]
  cases negative <;> simp

theorem read?_minus (cs : List Char) :
    read? ('-' :: cs) = (Decimal.read? cs).map fun d => ofDecimal true d.digits d.exponent := rfl

theorem read?_digit {c : Char} (digit : c.isDigit = true) (rest : List Char) :
    read? (c :: rest) =
      (Decimal.read? (c :: rest)).map fun d => ofDecimal false d.digits d.exponent := by
  unfold read?
  split
  · rename_i sign
    cases sign
    contradiction
  · rename_i sign
    cases sign
    contradiction
  · rfl

theorem read?_pointed (negative : Bool) (p : Pointed) :
    read? (if negative then '-' :: p.chars else p.chars) =
      some (ofDecimal negative p.decimal.digits p.decimal.exponent) := by
  have reads := p.read?_chars
  cases negative with
  | true => rw [if_pos rfl, read?_minus, reads, Option.map_some]
  | false =>
    obtain ⟨c, rest, chars, digit⟩ := p.exists_chars_eq_cons
    rw [chars] at reads
    rw [if_neg Bool.false_ne_true, chars, read?_digit digit, reads, Option.map_some]

theorem read?_display (negative : Bool) (x : Magnitude) :
    read? (finite negative x).display.toList = some (.finite negative x) := by
  rw [toList_display, read?_pointed, x.covers_pointed.ofDecimal_eq]

theorem read?_display_infinite (negative : Bool) :
    read? (infinite negative).display.toList = none := by
  cases negative <;> rfl

theorem read?_display_nan : read? nan.display.toList = none := rfl

theorem display_infinite_injective {negative negative' : Bool}
    (same : (infinite negative).display = (infinite negative').display) :
    negative = negative' := by
  revert negative negative'
  decide

theorem display_injective : Function.Injective display := by
  intro x y same
  have read : read? x.display.toList = read? y.display.toList := by rw [same]
  cases x with
  | finite negative x =>
    cases y with
    | finite negative' y => simpa only [read?_display, Option.some.injEq] using read
    | infinite _ => simp [read?_display, read?_display_infinite] at read
    | nan => simp [read?_display, read?_display_nan] at read
  | infinite negative =>
    cases y with
    | finite _ y => simp [read?_display, read?_display_infinite] at read
    | infinite negative' => rw [display_infinite_injective same]
    | nan => cases negative <;> contradiction
  | nan =>
    cases y with
    | finite _ y => simp [read?_display, read?_display_nan] at read
    | infinite negative' => cases negative' <;> contradiction
    | nan => rfl

example : (zero true).display = "-0.0" ∧ (zero false).display = "0.0" := by decide

theorem point_mem_display (negative : Bool) (x : Magnitude) :
    '.' ∈ (finite negative x).display.toList := by
  have point : '.' ∈ x.decimal.pointed.chars := List.mem_append_right _ List.mem_cons_self
  rw [toList_display]
  split
  · exact List.mem_cons_of_mem _ point
  · exact point

theorem endsWith_display_iff (negative : Bool) (x : Magnitude) :
    Text.endsWith (finite negative x).display ".0" = true ↔ x.isWhole = true := by
  rw [Text.endsWith, List.isSuffixOf_iff_suffix, toList_display, ← x.fraction_eq_iff]
  cases negative with
  | true => exact x.decimal.pointed.suffix_iff ['-']
  | false => exact x.decimal.pointed.suffix_iff []

end Binary64

end DescriptorCheck.Number
