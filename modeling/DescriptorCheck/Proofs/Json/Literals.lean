import DescriptorCheck.Proofs.Json.Integers
import DescriptorCheck.Proofs.Number.Whole

set_option autoImplicit false

namespace DescriptorCheck

namespace Number

theorem digitValue_lt_ten {c : Char} (digit : c.isDigit = true) : digitValue c < 10 :=
  digitValue?_lt (digitValue?_of_isDigit digit)

theorem digitChar_digitValue {c : Char} (digit : c.isDigit = true) :
    (digitValue c).digitChar = c := by
  have bounds := Char.isDigit_iff_toNat.1 digit
  apply Char.toNat_inj.1
  rw [Nat.toNat_digitChar_of_lt_ten (digitValue_lt_ten digit), digitValue]
  simp only [Char.reduceToNat] at bounds ⊢
  omega

theorem ofInt_of_fits {i : Int} (fits : -integerLimit ≤ i ∧ i < integerLimit) :
    ofInt i = .integer (.ofInt i) := by
  rw [ofInt, ofInt?, if_pos fits, Option.getD_some]

theorem exists_ofInt_of_not_fits {i : Int} (large : ¬(-integerLimit ≤ i ∧ i < integerLimit))
    (small : i.natAbs < 2 ^ 64) :
    ∃ x : Magnitude, ofInt i = .float (.finite (decide (i < 0)) x) ∧ x.isWhole = true := by
  have full : 2 ^ 52 ≤ i.natAbs := by
    unfold integerLimit at large
    omega
  obtain ⟨x, rounded, whole⟩ := Binary64.exists_ofInt full small (by decide)
  refine ⟨x, ?_, whole⟩
  rw [ofInt, ofInt?, if_neg large, Option.getD_none, rounded]

end Number

namespace Json.Numeral
open Number (Magnitude digitValue naturalDigits naturalOf)

theorem naturalDigits_append {digits : List Char} (all : ∀ c ∈ digits, c.isDigit = true) {n : Nat}
    (positive : 0 < n) : naturalDigits (append n digits) = naturalDigits n ++ digits := by
  induction digits generalizing n with
  | nil => exact (List.append_nil _).symm
  | cons c digits ih =>
    have digit := all c List.mem_cons_self
    have below := Number.digitValue_lt_ten digit
    have one : naturalDigits (n * 10 + digitValue c) = naturalDigits n ++ [c] := by
      have appended := Nat.toDigits_append_toDigits (b := 10) (by decide) positive below
      rw [Nat.toDigits_of_lt_base below, Number.digitChar_digitValue digit] at appended
      rw [naturalDigits, naturalDigits, Nat.mul_comm, appended]
    change naturalDigits (append (n * 10 + digitValue c) digits) = _
    rw [ih (fun d mem => all d (List.mem_cons_of_mem c mem)) (by omega), one,
      List.append_assoc, List.singleton_append]

theorem appendDigits_of_long {digits : List Char} (all : ∀ c ∈ digits, c.isDigit = true) {n : Nat}
    (fits : n ≤ significandLimit) (long : significandLimit < append n digits) (count : Nat) :
    ∃ s k d rest, appendDigits n count digits = (s, k, d :: rest) ∧
      (∀ c ∈ d :: rest, c.isDigit = true) ∧ significandLimit < s * 10 + digitValue d := by
  induction digits generalizing n count with
  | nil => exact absurd long (Nat.not_lt_of_le fits)
  | cons c digits ih =>
    have digit := all c List.mem_cons_self
    by_cases next : n * 10 + digitValue c ≤ significandLimit
    · obtain ⟨s, k, d, rest, appended, others, beyond⟩ :=
        ih (fun d mem => all d (List.mem_cons_of_mem c mem)) next long (count + 1)
      refine ⟨s, k, d, rest, ?_, others, beyond⟩
      rw [appendDigits, if_pos (by simp [digit, next]), appended]
    · refine ⟨n, count, c, digits, ?_, all, Nat.lt_of_not_le next⟩
      rw [appendDigits, if_neg (by simp [next])]

theorem isWhole_of_times? {x y z : Magnitude} (full : 1074 ≤ x.scale) (one : 1022 ≤ y.scale)
    (product : times? x y = some z) : z.isWhole = true := by
  have units : 2 ^ 52 * Magnitude.unit ≤ x.scaled := Magnitude.le_scaled full
  have unit : 2 ^ 0 * Magnitude.unit ≤ y.scaled := Magnitude.le_scaled one
  have positive : 0 < Magnitude.unit * Magnitude.unit :=
    Nat.mul_pos Magnitude.unit_pos Magnitude.unit_pos
  refine Magnitude.isWhole_of_ofRatio? positive ?_ product
  calc Magnitude.unit * Magnitude.unit * 2 ^ 52 = 2 ^ 52 * Magnitude.unit * Magnitude.unit := by
        ac_rfl
    _ ≤ x.scaled * y.scaled := Nat.mul_le_mul units (by rwa [Nat.pow_zero, Nat.one_mul] at unit)

theorem isWhole_of_scale? {significand : Nat} {exponent : Int} {x : Magnitude}
    (large : 2 ^ 52 ≤ significand) (up : 0 ≤ exponent)
    (scaled : scale? significand exponent = some x) : x.isWhole = true := by
  rw [← Nat.one_mul (2 ^ 52)] at large
  unfold scale? at scaled
  obtain ⟨y, rounded, multiplied⟩ := Option.bind_eq_some_iff.1 scaled
  have full := Magnitude.le_scale_of_ofRatio? Nat.one_pos large rounded
  rw [if_neg (Int.not_lt.2 up)] at multiplied
  split at multiplied
  · obtain ⟨power, raised, product⟩ := Option.bind_eq_some_iff.1 multiplied
    have one : 1 * 2 ^ 0 ≤ Nat.pow 10 exponent.toNat := Nat.pow_pos (by decide)
    exact isWhole_of_times? full (Magnitude.le_scale_of_ofRatio? Nat.one_pos one raised) product
  · split at multiplied
    · cases multiplied
      exact Magnitude.isWhole_of_le_scale full
    · contradiction

theorem exists_of_read_long {negative : Bool} {digits : List Char} {number : Number}
    (done : read negative digits = .ok (number, [])) (all : ∀ c ∈ digits, c.isDigit = true)
    (long : significandLimit < naturalOf digits) :
    ∃ x : Magnitude, number = .float (.finite negative x) ∧ x.isWhole = true := by
  obtain ⟨c, rest, rfl, digit⟩ := head_isDigit done
  have others : ∀ d ∈ rest, d.isDigit = true := fun d mem => all d (List.mem_cons_of_mem c mem)
  by_cases zero : c = '0'
  · subst zero
    obtain ⟨none, -⟩ := (read_zero negative).1 done
    rw [List.takeWhile_eq_self_iff.2 others] at none
    subst none
    exact absurd long (by decide)
  · rw [naturalOf_cons] at long
    have start : digitValue c ≤ significandLimit :=
      Nat.le_trans (Nat.le_of_lt (Number.digitValue_lt_ten digit)) (by decide)
    obtain ⟨s, k, d, behind, appended, more, beyond⟩ :=
      appendDigits_of_long others start long 0
    have next := Number.digitValue_lt_ten (more d List.mem_cons_self)
    have span : (d :: behind).takeWhile Char.isDigit = d :: behind :=
      List.takeWhile_eq_self_iff.2 more
    have left : (d :: behind).dropWhile Char.isDigit = [] := List.dropWhile_eq_nil_iff.2 more
    rw [read_digit negative rest digit zero, appended, readTail, if_neg (by simp [span]),
      readLong_eq, span, left] at done
    have finished : finish negative s (d :: behind).length [] = .ok (number, []) := by
      rw [← readPower_nil]
      exact done
    obtain ⟨x, scaled, same⟩ := finish_eq_ok_iff.1 finished
    refine ⟨x, congrArg Prod.fst same.symm, isWhole_of_scale? ?_ (Int.natCast_nonneg _) scaled⟩
    unfold significandLimit at beyond
    omega

end Json.Numeral

namespace Json
open Number (integerLimit naturalDigits naturalOf)

/-- An integer as it is written: a sign or none, then digits without a needless zero in
front. Zero has no sign. -/
structure IntegerLiteral where
  negative : Bool
  digits : List Char
  isDigit : ∀ c ∈ digits, c.isDigit = true
  nonempty : digits ≠ []
  led : digits.head? = some '0' → digits = ['0'] ∧ negative = false

namespace IntegerLiteral

variable (n : IntegerLiteral)

def chars : List Char := if n.negative then '-' :: n.digits else n.digits

def text : String := String.ofList n.chars

def value : Int := if n.negative then -naturalOf n.digits else naturalOf n.digits

/-- The value is one of 64 bits with its sign. -/
def Fits : Prop := -integerLimit ≤ n.value ∧ n.value < integerLimit

instance : Decidable n.Fits :=
  inferInstanceAs (Decidable (-integerLimit ≤ n.value ∧ n.value < integerLimit))

theorem naturalDigits_digits : naturalDigits (naturalOf n.digits) = n.digits := by
  obtain ⟨c, rest, digits⟩ := List.exists_cons_of_ne_nil n.nonempty
  by_cases zero : c = '0'
  · rw [(n.led (by rw [digits, zero]; rfl)).1]
    decide
  · have digit : c.isDigit = true := n.isDigit c (by simp [digits])
    have others : ∀ d ∈ rest, d.isDigit = true := fun d mem => n.isDigit d (by simp [digits, mem])
    have positive : 0 < Number.digitValue c := by
      refine Nat.pos_of_ne_zero fun none => zero ?_
      rw [← Number.digitChar_digitValue digit, none]
      rfl
    have first : naturalDigits (Number.digitValue c) = [c] := by
      rw [naturalDigits, Nat.toDigits_of_lt_base (Number.digitValue_lt_ten digit),
        Number.digitChar_digitValue digit]
    rw [digits, Numeral.naturalOf_cons, Numeral.naturalDigits_append others positive, first]
    rfl

theorem negative_iff : n.negative = true ↔ n.value < 0 := by
  have signless : naturalOf n.digits = 0 → n.negative = false := by
    intro zero
    have digits := n.naturalDigits_digits
    rw [zero] at digits
    exact (n.led (by rw [← digits]; rfl)).2
  unfold value
  cases sign : n.negative with
  | false => simp
  | true =>
    have nonzero : naturalOf n.digits ≠ 0 := fun zero => by simp [signless zero] at sign
    exact iff_of_true rfl (by rw [if_pos rfl]; omega)

theorem natAbs_value : n.value.natAbs = naturalOf n.digits := by
  unfold value
  split <;> omega

theorem text_eq : n.text = Number.integerText n.value := by
  rw [text, chars, Number.integerText, n.natAbs_value, Number.naturalText, n.naturalDigits_digits]
  by_cases sign : n.negative = true
  · rw [if_pos sign, if_pos (n.negative_iff.1 sign)]
    simp
  · rw [if_neg sign, if_neg (fun below => sign (n.negative_iff.2 below))]

theorem toInt_ofInt_value (fits : n.Fits) : (Int64.ofInt n.value).toInt = n.value := by
  unfold Fits integerLimit at fits
  exact Int64.toInt_ofInt_of_le (by omega) (by omega)

theorem whole_eq : Numeral.whole n.negative (naturalOf n.digits) = .ofInt n.value := by
  unfold Numeral.whole
  by_cases sign : n.negative = true
  · have below := n.negative_iff.1 sign
    have nonzero : naturalOf n.digits ≠ 0 := by
      rw [← n.natAbs_value]
      omega
    rw [if_pos sign, if_neg nonzero, value, if_pos sign]
  · rw [if_neg sign, value, if_neg sign]

def ofInt (i : Int) : IntegerLiteral where
  negative := decide (i < 0)
  digits := naturalDigits i.natAbs
  isDigit _ := Number.isDigit_of_mem_naturalDigits
  nonempty := Nat.toDigits_ne_nil
  led first := by
    by_cases zero : i = 0
    · subst zero
      decide
    · obtain ⟨c, rest, digits, nonzero⟩ :=
        Number.exists_nonzero_digit (Int.natAbs_pos.2 zero)
      rw [digits] at first
      exact absurd (Option.some.inj first) nonzero

theorem value_ofInt (i : Int) : (ofInt i).value = i := by
  simp only [value, ofInt, Number.naturalOf_naturalDigits, decide_eq_true_eq]
  split <;> omega

variable {n} {number : Number} (reads : Numeral.read n.negative n.digits = .ok (number, []))

include reads

theorem number_of_fits (fits : n.Fits) : number = .integer (.ofInt n.value) := by
  have short : naturalOf n.digits ≤ Numeral.significandLimit := by
    rw [← n.natAbs_value]
    unfold Fits integerLimit at fits
    unfold Numeral.significandLimit
    omega
  rw [Numeral.read_whole reads n.isDigit short, n.whole_eq, Number.ofInt_of_fits fits]

theorem exists_number_of_not_fits (large : ¬n.Fits) :
    ∃ x : Number.Magnitude, number = .float (.finite n.negative x) ∧ x.isWhole = true := by
  by_cases short : naturalOf n.digits ≤ Numeral.significandLimit
  · have bits : n.value.natAbs < 2 ^ 64 := by
      rw [n.natAbs_value]
      unfold Numeral.significandLimit at short
      omega
    obtain ⟨x, rounded, whole⟩ := Number.exists_ofInt_of_not_fits large bits
    have sign : decide (n.value < 0) = n.negative := by
      rw [Bool.eq_iff_iff, decide_eq_true_iff, n.negative_iff]
    refine ⟨x, ?_, whole⟩
    rw [Numeral.read_whole reads n.isDigit short, n.whole_eq, rounded, sign]
  · exact Numeral.exists_of_read_long reads n.isDigit (Nat.lt_of_not_le short)

end IntegerLiteral

end Json

end DescriptorCheck
