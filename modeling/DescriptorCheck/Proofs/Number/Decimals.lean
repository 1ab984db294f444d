import DescriptorCheck.Proofs.Number.Digits
import DescriptorCheck.Proofs.Text.Span
import Mathlib.Data.List.TakeWhile
import Mathlib.Tactic.Ring

set_option autoImplicit false

namespace DescriptorCheck.Number

namespace Decimal

def num (d : Decimal) : Nat := d.digits * Nat.pow 10 d.exponent.toNat

def den (d : Decimal) : Nat := Nat.pow 10 (-d.exponent).toNat

def Equals (d e : Decimal) : Prop := d.num * e.den = e.num * d.den

theorem den_pos (d : Decimal) : 0 < d.den := Nat.pow_pos (by decide)

end Decimal

structure Pointed where
  whole : List Char
  fraction : List Char
  nonempty : whole ≠ []
  isDigit : ∀ c ∈ whole ++ fraction, c.isDigit = true

namespace Pointed

variable (p : Pointed)

def chars : List Char := p.whole ++ '.' :: p.fraction

def decimal : Decimal := ⟨naturalOf (p.whole ++ p.fraction), -p.fraction.length⟩

theorem read?_chars : Decimal.read? p.chars = some p.decimal := by
  have before : ∀ c ∈ p.whole, c.isDigit = true :=
    fun c mem => p.isDigit c (List.mem_append_left _ mem)
  have behind : ∀ c ∈ p.fraction, c.isDigit = true :=
    fun c mem => p.isDigit c (List.mem_append_right _ mem)
  have taken := List.takeWhile_eq_self_iff.2 behind
  have left := List.dropWhile_eq_nil_iff.2 behind
  have point : Char.isDigit '.' = false := rfl
  unfold Decimal.read? chars
  rw [Text.takeWhile_append_cons before point, Text.dropWhile_append_cons before point]
  simp [taken, left, p.nonempty, decimal]

theorem exists_chars_eq_cons : ∃ c rest, p.chars = c :: rest ∧ c.isDigit = true := by
  obtain ⟨c, rest, whole⟩ := List.exists_cons_of_ne_nil p.nonempty
  refine ⟨c, rest ++ '.' :: p.fraction, by rw [chars, whole, List.cons_append], ?_⟩
  exact p.isDigit c (by simp [whole])

theorem not_mem_fraction : '.' ∉ p.fraction := by
  intro point
  exact absurd (p.isDigit '.' (List.mem_append_right _ point)) (by decide)

theorem suffix_iff (front : List Char) :
    ['.', '0'] <:+ front ++ p.chars ↔ p.fraction = ['0'] := by
  rw [chars, ← List.append_assoc]
  constructor
  · rintro ⟨start, same⟩
    rcases List.append_eq_append_iff.1 same with ⟨more, -, rest⟩ | ⟨more, -, rest⟩
    · cases more with
      | nil => exact (List.cons.inj rest).2.symm
      | cons c more =>
        have behind : ['0'] = more ++ '.' :: p.fraction := (List.cons.inj rest).2
        have point : '.' ∈ ['0'] := behind ▸ List.mem_append_right _ List.mem_cons_self
        exact absurd point (by decide)
    · cases more with
      | nil => exact (List.cons.inj rest).2
      | cons c more =>
        have point : '.' ∈ p.fraction := by simp [(List.cons.inj rest).2]
        exact absurd point p.not_mem_fraction
  · intro zero
    rw [zero]
    exact List.suffix_append _ _

theorem num_of_fraction {p : Pointed} (zero : p.fraction = ['0']) :
    p.decimal.num = naturalOf p.whole * p.decimal.den := by
  have digits : p.decimal.digits = naturalOf p.whole * 10 ^ 1 := by
    rw [← naturalOf_append_zeros, decimal, zero]
    rfl
  have exponent : p.decimal.exponent = -1 := by
    rw [decimal, zero]
    rfl
  unfold Decimal.num Decimal.den
  rw [digits, exponent]
  exact Nat.mul_one _

end Pointed

theorem isDigit_of_mem_zeros (count : Nat) {c : Char} (mem : c ∈ List.replicate count '0') :
    c.isDigit = true := by
  rw [List.eq_of_mem_replicate mem]
  rfl

namespace Decimal

variable (d : Decimal)

theorem isDigit_of_mem_digitChars {c : Char} (mem : c ∈ d.digitChars) : c.isDigit = true :=
  isDigit_of_mem_naturalDigits mem

theorem naturalOf_digitChars : naturalOf d.digitChars = d.digits :=
  naturalOf_naturalDigits d.digits

theorem digitChars_ne_nil : d.digitChars ≠ [] := Nat.toDigits_ne_nil

/-- How a value below one is written: with the digits behind zeros. -/
def behindZeros : Pointed where
  whole := ['0']
  fraction := List.replicate (-d.pointAt).toNat '0' ++ d.digitChars
  nonempty := List.cons_ne_nil _ _
  isDigit := by
    intro c mem
    rw [← List.append_assoc] at mem
    rcases List.mem_append.1 mem with zero | digit
    · exact isDigit_of_mem_zeros ((-d.pointAt).toNat + 1) zero
    · exact d.isDigit_of_mem_digitChars digit

/-- How a whole number is written: with zeros behind the digits, one of them the fraction. -/
def beforeZeros : Pointed where
  whole := d.digitChars ++ List.replicate (d.pointAt.toNat - d.digitChars.length) '0'
  fraction := ['0']
  nonempty := List.append_ne_nil_of_left_ne_nil d.digitChars_ne_nil _
  isDigit := by
    intro c mem
    rw [List.append_assoc, ← List.replicate_succ'] at mem
    rcases List.mem_append.1 mem with digit | zero
    · exact d.isDigit_of_mem_digitChars digit
    · exact isDigit_of_mem_zeros (d.pointAt.toNat - d.digitChars.length + 1) zero

/-- How any other value is written: with the point among the digits. -/
def divided (positive : 0 < d.pointAt) : Pointed where
  whole := d.digitChars.take d.pointAt.toNat
  fraction := d.digitChars.drop d.pointAt.toNat
  nonempty := by
    intro empty
    rcases List.take_eq_nil_iff.1 empty with none | none
    · omega
    · exact d.digitChars_ne_nil none
  isDigit := by
    intro c mem
    rw [List.take_append_drop] at mem
    exact d.isDigit_of_mem_digitChars mem

def pointed : Pointed :=
  if small : d.pointAt ≤ 0 then d.behindZeros
  else if d.digitChars.length ≤ d.pointAt.toNat then d.beforeZeros
  else d.divided (Int.not_le.1 small)

theorem toList_positional : d.positional.toList = d.pointed.chars := by
  rw [positional, String.toList_ofList]
  unfold pointed
  split
  · rfl
  · split
    · simp [Pointed.chars, beforeZeros]
    · rfl

variable {d}

theorem decimal_behindZeros (small : d.pointAt ≤ 0) : d.behindZeros.decimal = d := by
  have digits : naturalOf (d.behindZeros.whole ++ d.behindZeros.fraction) = d.digits :=
    (naturalOf_zeros_append ((-d.pointAt).toNat + 1) d.digitChars).trans d.naturalOf_digitChars
  have length : d.behindZeros.fraction.length = (-d.pointAt).toNat + d.digitChars.length := by
    simp [behindZeros]
  have exponent : -(d.behindZeros.fraction.length : Int) = d.exponent := by
    unfold pointAt at *
    omega
  rw [Pointed.decimal, digits, exponent]

theorem decimal_divided (positive : 0 < d.pointAt)
    (inside : d.pointAt.toNat < d.digitChars.length) : (d.divided positive).decimal = d := by
  have digits : naturalOf ((d.divided positive).whole ++ (d.divided positive).fraction) =
      d.digits := by
    rw [← d.naturalOf_digitChars]
    exact congrArg naturalOf (List.take_append_drop _ _)
  have length : (d.divided positive).fraction.length = d.digitChars.length - d.pointAt.toNat :=
    List.length_drop
  have exponent : -((d.divided positive).fraction.length : Int) = d.exponent := by
    unfold pointAt at *
    omega
  rw [Pointed.decimal, digits, exponent]

theorem equals_beforeZeros (whole : d.digitChars.length ≤ d.pointAt.toNat) :
    d.Equals d.beforeZeros.decimal := by
  have some := List.length_pos_iff.2 d.digitChars_ne_nil
  have before : naturalOf d.beforeZeros.whole = d.digits * 10 ^ d.exponent.toNat := by
    have zeros : d.exponent.toNat = d.pointAt.toNat - d.digitChars.length := by
      unfold pointAt at *
      omega
    rw [← d.naturalOf_digitChars, ← naturalOf_append_zeros, zeros]
    rfl
  have one : d.den = 1 := by
    have up : (-d.exponent).toNat = 0 := by
      unfold pointAt at whole
      omega
    rw [den, up]
  rw [Equals, Pointed.num_of_fraction rfl, before, one, Nat.mul_one]
  rfl

theorem equals_pointed (d : Decimal) : d.Equals d.pointed.decimal := by
  unfold pointed
  split
  · rename_i small
    rw [decimal_behindZeros small]
    rfl
  · rename_i large
    split
    · rename_i whole
      exact equals_beforeZeros whole
    · rename_i inside
      rw [decimal_divided (Int.not_le.1 large) (Nat.not_le.1 inside)]
      rfl

theorem pointed_natural (n : Nat) :
    (⟨n, 0⟩ : Decimal).pointed = (⟨n, 0⟩ : Decimal).beforeZeros := by
  have point : (⟨n, 0⟩ : Decimal).pointAt = (⟨n, 0⟩ : Decimal).digitChars.length := Int.add_zero _
  have some := List.length_pos_iff.2 (⟨n, 0⟩ : Decimal).digitChars_ne_nil
  unfold pointed
  rw [dif_neg (by omega), if_pos (by omega)]

theorem positional_natural (n : Nat) : (⟨n, 0⟩ : Decimal).positional = naturalText n ++ ".0" := by
  rw [← String.toList_inj, toList_positional, pointed_natural]
  simp [Pointed.chars, beforeZeros, pointAt, digitChars, naturalText]

end Decimal

end DescriptorCheck.Number
