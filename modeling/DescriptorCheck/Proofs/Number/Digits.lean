import DescriptorCheck.Number.Digits
import DescriptorCheck.Number.Reading
import Mathlib.Algebra.Order.Ring.Nat

set_option autoImplicit false

namespace DescriptorCheck.Number

theorem isDigit_of_mem_naturalDigits {n : Nat} {c : Char} (mem : c ∈ naturalDigits n) :
    c.isDigit = true := Nat.isDigit_of_mem_toDigits (by decide) (by decide) mem

theorem naturalDigits_injective {m n : Nat} (h : naturalDigits m = naturalDigits n) : m = n := by
  have values := congrArg (fun digits => Nat.ofDigitChars 10 digits 0) h
  simpa [naturalDigits] using values

theorem naturalOf_eq_ofDigitChars (digits : List Char) :
    naturalOf digits = Nat.ofDigitChars 10 digits 0 := by
  simp [naturalOf, Nat.ofDigitChars, digitValue, Nat.mul_comm]

theorem naturalOf_naturalDigits (n : Nat) : naturalOf (naturalDigits n) = n := by
  rw [naturalOf_eq_ofDigitChars]
  exact Nat.ofDigitChars_ten_toDigits

theorem naturalOf_zeros_append (count : Nat) (digits : List Char) :
    naturalOf (List.replicate count '0' ++ digits) = naturalOf digits := by
  simp only [naturalOf_eq_ofDigitChars, Nat.ofDigitChars_append,
    Nat.ofDigitChars_replicate_zero, Nat.mul_zero]

theorem naturalOf_append_zeros (digits : List Char) (count : Nat) :
    naturalOf (digits ++ List.replicate count '0') = naturalOf digits * 10 ^ count := by
  simp only [naturalOf_eq_ofDigitChars, Nat.ofDigitChars_append,
    Nat.ofDigitChars_replicate_zero, Nat.mul_comm]

theorem exists_digit (n : Nat) : ∃ c cs, naturalDigits n = c :: cs ∧ c.isDigit = true := by
  obtain ⟨c, cs, digits⟩ :=
    List.exists_cons_of_ne_nil (show naturalDigits n ≠ [] from Nat.toDigits_ne_nil)
  have first : c ∈ naturalDigits n := by simp [digits]
  exact ⟨c, cs, digits, isDigit_of_mem_naturalDigits first⟩

theorem exists_nonzero_digit {n : Nat} (positive : 0 < n) :
    ∃ c rest, naturalDigits n = c :: rest ∧ c ≠ '0' := by
  induction n using Nat.strongRecOn with
  | ind n ih =>
    by_cases small : n < 10
    · refine ⟨n.digitChar, [], Nat.toDigits_of_lt_base small, ?_⟩
      have digits : ∀ d < 10, 0 < d → Nat.digitChar d ≠ '0' := by decide
      exact digits n small positive
    · obtain ⟨c, rest, digits, nonzero⟩ := ih (n / 10) (by omega) (by omega)
      refine ⟨c, rest ++ [(n % 10).digitChar], ?_, nonzero⟩
      rw [naturalDigits, Nat.toDigits_of_base_le (by decide) (by omega)]
      rw [naturalDigits] at digits
      rw [digits, List.cons_append]

theorem lt_pow_length (n : Nat) : n < 10 ^ (naturalDigits n).length :=
  (Nat.length_toDigits_le_iff (by decide) Nat.length_toDigits_pos).1 (Nat.le_refl _)

theorem pow_length_le {n : Nat} (positive : 0 < n) : 10 ^ ((naturalDigits n).length - 1) ≤ n := by
  generalize length : (naturalDigits n).length = k
  rcases Nat.lt_or_ge 1 k with long | short
  · -- One digit less would not do.
    refine Nat.le_of_not_lt fun small => ?_
    have less := (Nat.length_toDigits_le_iff (b := 10) (by decide) (by omega)).2 small
    unfold naturalDigits at length
    omega
  · rw [Nat.sub_eq_zero_of_le short]
    exact positive

end DescriptorCheck.Number
