import DescriptorCheck.Json.Writer
import DescriptorCheck.Proofs.Json.Numerals
import DescriptorCheck.Proofs.Path.Reading

set_option autoImplicit false

namespace DescriptorCheck

namespace Number

theorem ofInt_toInt (i : Int64) : ofInt i.toInt = .integer i := by
  have least := i.le_toInt
  have greatest := i.toInt_lt
  have bounds : -integerLimit ≤ i.toInt ∧ i.toInt < integerLimit := by
    unfold integerLimit
    omega
  rw [ofInt, ofInt?, if_pos bounds, Option.getD_some, Int64.ofInt_toInt]

end Number

namespace Json.Numeral
open Number (naturalDigits naturalOf)

theorem readRest_of_ends {negative : Bool} {n : Nat} {rest : List Char}
    (ends : ∀ c ∈ rest.head?, isFigure c = false) :
    readRest negative n rest = .ok (whole negative n, rest) := by
  unfold readRest
  split
  · exact absurd (ends _ rfl) (by decide)
  · exact absurd (ends _ rfl) (by decide)
  · exact absurd (ends _ rfl) (by decide)
  · rfl

theorem read_naturalDigits {negative : Bool} {n : Nat} {rest : List Char}
    (fits : n ≤ significandLimit) (ends : ∀ c ∈ rest.head?, isFigure c = false) :
    read negative (naturalDigits n ++ rest) = .ok (whole negative n, rest) := by
  have stops : ∀ c ∈ rest.head?, c.isDigit = false := by
    intro c head
    have figureless := ends c head
    simp only [isFigure, Bool.or_eq_false_iff] at figureless
    exact figureless.1.1.1.1.1
  have none_taken : rest.takeWhile Char.isDigit = [] := by
    cases rest with
    | nil => rfl
    | cons c rest => simp [stops c rfl]
  rcases Nat.eq_zero_or_pos n with rfl | positive
  · exact (read_zero negative).2 ⟨none_taken, readRest_of_ends ends⟩
  · obtain ⟨c, digits, whole_, nonzero⟩ := Number.exists_nonzero_digit positive
    have all : ∀ d ∈ c :: digits, d.isDigit = true := by
      rw [← whole_]
      exact fun d => Number.isDigit_of_mem_naturalDigits
    have value : append (Number.digitValue c) digits = n := by
      rw [← naturalOf_cons, ← whole_, Number.naturalOf_naturalDigits]
    rw [whole_, List.cons_append, read_digit negative _ (all c List.mem_cons_self) nonzero,
      appendDigits_of_fits (fun d mem => all d (List.mem_cons_of_mem c mem)) stops
        (by rw [value]; exact fits), value, readTail, if_pos none_taken, readRest_of_ends ends]

theorem whole_natAbs (i : Int64) :
    whole (decide (i.toInt < 0)) i.toInt.natAbs = .integer i := by
  unfold whole
  by_cases below : i.toInt < 0
  · have nonzero : i.toInt.natAbs ≠ 0 := by omega
    have magnitude : -(i.toInt.natAbs : Int) = i.toInt := by omega
    rw [decide_eq_true below, if_pos rfl, if_neg nonzero, magnitude, Number.ofInt_toInt]
  · have magnitude : (i.toInt.natAbs : Int) = i.toInt := by omega
    rw [decide_eq_false below, if_neg Bool.false_ne_true, magnitude, Number.ofInt_toInt]

theorem natAbs_le_significandLimit (i : Int64) : i.toInt.natAbs ≤ significandLimit := by
  have least := i.le_toInt
  have greatest := i.toInt_lt
  unfold significandLimit
  omega

end Json.Numeral

namespace Json

theorem toList_encodeNumber_integer (i : Int64) :
    (encodeNumber (.integer i)).toList =
      (if i.toInt < 0 then ['-'] else []) ++ Number.naturalDigits i.toInt.natAbs := by
  rw [encodeNumber, Number.integerText]
  split <;> simp [Number.naturalText]

end Json

end DescriptorCheck
