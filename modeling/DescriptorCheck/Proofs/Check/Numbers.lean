import DescriptorCheck.Proofs.Document.Integers
import DescriptorCheck.Proofs.Number.Display

set_option autoImplicit false

namespace DescriptorCheck

namespace Number
open Json (IntegerLiteral)

theorem text_ofInt (i : Int) : (IntegerLiteral.ofInt i).text = integerText i := by
  rw [IntegerLiteral.text_eq, IntegerLiteral.value_ofInt]

theorem sign_or_isDigit_of_mem_integerText {i : Int} {c : Char}
    (mem : c ∈ (integerText i).toList) : c = '-' ∨ c.isDigit = true := by
  rw [← text_ofInt, IntegerLiteral.text, String.toList_ofList] at mem
  exact (IntegerLiteral.ofInt i).sign_or_isDigit mem

theorem integerText_injective : Function.Injective integerText := by
  intro i j same
  rw [← text_ofInt, ← text_ofInt] at same
  obtain ⟨sign, digits⟩ := Json.signed_inj (IntegerLiteral.ofInt i).head?_digits_ne
    (IntegerLiteral.ofInt j).head?_digits_ne (String.ofList_injective same)
  rw [← IntegerLiteral.value_ofInt i, ← IntegerLiteral.value_ofInt j, IntegerLiteral.value,
    IntegerLiteral.value, sign, digits]

theorem Binary64.exists_mark (x : Binary64) :
    ∃ c ∈ x.display.toList, c ≠ '-' ∧ c.isDigit = false ∧ Text.isBlankChar c = false := by
  cases x with
  | finite negative x => exact ⟨'.', point_mem_display negative x, by decide⟩
  | infinite negative => exact ⟨'n', by cases negative <;> decide, by decide⟩
  | nan => exact ⟨'N', by decide, by decide⟩

theorem display_integer_ne_float (i : Int64) (x : Binary64) :
    (integer i).display ≠ (float x).display := by
  intro same
  obtain ⟨c, mem, sign, digit, -⟩ := x.exists_mark
  change integerText i.toInt = x.display at same
  rw [← same] at mem
  rcases sign_or_isDigit_of_mem_integerText mem with minus | figure
  · exact sign minus
  · exact absurd figure (by simp [digit])

theorem display_injective : Function.Injective display := by
  intro a b same
  cases a with
  | integer i =>
    cases b with
    | integer j => exact congrArg integer (Int64.toInt_inj.1 (integerText_injective same))
    | float y => exact absurd same (display_integer_ne_float i y)
  | float x =>
    cases b with
    | integer j => exact absurd same.symm (display_integer_ne_float j x)
    | float y => exact congrArg float (Binary64.display_injective same)

theorem isBlank_display (a : Number) : Text.isBlank a.display = false := by
  cases a with
  | integer i =>
    rw [display, ← text_ofInt]
    exact (IntegerLiteral.ofInt i.toInt).isBlank_text
  | float x =>
    obtain ⟨c, mem, -, -, solid⟩ := x.exists_mark
    refine Bool.eq_false_iff.2 fun blank => ?_
    exact absurd (List.all_eq_true.1 blank c mem) (by simp [solid])

end Number

namespace Query

/-- Among the elements that are numbers, a check for the text of a number keeps those with
that number, and it is the only number with the text. There is one `nan`, so it need not be
left out; zeros of different signs are different numbers. -/
theorem text_identifies_number (a : Number) :
    (∀ b : Number, b.display = a.display ↔ b = a) ∧
    (∀ (i : Int64) (x : Number.Binary64), (Number.integer i).display ≠ (Number.float x).display) ∧
    (∀ (negative : Bool) (x : Number.Magnitude),
      Text.endsWith (Number.float (.finite negative x)).display ".0" = true ↔
        x.isWhole = true) ∧
    ∀ q : Query, ∃ r, q.check (.equals a.display) = .ok r ∧
      ∀ (path : String) (b : Number), ⟨path, .number b⟩ ∈ r.workingElements ↔
        ⟨path, .number b⟩ ∈ q.workingElements ∧ q.inScope path = true ∧ b = a := by
  refine ⟨fun b => Number.display_injective.eq_iff, Number.display_integer_ne_float,
    Number.Binary64.endsWith_display_iff, fun q => ?_⟩
  obtain ⟨r, checked, kept⟩ := q.exists_check_equals a.isBlank_display
  refine ⟨r, checked, fun path b => ?_⟩
  have form : (Value.number b).form? = some a.display ↔ b = a := by
    simp only [Value.form?, Value.display, Option.some.injEq]
    exact Number.display_injective.eq_iff
  rw [kept, form]

end Query

end DescriptorCheck
