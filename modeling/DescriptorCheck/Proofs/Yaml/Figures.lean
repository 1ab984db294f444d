import DescriptorCheck.Proofs.Json.Numerals
import DescriptorCheck.Proofs.Yaml.Portable

set_option autoImplicit false

namespace DescriptorCheck.Yaml.Scalar
open Json (NumberForm)
open Json.Numeral (isFigure)
open Number (digitValue digitValue? naturalIn? naturalOf)

theorem digitValue?_ten {c : Char} (digit : c.isDigit = true) :
    digitValue? 10 c = some (digitValue c) := by
  have high : c.toNat ≤ 57 := by
    simp only [Char.isDigit, Bool.and_eq_true, decide_eq_true_eq] at digit
    exact digit.2
  have small : digitValue c < 10 := by
    unfold digitValue
    have : '0'.toNat = 48 := rfl
    omega
  simp [digitValue?, digit, small]

theorem isDigit_of_digitValue?_ten {c : Char} {value : Nat}
    (found : digitValue? 10 c = some value) : c.isDigit = true := by
  by_contra other
  have small := Number.digitValue?_lt found
  simp only [digitValue?, other, if_false, Option.filter_eq_some_iff] at found
  obtain ⟨found, -⟩ := found
  split at found
  · cases found
    omega
  · split at found
    · cases found
      omega
    · contradiction

theorem naturalIn?_ten {digits : List Char} (all : ∀ c ∈ digits, c.isDigit = true)
    (nonempty : digits ≠ []) : naturalIn? 10 digits = some (naturalOf digits) := by
  have appended (n : Nat) : digits.foldlM (fun n c => (digitValue? 10 c).map (n * 10 + ·)) n =
      some (digits.foldl (fun n c => n * 10 + digitValue c) n) := by
    clear nonempty
    induction digits generalizing n with
    | nil => rfl
    | cons c digits ih =>
      obtain ⟨here, others⟩ := List.forall_mem_cons.1 all
      simp [digitValue?_ten here, ih others]
  simp [naturalIn?, nonempty, appended, naturalOf]

theorem isDigit_of_naturalIn?_ten {digits : List Char} {n : Nat}
    (read : naturalIn? 10 digits = some n) : ∀ c ∈ digits, c.isDigit = true := by
  have each (n m : Nat)
      (folded : digits.foldlM (fun n c => (digitValue? 10 c).map (n * 10 + ·)) n = some m) :
      ∀ c ∈ digits, c.isDigit = true := by
    clear read
    induction digits generalizing n with
    | nil => simp
    | cons c digits ih =>
      simp only [List.foldlM_cons, Option.bind_eq_bind, Option.bind_eq_some_iff,
        Option.map_eq_some_iff] at folded
      obtain ⟨_, ⟨value, found, rfl⟩, rest⟩ := folded
      exact List.forall_mem_cons.2 ⟨isDigit_of_digitValue?_ten found, ih _ rest⟩
  unfold naturalIn? at read
  split at read
  · contradiction
  · exact each 0 n read

section

variable {cs : List Char} (figures : ∀ c ∈ cs, isFigure c = true)

include figures

theorem ofList_ne (word : String) (other : word.toList.all isFigure = false) :
    String.ofList cs ≠ word := by
  rintro rfl
  rw [String.toList_ofList] at other
  exact absurd (List.all_eq_true.2 figures) (by simp [other])

theorem isNull_figures : isNull (String.ofList cs) = false := by
  have ne := ofList_ne figures
  simp [isNull, ne "null" (by decide), ne "Null" (by decide), ne "NULL" (by decide),
    ne "~" (by decide)]

theorem boolean?_figures : boolean? (String.ofList cs) = none := by
  unfold boolean?
  split
  case h_7 => rfl
  all_goals
    rename_i same
    exact absurd same (ofList_ne figures _ (by decide))

theorem float?_figures {negative : Bool} {x : Number.Magnitude}
    (read : Number.Binary64.read? cs = some (.finite negative x)) :
    float? (String.ofList cs) = some (.finite negative x) := by
  unfold float?
  split
  case h_13 => rw [String.toList_ofList, read]
  all_goals
    rename_i same
    exact absurd same (ofList_ne figures _ (by decide))

theorem ofPlain_figures (nonempty : cs ≠ []) :
    ofPlain (String.ofList cs) =
      (integer? (String.ofList cs)).bind fun d? =>
        match d? with
        | some d => .ok d
        | none =>
          if isZeroLed cs then .ok (.text (String.ofList cs))
          else .ok ((float? (String.ofList cs)).elim (.text (String.ofList cs)) .float) := by
  have some_text : (String.ofList cs).isEmpty = false := by
    simp [nonempty]
  unfold ofPlain
  simp only [some_text, isNull_figures figures, boolean?_figures figures, Bool.or_false,
    Bool.false_eq_true, if_false, String.toList_ofList]
  rfl

end

section

variable (n : NumberForm)

theorem digits_figures : ∀ c ∈ n.digits, isFigure c = true := by
  have figures := n.isFigure
  unfold NumberForm.chars at figures
  split at figures
  · exact (List.forall_mem_cons.1 figures).2
  · exact figures

theorem isZeroLed_digits : isZeroLed n.digits = false := by
  obtain ⟨d, rest, parts, digit⟩ := Json.Numeral.head_isDigit n.reads
  have reads := n.reads
  rw [parts] at reads ⊢
  have sign (c : Char) (other : ¬c.isDigit = true) : d ≠ c := by
    rintro rfl
    exact other digit
  by_cases zero : d = '0'
  · subst zero
    cases rest with
    | nil => rfl
    | cons c rest => simp [isZeroLed, Json.Numeral.not_zero_led reads]
  · simp [isZeroLed, zero, sign '-' (by decide), sign '+' (by decide)]

theorem isZeroLed_chars : isZeroLed n.chars = false := by
  obtain ⟨d, rest, parts, digit⟩ := Json.Numeral.head_isDigit n.reads
  have sign (c : Char) (other : ¬c.isDigit = true) : d ≠ c := by
    rintro rfl
    exact other digit
  have led : isZeroLed ('-' :: n.digits) = isZeroLed n.digits := by
    rw [parts]
    simp [isZeroLed, sign '-' (by decide), sign '+' (by decide)]
  unfold NumberForm.chars
  split
  · rw [led, isZeroLed_digits n]
  · exact isZeroLed_digits n

theorem natural?_digits : natural? n.digits = naturalIn? 10 n.digits := by
  have figures := digits_figures n
  unfold natural?
  split
  case h_4 => rw [isZeroLed_digits n]; rfl
  all_goals
    rename_i parts
    rw [parts] at figures
    exact absurd (figures _ (List.mem_cons_of_mem _ List.mem_cons_self)) (by decide)

def signed (negative : Bool) (n : Nat) : Int := if negative then -(n : Int) else n

theorem wholeNumber?_chars :
    wholeNumber? n.chars = (naturalIn? 10 n.digits).map (signed n.negative) := by
  obtain ⟨d, rest, parts, digit⟩ := Json.Numeral.head_isDigit n.reads
  rw [← natural?_digits n]
  unfold NumberForm.chars signed
  split
  · rw [wholeNumber?]
    cases natural? n.digits <;> rfl
  · unfold wholeNumber?
    split
    · rename_i sign
      rw [parts, List.cons.injEq] at sign
      exact absurd (sign.1 ▸ digit) (by decide)
    · rename_i sign
      rw [parts, List.cons.injEq] at sign
      exact absurd (sign.1 ▸ digit) (by decide)
    · rfl

end

theorem integer?_whole {n : NumberForm} (all : ∀ c ∈ n.digits, c.isDigit = true)
    (low : -Number.integerLimit ≤ signed n.negative (naturalOf n.digits))
    (high : signed n.negative (naturalOf n.digits) < Number.wordLimit) :
    integer? (String.ofList n.chars) =
      .ok (some (.integer (signed n.negative (naturalOf n.digits)))) := by
  obtain ⟨d, rest, parts, -⟩ := Json.Numeral.head_isDigit n.reads
  have whole := wholeNumber?_chars n
  rw [naturalIn?_ten all (by simp [parts]), Option.map_some] at whole
  unfold integer?
  rw [String.toList_ofList, whole]
  exact if_pos ⟨low, high⟩

theorem integer?_fraction {n : NumberForm} (some_other : ¬∀ c ∈ n.digits, c.isDigit = true) :
    integer? (String.ofList n.chars) = .ok none := by
  have none : naturalIn? 10 n.digits = none := by
    cases read : naturalIn? 10 n.digits with
    | none => rfl
    | some k => exact absurd (isDigit_of_naturalIn?_ten read) some_other
  have whole := wholeNumber?_chars n
  rw [none, Option.map_none] at whole
  unfold integer?
  rw [String.toList_ofList, whole]

theorem signed_of_portable {n : NumberForm} (all : ∀ c ∈ n.digits, c.isDigit = true)
    (portable : n.IsPortable) :
    Json.Numeral.whole n.negative (naturalOf n.digits) =
        .ofInt (signed n.negative (naturalOf n.digits)) ∧
      naturalOf n.digits ≤ Json.Numeral.significandLimit ∧
      -Number.integerLimit ≤ signed n.negative (naturalOf n.digits) ∧
      signed n.negative (naturalOf n.digits) < Number.wordLimit := by
  rw [NumberForm.IsPortable, if_pos (List.all_eq_true.2 all)] at portable
  simp only [Number.integerLimit, Number.wordLimit, Json.Numeral.significandLimit] at portable ⊢
  split at portable
  · rename_i negative
    have below : signed n.negative (naturalOf n.digits) = -(naturalOf n.digits : Int) := by
      simp [signed, negative]
    rw [below]
    exact ⟨by simp [Json.Numeral.whole, negative, portable.1], by omega, by omega, by omega⟩
  · rename_i positive
    have above : signed n.negative (naturalOf n.digits) = naturalOf n.digits := by
      simp [signed, positive]
    rw [above]
    exact ⟨by simp [Json.Numeral.whole, positive], by omega, by omega, by omega⟩

theorem ofPlain_number {n : NumberForm} (portable : n.IsPortable) :
    ∃ d, ofPlain (String.ofList n.chars) = .ok d ∧ d.toValue = .number n.number := by
  obtain ⟨d, rest, parts, -⟩ := Json.Numeral.head_isDigit n.reads
  have nonempty : n.chars ≠ [] := by
    unfold NumberForm.chars
    split <;> simp [parts]
  rw [ofPlain_figures n.isFigure nonempty]
  by_cases all : ∀ c ∈ n.digits, c.isDigit = true
  · have value := signed_of_portable all portable
    rw [integer?_whole all value.2.2.1 value.2.2.2]
    refine ⟨_, rfl, ?_⟩
    rw [Json.Numeral.read_whole n.reads all value.2.1, value.1]
    rfl
  · rw [NumberForm.IsPortable, if_neg (mt List.all_eq_true.1 all)] at portable
    obtain ⟨negative, x, number, read⟩ := portable
    rw [integer?_fraction all]
    refine ⟨.float (.finite negative x), ?_, by rw [number]; rfl⟩
    simp [Except.bind, isZeroLed_chars, float?_figures n.isFigure read]

end DescriptorCheck.Yaml.Scalar
