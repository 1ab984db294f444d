import DescriptorCheck.Proofs.Check.Pointwise
import DescriptorCheck.Proofs.Json.Literals
import DescriptorCheck.Proofs.Json.Places
import DescriptorCheck.Proofs.Json.Unambiguous
import DescriptorCheck.Proofs.Path.Lookup

set_option autoImplicit false

namespace DescriptorCheck

namespace Json

namespace IntegerLiteral

variable (n : IntegerLiteral)

theorem sign_or_isDigit {c : Char} (mem : c ∈ n.chars) : c = '-' ∨ c.isDigit = true := by
  unfold chars at mem
  split at mem
  · rcases List.mem_cons.1 mem with rfl | digit
    · exact .inl rfl
    · exact .inr (n.isDigit c digit)
  · exact .inr (n.isDigit c mem)

theorem head?_digits_ne : n.digits.head? ≠ some '-' := by
  intro first
  exact absurd (n.isDigit _ (List.mem_of_head? first)) (by decide)

theorem exists_chars_eq_cons : ∃ c rest, n.chars = c :: rest := by
  obtain ⟨c, rest, digits⟩ := List.exists_cons_of_ne_nil n.nonempty
  unfold chars
  split
  · exact ⟨_, _, rfl⟩
  · exact ⟨c, rest, digits⟩

theorem isBlank_text : Text.isBlank n.text = false := by
  obtain ⟨c, rest, chars⟩ := n.exists_chars_eq_cons
  have solid : Text.isBlankChar c = false := by
    rcases n.sign_or_isDigit (by simp [chars] : c ∈ n.chars) with rfl | digit
    · decide
    · exact Text.isBlankChar_of_isDigit digit
  simp [Text.isBlank, text, chars, solid]

/-- A form that is spelled like an integer is a number with the sign and the digits. -/
theorem exists_number_of_chars {f : Form} (spelled : f.chars = n.chars) :
    ∃ g : NumberForm, f = .number g ∧
      Numeral.read n.negative n.digits = .ok (g.number, []) := by
  obtain ⟨c, rest, chars⟩ := n.exists_chars_eq_cons
  obtain ⟨d, tail, start, kind, -⟩ := f.start
  obtain ⟨rfl, -⟩ := List.cons.inj (start.symm.trans (spelled.trans chars))
  have number : f.kind = .number := by
    rw [← kind]
    rcases n.sign_or_isDigit (by simp [chars] : d ∈ n.chars) with rfl | digit
    · rfl
    · simp [Kind.ofStart, digit]
  obtain ⟨g, rfl⟩ : ∃ g : NumberForm, f = .number g := by
    cases f with
    | number g => exact ⟨g, rfl⟩
    | _ => contradiction
  obtain ⟨sign, digits⟩ := signed_inj g.head?_digits_ne n.head?_digits_ne spelled
  exact ⟨g, rfl, sign ▸ digits ▸ g.reads⟩

theorem number_cases {number : Number}
    (reads : Numeral.read n.negative n.digits = .ok (number, [])) :
    n.Fits ∧ number = .integer (.ofInt n.value) ∧ number.display = n.text ∨
      ¬n.Fits ∧ (∃ x, number = .float x) ∧ Text.endsWith number.display ".0" = true ∧
        number.display ≠ n.text := by
  by_cases fits : n.Fits
  · have same := number_of_fits reads fits
    refine .inl ⟨fits, same, ?_⟩
    rw [same, Number.display, n.toInt_ofInt_value fits, n.text_eq]
  · obtain ⟨x, same, whole⟩ := exists_number_of_not_fits reads fits
    have ends : ['.', '0'] <:+ number.display.toList := by
      rw [same, Number.display, Number.Binary64.display_of_isWhole whole, String.toList_append]
      exact List.suffix_append _ _
    refine .inr ⟨fits, ⟨_, same⟩, List.isSuffixOf_iff_suffix.2 ends, fun shown => ?_⟩
    -- The text of an integer has no point.
    rw [shown, text, String.toList_ofList] at ends
    have point : '.' ∈ n.chars := ends.mem (by simp)
    rcases n.sign_or_isDigit point with sign | digit <;> contradiction

end IntegerLiteral

end Json

namespace Query

/-- A check for a text keeps the elements in scope that have the text as their form. -/
theorem exists_check_equals (q : Query) {text : String} (spelt : Text.isBlank text = false) :
    ∃ r, q.check (.equals text) = .ok r ∧ ∀ e,
      e ∈ r.workingElements ↔
        e ∈ q.workingElements ∧ q.inScope e.path = true ∧ e.value.form? = some text := by
  have accepted : BlankArgument.first? (Predicate.arguments (.equals text)) = none :=
    (BlankArgument.first?_eq_none_iff _).2 (by simpa [Predicate.arguments] using spelt)
  refine ⟨_, (q.check_eq_ok_iff _ _).2 ⟨accepted, rfl⟩, fun e => ?_⟩
  change e ∈ (q.advance (.equals text)).workingElements ↔ _
  rw [q.workingElements_advance, List.mem_filter]
  simp [Predicate.accepts]

end Query

namespace Document
open Json (IntegerLiteral Script)

/-- Integers at any position of an accepted text, as the text writes them. The last clause
is about all elements with the value of the integer, in whatever query. -/
theorem integers_match_as_written {text : String} {d : Document}
    (accepted : parse .json text = .ok d) :
    ∃ s : Script, (∀ t : Script, t.chars = text.toList ↔ t = s) ∧
      ∀ (p : Position) (f : Json.Form) (n : IntegerLiteral), s.form.at? p = some f →
        f.chars = n.chars →
        ∃ v, d.root.at? p = some v ∧ (p ≠ [] → ⟨p.path, v⟩ ∈ d.elements) ∧
          (v.form? = some n.text ↔ n.Fits) ∧
          (n.Fits → ∃ i : Int64, v = .number (.integer i) ∧ i.toInt = n.value) ∧
          (¬n.Fits → (∃ x, v = .number (.float x)) ∧ Text.endsWith v.display ".0" = true) ∧
          ∀ q : Query, ∃ r, q.check (.equals n.text) = .ok r ∧
            ∀ e : Element, e.value = v →
              (e ∈ r.workingElements ↔
                e ∈ q.workingElements ∧ q.inScope e.path = true ∧ n.Fits) := by
  obtain ⟨read, -⟩ := parse_json_ok accepted
  obtain ⟨s, written, value, -⟩ := Json.readAll_ok read
  have only (t : Script) : t.chars = text.toList ↔ t = s := by
    rw [← written]
    exact Json.Script.chars_injective.eq_iff
  refine ⟨s, only, fun p f n here spelled => ?_⟩
  obtain ⟨g, rfl, reads⟩ := n.exists_number_of_chars spelled
  have found : d.root.at? p = some (.number g.number) := by
    rw [← value, s.form.at?_value, here]
    rfl
  have listed (nonempty : p ≠ []) : ⟨p.path, .number g.number⟩ ∈ d.elements :=
    (Value.mem_flatten_iff (distinctKeys_parse accepted) _).2 ⟨p, nonempty, rfl, found⟩
  have form : (Value.number g.number).form? = some n.text ↔ n.Fits := by
    simp only [Value.form?, Value.display, Option.some.injEq]
    rcases n.number_cases reads with ⟨fits, -, shown⟩ | ⟨large, -, -, shown⟩
    · exact iff_of_true shown fits
    · exact iff_of_false shown large
  refine ⟨_, found, listed, form, fun fits => ?_, fun large => ?_, fun q => ?_⟩
  · exact ⟨_, congrArg Value.number (IntegerLiteral.number_of_fits reads fits),
      n.toInt_ofInt_value fits⟩
  · rcases n.number_cases reads with ⟨fits, -⟩ | ⟨-, ⟨x, float⟩, ends, -⟩
    · exact absurd fits large
    · exact ⟨⟨x, congrArg Value.number float⟩, by rwa [Value.display]⟩
  · obtain ⟨r, checked, kept⟩ := q.exists_check_equals n.isBlank_text
    refine ⟨r, checked, fun e same => ?_⟩
    rw [kept, same, form]

def leastForm : Json.NumberForm :=
  ⟨true, Number.naturalDigits 9223372036854775808, .ofInt (-9223372036854775808), by rfl⟩

def belowForm : Json.NumberForm :=
  ⟨true, Number.naturalDigits 9223372036854775809, .ofInt (-9223372036854775809), by rfl⟩

theorem integers_match_as_written_around_least :
    let least := IntegerLiteral.ofInt (-9223372036854775808)
    let below := IntegerLiteral.ofInt (-9223372036854775809)
    ∃ d v w, parse .json "[-9223372036854775808, -9223372036854775809]" = .ok d ∧
      d.root.at? [.index 0] = some v ∧ d.root.at? [.index 1] = some w ∧
      v.form? = some least.text ∧ w.form? ≠ some below.text ∧
      Text.endsWith w.display ".0" = true := by
  intro least below
  let none : Json.Blanks := ⟨[], by simp⟩
  let space : Json.Blanks := ⟨[' '], by simp [Json.isBlank]⟩
  let script : Script :=
    ⟨none, .array (.more none (.number leastForm) none
      (.last space (.number belowForm) none)), none⟩
  have written : script.chars = "[-9223372036854775808, -9223372036854775809]".toList := by rfl
  have accepted : parse .json "[-9223372036854775808, -9223372036854775809]" =
      .ok ⟨script.form.value, some "[-9223372036854775808, -9223372036854775809]"⟩ := by rfl
  obtain ⟨s, only, matched⟩ := integers_match_as_written accepted
  obtain rfl : script = s := (only script).1 written
  obtain ⟨v, first, -, form, -⟩ := matched [.index 0] (.number leastForm) least (by rfl) (by rfl)
  obtain ⟨w, second, -, others, -, float, -⟩ :=
    matched [.index 1] (.number belowForm) below (by rfl) (by rfl)
  have fits : least.Fits := by decide
  have large : ¬below.Fits := by decide
  exact ⟨_, v, w, accepted, first, second, form.2 fits, mt others.1 large, (float large).2⟩

end Document

end DescriptorCheck
