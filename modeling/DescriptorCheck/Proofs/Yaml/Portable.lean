import DescriptorCheck.Proofs.Json.Form
import DescriptorCheck.Yaml.Document

set_option autoImplicit false

/-! YAML text is stricter than JSON text in some ways: it has forbidden characters and further
line breaks, no surrogates, keys on one line, and tabs only inside of flow collections. It also
has whole numbers of its own. Forms that keep clear of all this are portable. -/
namespace DescriptorCheck.Json
open Yaml (Token)

/-- True of the characters that stand for themselves in strings of both formats. -/
def isPortable (c : Char) : Bool :=
  Yaml.isAllowed c && c != '\r' && c != '\u0085' && !Yaml.isBreak c

def Piece.IsPortable : Piece → Prop
  | .bare c _ => isPortable c = true
  | .sign _ _ _ => True
  | .unit _ _ => True
  | .pair _ _ _ => False

def TextForm.IsPortable (t : TextForm) : Prop := ∀ p ∈ t.pieces, p.IsPortable

/-- A key and its colon stand on one line, and not too far apart. -/
structure KeyForm.IsPortable (k : KeyForm) : Prop where
  text : k.text.IsPortable
  line : ∀ c ∈ k.behind.chars, c ≠ '\n' ∧ c ≠ '\r'
  length : k.chars.length ≤ Yaml.keyLimit

/-- Whole numbers have 64 bits, and zero has no sign; other numbers are read as the
nearest float. -/
def NumberForm.IsPortable (n : NumberForm) : Prop :=
  if n.digits.all Char.isDigit then
    if n.negative then
      Number.naturalOf n.digits ≠ 0 ∧ (Number.naturalOf n.digits : Int) ≤ Number.integerLimit
    else (Number.naturalOf n.digits : Int) < Number.wordLimit
  else
    ∃ negative x, n.number = .float (.finite negative x) ∧
      Number.Binary64.read? n.chars = some (.finite negative x)

mutual

def Form.IsPortable : Form → Prop
  | .word _ => True
  | .number n => n.IsPortable
  | .text t => t.IsPortable
  | .emptyArray _ => True
  | .array items => items.IsPortable
  | .emptyObject _ => True
  | .object entries => entries.IsPortable

def ItemForms.IsPortable : ItemForms → Prop
  | .last _ f _ => f.IsPortable
  | .more _ f _ rest => f.IsPortable ∧ rest.IsPortable

def EntryForms.IsPortable : EntryForms → Prop
  | .last _ key _ f _ => key.IsPortable ∧ f.IsPortable
  | .more _ key _ f _ rest => key.IsPortable ∧ f.IsPortable ∧ rest.IsPortable

end

mutual

def Form.KeysDiffer : Form → Prop
  | .word _ => True
  | .number _ => True
  | .text _ => True
  | .emptyArray _ => True
  | .array items => items.KeysDiffer
  | .emptyObject _ => True
  | .object entries => (entries.entries.map Prod.fst).Nodup ∧ entries.KeysDiffer

def ItemForms.KeysDiffer : ItemForms → Prop
  | .last _ f _ => f.KeysDiffer
  | .more _ f _ rest => f.KeysDiffer ∧ rest.KeysDiffer

def EntryForms.KeysDiffer : EntryForms → Prop
  | .last _ _ _ f _ => f.KeysDiffer
  | .more _ _ _ f _ rest => f.KeysDiffer ∧ rest.KeysDiffer

end

mutual

def Form.tokens : Form → List Token
  | .word w => [.scalar (String.ofList w.chars) true]
  | .number n => [.scalar (String.ofList n.chars) true]
  | .text t => [.scalar t.string false]
  | .emptyArray _ => [.flowSequenceStart, .flowSequenceEnd]
  | .array items => .flowSequenceStart :: items.tokens
  | .emptyObject _ => [.flowMappingStart, .flowMappingEnd]
  | .object entries => .flowMappingStart :: entries.tokens

def ItemForms.tokens : ItemForms → List Token
  | .last _ f _ => f.tokens ++ [.flowSequenceEnd]
  | .more _ f _ rest => f.tokens ++ .flowEntry :: rest.tokens

def EntryForms.tokens : EntryForms → List Token
  | .last _ key _ f _ =>
    .key :: .scalar key.text.string false :: .value :: (f.tokens ++ [.flowMappingEnd])
  | .more _ key _ f _ rest =>
    .key :: .scalar key.text.string false :: .value :: (f.tokens ++ .flowEntry :: rest.tokens)

end

/-- The part of a text from its first line break on. -/
def belowBreak (cs : List Char) : List Char := cs.dropWhile fun c => c != '\n' && c != '\r'

/-- True of the forms that go on behind blanks when they are read as YAML. -/
def Form.isPlain : Form → Bool
  | .word _ | .number _ => true
  | _ => false

/-- A text whose value is portable. No tab indents it, or a line behind it, where only the
blanks behind a word or a number are no indentation. -/
structure Script.IsPortable (s : Script) : Prop where
  before : '\t' ∉ s.before.chars
  form : s.form.IsPortable
  behind : s.form.isPlain = false → '\t' ∉ belowBreak s.behind.chars

theorem isPortable_of_between {c : Char} (low : 32 ≤ c.toNat) (high : c.toNat ≤ 126) :
    isPortable c = true := by
  have above : ' ' ≤ c := low
  have below : c ≤ '~' := high
  have other (d : Char) (apart : d.toNat < 32 ∨ 126 < d.toNat) : c ≠ d := by
    rintro rfl
    omega
  simp [isPortable, Yaml.isAllowed, Yaml.isBreak, above, below, other]

theorem isPortable_of_isDigit {c : Char} (digit : c.isDigit = true) : isPortable c = true := by
  simp only [Char.isDigit, Bool.and_eq_true, decide_eq_true_eq] at digit
  exact isPortable_of_between (Nat.le_trans (by decide) digit.1) (Nat.le_trans digit.2 (by decide))

theorem isPortable_of_digitValue? {base value : Nat} {c : Char}
    (digit : Number.digitValue? base c = some value) : isPortable c = true := by
  simp only [Number.digitValue?, Option.filter_eq_some_iff] at digit
  obtain ⟨found, -⟩ := digit
  split at found
  · rename_i decimal
    exact isPortable_of_isDigit decimal
  · split at found
    · rename_i lower
      simp only [Bool.and_eq_true, decide_eq_true_eq] at lower
      exact isPortable_of_between (Nat.le_trans (by decide) lower.1)
        (Nat.le_trans lower.2 (by decide))
    · split at found
      · rename_i upper
        simp only [Bool.and_eq_true, decide_eq_true_eq] at upper
        exact isPortable_of_between (Nat.le_trans (by decide) upper.1)
          (Nat.le_trans upper.2 (by decide))
      · contradiction

namespace CodeUnit

theorem digits (u : CodeUnit) : ∃ w x y z,
    Number.digitValue? 16 u.a = some w ∧ Number.digitValue? 16 u.b = some x ∧
      Number.digitValue? 16 u.c = some y ∧ Number.digitValue? 16 u.d = some z ∧
      u.value = ((w * 16 + x) * 16 + y) * 16 + z := by
  have reads := u.reads
  simp only [Quoted.hexUnit?, Number.naturalIn?, List.isEmpty_cons, Bool.false_eq_true, if_false,
    List.foldlM_cons, List.foldlM_nil, Option.bind_eq_bind, Option.bind_eq_some_iff,
    Option.map_eq_some_iff] at reads
  obtain ⟨_, ⟨w, first, rfl⟩, _, ⟨x, second, rfl⟩, _, ⟨y, third, rfl⟩, _, ⟨z, fourth, rfl⟩, same⟩ :=
    reads
  refine ⟨w, x, y, z, first, second, third, fourth, ?_⟩
  simpa using (Option.some.inj same).symm

theorem value_lt (u : CodeUnit) : u.value < 0x10000 := by
  obtain ⟨w, x, y, z, first, second, third, fourth, value⟩ := u.digits
  have := Number.digitValue?_lt first
  have := Number.digitValue?_lt second
  have := Number.digitValue?_lt third
  have := Number.digitValue?_lt fourth
  omega

theorem isPortable_chars (u : CodeUnit) : ∀ c ∈ u.chars, isPortable c = true := by
  obtain ⟨w, x, y, z, first, second, third, fourth, -⟩ := u.digits
  simp only [chars, List.forall_mem_cons]
  exact ⟨isPortable_of_digitValue? first, isPortable_of_digitValue? second,
    isPortable_of_digitValue? third, isPortable_of_digitValue? fourth, by simp⟩

end CodeUnit

theorem Piece.isPortable_chars {p : Piece} (portable : p.IsPortable) :
    ∀ c ∈ p.chars, isPortable c = true := by
  cases p with
  | bare c free => simpa [chars, IsPortable] using portable
  | sign letter c known =>
    have letters : ∀ sign ∈ signs, isPortable sign.1 = true := by decide
    simp only [chars, List.forall_mem_cons]
    exact ⟨by decide, letters (letter, c) known, by simp⟩
  | unit u single =>
    simp only [chars, List.forall_mem_cons]
    exact ⟨by decide, by decide, u.isPortable_chars⟩
  | pair u v paired => exact portable.elim

theorem TextForm.isPortable_chars {t : TextForm} (portable : t.IsPortable) :
    ∀ c ∈ t.chars, isPortable c = true := by
  simp only [chars, inner, List.forall_mem_cons, List.forall_mem_append, List.mem_flatMap]
  refine ⟨by decide, ?_, by decide, by simp⟩
  rintro c ⟨p, mem, inside⟩
  exact p.isPortable_chars (portable p mem) c inside

theorem isAllowed_of_isPortable {c : Char} (portable : isPortable c = true) :
    Yaml.isAllowed c = true := by
  simp only [isPortable, Bool.and_eq_true] at portable
  exact portable.1.1.1

theorem TextForm.isAllowed {t : TextForm} (portable : t.IsPortable) :
    ∀ c ∈ t.chars, Yaml.isAllowed c = true :=
  fun c mem => isAllowed_of_isPortable (t.isPortable_chars portable c mem)

theorem isPortable_of_isFigure {c : Char} (figure : Numeral.isFigure c = true) :
    isPortable c = true := by
  by_cases digit : c.isDigit = true
  · exact isPortable_of_isDigit digit
  · simp only [Numeral.isFigure, digit, Bool.false_or, Bool.or_eq_true, beq_iff_eq,
      or_assoc] at figure
    rcases figure with rfl | rfl | rfl | rfl | rfl <;> decide

namespace Blanks

theorem isAllowed (b : Blanks) : ∀ c ∈ b.chars, Yaml.isAllowed c = true := by
  intro c mem
  have blank := b.blank c mem
  simp only [isBlank, Bool.or_eq_true, beq_iff_eq, or_assoc] at blank
  rcases blank with rfl | rfl | rfl | rfl <;> decide

end Blanks

mutual

theorem Form.isAllowed {f : Form} (portable : f.IsPortable) :
    ∀ c ∈ f.chars, Yaml.isAllowed c = true := by
  cases f with
  | word w => exact List.all_eq_true.1 (by cases w <;> decide)
  | number n =>
    exact fun c mem => isAllowed_of_isPortable (isPortable_of_isFigure (n.isFigure c mem))
  | text t => exact t.isAllowed portable
  | emptyArray gap =>
    simp only [Form.chars, List.forall_mem_cons, List.forall_mem_append]
    exact ⟨by decide, gap.isAllowed, by decide, by simp⟩
  | array items =>
    simp only [Form.chars, List.forall_mem_cons]
    exact ⟨by decide, items.isAllowed portable⟩
  | emptyObject gap =>
    simp only [Form.chars, List.forall_mem_cons, List.forall_mem_append]
    exact ⟨by decide, gap.isAllowed, by decide, by simp⟩
  | object entries =>
    simp only [Form.chars, List.forall_mem_cons]
    exact ⟨by decide, entries.isAllowed portable⟩

theorem ItemForms.isAllowed {items : ItemForms} (portable : items.IsPortable) :
    ∀ c ∈ items.chars, Yaml.isAllowed c = true := by
  cases items with
  | last before f behind =>
    simp only [ItemForms.chars, List.forall_mem_cons, List.forall_mem_append]
    exact ⟨before.isAllowed, f.isAllowed portable, behind.isAllowed, by decide, by simp⟩
  | more before f behind rest =>
    simp only [ItemForms.chars, List.forall_mem_cons, List.forall_mem_append]
    exact ⟨before.isAllowed, f.isAllowed portable.1, behind.isAllowed, by decide,
      rest.isAllowed portable.2⟩

theorem EntryForms.isAllowed {entries : EntryForms} (portable : entries.IsPortable) :
    ∀ c ∈ entries.chars, Yaml.isAllowed c = true := by
  cases entries with
  | last before key gap f behind =>
    simp only [EntryForms.chars, KeyForm.chars, List.forall_mem_cons, List.forall_mem_append]
    exact ⟨before.isAllowed, ⟨key.text.isAllowed portable.1.text, key.behind.isAllowed⟩,
      by decide, gap.isAllowed, f.isAllowed portable.2, behind.isAllowed, by decide, by simp⟩
  | more before key gap f behind rest =>
    simp only [EntryForms.chars, KeyForm.chars, List.forall_mem_cons, List.forall_mem_append]
    exact ⟨before.isAllowed, ⟨key.text.isAllowed portable.1.text, key.behind.isAllowed⟩,
      by decide, gap.isAllowed, f.isAllowed portable.2.1, behind.isAllowed, by decide,
      rest.isAllowed portable.2.2⟩

end

theorem Script.isAllowed {s : Script} (portable : s.IsPortable) :
    ∀ c ∈ s.chars, Yaml.isAllowed c = true := by
  simp only [chars, List.forall_mem_append]
  exact ⟨s.before.isAllowed, s.form.isAllowed portable.form, s.behind.isAllowed⟩

end DescriptorCheck.Json
