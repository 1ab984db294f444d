import DescriptorCheck.Json.Reader
import DescriptorCheck.Proofs.Json.Numerals

set_option autoImplicit false

/-! A form is a value as a text writes it: with the blanks between its tokens, the pieces that
spell its strings and the digits of its numbers. A value has many forms. -/
namespace DescriptorCheck.Json
open Quoted (hexUnit? isLeading isTrailing)

structure Blanks where
  chars : List Char
  blank : ∀ c ∈ chars, isBlank c = true

structure CodeUnit where
  (a b c d : Char)
  value : Nat
  reads : hexUnit? a b c d = some value

def CodeUnit.chars (u : CodeUnit) : List Char := [u.a, u.b, u.c, u.d]

/-- The letters that may stand behind a backslash, and what they stand for there. -/
def signs : List (Char × Char) :=
  [('"', '"'), ('\\', '\\'), ('/', '/'), ('b', '\x08'), ('f', '\x0c'), ('n', '\n'), ('r', '\r'),
    ('t', '\t')]

inductive Piece where
  | bare (c : Char) (free : ¬c < ' ' ∧ c ≠ '"' ∧ c ≠ '\\')
  | sign (letter c : Char) (known : (letter, c) ∈ signs)
  | unit (u : CodeUnit) (single : isTrailing u.value = false ∧ isLeading u.value = false)
  | pair (u v : CodeUnit) (paired : isLeading u.value = true ∧ isTrailing v.value = true)

namespace Piece

def chars : Piece → List Char
  | bare c _ => [c]
  | sign letter _ _ => ['\\', letter]
  | unit u _ => '\\' :: 'u' :: u.chars
  | pair u v _ => '\\' :: 'u' :: (u.chars ++ '\\' :: 'u' :: v.chars)

def char : Piece → Char
  | bare c _ => c
  | sign _ c _ => c
  | unit u _ => Char.ofNat u.value
  | pair u v _ => Quoted.paired u.value v.value

end Piece

structure TextForm where
  pieces : List Piece

namespace TextForm

def inner (t : TextForm) : List Char := t.pieces.flatMap Piece.chars ++ ['"']

def chars (t : TextForm) : List Char := '"' :: t.inner

def string (t : TextForm) : String := String.ofList (t.pieces.map Piece.char)

end TextForm

structure NumberForm where
  negative : Bool
  digits : List Char
  number : Number
  reads : Numeral.read negative digits = .ok (number, [])

def NumberForm.chars (n : NumberForm) : List Char :=
  if n.negative then '-' :: n.digits else n.digits

theorem NumberForm.head?_digits_ne (n : NumberForm) : n.digits.head? ≠ some '-' := by
  obtain ⟨c, rest, parts, digit⟩ := Numeral.head_isDigit n.reads
  rw [parts]
  rintro ⟨⟩
  contradiction

theorem signed_inj {negative negative' : Bool} {digits digits' : List Char}
    (starts : digits.head? ≠ some '-') (starts' : digits'.head? ≠ some '-')
    (same : (if negative then '-' :: digits else digits) =
      if negative' then '-' :: digits' else digits') :
    negative = negative' ∧ digits = digits' := by
  cases negative <;> cases negative'
  · exact ⟨rfl, same⟩
  · have first : digits = '-' :: digits' := same
    exact absurd (congrArg List.head? first) starts
  · have first : '-' :: digits = digits' := same
    exact absurd (congrArg List.head? first.symm) starts'
  · exact ⟨rfl, (List.cons.inj same).2⟩

theorem NumberForm.isFigure (n : NumberForm) : ∀ c ∈ n.chars, Numeral.isFigure c = true := by
  obtain ⟨taken, same, figures, -⟩ := Numeral.read_takes n.negative n.reads
  rw [List.append_nil] at same
  subst same
  unfold chars
  split
  · exact List.forall_mem_cons.2 ⟨by decide, figures⟩
  · exact figures

inductive Word where
  | null
  | true
  | false

namespace Word

def chars : Word → List Char
  | null => ['n', 'u', 'l', 'l']
  | true => ['t', 'r', 'u', 'e']
  | false => ['f', 'a', 'l', 's', 'e']

def value : Word → Value
  | null => .null
  | true => .boolean Bool.true
  | false => .boolean Bool.false

end Word

structure KeyForm where
  text : TextForm
  behind : Blanks

def KeyForm.chars (k : KeyForm) : List Char := k.text.chars ++ k.behind.chars

mutual

inductive Form where
  | word (w : Word)
  | number (n : NumberForm)
  | text (t : TextForm)
  | emptyArray (gap : Blanks)
  | array (items : ItemForms)
  | emptyObject (gap : Blanks)
  | object (entries : EntryForms)

inductive ItemForms where
  | last (before : Blanks) (f : Form) (behind : Blanks)
  | more (before : Blanks) (f : Form) (behind : Blanks) (rest : ItemForms)

/-- One entry or more, their keys and values each between blanks. -/
inductive EntryForms where
  | last (before : Blanks) (key : KeyForm) (gap : Blanks) (f : Form) (behind : Blanks)
  | more (before : Blanks) (key : KeyForm) (gap : Blanks) (f : Form) (behind : Blanks)
    (rest : EntryForms)

end

mutual

def Form.chars : Form → List Char
  | .word w => w.chars
  | .number n => n.chars
  | .text t => t.chars
  | .emptyArray gap => '[' :: (gap.chars ++ [']'])
  | .array items => '[' :: items.chars
  | .emptyObject gap => '\x7b' :: (gap.chars ++ ['\x7d'])
  | .object entries => '\x7b' :: entries.chars

def ItemForms.chars : ItemForms → List Char
  | .last before f behind => before.chars ++ (f.chars ++ (behind.chars ++ [']']))
  | .more before f behind rest => before.chars ++ (f.chars ++ (behind.chars ++ ',' :: rest.chars))

def EntryForms.chars : EntryForms → List Char
  | .last before key gap f behind =>
    before.chars ++ (key.chars ++ ':' :: (gap.chars ++ (f.chars ++ (behind.chars ++ ['\x7d']))))
  | .more before key gap f behind rest =>
    before.chars ++
      (key.chars ++ ':' :: (gap.chars ++ (f.chars ++ (behind.chars ++ ',' :: rest.chars))))

end

mutual

def Form.value : Form → Value
  | .word w => w.value
  | .number n => .number n.number
  | .text t => .text t.string
  | .emptyArray _ => .array []
  | .array items => .array items.values
  | .emptyObject _ => .ofEntries []
  | .object entries => .ofEntries entries.entries

def ItemForms.values : ItemForms → List Value
  | .last _ f _ => [f.value]
  | .more _ f _ rest => f.value :: rest.values

def EntryForms.entries : EntryForms → List (String × Value)
  | .last _ key _ f _ => [(key.text.string, f.value)]
  | .more _ key _ f _ rest => (key.text.string, f.value) :: rest.entries

end

mutual

def Form.depth : Form → Nat
  | .word _ => 0
  | .number _ => 0
  | .text _ => 0
  | .emptyArray _ => 1
  | .array items => items.depth + 1
  | .emptyObject _ => 1
  | .object entries => entries.depth + 1

def ItemForms.depth : ItemForms → Nat
  | .last _ f _ => f.depth
  | .more _ f _ rest => max f.depth rest.depth

def EntryForms.depth : EntryForms → Nat
  | .last _ _ _ f _ => f.depth
  | .more _ _ _ f _ rest => max f.depth rest.depth

end

structure Script where
  before : Blanks
  form : Form
  behind : Blanks

def Script.chars (s : Script) : List Char := s.before.chars ++ (s.form.chars ++ s.behind.chars)

end DescriptorCheck.Json
