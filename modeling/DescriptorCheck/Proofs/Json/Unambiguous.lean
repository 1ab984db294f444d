import DescriptorCheck.Proofs.Json.Form
import DescriptorCheck.Proofs.Text.Span

set_option autoImplicit false

namespace DescriptorCheck.Json

theorem append_inj_of_ends {p : Char → Bool} {cs ds rest others : List Char}
    (mine : ∀ c ∈ cs, p c = true) (theirs : ∀ c ∈ ds, p c = true)
    (ends : ∀ c ∈ rest.head?, p c = false) (others_end : ∀ c ∈ others.head?, p c = false)
    (same : cs ++ rest = ds ++ others) : cs = ds ∧ rest = others := by
  obtain rfl : cs = ds := by
    rw [← Text.takeWhile_append_of_ends mine ends, same,
      Text.takeWhile_append_of_ends theirs others_end]
  exact ⟨rfl, List.append_cancel_left same⟩

namespace Blanks

variable {b gap : Blanks} {rest others : List Char}

theorem append_inj (ends : ∀ c ∈ rest.head?, isBlank c = false)
    (others_end : ∀ c ∈ others.head?, isBlank c = false)
    (same : b.chars ++ rest = gap.chars ++ others) : b = gap ∧ rest = others := by
  obtain ⟨chars, left⟩ := append_inj_of_ends b.blank gap.blank ends others_end same
  cases b
  cases gap
  cases chars
  exact ⟨rfl, left⟩

theorem closed_inj {c : Char} (solid : isBlank c = false)
    (same : (b.chars ++ [c]) ++ rest = (gap.chars ++ [c]) ++ others) : b = gap ∧ rest = others := by
  rw [List.append_assoc, List.append_assoc] at same
  obtain ⟨equal, left⟩ := append_inj (by simpa using solid) (by simpa using solid) same
  exact ⟨equal, (List.cons.inj left).2⟩

theorem ends_number (b : Blanks) (ends : ∀ c ∈ rest.head?, Numeral.isFigure c = false) :
    ∀ c ∈ (b.chars ++ rest).head?, Numeral.isFigure c = false := by
  obtain ⟨_ | ⟨c, chars⟩, blank⟩ := b
  · exact ends
  · rintro _ ⟨⟩
    have here := blank c List.mem_cons_self
    simp only [isBlank, Bool.or_eq_true, beq_iff_eq, or_assoc] at here
    rcases here with rfl | rfl | rfl | rfl <;> decide

end Blanks

theorem CodeUnit.append_inj {u v : CodeUnit} {rest others : List Char}
    (same : u.chars ++ rest = v.chars ++ others) : u = v ∧ rest = others := by
  obtain ⟨a, b, c, d, m, reads⟩ := u
  obtain ⟨_, _, _, _, n, again⟩ := v
  simp only [chars, List.cons_append, List.nil_append, List.cons.injEq] at same
  obtain ⟨rfl, rfl, rfl, rfl, left⟩ := same
  obtain rfl : m = n := Option.some.inj (reads.symm.trans again)
  exact ⟨rfl, left⟩

theorem Piece.append_inj {p q : Piece} {rest others : List Char}
    (same : p.chars ++ rest = q.chars ++ others) : p = q ∧ rest = others := by
  have letter_ne {letter c : Char} (known : (letter, c) ∈ signs) : letter ≠ 'u' := by
    have letters : ∀ sign ∈ signs, sign.1 ≠ 'u' := by decide
    exact letters _ known
  cases p with
  | bare c free =>
    cases q with
    | bare d _ =>
      simp only [chars, List.cons_append, List.nil_append, List.cons.injEq] at same
      obtain ⟨rfl, left⟩ := same
      exact ⟨rfl, left⟩
    | _ => exact absurd (List.cons.inj same).1 free.2.2
  | sign letter c known =>
    cases q with
    | bare d free => exact absurd (List.cons.inj same).1.symm free.2.2
    | sign letter' d known' =>
      simp only [chars, List.cons_append, List.nil_append, List.cons.injEq] at same
      obtain ⟨-, rfl, left⟩ := same
      have one : ∀ sign ∈ signs, ∀ other ∈ signs, sign.1 = other.1 → sign.2 = other.2 := by decide
      obtain rfl : c = d := one _ known _ known' rfl
      exact ⟨rfl, left⟩
    | _ => exact absurd (List.cons.inj (List.cons.inj same).2).1 (letter_ne known)
  | unit u single =>
    cases q with
    | bare d free => exact absurd (List.cons.inj same).1.symm free.2.2
    | sign letter d known =>
      exact absurd (List.cons.inj (List.cons.inj same).2).1.symm (letter_ne known)
    | unit v _ =>
      obtain ⟨rfl, left⟩ := CodeUnit.append_inj (List.cons.inj (List.cons.inj same).2).2
      exact ⟨rfl, left⟩
    | pair v w paired =>
      -- The same four digits come first, but only a pair starts with a leading unit.
      simp only [chars, List.cons_append, List.cons.injEq, true_and, List.append_assoc] at same
      obtain ⟨rfl, -⟩ := CodeUnit.append_inj same
      exact absurd paired.1 (by simp [single.2])
  | pair u v paired =>
    cases q with
    | bare d free => exact absurd (List.cons.inj same).1.symm free.2.2
    | sign letter d known =>
      exact absurd (List.cons.inj (List.cons.inj same).2).1.symm (letter_ne known)
    | unit w single =>
      simp only [chars, List.cons_append, List.cons.injEq, true_and, List.append_assoc] at same
      obtain ⟨rfl, -⟩ := CodeUnit.append_inj same
      exact absurd paired.1 (by simp [single.2])
    | pair w x _ =>
      simp only [chars, List.cons_append, List.cons.injEq, true_and, List.append_assoc] at same
      obtain ⟨rfl, second⟩ := CodeUnit.append_inj same
      obtain ⟨rfl, left⟩ := CodeUnit.append_inj (List.cons.inj (List.cons.inj second).2).2
      exact ⟨rfl, left⟩

theorem Piece.start_ne_quote (p : Piece) (rest tail : List Char) :
    p.chars ++ rest ≠ '"' :: tail := by
  cases p with
  | bare c free => exact fun same => free.2.1 (List.cons.inj same).1
  | sign | unit | pair => simp [chars]

theorem TextForm.append_inj {t u : TextForm} {rest others : List Char}
    (same : t.chars ++ rest = u.chars ++ others) : t = u ∧ rest = others := by
  obtain ⟨pieces⟩ := t
  obtain ⟨spelled⟩ := u
  have pieces_inj (pieces spelled : List Piece)
      (same : pieces.flatMap Piece.chars ++ '"' :: rest =
        spelled.flatMap Piece.chars ++ '"' :: others) : pieces = spelled ∧ rest = others := by
    induction pieces generalizing spelled with
    | nil =>
      cases spelled with
      | nil => exact ⟨rfl, (List.cons.inj same).2⟩
      | cons q spelled =>
        rw [List.flatMap_cons, List.append_assoc] at same
        exact absurd same.symm (q.start_ne_quote _ _)
    | cons p pieces ih =>
      rw [List.flatMap_cons, List.append_assoc] at same
      cases spelled with
      | nil => exact absurd same (p.start_ne_quote _ _)
      | cons q spelled =>
        rw [List.flatMap_cons, List.append_assoc] at same
        obtain ⟨rfl, further⟩ := Piece.append_inj same
        obtain ⟨rfl, left⟩ := ih spelled further
        exact ⟨rfl, left⟩
  simp only [chars, inner, List.cons_append, List.append_assoc, List.nil_append, List.cons.injEq,
    true_and] at same
  obtain ⟨rfl, left⟩ := pieces_inj pieces spelled same
  exact ⟨rfl, left⟩

theorem KeyForm.append_inj {k l : KeyForm} {rest others : List Char}
    (same : k.chars ++ ':' :: rest = l.chars ++ ':' :: others) : k = l ∧ rest = others := by
  obtain ⟨text, behind⟩ := k
  obtain ⟨text', behind'⟩ := l
  simp only [chars, List.append_assoc] at same
  obtain ⟨rfl, gap⟩ := TextForm.append_inj same
  obtain ⟨rfl, left⟩ := Blanks.append_inj (by simp [isBlank]) (by simp [isBlank]) gap
  exact ⟨rfl, (List.cons.inj left).2⟩

theorem NumberForm.append_inj {n m : NumberForm} {rest others : List Char}
    (ends : ∀ c ∈ rest.head?, Numeral.isFigure c = false)
    (others_end : ∀ c ∈ others.head?, Numeral.isFigure c = false)
    (same : n.chars ++ rest = m.chars ++ others) : n = m ∧ rest = others := by
  obtain ⟨chars, left⟩ := append_inj_of_ends n.isFigure m.isFigure ends others_end same
  refine ⟨?_, left⟩
  obtain ⟨signs, same_digits⟩ := signed_inj n.head?_digits_ne m.head?_digits_ne chars
  obtain ⟨negative, digits, number, reads⟩ := n
  obtain ⟨negative', digits', number', again⟩ := m
  obtain rfl : negative = negative' := signs
  obtain rfl : digits = digits' := same_digits
  obtain ⟨rfl, -⟩ := Prod.mk.inj (Except.ok.inj (reads.symm.trans again))
  rfl

theorem Word.append_inj {w x : Word} {rest others : List Char}
    (same : w.chars ++ rest = x.chars ++ others) : w = x ∧ rest = others := by
  cases w <;> cases x <;> simp [chars] at same ⊢ <;> exact same

/-- What a value is, as far as its first character tells. -/
inductive Kind where
  | word
  | number
  | text
  | array
  | object

def Kind.ofStart (c : Char) : Kind :=
  if c.isDigit || c == '-' then number
  else if c == '"' then text
  else if c == '[' then array
  else if c == '\x7b' then object
  else word

def Form.kind : Form → Kind
  | .word _ => .word
  | .number _ => .number
  | .text _ => .text
  | .emptyArray _ => .array
  | .array _ => .array
  | .emptyObject _ => .object
  | .object _ => .object

theorem Form.start (f : Form) :
    ∃ c tail, f.chars = c :: tail ∧ Kind.ofStart c = f.kind ∧ isBlank c = false ∧ c ≠ ']' := by
  cases f with
  | word w => cases w <;> exact ⟨_, _, rfl, rfl, rfl, by decide⟩
  | number n =>
    obtain ⟨d, digits, parts, digit⟩ := Numeral.head_isDigit n.reads
    have other (c : Char) (unlike : c.isDigit = false) : d ≠ c := by
      rintro rfl
      simp [digit] at unlike
    cases sign : n.negative with
    | false =>
      exact ⟨d, digits, by simp [chars, NumberForm.chars, sign, parts],
        by simp [Kind.ofStart, digit, kind], by simp [isBlank, other], other _ rfl⟩
    | true =>
      exact ⟨'-', n.digits, by simp [chars, NumberForm.chars, sign], rfl, rfl, by decide⟩
  | text | emptyArray | array | emptyObject | object => exact ⟨_, _, rfl, rfl, rfl, by decide⟩

theorem Form.start_solid (f : Form) (rest : List Char) :
    ∀ c ∈ (f.chars ++ rest).head?, isBlank c = false := by
  obtain ⟨c, tail, spelled, -, blank, -⟩ := f.start
  rw [spelled]
  rintro _ ⟨⟩
  exact blank

theorem Form.kind_inj {f g : Form} {rest others : List Char}
    (same : f.chars ++ rest = g.chars ++ others) : f.kind = g.kind := by
  obtain ⟨c, tail, spelled, kind, -⟩ := f.start
  obtain ⟨d, behind, spelled', kind', -⟩ := g.start
  rw [spelled, spelled'] at same
  rw [← kind, ← kind', (List.cons.inj same).1]

theorem ItemForms.chars_ne_close (items : ItemForms) (gap : Blanks) (rest others : List Char) :
    items.chars ++ rest ≠ (gap.chars ++ [']']) ++ others := by
  have first (before : Blanks) (f : Form) (behind : List Char) :
      before.chars ++ (f.chars ++ behind) ≠ (gap.chars ++ [']']) ++ others := by
    obtain ⟨c, tail, spelled, -, blank, ne⟩ := f.start
    intro same
    rw [spelled, List.append_assoc] at same
    obtain ⟨-, left⟩ := Blanks.append_inj (by simpa using blank) (by simp [isBlank]) same
    exact ne (List.cons.inj left).1
  cases items <;> simpa [chars] using first _ _ _

theorem EntryForms.chars_ne_close (entries : EntryForms) (gap : Blanks) (rest others : List Char) :
    entries.chars ++ rest ≠ (gap.chars ++ ['\x7d']) ++ others := by
  have first (before : Blanks) (key : KeyForm) (behind : List Char) :
      before.chars ++ (key.chars ++ behind) ≠ (gap.chars ++ ['\x7d']) ++ others := by
    intro same
    rw [List.append_assoc gap.chars] at same
    obtain ⟨-, left⟩ := Blanks.append_inj (by simp [KeyForm.chars, TextForm.chars, isBlank])
      (by simp [isBlank]) same
    simp [KeyForm.chars, TextForm.chars] at left
  cases entries <;> simpa [chars] using first _ _ _

/-- No other form spells the same, whatever follows that does not make a number longer. -/
def Form.IsDetermined (f : Form) : Prop :=
  ∀ ⦃g : Form⦄ ⦃rest others : List Char⦄, (∀ c ∈ rest.head?, Numeral.isFigure c = false) →
    (∀ c ∈ others.head?, Numeral.isFigure c = false) →
    f.chars ++ rest = g.chars ++ others → f = g ∧ rest = others

def closers : List Char := [',', ']', '\x7d']

theorem Form.IsDetermined.between {f g : Form} (determined : f.IsDetermined)
    {before before' behind behind' : Blanks} {c d : Char} {rest others : List Char}
    (closes : c ∈ closers) (closes' : d ∈ closers)
    (same : before.chars ++ (f.chars ++ (behind.chars ++ c :: rest)) =
      before'.chars ++ (g.chars ++ (behind'.chars ++ d :: others))) :
    before = before' ∧ f = g ∧ behind = behind' ∧ c = d ∧ rest = others := by
  have classes : ∀ c ∈ closers, isBlank c = false ∧ Numeral.isFigure c = false := by
    simp [closers, isBlank, Numeral.isFigure]
  have solid {c : Char} (closes : c ∈ closers) (rest : List Char) :
      ∀ d ∈ (c :: rest).head?, isBlank d = false := by
    rintro _ ⟨⟩
    exact (classes c closes).1
  have ends (behind : Blanks) {c : Char} (closes : c ∈ closers) (rest : List Char) :
      ∀ d ∈ (behind.chars ++ c :: rest).head?, Numeral.isFigure d = false := by
    refine behind.ends_number ?_
    rintro _ ⟨⟩
    exact (classes c closes).2
  obtain ⟨rfl, form⟩ := Blanks.append_inj (f.start_solid _) (g.start_solid _) same
  obtain ⟨rfl, gap⟩ := determined (ends behind closes rest) (ends behind' closes' others) form
  obtain ⟨rfl, left⟩ := Blanks.append_inj (solid closes rest) (solid closes' others) gap
  exact ⟨rfl, rfl, rfl, List.cons.inj left⟩

theorem Form.IsDetermined.entry {f g : Form} (determined : f.IsDetermined)
    {before before' gap gap' behind behind' : Blanks} {key key' : KeyForm} {c d : Char}
    {rest others : List Char} (closes : c ∈ closers) (closes' : d ∈ closers)
    (same : before.chars ++
        (key.chars ++ ':' :: (gap.chars ++ (f.chars ++ (behind.chars ++ c :: rest)))) =
      before'.chars ++
        (key'.chars ++ ':' :: (gap'.chars ++ (g.chars ++ (behind'.chars ++ d :: others))))) :
    before = before' ∧ key = key' ∧ gap = gap' ∧ f = g ∧ behind = behind' ∧ c = d ∧
      rest = others := by
  have quote (key : KeyForm) (behind : List Char) :
      ∀ c ∈ (key.chars ++ behind).head?, isBlank c = false := by
    rintro _ ⟨⟩
    rfl
  obtain ⟨rfl, keyed⟩ := Blanks.append_inj (quote key _) (quote key' _) same
  obtain ⟨rfl, value⟩ := KeyForm.append_inj keyed
  exact ⟨rfl, rfl, determined.between closes closes' value⟩

mutual

theorem Form.isDetermined (f : Form) : f.IsDetermined := by
  intro g rest others ends others_end same
  have kind := Form.kind_inj same
  -- Forms of two kinds do not start alike, so only forms of one kind are compared.
  cases f with
  | word w =>
    cases g with
    | word x =>
      obtain ⟨rfl, left⟩ := Word.append_inj same
      exact ⟨rfl, left⟩
    | _ => contradiction
  | number n =>
    cases g with
    | number m =>
      obtain ⟨rfl, left⟩ := NumberForm.append_inj ends others_end same
      exact ⟨rfl, left⟩
    | _ => contradiction
  | text t =>
    cases g with
    | text u =>
      obtain ⟨rfl, left⟩ := TextForm.append_inj same
      exact ⟨rfl, left⟩
    | _ => contradiction
  | emptyArray gap =>
    cases g with
    | emptyArray gap' =>
      obtain ⟨rfl, left⟩ := Blanks.closed_inj rfl (List.cons.inj same).2
      exact ⟨rfl, left⟩
    | array items => exact absurd (List.cons.inj same).2.symm (items.chars_ne_close _ _ _)
    | _ => contradiction
  | array items =>
    cases g with
    | emptyArray gap => exact absurd (List.cons.inj same).2 (items.chars_ne_close _ _ _)
    | array items' =>
      obtain ⟨rfl, left⟩ := items.append_inj (List.cons.inj same).2
      exact ⟨rfl, left⟩
    | _ => contradiction
  | emptyObject gap =>
    cases g with
    | emptyObject gap' =>
      obtain ⟨rfl, left⟩ := Blanks.closed_inj rfl (List.cons.inj same).2
      exact ⟨rfl, left⟩
    | object entries => exact absurd (List.cons.inj same).2.symm (entries.chars_ne_close _ _ _)
    | _ => contradiction
  | object entries =>
    cases g with
    | emptyObject gap => exact absurd (List.cons.inj same).2 (entries.chars_ne_close _ _ _)
    | object entries' =>
      obtain ⟨rfl, left⟩ := entries.append_inj (List.cons.inj same).2
      exact ⟨rfl, left⟩
    | _ => contradiction

theorem ItemForms.append_inj (items : ItemForms) {items' : ItemForms} {rest others : List Char}
    (same : items.chars ++ rest = items'.chars ++ others) : items = items' ∧ rest = others := by
  cases items with
  | last before f behind =>
    cases items' with
    | last before' g behind' =>
      simp only [ItemForms.chars, List.append_assoc, List.cons_append, List.nil_append] at same
      obtain ⟨rfl, rfl, rfl, -, left⟩ := f.isDetermined.between (by decide) (by decide) same
      exact ⟨rfl, left⟩
    | more before' g behind' further =>
      simp only [ItemForms.chars, List.append_assoc, List.cons_append, List.nil_append] at same
      obtain ⟨-, -, -, closes, -⟩ := f.isDetermined.between (by decide) (by decide) same
      contradiction
  | more before f behind further =>
    cases items' with
    | last before' g behind' =>
      simp only [ItemForms.chars, List.append_assoc, List.cons_append, List.nil_append] at same
      obtain ⟨-, -, -, closes, -⟩ := f.isDetermined.between (by decide) (by decide) same
      contradiction
    | more before' g behind' further' =>
      simp only [ItemForms.chars, List.append_assoc, List.cons_append] at same
      obtain ⟨rfl, rfl, rfl, -, more⟩ := f.isDetermined.between (by decide) (by decide) same
      obtain ⟨rfl, left⟩ := further.append_inj more
      exact ⟨rfl, left⟩

theorem EntryForms.append_inj (entries : EntryForms) {entries' : EntryForms}
    {rest others : List Char} (same : entries.chars ++ rest = entries'.chars ++ others) :
    entries = entries' ∧ rest = others := by
  cases entries with
  | last before key gap f behind =>
    cases entries' with
    | last before' key' gap' g behind' =>
      simp only [EntryForms.chars, List.append_assoc, List.cons_append, List.nil_append] at same
      obtain ⟨rfl, rfl, rfl, rfl, rfl, -, left⟩ :=
        f.isDetermined.entry (by decide) (by decide) same
      exact ⟨rfl, left⟩
    | more before' key' gap' g behind' further =>
      simp only [EntryForms.chars, List.append_assoc, List.cons_append, List.nil_append] at same
      obtain ⟨-, -, -, -, -, closes, -⟩ := f.isDetermined.entry (by decide) (by decide) same
      contradiction
  | more before key gap f behind further =>
    cases entries' with
    | last before' key' gap' g behind' =>
      simp only [EntryForms.chars, List.append_assoc, List.cons_append, List.nil_append] at same
      obtain ⟨-, -, -, -, -, closes, -⟩ := f.isDetermined.entry (by decide) (by decide) same
      contradiction
    | more before' key' gap' g behind' further' =>
      simp only [EntryForms.chars, List.append_assoc, List.cons_append] at same
      obtain ⟨rfl, rfl, rfl, rfl, rfl, -, more⟩ :=
        f.isDetermined.entry (by decide) (by decide) same
      obtain ⟨rfl, left⟩ := further.append_inj more
      exact ⟨rfl, left⟩

end

theorem Script.chars_injective : Function.Injective Script.chars := by
  intro s t same
  have ends (behind : Blanks) : ∀ c ∈ behind.chars.head?, Numeral.isFigure c = false := by
    have nothing : ∀ c ∈ ([] : List Char).head?, Numeral.isFigure c = false := by simp
    simpa using behind.ends_number nothing
  obtain ⟨before, f, behind⟩ := s
  obtain ⟨before', g, behind'⟩ := t
  obtain ⟨rfl, form⟩ := Blanks.append_inj (f.start_solid _) (g.start_solid _) same
  obtain ⟨rfl, left⟩ := f.isDetermined (ends behind) (ends behind') form
  obtain rfl : behind = behind' := by
    cases behind
    cases behind'
    cases left
    rfl
  rfl

end DescriptorCheck.Json
