import DescriptorCheck.Proofs.Yaml.Scalars
import DescriptorCheck.Proofs.Yaml.Steps

set_option autoImplicit false

/-! A plain scalar takes the blanks behind it along, so scanning a form stops behind it or
behind those blanks. The induction is over the form, on any level of flow collections. -/
namespace DescriptorCheck.Yaml.Scan
open Json (Blanks TextForm KeyForm Form ItemForms EntryForms)

section

variable {s : Scan} {tokens : List Token} {depth : Nat} {gap : Blanks} {rest : List Char}

/-- The scan behind a scalar that ends at `c`, with another candidate. -/
def scalarAt (candidate : Option Candidate) (text : String) (plain : Bool) (c : Cursor)
    (keyAllowed : Bool) (s : Scan) : Scan :=
  { push (.scalar text plain) c { s with candidate } with keyAllowed }

theorem stands_scalarAt {text : List Char} (stands : s.Stands tokens depth text)
    {candidate : Option Candidate} (optional : IsOptional candidate) (scalar : String)
    (plain : Bool) {c : Cursor} (here : c.rest = normalizeBreaks rest) (keyAllowed : Bool) :
    (s.scalarAt candidate scalar plain c keyAllowed).Stands (.scalar scalar plain :: tokens) depth
      rest where
  columns := stands.columns
  candidate := optional
  outer := stands.outer
  tokens := congrArg _ stands.tokens
  depth := stands.depth
  text := here

/-- A quoted string. Where a key may start it becomes the candidate, and the scan stays on
its line. -/
theorem leads_text {t : TextForm} (portable : t.IsPortable)
    (stands : s.Stands tokens depth (gap.chars ++ (t.chars ++ rest)))
    (tabs : '\t' ∈ gap.chars → 0 < depth) :
    ∃ u, s.Leads u ∧ u.Stands (.scalar t.string false :: tokens) depth rest ∧
      u.keyAllowed = false ∧
      (s.keyAllowed = true → ∃ key ∈ u.candidate, key.number = tokens.length ∧
        key.line = u.cursor.line ∧ u.cursor.column = key.column + t.chars.length) := by
  have spelled : normalizeBreaks (t.chars ++ rest) = t.chars ++ normalizeBreaks rest := by
    refine normalizeBreaks_of_free (fun c mem => ?_) rest
    have portable := t.isPortable_chars portable c mem
    simp only [Json.isPortable, Bool.and_eq_true, bne_iff_ne] at portable
    exact ⟨portable.1.1.2, portable.1.2⟩
  have quote : t.chars ++ rest = '"' :: (t.inner ++ rest) := rfl
  rw [quote] at stands spelled
  obtain ⟨m, facing, here, allowed, -, faces⟩ := finish_token stands tabs (by decide) (by decide)
  obtain ⟨candidate, noted, optional, candidate_eq⟩ := note_ok facing
  have inside : m.cursor.rest = t.chars ++ normalizeBreaks rest := by rw [facing.text, spelled]
  let c := m.cursor.skip t.chars.length
  have behind : c.rest = normalizeBreaks rest := by simp [c, Cursor.skip, inside]
  have quoted (count : Nat) (enough : m.cursor.rest.length < count) :
      m.token count '"' (normalizeBreaks (t.inner ++ rest)) =
        .ok (m.scalarAt candidate t.string false c false) := by
    have room : t.chars.length ≤ count := by
      rw [inside, List.length_append] at enough
      omega
    rw [token_of_mark here (by decide)]
    simp only [content, readQuoted, noted, bind, Except.bind,
      Quoted.read_text portable (c := m.cursor) inside room]
    rfl
  refine ⟨_, faces.leads quoted ?_, stands_scalarAt facing optional t.string false behind false,
    rfl, ?_⟩
  · rw [show (m.scalarAt candidate t.string false c false).cursor.rest = normalizeBreaks rest from
      behind, inside, List.length_append]
    have : 0 < t.chars.length := Nat.succ_pos _
    omega
  · intro before
    refine ⟨_, candidate_eq (allowed before), ?_, rfl, rfl⟩
    rw [m.number_eq, facing.tokens]

theorem value_ok {scalar : Token}
    (stands : s.Stands (scalar :: tokens) (depth + 1) (':' :: rest))
    (here : s.cursor.rest = ':' :: normalizeBreaks rest) {key : Candidate}
    (candidate : s.candidate = some key) (number : key.number = tokens.length) :
    ∃ t, s.value = .ok t ∧ t.Stands (.value :: scalar :: .key :: tokens) (depth + 1) rest ∧
      t.cursor.rest.length < s.cursor.rest.length := by
  let inserted := s.insert .key key.number
  have behind : s.number - key.number = 1 := by
    rw [s.number_eq, stands.tokens, number, List.length_cons]
    omega
  have marked : inserted.Stands (scalar :: .key :: tokens) (depth + 1) (':' :: rest) :=
    { stands with tokens := by simp [inserted, insert, behind, stands.tokens] }
  have not_block : inserted.openBlock .blockMappingStart key.column key.number = inserted := by
    simp [openBlock, inFlow_of_stands marked (Nat.succ_pos depth)]
  have added := stands_add marked here .value none _ (by simp [IsOptional]) marked.outer false
  rw [marked.depth] at added
  refine ⟨_, ?_, added⟩
  unfold value
  simp only [candidate]
  rw [not_block]

theorem leads_colon {scalar : Token}
    (stands : s.Stands (scalar :: tokens) (depth + 1) (gap.chars ++ ':' :: rest))
    {key : Candidate} (candidate : s.candidate = some key) (number : key.number = tokens.length)
    (line : key.line = s.cursor.line) (one_line : ∀ c ∈ gap.chars, c ≠ '\n' ∧ c ≠ '\r')
    (near : s.cursor.column + gap.chars.length ≤ key.column + keyLimit) :
    ∃ u, s.Leads u ∧ u.Stands (.value :: scalar :: .key :: tokens) (depth + 1) rest := by
  obtain ⟨m, facing, here, -, kept, faces⟩ :=
    finish_token stands (fun _ => Nat.succ_pos depth) (by decide) (by decide)
  obtain ⟨u, valued, result, shorter⟩ :=
    value_ok facing here (kept one_line key candidate line near) number
  refine ⟨u, faces.leads (fun count _ => ?_) shorter, result⟩
  rw [token_of_mark here (by decide)]
  simpa [inFlow_of_stands facing (Nat.succ_pos depth)] using valued

theorem leads_key {key : KeyForm} (portable : key.IsPortable)
    (stands : s.Stands tokens (depth + 1) (gap.chars ++ (key.chars ++ ':' :: rest)))
    (allowed : s.keyAllowed = true) :
    ∃ u, s.Leads u ∧
      u.Stands (.value :: .scalar key.text.string false :: .key :: tokens) (depth + 1) rest := by
  rw [KeyForm.chars, List.append_assoc] at stands
  obtain ⟨t, first, named, -, noted⟩ := leads_text portable.text stands fun _ => Nat.succ_pos depth
  obtain ⟨candidate, there, number, line, column⟩ := noted allowed
  have short := portable.length
  rw [KeyForm.chars, List.length_append] at short
  obtain ⟨u, second, result⟩ := leads_colon named there number line portable.line (by omega)
  exact ⟨u, first.trans second, result⟩

/-- The characters that a portable word or number starts with. -/
def StartsPlain (first : Char) (rest : List Char) : Prop :=
  first.isDigit = true ∨ first ∈ ['t', 'f', 'n'] ∨
    first = '-' ∧ ∃ d more, rest = d :: more ∧ d.isDigit = true

theorem StartsPlain.ne {first : Char} (starts : StartsPlain first rest) (c : Char)
    (special : ¬c.isDigit = true ∧ c ∉ ['t', 'f', 'n', '-']) : first ≠ c := by
  rintro rfl
  simp only [List.mem_cons, not_or] at special
  rcases starts with digit | letter | ⟨minus, -⟩
  · exact special.1 digit
  · simp_all
  · exact special.2.2.2.2.1 minus

theorem token_of_plain {first : Char} (starts : StartsPlain first rest)
    (here : s.cursor.rest = first :: rest) (count : Nat) :
    s.token count first rest = s.plain count := by
  have ne := starts.ne
  have no_mark : s.cursor.atDocumentMark = false := by
    rcases starts with digit | letter | ⟨rfl, d, more, rfl, digit⟩
    · refine not_mark here ⟨?_, ne '.' (by decide)⟩
      rintro rfl
      exact absurd digit (by decide)
    · refine not_mark here ⟨?_, ne '.' (by decide)⟩
      rintro rfl
      exact absurd letter (by decide)
    · have no_dash : d ≠ '-' := by
        rintro rfl
        exact absurd digit (by decide)
      simp [Cursor.atDocumentMark, here, no_dash]
  have no_entry : first = '-' → endsWord rest = false := by
    rintro rfl
    rcases starts with digit | letter | ⟨-, d, more, rfl, digit⟩
    · exact absurd digit (by decide)
    · exact absurd letter (by decide)
    · have other (c : Char) (not_digit : ¬c.isDigit = true) : d ≠ c := by
        rintro rfl
        exact not_digit digit
      simp [endsWord, isBlank, isBreak, other ' ' (by decide), other '\t' (by decide),
        other '\n' (by decide), other '\u2028' (by decide), other '\u2029' (by decide)]
  unfold token
  rw [if_neg (by simp [ne]), if_neg (by simp [no_mark])]
  split
  case h_6 => rw [if_neg (by simp [no_entry])]
  case h_16 => rw [if_neg (by simp [ne])]
  all_goals exact absurd rfl (ne _ (by decide))

theorem StartsPlain.append {first : Char} {word : List Char} (starts : StartsPlain first word)
    (rest : List Char) : StartsPlain first (word ++ rest) := by
  rcases starts with digit | letter | ⟨minus, d, more, rfl, digit⟩
  · exact .inl digit
  · exact .inr (.inl letter)
  · exact .inr (.inr ⟨minus, d, more ++ rest, rfl, digit⟩)

theorem StartsPlain.isSolid {first : Char} (starts : StartsPlain first rest)
    (inner : Plain.isInner first = true) : isSolid first = true := by
  simp only [Plain.isInner, Bool.not_eq_true', Bool.or_eq_false_iff] at inner
  have blank := inner.1.1.1
  simp only [isBlank, Bool.or_eq_false_iff] at blank
  simp [Scan.isSolid, blank.1, blank.2, inner.1.1.2, starts.ne '#' (by decide),
    starts.ne '\ufeff' (by decide)]

theorem normalizeBreaks_closed (ends : ∀ c ∈ rest.head?, 0 < depth ∧ c ∈ [',', ']', '\x7d']) :
    (normalizeBreaks rest).head? = rest.head? ∧ rest.head? ≠ some '\n' := by
  cases rest with
  | nil => exact ⟨rfl, by simp⟩
  | cons c rest =>
    have mark := (ends c rfl).2
    simp only [List.mem_cons, List.not_mem_nil, or_false] at mark
    rcases mark with rfl | rfl | rfl <;> exact ⟨rfl, by simp⟩

/-- The token of a word that is read in place, with the filler behind it passed over. -/
theorem plain_ok {first : Char} {word filler rest : List Char}
    (starts : StartsPlain first word) (inner : ∀ c ∈ first :: word, Plain.isInner c = true)
    (filled : ∀ c ∈ filler, isBlank c = true ∨ isBreak c = true)
    (ends : ∀ c ∈ rest.head?, s.inFlow = true ∧ c ∈ [',', ']', '\x7d'])
    (columns : s.columns = []) (here : s.cursor.rest = first :: word ++ (filler ++ rest))
    {candidate : Option Candidate} (noted : s.note = .ok { s with candidate }) :
    ∃ broken c, c.rest = rest ∧ ∀ count, 0 < count →
      s.token count first (word ++ (filler ++ rest)) =
        .ok (s.scalarAt candidate (String.ofList (first :: word)) true c broken) := by
  obtain ⟨broken, c, left, read⟩ := Plain.read_word here inner filled ends
  refine ⟨broken, c, left, fun count enough => ?_⟩
  obtain ⟨count, rfl⟩ := Nat.exists_eq_add_of_lt enough
  let start : Scan := { s with candidate }
  have margin : start.margin = 0 := by simp [Scan.margin, start, columns]
  have read : Plain.read start.inFlow start.margin (0 + count + 1) s.cursor =
      .ok ((String.ofList (first :: word), broken), c) := by
    rw [margin]
    exact read _
  rw [token_of_plain (starts.append _) here]
  unfold plain
  rw [noted]
  simp only [bind, Except.bind, start] at read ⊢
  simp only [read]
  rfl

theorem blank_or_break (gap : Blanks) :
    ∀ c ∈ normalizeBreaks gap.chars, isBlank c = true ∨ isBreak c = true := by
  intro c mem
  rcases filler_of_blanks gap (fun _ => rfl) c mem with rfl | rfl | ⟨rfl, -⟩ <;> decide

theorem leads_plain {first : Char} {word : List Char} {behind : Blanks}
    (starts : StartsPlain first word) (inner : ∀ c ∈ first :: word, Plain.isInner c = true)
    (portable : ∀ c ∈ first :: word, Json.isPortable c = true)
    (stands : s.Stands tokens depth (gap.chars ++ (first :: word ++ (behind.chars ++ rest))))
    (tabs : '\t' ∈ gap.chars → 0 < depth)
    (ends : ∀ c ∈ rest.head?, 0 < depth ∧ c ∈ [',', ']', '\x7d']) :
    ∃ u, s.Leads u ∧
      u.Stands (.scalar (String.ofList (first :: word)) true :: tokens) depth rest := by
  have free : ∀ c ∈ first :: word, c ≠ '\r' ∧ c ≠ '\u0085' := fun c mem => by
    have portable := portable c mem
    simp only [Json.isPortable, Bool.and_eq_true, bne_iff_ne] at portable
    exact ⟨portable.1.1.2, portable.1.2⟩
  have solid := starts.isSolid (inner first List.mem_cons_self)
  have head := normalizeBreaks_closed ends
  have behind_first : normalizeBreaks (word ++ (behind.chars ++ rest)) =
      word ++ (normalizeBreaks behind.chars ++ normalizeBreaks rest) := by
    rw [normalizeBreaks_of_free fun c mem => free c (List.mem_cons_of_mem first mem),
      normalizeBreaks_append _ head.2]
  rw [List.cons_append] at stands
  obtain ⟨m, facing, here, -, -, faces⟩ :=
    finish_token stands tabs solid (free first List.mem_cons_self)
  obtain ⟨candidate, noted, optional, -⟩ := note_ok facing
  have spelled : m.cursor.rest =
      first :: word ++ (normalizeBreaks behind.chars ++ normalizeBreaks rest) := by
    rw [here, behind_first, List.cons_append]
  have stops : ∀ c ∈ (normalizeBreaks rest).head?, m.inFlow = true ∧ c ∈ [',', ']', '\x7d'] := by
    intro c mem
    rw [head.1] at mem
    obtain ⟨deep, mark⟩ := ends c mem
    exact ⟨inFlow_of_stands facing deep, mark⟩
  -- A plain scalar may go on behind blanks, so the blanks behind the word are read with it.
  obtain ⟨broken, c, left, read⟩ :=
    plain_ok starts inner (blank_or_break behind) stops facing.columns spelled noted
  rw [behind_first] at faces
  refine ⟨_, faces.leads (fun count enough => read count (Nat.zero_lt_of_lt enough)) ?_,
    stands_scalarAt facing optional _ true left broken⟩
  rw [show (m.scalarAt candidate (String.ofList (first :: word)) true c broken).cursor.rest =
    normalizeBreaks rest from left, spelled]
  simp only [List.length_append, List.length_cons]
  omega

theorem isInner_of_isFigure {c : Char} (figure : Json.Numeral.isFigure c = true) :
    Plain.isInner c = true := by
  have other (d : Char) (apart : Json.Numeral.isFigure d = false) : c ≠ d := by
    rintro rfl
    rw [apart] at figure
    contradiction
  simp [Plain.isInner, Plain.isFlowMark, isBlank, isBreak, other, Json.Numeral.isFigure]

theorem leads_number {n : Json.NumberForm} {behind : Blanks}
    (stands : s.Stands tokens depth (gap.chars ++ (n.chars ++ (behind.chars ++ rest))))
    (tabs : '\t' ∈ gap.chars → 0 < depth)
    (ends : ∀ c ∈ rest.head?, 0 < depth ∧ c ∈ [',', ']', '\x7d']) :
    ∃ u, s.Leads u ∧ u.Stands (.scalar (String.ofList n.chars) true :: tokens) depth rest := by
  obtain ⟨d, digits, parts, digit⟩ := Json.Numeral.head_isDigit n.reads
  have figures := n.isFigure
  obtain ⟨first, word, chars, starts⟩ :
      ∃ first word, n.chars = first :: word ∧ StartsPlain first word := by
    unfold Json.NumberForm.chars
    split
    · exact ⟨'-', n.digits, rfl, .inr (.inr ⟨rfl, d, digits, parts, digit⟩)⟩
    · exact ⟨d, digits, parts, .inl digit⟩
  rw [chars] at figures stands ⊢
  exact leads_plain starts (fun c mem => isInner_of_isFigure (figures c mem))
    (fun c mem => Json.isPortable_of_isFigure (figures c mem)) stands tabs ends

theorem leads_word {w : Json.Word} {behind : Blanks}
    (stands : s.Stands tokens depth (gap.chars ++ (w.chars ++ (behind.chars ++ rest))))
    (tabs : '\t' ∈ gap.chars → 0 < depth)
    (ends : ∀ c ∈ rest.head?, 0 < depth ∧ c ∈ [',', ']', '\x7d']) :
    ∃ u, s.Leads u ∧ u.Stands (.scalar (String.ofList w.chars) true :: tokens) depth rest := by
  cases w with
  | null | true | false =>
    exact leads_plain (.inr (.inl (by decide))) (List.all_eq_true.1 (by decide))
      (List.all_eq_true.1 (by decide)) stands tabs ends

end

def noBlanks : Blanks := ⟨[], by simp⟩

mutual

/-- A word or number takes the blanks behind it along, and no key is allowed behind
anything else. -/
theorem leads_form {f : Form} (portable : f.IsPortable) {s : Scan} {tokens : List Token}
    {depth : Nat} {gap behind : Blanks} {rest : List Char}
    (stands : s.Stands tokens depth (gap.chars ++ (f.chars ++ (behind.chars ++ rest))))
    (tabs : '\t' ∈ gap.chars → 0 < depth)
    (ends : ∀ c ∈ rest.head?, 0 < depth ∧ c ∈ [',', ']', '\x7d']) :
    ∃ (u : Scan) (left : Blanks), s.Leads u ∧
      u.Stands (f.tokens.reverse ++ tokens) depth (left.chars ++ rest) ∧
      if f.isPlain then left = noBlanks else left = behind ∧ u.keyAllowed = false := by
  cases f with
  | word w =>
    obtain ⟨u, leads, result⟩ := leads_word stands tabs ends
    exact ⟨u, noBlanks, leads, result, rfl⟩
  | number n =>
    obtain ⟨u, leads, result⟩ := leads_number stands tabs ends
    exact ⟨u, noBlanks, leads, result, rfl⟩
  | text t =>
    obtain ⟨u, leads, result, allowed, -⟩ := leads_text portable stands tabs
    exact ⟨u, behind, leads, result, rfl, allowed⟩
  | emptyArray inside =>
    simp only [Form.chars, List.cons_append, List.append_assoc, List.nil_append] at stands
    obtain ⟨t, first, opened, -⟩ := leads_open (.inl ⟨rfl, rfl⟩) stands tabs
    obtain ⟨u, second, result, allowed⟩ := leads_close (.inl ⟨rfl, rfl⟩) opened
    exact ⟨u, behind, first.trans second, result, rfl, allowed⟩
  | array items =>
    simp only [Form.chars, List.cons_append] at stands
    obtain ⟨t, first, opened, -⟩ := leads_open (.inl ⟨rfl, rfl⟩) stands tabs
    obtain ⟨u, second, result, ended⟩ := leads_items portable opened
    exact ⟨u, behind, first.trans second, by simpa [Form.tokens] using result, rfl, ended⟩
  | emptyObject inside =>
    simp only [Form.chars, List.cons_append, List.append_assoc, List.nil_append] at stands
    obtain ⟨t, first, opened, -⟩ := leads_open (.inr ⟨rfl, rfl⟩) stands tabs
    obtain ⟨u, second, result, allowed⟩ := leads_close (.inr ⟨rfl, rfl⟩) opened
    exact ⟨u, behind, first.trans second, result, rfl, allowed⟩
  | object entries =>
    simp only [Form.chars, List.cons_append] at stands
    obtain ⟨t, first, opened, allowed⟩ := leads_open (.inr ⟨rfl, rfl⟩) stands tabs
    obtain ⟨u, second, result, ended⟩ := leads_entries portable opened allowed
    exact ⟨u, behind, first.trans second, by simpa [Form.tokens] using result, rfl, ended⟩

theorem leads_items {items : ItemForms} (portable : items.IsPortable) {s : Scan}
    {tokens : List Token} {depth : Nat} {rest : List Char}
    (stands : s.Stands tokens (depth + 1) (items.chars ++ rest)) :
    ∃ u, s.Leads u ∧ u.Stands (items.tokens.reverse ++ tokens) depth rest ∧
      u.keyAllowed = false := by
  cases items with
  | last before f behind =>
    simp only [ItemForms.chars, List.append_assoc, List.cons_append, List.nil_append] at stands
    obtain ⟨t, left, first, read, -⟩ :=
      leads_form portable stands (fun _ => Nat.succ_pos depth) (by simp)
    obtain ⟨u, second, result, ended⟩ := leads_close (.inl ⟨rfl, rfl⟩) read
    exact ⟨u, first.trans second, by simpa [ItemForms.tokens] using result, ended⟩
  | more before f behind others =>
    simp only [ItemForms.chars, List.append_assoc, List.cons_append] at stands
    obtain ⟨t, left, first, read, -⟩ :=
      leads_form portable.1 stands (fun _ => Nat.succ_pos depth) (by simp)
    obtain ⟨m, second, comma, -⟩ := leads_comma read
    obtain ⟨u, third, result, ended⟩ := leads_items portable.2 comma
    exact ⟨u, first.trans (second.trans third), by simpa [ItemForms.tokens] using result, ended⟩

theorem leads_entries {entries : EntryForms} (portable : entries.IsPortable) {s : Scan}
    {tokens : List Token} {depth : Nat} {rest : List Char}
    (stands : s.Stands tokens (depth + 1) (entries.chars ++ rest))
    (allowed : s.keyAllowed = true) :
    ∃ u, s.Leads u ∧ u.Stands (entries.tokens.reverse ++ tokens) depth rest ∧
      u.keyAllowed = false := by
  cases entries with
  | last before key gap f behind =>
    simp only [EntryForms.chars, List.append_assoc, List.cons_append, List.nil_append] at stands
    obtain ⟨k, keyed, named⟩ := leads_key portable.1 stands allowed
    obtain ⟨t, left, first, read, -⟩ :=
      leads_form portable.2 named (fun _ => Nat.succ_pos depth) (by simp)
    obtain ⟨u, second, result, ended⟩ := leads_close (.inr ⟨rfl, rfl⟩) read
    exact ⟨u, keyed.trans (first.trans second), by simpa [EntryForms.tokens] using result, ended⟩
  | more before key gap f behind others =>
    simp only [EntryForms.chars, List.append_assoc, List.cons_append] at stands
    obtain ⟨k, keyed, named⟩ := leads_key portable.1 stands allowed
    obtain ⟨t, left, first, read, -⟩ :=
      leads_form portable.2.1 named (fun _ => Nat.succ_pos depth) (by simp)
    obtain ⟨m, second, comma, again⟩ := leads_comma read
    obtain ⟨u, third, result, ended⟩ := leads_entries portable.2.2 comma again
    exact ⟨u, keyed.trans (first.trans (second.trans third)),
      by simpa [EntryForms.tokens] using result, ended⟩

end

end DescriptorCheck.Yaml.Scan

namespace DescriptorCheck.Yaml

theorem Token.ofChars_script {s : Json.Script} (portable : s.IsPortable) :
    Token.ofChars (normalizeBreaks s.chars) = .ok s.form.tokens := by
  let start := Scan.start (normalizeBreaks s.chars)
  have spelled : s.chars = s.before.chars ++ (s.form.chars ++ (s.behind.chars ++ [])) := by
    rw [List.append_nil, Json.Script.chars]
  have stands : start.Stands [] 0 (s.before.chars ++ (s.form.chars ++ (s.behind.chars ++ []))) :=
    { columns := rfl
      candidate := by simp [start, Scan.start, Scan.IsOptional]
      outer := by simp [start, Scan.start]
      tokens := rfl
      depth := rfl
      text := congrArg normalizeBreaks spelled }
  obtain ⟨u, left, leads, result, ends⟩ := Scan.leads_form portable.form stands
    (fun tab => absurd tab portable.before) (by simp)
  obtain ⟨count, enough, same⟩ := leads _ (Nat.lt_succ_self _)
  rw [List.append_nil, List.append_nil] at result
  have tabs : '\t' ∈ left.chars → u.keyAllowed = false ∧ '\t' ∉ Json.belowBreak left.chars := by
    intro tab
    cases plain : s.form.isPlain with
    | true =>
      rw [plain, if_pos rfl] at ends
      exact absurd (ends ▸ tab) List.not_mem_nil
    | false =>
      rw [plain, if_neg Bool.false_ne_true] at ends
      obtain ⟨rfl, allowed⟩ := ends
      exact ⟨allowed, portable.behind plain⟩
  have ended := Scan.finish_end result tabs count enough
  rw [List.reverse_reverse] at ended
  exact same.trans ended

end DescriptorCheck.Yaml
