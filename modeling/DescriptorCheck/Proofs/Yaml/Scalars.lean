import DescriptorCheck.Proofs.Yaml.Portable

set_option autoImplicit false

namespace DescriptorCheck.Yaml
open Json (Piece TextForm)

theorem Gap.readFrom_spaces {spaces rest : List Char} (space : ∀ c ∈ spaces, c = ' ')
    (ends : ∀ c ∈ rest.head?, isBlank c = false ∧ isBreak c = false)
    (margin line column : Nat) (before : List Char) :
    Gap.readFrom margin (spaces ++ rest) line column (.blanks before) =
      .ok (.blanks (before ++ spaces), ⟨rest, line, column + spaces.length⟩) := by
  induction spaces generalizing column before with
  | nil =>
    cases rest with
    | nil => simp [readFrom]
    | cons c rest => simp [readFrom, ends c rfl]
  | cons c spaces ih =>
    obtain ⟨rfl, others⟩ := List.forall_mem_cons.1 space
    rw [List.cons_append, readFrom]
    simp only [isBlank, isBroken, addBlank]
    simp [ih others]
    omega

namespace Quoted

theorem escaped?_sign {letter c : Char} (known : (letter, c) ∈ Json.signs) (rest : List Char) :
    escaped? (letter :: rest) = some (c, 1) := by
  simp only [Json.signs, List.mem_cons, List.not_mem_nil, or_false, Prod.mk.injEq] at known
  rcases known with known | known | known | known | known | known | known | known <;>
    (obtain ⟨rfl, rfl⟩ := known; rfl)

theorem escaped?_unit (u : Json.CodeUnit)
    (single : Json.Quoted.isTrailing u.value = false ∧ Json.Quoted.isLeading u.value = false)
    (rest : List Char) :
    escaped? ('u' :: (u.chars ++ rest)) = some (Char.ofNat u.value, 5) := by
  have valid : u.value.isValidChar := by
    have small := u.value_lt
    obtain ⟨trailing, leading⟩ := single
    simp only [Json.Quoted.isTrailing, Json.Quoted.isLeading, Bool.and_eq_false_iff,
      decide_eq_false_iff_not] at trailing leading
    unfold Nat.isValidChar
    omega
  have point : codePoint? u.chars = some (Char.ofNat u.value) := by
    have reads : Number.naturalIn? 16 u.chars = some u.value := u.reads
    have same : Char.ofNatAux u.value valid = Char.ofNat u.value := (dif_pos valid).symm
    unfold codePoint?
    rw [reads, ← same]
    exact dif_pos valid
  have taken : (u.chars ++ rest).take 4 = u.chars := rfl
  have long : ¬(u.chars ++ rest).length < 4 := by simp [Json.CodeUnit.chars]
  unfold escaped?
  simp only [digitCount?, if_neg long, taken, point, Option.map_some]

def isSpace : Piece → Bool
  | .bare c _ => c == ' '
  | _ => false

theorem chars_of_isSpace {p : Piece} (space : isSpace p = true) :
    p.chars = [' '] ∧ p.char = ' ' := by
  cases p with
  | bare c free =>
    simp only [isSpace, beq_iff_eq] at space
    subst space
    exact ⟨rfl, rfl⟩
  | sign _ _ _ | unit _ _ | pair _ _ _ => contradiction

theorem chars_of_spaces {pieces : List Piece} (spaces : ∀ p ∈ pieces, isSpace p = true) :
    pieces.flatMap Piece.chars = pieces.map Piece.char ∧ ∀ c ∈ pieces.map Piece.char, c = ' ' := by
  induction pieces with
  | nil => simp
  | cons p pieces ih =>
    obtain ⟨here, others⟩ := List.forall_mem_cons.1 spaces
    obtain ⟨same, all⟩ := ih others
    obtain ⟨chars, char⟩ := chars_of_isSpace here
    simp only [List.flatMap_cons, List.map_cons, List.forall_mem_cons, chars, char, same]
    exact ⟨rfl, by simpa using all⟩

theorem head_of_not_isSpace {p : Piece} (portable : p.IsPortable) (other : isSpace p = false) :
    ∃ c rest, p.chars = c :: rest ∧ isBlank c = false ∧ isBreak c = false := by
  cases p with
  | bare c free =>
    have control := free.1
    simp only [Piece.IsPortable, Json.isPortable, Bool.and_eq_true, Bool.not_eq_true'] at portable
    have tab : c ≠ '\t' := by
      rintro rfl
      exact control (by decide)
    exact ⟨c, [], rfl, by simpa [isSpace, isBlank, tab] using other, portable.2⟩
  | sign _ _ _ | unit _ _ | pair _ _ _ => exact ⟨_, _, rfl, by decide⟩

theorem ends_of_not_isSpace {pieces : List Piece} (portable : ∀ p ∈ pieces, p.IsPortable)
    (other : ∀ p ∈ pieces.head?, isSpace p = false) (rest : List Char) :
    ∀ c ∈ (pieces.flatMap Piece.chars ++ '"' :: rest).head?,
      isBlank c = false ∧ isBreak c = false := by
  cases pieces with
  | nil => simp [isBlank, isBreak]
  | cons p pieces =>
    obtain ⟨c, more, chars, solid⟩ :=
      head_of_not_isSpace (portable p List.mem_cons_self) (other p rfl)
    simpa [chars] using solid

section Steps

variable {count : Nat} {c e : Cursor} {rest more : List Char} (inside : 0 < c.column)

include inside

theorem atDocumentMark_of_inside : c.atDocumentMark = false := by
  simp [Cursor.atDocumentMark, Nat.ne_of_gt inside]

theorem readFrom_bare {d : Char} (here : c.rest = d :: rest) (free : d ≠ '"' ∧ d ≠ '\\')
    (solid : isBlank d = false ∧ isBreak d = false)
    (next : readFrom .double count (c.skip 1) = .ok (more, e)) :
    readFrom .double (count + 1) c = .ok (d :: more, e) := by
  rw [readFrom]
  simp [atDocumentMark_of_inside inside, here, Style.quote, free, solid, next, bind, Except.bind]

theorem readFrom_escape {d : Char} {length : Nat} (here : c.rest = '\\' :: rest)
    (escape : escaped? rest = some (d, length)) (on_line : rest.head?.any isBreak = false)
    (next : readFrom .double count (c.skip (length + 1)) = .ok (more, e)) :
    readFrom .double (count + 1) c = .ok (d :: more, e) := by
  rw [readFrom]
  simp [atDocumentMark_of_inside inside, here, Style.quote, escape, on_line, next, bind,
    Except.bind]

theorem readFrom_gap {spaces : List Char} (here : c.rest = spaces ++ rest)
    (some_space : spaces ≠ []) (space : ∀ d ∈ spaces, d = ' ')
    (ends : ∀ d ∈ rest.head?, isBlank d = false ∧ isBreak d = false)
    (next : readFrom .double count (c.skip spaces.length) = .ok (more, e)) :
    readFrom .double (count + 1) c = .ok (spaces ++ more, e) := by
  obtain ⟨d, others, rfl⟩ := List.exists_cons_of_ne_nil some_space
  obtain rfl : d = ' ' := space d List.mem_cons_self
  have gap : Gap.read 0 c = .ok (.blanks (' ' :: others), c.skip (' ' :: others).length) := by
    rw [Gap.read, here, Gap.readFrom_spaces space ends]
    simp [Cursor.skip, here]
  rw [List.length_cons] at gap next
  rw [readFrom]
  simp [atDocumentMark_of_inside inside, here, Style.quote, gap, next, bind, Except.bind, isBlank,
    Gap.joint]

end Steps

theorem skip_skip (m n : Nat) (c : Cursor) : (c.skip m).skip n = c.skip (m + n) := by
  simp [Cursor.skip, Nat.add_assoc]

theorem readFrom_text {pieces : List Piece} (portable : ∀ p ∈ pieces, p.IsPortable)
    {count : Nat} {c : Cursor} {rest : List Char}
    (spelled : c.rest = pieces.flatMap Piece.chars ++ '"' :: rest) (inside : 0 < c.column)
    (enough : (pieces.flatMap Piece.chars).length < count) :
    readFrom .double count c =
      .ok (pieces.map Piece.char, c.skip ((pieces.flatMap Piece.chars).length + 1)) := by
  induction count generalizing pieces c with
  | zero => omega
  | succ count ih =>
    -- Several spaces are one gap, so the pieces up to the next step are not always one.
    have next (first : List Piece) {others : List Piece} (parts : pieces = first ++ others)
        {length : Nat} (size : (first.flatMap Piece.chars).length = length)
        (some_char : 0 < length) :
        readFrom .double count (c.skip length) =
          .ok (others.map Piece.char, c.skip ((pieces.flatMap Piece.chars).length + 1)) := by
      subst parts size
      rw [List.flatMap_append, List.length_append] at enough
      have later := ih (c := c.skip (first.flatMap Piece.chars).length)
        (fun p mem => portable p (List.mem_append_right _ mem))
        (by simp [Cursor.skip, spelled]) (Nat.add_pos_left inside _) (by omega)
      rw [later, skip_skip, List.flatMap_append, List.length_append, Nat.add_assoc]
    cases pieces with
    | nil =>
      rw [readFrom]
      simp [atDocumentMark_of_inside inside, spelled, Style.quote]
    | cons p others =>
      have here := portable p List.mem_cons_self
      by_cases space : isSpace p = true
      · obtain ⟨run, behind, parts, spaces, stops⟩ := Text.exists_run isSpace (p :: others)
        have nonempty : run ≠ [] := by
          rintro rfl
          obtain rfl : p :: others = behind := parts
          exact absurd (stops p rfl) (by simp [space])
        rw [parts] at portable spelled
        obtain ⟨same, all⟩ := chars_of_spaces spaces
        have there : c.rest =
            run.map Piece.char ++ (behind.flatMap Piece.chars ++ '"' :: rest) := by
          rw [spelled, List.flatMap_append, same, List.append_assoc]
        have ends := ends_of_not_isSpace (fun q mem => portable q (List.mem_append_right _ mem))
          stops rest
        have read := readFrom_gap inside there (by simpa using nonempty) all ends
          (next run parts (by rw [same]) (by simpa [List.length_pos_iff] using nonempty))
        rw [read, ← List.map_append, ← parts]
      · cases p with
        | bare d free =>
          obtain ⟨_, _, same, solid⟩ := head_of_not_isSpace here (by simpa using space)
          cases same
          exact readFrom_bare inside (by simpa [Piece.chars, Piece.char] using spelled) free.2 solid
            (next [.bare d free] rfl rfl Nat.one_pos)
        | sign letter d known =>
          have on_line : isBreak letter = false := by
            have letters : ∀ sign ∈ Json.signs, isBreak sign.1 = false := by decide
            exact letters _ known
          exact readFrom_escape inside (by simpa [Piece.chars] using spelled)
            (escaped?_sign known _) on_line (next [.sign letter d known] rfl rfl Nat.two_pos)
        | unit u single =>
          exact readFrom_escape inside (by simpa [Piece.chars] using spelled)
            (escaped?_unit u single _) (by rfl) (next [.unit u single] rfl rfl (by decide))
        | pair u v paired => exact here.elim

theorem read_text {t : TextForm} (portable : t.IsPortable) {count : Nat} {c : Cursor}
    {rest : List Char} (here : c.rest = t.chars ++ rest) (enough : t.chars.length ≤ count) :
    read .double count c = .ok (t.string, c.skip t.chars.length) := by
  have size : t.chars.length = 1 + ((t.pieces.flatMap Piece.chars).length + 1) := by
    simp [TextForm.chars, TextForm.inner, Nat.add_comm]
  have there : (c.skip 1).rest = t.pieces.flatMap Piece.chars ++ '"' :: rest := by
    simp [Cursor.skip, here, TextForm.chars, TextForm.inner]
  have enough : (t.pieces.flatMap Piece.chars).length < count := by omega
  have inner := readFrom_text portable there (Nat.succ_pos _) enough
  unfold read
  rw [inner, skip_skip, ← size]
  rfl

end Quoted

theorem Gap.readFrom_filler {filler rest : List Char}
    (filled : ∀ c ∈ filler, isBlank c = true ∨ isBreak c = true)
    (ends : ∀ c ∈ rest.head?, isBlank c = false ∧ isBreak c = false)
    (line column : Nat) (gap : Gap) :
    ∃ joined line' column', Gap.readFrom 0 (filler ++ rest) line column gap =
      .ok (joined, ⟨rest, line', column'⟩) := by
  induction filler generalizing line column gap with
  | nil =>
    cases rest with
    | nil => exact ⟨_, _, _, rfl⟩
    | cons c rest => exact ⟨gap, line, column, by simp [readFrom, ends c rfl]⟩
  | cons c filler ih =>
    obtain ⟨here, others⟩ := List.forall_mem_cons.1 filled
    rw [List.cons_append, readFrom]
    by_cases blank : isBlank c = true
    · simp only [blank, if_true, Nat.not_lt_zero, decide_false, Bool.and_false]
      exact ih others line (column + 1) (gap.addBlank c)
    · rw [if_neg blank, if_pos (here.resolve_left blank)]
      exact ih others (line + 1) 0 (gap.addBreak c)

namespace Plain

def isInner (c : Char) : Bool := !(isBlank c || isBreak c || c == ':' || isFlowMark c)

def endsPlain (inFlow : Bool) (c : Char) : Bool :=
  isBlank c || isBreak c || (inFlow && isFlowMark c)

theorem word_of_inner {inFlow : Bool} {cs rest : List Char} (inner : ∀ c ∈ cs, isInner c = true)
    (ends : ∀ c ∈ rest.head?, endsPlain inFlow c = true) :
    word inFlow (cs ++ rest) = .ok (cs, rest) := by
  induction cs with
  | nil =>
    cases rest with
    | nil => rfl
    | cons c rest =>
      have stop := ends c rfl
      rw [List.nil_append, word]
      by_cases gap : (isBlank c || isBreak c) = true
      · rw [if_pos gap]
      · simp only [endsPlain, gap, Bool.false_or, Bool.and_eq_true] at stop
        obtain ⟨flow, mark⟩ := stop
        have no_colon : c ≠ ':' := by
          rintro rfl
          exact absurd mark (by decide)
        simp [gap, flow, mark, no_colon]
  | cons c cs ih =>
    obtain ⟨here, others⟩ := List.forall_mem_cons.1 inner
    simp only [isInner, Bool.not_eq_true', Bool.or_eq_false_iff, beq_eq_false_iff_ne] at here
    obtain ⟨⟨⟨blank, feed⟩, colon⟩, mark⟩ := here
    rw [List.cons_append, word]
    simp [blank, feed, colon, mark, ih others, bind, Except.bind]

theorem read_word {inFlow : Bool} {c : Cursor} {cs filler rest : List Char}
    (here : c.rest = cs ++ (filler ++ rest)) (inner : ∀ c ∈ cs, isInner c = true)
    (filled : ∀ c ∈ filler, isBlank c = true ∨ isBreak c = true)
    (ends : ∀ c ∈ rest.head?, inFlow = true ∧ c ∈ [',', ']', '\x7d']) :
    ∃ broken e, e.rest = rest ∧
      ∀ count, read inFlow 0 (count + 1) c = .ok ((String.ofList cs, broken), e) := by
  have stops : ∀ d ∈ rest.head?,
      isBlank d = false ∧ isBreak d = false ∧ endsPlain inFlow d = true := by
    intro d head
    obtain ⟨rfl, mark⟩ := ends d head
    simp only [List.mem_cons, List.not_mem_nil, or_false] at mark
    rcases mark with rfl | rfl | rfl <;> decide
  have ends_word : ∀ d ∈ (filler ++ rest).head?, endsPlain inFlow d = true := by
    cases filler with
    | nil => exact fun d head => (stops d head).2.2
    | cons d filler =>
      intro e head
      cases head
      simp [endsPlain, filled d List.mem_cons_self]
  obtain ⟨joined, line, column, passed⟩ := Gap.readFrom_filler filled
    (fun d head => ⟨(stops d head).1, (stops d head).2.1⟩) c.line (c.column + cs.length)
    (.blanks [])
  refine ⟨joined.isBroken, ⟨rest, line, column⟩, rfl, fun count => ?_⟩
  have first : readWord inFlow c = .ok (cs, ⟨filler ++ rest, c.line, c.column + cs.length⟩) := by
    unfold readWord
    rw [here, word_of_inner inner ends_word]
    rfl
  have no_word : readWord inFlow ⟨rest, line, column⟩ = .ok ([], ⟨rest, line, column⟩) := by
    unfold readWord
    rw [← List.nil_append rest, word_of_inner (by simp) fun d head => (stops d head).2.2]
    rfl
  have more : readMore inFlow 0 (count + 1) ⟨filler ++ rest, c.line, c.column + cs.length⟩ =
      .ok (([], joined.isBroken), ⟨rest, line, column⟩) := by
    rw [readMore, Gap.read, passed]
    simp only [bind, Except.bind, no_word]
    split <;> rfl
  unfold read
  rw [first]
  simp only [bind, Except.bind, more, List.append_nil]

end Plain

end DescriptorCheck.Yaml
