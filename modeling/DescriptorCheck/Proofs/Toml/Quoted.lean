import DescriptorCheck.Proofs.Text.Span
import DescriptorCheck.Toml.Quoted
import Mathlib.Data.Option.Basic
import Mathlib.Tactic.SplitIfs

set_option autoImplicit false

/-! On lines, up to two quotes in a row stand for themselves, also right before the three that
close the string. So the length of the run of quotes in front of a place belongs to what is told
of the rest. -/
namespace DescriptorCheck.Toml.Quoted
open Number (digitValue?)

theorem readEscape_unit {c : Char} (small : c.toNat < 256) (rest : List Char) :
    readEscape ('u' :: '0' :: '0' :: hexDigit (c.toNat / 16) :: hexDigit (c.toNat % 16) :: rest) =
      some (c, rest) := by
  have digits : ∀ n < 16, digitValue? 16 (hexDigit n) = some n := by decide
  have high := digits (c.toNat / 16) (by omega)
  have low := digits (c.toNat % 16) (by omega)
  have zero : digitValue? 16 '0' = some 0 := by decide
  have code : (0 * 16 + 0) * 16 + c.toNat / 16 = c.toNat / 16 := by omega
  have sum : c.toNat / 16 * 16 + c.toNat % 16 = c.toNat := by omega
  have valid : c.toNat.isValidChar := c.valid
  have same : Char.ofNatAux c.toNat valid = c := by
    have same := Char.ofNat_toNat c
    rwa [Char.ofNat, dif_pos valid] at same
  have read : readHex 4 0 ('0' :: '0' :: hexDigit (c.toNat / 16) :: hexDigit (c.toNat % 16) :: rest)
      = some (c.toNat, rest) := by
    simp [readHex, zero, high, low, sum]
  rw [readEscape, readCodePoint, read]
  exact (dif_pos valid).trans (congrArg (fun c => some (c, rest)) same)

theorem escape?_cases (onLines : Bool) (c : Char) :
    (∃ spelling, escape? onLines c = some ('\\' :: spelling) ∧
      ∀ rest, readEscape (spelling ++ rest) = some (c, rest)) ∨
    (escape? onLines c = none ∧ c ≠ '\\' ∧ (isPlain c = true ∨ onLines = true ∧ c = '\n')) := by
  unfold escape?
  split
  · exact .inl ⟨['b'], rfl, fun rest => rfl⟩
  · exact .inl ⟨['t'], rfl, fun rest => rfl⟩
  · cases onLines with
    | true => exact .inr ⟨rfl, by decide, .inr ⟨rfl, rfl⟩⟩
    | false => exact .inl ⟨['n'], rfl, fun rest => rfl⟩
  · exact .inl ⟨['f'], rfl, fun rest => rfl⟩
  · exact .inl ⟨['r'], rfl, fun rest => rfl⟩
  · exact .inl ⟨['\\'], rfl, fun rest => rfl⟩
  · rename_i backslash
    split
    · rename_i control
      refine .inl ⟨_, rfl, fun rest => readEscape_unit ?_ rest⟩
      rcases Bool.or_eq_true_iff.1 control with low | delete
      · have small : c.toNat < 32 := of_decide_eq_true low
        omega
      · rw [of_decide_eq_true delete]
        decide
    · rename_i printed
      refine .inr ⟨rfl, backslash, .inl ?_⟩
      simp only [Bool.or_eq_true, decide_eq_true_eq, not_or, Char.not_lt] at printed
      simp [isPlain, printed]

theorem escapeFrom_of_ne {c : Char} (ne : c ≠ '"') (onLines : Bool) (limit run : Nat)
    (rest : List Char) : escapeFrom onLines limit run (c :: rest) =
      (escape? onLines c).getD [c] ++ escapeFrom onLines limit 0 rest :=
  escapeFrom.eq_3 onLines limit run c rest ne

section OneLine

variable {cs : List Char} (rest : List Char)

theorem exists_escapeFrom_cons (c : Char) (cs : List Char) (run : Nat) : ∃ d spelling,
    escapeFrom false 0 run (c :: cs) = d :: (spelling ++ escapeFrom false 0 0 cs) ∧ d ≠ '"' ∧
      ∀ count rest, readBasic (count + 1) (d :: (spelling ++ rest)) =
        (readBasic count rest).map fun read => (c :: read.1, read.2) := by
  have escaped {spelling : List Char}
      (read : ∀ rest, readEscape (spelling ++ rest) = some (c, rest)) (count : Nat)
      (rest : List Char) : readBasic (count + 1) ('\\' :: (spelling ++ rest)) =
        (readBasic count rest).map fun read => (c :: read.1, read.2) := by
    rw [readBasic, read, Option.map_eq_bind]
    rfl
  by_cases quote : c = '"'
  · subst quote
    exact ⟨'\\', ['"'], by rw [escapeFrom]; rfl, by decide, escaped fun rest => rfl⟩
  · rw [escapeFrom_of_ne quote]
    obtain ⟨spelling, written, read⟩ | ⟨written, backslash, plain | ⟨lines, -⟩⟩ :=
      escape?_cases false c
    · exact ⟨'\\', spelling, by rw [written]; rfl, by decide, escaped read⟩
    · refine ⟨c, [], by rw [written]; rfl, quote, fun count rest => ?_⟩
      rw [List.nil_append, readBasic.eq_5 _ _ _ quote backslash, Option.map_eq_bind]
      simp only [plain, guard, if_true]
      rfl
    · cases lines

theorem readBasic_escapeFrom (run more : Nat) :
    readBasic (more + cs.length + 1) (escapeFrom false 0 run cs ++ '"' :: rest) =
      some (cs, rest) := by
  induction cs generalizing run with
  | nil => rfl
  | cons c cs ih =>
    obtain ⟨d, spelling, written, -, read⟩ := exists_escapeFrom_cons c cs run
    have later : readBasic (more + (c :: cs).length) _ = _ := ih 0
    rw [written, List.cons_append, List.append_assoc, read, later]
    rfl

theorem length_le_escapeFrom (cs : List Char) (run : Nat) :
    cs.length ≤ (escapeFrom false 0 run cs).length := by
  induction cs generalizing run with
  | nil => exact Nat.le_refl 0
  | cons c cs ih =>
    obtain ⟨d, spelling, written, -⟩ := exists_escapeFrom_cons c cs run
    have later := ih 0
    simp only [written, List.length_cons, List.length_append]
    omega

theorem readLiteral_append (free : '\'' ∉ cs) (plain : ∀ c ∈ cs, isPlain c = true) :
    readLiteral (cs ++ '\'' :: rest) = some (cs, rest) := by
  have kept := Text.bne_of_not_mem free
  have ends : ('\'' != '\'') = false := by decide
  simp only [readLiteral, Text.dropWhile_append_cons kept ends rest,
    Text.takeWhile_append_cons kept ends rest, List.all_eq_true.2 plain, if_true]

end OneLine

theorem skipBreak?_of_ne {c : Char} (newline : c ≠ '\n') (carriage : c ≠ '\r')
    (rest : List Char) : skipBreak? (c :: rest) = none := by
  unfold skipBreak?
  split
  case h_1 same => exact absurd (List.cons.inj same).1 newline
  case h_2 same => exact absurd (List.cons.inj same).1 carriage
  case h_3 => rfl

theorem skipBreak?_of_isPlain {c : Char} (plain : isPlain c = true) (rest : List Char) :
    skipBreak? (c :: rest) = none := by
  refine skipBreak?_of_ne ?_ ?_ rest <;>
  · rintro rfl
    exact absurd plain (by decide)

/-- What a backslash may stand before is no blank, so it does not go on to the next line. -/
theorem skipBreak?_of_readEscape {cs : List Char} {read : Char × List Char}
    (escape : readEscape cs = some read) : skipBreak? (cs.dropWhile isSpace) = none := by
  unfold readEscape at escape
  split at escape
  case h_10 => cases escape
  all_goals rfl

/-- How characters may stand between quotes on lines, behind a run of so many quotes. -/
inductive Spells (quote : Char) (escapes : Bool) : Nat → List Char → List Char → Prop
  | done (run : Nat) : Spells quote escapes run [] []
  | quote {run : Nat} {cs text : List Char} (short : run < 2)
      (later : Spells quote escapes (run + 1) cs text) :
      Spells quote escapes run (quote :: cs) (quote :: text)
  | lineBreak {run : Nat} {cs text : List Char} (later : Spells quote escapes 0 cs text) :
      Spells quote escapes run ('\n' :: cs) ('\n' :: text)
  | plain {run : Nat} {c : Char} {cs text : List Char} (ne : c ≠ quote)
      (literal : escapes = true → c ≠ '\\') (plain : isPlain c = true)
      (later : Spells quote escapes 0 cs text) : Spells quote escapes run (c :: cs) (c :: text)
  | escape {run : Nat} {c : Char} {cs spelling text : List Char} (escaped : escapes = true)
      (read : ∀ rest, readEscape (spelling ++ rest) = some (c, rest))
      (later : Spells quote escapes 0 cs text) :
      Spells quote escapes run (c :: cs) ('\\' :: (spelling ++ text))

section Lines

variable {quote : Char} {escapes : Bool} {run : Nat} {cs text : List Char}

theorem takeWhile_replicate {c : Char} {rest : List Char} (ends : ∀ d ∈ rest.head?, d ≠ c)
    (k : Nat) : (List.replicate k c ++ rest).takeWhile (· == c) = List.replicate k c := by
  apply Text.takeWhile_append_of_ends
  · intro d mem
    simpa using List.eq_of_mem_replicate mem
  · intro d mem
    simpa using ends d mem

theorem closing?_of_short {c : Char} {k : Nat} (short : k < 3) (ne : c ≠ quote)
    (more : List Char) : closing? quote (List.replicate k quote ++ c :: more) = none := by
  have ends : ∀ d ∈ (c :: more).head?, d ≠ quote := by simpa using ne
  have run := takeWhile_replicate ends k
  simp [closing?, run, short]

theorem closing?_of_ne {c : Char} (ne : c ≠ quote) (more : List Char) :
    closing? quote (c :: more) = none := closing?_of_short (k := 0) (by decide) ne more

theorem closing?_of_long {rest : List Char} {k : Nat} (few : k ≤ 2)
    (ends : ∀ c ∈ rest.head?, c ≠ quote) :
    closing? quote (List.replicate k quote ++ quote :: quote :: quote :: rest) =
      some (List.replicate k quote, rest) := by
  have whole : List.replicate k quote ++ quote :: quote :: quote :: rest =
      List.replicate (k + 3) quote ++ rest := by
    rw [← List.replicate_append_replicate, List.append_assoc]
    rfl
  have taken : min (k + 3) 5 = k + 3 := by omega
  have behind : (List.replicate (k + 3) quote ++ rest).drop (k + 3) = rest :=
    List.drop_left' List.length_replicate
  have long : ¬k + 3 < 3 := by omega
  rw [whole]
  simp only [closing?, takeWhile_replicate ends, List.length_replicate, if_neg long, taken, behind,
    Nat.add_sub_cancel]

theorem Spells.exists_run (isQuote : quote ≠ '\\' ∧ quote ≠ '\n')
    (spells : Spells quote escapes run cs text) (le : run ≤ 2) :
    ∃ k, run + k ≤ 2 ∧
      ((cs = List.replicate k quote ∧ text = List.replicate k quote) ∨
        (cs ≠ [] ∧ ∃ c more, c ≠ quote ∧ text = List.replicate k quote ++ c :: more)) := by
  induction spells with
  | done run => exact ⟨0, le, .inl ⟨rfl, rfl⟩⟩
  | quote short later ih =>
    obtain ⟨k, few, ⟨rfl, rfl⟩ | ⟨-, c, more, ne, rfl⟩⟩ := ih short
    · exact ⟨k + 1, by omega, .inl ⟨rfl, rfl⟩⟩
    · exact ⟨k + 1, by omega, .inr ⟨List.cons_ne_nil _ _, c, more, ne, rfl⟩⟩
  | lineBreak later ih => exact ⟨0, le, .inr ⟨List.cons_ne_nil _ _, _, _, isQuote.2.symm, rfl⟩⟩
  | plain ne literal plain later ih =>
    exact ⟨0, le, .inr ⟨List.cons_ne_nil _ _, _, _, ne, rfl⟩⟩
  | escape escaped read later ih =>
    exact ⟨0, le, .inr ⟨List.cons_ne_nil _ _, _, _, isQuote.1.symm, rfl⟩⟩

theorem Spells.closing?_eq (isQuote : quote ≠ '\\' ∧ quote ≠ '\n')
    (spells : Spells quote escapes run cs text) (le : run ≤ 2) {rest : List Char}
    (ends : ∀ c ∈ rest.head?, c ≠ quote) :
    closing? quote (text ++ quote :: quote :: quote :: rest) = some (cs, rest) ∨
      closing? quote (text ++ quote :: quote :: quote :: rest) = none ∧ cs ≠ [] := by
  obtain ⟨k, few, ⟨rfl, rfl⟩ | ⟨nonempty, c, more, ne, rfl⟩⟩ := spells.exists_run isQuote le
  · exact .inl (closing?_of_long (by omega) ends)
  · rw [List.append_assoc, List.cons_append]
    exact .inr ⟨closing?_of_short (by omega) ne _, nonempty⟩

theorem readLines_of_spells (isQuote : quote ≠ '\\' ∧ quote ≠ '\n' ∧ isPlain quote = true)
    (spells : Spells quote escapes run cs text) (le : run ≤ 2) {rest : List Char}
    (ends : ∀ c ∈ rest.head?, c ≠ quote) (more : Nat) :
    readLines quote escapes (more + cs.length + 1) (text ++ quote :: quote :: quote :: rest) =
      some (cs, rest) := by
  obtain ⟨noBackslash, noBreak, isPlain⟩ := isQuote
  induction spells with
  | done run =>
    have closes := closing?_of_long (k := 0) (Nat.zero_le 2) ends
    rw [List.replicate_zero, List.nil_append] at closes
    rw [List.nil_append, readLines, closes]
  | @quote run cs text short later ih =>
    have behind : readLines quote escapes (more + (quote :: cs).length) _ = _ := ih short
    obtain closes | ⟨opens, -⟩ :=
      (Spells.quote short later).closing?_eq ⟨noBackslash, noBreak⟩ le ends
    · rw [List.cons_append] at closes ⊢
      rw [readLines, closes]
    · rw [List.cons_append] at opens ⊢
      rw [readLines, opens, behind]
      simp [skipBreak?_of_isPlain isPlain, noBackslash, isPlain, guard]
  | @lineBreak run cs text later ih =>
    have behind : readLines quote escapes (more + ('\n' :: cs).length) _ = _ := ih (Nat.zero_le 2)
    rw [List.cons_append, readLines, closing?_of_ne noBreak.symm]
    simp only [skipBreak?, behind]
    rfl
  | @plain run c cs text ne literal plain later ih =>
    have behind : readLines quote escapes (more + (c :: cs).length) _ = _ := ih (Nat.zero_le 2)
    have unescaped : (escapes && c == '\\') = false := by simpa using literal
    rw [List.cons_append, readLines, closing?_of_ne ne, behind]
    simp [skipBreak?_of_isPlain plain, unescaped, plain, guard]
  | @escape run c cs spelling text escaped read later ih =>
    subst escaped
    have behind : readLines quote true (more + (c :: cs).length) _ = _ := ih (Nat.zero_le 2)
    have unbroken := skipBreak?_of_isPlain (c := '\\') (by decide)
    rw [List.cons_append, readLines, closing?_of_ne noBackslash.symm, unbroken, List.append_assoc]
    simp only [beq_self_eq_true, Bool.and_true, if_true, skipBreak?_of_readEscape (read _), read]
    exact (Option.bind_some ..).trans (by rw [behind]; rfl)

theorem Spells.skipBreak?_eq_none (isPlain : isPlain quote = true)
    (spells : Spells quote escapes run cs text) (oneLine : '\n' ∉ cs) (more : List Char) :
    skipBreak? (text ++ quote :: more) = none := by
  cases spells with
  | done => exact skipBreak?_of_isPlain isPlain more
  | quote => exact skipBreak?_of_isPlain isPlain _
  | lineBreak => exact absurd List.mem_cons_self oneLine
  | plain ne literal plain => exact skipBreak?_of_isPlain plain _
  | escape => exact skipBreak?_of_isPlain (by decide) _

theorem Spells.length_le (spells : Spells quote escapes run cs text) : cs.length ≤ text.length := by
  induction spells with
  | done => exact Nat.le_refl 0
  | quote _ _ ih | lineBreak _ ih | plain _ _ _ _ ih => exact Nat.succ_le_succ ih
  | escape _ _ _ ih =>
    simp only [List.length_cons, List.length_append]
    omega

theorem readLines_lineStart (isQuote : quote ≠ '\\' ∧ quote ≠ '\n' ∧ isPlain quote = true)
    (spells : Spells quote escapes 0 cs text) {rest : List Char}
    (ends : ∀ c ∈ rest.head?, c ≠ quote) :
    let behind := lineStart (.of cs) ++ text ++ quote :: quote :: quote :: rest
    readLines quote escapes (behind.length + 1) (skipFirstBreak behind) = some (cs, rest) := by
  intro behind
  have skipped : skipFirstBreak behind = text ++ quote :: quote :: quote :: rest := by
    by_cases broken : cs.contains '\n' = true
    · have start : lineStart (.of cs) = ['\n'] := if_pos broken
      simp only [behind, start, skipFirstBreak]
      rfl
    · have start : lineStart (.of cs) = [] := if_neg broken
      have oneLine : '\n' ∉ cs := by simpa using broken
      have kept := spells.skipBreak?_eq_none isQuote.2.2 oneLine (quote :: quote :: rest)
      simp only [behind, start, skipFirstBreak, List.nil_append, kept, Option.getD_none]
  have enough : behind.length + 1 = (behind.length - cs.length) + cs.length + 1 := by
    have := spells.length_le
    simp only [behind, List.length_append]
    omega
  rw [skipped, enough]
  exact readLines_of_spells isQuote spells (Nat.zero_le 2) ends _

theorem spells_escapeFrom (cs : List Char) (run : Nat) :
    Spells '"' true run cs (escapeFrom true 2 run cs) := by
  induction cs generalizing run with
  | nil => exact .done run
  | cons c cs ih =>
    by_cases quote : c = '"'
    · subst quote
      rw [escapeFrom]
      split
      · exact .quote ‹_› (ih _)
      · have read (rest : List Char) : readEscape (['"'] ++ rest) = some ('"', rest) := rfl
        exact .escape rfl read (ih 0)
    · rw [escapeFrom_of_ne quote]
      obtain ⟨spelling, written, read⟩ | ⟨written, backslash, plain | ⟨-, rfl⟩⟩ :=
        escape?_cases true c
      · rw [written]
        exact .escape rfl read (ih 0)
      · rw [written]
        exact .plain quote (fun _ => backslash) plain (ih 0)
      · rw [written]
        exact .lineBreak (ih 0)

theorem le_longestRun (c : Char) (run : Nat) (cs : List Char) : run ≤ longestRun c run cs := by
  induction cs generalizing run with
  | nil => exact Nat.le_refl run
  | cons d cs ih =>
    rw [longestRun]
    split
    · exact Nat.le_of_succ_le (ih (run + 1))
    · exact Nat.le_max_left _ _

theorem isPlain_of_not_isControl {c : Char} (printed : isControl c = false) (ne : c ≠ '\n') :
    isPlain c = true := by
  simp only [isControl, Bool.or_eq_false_iff, Bool.and_eq_false_iff, decide_eq_false_iff_not,
    Char.not_lt, bne_eq_false_iff_eq, beq_eq_false_iff_ne] at printed
  obtain ⟨(printed | tab) | lineBreak, delete⟩ := printed
  · simp [isPlain, printed, delete]
  · simp [isPlain, tab]
  · exact absurd lineBreak ne

theorem spells_self (printed : ∀ c ∈ cs, isControl c = false)
    (few : longestRun quote run cs ≤ 2) : Spells quote false run cs cs := by
  induction cs generalizing run with
  | nil => exact .done run
  | cons c cs ih =>
    obtain ⟨here, printed⟩ := List.forall_mem_cons.1 printed
    rw [longestRun] at few
    split at few
    · rename_i same
      subst same
      exact .quote (Nat.le_trans (le_longestRun c (run + 1) cs) few) (ih printed few)
    · rename_i ne
      have later := ih printed (Nat.le_trans (Nat.le_max_right _ _) few)
      by_cases lineBreak : c = '\n'
      · subst lineBreak
        exact .lineBreak later
      · exact .plain ne nofun (isPlain_of_not_isControl here lineBreak) later

theorem isControl_eq_false_of_mem (printed : (Metrics.of cs).control = false) :
    ∀ c ∈ cs, isControl c = false := by
  intro c mem
  simpa using List.any_eq_false.1 printed c mem

theorem not_mem_of_longestRun_eq_zero {c : Char} (none : longestRun c run cs = 0) : c ∉ cs := by
  induction cs generalizing run with
  | nil => exact List.not_mem_nil
  | cons d cs ih =>
    rw [longestRun] at none
    split at none
    · have := le_longestRun c (run + 1) cs
      omega
    · rename_i ne
      have zero : longestRun c 0 cs = 0 := by omega
      have later := ih zero
      simp [Ne.symm ne, later]

end Lines

def whole (content : List Char × List Char) : String × List Char :=
  (String.ofList content.1, content.2)

theorem read_basic {cs : List Char} (single : ∀ more, cs ≠ '"' :: '"' :: more) :
    read ('"' :: cs) = (readBasic (cs.length + 1) cs).map whole := by
  rw [Option.map_eq_bind]
  unfold read
  split
  · rename_i same
    exact absurd (List.cons.inj same).2 (single _)
  · rename_i clash
    cases clash
  · rename_i same
    obtain rfl := (List.cons.inj same).2
    rfl
  · rename_i clash
    cases clash
  · rename_i other _
    exact absurd rfl (other cs)

theorem read_literal {cs : List Char} (single : ∀ more, cs ≠ '\'' :: '\'' :: more) :
    read ('\'' :: cs) = (readLiteral cs).map whole := by
  rw [Option.map_eq_bind]
  unfold read
  split
  · rename_i clash
    cases clash
  · rename_i same
    exact absurd (List.cons.inj same).2 (single _)
  · rename_i clash
    cases clash
  · rename_i same
    obtain rfl := (List.cons.inj same).2
    rfl
  · rename_i other
    exact absurd rfl (other cs)

theorem read_basicLines (cs : List Char) : read ('"' :: '"' :: '"' :: cs) =
    (readLines '"' true (cs.length + 1) (skipFirstBreak cs)).map whole := by
  rw [Option.map_eq_bind]
  rfl

theorem read_literalLines (cs : List Char) : read ('\'' :: '\'' :: '\'' :: cs) =
    (readLines '\'' false (cs.length + 1) (skipFirstBreak cs)).map whole := by
  rw [Option.map_eq_bind]
  rfl

theorem Form.of_spec (m : Metrics) :
    (Form.of m = .literal → m.control = false ∧ m.single = 0 ∧ m.newline = false) ∧
    (Form.of m = .literalLines → m.control = false ∧ m.single ≤ 2) := by
  unfold Form.of
  split_ifs <;> simp_all

/-- A string is read back from the text it is written as, unless a quote stands behind. -/
theorem read_encode (s : String) {rest : List Char}
    (ends : ∀ c ∈ rest.head?, c ≠ '"' ∧ c ≠ '\'') : read (encode s ++ rest) = some (s, rest) := by
  have text : whole (s.toList, rest) = (s, rest) := by
    rw [whole, String.ofList_toList]
  obtain ⟨literal, literalLines⟩ := Form.of_spec (.of s.toList)
  unfold encode
  generalize s.toList = cs at text literal literalLines ⊢
  cases form : Form.of (.of cs) with
  | basic =>
    -- Two more quotes would open a string on lines.
    have single : ∀ more, escapeFrom false 0 0 cs ++ '"' :: rest ≠ '"' :: '"' :: more := by
      intro more same
      cases cs with
      | nil =>
        have closed : rest = '"' :: more := (List.cons.inj same).2
        exact (ends '"' (by simp [closed])).1 rfl
      | cons c cs =>
        obtain ⟨d, spelling, written, ne, -⟩ := exists_escapeFrom_cons c cs 0
        rw [written] at same
        exact ne (List.cons.inj same).1
    have enough := length_le_escapeFrom cs 0
    have length : (escapeFrom false 0 0 cs ++ '"' :: rest).length =
        (escapeFrom false 0 0 cs ++ '"' :: rest).length - cs.length + cs.length := by
      rw [List.length_append]
      omega
    simp only [form, List.cons_append, List.append_assoc, List.nil_append]
    rw [read_basic single, length, readBasic_escapeFrom, Option.map_some, text]
  | literal =>
    obtain ⟨printed, unquoted, oneLine⟩ := literal form
    have free : '\'' ∉ cs := not_mem_of_longestRun_eq_zero unquoted
    have plain : ∀ c ∈ cs, isPlain c = true := by
      intro c mem
      refine isPlain_of_not_isControl (isControl_eq_false_of_mem printed c mem) ?_
      rintro rfl
      have broken : cs.contains '\n' = true := by simpa using mem
      exact absurd (broken.symm.trans oneLine) (by decide)
    have single : ∀ more, cs ++ '\'' :: rest ≠ '\'' :: '\'' :: more := by
      intro more same
      cases cs with
      | nil =>
        have closed : rest = '\'' :: more := (List.cons.inj same).2
        exact (ends '\'' (by simp [closed])).2 rfl
      | cons c cs => exact free (by simp [(List.cons.inj same).1])
    simp only [form, List.cons_append, List.append_assoc, List.nil_append]
    rw [read_literal single, readLiteral_append rest free plain, Option.map_some, text]
  | basicLines =>
    have read := readLines_lineStart (by decide) (spells_escapeFrom cs 0)
      fun c mem => (ends c mem).1
    simp only [form, List.cons_append, List.append_assoc, List.nil_append] at read ⊢
    rw [read_basicLines, read, Option.map_some, text]
  | literalLines =>
    obtain ⟨printed, few⟩ := literalLines form
    have read := readLines_lineStart (by decide)
      (spells_self (isControl_eq_false_of_mem printed) few) fun c mem => (ends c mem).2
    simp only [form, List.cons_append, List.append_assoc, List.nil_append] at read ⊢
    rw [read_literalLines, read, Option.map_some, text]

end DescriptorCheck.Toml.Quoted
