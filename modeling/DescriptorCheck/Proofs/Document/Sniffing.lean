import DescriptorCheck.Proofs.Document.Loading
import DescriptorCheck.Proofs.Text.Span
import DescriptorCheck.Proofs.Xml.Markup
import DescriptorCheck.Proofs.Yaml.Entries

set_option autoImplicit false

namespace DescriptorCheck

namespace Text

def lead (cs : List Char) : List Char := cs.takeWhile (· != '<')

theorem not_mem_lead (cs : List Char) : '<' ∉ lead cs := by
  intro mem
  simpa using List.mem_takeWhile_imp mem

theorem lead_append {before : List Char} (free : '<' ∉ before) (rest : List Char) :
    lead (before ++ '<' :: rest) = before :=
  takeWhile_append_cons (bne_of_not_mem free) rfl rest

theorem eq_lead_append_of_mem {cs : List Char} (mem : '<' ∈ cs) :
    ∃ rest, cs = lead cs ++ '<' :: rest := by
  obtain ⟨before, rest, rfl, free⟩ := List.eq_append_cons_of_mem mem
  exact ⟨rest, by rw [lead_append free]⟩

end Text

namespace Xml

namespace Progress

theorem run_ok_of_length {length : Nat} {p : Progress} {items : List (Except Fault Event)}
    {v : Value} (ran : p.run length items = .ok v) (other : Nat) :
    p.run other items = .ok v := by
  induction items generalizing p with
  | nil => exact ran
  | cons item rest ih =>
    cases item with
    | error fault => cases ran
    | ok event =>
      cases stepped : p.step event with
      | error e => simp [run, stepped, bind, Except.bind] at ran
      | ok next =>
        simp only [run, stepped, bind, Except.bind] at ran ⊢
        exact ih ran

theorem run_start_of_no_markup (length : Nat) {cs : List Char} (free : '<' ∉ cs) :
    start.run length (Event.readIn [] cs) = .error .noRoot := by
  cases cs with
  | nil => rfl
  | cons c more =>
    have text : c ≠ '<' := fun same => free (same ▸ List.mem_cons_self ..)
    have left : (c :: more).dropWhile (· != '<') = [] :=
      List.dropWhile_eq_nil_iff.2 (Text.bne_of_not_mem free)
    rw [Event.readIn, List.length_cons, Event.readFrom_text text, left]
    rfl

theorem run_start_append (length : Nat) {before : List Char} (free : '<' ∉ before)
    (rest : List Char) : start.run length (Event.readIn [] (before ++ '<' :: rest)) =
      start.run length (Event.readIn [] ('<' :: rest)) := by
  by_cases nonempty : before = []
  · subst nonempty
    rfl
  · rw [Event.readIn_text nonempty free]
    rfl

end Progress

theorem skipMark_eq_self_or_cons (cs : List Char) :
    skipMark cs = cs ∨ cs = '\ufeff' :: skipMark cs := by
  unfold skipMark
  split
  · exact .inr rfl
  · exact .inl rfl

theorem not_mem_skipMark {cs : List Char} (free : '<' ∉ cs) : '<' ∉ skipMark cs := by
  rcases skipMark_eq_self_or_cons cs with same | marked
  · rwa [same]
  · rw [marked] at free
    exact List.not_mem_of_not_mem_cons free

theorem skipMark_append_markup {before : List Char} (free : '<' ∉ before) (rest : List Char) :
    ∃ kept, '<' ∉ kept ∧ skipMark (before ++ '<' :: rest) = kept ++ '<' :: rest := by
  cases before with
  | nil => exact ⟨[], free, rfl⟩
  | cons c before =>
    rcases skipMark_eq_self_or_cons (c :: before ++ '<' :: rest) with same | marked
    · exact ⟨_, free, same⟩
    · exact ⟨_, List.not_mem_of_not_mem_cons free, (List.cons.inj marked).2.symm⟩

theorem mem_of_read {text : String} {v : Value} (accepted : read text = .ok v) :
    '<' ∈ text.toList := by
  by_contra free
  rw [read, Event.read_eq_readIn,
    Progress.run_start_of_no_markup _ (not_mem_skipMark free)] at accepted
  cases accepted

theorem read_of_lead {text : String} {v : Value} (accepted : read text = .ok v)
    {before rest : List Char} (free : '<' ∉ before) (led : text.toList = before ++ '<' :: rest) :
    read (String.ofList ('<' :: rest)) = .ok v := by
  -- With or without a mark at its start, what is in front is text outside of elements.
  obtain ⟨kept, free, same⟩ := skipMark_append_markup free rest
  have bare : skipMark ('<' :: rest) = '<' :: rest := rfl
  rw [read, led, same, Event.read_eq_readIn, Progress.run_start_append _ free] at accepted
  rw [read, Event.read_eq_readIn, String.toList_ofList, bare]
  exact Progress.run_ok_of_length accepted _

end Xml

namespace Format

theorem sniff_eq_xml_or_yaml (text : String) : sniff text = .xml ∨ sniff text = .yaml := by
  unfold sniff
  split
  · exact .inl rfl
  · exact .inr rfl

theorem sniff_eq_xml_iff {text : String} {before rest : List Char} (free : '<' ∉ before)
    (led : text.toList = before ++ '<' :: rest) :
    sniff text = .xml ↔ ∀ c ∈ before, Text.isBlankChar c = true := by
  -- Trimming ends at the first character that is not blank, and the bracket is none.
  obtain ⟨blanks, solid, rfl, blank, ends⟩ := Text.exists_run Text.isBlankChar before
  have trimmed : Text.trimStartChars text.toList = solid ++ '<' :: rest := by
    rw [led, List.append_assoc, Text.trimStartChars, List.dropWhile_append_of_pos blank]
    apply Text.trimStartChars_eq_self
    cases solid with
    | nil =>
      intro c first
      obtain rfl : '<' = c := by simpa using first
      rfl
    | cons c solid =>
      exact ends
  rw [sniff, trimmed]
  cases solid with
  | nil => simpa using blank
  | cons c solid =>
    have other : c ≠ '<' := by
      rintro rfl
      simp at free
    have firm : Text.isBlankChar c = false := ends c rfl
    have held : ¬∀ d ∈ blanks ++ c :: solid, Text.isBlankChar d = true := by
      intro blank
      simp [blank c (by simp)] at firm
    refine iff_of_false ?_ held
    simp [other]

end Format

namespace Document

/-- The reading of a text that is loaded where a name tells its format. -/
def LoadedAs (format : Format) (text : String) (outcome : Except ParseError Document) : Prop :=
  ∀ (files : FileTree) (path : String), fileText path (files.read path) = .ok text →
    Format.ofPath? path = some format → load files path = outcome.mapError (.unparsed path)

/-- The reading of a text that is loaded where no name tells its format: from a file, from
standard input and packed from standard input. -/
structure GuessedAs (text : String) (outcome : Except ParseError Document) : Prop where
  file : ∀ (files : FileTree) (path : String), fileText path (files.read path) = .ok text →
    Format.ofPath? path = none → load files path = outcome.mapError (.unparsed path)
  input : ofInput (Text.toUtf8 text) = outcome.mapError .inputUnparsed
  packed : ∀ bytes : List UInt8, Gzip.isMember bytes = true → unpackText bytes = .ok text →
    ofInput bytes = outcome.mapError .inputUnparsed

theorem loadedAs_parse (format : Format) (text : String) :
    LoadedAs format text (parse format text) := by
  intro files path read named
  rw [load, ofFile_of_text read, named, Option.getD_some]

theorem guessedAs_parse_sniff (text : String) :
    GuessedAs text (parse (Format.sniff text) text) where
  file := by
    intro files path read unknown
    rw [load, ofFile_of_text read, unknown, Option.getD_none]
  input := ofInput_toUtf8 text
  packed := by
    intro bytes packed read
    exact ofInput_of_member packed read

theorem parse_xml_of_read {text : String} {v : Value} (accepted : Xml.read text = .ok v) :
    parse .xml text = .ok ⟨v, some text⟩ := by
  rw [parse, accepted]
  rfl

/-- An XML document that blanks and byte order marks lead is taken for XML, and is the same
document on all ways, if no mark is among them. With a mark it is read as YAML where no name
tells its format, though it is XML again without what leads it. -/
theorem sniffed_markup_loads_alike {text : String} {v : Value}
    (accepted : Xml.read text = .ok v)
    (led : ∀ c ∈ Text.lead text.toList, Text.isBlankChar c = true ∨ c = '\ufeff') :
    LoadedAs .xml text (.ok ⟨v, some text⟩) ∧
    ('\ufeff' ∉ Text.lead text.toList →
      Format.sniff text = .xml ∧ GuessedAs text (.ok ⟨v, some text⟩)) ∧
    ('\ufeff' ∈ Text.lead text.toList →
      Format.sniff text = .yaml ∧ GuessedAs text (parse .yaml text)) ∧
    ∃ rest, text.toList = Text.lead text.toList ++ '<' :: rest ∧
      GuessedAs (String.ofList ('<' :: rest)) (.ok ⟨v, some (String.ofList ('<' :: rest))⟩) := by
  obtain ⟨rest, split⟩ := Text.eq_lead_append_of_mem (Xml.mem_of_read accepted)
  have free := Text.not_mem_lead text.toList
  have taken := Format.sniff_eq_xml_iff free split
  have named := loadedAs_parse .xml text
  have guessed := guessedAs_parse_sniff text
  rw [parse_xml_of_read accepted] at named
  refine ⟨named, ?unmarked, ?marked, rest, split, ?bare⟩
  case unmarked =>
    intro unmarked
    have guess : Format.sniff text = .xml := by
      apply taken.2
      intro c mem
      exact (led c mem).resolve_right fun mark => unmarked (mark ▸ mem)
    rw [guess, parse_xml_of_read accepted] at guessed
    exact ⟨guess, guessed⟩
  case marked =>
    intro marked
    have guess : Format.sniff text = .yaml := by
      apply (Format.sniff_eq_xml_or_yaml text).resolve_left
      intro markup
      have solid : Text.isBlankChar '\ufeff' = false := by decide
      rw [taken.1 markup _ marked] at solid
      cases solid
    rw [guess] at guessed
    exact ⟨guess, guessed⟩
  case bare =>
    have bare := guessedAs_parse_sniff (String.ofList ('<' :: rest))
    have guess : Format.sniff (String.ofList ('<' :: rest)) = .xml :=
      (Format.sniff_eq_xml_iff List.not_mem_nil String.toList_ofList).2 (List.forall_mem_nil _)
    rwa [guess, parse_xml_of_read (Xml.read_of_lead accepted free split)] at bare

/-- Blanks beyond ASCII, and a mark behind the first bracket. -/
theorem sniffed_markup_loads_alike_behind_blanks :
    let text := "\u00A0\n\u2003<!--\ufeff--><a><b>1</b></a>"
    Xml.read text = .ok (.object [("b", .text "1")]) ∧
    (∀ c ∈ Text.lead text.toList, Text.isBlankChar c = true ∨ c = '\ufeff') ∧
    '\ufeff' ∉ Text.lead text.toList ∧ Format.sniff text = .xml ∧
    ofInput (Text.toUtf8 text) = .ok ⟨.object [("b", .text "1")], some text⟩ := by
  intro text
  have accepted : Xml.read text = .ok (.object [("b", .text "1")]) := by
    unfold text
    rfl
  have lead : Text.lead "\u00A0\n\u2003<!--\ufeff--><a><b>1</b></a>".toList =
      ['\u00A0', '\n', '\u2003'] := by rfl
  have led : ∀ c ∈ Text.lead text.toList, Text.isBlankChar c = true ∨ c = '\ufeff' := by
    rw [lead]
    simp [Text.isBlankChar, Text.blankRanges]
  have unmarked : '\ufeff' ∉ Text.lead text.toList := by
    rw [lead]
    decide
  obtain ⟨guess, guessed⟩ := (sniffed_markup_loads_alike accepted led).2.1 unmarked
  exact ⟨accepted, led, unmarked, guess, guessed.input⟩

theorem marked_markup_is_one_text :
    let text := "\ufeff<a><b>1</b></a>"
    Xml.read text = .ok (.object [("b", .text "1")]) ∧
    Text.lead text.toList = ['\ufeff'] ∧ Format.sniff text = .yaml ∧
    ofInput (Text.toUtf8 text) = .ok ⟨.text "<a><b>1</b></a>", some text⟩ := by
  intro text
  have accepted : Xml.read text = .ok (.object [("b", .text "1")]) := by
    unfold text
    rfl
  have lead : Text.lead "\ufeff<a><b>1</b></a>".toList = ['\ufeff'] := by rfl
  have guess : Format.sniff "\ufeff<a><b>1</b></a>" = .yaml := by rfl
  have tokens : Yaml.readTokens (Yaml.dropByteOrderMark "\ufeff<a><b>1</b></a>".toList) =
      .ok [.scalar "<a><b>1</b></a>" true] := by rfl
  have parsed : parse .yaml text = .ok ⟨.text "<a><b>1</b></a>", some text⟩ :=
    parse_of_readDatum (Yaml.readDatum_of tokens rfl rfl)
  refine ⟨accepted, lead, guess, ?_⟩
  rw [ofInput_toUtf8, guess, parsed]
  rfl

end Document

end DescriptorCheck
