import DescriptorCheck.Proofs.Xml.Escaping
import DescriptorCheck.Proofs.Xml.Markup
import DescriptorCheck.Proofs.Xml.Tree

set_option autoImplicit false

namespace DescriptorCheck.Xml

def breaksName (c : Char) : Bool :=
  isBlank c || ['<', '>', '/', '!', '?', '=', '"', '\''].contains c

structure IsName (name : List Char) : Prop where
  nonempty : name ≠ []
  free : ∀ c ∈ name, breaksName c = false

def element (name body : List Char) : List Char :=
  '<' :: (name ++ '>' :: (body ++ '<' :: '/' :: (name ++ ['>'])))

def comment (body : List Char) : List Char := '<' :: '!' :: '-' :: '-' :: (body ++ ['-', '-', '>'])

namespace IsName

variable {name : List Char} (valid : IsName name)

include valid

theorem not_isBlank : ∀ c ∈ name, isBlank c = false :=
  fun c mem => (Bool.or_eq_false_iff.1 (valid.free c mem)).1

theorem ne_of_mem {c : Char} (mem : c ∈ name) {d : Char} (breaks : breaksName d = true) :
    c ≠ d := by
  rintro rfl
  exact absurd breaks (by simp [valid.free c mem])

theorem inTag : ∀ c ∈ name, c ≠ '>' ∧ c ≠ '"' ∧ c ≠ '\'' := fun _ mem =>
  ⟨valid.ne_of_mem mem rfl, valid.ne_of_mem mem rfl, valid.ne_of_mem mem rfl⟩

end IsName

namespace Event

theorem splitTag?_append {cs : List Char} (free : ∀ c ∈ cs, c ≠ '>' ∧ c ≠ '"' ∧ c ≠ '\'')
    (rest : List Char) : splitTag? none (cs ++ '>' :: rest) = some (cs, rest) := by
  induction cs with
  | nil => rfl
  | cons c more ih =>
    obtain ⟨bracket, double, single⟩ := free c (List.mem_cons_self ..)
    have later := ih fun d mem => free d (List.mem_cons_of_mem c mem)
    simp [splitTag?, bracket, double, single, later]

theorem splitAt?_comment {body : List Char} (single : ¬ ['-', '-'] <:+: body ++ ['-'])
    (rest : List Char) :
    splitAt? ['-', '-', '>'] (body ++ '-' :: '-' :: '>' :: rest) = some (body, rest) := by
  induction body with
  | nil => rfl
  | cons c more ih =>
    have later := ih fun inner => single (inner.trans (List.suffix_cons c _).isInfix)
    have inside : ¬ ['-', '-', '>'] <+: c :: (more ++ '-' :: '-' :: '>' :: rest) := by
      intro ends
      have dashes : ['-', '-'] <+: c :: (more ++ '-' :: '-' :: '>' :: rest) :=
        (List.prefix_append ['-', '-'] ['>']).trans ends
      have front : c :: (more ++ ['-']) <+: c :: (more ++ '-' :: '-' :: '>' :: rest) :=
        ⟨'-' :: '>' :: rest, by simp⟩
      exact single (List.prefix_of_prefix_length_le dashes front (by simp)).isInfix
    rw [List.cons_append, splitAt?, if_neg (by rwa [List.isPrefixOf_iff_prefix]), later]
    rfl

theorem trimName_eq_self {name : List Char} (free : ∀ c ∈ name, isBlank c = false) :
    trimName name = name := by
  have solid : name.reverse.dropWhile isBlank = name.reverse := by
    cases ending : name.reverse with
    | nil => rfl
    | cons c more =>
      have mem : c ∈ name := List.mem_reverse.1 (by simp [ending])
      exact List.dropWhile_cons_of_neg (by simp [free c mem])
  rw [trimName, solid, List.reverse_reverse, ite_self]

variable {name : List Char} (valid : IsName name) (opened : List (List Char)) (rest : List Char)

include valid

theorem readMarkup_start :
    readMarkup opened (name ++ '>' :: rest) = .ok (.start ⟨name⟩, name :: opened, rest) := by
  have split := splitTag?_append valid.inTag rest
  have ending : name.getLast? ≠ some '/' := fun slash =>
    valid.ne_of_mem (List.mem_of_getLast? slash) rfl rfl
  have whole : Tag.name ⟨name⟩ = name :=
    List.takeWhile_eq_self_iff.2 (Text.not_of_eq_false valid.not_isBlank)
  obtain ⟨c, more, rfl⟩ := List.exists_cons_of_ne_nil valid.nonempty
  rw [readMarkup]
  · simp only [split, if_neg ending, whole]
  -- No name starts like the other kinds of markup.
  all_goals
    intro _ same
    exact valid.ne_of_mem (List.mem_cons_self ..) (by decide) (List.cons.inj same).1

theorem readMarkup_close :
    readMarkup (name :: opened) ('/' :: (name ++ '>' :: rest)) =
      .ok (.close name, opened, rest) := by
  have slash : '/' ≠ '>' ∧ '/' ≠ '"' ∧ '/' ≠ '\'' := by decide
  have split := splitTag?_append (List.forall_mem_cons.2 ⟨slash, valid.inTag⟩) rest
  have trimmed : trimName (('/' :: name).drop 1) = name := trimName_eq_self valid.not_isBlank
  rw [List.cons_append] at split
  simp only [readMarkup, split, trimmed, if_true]

omit valid in
theorem readMarkup_comment {body : List Char} (single : ¬ ['-', '-'] <:+: body ++ ['-']) :
    readMarkup opened ('!' :: '-' :: '-' :: (body ++ '-' :: '-' :: '>' :: rest)) =
      .ok (.aside, opened, rest) := by
  simp only [readMarkup, readComment, List.drop_one, List.tail_cons,
    splitAt?_comment single rest, List.head?_cons, if_true]
  rfl

end Event

namespace Node

theorem contentEvents_append (content more : List Node) :
    contentEvents (content ++ more) = contentEvents content ++ contentEvents more := by
  induction content with
  | nil => rfl
  | cons n rest ih => rw [List.cons_append, contentEvents, contentEvents, ih, List.append_assoc]

theorem childPairs_append (content more : List Node) :
    childPairs (content ++ more) = childPairs content ++ childPairs more := by
  induction content with
  | nil => rfl
  | cons n rest ih => rw [List.cons_append, childPairs, childPairs, ih, List.append_assoc]

/-- Content that names these values and has no other text than blanks. -/
structure Holds (content : List Node) (pairs : List (String × Value)) : Prop where
  childPairs_eq : childPairs content = pairs
  blank : ∀ c ∈ contentText content, Text.isBlankChar c = true

theorem Holds.append {content more : List Node} {pairs others : List (String × Value)}
    (front : Holds content pairs) (behind : Holds more others) :
    Holds (content ++ more) (pairs ++ others) where
  childPairs_eq := by rw [childPairs_append, front.childPairs_eq, behind.childPairs_eq]
  blank := by
    intro c mem
    rw [contentText, List.flatMap_append, List.mem_append] at mem
    exact mem.elim (front.blank c) (behind.blank c)

end Node

/-- In front of `rest` a text is read as this content, inside of any elements. -/
def Reads (cs : List Char) (content : List Node) (rest : List Char) : Prop :=
  ∀ opened, Event.readIn opened (cs ++ rest) =
    (Node.contentEvents content).map .ok ++ Event.readIn opened rest

namespace Reads

variable {cs ds rest : List Char} {content more : List Node}

theorem nil (rest : List Char) : Reads [] [] rest := fun _ => rfl

theorem append (front : Reads cs content (ds ++ rest)) (behind : Reads ds more rest) :
    Reads (cs ++ ds) (content ++ more) rest := by
  intro opened
  rw [List.append_assoc, front opened, behind opened, Node.contentEvents_append, List.map_append,
    List.append_assoc]

theorem text {t : EscapedText} (nonempty : t.written ≠ []) (free : '<' ∉ t.written)
    (rest : List Char) : Reads t.written [.text t] ('<' :: rest) :=
  fun opened => Event.readIn_text nonempty free opened rest

theorem comment {body : List Char} (single : ¬ ['-', '-'] <:+: body ++ ['-'])
    (rest : List Char) : Reads (comment body) [.aside] rest := by
  intro opened
  have whole : Xml.comment body ++ rest =
      '<' :: '!' :: '-' :: '-' :: (body ++ '-' :: '-' :: '>' :: rest) := by
    simp [Xml.comment]
  rw [whole, Event.readIn_markup (Event.readMarkup_comment opened rest single)]
  rfl

end Reads

theorem readIn_element {name body rest : List Char} {content : List Node} (valid : IsName name)
    (inner : Reads body content ('<' :: '/' :: (name ++ '>' :: rest)))
    (opened : List (List Char)) :
    Event.readIn opened (element name body ++ rest) =
      (.start ⟨name⟩ :: (Node.contentEvents content ++ [.close name])).map .ok
        ++ Event.readIn opened rest := by
  have whole : element name body ++ rest =
      '<' :: (name ++ '>' :: (body ++ '<' :: '/' :: (name ++ '>' :: rest))) := by
    simp [element]
  rw [whole, Event.readIn_markup (Event.readMarkup_start valid opened _), inner,
    Event.readIn_markup (Event.readMarkup_close valid opened rest)]
  simp

def IsName.tag {name : List Char} (valid : IsName name) : SpeltTag := .bare name valid.not_isBlank

theorem IsName.tag_tag {name : List Char} (valid : IsName name) : valid.tag.tag = ⟨name⟩ := by
  simp [tag, SpeltTag.bare, SpeltTag.tag, SpeltTag.chars]

theorem Reads.element {name body rest : List Char} {content : List Node} (valid : IsName name)
    (named : localName valid.tag.name ≠ [])
    (inner : Reads body content ('<' :: '/' :: (name ++ '>' :: rest))) :
    Reads (element name body) [.element valid.tag named content] rest := by
  intro opened
  rw [readIn_element valid inner, Node.contentEvents, Node.events, valid.tag_tag,
    Node.contentEvents, List.append_nil]
  rfl

theorem read_element {name body : List Char} {content : List Node} (valid : IsName name)
    (inner : ∀ rest, Reads body content ('<' :: rest)) :
    Xml.read (String.ofList (element name body)) =
      .ok (rootValue (Node.elementValue (Node.childPairs content) (Node.contentText content))) := by
  have events : Event.read (element name body) =
      (.start valid.tag.tag :: (Node.contentEvents content ++ [.close name])).map .ok := by
    have read := readIn_element valid (inner ('/' :: (name ++ ['>']))) []
    rw [Event.readIn_nil, List.append_nil, List.append_nil] at read
    rw [valid.tag_tag, Event.read_eq_readIn, read]
  have noFiller : ∀ e ∈ ([] : List Event) ++ [], e.isFiller = true := nofun
  have ran := Progress.run_of_steps_root (Progress.steps_element valid.tag content [] none) noFiller
    (Text.byteLength (element name body))
  rw [Progress.value_closing, List.nil_append, List.append_nil] at ran
  rw [Xml.read, String.toList_ofList]
  change Progress.start.run _ (Event.read (element name body)) = _
  rw [events]
  exact ran

/-- Blanks and comments, as they may stand between tags. -/
inductive IsGap : List Char → Prop
  | blank {cs : List Char} (blank : ∀ c ∈ cs, Text.isBlankChar c = true) : IsGap cs
  | comment {blanks body rest : List Char} (blank : ∀ c ∈ blanks, Text.isBlankChar c = true)
      (single : ¬ ['-', '-'] <:+: body ++ ['-']) (gap : IsGap rest) :
      IsGap (blanks ++ comment body ++ rest)

theorem isGap_nil : IsGap [] := .blank (List.forall_mem_nil _)

theorem not_mem_of_blank {blanks : List Char} (blank : ∀ c ∈ blanks, Text.isBlankChar c = true)
    {c : Char} (solid : Text.isBlankChar c = false) : c ∉ blanks := by
  intro mem
  exact Bool.false_ne_true (solid.symm.trans (blank c mem))

theorem exists_reads_text (t : EscapedText) (free : '<' ∉ t.written) :
    ∃ content, Node.childPairs content = [] ∧ Node.contentText content = t.meant ∧
      ∀ rest, Reads t.written content ('<' :: rest) := by
  by_cases empty : t.written = []
  · have meant : t.meant = [] := by
      have replaced := t.replace_written
      rw [empty] at replaced
      exact (Except.ok.inj replaced).symm
    rw [empty, meant]
    exact ⟨[], rfl, rfl, fun rest => .nil _⟩
  · exact ⟨[.text t], rfl, by simp [Node.contentText, Node.ownText], .text empty free⟩

theorem exists_reads_blank {blanks : List Char}
    (blank : ∀ c ∈ blanks, Text.isBlankChar c = true) :
    ∃ content, Node.Holds content [] ∧ ∀ rest, Reads blanks content ('<' :: rest) := by
  obtain ⟨content, pairs, text, reads⟩ := exists_reads_text
    ⟨blanks, blanks, Reference.replace_of_not_mem (not_mem_of_blank blank rfl)⟩
    (not_mem_of_blank blank rfl)
  exact ⟨content, ⟨pairs, by rwa [text]⟩, reads⟩

theorem exists_reads_gap {gap : List Char} (isGap : IsGap gap) :
    ∃ content, Node.Holds content [] ∧ ∀ rest, Reads gap content ('<' :: rest) := by
  induction isGap with
  | blank blank => exact exists_reads_blank blank
  | comment blank single gap ih =>
    obtain ⟨front, none, reads⟩ := exists_reads_blank blank
    obtain ⟨behind, also, later⟩ := ih
    have silent : Node.Holds [.aside] [] := ⟨rfl, fun c mem => absurd mem List.not_mem_nil⟩
    refine ⟨front ++ [.aside] ++ behind, (none.append silent).append also, fun rest => ?_⟩
    exact .append (.append (reads _) (.comment single _)) (later rest)

end DescriptorCheck.Xml
