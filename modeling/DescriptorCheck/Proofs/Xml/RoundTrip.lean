import DescriptorCheck.Proofs.Xml.Content

set_option autoImplicit false

namespace DescriptorCheck.Xml

/-- A letter or `_`, then letters, digits, `-`, `_` and `.`, all of them ASCII. -/
def IsAsciiName : List Char → Prop
  | [] => False
  | c :: more => (c.isAlpha || c == '_') = true ∧
      ∀ d ∈ more, (d.isAlphanum || d == '-' || d == '_' || d == '.') = true

/-- The trees that have a written form. -/
inductive Spellable : Value → Prop
  | text {s : String} (trimmed : Text.IsTrimmed s.toList) : Spellable (.text s)
  | object {entries : List (String × Value)} (nonempty : entries ≠ [])
      (distinct : (entries.map Prod.fst).Nodup)
      (names : ∀ entry ∈ entries, IsAsciiName entry.1.toList)
      (values : ∀ entry ∈ entries, Spellable entry.2) : Spellable (.object entries)
  | array {items : List Value} (several : 2 ≤ items.length)
      (plain : ∀ v ∈ items, v.isArray = false)
      (values : ∀ v ∈ items, Spellable v) : Spellable (.array items)

/-- True of a text that consists of one part of each form, in order. -/
def Joins : List (List Char → Prop) → List Char → Prop
  | [], cs => cs = []
  | form :: rest, cs => ∃ front behind, form front ∧ Joins rest behind ∧ cs = front ++ behind

mutual

/-- The written forms of a value under a name: its elements, each behind a gap. -/
def Spells (name : List Char) : Value → List Char → Prop
  | .text s, cs =>
    ∃ gap, IsGap gap ∧ cs = gap ++ element name (Reference.escape s.toList)
  | .object entries, cs =>
    ∃ gap front behind, IsGap gap ∧ Joins (entryForms entries) front ∧ IsGap behind ∧
      cs = gap ++ element name (front ++ behind)
  | .array items, cs => Joins (itemForms name items) cs
  | .number _, _ | .boolean _, _ | .null, _ => False

def itemForms (name : List Char) : List Value → List (List Char → Prop)
  | [] => []
  | v :: rest => Spells name v :: itemForms name rest

def entryForms : List (String × Value) → List (List Char → Prop)
  | [] => []
  | (key, v) :: rest => Spells key.toList v :: entryForms rest

end

/-- The written forms of a tree as a document whose root element has this name. -/
def SpellsDocument (name : List Char) (entries : List (String × Value)) (cs : List Char) : Prop :=
  ∃ front behind, Joins (entryForms entries) front ∧ IsGap behind ∧
    cs = element name (front ++ behind)

theorem itemForms_eq_map (name : List Char) (items : List Value) :
    itemForms name items = items.map (Spells name) := by
  induction items with
  | nil => rw [itemForms, List.map_nil]
  | cons v rest ih => rw [itemForms, List.map_cons, ih]

theorem entryForms_eq_map (entries : List (String × Value)) :
    entryForms entries = entries.map fun entry => Spells entry.1.toList entry.2 := by
  induction entries with
  | nil => rw [entryForms, List.map_nil]
  | cons entry rest ih => rw [entryForms, List.map_cons, ih]

theorem of_isAlphanum {c : Char}
    (inName : (c.isAlphanum || c == '-' || c == '_' || c == '.') = true) :
    breaksName c = false ∧ c ≠ ':' := by
  refine ⟨?_, ?_⟩
  · by_contra breaks
    rw [Bool.not_eq_false] at breaks
    simp only [breaksName, isBlank, Bool.or_eq_true, beq_iff_eq, List.contains_iff_mem,
      List.mem_cons, List.not_mem_nil, or_false, or_assoc] at breaks
    rcases breaks with h | h | h | h | h | h | h | h | h | h | h | h <;> subst h <;>
      exact absurd inName (by decide)
  · rintro rfl
    exact absurd inName (by decide)

namespace IsAsciiName

variable {name : List Char} (valid : IsAsciiName name)

include valid

theorem of_mem {c : Char} (mem : c ∈ name) : breaksName c = false ∧ c ≠ ':' := by
  cases name with
  | nil => exact absurd mem List.not_mem_nil
  | cons first more =>
    obtain ⟨starts, stays⟩ := valid
    refine of_isAlphanum ?_
    rcases List.mem_cons.1 mem with rfl | inner
    · simp only [Char.isAlphanum, Bool.or_eq_true] at starts ⊢
      tauto
    · exact stays c inner

theorem ne_nil : name ≠ [] := by
  rintro rfl
  exact valid

theorem isName : IsName name := ⟨valid.ne_nil, fun _ mem => (valid.of_mem mem).1⟩

theorem localName_eq : localName name = name := by
  have none : name.dropWhile (· != ':') = [] :=
    List.dropWhile_eq_nil_iff.2 fun c mem => by simpa using (valid.of_mem mem).2
  rw [localName, none]

end IsAsciiName

namespace Spellable

theorem items_ne_nil {v : Value} (spellable : Spellable v) : v.items ≠ [] := by
  cases spellable with
  | text _ | object _ _ _ _ => exact List.cons_ne_nil _ _
  | array several _ _ => exact List.ne_nil_of_length_pos (by simp only [Value.items]; omega)

theorem gather_items {v : Value} (spellable : Spellable v) : gather v.items = v := by
  cases spellable with
  | text _ | object _ _ _ _ => rfl
  | @array items several _ _ =>
    match items, several with
    | _ :: _ :: _, _ => rfl

end Spellable

/-- A text that is read as content which names these values, whatever stands behind it. -/
def ReadsAs (cs : List Char) (pairs : List (String × Value)) : Prop :=
  ∃ content, Node.Holds content pairs ∧ ∀ rest, Reads cs content rest

namespace ReadsAs

theorem nil : ReadsAs [] [] := ⟨[], ⟨rfl, nofun⟩, Reads.nil⟩

theorem append {cs ds : List Char} {pairs others : List (String × Value)}
    (front : ReadsAs cs pairs) (behind : ReadsAs ds others) :
    ReadsAs (cs ++ ds) (pairs ++ others) := by
  obtain ⟨content, holds, reads⟩ := front
  obtain ⟨more, also, later⟩ := behind
  exact ⟨content ++ more, holds.append also, fun rest => .append (reads _) (later rest)⟩

theorem element {name : String} (valid : IsAsciiName name.toList) {gap body : List Char}
    (isGap : IsGap gap) {content : List Node} {v : Value}
    (value : Node.elementValue (Node.childPairs content) (Node.contentText content) = v)
    (inner : ∀ rest, Reads body content ('<' :: rest)) :
    ReadsAs (gap ++ Xml.element name.toList body) [(name, v)] := by
  obtain ⟨front, none, reads⟩ := exists_reads_gap isGap
  have named : localName valid.isName.tag.name ≠ [] := by
    change localName name.toList ≠ []
    rw [valid.localName_eq]
    exact valid.ne_nil
  have localText : valid.isName.tag.localText = name := by
    change String.ofList (localName name.toList) = name
    rw [valid.localName_eq, String.ofList_toList]
  have holds : Node.Holds [.element valid.isName.tag named content] [(name, v)] := by
    refine ⟨?_, fun c mem => absurd mem List.not_mem_nil⟩
    rw [← value, Node.childPairs, Node.child?, localText]
    rfl
  exact ⟨front ++ [.element valid.isName.tag named content], none.append holds, fun rest =>
    .append (reads _) (.element valid.isName named (inner _))⟩

end ReadsAs

theorem readsAs_text {name : String} (valid : IsAsciiName name.toList) {s : String}
    (trimmed : Text.IsTrimmed s.toList) {gap : List Char} (isGap : IsGap gap) :
    ReadsAs (gap ++ element name.toList (Reference.escape s.toList)) [(name, .text s)] := by
  obtain ⟨content, pairs, text, reads⟩ := exists_reads_text
    ⟨Reference.escape s.toList, s.toList, Reference.replace_escape s.toList⟩
    (Reference.not_mem_escape s.toList)
  refine .element valid isGap ?_ reads
  rw [pairs, text, Node.elementValue, if_pos rfl, Text.trimChars_eq_self trimmed,
    String.ofList_toList]

theorem readsAs_of_joins {α : Type} {form : α → List Char → Prop}
    {named : α → List (String × Value)} {parts : List α}
    (read : ∀ a ∈ parts, ∀ cs, form a cs → ReadsAs cs (named a)) {cs : List Char}
    (joins : Joins (parts.map form) cs) : ReadsAs cs (parts.flatMap named) := by
  induction parts generalizing cs with
  | nil =>
    obtain rfl : cs = [] := joins
    exact .nil
  | cons a rest ih =>
    obtain ⟨front, behind, here, later, rfl⟩ := joins
    have first := read a (List.mem_cons_self ..) front here
    exact first.append (ih (fun b mem => read b (List.mem_cons_of_mem a mem)) later)

theorem flatMap_items_of_plain {items : List Value} (plain : ∀ v ∈ items, v.isArray = false)
    (name : String) : (items.flatMap fun v => v.items.map (name, ·)) = items.map (name, ·) := by
  induction items with
  | nil => rfl
  | cons v rest ih =>
    have single : v.items = [v] := by
      have := plain v (List.mem_cons_self ..)
      cases v <;> first | rfl | exact absurd this nofun
    rw [List.flatMap_cons, single, ih fun w mem => plain w (List.mem_cons_of_mem v mem)]
    rfl

theorem spread_ne_nil {entries : List (String × Value)} (nonempty : entries ≠ [])
    (values : ∀ entry ∈ entries, Spellable entry.2) : spread entries ≠ [] := by
  obtain ⟨entry, rest, rfl⟩ := List.exists_cons_of_ne_nil nonempty
  have items := (values entry (List.mem_cons_self ..)).items_ne_nil
  simp [spread, items]

/-- The content of an object, with a gap behind its last entry, is read as that object. -/
theorem exists_reads_object {entries : List (String × Value)} (nonempty : entries ≠ [])
    (distinct : (entries.map Prod.fst).Nodup) (values : ∀ entry ∈ entries, Spellable entry.2)
    {front behind : List Char} (reads : ReadsAs front (spread entries)) (isGap : IsGap behind) :
    ∃ content, Node.elementValue (Node.childPairs content) (Node.contentText content) =
        .object entries ∧
      ∀ rest, Reads (front ++ behind) content ('<' :: rest) := by
  obtain ⟨content, holds, first⟩ := reads
  obtain ⟨more, none, later⟩ := exists_reads_gap isGap
  have both := holds.append none
  refine ⟨content ++ more, ?_, fun rest => .append (first _) (later rest)⟩
  rw [both.childPairs_eq, List.append_nil, Node.elementValue,
    if_neg (spread_ne_nil nonempty values), if_pos (Text.trimChars_of_blank both.blank),
    group_spread distinct fun entry mem =>
      ⟨(values entry mem).items_ne_nil, (values entry mem).gather_items⟩]

theorem readsAs_of_spells {v : Value} (spellable : Spellable v) {name : String}
    (valid : IsAsciiName name.toList) {cs : List Char} (spells : Spells name.toList v cs) :
    ReadsAs cs (v.items.map (name, ·)) := by
  induction spellable generalizing name cs with
  | text trimmed =>
    rw [Spells] at spells
    obtain ⟨gap, isGap, rfl⟩ := spells
    exact readsAs_text valid trimmed isGap
  | object nonempty distinct names values ih =>
    rw [Spells] at spells
    obtain ⟨gap, front, behind, isGap, inner, ending, rfl⟩ := spells
    rw [entryForms_eq_map] at inner
    have reads := readsAs_of_joins
      (fun entry mem _ here => ih entry mem (names entry mem) here) inner
    obtain ⟨content, value, whole⟩ := exists_reads_object nonempty distinct values reads ending
    exact .element valid isGap value whole
  | array several plain values ih =>
    rw [Spells, itemForms_eq_map] at spells
    -- The items share the name of the array, so grouping makes them one entry again.
    have reads := readsAs_of_joins (fun w mem _ here => ih w mem valid here) spells
    rwa [flatMap_items_of_plain plain] at reads

theorem parse_of_spellsDocument {name : List Char} (valid : IsName name)
    {entries : List (String × Value)} (spellable : Spellable (.object entries)) {cs : List Char}
    (spells : SpellsDocument name entries cs) :
    Document.parse .xml (String.ofList cs) =
      .ok ⟨.object entries, some (String.ofList cs)⟩ := by
  obtain ⟨front, behind, inner, ending, rfl⟩ := spells
  cases spellable with
  | object nonempty distinct names values =>
  rw [entryForms_eq_map] at inner
  have reads := readsAs_of_joins
    (fun entry mem _ here => readsAs_of_spells (values entry mem) (names entry mem) here) inner
  obtain ⟨content, value, whole⟩ := exists_reads_object nonempty distinct values reads ending
  rw [Document.parse, read_element valid whole, value]
  rfl

theorem exists_joins {α : Type} {form : α → List Char → Prop} {parts : List α}
    (each : ∀ a ∈ parts, ∃ cs, form a cs) : ∃ cs, Joins (parts.map form) cs := by
  induction parts with
  | nil => exact ⟨[], rfl⟩
  | cons a rest ih =>
    obtain ⟨front, here⟩ := each a (List.mem_cons_self ..)
    obtain ⟨behind, later⟩ := ih fun b mem => each b (List.mem_cons_of_mem a mem)
    exact ⟨front ++ behind, front, behind, here, later, rfl⟩

theorem exists_spells {v : Value} (spellable : Spellable v) (name : List Char) :
    ∃ cs, Spells name v cs := by
  induction spellable generalizing name with
  | @text s trimmed =>
    refine ⟨element name (Reference.escape s.toList), ?_⟩
    rw [Spells]
    exact ⟨[], isGap_nil, rfl⟩
  | object nonempty distinct names values ih =>
    obtain ⟨front, inner⟩ := exists_joins fun entry mem => ih entry mem entry.1.toList
    refine ⟨element name (front ++ []), ?_⟩
    rw [Spells, entryForms_eq_map]
    exact ⟨[], front, [], isGap_nil, inner, isGap_nil, rfl⟩
  | array several plain values ih =>
    simp only [Spells, itemForms_eq_map]
    exact exists_joins fun v mem => ih v mem name

/-- Every tree that can be written has a written form, and every written form of it,
under whatever root name and in whatever layout, is parsed to that tree. -/
theorem parse_written_tree {name : List Char} (valid : IsName name)
    {entries : List (String × Value)} (spellable : Spellable (.object entries)) :
    (∃ cs, SpellsDocument name entries cs) ∧
      ∀ cs, SpellsDocument name entries cs → Document.parse .xml (String.ofList cs) =
        .ok ⟨.object entries, some (String.ofList cs)⟩ := by
  refine ⟨?_, fun _ => parse_of_spellsDocument valid spellable⟩
  cases spellable with
  | object nonempty distinct names values =>
  obtain ⟨front, inner⟩ := exists_joins fun entry mem =>
    exists_spells (values entry mem) entry.1.toList
  rw [← entryForms_eq_map] at inner
  exact ⟨element name (front ++ []), front, [], inner, isGap_nil, rfl⟩

/-- Entries with a text to escape, and with an array of a text and an object. -/
def layoutTree : List (String × Value) :=
  [("k", .text "1 < 2"), ("a", .array [.text "", .object [("b-1", .text "&")]])]

def layoutText : String :=
  "<r>\n <k>1 &lt; 2</k><!-- two --> <a></a>\n <a><b-1>&amp;</b-1> </a></r>"

theorem spellable_layoutTree : Spellable (.object layoutTree) := by
  have low : Spellable (.text "1 < 2") := .text
    (by constructor <;> simp [Text.isBlankChar, Text.blankRanges])
  have empty : Spellable (.text "") := .text (by constructor <;> simp)
  have both : Spellable (.text "&") := .text
    (by constructor <;> simp [Text.isBlankChar, Text.blankRanges])
  have inner : Spellable (.object [("b-1", .text "&")]) :=
    .object (by decide) (by decide) (by simp [IsAsciiName]) (by simpa using both)
  have items : Spellable (.array [.text "", .object [("b-1", .text "&")]]) :=
    .array (by decide) (by simp [Value.isArray]) (by simpa using ⟨empty, inner⟩)
  exact .object (by decide) (by decide) (by simp [layoutTree, IsAsciiName])
    (by simpa [layoutTree] using ⟨low, items⟩)

theorem spells_layoutTree : SpellsDocument ['r'] layoutTree layoutText.toList := by
  have line : IsGap "\n ".toList := .blank (Text.forall_of_all rfl)
  have space : IsGap [' '] := .blank (Text.forall_of_all rfl)
  have two : ¬ ['-', '-'] <:+: " two ".toList ++ ['-'] := by decide
  have gap : IsGap ([] ++ comment " two ".toList ++ [' ']) :=
    .comment (List.forall_mem_nil _) two space
  have low : Spells ['k'] (.text "1 < 2") "\n <k>1 &lt; 2</k>".toList := ⟨_, line, by decide⟩
  have empty : Spells ['a'] (.text "") "<!-- two --> <a></a>".toList := ⟨_, gap, by decide⟩
  have both : Spells "b-1".toList (.text "&") "<b-1>&amp;</b-1>".toList :=
    ⟨[], isGap_nil, by decide⟩
  have inner : Spells ['a'] (.object [("b-1", .text "&")]) "\n <a><b-1>&amp;</b-1> </a>".toList :=
    ⟨_, "<b-1>&amp;</b-1>".toList, _, line, ⟨_, [], both, rfl, (List.append_nil _).symm⟩, space,
      by decide⟩
  have items : Spells ['a'] (.array [.text "", .object [("b-1", .text "&")]])
      "<!-- two --> <a></a>\n <a><b-1>&amp;</b-1> </a>".toList :=
    ⟨_, _, empty, ⟨_, [], inner, rfl, (List.append_nil _).symm⟩, by decide⟩
  exact ⟨"\n <k>1 &lt; 2</k><!-- two --> <a></a>\n <a><b-1>&amp;</b-1> </a>".toList, [],
    ⟨_, _, low, ⟨_, [], items, rfl, (List.append_nil _).symm⟩, by decide⟩, isGap_nil, by decide⟩

theorem parse_written_tree_on_layout :
    IsName ['r'] ∧ Spellable (.object layoutTree) ∧
    SpellsDocument ['r'] layoutTree layoutText.toList ∧
    Document.parse .xml layoutText = .ok ⟨.object layoutTree, some layoutText⟩ := by
  have name : IsName ['r'] := ⟨by decide, Text.forall_of_all rfl⟩
  have parsed := (parse_written_tree name spellable_layoutTree).2 _ spells_layoutTree
  rw [String.ofList_toList] at parsed
  exact ⟨name, spellable_layoutTree, spells_layoutTree, parsed⟩

end DescriptorCheck.Xml
