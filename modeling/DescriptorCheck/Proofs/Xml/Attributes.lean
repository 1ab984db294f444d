import DescriptorCheck.Proofs.Text.Span
import DescriptorCheck.Proofs.Xml.Grouping
import Mathlib.Data.List.TakeWhile

set_option autoImplicit false

namespace DescriptorCheck.Xml

/-- An attribute as it is written, with what its value means. -/
structure SpeltAttribute where
  before : List Char
  key : List Char
  beforeEquals : List Char
  afterEquals : List Char
  quote : Char
  written : List Char
  meant : List Char
  before_ne_nil : before ≠ []
  before_blank : ∀ c ∈ before, isBlank c = true
  key_free : ∀ c ∈ key, Tag.endsKey c = false
  named : localName key ≠ []
  beforeEquals_blank : ∀ c ∈ beforeEquals, isBlank c = true
  afterEquals_blank : ∀ c ∈ afterEquals, isBlank c = true
  quote_eq : quote = '"' ∨ quote = '\''
  written_free : quote ∉ written
  replace_written : Reference.replace written = .ok meant

namespace SpeltAttribute

def read (a : SpeltAttribute) : Attribute := ⟨a.key, a.written⟩

def chars (a : SpeltAttribute) : List Char :=
  a.before ++ a.key ++ a.beforeEquals ++ ['='] ++ a.afterEquals ++ [a.quote] ++ a.written
    ++ [a.quote]

def pair? (a : SpeltAttribute) : Option (String × Value) :=
  if a.read.isNamespace then none
  else some (String.ofList (localName a.key), .text (String.ofList a.meant))

end SpeltAttribute

structure SpeltTag where
  name : List Char
  attributes : List SpeltAttribute
  behind : List Char
  name_free : ∀ c ∈ name, isBlank c = false
  distinct : (attributes.map SpeltAttribute.key).Nodup
  behind_blank : ∀ c ∈ behind, isBlank c = true

namespace SpeltTag

def chars (t : SpeltTag) : List Char :=
  t.name ++ t.attributes.flatMap SpeltAttribute.chars ++ t.behind

def tag (t : SpeltTag) : Tag := ⟨t.chars⟩

def localText (t : SpeltTag) : String := String.ofList (localName t.name)

theorem blank_nil : ∀ c ∈ ([] : List Char), isBlank c = true := List.forall_mem_nil _

def bare (name : List Char) (free : ∀ c ∈ name, isBlank c = false) : SpeltTag :=
  ⟨name, [], [], free, List.nodup_nil, blank_nil⟩

def pairs (t : SpeltTag) : List (String × Value) := t.attributes.filterMap SpeltAttribute.pair?

end SpeltTag

theorem splitKey_append {key : List Char} (nonempty : key ≠ [])
    (free : ∀ c ∈ key, Tag.endsKey c = false) {c : Char} (ends : Tag.endsKey c = true)
    (rest : List Char) : Tag.splitKey (key ++ c :: rest) = (key, c :: rest) := by
  obtain ⟨first, more, rfl⟩ := List.exists_cons_of_ne_nil nonempty
  have kept := Text.not_of_eq_false (List.forall_mem_cons.1 free).2
  have stops : (!Tag.endsKey c) = false := by rw [ends]; rfl
  rw [List.cons_append, Tag.splitKey, Text.takeWhile_append_cons kept stops,
    Text.dropWhile_append_cons kept stops]

theorem isBlank_of_not_endsKey {c : Char} (free : Tag.endsKey c = false) : isBlank c = false := by
  rw [Tag.endsKey, Bool.or_eq_false_iff] at free
  exact free.2

namespace SpeltAttribute

variable (a : SpeltAttribute)

theorem key_ne_nil : a.key ≠ [] := by
  intro empty
  exact a.named (by rw [empty]; rfl)

theorem not_isBlank_quote : isBlank a.quote = false := by
  rcases a.quote_eq with double | single
  · rw [double]; rfl
  · rw [single]; rfl

theorem behindKey_eq (rest : List Char) : ∃ c more,
    a.beforeEquals ++ '=' :: rest = c :: more ∧ Tag.endsKey c = true := by
  cases blanks : a.beforeEquals with
  | nil => exact ⟨'=', rest, rfl, rfl⟩
  | cons c more =>
    have blank := a.beforeEquals_blank c (by simp [blanks])
    exact ⟨c, more ++ '=' :: rest, rfl, by simp [Tag.endsKey, blank]⟩

theorem attributesIn_chars (stop : Nat) {known : List (List Char × Nat)}
    (fresh : known.lookup a.key = none) (count : Nat) (rest : List Char) :
    ∃ place, Tag.attributesIn stop known (count + 1) (a.chars ++ rest) =
      .ok a.read :: Tag.attributesIn stop ((a.key, place) :: known) count rest := by
  have text : a.chars ++ rest = a.before ++ (a.key ++ (a.beforeEquals ++ '=' ::
      (a.afterEquals ++ a.quote :: (a.written ++ a.quote :: rest)))) := by
    simp [chars]
  obtain ⟨first, more, key⟩ := List.exists_cons_of_ne_nil a.key_ne_nil
  have solid : isBlank first = false :=
    isBlank_of_not_endsKey (a.key_free first (by simp [key]))
  obtain ⟨c, behind, behindKey, ends⟩ := a.behindKey_eq
    (a.afterEquals ++ a.quote :: (a.written ++ a.quote :: rest))
  have start : (a.chars ++ rest).dropWhile isBlank = first :: (more ++ c :: behind) := by
    rw [text, behindKey, key, List.cons_append, Text.dropWhile_append_cons a.before_blank solid]
  have split : Tag.splitKey (first :: (more ++ c :: behind)) = (a.key, c :: behind) := by
    rw [← List.cons_append, ← key]
    exact splitKey_append a.key_ne_nil a.key_free ends behind
  have equals : (c :: behind).dropWhile isBlank =
      '=' :: (a.afterEquals ++ a.quote :: (a.written ++ a.quote :: rest)) := by
    rw [← behindKey, Text.dropWhile_append_cons a.beforeEquals_blank rfl]
  have opened : (a.afterEquals ++ a.quote :: (a.written ++ a.quote :: rest)).dropWhile isBlank =
      a.quote :: (a.written ++ a.quote :: rest) :=
    Text.dropWhile_append_cons a.afterEquals_blank a.not_isBlank_quote _
  have quoted : (a.quote == '"' || a.quote == '\'') = true := by
    rcases a.quote_eq with quote | quote <;> simp [quote]
  have inside := Text.bne_of_not_mem a.written_free
  have value := Text.takeWhile_append_cons inside (bne_self_eq_false a.quote) rest
  have closed := Text.dropWhile_append_cons inside (bne_self_eq_false a.quote) rest
  refine ⟨stop - Text.byteLength (first :: (more ++ c :: behind)), ?_⟩
  simp only [Tag.attributesIn, start, split, equals, fresh, opened, quoted, if_true, value, closed,
    read]

end SpeltAttribute

theorem attributesIn_blank (stop : Nat) (known : List (List Char × Nat)) (count : Nat)
    {blanks : List Char} (blank : ∀ c ∈ blanks, isBlank c = true) :
    Tag.attributesIn stop known count blanks = [] := by
  cases count with
  | zero => rfl
  | succ count =>
    have none : blanks.dropWhile isBlank = [] := List.dropWhile_eq_nil_iff.2 blank
    simp only [Tag.attributesIn, none]

theorem attributesIn_flatMap (stop : Nat) {known : List (List Char × Nat)} (count : Nat)
    {attributes : List SpeltAttribute} (distinct : (attributes.map SpeltAttribute.key).Nodup)
    (fresh : ∀ a ∈ attributes, known.lookup a.key = none) {blanks : List Char}
    (blank : ∀ c ∈ blanks, isBlank c = true) :
    Tag.attributesIn stop known (count + attributes.length)
      (attributes.flatMap SpeltAttribute.chars ++ blanks) =
        attributes.map fun a => .ok a.read := by
  induction attributes generalizing known with
  | nil => exact attributesIn_blank stop known _ blank
  | cons a rest ih =>
    obtain ⟨apart, distinct⟩ := List.nodup_cons.1 distinct
    obtain ⟨place, taken⟩ := a.attributesIn_chars stop (fresh a (List.mem_cons_self ..))
      (count + rest.length) (rest.flatMap SpeltAttribute.chars ++ blanks)
    rw [List.flatMap_cons, List.append_assoc, List.length_cons, ← Nat.add_assoc, taken,
      List.map_cons]
    refine congrArg (_ :: ·) (ih distinct fun b mem => ?_)
    have ne : (b.key == a.key) = false := by
      simpa using fun same : b.key = a.key => apart (same ▸ List.mem_map_of_mem mem)
    rw [List.lookup_cons, ne]
    exact fresh b (List.mem_cons_of_mem a mem)

namespace SpeltTag

variable (t : SpeltTag)

theorem eq_nil_or_isBlank_of_behindName {c : Char} {more : List Char}
    (text : t.attributes.flatMap SpeltAttribute.chars ++ t.behind = c :: more) :
    isBlank c = true := by
  cases attributes : t.attributes with
  | nil =>
    rw [attributes, List.flatMap_nil, List.nil_append] at text
    exact t.behind_blank c (by simp [text])
  | cons a rest =>
    obtain ⟨d, blanks, before⟩ := List.exists_cons_of_ne_nil a.before_ne_nil
    have same : d = c := by
      simpa [attributes, SpeltAttribute.chars, before] using congrArg List.head? text
    exact same ▸ a.before_blank d (by simp [before])

theorem span_chars : t.chars.takeWhile (!isBlank ·) = t.name ∧
    t.chars.dropWhile (!isBlank ·) =
      t.attributes.flatMap SpeltAttribute.chars ++ t.behind := by
  have kept := Text.not_of_eq_false t.name_free
  rw [chars, List.append_assoc, List.takeWhile_append_of_pos kept,
    List.dropWhile_append_of_pos kept]
  cases text : t.attributes.flatMap SpeltAttribute.chars ++ t.behind with
  | nil => simp
  | cons c more => simp [t.eq_nil_or_isBlank_of_behindName text]

theorem name_tag : t.tag.name = t.name := t.span_chars.1

theorem length_attributes_le (attributes : List SpeltAttribute) :
    attributes.length ≤ (attributes.flatMap SpeltAttribute.chars).length := by
  induction attributes with
  | nil => exact Nat.le_refl 0
  | cons a rest ih =>
    simp only [List.flatMap_cons, List.length_append, List.length_cons, SpeltAttribute.chars]
    omega

theorem attributes_tag : t.tag.attributes = t.attributes.map fun a => .ok a.read := by
  have enough : t.attributes.length ≤ t.chars.length + 1 := by
    have := length_attributes_le t.attributes
    simp only [chars, List.length_append]
    omega
  obtain ⟨count, fuel⟩ := Nat.exists_eq_add_of_le' enough
  change Tag.attributesIn _ [] (t.chars.length + 1) (t.chars.dropWhile (!isBlank ·)) = _
  rw [fuel, t.span_chars.2]
  exact attributesIn_flatMap _ count t.distinct (fun _ _ => rfl) t.behind_blank

theorem addAttributes_read (attributes : List SpeltAttribute) (entries : List (String × Value)) :
    Frame.addAttributes entries (attributes.map fun a => .ok a.read) =
      .ok (addAll entries (attributes.filterMap SpeltAttribute.pair?)) := by
  induction attributes generalizing entries with
  | nil => rfl
  | cons a rest ih =>
    rw [List.map_cons, Frame.addAttributes]
    by_cases declares : a.read.isNamespace = true
    · have silent : a.pair? = none := if_pos declares
      rw [if_pos declares, ih, List.filterMap_cons_none silent]
    · have told : a.pair? = some _ := if_neg declares
      have meant : Reference.replace a.read.value = .ok a.meant := a.replace_written
      rw [if_neg declares, meant, List.filterMap_cons_some told]
      exact ih _

theorem ofTag_tag : Frame.ofTag t.tag = .ok ⟨t.localText, addAll [] t.pairs, []⟩ := by
  rw [Frame.ofTag, t.attributes_tag, addAttributes_read, t.name_tag]
  rfl

theorem of_mem_pairs {pair : String × Value} (mem : pair ∈ t.pairs) :
    pair.1 ≠ "" ∧ pair.2.isArray = false := by
  obtain ⟨a, -, told⟩ := List.mem_filterMap.1 mem
  rw [SpeltAttribute.pair?] at told
  split at told
  · exact absurd told nofun
  · cases told
    exact ⟨by simpa using a.named, rfl⟩

end SpeltTag

end DescriptorCheck.Xml
