import DescriptorCheck.Proofs.Path.Preorder
import DescriptorCheck.Proofs.Xml.Elements

set_option autoImplicit false

/-! What stands at a position of a document comes from an element, from an attribute, from the
text of an element beside its entries, or gathers what has one name. Each of these has a shape
of its own. -/
namespace DescriptorCheck.Xml

open Piece (childPairs contentText)

def names (pairs : List (String × Value)) : List String := pairs.map Prod.fst

/-- The position that grouping gives to one of several named values, by the names before
and behind it. -/
def place (before : List String) (name : String) (after : List String) : Position :=
  if name ∈ before ∨ name ∈ after then [.key name, .index (before.count name)] else [.key name]

theorem place_cases (before : List String) (name : String) (after : List String) :
    place before name after = [.key name] ∨
      ∃ i, place before name after = [.key name, .index i] := by
  unfold place
  split
  · exact .inr ⟨_, rfl⟩
  · exact .inl rfl

def Piece.opened? : Piece → Option Opened
  | .element tag content _ => some ⟨tag, content⟩
  | .empty tag => some ⟨tag, []⟩
  | .text _ | .data _ | .aside => none

namespace Opened

/-- What is named in an element: its attributes and then its children. -/
def pairs (o : Opened) : List (String × Value) := o.tag.pairs ++ childPairs o.content

def ownText (o : Opened) : List Char := Text.trimChars (contentText o.content)

end Opened

theorem Piece.child?_eq_some_iff (n : Piece) (name : String) (v : Value) :
    n.child? = some (name, v) ↔
      ∃ o, n.opened? = some o ∧ o.frame.name = name ∧ o.frame.value = v := by
  cases n with
  | element tag content ending => simp [child?, opened?, Opened.frame]
  | empty tag => simp [child?, opened?, Opened.frame, childPairs, contentText]
  | text _ | data _ | aside => simp [child?, opened?]

theorem ReadTag.exists_text_of_mem (t : ReadTag) {pair : String × Value} (mem : pair ∈ t.pairs) :
    ∃ a ∈ t.attributes, a.read.isNamespace = false ∧
      pair = (String.ofList (localName a.read.key), .text (String.ofList a.meant)) := by
  obtain ⟨a, held, told⟩ := List.mem_filterMap.1 mem
  unfold ReadAttribute.pair? at told
  split at told
  · cases told
  · rename_i plain
    exact ⟨a, held, by simpa using plain, (Option.some.inj told).symm⟩

theorem Frame.isArray_value (f : Frame) : f.value.isArray = false := by
  unfold value
  dsimp only
  split
  · rfl
  · split <;> rfl

theorem exists_split_of_childPairs {content : List Piece} {before after : List (String × Value)}
    {name : String} {v : Value} (named : childPairs content = before ++ (name, v) :: after) :
    ∃ front inner back, content = front ++ inner :: back ∧ childPairs front = before ∧
      inner.child? = some (name, v) ∧ childPairs back = after := by
  induction content generalizing before with
  | nil => simp [childPairs] at named
  | cons n rest ih =>
    rw [childPairs] at named
    cases child : n.child? with
    | none =>
      rw [child] at named
      obtain ⟨front, inner, back, rfl, rfl, found, rfl⟩ := ih named
      exact ⟨n :: front, inner, back, rfl, by simp [childPairs, child], found, rfl⟩
    | some pair =>
      rw [child] at named
      cases before with
      | nil =>
        obtain ⟨rfl, rfl⟩ := List.cons.inj named
        exact ⟨[], n, rest, rfl, rfl, child, rfl⟩
      | cons first before =>
        obtain ⟨rfl, later⟩ := List.cons.inj named
        obtain ⟨front, inner, back, rfl, rfl, found, rfl⟩ := ih later
        exact ⟨n :: front, inner, back, rfl, by simp [childPairs, child], found, rfl⟩

namespace Opened

theorem noArrays_pairs (o : Opened) : NoArrays o.pairs := by
  intro pair mem
  rcases List.mem_append.1 mem with held | child
  · obtain ⟨a, -, -, rfl⟩ := o.tag.exists_text_of_mem held
    rfl
  · obtain ⟨before, after, split⟩ := List.append_of_mem child
    obtain ⟨-, inner, -, -, -, found, -⟩ := exists_split_of_childPairs split
    obtain ⟨o', -, -, same⟩ := (inner.child?_eq_some_iff _ _).1 found
    rw [← same]
    exact o'.frame.isArray_value

theorem value_eq (o : Opened) : o.frame.value =
    if o.pairs = [] then .text (String.ofList o.ownText)
    else if o.ownText = [] then .object (group o.pairs)
    else .object (Value.putEntry "" (.text (String.ofList o.ownText)) (group o.pairs)) := by
  have text : String.ofList o.ownText = "" ↔ o.ownText = [] := by
    rw [← String.toList_inj, String.toList_ofList, String.toList_empty]
  unfold Frame.value
  dsimp only
  rw [show o.frame.entries = group o.pairs from addAll_eq_group o.noArrays_pairs]
  simp only [List.isEmpty_iff, group_eq_nil_iff, ← text]
  rfl

theorem of_at?_value {o : Opened} {s : Step} {p : Position} {v : Value}
    (found : o.frame.value.at? (s :: p) = some v) :
    (s = .key "" ∧ p = [] ∧ o.ownText ≠ [] ∧ v = .text (String.ofList o.ownText)) ∨
    ∃ k, s = .key k ∧ valuesOf k o.pairs ≠ [] ∧ (gather (valuesOf k o.pairs)).at? p = some v := by
  rw [Value.at?_cons, value_eq] at found
  obtain ⟨c, child, found⟩ := Option.bind_eq_some_iff.1 found
  have grouped {k : String} (here : (group o.pairs).lookup k = some c) :
      valuesOf k o.pairs ≠ [] ∧ (gather (valuesOf k o.pairs)).at? p = some v := by
    rw [lookup_group] at here
    split at here
    · cases here
    · cases here
      exact ⟨‹_›, found⟩
  split at child
  · cases child
  · split at child
    · cases s with
      | index i => cases child
      | key k => exact .inr ⟨k, rfl, grouped child⟩
    · rename_i filled
      cases s with
      | index i => cases child
      | key k =>
        by_cases same : k = ""
        · subst same
          rw [Value.child?, Value.lookup_putEntry_self] at child
          cases child
          cases p with
          | nil => exact .inl ⟨rfl, rfl, filled, (Option.some.inj found).symm⟩
          | cons t q => cases found
        · rw [Value.child?, Value.lookup_putEntry_of_ne _ _ same] at child
          exact .inr ⟨k, rfl, grouped child⟩

theorem of_at?_gather {o : Opened} {k : String} {p : Position} {v : Value}
    (nonempty : valuesOf k o.pairs ≠ []) (found : (gather (valuesOf k o.pairs)).at? p = some v) :
    (p = [] ∧ 2 ≤ (valuesOf k o.pairs).length ∧ v = .array (valuesOf k o.pairs)) ∨
    ∃ before w after q, o.pairs = before ++ (k, w) :: after ∧
      .key k :: p = place (names before) k (names after) ++ q ∧ w.at? q = some v := by
  have count (before : List (String × Value)) (w : Value) (after : List (String × Value))
      (split : o.pairs = before ++ (k, w) :: after) :
      (valuesOf k o.pairs).length = (names before).count k + 1 + (names after).count k := by
    rw [length_valuesOf, split]
    simp only [names, List.map_append, List.map_cons, List.count_append, List.count_cons_self]
    omega
  cases all : valuesOf k o.pairs with
  | nil => exact absurd all nonempty
  | cons first others =>
    cases others with
    | nil =>
      rw [all] at found
      obtain ⟨before, after, split, -⟩ :=
        exists_split_of_getElem?_valuesOf (i := 0) (v := first) (by rw [all]; rfl)
      have one := count before first after split
      rw [all, List.length_singleton] at one
      have alone : ¬ (k ∈ names before ∨ k ∈ names after) := by
        rw [← List.count_pos_iff, ← List.count_pos_iff]
        omega
      refine .inr ⟨before, first, after, p, split, ?_, found⟩
      rw [place, if_neg alone]
      rfl
    | cons second others =>
      have more : 2 ≤ (valuesOf k o.pairs).length := by
        rw [all, List.length_cons, List.length_cons]
        omega
      have whole : gather (valuesOf k o.pairs) = .array (valuesOf k o.pairs) := by
        rw [all]
        rfl
      rw [whole] at found
      rw [← all]
      cases p with
      | nil => exact .inl ⟨rfl, more, (Option.some.inj found).symm⟩
      | cons s q =>
        obtain ⟨c, child, below⟩ := Option.bind_eq_some_iff.1 found
        cases s with
        | key k => cases child
        | index i =>
          obtain ⟨before, after, split, number⟩ := exists_split_of_getElem?_valuesOf child
          have sum := count before c after split
          have others : k ∈ names before ∨ k ∈ names after := by
            rw [← List.count_pos_iff, ← List.count_pos_iff]
            omega
          refine .inr ⟨before, c, after, q, split, ?_, below⟩
          rw [place, if_pos others, names, number]
          rfl

end Opened

inductive Origin where
  | element
  | text
  | tag
  | several
deriving DecidableEq

/-- What stands where in the value of an element, and where it comes from. -/
inductive Piece.Stands : Piece → Position → Origin → Value → Prop where
  | element {n : Piece} {o : Opened} (here : n.opened? = some o) :
      Stands n [] .element o.frame.value
  | text {n : Piece} {o : Opened} (here : n.opened? = some o) (filled : o.ownText ≠ []) :
      Stands n [.key ""] .text (.text (String.ofList o.ownText))
  | tag {n : Piece} {o : Opened} {before after : List (String × Value)} {name : String}
      {v : Value} (here : n.opened? = some o) (pairs : o.tag.pairs = before ++ (name, v) :: after) :
      Stands n (place (names before) name (names (after ++ childPairs o.content))) .tag v
  | several {n : Piece} {o : Opened} {k : String} (here : n.opened? = some o)
      (more : 2 ≤ (valuesOf k o.pairs).length) :
      Stands n [.key k] .several (.array (valuesOf k o.pairs))
  | child {n inner : Piece} {tag : ReadTag} {before after : List Piece} {name : String}
      {p : Position} {origin : Origin} {v w : Value}
      (here : n.opened? = some ⟨tag, before ++ inner :: after⟩)
      (child : inner.child? = some (name, w)) (below : Stands inner p origin v) :
      Stands n (place (names (tag.pairs ++ childPairs before)) name (names (childPairs after)) ++ p)
        origin v

theorem length_place_pos (before : List String) (name : String) (after : List String) :
    0 < (place before name after).length := by
  rcases place_cases before name after with key | ⟨i, index⟩
  · rw [key]
    exact Nat.one_pos
  · rw [index]
    exact Nat.two_pos

theorem Opened.attribute_or_child {o : Opened} {before after : List (String × Value)}
    {pair : String × Value} (split : o.pairs = before ++ pair :: after) :
    (∃ rest, o.tag.pairs = before ++ pair :: rest ∧ after = rest ++ childPairs o.content) ∨
    ∃ front, before = o.tag.pairs ++ front ∧ childPairs o.content = front ++ pair :: after := by
  rcases List.append_eq_append_iff.1 split with ⟨front, whole, children⟩ | ⟨rest, whole, children⟩
  · exact .inr ⟨front, whole, children⟩
  · cases rest with
    | nil => exact .inr ⟨[], by simpa using whole.symm, children.symm⟩
    | cons first rest =>
      obtain ⟨rfl, same⟩ := List.cons.inj children
      exact .inl ⟨rest, whole, same⟩

theorem Piece.exists_stands {n : Piece} {o : Opened} (here : n.opened? = some o) {p : Position}
    {v : Value} (found : o.frame.value.at? p = some v) : ∃ origin, n.Stands p origin v := by
  -- Below a child the position is shorter, whatever the child is.
  induction size : p.length using Nat.strong_induction_on generalizing n o p with
  | _ size' ih =>
  cases p with
  | nil =>
    cases found
    exact ⟨.element, .element here⟩
  | cons s p =>
    rcases Opened.of_at?_value found with ⟨rfl, rfl, filled, rfl⟩ | ⟨k, rfl, nonempty, found⟩
    · exact ⟨.text, .text here filled⟩
    · rcases Opened.of_at?_gather nonempty found with
        ⟨rfl, more, rfl⟩ | ⟨before, w, after, q, split, position, below⟩
      · exact ⟨.several, .several here more⟩
      · rw [position] at size ⊢
        rcases Opened.attribute_or_child split with
          ⟨rest, attributes, rfl⟩ | ⟨front, rfl, children⟩
        · have held : (k, w) ∈ o.tag.pairs := by simp [attributes]
          obtain ⟨a, -, -, same⟩ := o.tag.exists_text_of_mem held
          cases same
          cases q with
          | nil =>
            cases below
            rw [List.append_nil]
            exact ⟨.tag, .tag here attributes⟩
          | cons s q => cases below
        · obtain ⟨front, inner, back, content, rfl, child, rfl⟩ :=
            exists_split_of_childPairs children
          obtain ⟨o', element, -, rfl⟩ := (inner.child?_eq_some_iff _ _).1 child
          have shorter : q.length < size' := by
            have longer := length_place_pos (names (o.tag.pairs ++ childPairs front)) k
              (names (childPairs back))
            rw [List.length_append] at size
            omega
          obtain ⟨origin, stands⟩ := ih q.length shorter element below rfl
          have whole : n.opened? = some ⟨o.tag, front ++ inner :: back⟩ := by
            rw [here, ← content]
          exact ⟨origin, .child whole child stands⟩

/-- What can stand in a tree, given whether it is the root and whether it is an attribute. -/
def HasShape (isRoot isAttribute : Prop) : Value → Prop
  | .object entries => isRoot ∨ entries ≠ []
  | .array items => 2 ≤ items.length ∧ ∀ v ∈ items, v.isArray = false
  | .text s => isAttribute ∨ Text.IsTrimmed s.toList
  | .number _ | .boolean _ | .null => False

theorem Opened.hasShape_value (o : Opened) (isRoot isAttribute : Prop) :
    HasShape isRoot isAttribute o.frame.value := by
  rw [o.value_eq]
  split
  · exact .inr (by simpa [ownText] using Text.isTrimmed_trimChars _)
  · rename_i named
    have some : group o.pairs ≠ [] := mt (group_eq_nil_iff _).1 named
    split
    · exact .inr some
    · refine .inr fun empty => ?_
      have keys := congrArg (List.map Prod.fst) empty
      rw [Value.map_fst_putEntry] at keys
      unfold Value.keysWith at keys
      split at keys <;> simp_all

theorem Piece.Stands.hasShape {n : Piece} {p : Position} {origin : Origin} {v : Value}
    (stands : n.Stands p origin v) (isRoot : Prop) : HasShape isRoot (origin = .tag) v := by
  induction stands with
  | @element _ o here => exact o.hasShape_value _ _
  | text here filled => exact .inr (by simpa [Opened.ownText] using Text.isTrimmed_trimChars _)
  | @tag _ o before after name v here pairs =>
    have held : (name, v) ∈ o.tag.pairs := by simp [pairs]
    obtain ⟨a, -, -, same⟩ := o.tag.exists_text_of_mem held
    cases same
    exact .inl rfl
  | @several _ o k here more =>
    refine ⟨more, fun v mem => ?_⟩
    obtain ⟨pair, held, rfl⟩ := List.mem_map.1 mem
    exact o.noArrays_pairs pair (List.mem_filter.1 held).1
  | child here child below ih => exact ih

/-- The position ends in a key, or in a key and one index. -/
def EndsInKey (p : Position) : Prop :=
  ∃ q k, p = q ++ [.key k] ∨ ∃ i, p = q ++ [.key k, .index i]

theorem Piece.Stands.endsInKey {n : Piece} {p : Position} {origin : Origin} {v : Value}
    (stands : n.Stands p origin v) (below : p ≠ []) : EndsInKey p := by
  have placed (before : List String) (name : String) (after : List String) :
      EndsInKey (place before name after) := by
    rcases place_cases before name after with key | ⟨i, index⟩
    · exact ⟨[], name, .inl key⟩
    · exact ⟨[], name, .inr ⟨i, index⟩⟩
  induction stands with
  | element here => exact absurd rfl below
  | text here filled => exact ⟨[], "", .inl rfl⟩
  | tag here pairs => exact placed _ _ _
  | @several _ o k here more => exact ⟨[], k, .inl rfl⟩
  | @child _ _ _ _ _ _ p _ _ _ here child below ih =>
    cases p with
    | nil =>
      rw [List.append_nil]
      exact placed _ _ _
    | cons s p =>
      obtain ⟨q, k, key | ⟨i, index⟩⟩ := ih (List.cons_ne_nil s p)
      · exact ⟨_ ++ q, k, .inl (by rw [key, List.append_assoc])⟩
      · exact ⟨_ ++ q, k, .inr ⟨i, by rw [index, List.append_assoc]⟩⟩

/-- The names in a tag that are kept have a local part. -/
structure Tag.IsNamed (t : Tag) : Prop where
  element : localName t.name ≠ []
  attributes : ∀ a, .ok a ∈ t.attributes → a.isNamespace = false → localName a.key ≠ []

def Piece.IsNamed (n : Piece) : Prop :=
  ∀ tag, .start tag ∈ n.events ∨ .empty tag ∈ n.events → tag.IsNamed

namespace Piece.IsNamed

variable {n : Piece} (named : n.IsNamed)

include named

theorem tag {o : Opened} (here : n.opened? = some o) : o.tag.tag.IsNamed := by
  cases n with
  | element tag content ending =>
    cases here
    exact named _ (.inl (by simp [events]))
  | empty tag =>
    cases here
    exact named _ (.inr (by simp [events]))
  | text _ | data _ | aside => cases here

theorem child {tag : ReadTag} {before after : List Piece} {inner : Piece}
    (here : n.opened? = some ⟨tag, before ++ inner :: after⟩) : inner.IsNamed := by
  cases n with
  | element t content ending =>
    obtain ⟨rfl, rfl⟩ := Opened.mk.inj (Option.some.inj here)
    have within : ∀ e ∈ inner.events, e ∈ (element t (before ++ inner :: after) ending).events := by
      intro e mem
      simp [events, contentEvents_append, contentEvents, mem]
    intro t' held
    exact named t' (held.imp (within _) (within _))
  | empty t =>
    obtain ⟨-, none⟩ := Opened.mk.inj (Option.some.inj here)
    simp at none
  | text _ | data _ | aside => cases here

theorem ne_of_mem_pairs {o : Opened} (here : n.opened? = some o) {pair : String × Value}
    (mem : pair ∈ o.tag.pairs) : pair.1 ≠ "" := by
  obtain ⟨a, held, plain, rfl⟩ := o.tag.exists_text_of_mem mem
  have read : .ok a.read ∈ o.tag.tag.attributes := by
    rw [o.tag.attributes_tag]
    exact List.mem_map_of_mem held
  simpa using (named.tag here).attributes a.read read plain

theorem ne_of_child? {name : String} {v : Value} (child : n.child? = some (name, v)) :
    name ≠ "" := by
  obtain ⟨o, here, rfl, -⟩ := (n.child?_eq_some_iff name v).1 child
  simpa [Opened.frame, Tag.localText] using (named.tag here).element

end Piece.IsNamed

theorem ne_key_of_place {before after : List String} {name key : String} (ne : name ≠ key) :
    (place before name after).getLast? ≠ some (.key key) := by
  rcases place_cases before name after with single | ⟨i, index⟩
  · rw [single]
    simpa using ne
  · rw [index]
    simp

theorem Piece.Stands.ne_empty {n : Piece} {p : Position} {origin : Origin} {v : Value}
    (stands : n.Stands p origin v) (named : n.IsNamed) (last : p.getLast? = some (.key ""))
    {s : String} (text : v = .text s) : s ≠ "" := by
  induction stands with
  | element here => cases last
  | text here filled =>
    cases text
    simpa using filled
  | @tag _ o before after name v here pairs =>
    have held : (name, v) ∈ o.tag.pairs := by simp [pairs]
    exact absurd last (ne_key_of_place (named.ne_of_mem_pairs here held))
  | several here more => cases text
  | @child _ _ _ _ _ name p _ _ _ here child below ih =>
    have inside := named.child here
    cases p with
    | nil =>
      rw [List.append_nil] at last
      exact absurd last (ne_key_of_place (inside.ne_of_child? child))
    | cons t p =>
      rw [List.getLast?_append_of_ne_nil _ (List.cons_ne_nil t p)] at last
      exact ih inside last text

theorem HasShape.imp {isRoot isAttribute other : Prop} (weaker : isAttribute → other) {v : Value}
    (shape : HasShape isRoot isAttribute v) : HasShape isRoot other v := by
  cases v with
  | text s => exact Or.imp_left weaker shape
  | object _ | array _ | number _ | boolean _ | null => exact shape

theorem of_at?_rootValue {v w : Value} {p : Position} (found : (rootValue v).at? p = some w) :
    v.at? p = some w ∨ p = [] ∧ w = .object [] := by
  cases v with
  | text s =>
    rw [rootValue] at found
    split at found
    · cases p with
      | nil => exact .inr ⟨rfl, (Option.some.inj found).symm⟩
      | cons t q => cases t <;> cases found
    · exact .inl found
  | object _ | array _ | number _ | boolean _ | null => exact .inl found

theorem Opened.rootValue_cases (o : Opened) :
    (rootValue o.frame.value).isObject = true ∨
      ∃ s, rootValue o.frame.value = .text s ∧ s ≠ "" := by
  have shape := o.hasShape_value False False
  have single := o.frame.isArray_value
  cases value : o.frame.value with
  | object entries => exact .inl rfl
  | text s =>
    by_cases empty : s = ""
    · exact .inl (by simp [rootValue, empty, Value.isObject])
    · exact .inr ⟨s, by simp [rootValue, empty], empty⟩
  | array items => simp [value, Value.isArray] at single
  | number _ | boolean _ | null => simp [value, HasShape] at shape

/-- The tree that is read from a text is that of an element. It holds objects, lists of at
least two and strings; a string that is no attribute is trimmed, and only an empty root is an
object without entries. So each position ends in a key, or in a key and one index. -/
theorem shape_of_read {text : String} {d : Document} (read : Document.parse .xml text = .ok d) :
    ∃ (root : Piece) (name : String) (v : Value), root.IsRootOf text ∧
      root.child? = some (name, v) ∧ d.root = rootValue v ∧ d.root.DistinctKeys ∧
      (d.root.isObject = true ∨ ∃ s, d.root = .text s ∧ s ≠ "") ∧
      (∀ p w, d.root.at? p = some w → HasShape (p = []) (root.Stands p .tag w) w) ∧
      (root.IsNamed → ∀ p s, d.root.at? (p ++ [.key ""]) = some (.text s) → s ≠ "") ∧
      ∀ p ∈ d.root.positions, EndsInKey p := by
  have distinct := Document.distinctKeys_parse read
  obtain ⟨w, done, same⟩ := Json.bind_eq_ok_iff.1 read
  cases same
  obtain ⟨root, name, v, child, isRoot, rfl⟩ := exists_root_of_read (ok_of_mapError done)
  obtain ⟨o, here, -, rfl⟩ := (root.child?_eq_some_iff name v).1 child
  have stands {p : Position} {w : Value} (found : (rootValue o.frame.value).at? p = some w)
      (below : p ≠ []) : ∃ origin, root.Stands p origin w :=
    Piece.exists_stands here ((of_at?_rootValue found).resolve_right fun top => below top.1)
  refine ⟨root, name, _, isRoot, child, rfl, distinct, o.rootValue_cases, ?_, ?_, ?_⟩
  · intro p w found
    rcases of_at?_rootValue found with found | ⟨rfl, rfl⟩
    · obtain ⟨origin, stands⟩ := Piece.exists_stands here found
      exact (stands.hasShape _).imp fun tag => tag ▸ stands
    · exact .inl rfl
  · intro named p s found
    obtain ⟨origin, stands⟩ := stands found (by simp)
    exact stands.ne_empty named (by simp) rfl
  · intro p mem
    obtain ⟨below, valid⟩ := (Value.mem_positions_iff distinct p).1 mem
    obtain ⟨w, found⟩ := Option.isSome_iff_exists.1 valid
    obtain ⟨origin, stands⟩ := stands found below
    exact stands.endsInKey below

/-- `{id:  x , b: [, y], c: {k: }, : t}`, where only what was an attribute has blanks around. -/
def spacedTree : Value :=
  .object [("id", .text " x "), ("b", .array [.text "", .text "y"]),
    ("c", .object [("k", .text "")]), ("", .text "t")]

theorem shape_of_read_on_spaced :
    Document.parse .xml "<a id=' x '>t<b/><b> y </b><c k=''> </c></a>" =
      .ok ⟨spacedTree, some "<a id=' x '>t<b/><b> y </b><c k=''> </c></a>"⟩ ∧
    (∃ root : Piece, root.IsRootOf "<a id=' x '>t<b/><b> y </b><c k=''> </c></a>" ∧
      root.Stands [.key "id"] .tag (.text " x ")) ∧
    ∀ p ∈ spacedTree.positions, EndsInKey p := by
  have read : Document.parse .xml "<a id=' x '>t<b/><b> y </b><c k=''> </c></a>" =
      .ok ⟨spacedTree, some "<a id=' x '>t<b/><b> y </b><c k=''> </c></a>"⟩ := by rfl
  obtain ⟨root, -, -, isRoot, -, -, -, -, shaped, -, ends⟩ := shape_of_read read
  have blank : ¬ Text.IsTrimmed " x ".toList := fun trimmed =>
    absurd (trimmed.head ' ' rfl) (by decide)
  have first : spacedTree.at? [.key "id"] = some (.text " x ") := rfl
  exact ⟨read, ⟨root, isRoot, (shaped _ _ first).resolve_right blank⟩, ends⟩

end DescriptorCheck.Xml
