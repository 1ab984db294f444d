import DescriptorCheck.Proofs.Yaml.Portable

set_option autoImplicit false

namespace DescriptorCheck.Json
open Yaml (Node Token)

mutual

def Form.node : Form → Node
  | .word w => .scalar .none (String.ofList w.chars) true
  | .number n => .scalar .none (String.ofList n.chars) true
  | .text t => .scalar .none t.string false
  | .emptyArray _ => .sequence .none []
  | .array items => .sequence .none items.nodes
  | .emptyObject _ => .mapping .none []
  | .object entries => .mapping .none entries.nodes

def ItemForms.nodes : ItemForms → List Node
  | .last _ f _ => [f.node]
  | .more _ f _ rest => f.node :: rest.nodes

def EntryForms.nodes : EntryForms → List (Node × Node)
  | .last _ key _ f _ => [(.scalar .none key.text.string false, f.node)]
  | .more _ key _ f _ rest => (.scalar .none key.text.string false, f.node) :: rest.nodes

end

end DescriptorCheck.Json

namespace DescriptorCheck.Yaml.Node
open Json (Form ItemForms EntryForms)

def left (tokens : List Token) : Source := ⟨tokens, []⟩

def IsInside (t : Token) : Prop :=
  t = .flowSequenceEnd ∨ t = .flowMappingEnd ∨ t = .flowEntry ∨ t = .key ∨ t = .value

theorem starts_form (f : Form) (rest : List Token) (ends : List Token)
    (inside : ∀ t ∈ ends, IsInside t) : (left (f.tokens ++ rest)).starts ends = false := by
  have other (t : Token) (opens : ¬IsInside t) : t ∉ ends := fun mem => opens (inside t mem)
  cases f <;> simp [left, Source.starts, Form.tokens, other, IsInside]

theorem readWith_flow (handles : Handles)
    (collection? : Source → Option (Except Error (Collection × Source))) {token : Token}
    {rest behind : List Token} (opens : token = .flowSequenceStart ∨ token = .flowMappingStart)
    {content : Collection}
    (read : collection? (left (token :: rest)) = some (.ok (content, left behind))) :
    readWith handles collection? (left (token :: rest)) =
      .ok (content.toNode .none, left behind) := by
  unfold left at read
  rcases opens with rfl | rfl <;>
    simp [readWith, readProperties, left, read, bind, Except.bind, pure, Except.pure,
      Properties.none]

section

variable {item : Reader Node} {rest : List Token}

def lead (first : Bool) : List Token := if first then [] else [.flowEntry]

theorem readFlowItems_end {count : Nat} (enough : 0 < count) (first : Bool) :
    readFlowItems item count first (left (.flowSequenceEnd :: rest)) = .ok ([], left rest) := by
  obtain ⟨count, rfl⟩ := Nat.exists_eq_add_of_lt enough
  rfl

theorem readFlowItems_item {f : Form} {n : Node} {behind : List Token} {count : Nat} {first : Bool}
    {more : List Node} (one : item (left (f.tokens ++ rest)) = .ok (n, left rest))
    (others : readFlowItems item count false (left rest) = .ok (more, left behind)) :
    readFlowItems item (count + 1) first (left (lead first ++ (f.tokens ++ rest))) =
      .ok (n :: more, left behind) := by
  have no_end := starts_form f rest [.flowSequenceEnd] (by simp [IsInside])
  have no_key := starts_form f rest [.key] (by simp [IsInside])
  rw [readFlowItems]
  cases first with
  | true =>
    simp [lead, readComma, no_end, no_key, one, others, bind, Except.bind]
  | false =>
    generalize f.tokens ++ rest = tokens at no_end no_key one
    have comma : (left (.flowEntry :: tokens)).starts [.flowSequenceEnd] = false := rfl
    have behind_comma : (left (.flowEntry :: tokens)).skip = left tokens := rfl
    have first_token : (left (.flowEntry :: tokens)).tokens = .flowEntry :: tokens := rfl
    simp [lead, readComma, comma, behind_comma, first_token, no_end, no_key, one, others, bind,
      Except.bind]

theorem readFlowEntries_end {count : Nat} (enough : 0 < count) (first : Bool) :
    readFlowEntries item count first (left (.flowMappingEnd :: rest)) = .ok ([], left rest) := by
  obtain ⟨count, rfl⟩ := Nat.exists_eq_add_of_lt enough
  rfl

theorem readFlowEntry_pair {f : Form} {key n : Node} {text : String}
    (named : ∀ rest, item (left (.scalar text false :: rest)) = .ok (key, left rest))
    (one : item (left (f.tokens ++ rest)) = .ok (n, left rest)) :
    readFlowEntry item (left (.key :: .scalar text false :: .value :: (f.tokens ++ rest))) =
      .ok ((key, n), left rest) := by
  have no_end := starts_form f rest [.flowEntry, .flowMappingEnd] (by simp [IsInside])
  have value : readValue [.flowEntry, .flowMappingEnd] item
      (left (.value :: (f.tokens ++ rest))) = .ok (n, left rest) := by
    change readUnless _ item (left (f.tokens ++ rest)) = _
    simp [readUnless, no_end, one]
  have keyed : readUnless [.value, .flowEntry, .flowMappingEnd] item
      (left (.scalar text false :: .value :: (f.tokens ++ rest))) =
        .ok (key, left (.value :: (f.tokens ++ rest))) := named _
  change (readUnless [.value, .flowEntry, .flowMappingEnd] item
    (left (.scalar text false :: .value :: (f.tokens ++ rest)))).bind _ = _
  rw [keyed]
  change (readValue [.flowEntry, .flowMappingEnd] item _).bind _ = _
  rw [value]
  rfl

theorem readFlowEntries_pair {f : Form} {key n : Node} {text : String} {behind : List Token}
    {count : Nat} {first : Bool} {more : List (Node × Node)}
    (named : ∀ rest, item (left (.scalar text false :: rest)) = .ok (key, left rest))
    (one : item (left (f.tokens ++ rest)) = .ok (n, left rest))
    (others : readFlowEntries item count false (left rest) = .ok (more, left behind)) :
    readFlowEntries item (count + 1) first
        (left (lead first ++ .key :: .scalar text false :: .value :: (f.tokens ++ rest))) =
      .ok ((key, n) :: more, left behind) := by
  have step : readFlowEntries item (count + 1) first
      (left (lead first ++ .key :: .scalar text false :: .value :: (f.tokens ++ rest))) =
      (readFlowEntry item (left (.key :: .scalar text false :: .value :: (f.tokens ++ rest)))).bind
        fun entry => (readFlowEntries item count false entry.2).bind
          fun others => .ok (entry.1 :: others.1, others.2) := by
    cases first <;> rfl
  rw [step, readFlowEntry_pair named one]
  simp only [Except.bind, others]

end

theorem readNode_sequence {handles : Handles} {depth : Nat} {place : Place} {nodes : List Node}
    {tokens rest : List Token}
    (read : ∀ count, tokens.length < count →
      readFlowItems (readNode handles depth .flow) count true (left tokens) =
        .ok (nodes, left rest)) :
    readNode handles (depth + 1) place (left (.flowSequenceStart :: tokens)) =
      .ok (.sequence .none nodes, left rest) := by
  have found : readCollection? (readNode handles depth) place
      (left (.flowSequenceStart :: tokens)) = some (.ok (.sequence nodes, left rest)) := by
    change some ((readFlowItems _ (tokens.length + 2) true (left tokens)).bind _) = _
    rw [read _ (by omega)]
    rfl
  exact readWith_flow handles _ (.inl rfl) found

theorem readNode_mapping {handles : Handles} {depth : Nat} {place : Place}
    {nodes : List (Node × Node)} {tokens rest : List Token}
    (read : ∀ count, tokens.length < count →
      readFlowEntries (readNode handles depth .flow) count true (left tokens) =
        .ok (nodes, left rest)) :
    readNode handles (depth + 1) place (left (.flowMappingStart :: tokens)) =
      .ok (.mapping .none nodes, left rest) := by
  have found : readCollection? (readNode handles depth) place
      (left (.flowMappingStart :: tokens)) = some (.ok (.mapping nodes, left rest)) := by
    change some ((readFlowEntries _ (tokens.length + 2) true (left tokens)).bind _) = _
    rw [read _ (by omega)]
    rfl
  exact readWith_flow handles _ (.inr rfl) found

theorem readNode_scalar (handles : Handles) (depth : Nat) (place : Place) (text : String)
    (plain : Bool) (rest : List Token) :
    readNode handles depth place (left (.scalar text plain :: rest)) =
      .ok (.scalar .none text plain, left rest) := by
  cases depth <;> rfl

mutual

theorem readNode_form {f : Form} {depth : Nat} (deep : f.depth ≤ depth) (handles : Handles)
    (place : Place) (rest : List Token) :
    readNode handles depth place (left (f.tokens ++ rest)) = .ok (f.node, left rest) := by
  cases f with
  | word w => exact readNode_scalar handles depth place _ _ _
  | number n => exact readNode_scalar handles depth place _ _ _
  | text t => exact readNode_scalar handles depth place _ _ _
  | emptyArray gap =>
    obtain ⟨depth, rfl⟩ := Nat.exists_eq_add_of_le' deep
    exact readNode_sequence fun count enough => readFlowItems_end (by omega) true
  | array items =>
    obtain ⟨depth, rfl⟩ := Nat.exists_eq_add_of_le' (Nat.le_trans (Nat.le_add_left 1 _) deep)
    refine readNode_sequence fun count enough => ?_
    exact readFlowItems_items (Nat.le_of_succ_le_succ deep) handles true rest enough
  | emptyObject gap =>
    obtain ⟨depth, rfl⟩ := Nat.exists_eq_add_of_le' deep
    exact readNode_mapping fun count enough => readFlowEntries_end (by omega) true
  | object entries =>
    obtain ⟨depth, rfl⟩ := Nat.exists_eq_add_of_le' (Nat.le_trans (Nat.le_add_left 1 _) deep)
    refine readNode_mapping fun count enough => ?_
    exact readFlowEntries_entries (Nat.le_of_succ_le_succ deep) handles true rest enough

theorem readFlowItems_items {items : ItemForms} {depth : Nat} (deep : items.depth ≤ depth)
    (handles : Handles) (first : Bool) (rest : List Token) {count : Nat}
    (enough : (items.tokens ++ rest).length < count) :
    readFlowItems (readNode handles depth .flow) count first
      (left (lead first ++ (items.tokens ++ rest))) = .ok (items.nodes, left rest) := by
  obtain _ | count := count
  · exact absurd enough (Nat.not_lt_zero _)
  cases items with
  | last before f behind =>
    simp only [ItemForms.tokens, List.append_assoc, List.cons_append, List.nil_append,
      List.length_append, List.length_cons] at enough ⊢
    exact readFlowItems_item (readNode_form deep handles .flow _)
      (readFlowItems_end (by omega) false)
  | more before f behind others =>
    simp only [ItemForms.tokens, List.append_assoc, List.cons_append, List.length_append,
      List.length_cons] at enough ⊢
    obtain ⟨here, further⟩ := Nat.max_le.1 deep
    exact readFlowItems_item (readNode_form here handles .flow _)
      (readFlowItems_items further handles false rest (by simp only [List.length_append]; omega))

theorem readFlowEntries_entries {entries : EntryForms} {depth : Nat} (deep : entries.depth ≤ depth)
    (handles : Handles) (first : Bool) (rest : List Token) {count : Nat}
    (enough : (entries.tokens ++ rest).length < count) :
    readFlowEntries (readNode handles depth .flow) count first
      (left (lead first ++ (entries.tokens ++ rest))) = .ok (entries.nodes, left rest) := by
  obtain _ | count := count
  · exact absurd enough (Nat.not_lt_zero _)
  have named (key : String) := readNode_scalar handles depth .flow key false
  cases entries with
  | last before key gap f behind =>
    simp only [EntryForms.tokens, List.append_assoc, List.cons_append, List.nil_append,
      List.length_append, List.length_cons] at enough ⊢
    exact readFlowEntries_pair (named _) (readNode_form deep handles .flow _)
      (readFlowEntries_end (by omega) false)
  | more before key gap f behind others =>
    simp only [EntryForms.tokens, List.append_assoc, List.cons_append, List.length_append,
      List.length_cons] at enough ⊢
    obtain ⟨here, further⟩ := Nat.max_le.1 deep
    exact readFlowEntries_pair (named _) (readNode_form here handles .flow _)
      (readFlowEntries_entries further handles false rest
        (by simp only [List.length_append]; omega))

end

theorem ofTokens_form {f : Form} (deep : f.depth ≤ depthLimit) :
    ofTokens f.tokens = .ok (some f.node) := by
  have read := readNode_form deep defaultHandles .block []
  rw [List.append_nil] at read
  obtain ⟨nonempty, implicit⟩ : f.tokens.isEmpty = false ∧
      (f.tokens.head?.any fun t => t = .documentStart || isDirective t) = false := by
    cases f <;> exact ⟨rfl, rfl⟩
  unfold ofTokens
  simp only [nonempty, implicit, Bool.false_eq_true, if_false]
  change (readNode defaultHandles depthLimit .block (left f.tokens)).bind _ = _
  rw [read]
  rfl

end DescriptorCheck.Yaml.Node
