import DescriptorCheck.Proofs.Xml.Shape

set_option autoImplicit false

namespace DescriptorCheck.Xml

open Piece (childPairs contentText)

namespace Attribute

/-- True of keys that declare a namespace: `xmlns` and those behind `xmlns:`. -/
def declares (a : Attribute) : Bool :=
  a.key == ['x', 'm', 'l', 'n', 's'] || ['x', 'm', 'l', 'n', 's', ':'].isPrefixOf a.key

theorem isNamespace_of_declares {a : Attribute} (declares : a.declares = true) :
    a.isNamespace = true := by
  rw [Attribute.declares, Bool.or_eq_true, beq_iff_eq, List.isPrefixOf_iff_prefix] at declares
  rw [isNamespace, List.isPrefixOf_iff_prefix]
  rcases declares with same | more
  · exact same ▸ List.prefix_refl _
  · exact (List.prefix_append _ [':']).trans more

end Attribute

def ReadAttribute.name (a : ReadAttribute) : String := String.ofList (localName a.read.key)

/-- What stands under a key as one item or as the items of an array. -/
def itemsUnder (k : String) (v : Value) : List Value := (v.get? k).elim [] Value.items

theorem items_gather {vs : List Value} (some : vs ≠ []) (plain : ∀ v ∈ vs, v.isArray = false) :
    (gather vs).items = vs := by
  match vs with
  | [] => exact absurd rfl some
  | [v] =>
    have single := plain v List.mem_cons_self
    cases v <;> simp_all [gather, Value.items, Value.isArray]
  | _ :: _ :: _ => rfl

theorem items_lookup_group {pairs : List (String × Value)} (plain : NoArrays pairs) (k : String) :
    ((group pairs).lookup k).elim [] Value.items = valuesOf k pairs := by
  rw [lookup_group]
  split
  · rename_i none
    exact none.symm
  · rename_i some
    refine items_gather some fun v mem => ?_
    obtain ⟨pair, held, rfl⟩ := List.mem_map.1 mem
    exact plain pair (List.mem_filter.1 held).1

theorem gather_of_others {before after : List Value} (others : before ≠ [] ∨ after ≠ [])
    (v : Value) : gather (before ++ v :: after) = .array (before ++ v :: after) := by
  match before, after with
  | [], [] => simp at others
  | [], _ :: _ | [_], _ | _ :: _ :: _, _ => rfl

theorem Piece.child?_eq_map (n : Piece) :
    n.child? = n.opened?.map fun e => (e.frame.name, e.frame.value) := by
  cases opened : n.opened? with
  | some e => exact (n.child?_eq_some_iff _ _).2 ⟨e, opened, rfl, rfl⟩
  | none =>
    refine Option.eq_none_iff_forall_ne_some.2 fun pair told => ?_
    obtain ⟨e, here, -⟩ := (n.child?_eq_some_iff pair.1 pair.2).1 told
    exact nomatch opened.symm.trans here

namespace Opened

def children (o : Opened) : List Opened := o.content.filterMap Piece.opened?

def attributeTexts (o : Opened) (k : String) : List Value :=
  (o.tag.attributes.filter fun a => !a.read.isNamespace && a.name == k).map fun a =>
    .text (String.ofList a.meant)

def childValues (o : Opened) (k : String) : List Value :=
  (o.children.filter fun e => e.frame.name == k).map fun e => e.frame.value

/-- How many attributes and children an element has under a name. Namespace declarations
do not count. -/
def contentCount (o : Opened) (k : String) : Nat :=
  o.tag.attributes.countP (fun a => !a.read.declares && a.name == k) +
    o.children.countP fun e => e.frame.name == k

/-- How many attributes under a name are taken for namespace declarations but are none. -/
def droppedCount (o : Opened) (k : String) : Nat :=
  o.tag.attributes.countP fun a => a.read.isNamespace && !a.read.declares && a.name == k

def HasOwnEntry (o : Opened) : Prop := o.pairs ≠ [] ∧ o.ownText ≠ []

instance (o : Opened) : Decidable o.HasOwnEntry :=
  inferInstanceAs (Decidable (o.pairs ≠ [] ∧ o.ownText ≠ []))

/-- Nothing under a name is taken for a namespace declaration or replaced by the text. -/
structure KeepsAll (o : Opened) (k : String) : Prop where
  attributes : ∀ a ∈ o.tag.attributes, a.name = k → a.read.isNamespace = true →
    a.read.declares = true
  unnamed : k = "" → o.HasOwnEntry → k ∉ names o.pairs

theorem childPairs_eq_map (o : Opened) :
    childPairs o.content = o.children.map fun e => (e.frame.name, e.frame.value) := by
  rw [children]
  induction o.content with
  | nil => rfl
  | cons n rest ih =>
    rw [childPairs, ih, n.child?_eq_map]
    cases here : n.opened? with
    | none => rw [List.filterMap_cons_none here]; rfl
    | some e => rw [List.filterMap_cons_some here]; rfl

theorem valuesOf_childPairs (o : Opened) (k : String) :
    valuesOf k (childPairs o.content) = o.childValues k := by
  rw [childPairs_eq_map, valuesOf, List.filter_map, List.map_map, childValues]
  rfl

theorem valuesOf_tagPairs (o : Opened) (k : String) :
    valuesOf k o.tag.pairs = o.attributeTexts k := by
  rw [ReadTag.pairs, attributeTexts]
  induction o.tag.attributes with
  | nil => rfl
  | cons a rest ih =>
    by_cases skipped : a.read.isNamespace = true
    · have silent : a.pair? = none := if_pos skipped
      rw [List.filterMap_cons_none silent, ih, List.filter_cons_of_neg (by simp [skipped])]
    · have told : a.pair? = some (a.name, .text (String.ofList a.meant)) := if_neg skipped
      rw [List.filterMap_cons_some told]
      by_cases same : a.name = k
      · rw [List.filter_cons_of_pos (by simp [skipped, same]), List.map_cons, ← ih]
        simp [valuesOf, same]
      · rw [List.filter_cons_of_neg (by simp [same]), ← ih]
        simp [valuesOf, same]

theorem valuesOf_pairs (o : Opened) (k : String) :
    valuesOf k o.pairs = o.attributeTexts k ++ o.childValues k := by
  rw [pairs, valuesOf_append, valuesOf_tagPairs, valuesOf_childPairs]

theorem itemsUnder_value (o : Opened) (k : String) :
    itemsUnder k o.frame.value =
      if k = "" ∧ o.HasOwnEntry then [.text (String.ofList o.ownText)]
      else o.attributeTexts k ++ o.childValues k := by
  have grouped := items_lookup_group o.noArrays_pairs k
  rw [← valuesOf_pairs, itemsUnder, value_eq]
  -- Only text beside entries is put under a key, and it is put there last.
  by_cases named : o.pairs = []
  · simp [named, HasOwnEntry, Value.get?, valuesOf]
  · by_cases blank : o.ownText = []
    · simpa [named, blank, HasOwnEntry, Value.get?] using grouped
    · by_cases unnamed : k = ""
      · simp [named, blank, unnamed, HasOwnEntry, Value.get?, Value.lookup_putEntry_self,
          Value.items]
      · simpa [named, blank, unnamed, HasOwnEntry, Value.get?,
          Value.lookup_putEntry_of_ne _ _ unnamed] using grouped

theorem length_attributeTexts (o : Opened) (k : String) :
    (o.attributeTexts k).length + o.droppedCount k =
      o.tag.attributes.countP fun a => !a.read.declares && a.name == k := by
  rw [attributeTexts, List.length_map, ← List.countP_eq_length_filter, droppedCount]
  induction o.tag.attributes with
  | nil => rfl
  | cons a rest ih =>
    have skips := a.read.isNamespace_of_declares
    rw [List.countP_cons, List.countP_cons, List.countP_cons]
    cases declares : a.read.declares <;> cases skipped : a.read.isNamespace <;>
      cases same : a.name == k <;> simp_all <;> omega

theorem length_add_droppedCount (o : Opened) (k : String) :
    (o.attributeTexts k ++ o.childValues k).length + o.droppedCount k = o.contentCount k := by
  have attributes := o.length_attributeTexts k
  have children : (o.childValues k).length = o.children.countP fun e => e.frame.name == k := by
    rw [childValues, List.length_map, ← List.countP_eq_length_filter]
  rw [List.length_append, contentCount]
  omega

theorem not_mem_names_iff (o : Opened) (k : String) :
    k ∉ names o.pairs ↔ (o.attributeTexts k ++ o.childValues k).length = 0 := by
  rw [← valuesOf_pairs, length_valuesOf, List.count_eq_zero, names]

theorem droppedCount_eq_zero_iff (o : Opened) (k : String) :
    o.droppedCount k = 0 ↔ ∀ a ∈ o.tag.attributes, a.name = k → a.read.isNamespace = true →
      a.read.declares = true := by
  rw [droppedCount, List.countP_eq_zero]
  refine forall₂_congr fun a _ => ?_
  cases a.read.declares <;> cases a.read.isNamespace <;> simp

theorem keepsAll_iff (o : Opened) (k : String) : o.KeepsAll k ↔ o.droppedCount k = 0 ∧
    (k = "" ∧ o.HasOwnEntry → (o.attributeTexts k ++ o.childValues k).length = 0) := by
  rw [droppedCount_eq_zero_iff, ← not_mem_names_iff, and_imp]
  exact ⟨fun all => ⟨all.attributes, all.unnamed⟩, fun ⟨attributes, unnamed⟩ =>
    ⟨attributes, unnamed⟩⟩

/-- One item is kept for each attribute and child of a name, and one for the text, just if
nothing under the name is lost. -/
theorem length_itemsUnder_iff (o : Opened) (k : String) :
    (itemsUnder k o.frame.value).length =
        o.contentCount k + (if k = "" ∧ o.HasOwnEntry then 1 else 0) ↔ o.KeepsAll k := by
  have count := o.length_add_droppedCount k
  rw [keepsAll_iff, itemsUnder_value]
  by_cases own : k = "" ∧ o.HasOwnEntry
  · rw [if_pos own, if_pos own, List.length_singleton]
    constructor
    · exact fun same => ⟨by omega, fun _ => by omega⟩
    · exact fun ⟨dropped, replaced⟩ => by have := replaced own; omega
  · rw [if_neg own, if_neg own]
    constructor
    · exact fun same => ⟨by omega, fun here => absurd here own⟩
    · exact fun ⟨dropped, _⟩ => by omega

/-- Where in the value of an element those inside of it stand. A child without a name has
no place in an element with text. -/
inductive Places : Opened → Position → Opened → Prop
  | self (o : Opened) : Places o [] o
  | child {tag : ReadTag} {before after : List Piece} {n : Piece} {inner e : Opened}
      {p : Position} (here : n.opened? = some inner)
      (shown : inner.frame.name = "" → ¬HasOwnEntry ⟨tag, before ++ n :: after⟩)
      (below : Places inner p e) :
      Places ⟨tag, before ++ n :: after⟩
        (place (names (tag.pairs ++ childPairs before)) inner.frame.name
          (names (childPairs after)) ++ p) e

theorem at?_place {pairs before after : List (String × Value)} {name : String} {v : Value}
    (split : pairs = before ++ (name, v) :: after) :
    (Value.object (group pairs)).at? (place (names before) name (names after)) = some v := by
  have all : valuesOf name pairs = valuesOf name before ++ v :: valuesOf name after := by
    rw [split, valuesOf_append]
    simp [valuesOf]
  have entry : (group pairs).lookup name = some (gather (valuesOf name pairs)) := by
    rw [lookup_group, if_neg (by simp [all])]
  have number : (names before).count name = (valuesOf name before).length :=
    (length_valuesOf name before).symm
  have others : (names after).count name = (valuesOf name after).length :=
    (length_valuesOf name after).symm
  have several_iff : name ∈ names before ∨ name ∈ names after ↔
      valuesOf name before ≠ [] ∨ valuesOf name after ≠ [] := by
    rw [← List.count_pos_iff, ← List.count_pos_iff, number, others, List.length_pos_iff,
      List.length_pos_iff]
  rw [place]
  split
  · rename_i several
    -- In the array of the name, the value stands behind those that were named before it.
    rw [Value.at?_cons, Value.child?, entry, all, gather_of_others (several_iff.1 several),
      Option.bind_some, Value.at?_cons, Value.child?, number]
    simp [Value.at?_nil]
  · rename_i alone
    rw [several_iff, not_or, not_not, not_not] at alone
    rw [Value.at?_cons, Value.child?, entry, all, alone.1, alone.2]
    rfl

/-- A named value stands at its place in an element, unless the text stands there. -/
theorem at?_value_place {o : Opened} {before after : List (String × Value)} {name : String}
    {v : Value} (split : o.pairs = before ++ (name, v) :: after)
    (shown : name = "" → ¬o.HasOwnEntry) :
    o.frame.value.at? (place (names before) name (names after)) = some v := by
  have grouped := at?_place split
  have named : o.pairs ≠ [] := by simp [split]
  rw [value_eq, if_neg named]
  split
  · exact grouped
  · rename_i filled
    have ne : name ≠ "" := fun empty => shown empty ⟨named, filled⟩
    obtain ⟨q, start⟩ : ∃ q, place (names before) name (names after) = .key name :: q := by
      rcases place_cases (names before) name (names after) with key | ⟨i, index⟩
      · exact ⟨_, key⟩
      · exact ⟨_, index⟩
    rw [start, Value.at?_cons, Value.child?] at grouped ⊢
    rwa [Value.lookup_putEntry_of_ne _ _ ne]

theorem Places.at?_value {o e : Opened} {p : Position} (placed : o.Places p e) :
    o.frame.value.at? p = some e.frame.value := by
  induction placed with
  | self o => rfl
  | @child tag before after n inner e p here shown below ih =>
    have told : n.child? = some (inner.frame.name, inner.frame.value) := by
      rw [n.child?_eq_map, here]
      rfl
    have split : pairs ⟨tag, before ++ n :: after⟩ =
        (tag.pairs ++ childPairs before) ++
          (inner.frame.name, inner.frame.value) :: childPairs after := by
      simp [pairs, Piece.childPairs_append, childPairs, told]
    rw [Value.at?_append, at?_value_place split shown]
    exact ih

end Opened

/-- What an element keeps in the value that stands for it. -/
structure Opened.IsKeptIn (e : Opened) (v : Value) : Prop where
  text : e.pairs = [] → e.ownText ≠ [] → v = .text (String.ofList e.ownText)
  ownEntry : e.HasOwnEntry → v.get? "" = some (.text (String.ofList e.ownText))
  items : ∀ k, itemsUnder k v =
    if k = "" ∧ e.HasOwnEntry then [.text (String.ofList e.ownText)]
    else e.attributeTexts k ++ e.childValues k
  count_iff : ∀ k, (itemsUnder k v).length =
    e.contentCount k + (if k = "" ∧ e.HasOwnEntry then 1 else 0) ↔ e.KeepsAll k

theorem Opened.isKeptIn_value (e : Opened) : e.IsKeptIn e.frame.value where
  text none _ := by rw [value_eq, if_pos none]
  ownEntry own := by
    rw [value_eq, if_neg own.1, if_neg own.2, Value.get?, Value.lookup_putEntry_self]
  items := e.itemsUnder_value
  count_iff := e.length_itemsUnder_iff

theorem get?_rootValue (k : String) (v : Value) : (rootValue v).get? k = v.get? k := by
  cases v with
  | text s =>
    rw [rootValue]
    split <;> rfl
  | object _ | array _ | number _ | boolean _ | null => rfl

theorem itemsUnder_rootValue (k : String) (v : Value) :
    itemsUnder k (rootValue v) = itemsUnder k v := by
  rw [itemsUnder, get?_rootValue, itemsUnder]

theorem Opened.IsKeptIn.rootValue {e : Opened} {v : Value} (kept : e.IsKeptIn v) :
    e.IsKeptIn (rootValue v) where
  text none filled := by
    rw [kept.text none filled, Xml.rootValue, if_neg]
    rwa [← String.toList_inj, String.toList_ofList, String.toList_empty]
  ownEntry own := (get?_rootValue "" v).trans (kept.ownEntry own)
  items k := (itemsUnder_rootValue k v).trans (kept.items k)
  count_iff k := by rw [itemsUnder_rootValue, kept.count_iff]

theorem at?_rootValue_cons (v : Value) (s : Step) (p : Position) :
    (rootValue v).at? (s :: p) = v.at? (s :: p) := by
  cases v with
  | text t =>
    rw [rootValue]
    split
    · cases s <;> rfl
    · rfl
  | object _ | array _ | number _ | boolean _ | null => rfl

/-- What is kept of an element is told name by name for every element with a place in the
document. -/
theorem content_kept_of_read {text : String} {d : Document}
    (read : Document.parse .xml text = .ok d) :
    ∃ (root : Piece) (o : Opened), root.IsRootOf text ∧ root.opened? = some o ∧
      d.root = rootValue o.frame.value ∧
      ∀ p e, o.Places p e → ∃ v, d.root.at? p = some v ∧ e.IsKeptIn v := by
  obtain ⟨w, done, same⟩ := Json.bind_eq_ok_iff.1 read
  cases same
  obtain ⟨root, name, v, child, isRoot, rfl⟩ := exists_root_of_read (ok_of_mapError done)
  obtain ⟨o, here, -, rfl⟩ := (root.child?_eq_some_iff name v).1 child
  refine ⟨root, o, isRoot, here, rfl, fun p e placed => ?_⟩
  have found := placed.at?_value
  cases p with
  | nil =>
    have value : o.frame.value = e.frame.value := Option.some.inj found
    exact ⟨_, rfl, value ▸ e.isKeptIn_value.rootValue⟩
  | cons s p => exact ⟨_, (at?_rootValue_cons _ s p).trans found, e.isKeptIn_value⟩

theorem content_kept_of_read_on_mixed :
    let text := "<a b='1' xmlns:p='u'><p:b/>t</a>"
    let tree := Value.object [("b", .array [.text "1", .text ""]), ("", .text "t")]
    Document.parse .xml text = .ok ⟨tree, some text⟩ ∧
      ∃ (root : Piece) (o : Opened), root.IsRootOf text ∧ root.opened? = some o ∧
        o.attributeTexts "b" ++ o.childValues "b" = [.text "1", .text ""] ∧
        (2 = o.contentCount "b" ↔ o.KeepsAll "b") := by
  intro text tree
  have read : Document.parse .xml text = .ok ⟨tree, some text⟩ := by
    unfold text
    rfl
  obtain ⟨root, o, isRoot, here, -, kept⟩ := content_kept_of_read read
  obtain ⟨v, found, whole⟩ := kept [] o (.self o)
  obtain rfl : tree = v := Option.some.inj found
  have items := whole.items "b"
  have count := whole.count_iff "b"
  rw [if_neg (by simp)] at items count
  exact ⟨read, root, o, isRoot, here, items.symm, count⟩

/-- Text takes the place of an attribute without a name. -/
example : Document.parse .xml "<a p:=\"v\">t</a>" =
    .ok ⟨.object [("", .text "t")], some "<a p:=\"v\">t</a>"⟩ := by rfl

def likeDeclaration : ReadTag where
  tag := ⟨"a xmlnsx=\"1\" b=\"2\"".toList⟩
  attributes :=
    [⟨⟨"xmlnsx".toList, ['1']⟩, ['1'], nofun⟩, ⟨⟨['b'], ['2']⟩, ['2'], fun _ => rfl⟩]
  attributes_tag := by rfl

/-- The key `xmlnsx` declares no namespace, but its attribute is left out. -/
theorem attribute_taken_for_declaration :
    let text := "<a xmlnsx=\"1\" b=\"2\"/>"
    let o : Opened := ⟨likeDeclaration, []⟩
    Document.parse .xml text = .ok ⟨.object [("b", .text "2")], some text⟩ ∧
      (Piece.empty likeDeclaration).IsRootOf text ∧
      (Piece.empty likeDeclaration).opened? = some o ∧
      o.contentCount "xmlnsx" = 1 ∧ itemsUnder "xmlnsx" o.frame.value = [] := by
  intro text o
  have read : Document.parse .xml text = .ok ⟨.object [("b", .text "2")], some text⟩ := by
    unfold text
    rfl
  have events : Event.read (skipMark text.toList) = [.ok (.empty likeDeclaration.tag)] := by
    unfold text
    rfl
  have count : o.contentCount "xmlnsx" = 1 := by decide +kernel
  have items : itemsUnder "xmlnsx" o.frame.value = [] := by
    rw [o.itemsUnder_value, if_neg (by simp)]
    rfl
  exact ⟨read, ⟨[], [], by simp, events⟩, rfl, count, items⟩

end DescriptorCheck.Xml
