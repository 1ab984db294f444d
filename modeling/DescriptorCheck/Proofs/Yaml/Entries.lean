import DescriptorCheck.Proofs.Document.Merging
import DescriptorCheck.Proofs.Yaml.Meaning
import DescriptorCheck.Proofs.Yaml.Parts

set_option autoImplicit false

namespace DescriptorCheck

namespace Yaml

namespace Datum

/-- What an object has its entries from: the keys written as text, and the data. -/
def named (entries : List (Datum × Datum)) : List (String × Datum) :=
  entries.map fun entry => (entry.1.toValue.display, entry.2)

def names (entries : List (Datum × Datum)) : List String := (named entries).map Prod.fst

/-- No mapping in a datum has two keys that are written alike. -/
def NamesDiffer : Datum → Prop := Throughout fun entries => (names entries).Nodup

mutual

/-- The value of a datum if each entry of a mapping has an entry of its own. -/
def wholeValue : Datum → Value
  | null => .null
  | boolean b => .boolean b
  | integer i => .number (.ofInt i)
  | float x => .number (.float x)
  | text s => .text s
  | sequence items => .array (wholeValues items)
  | mapping entries => .object (wholeEntries entries)
  | tagged _ content => content.wholeValue

def wholeValues : List Datum → List Value
  | [] => []
  | d :: rest => d.wholeValue :: wholeValues rest

def wholeEntries : List (Datum × Datum) → List (String × Value)
  | [] => []
  | (key, d) :: rest => (key.toValue.display, d.wholeValue) :: wholeEntries rest

end

mutual

/-- How many data lie strictly below a datum as items or as values of entries. -/
def nodesBelow : Datum → Nat
  | sequence items => itemNodes items
  | mapping entries => entryNodes entries
  | tagged _ content => content.nodesBelow
  | null | boolean _ | integer _ | float _ | text _ => 0

def itemNodes : List Datum → Nat
  | [] => 0
  | d :: rest => 1 + d.nodesBelow + itemNodes rest

def entryNodes : List (Datum × Datum) → Nat
  | [] => 0
  | (_, d) :: rest => 1 + d.nodesBelow + entryNodes rest

end

theorem valuesOf_eq_map (items : List Datum) : valuesOf items = items.map toValue := by
  induction items with
  | nil => rfl
  | cons d rest ih => rw [valuesOf, ih, List.map_cons]

theorem entriesOf_eq_map (entries : List (Datum × Datum)) :
    entriesOf entries = (named entries).map (Prod.map id toValue) := by
  induction entries with
  | nil => rfl
  | cons entry rest ih => rw [entriesOf, ih, named, named, List.map_cons, List.map_cons]; rfl

theorem map_fst_entriesOf (entries : List (Datum × Datum)) :
    (entriesOf entries).map Prod.fst = names entries := by
  simp [entriesOf_eq_map, names]

theorem wholeValues_eq_map (items : List Datum) : wholeValues items = items.map wholeValue := by
  induction items with
  | nil => rfl
  | cons d rest ih => rw [wholeValues, ih, List.map_cons]

theorem wholeEntries_eq_map (entries : List (Datum × Datum)) :
    wholeEntries entries = (named entries).map (Prod.map id wholeValue) := by
  induction entries with
  | nil => rfl
  | cons entry rest ih => rw [wholeEntries, ih, named, named, List.map_cons, List.map_cons]; rfl

theorem map_fst_wholeEntries (entries : List (Datum × Datum)) :
    (wholeEntries entries).map Prod.fst = names entries := by
  simp [wholeEntries_eq_map, names]

def bare : Datum → Datum
  | tagged _ content => content.bare
  | d => d

/-- The datum at one step. Of entries whose keys are written alike the last one counts. -/
def child? : Datum → Step → Option Datum
  | mapping entries, .key k => (named entries).reverse.lookup k
  | sequence items, .index i => items[i]?
  | tagged _ content, s => content.child? s
  | _, _ => none

def at? (d : Datum) (p : Position) : Option Datum := p.foldlM child? d

theorem toValue_bare : (d : Datum) → d.bare.toValue = d.toValue
  | tagged _ content => by rw [bare, toValue, toValue_bare content]
  | null | boolean _ | integer _ | float _ | text _ | sequence _ | mapping _ => rfl

theorem exists_merges_named (entries : List (Datum × Datum)) :
    ∃ kept, (mapping entries).toValue = .object kept ∧
      Value.Merges ((named entries).map (Prod.map id toValue)) kept := by
  rw [toValue, ← entriesOf_eq_map]
  exact Value.exists_merges (entriesOf entries)

theorem child?_toValue : (d : Datum) → (s : Step) →
    d.toValue.child? s = (d.child? s).map toValue
  | mapping entries, .key k => by
    obtain ⟨kept, same, merges⟩ := exists_merges_named entries
    rw [same, Value.child?, merges.values, ← List.map_reverse, Value.lookup_map_snd, child?]
  | mapping entries, .index i => by
    obtain ⟨kept, same, -⟩ := exists_merges_named entries
    rw [same]
    rfl
  | sequence items, .index i => by
    rw [toValue, valuesOf_eq_map, Value.child?, List.getElem?_map, child?]
  | sequence items, .key k => by
    rw [toValue]
    rfl
  | tagged _ content, s => by rw [toValue, child?, child?_toValue content s]
  | null, s | boolean _, s | float _, s | text _, s | integer _, s => by
    cases s <;> simp [toValue, child?, Value.child?]

theorem at?_toValue (d : Datum) (p : Position) : d.toValue.at? p = (d.at? p).map toValue := by
  induction p generalizing d with
  | nil => rfl
  | cons s p ih =>
    have below : d.at? (s :: p) = (d.child? s).bind (·.at? p) := rfl
    rw [Value.at?_cons, child?_toValue, below]
    cases d.child? s with
    | none => rfl
    | some e => exact ih e

theorem distinctKeys_wholeValue_iff (d : Datum) : d.wholeValue.DistinctKeys ↔ d.NamesDiffer := by
  induction d using induction_on_parts with
  | scalar d plain =>
    refine iff_of_true ?_ plain.throughout
    cases d <;> first | exact plain.elim | simp [wholeValue, Value.DistinctKeys]
  | sequence items ih =>
    rw [wholeValue, wholeValues_eq_map, Value.distinctKeys_array_iff, List.forall_mem_map,
      NamesDiffer, throughout_sequence_iff]
    exact forall₂_congr ih
  | mapping entries ih =>
    rw [wholeValue, Value.distinctKeys_object_iff, map_fst_wholeEntries, wholeEntries_eq_map,
      List.forall_mem_map, named, List.forall_mem_map, NamesDiffer, throughout_mapping_iff]
    exact and_congr_right fun _ => forall₂_congr ih
  | tagged name content ih =>
    rw [wholeValue, NamesDiffer, throughout_tagged_iff]
    exact ih

theorem toValue_of_namesDiffer {d : Datum} (differ : d.NamesDiffer) :
    d.toValue = d.wholeValue := by
  induction d using induction_on_parts with
  | scalar d plain => cases d <;> first | exact plain.elim | simp [toValue, wholeValue]
  | sequence items ih =>
    have below := throughout_sequence_iff.1 differ
    rw [toValue, wholeValue, valuesOf_eq_map, wholeValues_eq_map,
      List.map_congr_left fun d mem => ih d mem (below d mem)]
  | mapping entries ih =>
    obtain ⟨apart, below⟩ := throughout_mapping_iff.1 differ
    have same : entriesOf entries = wholeEntries entries := by
      rw [entriesOf_eq_map, wholeEntries_eq_map, named, List.map_map, List.map_map]
      refine List.map_congr_left fun entry mem => ?_
      exact congrArg (Prod.mk _) (ih entry mem (below entry mem))
    rw [toValue, wholeValue, same]
    apply Value.ofEntries_of_nodup
    rwa [map_fst_wholeEntries]
  | tagged name content ih =>
    rw [toValue, wholeValue, ih (throughout_tagged_iff.1 differ)]

theorem toValue_eq_wholeValue_iff (d : Datum) : d.toValue = d.wholeValue ↔ d.NamesDiffer := by
  constructor
  · intro same
    exact (distinctKeys_wholeValue_iff d).1 (same ▸ d.distinctKeys_toValue)
  · exact toValue_of_namesDiffer

theorem itemNodes_eq_sum (items : List Datum) :
    itemNodes items = (items.map fun d => 1 + d.nodesBelow).sum := by
  induction items with
  | nil => rfl
  | cons d rest ih => rw [itemNodes, ih, List.map_cons, List.sum_cons]

theorem entryNodes_eq_sum (entries : List (Datum × Datum)) :
    entryNodes entries = (entries.map fun entry => 1 + entry.2.nodesBelow).sum := by
  induction entries with
  | nil => rfl
  | cons entry rest ih => rw [entryNodes, ih, List.map_cons, List.sum_cons]

theorem nodesBelow_wholeValue (d : Datum) : d.wholeValue.nodesBelow = d.nodesBelow := by
  induction d using induction_on_parts with
  | scalar d plain =>
    cases d <;> first | exact plain.elim | simp [wholeValue, nodesBelow, Value.nodesBelow]
  | sequence items ih =>
    rw [wholeValue, wholeValues_eq_map, nodesBelow, Value.nodesBelow, Value.itemNodes_eq_sum,
      itemNodes_eq_sum, List.map_map]
    exact congrArg List.sum (List.map_congr_left fun d mem => congrArg (1 + ·) (ih d mem))
  | mapping entries ih =>
    rw [wholeValue, wholeEntries_eq_map, named, nodesBelow, Value.nodesBelow,
      Value.entryNodes_eq_sum, entryNodes_eq_sum, List.map_map, List.map_map]
    exact congrArg List.sum (List.map_congr_left fun entry mem => congrArg (1 + ·) (ih entry mem))
  | tagged name content ih => rw [wholeValue, nodesBelow, ih]

theorem eq_of_sum_eq {α : Type} {f g : α → Nat} {l : List α} (le : ∀ a ∈ l, f a ≤ g a)
    (same : (l.map f).sum = (l.map g).sum) : ∀ a ∈ l, f a = g a := by
  intro a mem
  by_contra ne
  have less := List.sum_lt_sum f g le ⟨a, mem, lt_of_le_of_ne (le a mem) ne⟩
  omega

theorem nodesBelow_toValue (d : Datum) : d.toValue.nodesBelow ≤ d.nodesBelow ∧
    (d.toValue.nodesBelow = d.nodesBelow → d.NamesDiffer) := by
  induction d using induction_on_parts with
  | scalar d plain =>
    refine ⟨?_, fun _ => plain.throughout⟩
    cases d <;> first | exact plain.elim | simp [toValue, nodesBelow, Value.nodesBelow]
  | sequence items ih =>
    have le : ∀ d ∈ items, 1 + d.toValue.nodesBelow ≤ 1 + d.nodesBelow := fun d mem =>
      Nat.add_le_add_left (ih d mem).1 1
    rw [toValue, valuesOf_eq_map, nodesBelow, Value.nodesBelow, Value.itemNodes_eq_sum,
      itemNodes_eq_sum, List.map_map]
    refine ⟨List.sum_le_sum le, fun same => throughout_sequence_iff.2 fun d mem => ?_⟩
    exact (ih d mem).2 (Nat.add_left_cancel (eq_of_sum_eq le same d mem))
  | mapping entries ih =>
    have le : ∀ entry ∈ entries, 1 + entry.2.toValue.nodesBelow ≤ 1 + entry.2.nodesBelow :=
      fun entry mem => Nat.add_le_add_left (ih entry mem).1 1
    have all : Value.entryNodes (entriesOf entries) =
        (entries.map fun entry => 1 + entry.2.toValue.nodesBelow).sum := by
      rw [Value.entryNodes_eq_sum, entriesOf_eq_map, named, List.map_map, List.map_map]
      rfl
    obtain ⟨merged, apart⟩ := Value.nodesBelow_ofEntries (entriesOf entries)
    rw [map_fst_entriesOf] at apart
    rw [all] at merged apart
    rw [toValue, nodesBelow, entryNodes_eq_sum]
    have fewer := List.sum_le_sum le
    -- Nodes get lost by merging entries or inside of them: if none is, none is in either way.
    refine ⟨merged.trans fewer, fun same => throughout_mapping_iff.2 ⟨?_, fun entry mem => ?_⟩⟩
    · exact apart (merged.antisymm (same ▸ fewer))
    · have whole := fewer.antisymm (same ▸ merged)
      exact (ih entry mem).2 (Nat.add_left_cancel (eq_of_sum_eq le whole entry mem))
  | tagged name content ih =>
    rw [toValue, nodesBelow, NamesDiffer, throughout_tagged_iff]
    exact ih

theorem nodesBelow_toValue_eq_iff (d : Datum) :
    d.toValue.nodesBelow = d.nodesBelow ↔ d.NamesDiffer := by
  constructor
  · exact (nodesBelow_toValue d).2
  · intro differ
    rw [toValue_of_namesDiffer differ, nodesBelow_wholeValue]

theorem KeysDiffer.namesDiffer {d : Datum} (differ : d.KeysDiffer)
    (texts : d.Throughout fun entries => ∀ entry ∈ entries, ∃ name, entry.1 = text name) :
    d.NamesDiffer := by
  intro entries held
  have same : entries.map Prod.fst = (names entries).map text := by
    simp only [names, named, List.map_map, List.map_inj_left]
    intro entry mem
    obtain ⟨name, key⟩ := texts entries held entry mem
    simp [key, toValue]
  exact (keysDiffer_iff same).1 (differ entries held)

end Datum

theorem readDatum_of {text : String} {tokens : List Token} {root : Node} {d : Datum}
    (read : readTokens (dropByteOrderMark text.toList) = .ok tokens)
    (composed : Node.ofTokens tokens = .ok (some root))
    (means : (Datum.ofNode root Node.depthLimit root).run' 0 = .ok d) :
    readDatum text = .ok d := by
  unfold readDatum
  rw [read]
  change Node.ofTokens tokens >>= _ = _
  rw [composed]
  exact means

end Yaml

namespace Document
open Yaml (Datum)

theorem parse_of_readDatum {text : String} {d : Datum} (read : Yaml.readDatum text = .ok d) :
    parse .yaml text = .ok ⟨d.toValue, some text⟩ := by
  have value : Yaml.read text = .ok d.toValue := by
    rw [Yaml.read, read]
    rfl
  simp only [parse, value]
  rfl

/-- The clauses on mappings and sequences are about every position of the document. -/
theorem entries_kept_where_names_differ {text : String} {doc : Document}
    (accepted : parse .yaml text = .ok doc) :
    ∃ d, Yaml.readDatum text = .ok d ∧ d.KeysDiffer ∧
      (∀ p, doc.root.at? p = (d.at? p).map Datum.toValue) ∧
      (∀ p e items, d.at? p = some e → e.bare = .sequence items →
        doc.root.at? p = some (.array (items.map Datum.toValue))) ∧
      (∀ p e entries, d.at? p = some e → e.bare = .mapping entries →
        ∃ kept, doc.root.at? p = some (.object kept) ∧
          Value.Merges ((Datum.named entries).map (Prod.map id Datum.toValue)) kept ∧
          (kept.length = entries.length ↔ (Datum.names entries).Nodup)) ∧
      doc.elements.length ≤ d.nodesBelow ∧
      (doc.elements.length = d.nodesBelow ↔ d.NamesDiffer) ∧
      (doc.root = d.wholeValue ↔ d.NamesDiffer) ∧
      (d.Throughout (fun entries => ∀ entry ∈ entries, ∃ name, entry.1 = .text name) →
        d.NamesDiffer) := by
  obtain ⟨root, read, done⟩ := Json.bind_eq_ok_iff.1 accepted
  cases done
  have meant : (Yaml.readDatum text).map Datum.toValue = .ok root := ok_of_mapError read
  cases known : Yaml.readDatum text with
  | error e => simp [known, Except.map] at meant
  | ok d =>
    obtain rfl : d.toValue = root := by simpa [known, Except.map] using meant
    have differ := Yaml.keysDiffer_readDatum known
    have count : d.toValue.flatten.length = d.toValue.nodesBelow :=
      (Value.length_positions _).symm.trans (Value.length_positions_eq_nodesBelow _)
    have converted (p : Position) (e : Datum) (here : d.at? p = some e) :
        d.toValue.at? p = some e.bare.toValue := by
      rw [Datum.at?_toValue, here, Datum.toValue_bare]
      rfl
    refine ⟨d, rfl, differ, d.at?_toValue, ?_, ?_, ?_, ?_, d.toValue_eq_wholeValue_iff,
      differ.namesDiffer⟩
    · intro p e items here bare
      rw [converted p e here, bare, Datum.toValue, Datum.valuesOf_eq_map]
    · intro p e entries here bare
      obtain ⟨kept, same, merges⟩ := Datum.exists_merges_named entries
      have distinct := (Datum.mapping entries).distinctKeys_toValue
      rw [same, Value.distinctKeys_object_iff] at distinct
      refine ⟨kept, by rw [converted p e here, bare, same], merges, ?_⟩
      have lengths := merges.length_eq_iff distinct.1
      rwa [← Datum.entriesOf_eq_map, Datum.length_entriesOf, Datum.map_fst_entriesOf] at lengths
    · exact count.trans_le (Datum.nodesBelow_toValue d).1
    · rw [← d.nodesBelow_toValue_eq_iff, ← count]
      rfl

theorem entries_kept_on_whole_number_key :
    let text := "b: 1\n7: [x, null]\n"
    let d := Datum.mapping [(.text "b", .integer 1),
      (.integer 7, .sequence [.text "x", .null])]
    parse .yaml text = .ok ⟨d.toValue, some text⟩ ∧ Yaml.readDatum text = .ok d ∧
      d.NamesDiffer ∧ d.toValue = d.wholeValue ∧ d.toValue.flatten.length = 4 := by
  intro text d
  have tokens : Yaml.readTokens
      (Yaml.dropByteOrderMark "b: 1\n7: [x, null]\n".toList) = .ok
      [.blockMappingStart, .key, .scalar "b" true, .value, .scalar "1" true, .key,
        .scalar "7" true, .value, .flowSequenceStart, .scalar "x" true, .flowEntry,
        .scalar "null" true, .flowSequenceEnd, .blockEnd] := by rfl
  have read : Yaml.readDatum text = .ok d := Yaml.readDatum_of tokens rfl rfl
  have accepted := parse_of_readDatum read
  have seven : (Value.number (.ofInt 7)).display = "7" := by decide +kernel
  have differ : d.NamesDiffer := by
    have scalar (e : Datum) (plain : e.IsScalar) : e.NamesDiffer := plain.throughout
    refine Datum.throughout_mapping_iff.2 ⟨?_, ?_⟩
    · simp [Datum.names, Datum.named, Datum.toValue, seven]
    · rw [List.forall_mem_cons, List.forall_mem_singleton]
      refine ⟨scalar _ trivial, Datum.throughout_sequence_iff.2 ?_⟩
      rw [List.forall_mem_cons, List.forall_mem_singleton]
      exact ⟨scalar _ trivial, scalar _ trivial⟩
  obtain ⟨e, again, -, -, -, -, -, count, whole, -⟩ := entries_kept_where_names_differ accepted
  obtain rfl : d = e := Except.ok.inj (read.symm.trans again)
  exact ⟨accepted, read, differ, whole.2 differ, count.2 differ⟩

theorem keys_written_alike_share_entry :
    let text := "1: a\n'1': b\n"
    let d := Datum.mapping [(.integer 1, .text "a"), (.text "1", .text "b")]
    parse .yaml text = .ok ⟨.object [("1", .text "b")], some text⟩ ∧
      Yaml.readDatum text = .ok d ∧
      d.wholeValue = .object [("1", .text "a"), ("1", .text "b")] ∧ d.nodesBelow = 2 := by
  intro text d
  have tokens : Yaml.readTokens (Yaml.dropByteOrderMark "1: a\n'1': b\n".toList) = .ok
      [.blockMappingStart, .key, .scalar "1" true, .value, .scalar "a" true, .key,
        .scalar "1" false, .value, .scalar "b" true, .blockEnd] := by rfl
  have read : Yaml.readDatum text = .ok d := Yaml.readDatum_of tokens rfl rfl
  have one : (Value.number (.ofInt 1)).display = "1" := by decide +kernel
  have value : d.toValue = .object [("1", .text "b")] := by
    simp [d, Datum.toValue, Datum.entriesOf, Value.ofEntries, Value.putEntry, one]
  have whole : d.wholeValue = .object [("1", .text "a"), ("1", .text "b")] := by
    simp [d, Datum.wholeValue, Datum.wholeEntries, Datum.toValue, one]
  exact ⟨value ▸ parse_of_readDatum read, read, whole, rfl⟩

end Document

end DescriptorCheck
