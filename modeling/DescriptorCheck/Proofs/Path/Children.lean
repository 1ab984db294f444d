import DescriptorCheck.Path.Element
import DescriptorCheck.Proofs.Path.Placement
import Mathlib.Data.List.Nodup

set_option autoImplicit false

/-! Positions and look-ups are told by children alone, so that proofs about them need not tell
objects and arrays apart. -/
namespace DescriptorCheck.Value

def entryChild (entry : String × Value) : Step × Value := (.key entry.1, entry.2)

def itemChild (item : Value × Nat) : Step × Value := (.index item.2, item.1)

def children : Value → List (Step × Value)
  | object entries => entries.map entryChild
  | array items => items.zipIdx.map itemChild
  | _ => []

theorem sizeOf_lt_of_mem_children {v c : Value} {s : Step} (mem : (s, c) ∈ v.children) :
    sizeOf c < sizeOf v := by
  cases v with
  | object entries =>
    obtain ⟨⟨k, w⟩, held, same⟩ := List.mem_map.1 mem
    cases same
    have := List.sizeOf_lt_of_mem held
    simp only [Prod.mk.sizeOf_spec, object.sizeOf_spec] at this ⊢
    omega
  | array items =>
    obtain ⟨⟨w, i⟩, held, same⟩ := List.mem_map.1 mem
    cases same
    have := List.sizeOf_lt_of_mem (List.fst_mem_of_mem_zipIdx held)
    simp only [array.sizeOf_spec] at this ⊢
    omega
  | text _ | number _ | boolean _ | null => exact absurd mem List.not_mem_nil

@[elab_as_elim]
theorem induction_on_children {motive : Value → Prop} (v : Value)
    (step : ∀ v, (∀ s c, (s, c) ∈ v.children → motive c) → motive v) : motive v :=
  step v fun _ c mem =>
    have := sizeOf_lt_of_mem_children mem
    induction_on_children c step
termination_by sizeOf v

def branch (child : Step × Value) : List Position :=
  [child.1] :: child.2.positions.map (child.1 :: ·)

theorem entryPositions_eq_flatMap (entries : List (String × Value)) :
    entryPositions entries = (entries.map entryChild).flatMap branch := by
  induction entries with
  | nil => rfl
  | cons entry rest ih =>
    obtain ⟨k, v⟩ := entry
    simp [entryPositions, branch, entryChild, ih]

theorem itemPositions_eq_flatMap (i : Nat) (items : List Value) :
    itemPositions i items = ((items.zipIdx i).map itemChild).flatMap branch := by
  induction items generalizing i with
  | nil => rfl
  | cons v rest ih => simp [itemPositions, branch, itemChild, ih]

theorem positions_eq_flatMap (v : Value) : v.positions = v.children.flatMap branch := by
  cases v with
  | object entries => simpa [positions, children] using entryPositions_eq_flatMap entries
  | array items => simpa [positions, children] using itemPositions_eq_flatMap 0 items
  | text _ | number _ | boolean _ | null => simp [positions, children]

mutual

theorem length_positions_eq_nodesBelow : (v : Value) → v.positions.length = v.nodesBelow
  | object entries => by
    simpa [positions, nodesBelow] using length_entryPositions_eq_entryNodes entries
  | array items => by
    simpa [positions, nodesBelow] using length_itemPositions_eq_itemNodes 0 items
  | text _ | number _ | boolean _ | null => by simp [positions, nodesBelow]

theorem length_entryPositions_eq_entryNodes : (entries : List (String × Value)) →
    (entryPositions entries).length = entryNodes entries
  | [] => by simp [entryPositions, entryNodes]
  | (k, v) :: rest => by
    have below := length_positions_eq_nodesBelow v
    have behind := length_entryPositions_eq_entryNodes rest
    simp only [entryPositions, entryNodes, List.length_append, List.length_cons, List.length_map]
    omega

theorem length_itemPositions_eq_itemNodes (i : Nat) : (items : List Value) →
    (itemPositions i items).length = itemNodes items
  | [] => by simp [itemPositions, itemNodes]
  | v :: rest => by
    have below := length_positions_eq_nodesBelow v
    have behind := length_itemPositions_eq_itemNodes (i + 1) rest
    simp only [itemPositions, itemNodes, List.length_append, List.length_cons, List.length_map]
    omega

end

theorem lookup_map_entryChild (k : String) (entries : List (String × Value)) :
    (entries.map entryChild).lookup (.key k) = entries.lookup k := by
  induction entries with
  | nil => rfl
  | cons entry rest ih =>
    obtain ⟨l, v⟩ := entry
    by_cases same : k = l
    · simp [entryChild, same]
    · have differs : (k == l) = false := by simpa using same
      have apart : (Step.key k == Step.key l) = false := by simpa using same
      rw [List.map_cons, entryChild, List.lookup_cons, List.lookup_cons, apart, differs]
      exact ih

theorem lookup_map_itemChild (i j : Nat) (items : List Value) :
    ((items.zipIdx i).map itemChild).lookup (.index (i + j)) = items[j]? := by
  induction items generalizing i j with
  | nil => rfl
  | cons v rest ih =>
    rw [List.zipIdx_cons, List.map_cons, itemChild, List.lookup_cons]
    cases j with
    | zero => simp
    | succ j =>
      have apart : (Step.index (i + (j + 1)) == Step.index i) = false := by simp
      rw [apart, show i + (j + 1) = i + 1 + j by omega]
      exact ih (i + 1) j

theorem child?_eq_lookup (v : Value) (s : Step) : v.child? s = v.children.lookup s := by
  cases v with
  | object entries =>
    cases s with
    | key k => exact (lookup_map_entryChild k entries).symm
    | index i =>
      refine (List.lookup_eq_none_iff.2 fun child mem => ?_).symm
      obtain ⟨entry, -, rfl⟩ := List.mem_map.1 mem
      rfl
  | array items =>
    cases s with
    | key k =>
      refine (List.lookup_eq_none_iff.2 fun child mem => ?_).symm
      obtain ⟨item, -, rfl⟩ := List.mem_map.1 mem
      rfl
    | index i =>
      have found := lookup_map_itemChild 0 i items
      rw [Nat.zero_add] at found
      exact found.symm
  | text _ | number _ | boolean _ | null => rfl

theorem DistinctKeys.entries {entries : List (String × Value)}
    (distinct : (object entries).DistinctKeys) :
    (entries.map Prod.fst).Nodup ∧ EntriesDistinct entries := by
  simpa [DistinctKeys] using distinct

theorem DistinctKeys.items {items : List Value} (distinct : (array items).DistinctKeys) :
    ItemsDistinct items := by
  simpa [DistinctKeys] using distinct

theorem DistinctKeys.nodup_steps {v : Value} (distinct : v.DistinctKeys) :
    (v.children.map Prod.fst).Nodup := by
  cases v with
  | object entries =>
    have steps : (object entries).children.map Prod.fst =
        (entries.map Prod.fst).map Step.key := by
      simp [children, entryChild]
    rw [steps]
    exact distinct.entries.1.map fun _ _ same => Step.key.inj same
  | array items =>
    have steps : (array items).children.map Prod.fst =
        (items.zipIdx.map Prod.snd).map Step.index := by
      rw [children, List.map_map, List.map_map]
      rfl
    have indices : (items.zipIdx.map Prod.snd).Nodup := by
      rw [List.zipIdx_map_snd]
      exact List.nodup_range'
    rw [steps]
    exact indices.map fun _ _ same => Step.index.inj same
  | text _ | number _ | boolean _ | null => exact List.nodup_nil

theorem distinctKeys_of_entriesDistinct {v : Value} {k : String}
    {entries : List (String × Value)} (distinct : EntriesDistinct entries)
    (mem : (k, v) ∈ entries) : v.DistinctKeys := by
  induction entries with
  | nil => simp at mem
  | cons entry rest ih =>
    obtain ⟨l, w⟩ := entry
    rcases List.mem_cons.1 mem with same | behind
    · cases same
      exact distinct.1
    · exact ih distinct.2 behind

theorem distinctKeys_of_itemsDistinct {v : Value} {items : List Value}
    (distinct : ItemsDistinct items) (mem : v ∈ items) : v.DistinctKeys := by
  induction items with
  | nil => simp at mem
  | cons w rest ih =>
    rcases List.mem_cons.1 mem with rfl | behind
    · exact distinct.1
    · exact ih distinct.2 behind

theorem DistinctKeys.child {v c : Value} {s : Step} (distinct : v.DistinctKeys)
    (mem : (s, c) ∈ v.children) : c.DistinctKeys := by
  cases v with
  | object entries =>
    obtain ⟨⟨k, w⟩, held, same⟩ := List.mem_map.1 mem
    cases same
    exact distinctKeys_of_entriesDistinct distinct.entries.2 held
  | array items =>
    obtain ⟨⟨w, i⟩, held, same⟩ := List.mem_map.1 mem
    cases same
    exact distinctKeys_of_itemsDistinct distinct.items (List.fst_mem_of_mem_zipIdx held)
  | text _ | number _ | boolean _ | null => exact absurd mem List.not_mem_nil

end DescriptorCheck.Value
