import DescriptorCheck.Path.Element
import DescriptorCheck.Proofs.Path.Rendering

set_option autoImplicit false

namespace DescriptorCheck.Value

mutual

def keys : Value → List String
  | object entries => entryKeys entries
  | array items => itemKeys items
  | _ => []

def entryKeys : List (String × Value) → List String
  | [] => []
  | (k, v) :: rest => k :: v.keys ++ entryKeys rest

def itemKeys : List Value → List String
  | [] => []
  | v :: rest => v.keys ++ itemKeys rest

end

mutual

/-- No object in a value, at any depth, has the same key twice. -/
def DistinctKeys : Value → Prop
  | object entries => (entries.map Prod.fst).Nodup ∧ EntriesDistinct entries
  | array items => ItemsDistinct items
  | _ => True

def EntriesDistinct : List (String × Value) → Prop
  | [] => True
  | (_, v) :: rest => v.DistinctKeys ∧ EntriesDistinct rest

def ItemsDistinct : List Value → Prop
  | [] => True
  | v :: rest => v.DistinctKeys ∧ ItemsDistinct rest

end

/-- Each element of a document with its position. -/
def placed (root : Value) : List (Position × Element) := root.positions.zip root.flatten

mutual

theorem map_path_elementsUnder (path : String) : (v : Value) →
    (v.elementsUnder path).map Element.path = v.positions.map (List.foldl Step.extend path)
  | object entries => by
    simpa [elementsUnder, positions] using map_path_entryElements path entries
  | array items => by
    simpa [elementsUnder, positions] using map_path_itemElements path 0 items
  | text _ | number _ | boolean _ | null => by simp [elementsUnder, positions]

theorem map_path_entryElements (path : String) : (entries : List (String × Value)) →
    (entryElements path entries).map Element.path =
      (entryPositions entries).map (List.foldl Step.extend path)
  | [] => by simp [entryElements, entryPositions]
  | (k, v) :: rest => by
    have below := map_path_elementsUnder (Step.extend path (.key k)) v
    have behind := map_path_entryElements path rest
    simp [entryElements, entryPositions, below, behind, Function.comp_def]

theorem map_path_itemElements (path : String) (i : Nat) : (items : List Value) →
    (itemElements path i items).map Element.path =
      (itemPositions i items).map (List.foldl Step.extend path)
  | [] => by simp [itemElements, itemPositions]
  | v :: rest => by
    have below := map_path_elementsUnder (Step.extend path (.index i)) v
    have behind := map_path_itemElements path (i + 1) rest
    simp [itemElements, itemPositions, below, behind, Function.comp_def]

end

mutual

theorem mem_keys_of_mem_positions {k : String} {p : Position} (step : .key k ∈ p) :
    (v : Value) → p ∈ v.positions → k ∈ v.keys
  | object entries, mem => by
    have inside : p ∈ entryPositions entries := by simpa [positions] using mem
    simpa [keys] using mem_entryKeys_of_mem_entryPositions step entries inside
  | array items, mem => by
    have inside : p ∈ itemPositions 0 items := by simpa [positions] using mem
    simpa [keys] using mem_itemKeys_of_mem_itemPositions step 0 items inside
  | text _, mem | number _, mem | boolean _, mem | null, mem => by simp [positions] at mem

theorem mem_entryKeys_of_mem_entryPositions {k : String} {p : Position} (step : .key k ∈ p) :
    (entries : List (String × Value)) → p ∈ entryPositions entries → k ∈ entryKeys entries
  | [], mem => by simp [entryPositions] at mem
  | (l, v) :: rest, mem => by
    simp only [entryPositions, List.cons_append, List.mem_cons, List.mem_append,
      List.mem_map] at mem
    simp only [entryKeys, List.cons_append, List.mem_cons, List.mem_append]
    rcases mem with rfl | ⟨q, below, rfl⟩ | behind
    · exact .inl (by simpa using step)
    · rcases List.mem_cons.1 step with same | step
      · exact .inl (by simpa using same)
      · exact .inr (.inl (mem_keys_of_mem_positions step v below))
    · exact .inr (.inr (mem_entryKeys_of_mem_entryPositions step rest behind))

theorem mem_itemKeys_of_mem_itemPositions {k : String} {p : Position} (step : .key k ∈ p)
    (i : Nat) : (items : List Value) → p ∈ itemPositions i items → k ∈ itemKeys items
  | [], mem => by simp [itemPositions] at mem
  | v :: rest, mem => by
    simp only [itemPositions, List.cons_append, List.mem_cons, List.mem_append,
      List.mem_map] at mem
    simp only [itemKeys, List.mem_append]
    rcases mem with rfl | ⟨q, below, rfl⟩ | behind
    · simp at step
    · rcases List.mem_cons.1 step with same | step
      · simp at same
      · exact .inl (mem_keys_of_mem_positions step v below)
    · exact .inr (mem_itemKeys_of_mem_itemPositions step (i + 1) rest behind)

end

theorem lookup_eq_of_mem {α β : Type} [BEq α] [LawfulBEq α] {k : α} {v : β}
    {entries : List (α × β)} (distinct : (entries.map Prod.fst).Nodup) (mem : (k, v) ∈ entries) :
    entries.lookup k = some v := by
  induction entries with
  | nil => simp at mem
  | cons entry rest ih =>
    obtain ⟨l, w⟩ := entry
    obtain ⟨fresh, distinct⟩ := List.nodup_cons.1 distinct
    rcases List.mem_cons.1 mem with same | behind
    · cases same
      exact List.lookup_cons_self
    · have ne : k ≠ l := by
        rintro rfl
        exact fresh (List.mem_map.2 ⟨(k, v), behind, rfl⟩)
      have differs : (k == l) = false := by simpa using ne
      rw [List.lookup_cons, differs]
      exact ih distinct behind

mutual

theorem map_at?_positions (path : String) : (v : Value) → v.DistinctKeys →
    v.positions.map v.at? = (v.elementsUnder path).map fun e => some e.value
  | object entries, distinct => by
    have split : (entries.map Prod.fst).Nodup ∧ EntriesDistinct entries := by
      simpa [DistinctKeys] using distinct
    have held : ∀ k v, (k, v) ∈ entries → (object entries).child? (.key k) = some v :=
      fun k v mem => lookup_eq_of_mem split.1 mem
    simpa [positions, elementsUnder] using map_at?_entryPositions path _ entries held split.2
  | array items, distinct => by
    have apart : ItemsDistinct items := by simpa [DistinctKeys] using distinct
    have held : ∀ j v, items[j]? = some v → (array items).child? (.index (0 + j)) = some v := by
      intro j v found
      rwa [Nat.zero_add]
    simpa [positions, elementsUnder] using map_at?_itemPositions path _ 0 items held apart
  | text _, _ | number _, _ | boolean _, _ | null, _ => by simp [positions, elementsUnder]

theorem map_at?_entryPositions (path : String) (whole : Value) :
    (entries : List (String × Value)) →
    -- the entries are the last ones of `whole`, which must not hide them
    (∀ k v, (k, v) ∈ entries → whole.child? (.key k) = some v) → EntriesDistinct entries →
    (entryPositions entries).map whole.at? =
      (entryElements path entries).map fun e => some e.value
  | [], _, _ => by simp [entryPositions, entryElements]
  | (k, v) :: rest, held, distinct => by
    have here := held k v (List.mem_cons_self ..)
    have below := map_at?_positions (Step.extend path (.key k)) v distinct.1
    have behind := map_at?_entryPositions path whole rest
      (fun l w mem => held l w (List.mem_cons_of_mem _ mem)) distinct.2
    simp [entryPositions, entryElements, at?_cons, at?_nil, here, behind, ← below,
      Function.comp_def]

theorem map_at?_itemPositions (path : String) (whole : Value) (i : Nat) :
    (items : List Value) →
    (∀ j v, items[j]? = some v → whole.child? (.index (i + j)) = some v) →
    ItemsDistinct items →
    (itemPositions i items).map whole.at? =
      (itemElements path i items).map fun e => some e.value
  | [], _, _ => by simp [itemPositions, itemElements]
  | v :: rest, held, distinct => by
    have here := held 0 v rfl
    have below := map_at?_positions (Step.extend path (.index i)) v distinct.1
    have later : ∀ j w, rest[j]? = some w → whole.child? (.index (i + 1 + j)) = some w := by
      intro j w found
      have := held (j + 1) w found
      rwa [show i + 1 + j = i + (j + 1) by omega]
    have behind := map_at?_itemPositions path whole (i + 1) rest later distinct.2
    rw [Nat.add_zero] at here
    simp [itemPositions, itemElements, at?_cons, at?_nil, here, behind, ← below,
      Function.comp_def]

end

section Placed

variable {root : Value} {p : Position} {e : Element}

theorem length_positions (root : Value) : root.positions.length = root.flatten.length := by
  have maps := congrArg List.length (map_path_elementsUnder "" root)
  rw [List.length_map, List.length_map] at maps
  exact maps.symm

theorem map_fst_placed (root : Value) : root.placed.map Prod.fst = root.positions :=
  List.map_fst_zip (Nat.le_of_eq (length_positions root))

theorem map_snd_placed (root : Value) : root.placed.map Prod.snd = root.flatten :=
  List.map_snd_zip (Nat.le_of_eq (length_positions root).symm)

theorem eq_of_mem_zip {α β γ : Type} {f : α → γ} {g : β → γ} {xs : List α} {ys : List β}
    (maps : xs.map f = ys.map g) {x : α} {y : β} (mem : (x, y) ∈ xs.zip ys) : f x = g y := by
  induction xs generalizing ys with
  | nil => simp at mem
  | cons a xs ih =>
    cases ys with
    | nil => simp at mem
    | cons b ys =>
      obtain ⟨heads, tails⟩ := List.cons.inj maps
      rcases List.mem_cons.1 mem with same | behind
      · cases same
        exact heads
      · exact ih tails behind

theorem path_of_mem_placed (mem : (p, e) ∈ root.placed) : e.path = p.path :=
  (eq_of_mem_zip (map_path_elementsUnder "" root).symm mem).symm

theorem at?_of_mem_placed (distinct : root.DistinctKeys) (mem : (p, e) ∈ root.placed) :
    root.at? p = some e.value :=
  eq_of_mem_zip (map_at?_positions "" root distinct) mem

theorem isPlain_of_mem_positions (plain : ∀ k ∈ root.keys, IsPlainKey k)
    (mem : p ∈ root.positions) : p.IsPlain := by
  intro s step
  cases s with
  | key k => exact plain k (mem_keys_of_mem_positions step root mem)
  | index i => trivial

theorem isPlain_of_mem_placed (plain : ∀ k ∈ root.keys, IsPlainKey k)
    (mem : (p, e) ∈ root.placed) : p.IsPlain :=
  isPlain_of_mem_positions plain (List.of_mem_zip mem).1

end Placed

end DescriptorCheck.Value
