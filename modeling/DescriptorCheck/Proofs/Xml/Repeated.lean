import DescriptorCheck.Proofs.Document.Merging
import DescriptorCheck.Proofs.Xml.Kept

set_option autoImplicit false

namespace DescriptorCheck.Xml

/-- Names stand in the order in which they first occur, whatever values they have. -/
theorem map_fst_addAll (pairs : List (String × Value)) :
    (addAll [] pairs).map Prod.fst = (pairs.map Prod.fst).eraseDups := by
  induction pairs using List.reverseRecOn with
  | nil => rfl
  | append_singleton pairs pair ih =>
    rw [addAll_append, List.map_append, List.map_singleton, Value.eraseDups_concat, ← ih]
    exact map_fst_addEntry pair.1 pair.2 (addAll [] pairs)

theorem nodup_addAll (pairs : List (String × Value)) :
    ((addAll [] pairs).map Prod.fst).Nodup := by
  induction pairs using List.reverseRecOn with
  | nil => exact List.nodup_nil
  | append_singleton pairs pair ih =>
    rw [addAll_append]
    change ((addEntry pair.1 pair.2 (addAll [] pairs)).map Prod.fst).Nodup
    rw [map_fst_addEntry]
    exact Value.nodup_keysWith ih pair.1

variable {pairs : List (String × Value)}

theorem lookup_addAll (plain : NoArrays pairs) (k : String) :
    (addAll [] pairs).lookup k =
      match valuesOf k pairs with
      | [] => none
      | [v] => some v
      | vs => some (.array vs) := by
  rw [addAll_eq_group plain, lookup_group]
  match valuesOf k pairs with
  | [] => rfl
  | [_] => rfl
  | _ :: _ :: _ => rfl

theorem items_of_lookup_addAll (plain : NoArrays pairs) {k : String} {v : Value}
    (found : (addAll [] pairs).lookup k = some v) : v.items = valuesOf k pairs := by
  have grouped := items_lookup_group plain k
  rw [addAll_eq_group plain] at found
  rwa [found] at grouped

theorem mem_of_mem_valuesOf {k : String} {v : Value} (mem : v ∈ valuesOf k pairs) :
    (k, v) ∈ pairs := by
  obtain ⟨⟨l, w⟩, kept, rfl⟩ := List.mem_map.1 mem
  obtain ⟨held, named⟩ := List.mem_filter.1 kept
  obtain rfl : l = k := by simpa using named
  exact held

/-- Values that are added one after the other to no entries at all are found under their
names: one by itself, more of them in an array, in the order in which they were added. A
null stands where one was added and nowhere else. -/
theorem repeated_names_gathered (plain : NoArrays pairs) :
    let entries := pairs.foldl (fun entries pair => addEntry pair.1 pair.2 entries) []
    entries.map Prod.fst = (pairs.map Prod.fst).eraseDups ∧
    (∀ k, entries.lookup k =
      match valuesOf k pairs with
      | [] => none
      | [v] => some v
      | vs => some (.array vs)) ∧
    (∀ k v, entries.lookup k = some v → v.items = valuesOf k pairs) ∧
    ∀ entry ∈ entries, .null ∈ entry.2.items → (entry.1, .null) ∈ pairs := by
  intro entries
  refine ⟨map_fst_addAll pairs, lookup_addAll plain, fun k v => items_of_lookup_addAll plain, ?_⟩
  rintro ⟨k, v⟩ mem null
  have found : entries.lookup k = some v := Value.lookup_eq_of_mem (nodup_addAll pairs) mem
  rw [items_of_lookup_addAll plain found] at null
  exact mem_of_mem_valuesOf null

theorem repeated_names_gathered_on_nulls :
    let pairs := [("a", Value.null), ("b", .object []), ("a", .null), ("c", .text "")]
    NoArrays pairs ∧
    pairs.foldl (fun entries pair => addEntry pair.1 pair.2 entries) [] =
      [("a", .array [.null, .null]), ("b", .object []), ("c", .text "")] ∧
    (Value.array [.null, .null]).items = valuesOf "a" pairs ∧
    ("a", Value.null) ∈ pairs := by
  intro pairs
  have plain : NoArrays pairs := by
    simp [pairs, NoArrays, Value.isArray]
  have added : pairs.foldl (fun entries pair => addEntry pair.1 pair.2 entries) [] =
      [("a", .array [.null, .null]), ("b", .object []), ("c", .text "")] := by
    simp [pairs, addEntry]
  obtain ⟨-, -, items, nulls⟩ := repeated_names_gathered plain
  rw [added] at items nulls
  exact ⟨plain, added, items "a" _ rfl, nulls _ List.mem_cons_self (by simp [Value.items])⟩

end DescriptorCheck.Xml
