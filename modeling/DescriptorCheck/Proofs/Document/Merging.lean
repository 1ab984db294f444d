import DescriptorCheck.Proofs.Document.Keys
import Mathlib.Algebra.Order.BigOperators.Group.List
import Mathlib.Algebra.Order.Ring.Nat

set_option autoImplicit false

namespace DescriptorCheck.Value

theorem eraseDups_concat (keys : List String) (key : String) :
    (keys ++ [key]).eraseDups = keysWith key keys.eraseDups := by
  rw [List.eraseDups_append, keysWith]
  by_cases known : key ∈ keys <;> simp [known, List.removeAll, List.eraseDups_cons]

theorem eraseDups_sublist (keys : List String) : keys.eraseDups.Sublist keys := by
  match keys with
  | [] => simp
  | key :: rest =>
    rw [List.eraseDups_cons]
    exact ((eraseDups_sublist _).trans List.filter_sublist).cons_cons key
termination_by keys.length
decreasing_by exact Nat.lt_succ_of_le (List.length_filter_le _ _)

theorem lookup_map_snd {α β γ : Type} [BEq α] (f : β → γ) (k : α) (pairs : List (α × β)) :
    (pairs.map (Prod.map id f)).lookup k = (pairs.lookup k).map f := by
  induction pairs with
  | nil => rfl
  | cons pair rest ih =>
    obtain ⟨key, v⟩ := pair
    simp only [List.map_cons, Prod.map, id, List.lookup_cons, ih]
    cases k == key <;> rfl

/-- The entries that are left of others put in order: each key stands where it came
first, with the value that came last. -/
structure Merges (entries kept : List (String × Value)) : Prop where
  keys : kept.map Prod.fst = (entries.map Prod.fst).eraseDups
  values : ∀ key, kept.lookup key = entries.reverse.lookup key

theorem ofEntries_concat {entries kept : List (String × Value)}
    (put : ofEntries entries = object kept) (key : String) (v : Value) :
    ofEntries (entries ++ [(key, v)]) = object (putEntry key v kept) := by
  have before : entries.foldl (fun known entry => putEntry entry.1 entry.2 known) [] = kept :=
    object.inj put
  rw [ofEntries, List.foldl_append, before]
  rfl

theorem Merges.concat {entries kept : List (String × Value)} (merges : Merges entries kept)
    (key : String) (v : Value) : Merges (entries ++ [(key, v)]) (putEntry key v kept) where
  keys := by
    rw [map_fst_putEntry, merges.keys, List.map_append, List.map_singleton, eraseDups_concat]
  values k := by
    rw [List.reverse_concat, List.lookup_cons]
    by_cases same : k = key
    · subst same
      simp [lookup_putEntry_self]
    · have differs : (k == key) = false := by simpa using same
      rw [differs, lookup_putEntry_of_ne v kept same, merges.values]

theorem exists_merges (entries : List (String × Value)) :
    ∃ kept, ofEntries entries = object kept ∧ Merges entries kept := by
  induction entries using List.reverseRecOn with
  | nil => exact ⟨[], rfl, rfl, fun _ => rfl⟩
  | append_singleton entries entry ih =>
    obtain ⟨kept, put, merges⟩ := ih
    exact ⟨_, ofEntries_concat put entry.1 entry.2, merges.concat entry.1 entry.2⟩

theorem Merges.length_eq_iff {entries kept : List (String × Value)}
    (merges : Merges entries kept) (nodup : (kept.map Prod.fst).Nodup) :
    kept.length = entries.length ↔ (entries.map Prod.fst).Nodup := by
  have shorter := eraseDups_sublist (entries.map Prod.fst)
  rw [← merges.keys] at shorter
  constructor
  · intro same
    rwa [← shorter.eq_of_length (by simpa using same)]
  · intro apart
    have put := ofEntries_of_nodup apart
    obtain ⟨left, merged, others⟩ := exists_merges entries
    obtain rfl : entries = left := object.inj (put.symm.trans merged)
    simpa using congrArg List.length (merges.keys.trans others.keys.symm)

section Count

variable {key : String} {entries : List (String × Value)}

theorem itemNodes_eq_sum (items : List Value) :
    itemNodes items = (items.map fun v => 1 + v.nodesBelow).sum := by
  induction items with
  | nil => rfl
  | cons v rest ih => rw [itemNodes, ih, List.map_cons, List.sum_cons]

theorem entryNodes_eq_sum (entries : List (String × Value)) :
    entryNodes entries = (entries.map fun entry => 1 + entry.2.nodesBelow).sum := by
  induction entries with
  | nil => rfl
  | cons entry rest ih => rw [entryNodes, ih, List.map_cons, List.sum_cons]

theorem entryNodes_append (entries others : List (String × Value)) :
    entryNodes (entries ++ others) = entryNodes entries + entryNodes others := by
  simp only [entryNodes_eq_sum, List.map_append, List.sum_append]

theorem entryNodes_putEntry_of_mem (known : key ∈ entries.map Prod.fst) (v : Value) :
    entryNodes (putEntry key v entries) ≤ v.nodesBelow + entryNodes entries := by
  induction entries with
  | nil => simp at known
  | cons entry rest ih =>
    obtain ⟨k, w⟩ := entry
    rw [putEntry]
    split
    · rw [entryNodes, entryNodes]
      omega
    · rename_i ne
      have behind := ih ((List.mem_cons.1 known).resolve_left (Ne.symm ne))
      rw [entryNodes, entryNodes]
      omega

theorem entryNodes_putEntry_of_not_mem (fresh : key ∉ entries.map Prod.fst) (v : Value) :
    entryNodes (putEntry key v entries) = 1 + v.nodesBelow + entryNodes entries := by
  rw [putEntry_of_not_mem fresh, entryNodes_append]
  simp [entryNodes]
  omega

theorem nodesBelow_ofEntries (entries : List (String × Value)) :
    (ofEntries entries).nodesBelow ≤ entryNodes entries ∧
      ((ofEntries entries).nodesBelow = entryNodes entries →
        (entries.map Prod.fst).Nodup) := by
  induction entries using List.reverseRecOn with
  | nil => simp [ofEntries, nodesBelow, entryNodes]
  | append_singleton entries entry ih =>
    obtain ⟨kept, put, merges⟩ := exists_merges entries
    rw [put, nodesBelow] at ih
    rw [ofEntries_concat put, nodesBelow, entryNodes_append, entryNodes, entryNodes]
    by_cases known : entry.1 ∈ kept.map Prod.fst
    · have fewer := entryNodes_putEntry_of_mem known entry.2
      exact ⟨by omega, fun same => absurd same (by omega)⟩
    · have more := entryNodes_putEntry_of_not_mem known entry.2
      refine ⟨by omega, fun same => ?_⟩
      have apart := ih.2 (by omega)
      rw [merges.keys, List.mem_eraseDups] at known
      rw [List.map_append]
      exact apart.append (List.nodup_singleton _) (by simpa using known)

end Count

end DescriptorCheck.Value
