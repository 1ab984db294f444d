import DescriptorCheck.Proofs.Path.Children
import Mathlib.Data.Multiset.Bind

set_option autoImplicit false

namespace DescriptorCheck

/-- The members of two lists are related one to one, in any order. -/
abbrev UpToOrder {α β : Type} (related : α → β → Prop) (xs : List α) (ys : List β) : Prop :=
  Multiset.Rel related (xs : Multiset α) (ys : Multiset β)

def Element.Alike (e f : Element) : Prop := e.path = f.path ∧ e.value.equal f.value = true

namespace Value

def NamedAlike {N : Type} (a b : N × Value) : Prop := a.1 = b.1 ∧ a.2.equal b.2 = true

theorem equalEntries_iff (entries others : List (String × Value)) :
    equalEntries entries others = true ↔
      ∀ entry ∈ entries, ∃ w, others.lookup entry.1 = some w ∧ entry.2.equal w = true := by
  induction entries with
  | nil => simp [equalEntries]
  | cons entry rest ih =>
    obtain ⟨k, v⟩ := entry
    rw [equalEntries, Bool.and_eq_true, ih, List.forall_mem_cons]
    cases others.lookup k <;> simp

theorem lookup_append_cons_of_ne {k l : String} (ne : l ≠ k) (w : Value)
    (front back : List (String × Value)) :
    (front ++ (k, w) :: back).lookup l = (front ++ back).lookup l := by
  have differs : (l == k) = false := by simpa using ne
  rw [List.lookup_append, List.lookup_append, List.lookup_cons, differs]

theorem rel_entries {entries others : List (String × Value)}
    (nodup : (entries.map Prod.fst).Nodup) (length : entries.length = others.length)
    (same : equalEntries entries others = true) :
    UpToOrder NamedAlike entries others := by
  induction entries generalizing others with
  | nil =>
    obtain rfl := List.eq_nil_of_length_eq_zero length.symm
    exact .zero
  | cons entry rest ih =>
    obtain ⟨k, v⟩ := entry
    obtain ⟨fresh, nodup⟩ := List.nodup_cons.1 nodup
    rw [equalEntries_iff, List.forall_mem_cons] at same
    obtain ⟨⟨w, found, alike⟩, behind⟩ := same
    -- The entry is taken out on the right, which hides no key of the others.
    obtain ⟨front, back, rfl, -⟩ := List.lookup_eq_some_iff.1 found
    have others : UpToOrder NamedAlike rest (front ++ back) := by
      apply ih nodup
      · simp only [List.length_cons, List.length_append] at length ⊢
        omega
      · rw [equalEntries_iff]
        intro entry mem
        have ne : entry.1 ≠ k := fun here => fresh (List.mem_map.2 ⟨entry, mem, here⟩)
        rw [← lookup_append_cons_of_ne ne w]
        exact behind entry mem
    have moved : ((front ++ (k, w) :: back : List _) : Multiset (String × Value)) =
        (k, w) ::ₘ (front ++ back : List _) := Multiset.coe_eq_coe.2 List.perm_middle
    rw [UpToOrder, moved]
    exact .cons ⟨rfl, alike⟩ others

theorem rel_items {items others : List Value} (same : equalItems items others = true) (i : Nat) :
    UpToOrder NamedAlike ((items.zipIdx i).map itemChild) ((others.zipIdx i).map itemChild) := by
  induction items generalizing others i with
  | nil =>
    cases others with
    | nil => exact .zero
    | cons w others => simp [equalItems] at same
  | cons v rest ih =>
    cases others with
    | nil => simp [equalItems] at same
    | cons w others =>
      rw [equalItems, Bool.and_eq_true] at same
      exact .cons ⟨rfl, same.1⟩ (ih same.2 (i + 1))

/-- Only the first of the values has to hold its keys once: the other one then does too. -/
theorem rel_children {v w : Value} (distinct : v.DistinctKeys) (same : v.equal w = true) :
    UpToOrder NamedAlike v.children w.children := by
  cases v with
  | object entries =>
    cases w with
    | object others =>
      rw [equal, Bool.and_eq_true, beq_iff_eq] at same
      have entries := rel_entries distinct.entries.1 same.1 same.2
      refine Multiset.rel_map.2 (entries.mono fun a _ b _ alike => ?_)
      exact ⟨congrArg Step.key alike.1, alike.2⟩
    | _ => simp [equal] at same
  | array items =>
    cases w with
    | array others =>
      rw [equal] at same
      exact rel_items same 0
    | _ => simp [equal] at same
  | text _ | number _ | boolean _ | null =>
    cases w <;> first | exact .zero | simp [equal] at same

def childElements (path : String) (child : Step × Value) : List Element :=
  ⟨child.1.extend path, child.2⟩ :: child.2.elementsUnder (child.1.extend path)

theorem entryElements_eq_flatMap (path : String) (entries : List (String × Value)) :
    entryElements path entries = (entries.map entryChild).flatMap (childElements path) := by
  induction entries with
  | nil => rfl
  | cons entry rest ih =>
    obtain ⟨k, v⟩ := entry
    simp [entryElements, childElements, entryChild, ih]

theorem itemElements_eq_flatMap (path : String) (i : Nat) (items : List Value) :
    itemElements path i items = ((items.zipIdx i).map itemChild).flatMap (childElements path) := by
  induction items generalizing i with
  | nil => rfl
  | cons v rest ih => simp [itemElements, childElements, itemChild, ih]

theorem elementsUnder_eq_flatMap (path : String) (v : Value) :
    v.elementsUnder path = v.children.flatMap (childElements path) := by
  cases v with
  | object entries => simpa [elementsUnder, children] using entryElements_eq_flatMap path entries
  | array items => simpa [elementsUnder, children] using itemElements_eq_flatMap path 0 items
  | text _ | number _ | boolean _ | null => simp [elementsUnder, children]

theorem rel_elementsUnder {v w : Value} (distinct : v.DistinctKeys) (same : v.equal w = true)
    (path : String) :
    UpToOrder Element.Alike (v.elementsUnder path) (w.elementsUnder path) := by
  induction v using induction_on_children generalizing w path with
  | step v ih =>
    rw [elementsUnder_eq_flatMap, elementsUnder_eq_flatMap, UpToOrder, ← Multiset.coe_bind,
      ← Multiset.coe_bind]
    -- Children that match have blocks of elements that match.
    have blocks : UpToOrder
        (fun a b => UpToOrder Element.Alike (childElements path a) (childElements path b))
        v.children w.children := by
      refine (rel_children distinct same).mono ?_
      rintro ⟨s, c⟩ mem ⟨_, d⟩ - ⟨rfl, alike⟩
      have below := ih s c mem (distinct.child mem) alike (s.extend path)
      exact .cons ⟨rfl, alike⟩ below
    exact Multiset.rel_bind (fun _ _ block => block) blocks

end Value

end DescriptorCheck
