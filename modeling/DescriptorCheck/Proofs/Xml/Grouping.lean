import DescriptorCheck.Xml.Document
import Mathlib.Data.List.Induction

set_option autoImplicit false

namespace DescriptorCheck.Xml

def addAll (entries pairs : List (String × Value)) : List (String × Value) :=
  pairs.foldl (fun entries pair => addEntry pair.1 pair.2 entries) entries

/-- One value as it is, more of them as an array. -/
def gather : List Value → Value
  | [v] => v
  | vs => .array vs

def valuesOf (name : String) (pairs : List (String × Value)) : List Value :=
  (pairs.filter (·.1 = name)).map Prod.snd

def without (name : String) (pairs : List (String × Value)) : List (String × Value) :=
  pairs.filter (·.1 ≠ name)

theorem length_without_le (name : String) (pairs : List (String × Value)) :
    (without name pairs).length ≤ pairs.length := List.length_filter_le _ pairs

def group : List (String × Value) → List (String × Value)
  | [] => []
  | (name, v) :: rest => (name, gather (v :: valuesOf name rest)) :: group (without name rest)
termination_by pairs => pairs.length
decreasing_by exact Nat.lt_succ_of_le (length_without_le name rest)

def NoArrays (pairs : List (String × Value)) : Prop := ∀ pair ∈ pairs, pair.2.isArray = false

theorem NoArrays.without {pairs : List (String × Value)} (none : NoArrays pairs)
    (name : String) : NoArrays (without name pairs) :=
  fun pair mem => none pair (List.mem_filter.1 mem).1

theorem addAll_append (entries pairs more : List (String × Value)) :
    addAll entries (pairs ++ more) = addAll (addAll entries pairs) more := List.foldl_append

theorem addEntry_of_ne {name other : String} (ne : other ≠ name) (v w : Value)
    (rest : List (String × Value)) :
    addEntry name v ((other, w) :: rest) = (other, w) :: addEntry name v rest := by
  simp [addEntry, ne]

/-- A value that is added to gathered ones is gathered with them, as none is an array
of its own. -/
theorem addEntry_gather (name : String) (v w : Value) {vs : List Value}
    (plain : w.isArray = false) (rest : List (String × Value)) :
    addEntry name v ((name, gather (w :: vs)) :: rest) =
      (name, gather (w :: vs ++ [v])) :: rest := by
  cases vs with
  | nil => cases w <;> simp_all [addEntry, gather, Value.isArray]
  | cons x vs => simp [addEntry, gather]

theorem valuesOf_append (name : String) (pairs more : List (String × Value)) :
    valuesOf name (pairs ++ more) = valuesOf name pairs ++ valuesOf name more := by
  simp [valuesOf]

theorem without_append (name : String) (pairs more : List (String × Value)) :
    without name (pairs ++ more) = without name pairs ++ without name more :=
  List.filter_append ..

theorem group_concat {pairs : List (String × Value)} (none : NoArrays pairs) (name : String)
    (v : Value) : group (pairs ++ [(name, v)]) = addEntry name v (group pairs) := by
  fun_induction group pairs with
  | case1 => simp [group, valuesOf, without, gather, addEntry]
  | case2 other w rest ih =>
    have plain : w.isArray = false := none (other, w) (List.mem_cons_self ..)
    have later : NoArrays rest := fun pair mem => none pair (List.mem_cons_of_mem _ mem)
    rw [List.cons_append, group, valuesOf_append, without_append]
    by_cases same : other = name
    · subst same
      rw [addEntry_gather other v w plain]
      simp [valuesOf, without]
    · rw [addEntry_of_ne same, ← ih (later.without other)]
      simp [valuesOf, without, Ne.symm same]

theorem addAll_eq_group {pairs : List (String × Value)} (none : NoArrays pairs) :
    addAll [] pairs = group pairs := by
  induction pairs using List.reverseRecOn with
  | nil => simp [addAll, group]
  | append_singleton pairs pair ih =>
    have front : NoArrays pairs := fun p mem => none p (List.mem_append_left _ mem)
    rw [addAll_append, ih front, group_concat front]
    rfl

theorem group_eq_nil_iff (pairs : List (String × Value)) : group pairs = [] ↔ pairs = [] := by
  cases pairs with
  | nil => simp [group]
  | cons pair rest =>
    obtain ⟨name, v⟩ := pair
    simp [group]

theorem mem_of_mem_group {name : String} {v : Value} {pairs : List (String × Value)}
    (mem : (name, v) ∈ group pairs) : ∃ w, (name, w) ∈ pairs := by
  fun_induction group pairs with
  | case1 => exact absurd mem List.not_mem_nil
  | case2 other w rest ih =>
    rcases List.mem_cons.1 mem with same | behind
    · exact ⟨w, by cases same; exact List.mem_cons_self ..⟩
    · obtain ⟨x, held⟩ := ih behind
      exact ⟨x, List.mem_cons_of_mem _ (List.mem_filter.1 held).1⟩

theorem lookup_group (k : String) (pairs : List (String × Value)) :
    (group pairs).lookup k =
      if valuesOf k pairs = [] then none else some (gather (valuesOf k pairs)) := by
  fun_induction group pairs with
  | case1 => rfl
  | case2 name v rest ih =>
    by_cases same : name = k
    · subst same
      simp [valuesOf]
    · have apart : (k == name) = false := by simpa using Ne.symm same
      have others : valuesOf k (without name rest) = valuesOf k rest := by
        rw [valuesOf, without, List.filter_filter]
        congr 2
        funext pair
        by_cases here : pair.1 = k <;> simp [here, Ne.symm same]
      have skipped : valuesOf k ((name, v) :: rest) = valuesOf k rest := by
        simp [valuesOf, same]
      rw [List.lookup_cons, apart, ih, others, skipped]

theorem length_valuesOf (k : String) (pairs : List (String × Value)) :
    (valuesOf k pairs).length = (pairs.map Prod.fst).count k := by
  induction pairs with
  | nil => rfl
  | cons pair rest ih =>
    by_cases same : pair.1 = k
    · simp_all [valuesOf]
    · simp_all [valuesOf]

/-- Among the values of a name, the one with number `i` is paired with it behind `i` others. -/
theorem exists_split_of_getElem?_valuesOf {k : String} {pairs : List (String × Value)} {i : Nat}
    {v : Value} (found : (valuesOf k pairs)[i]? = some v) :
    ∃ before after, pairs = before ++ (k, v) :: after ∧ (before.map Prod.fst).count k = i := by
  induction pairs generalizing i with
  | nil => simp [valuesOf] at found
  | cons pair rest ih =>
    obtain ⟨name, w⟩ := pair
    by_cases same : name = k
    · subst same
      cases i with
      | zero =>
        obtain rfl : w = v := by simpa [valuesOf] using found
        exact ⟨[], rest, rfl, rfl⟩
      | succ i =>
        obtain ⟨before, after, rfl, count⟩ := ih (i := i) (by simpa [valuesOf] using found)
        exact ⟨(name, w) :: before, after, rfl, by simp [count]⟩
    · obtain ⟨before, after, rfl, count⟩ := ih (i := i) (by simpa [valuesOf, same] using found)
      exact ⟨(name, w) :: before, after, rfl, by simp [count, same]⟩

/-- What the entries of an object name, each item of an array by itself. -/
def spread (entries : List (String × Value)) : List (String × Value) :=
  entries.flatMap fun entry => entry.2.items.map (entry.1, ·)

theorem valuesOf_map (name : String) (vs : List Value) :
    valuesOf name (vs.map (name, ·)) = vs := by
  simp [valuesOf, List.filter_map, Function.comp_def]

theorem without_map (name : String) (vs : List Value) : without name (vs.map (name, ·)) = [] := by
  simp [without, List.filter_map]

theorem ne_of_mem_spread {name : String} {entries : List (String × Value)}
    (fresh : name ∉ entries.map Prod.fst) {pair : String × Value} (mem : pair ∈ spread entries) :
    pair.1 ≠ name := by
  obtain ⟨entry, held, inner⟩ := List.mem_flatMap.1 mem
  obtain ⟨v, -, rfl⟩ := List.mem_map.1 inner
  rintro rfl
  exact fresh (List.mem_map.2 ⟨entry, held, rfl⟩)

theorem group_spread {entries : List (String × Value)} (distinct : (entries.map Prod.fst).Nodup)
    (gathered : ∀ entry ∈ entries, entry.2.items ≠ [] ∧ gather entry.2.items = entry.2) :
    group (spread entries) = entries := by
  induction entries with
  | nil => simp [spread, group]
  | cons entry rest ih =>
    obtain ⟨name, v⟩ := entry
    obtain ⟨fresh, distinct⟩ := List.nodup_cons.1 distinct
    obtain ⟨some, whole⟩ := gathered (name, v) (List.mem_cons_self ..)
    obtain ⟨w, ws, items⟩ := List.exists_cons_of_ne_nil some
    have later := ih distinct fun entry mem => gathered entry (List.mem_cons_of_mem _ mem)
    -- The values of `name` stand together at the front, so none of them is left behind.
    have none : valuesOf name (spread rest) = [] := by
      rw [valuesOf, List.filter_eq_nil_iff.2, List.map_nil]
      intro pair mem
      simpa using ne_of_mem_spread fresh mem
    have all : without name (spread rest) = spread rest := by
      refine List.filter_eq_self.2 fun pair mem => ?_
      simpa using ne_of_mem_spread fresh mem
    have front : spread ((name, v) :: rest) = (name, w) :: (ws.map (name, ·) ++ spread rest) := by
      simp [spread, show v.items = w :: ws from items]
    rw [front, group, valuesOf_append, valuesOf_map, none, List.append_nil, without_append,
      without_map, all, List.nil_append, later, ← items, whole]

end DescriptorCheck.Xml
