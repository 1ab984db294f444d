import DescriptorCheck.Check.Build
import DescriptorCheck.Proofs.Check.Reachable
import DescriptorCheck.Proofs.Path.Enumeration

set_option autoImplicit false

namespace DescriptorCheck

namespace Value

def formAt? (root : Value) (p : Position) : Option String := (root.at? p).bind form?

theorem at?_concat_key (root : Value) (p : Position) (k : String) :
    root.at? (p ++ [.key k]) = (root.at? p).bind (get? k) := by
  rw [at?_append]
  congr 1
  funext v
  cases v with
  | object entries => exact Option.bind_fun_some _
  | array _ | text _ | number _ | boolean _ | null => rfl

theorem hasField_iff {root v : Value} {p : Position} (here : root.at? p = some v)
    (key form : String) :
    Build.hasField v key form = true ↔ root.formAt? (p ++ [.key key]) = some form := by
  rw [Build.hasField, formAt?, at?_concat_key, here, Option.bind_some, beq_iff_eq]

theorem exists_of_formAt?_concat {root : Value} {p : Position} {k form : String}
    (found : root.formAt? (p ++ [.key k]) = some form) :
    ∃ v, root.at? p = some v ∧ Build.hasField v k form = true := by
  have whole := found
  rw [formAt?, at?_concat_key] at found
  obtain ⟨w, inner, -⟩ := Option.bind_eq_some_iff.1 found
  obtain ⟨v, here, -⟩ := Option.bind_eq_some_iff.1 inner
  exact ⟨v, here, (hasField_iff here k form).2 whole⟩

section Listed

variable {root : Value} (distinct : root.DistinctKeys) {i : Nat}

include distinct

theorem exists_element_of_position {p : Position} (listed : root.positions[i]? = some p) :
    ∃ e, root.flatten[i]? = some e ∧ e.path = p.path ∧ root.at? p = some e.value := by
  obtain ⟨bound, rfl⟩ := List.getElem?_eq_some_iff.1 listed
  have bound' : i < root.flatten.length := by rwa [← length_positions]
  have placed := getElem_mem_placed bound bound'
  exact ⟨_, List.getElem?_eq_getElem bound', path_of_mem_placed placed,
    at?_of_mem_placed distinct placed⟩

theorem exists_position_of_element {e : Element} (listed : root.flatten[i]? = some e) :
    ∃ p, root.positions[i]? = some p ∧ e.path = p.path ∧ root.at? p = some e.value := by
  obtain ⟨bound, rfl⟩ := List.getElem?_eq_some_iff.1 listed
  have bound' : i < root.positions.length := by rwa [length_positions]
  have placed := getElem_mem_placed bound' bound
  exact ⟨_, List.getElem?_eq_getElem bound', path_of_mem_placed placed,
    at?_of_mem_placed distinct placed⟩

end Listed

end Value

namespace Query

/-- The positions that the working set stands for in a document. -/
def placesIn (root : Value) (q : Query) : List Position :=
  q.working.filterMap (root.positions[·]?)

theorem mem_positions_of_mem_placesIn {root : Value} {q : Query} {p : Position}
    (mem : p ∈ q.placesIn root) : p ∈ root.positions := by
  obtain ⟨i, -, listed⟩ := List.mem_filterMap.1 mem
  exact List.mem_of_getElem? listed

section Kept

variable {q : Query} {root : Value} (elements : q.elements = root.flatten.toArray)
  (distinct : root.DistinctKeys)

include elements distinct

theorem mem_placesIn_keep_iff (accepts : Element → Bool) (disallowed : List Element → List String)
    (missing : String) (p : Position) :
    p ∈ (q.keep accepts disallowed missing).placesIn root ↔
      p ∈ q.placesIn root ∧ ∃ v, root.at? p = some v ∧ accepts ⟨p.path, v⟩ = true := by
  unfold placesIn
  rw [keep_working, select, List.mem_filterMap, List.mem_filterMap]
  constructor
  · rintro ⟨i, kept, listed⟩
    obtain ⟨working, accepted⟩ := List.mem_filter.1 kept
    obtain ⟨e, here, path, value⟩ := Value.exists_element_of_position distinct listed
    refine ⟨⟨i, working, listed⟩, e.value, value, ?_⟩
    rw [elements, List.getElem?_toArray, here] at accepted
    rwa [← path]
  · rintro ⟨⟨i, working, listed⟩, v, value, accepted⟩
    refine ⟨i, List.mem_filter.2 ⟨working, ?_⟩, listed⟩
    obtain ⟨e, here, path, value'⟩ := Value.exists_element_of_position distinct listed
    obtain rfl : v = e.value := Option.some.inj (value.symm.trans value')
    rw [elements, List.getElem?_toArray, here]
    rwa [← path] at accepted

theorem mem_workingElements_iff (e : Element) :
    e ∈ q.workingElements ↔
      ∃ p ∈ q.placesIn root, p.path = e.path ∧ root.at? p = some e.value := by
  unfold workingElements resolve placesIn
  simp only [List.mem_filterMap, elements, List.getElem?_toArray]
  constructor
  · rintro ⟨i, working, here⟩
    obtain ⟨p, listed, path, value⟩ := Value.exists_position_of_element distinct here
    exact ⟨p, ⟨i, working, listed⟩, path.symm, value⟩
  · rintro ⟨p, ⟨i, working, listed⟩, path, value⟩
    obtain ⟨f, here, path', value'⟩ := Value.exists_element_of_position distinct listed
    have same : f = e := by
      cases f
      cases e
      simp_all
    exact ⟨i, working, same ▸ here⟩

end Kept

end Query

theorem Checker.inScope_eq {k : Checker} {node : String} {q : Query}
    (reached : Reaches Query.perform (k.checking node) q) (path : String) :
    q.inScope path = k.matching.isUnder path node := by
  obtain ⟨same, matching, -, -⟩ := Query.narrowsTo_of_reaches reached
  rw [Query.inScope, Query.isUnder, same, matching]
  rfl

/-- A spelt predicate keeps the places that it accepts, whatever was done to the chain. -/
theorem Checker.check_keeps_places (k : Checker) {root : Value}
    (elements : k.elements = root.flatten.toArray) (distinct : root.DistinctKeys) {node : String}
    {q : Query} (reached : Reaches Query.perform (k.checking node) q) {p : Predicate}
    (spelt : p.IsSpelt) :
    ∃ r, q.check p = .ok r ∧ r.working.Sublist q.working ∧
      ∀ x, x ∈ r.placesIn root ↔
        x ∈ q.placesIn root ∧ ∃ v, root.at? x = some v ∧ p.accepts q ⟨x.path, v⟩ = true := by
  obtain ⟨-, -, same, -⟩ := Query.narrowsTo_of_reaches reached
  have whole : q.elements = root.flatten.toArray := same.trans elements
  have accepted := (BlankArgument.first?_eq_none_iff p.arguments).2 spelt
  refine ⟨_, (q.check_eq_ok_iff _ p).2 ⟨accepted, rfl⟩, q.select_sublist _, ?_⟩
  exact Query.mem_placesIn_keep_iff whole distinct _ _ _

end DescriptorCheck
