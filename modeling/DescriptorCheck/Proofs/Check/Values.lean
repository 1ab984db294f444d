import DescriptorCheck.Proofs.Check.Places
import DescriptorCheck.Proofs.Path.Descent

set_option autoImplicit false

namespace DescriptorCheck

namespace Value

theorem displayItems_eq (items : List Value) :
    displayItems items = ", ".intercalate (items.map display) := by
  induction items with
  | nil => rfl
  | cons first rest ih =>
    cases rest with
    | nil => simp [displayItems]
    | cons second rest => simp only [displayItems, ih, List.map_cons, String.intercalate_cons_cons]

theorem displayEntries_eq (entries : List (String × Value)) :
    displayEntries entries =
      ", ".intercalate (entries.map fun entry => entry.1 ++ "=" ++ entry.2.display) := by
  induction entries with
  | nil => rfl
  | cons first rest ih =>
    cases rest with
    | nil => simp [displayEntries]
    | cons second rest =>
      simp only [displayEntries, ih, List.map_cons, String.intercalate_cons_cons]

theorem infix_intercalate {separator part : String} {parts : List String} (mem : part ∈ parts) :
    part.toList <:+: (separator.intercalate parts).toList := by
  induction parts with
  | nil => exact absurd mem List.not_mem_nil
  | cons first rest ih =>
    by_cases last : rest = []
    · subst last
      obtain rfl := List.mem_singleton.1 mem
      have alone : separator.intercalate [part] = part := String.intercalate_singleton
      exact alone.symm ▸ List.infix_rfl
    · rw [String.intercalate_cons_of_ne_nil last, String.toList_append, String.toList_append]
      rcases List.mem_cons.1 mem with rfl | behind
      · rw [List.append_assoc]
        exact (List.prefix_append _ _).isInfix
      · exact (ih behind).trans (List.suffix_append _ _).isInfix

theorem display_infix_of_mem_children {v c : Value} {s : Step} (mem : (s, c) ∈ v.children) :
    c.display.toList <:+: v.display.toList := by
  cases v with
  | object entries =>
    obtain ⟨⟨k, w⟩, held, same⟩ := List.mem_map.1 mem
    cases same
    have entry : w.display.toList <:+: (k ++ "=" ++ w.display).toList := by
      rw [String.toList_append]
      exact (List.suffix_append _ _).isInfix
    have within : (k ++ "=" ++ w.display).toList <:+: (displayEntries entries).toList := by
      rw [displayEntries_eq]
      exact infix_intercalate (List.mem_map.2 ⟨(k, w), held, rfl⟩)
    rw [display, String.toList_append, String.toList_append]
    exact (entry.trans within).trans ⟨_, _, rfl⟩
  | array items =>
    obtain ⟨⟨w, i⟩, held, same⟩ := List.mem_map.1 mem
    cases same
    have within : w.display.toList <:+: (displayItems items).toList := by
      rw [displayItems_eq]
      exact infix_intercalate (List.mem_map_of_mem (List.fst_mem_of_mem_zipIdx held))
    rw [display, String.toList_append, String.toList_append]
    exact within.trans ⟨_, _, rfl⟩
  | text _ | number _ | boolean _ | null => exact absurd mem List.not_mem_nil

/-- What is displayed of a value is a part of what is displayed of any container around it. -/
theorem display_infix_of_at? {v w : Value} {p : Position} (found : v.at? p = some w) :
    w.display.toList <:+: v.display.toList := by
  induction p generalizing v with
  | nil =>
    cases found
    exact List.infix_rfl
  | cons s p ih =>
    rw [at?_cons, Option.bind_eq_some_iff] at found
    obtain ⟨c, child, found⟩ := found
    exact (ih found).trans (display_infix_of_mem_children (mem_children_of_child? child))

theorem ne_null_of_at?_cons {v w : Value} {s : Step} {p : Position}
    (found : v.at? (s :: p) = some w) : v ≠ null := by
  rintro rfl
  cases found

theorem form?_eq_some_iff (v : Value) (form : String) :
    v.form? = some form ↔ v ≠ null ∧ v.display = form := by
  cases v <;> simp [form?]

end Value

namespace Predicate

theorem accepts_contains_iff (q : Query) (text : String) (e : Element) :
    (contains text).accepts q e = true ↔
      q.inScope e.path = true ∧ e.value ≠ .null ∧ text.toList <:+: e.value.display.toList := by
  rw [← Text.containsChars_iff]
  cases value : e.value <;> simp [accepts, value, Value.form?, Text.contains]

theorem accepts_equals_iff (q : Query) (text : String) (e : Element) :
    (equals text).accepts q e = true ↔
      q.inScope e.path = true ∧ e.value ≠ .null ∧ e.value.display = text := by
  rw [← Value.form?_eq_some_iff]
  simp [accepts]

end Predicate

namespace Checker

variable {k : Checker} {root : Value} (elements : k.elements = root.flatten.toArray)

include elements

theorem mem_placesIn_opened_iff (node : String) (o : Opening) (x : Position) :
    x ∈ ((k.checking node).opened o).placesIn root ↔ x ∈ root.positions := by
  refine ⟨Query.mem_positions_of_mem_placesIn, fun mem => ?_⟩
  obtain ⟨i, listed⟩ := List.getElem?_of_mem mem
  refine List.mem_filterMap.2 ⟨i, ?_, listed⟩
  have bound : i < k.elements.size := by
    rw [elements, List.size_toArray, ← Value.length_positions]
    exact (List.getElem?_eq_some_iff.1 listed).1
  exact List.mem_range.2 bound

theorem working_ne_nil_iff_places {q : Query} {node : String}
    (reached : Reaches Query.perform (k.checking node) q) :
    q.working ≠ [] ↔ ∃ x, x ∈ q.placesIn root := by
  have inRange := (Query.inOrder_of_narrowsTo (Query.narrowsTo_of_reaches reached)).inRange
  constructor
  · intro nonempty
    obtain ⟨i, mem⟩ := List.exists_mem_of_ne_nil _ nonempty
    have bound : i < root.positions.length := by
      have within := inRange i mem
      rwa [elements, List.size_toArray, ← Value.length_positions] at within
    exact ⟨_, List.mem_filterMap.2 ⟨i, mem, List.getElem?_eq_getElem bound⟩⟩
  · rintro ⟨x, mem⟩
    obtain ⟨i, held, -⟩ := List.mem_filterMap.1 mem
    exact List.ne_nil_of_mem held

/-- One predicate on a fresh chain: it finds the positions that it accepts, and should find
one or none. -/
theorem check_fresh (distinct : root.DistinctKeys) (node : String) (o : Opening) {p : Predicate}
    (spelt : p.IsSpelt) :
    ∃ q, ((k.checking node).opened o).check p = .ok q ∧
      (∀ x, x ∈ q.placesIn root ↔ x ∈ root.positions ∧ ∃ v, root.at? x = some v ∧
        p.accepts ((k.checking node).opened o) ⟨x.path, v⟩ = true) ∧
      (q.working ≠ [] ↔ ∃ x, x ∈ q.placesIn root) ∧
      (q.verdict = .ok () ↔
        match o with
        | .should => q.working ≠ []
        | .shouldNot => q.working = []) := by
  have opened : Reaches Query.perform (k.checking node) ((k.checking node).opened o) :=
    .move (.opening o) .start rfl
  obtain ⟨q, checked, -, kept⟩ := k.check_keeps_places elements distinct opened spelt
  obtain ⟨r, ran, working, -, verdict⟩ :=
    k.runQuery_outcome (some node) o (c := .first p) (by simpa [Chain.predicates] using spelt)
  obtain rfl : q = r := Except.ok.inj (checked.symm.trans ran)
  refine ⟨q, checked, fun x => ?_,
    working_ne_nil_iff_places elements (.move (.predicate p) opened checked), ?_⟩
  · rw [kept, mem_placesIn_opened_iff elements]
  · rw [working]
    exact verdict

/-- Looking for a text below any node finds a container with whatever it finds in it. -/
theorem contains_closed_upwards (distinct : root.DistinctKeys) (node : String) (o : Opening)
    {text : String} (spelt : Text.isBlank text = false) {q : Query}
    (checked : ((k.checking node).opened o).check (.contains text) = .ok q) :
    ∀ p ∈ q.placesIn root, ∀ a : Position, a ≠ [] → a <+: p →
      k.matching.isUnder a.path node = true → a ∈ q.placesIn root := by
  intro p found a nonempty below inScope
  obtain ⟨r, checked', kept, -⟩ := check_fresh elements distinct node o
    (p := .contains text) (by simpa [Predicate.IsSpelt, Predicate.arguments] using spelt)
  obtain rfl : q = r := Except.ok.inj (checked.symm.trans checked')
  obtain ⟨-, w, value, accepted⟩ := (kept p).1 found
  obtain ⟨-, notNull, shows⟩ := (Predicate.accepts_contains_iff _ _ _).1 accepted
  obtain ⟨rest, rfl⟩ := below
  obtain ⟨v, here, inner⟩ := Option.bind_eq_some_iff.1 ((root.at?_append a rest).symm.trans value)
  refine (kept a).2 ⟨(Value.mem_positions_iff distinct a).2 ⟨nonempty, by simp [here]⟩, v, here, ?_⟩
  refine (Predicate.accepts_contains_iff _ _ _).2 ⟨inScope, ?_, shows.trans
    (Value.display_infix_of_at? inner)⟩
  cases rest with
  | nil =>
    cases inner
    exact notNull
  | cons s rest => exact Value.ne_null_of_at?_cons inner

/-- What a predicate finds below an element of a document with plain keys, where it accepts
by the value alone. -/
theorem check_below_element (segment : k.matching = .segment) (distinct : root.DistinctKeys)
    (plain : ∀ key ∈ root.keys, IsPlainKey key) {n : Position} {e : Element}
    (placed : (n, e) ∈ root.placed) (o : Opening) {p : Predicate} (spelt : p.IsSpelt)
    (good : Value → Prop) (accepts : ∀ q e,
      p.accepts q e = true ↔ q.inScope e.path = true ∧ good e.value) :
    ∃ q, ((k.checking e.path).opened o).check p = .ok q ∧
      (∀ x, x ∈ q.placesIn root ↔ n <+: x ∧ ∃ v, root.at? x = some v ∧ good v) ∧
      (q.working ≠ [] ↔ ∃ x, x ∈ q.placesIn root) ∧
      (q.verdict = .ok () ↔
        match o with
        | .should => q.working ≠ []
        | .shouldNot => q.working = []) := by
  obtain ⟨q, checked, kept, found, verdict⟩ := check_fresh elements distinct e.path o spelt
  refine ⟨q, checked, fun x => (kept x).trans ?_, found, verdict⟩
  have listed : n ∈ root.positions := (List.of_mem_zip placed).1
  have opened : Reaches Query.perform (k.checking e.path) ((k.checking e.path).opened o) :=
    .move (.opening o) .start rfl
  have inScope (x : Position) (mem : x ∈ root.positions) :
      ((k.checking e.path).opened o).inScope x.path = true ↔ n <+: x := by
    rw [k.inScope_eq opened, segment, Value.path_of_mem_placed placed]
    exact Matching.isUnder_path_iff (Value.isPlain_of_mem_positions plain mem)
      (Value.isPlain_of_mem_positions plain listed)
  constructor
  · rintro ⟨mem, v, value, accepted⟩
    obtain ⟨within, holds⟩ := (accepts _ _).1 accepted
    exact ⟨(inScope x mem).1 within, v, value, holds⟩
  · rintro ⟨below, v, value, holds⟩
    have nonempty : x ≠ [] := by
      rintro rfl
      exact ((Value.mem_positions_iff distinct n).1 listed).1 (List.prefix_nil.1 below)
    have mem : x ∈ root.positions :=
      (Value.mem_positions_iff distinct x).2 ⟨nonempty, by simp [value]⟩
    exact ⟨mem, v, value, (accepts _ _).2 ⟨(inScope x mem).2 below, holds⟩⟩

/-- Value predicates on a fresh chain below an element of a document with plain keys. Values
are found that show the text within, or that show exactly it, and null is none of them. What
is displayed of a value shows within every container around it, so a text is found within
values below the element if and only if the element itself shows it, and with each value that
is found all that is in scope around it. -/
theorem values_found_below_element (segment : k.matching = .segment)
    (distinct : root.DistinctKeys) (plain : ∀ key ∈ root.keys, IsPlainKey key) {n : Position}
    {e : Element} (placed : (n, e) ∈ root.placed) {text : String}
    (spelt : Text.isBlank text = false) (o : Opening) :
    (∃ q, ((k.checking e.path).opened o).check (.contains text) = .ok q ∧
      (∀ x, x ∈ q.placesIn root ↔ n <+: x ∧ ∃ v, root.at? x = some v ∧ v ≠ .null ∧
        text.toList <:+: v.display.toList) ∧
      (q.working ≠ [] ↔ e.value ≠ .null ∧ text.toList <:+: e.value.display.toList) ∧
      (q.verdict = .ok () ↔
        match o with
        | .should => q.working ≠ []
        | .shouldNot => q.working = []) ∧
      ∀ x ∈ q.placesIn root, ∀ a : Position, a ≠ [] → a <+: x →
        k.matching.isUnder a.path e.path = true → a ∈ q.placesIn root) ∧
    (∃ q, ((k.checking e.path).opened o).check (.equals text) = .ok q ∧
      (∀ x, x ∈ q.placesIn root ↔ n <+: x ∧ ∃ v, root.at? x = some v ∧ v ≠ .null ∧
        v.display = text) ∧
      (q.working ≠ [] ↔ ∃ x v, n <+: x ∧ root.at? x = some v ∧ v ≠ .null ∧ v.display = text) ∧
      (q.verdict = .ok () ↔
        match o with
        | .should => q.working ≠ []
        | .shouldNot => q.working = [])) ∧
    ∀ a x v w, root.at? a = some v → a <+: x → root.at? x = some w →
      w.display.toList <:+: v.display.toList := by
  have given {p : Predicate} (single : ∃ a, p.arguments = [(a, text)]) : p.IsSpelt := by
    obtain ⟨a, arguments⟩ := single
    simpa [Predicate.IsSpelt, arguments] using spelt
  have here : root.at? n = some e.value := Value.at?_of_mem_placed distinct placed
  have listed : n ≠ [] :=
    ((Value.mem_positions_iff distinct n).1 (List.of_mem_zip placed).1).1
  have inScope : k.matching.isUnder n.path e.path = true := by
    have whole := Value.isPlain_of_mem_placed plain placed
    rw [segment, Value.path_of_mem_placed placed]
    exact (Matching.isUnder_path_iff whole whole).2 List.prefix_rfl
  refine ⟨?_, ?_, fun a x v w container below held => ?_⟩
  · obtain ⟨q, checked, kept, found, verdict⟩ := check_below_element elements segment distinct
      plain placed o (given ⟨_, rfl⟩) (fun v => v ≠ .null ∧ text.toList <:+: v.display.toList)
      (Predicate.accepts_contains_iff · text ·)
    have upwards := contains_closed_upwards elements distinct e.path o spelt checked
    refine ⟨q, checked, kept, found.trans ⟨?_, fun shows => ?_⟩, verdict, upwards⟩
    -- What shows below the element shows in the element itself.
    · rintro ⟨x, mem⟩
      obtain ⟨-, v, value, shows⟩ :=
        (kept n).1 (upwards x mem n listed ((kept x).1 mem).1 inScope)
      obtain rfl : e.value = v := Option.some.inj (here.symm.trans value)
      exact shows
    · exact ⟨n, (kept n).2 ⟨List.prefix_rfl, e.value, here, shows⟩⟩
  · obtain ⟨q, checked, kept, found, verdict⟩ := check_below_element elements segment distinct
      plain placed o (given ⟨_, rfl⟩) (fun v => v ≠ .null ∧ v.display = text)
      (Predicate.accepts_equals_iff · text ·)
    refine ⟨q, checked, kept, found.trans ?_, verdict⟩
    simp only [kept, ← exists_and_left]
  · obtain ⟨rest, rfl⟩ := below
    rw [Value.at?_append, container, Option.bind_some] at held
    exact Value.display_infix_of_at? held

/-- `{a: [null, {b: x}]}`, where null shows in the list around it but is not found itself. -/
def nullDocument : Value := .object [("a", .array [.null, .object [("b", .text "x")]])]

omit elements in
theorem values_found_below_element_on_null :
    let k : Checker := ⟨nullDocument.flatten.toArray, .segment, ⟨fun _ => false, fun _ => false⟩,
      "pom.xml"⟩
    (∃ q, ((k.checking "a").opened .shouldNot).check (.contains "null, ") = .ok q ∧
      q.working ≠ [] ∧ q.verdict ≠ .ok ()) ∧
    (∃ q, ((k.checking "a[0]").opened .should).check (.equals "null") = .ok q ∧
      q.working = []) ∧
    ∃ q, ((k.checking "a[1]").opened .should).check (.contains "=x") = .ok q ∧
      [.key "a", .index 1] ∈ q.placesIn nullDocument ∧
      [.key "a", .index 1, .key "b"] ∉ q.placesIn nullDocument := by
  intro k
  have distinct : nullDocument.DistinctKeys := by
    simp [nullDocument, Value.DistinctKeys, Value.EntriesDistinct, Value.ItemsDistinct]
  have plain : ∀ key ∈ nullDocument.keys, IsPlainKey key := by decide
  have list : ([.key "a"], ⟨"a", .array [.null, .object [("b", .text "x")]]⟩) ∈
      nullDocument.placed := List.mem_of_getElem? (i := 0) rfl
  have null : ([.key "a", .index 0], ⟨"a[0]", .null⟩) ∈ nullDocument.placed :=
    List.mem_of_getElem? (i := 1) rfl
  have object : ([.key "a", .index 1], ⟨"a[1]", .object [("b", .text "x")]⟩) ∈
      nullDocument.placed := List.mem_of_getElem? (i := 2) rfl
  have found (o : Opening) {n : Position} {e : Element} (placed : (n, e) ∈ nullDocument.placed)
      {text : String} (spelt : Text.isBlank text = false) :=
    values_found_below_element (k := k) rfl rfl distinct plain placed spelt o
  refine ⟨?_, ?_, ?_⟩
  · have spelt : Text.isBlank "null, " = false := by decide
    obtain ⟨⟨q, checked, -, found, verdict, -⟩, -⟩ := found .shouldNot list spelt
    have some : q.working ≠ [] := found.2 ⟨by simp, (Text.containsChars_iff _ _).1 (by decide)⟩
    exact ⟨q, checked, some, fun passed => some (verdict.1 passed)⟩
  · have spelt : Text.isBlank "null" = false := by decide
    obtain ⟨-, ⟨q, checked, kept, found, -⟩, -⟩ := found .should null spelt
    refine ⟨q, checked, ?_⟩
    by_contra nonempty
    obtain ⟨x, v, ⟨rest, rfl⟩, here, notNull, -⟩ := found.1 nonempty
    cases rest with
    | nil => exact notNull (Option.some.inj here).symm
    | cons s rest => cases here
  · have spelt : Text.isBlank "=x" = false := by decide
    obtain ⟨⟨q, checked, kept, -⟩, -⟩ := found .should object spelt
    refine ⟨q, checked, (kept _).2 ⟨List.prefix_rfl, _, rfl, by simp,
      (Text.containsChars_iff _ _).1 (by decide)⟩, fun mem => ?_⟩
    obtain ⟨-, v, here, -, shows⟩ := (kept _).1 mem
    obtain rfl : Value.text "x" = v := Option.some.inj here
    exact absurd shows.length_le (by decide)

end Checker

end DescriptorCheck
