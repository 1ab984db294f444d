import DescriptorCheck.Proofs.Check.Registered
import DescriptorCheck.Proofs.Path.Lookup

set_option autoImplicit false

namespace DescriptorCheck

namespace Value

/-- The name that a value registers: what a scalar shows, unless it is null or blank. -/
def registeredName? (v : Value) : Option String :=
  if v.isContainer then none else v.form?.filter fun name => !Text.isBlank name

theorem elementsUnder_of_scalar {v : Value} (scalar : v.isContainer = false) (path : String) :
    v.elementsUnder path = [] := by
  cases v with
  | object _ | array _ => cases scalar
  | text _ | number _ | boolean _ | null => rw [elementsUnder] <;> simp

theorem map_value_itemElements {items : List Value}
    (scalars : ∀ item ∈ items, item.isContainer = false) (path : String) (i : Nat) :
    (itemElements path i items).map Element.value = items := by
  induction items generalizing i with
  | nil => simp [itemElements]
  | cons item rest ih =>
    obtain ⟨scalar, scalars⟩ := List.forall_mem_cons.1 scalars
    simp [itemElements, elementsUnder_of_scalar scalar, ih scalars]

theorem filterMap_registeredName? {v : Value} (scalars : ∀ item ∈ v.items, item.isContainer = false)
    (path : String) :
    (v :: (v.elementsUnder path).map Element.value).filterMap registeredName? =
      (v.items.filterMap form?).filter fun name => !Text.isBlank name := by
  have shown {items : List Value} (scalars : ∀ item ∈ items, item.isContainer = false) :
      items.filterMap registeredName? =
        (items.filterMap form?).filter fun name => !Text.isBlank name := by
    rw [List.filter_filterMap]
    refine List.filterMap_congr fun item mem => ?_
    simp [registeredName?, scalars item mem]
  cases v with
  | object entries => exact absurd (scalars _ List.mem_cons_self) Bool.noConfusion
  | array items =>
    have listed : ∀ item ∈ items, item.isContainer = false := scalars
    have list : (array items).registeredName? = none := rfl
    rw [elementsUnder, map_value_itemElements listed, List.filterMap_cons_none list]
    exact shown listed
  | text _ | number _ | boolean _ | null =>
    rw [elementsUnder_of_scalar rfl]
    exact shown scalars

end Value

namespace ModuleQuery

theorem registeredNames_eq_filterMap (q : Query) :
    registeredNames q =
      ((q.workingElements.filter fun e => q.isUnder e.path moduleEntries).map
        Element.value).filterMap Value.registeredName? := by
  rw [List.filterMap_map, List.filterMap_filter, registeredNames]
  refine List.filterMap_congr fun e _ => ?_
  by_cases under : q.isUnder e.path moduleEntries <;> by_cases container : e.value.isContainer <;>
    simp [Value.registeredName?, under, container]

theorem check_allRegistered_asked (m : ModuleQuery) :
    ((registeredNames m.query).foldl checkModule m).asked =
      m.asked ++ (registeredNames m.query).flatMap (m.files.questionsOn m.descriptor) := by
  rw [foldl_checkModule]
  simp [withContext, ask, lookFor_eq]

end ModuleQuery

theorem Checker.registeredNames_opened (k : Checker) {root : Value}
    (elements : k.elements = root.flatten.toArray) (distinct : root.DistinctKeys)
    (plain : ∀ key ∈ root.keys, IsPlainKey key) (segment : k.matching = .segment) (o : Opening)
    {v : Value} (found : root.getDotted? moduleEntries = some v)
    (scalars : ∀ item ∈ v.items, item.isContainer = false) :
    ModuleQuery.registeredNames (k.checkingModule.opened o).query =
      (v.items.filterMap Value.form?).filter fun name => !Text.isBlank name := by
  have working : (k.checkingModule.opened o).query.workingElements = root.flatten := by
    have started := Query.workingElements_start modulesNode k.elements k.matching
    rw [elements, List.toList_toArray] at started
    rw [← started, ← elements]
    rfl
  have under (path : String) : (k.checkingModule.opened o).query.isUnder path moduleEntries =
      Matching.segment.isUnder path moduleEntries := by
    rw [← segment]
    rfl
  rw [Value.getDotted?_eq_at?] at found
  have path : (Position.ofDotted moduleEntries).path = moduleEntries :=
    Position.path_ofDotted (Value.isPlain_of_at? distinct plain found)
  have below := Value.filter_isUnder_flatten distinct plain (Position.ofDotted_ne_nil _) found
  rw [path] at below
  rw [ModuleQuery.registeredNames_eq_filterMap, working]
  simp only [under, below, List.map_cons]
  exact Value.filterMap_registeredName? scalars moduleEntries

/-- In a document of plain keys, a dotted text leads to a value if and only if an element
has it as its path, and then to the value of this element. So a chain that has just been
opened checks the modules that the value at the entries of modules shows, in order. -/
theorem Checker.dotted_lookup_agrees (k : Checker) {root : Value}
    (elements : k.elements = root.flatten.toArray) (distinct : root.DistinctKeys)
    (plain : ∀ key ∈ root.keys, IsPlainKey key) :
    (∀ d : String, '[' ∉ d.toList →
      (∀ v, root.getDotted? d = some v ↔ ⟨d, v⟩ ∈ root.flatten) ∧
      (root.getDotted? d = none ↔ ∀ e ∈ root.flatten, e.path ≠ d)) ∧
    (k.matching = .segment → ∀ (o : Opening) (v : Value),
      root.getDotted? "modules.module" = some v →
      (∀ item ∈ v.items, item.isContainer = false) →
      let names := (v.items.filterMap Value.form?).filter fun name => !Text.isBlank name
      (k.checkingModule.opened o).check .allRegisteredModulesExist =
        .ok (names.foldl ModuleQuery.checkModule (k.checkingModule.opened o)) ∧
      (names.foldl ModuleQuery.checkModule (k.checkingModule.opened o)).asked =
        names.flatMap (k.files.questionsOn k.descriptor)) := by
  constructor
  · intro d free
    have agree := Value.getDotted?_eq_some_iff distinct plain free
    refine ⟨agree, ?_⟩
    rw [Option.eq_none_iff_forall_ne_some]
    constructor
    · rintro none ⟨path, v⟩ mem rfl
      exact none v ((agree v).2 mem)
    · intro absent v found
      exact absent _ ((agree v).1 found) rfl
  · intro segment o v found scalars names
    have registered := k.registeredNames_opened elements distinct plain segment o found scalars
    have checked := (k.checkingModule.opened o).check_allRegistered
    have asked := (k.checkingModule.opened o).check_allRegistered_asked
    rw [registered] at checked asked
    exact ⟨checked, asked⟩

/-- A list of modules with a blank and a null, and a number for a name. -/
theorem Checker.dotted_lookup_agrees_on_modules :
    let root := Value.object [("modules", .object [("module",
      .array [.text "a", .null, .text " ", .number (.integer 7)])])]
    let k : Checker :=
      ⟨root.flatten.toArray, .segment, ⟨fun _ => false, (· == "a")⟩, "pom.xml"⟩
    root.DistinctKeys ∧ (∀ key ∈ root.keys, IsPlainKey key) ∧
    (∃ v, root.getDotted? "modules.module" = some v ∧ ∀ item ∈ v.items, item.isContainer = false) ∧
    (root.getDotted? "modules.module." = none ↔ ∀ e ∈ root.flatten, e.path ≠ "modules.module.") ∧
    ∃ n, (k.checkingModule.opened .should).check .allRegisteredModulesExist = .ok n ∧
      n.asked = [.directory "a", .directory "7", .present "7/pom.xml"] := by
  intro root k
  have distinct : root.DistinctKeys := by
    simp [root, Value.DistinctKeys, Value.EntriesDistinct, Value.ItemsDistinct]
  have plain : ∀ key ∈ root.keys, IsPlainKey key := by decide
  have found : root.getDotted? "modules.module" =
      some (.array [.text "a", .null, .text " ", .number (.integer 7)]) := by rfl
  have scalars : ∀ item ∈ (Value.array [.text "a", .null, .text " ", .number (.integer 7)]).items,
      item.isContainer = false := by
    simp [Value.items, Value.isContainer, Value.isObject, Value.isArray]
  obtain ⟨lookUps, checks⟩ := k.dotted_lookup_agrees rfl distinct plain
  obtain ⟨checked, asked⟩ := checks rfl .should _ found scalars
  exact ⟨distinct, plain, ⟨_, found, scalars⟩, (lookUps "modules.module." (by decide)).2, _,
    checked, asked.trans (by decide +kernel)⟩

end DescriptorCheck
