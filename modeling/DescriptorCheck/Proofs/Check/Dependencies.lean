import DescriptorCheck.Proofs.Check.Places
import DescriptorCheck.Proofs.Path.Endings
import Mathlib.Logic.ExistsUnique

set_option autoImplicit false

namespace DescriptorCheck

/-- The text is the name of the scope, up to blanks around it and the case of letters. -/
def Scope.IsNamedBy (scope : Scope) (text : String) : Prop :=
  (Text.trimChars text.toList).map Char.toLower = scope.name.toList

instance (scope : Scope) (text : String) : Decidable (scope.IsNamedBy text) :=
  inferInstanceAs (Decidable (_ = _))

theorem Scope.name_injective {s t : Scope} (same : s.name = t.name) : s = t := by
  have read := congrArg ofName? same
  rw [ofName?_name, ofName?_name] at read
  exact Option.some.inj read

theorem Scope.IsNamedBy.eq {s t : Scope} {text : String} (first : s.IsNamedBy text)
    (second : t.IsNamedBy text) : s = t :=
  name_injective (String.toList_inj.1 (first.symm.trans second))

theorem Scope.ofName?_eq_some_iff (text : String) (scope : Scope) :
    ofName? text = some scope ↔ scope.IsNamedBy text := by
  unfold ofName? IsNamedBy
  constructor
  · intro found
    have named := List.find?_some found
    exact (beq_iff_eq.1 named).symm
  · intro same
    rw [same]
    cases scope <;> decide

namespace Value

/-- Nothing is at the position, or null is. -/
def IsUnsetAt (root : Value) (p : Position) : Prop := root.at? p = none ∨ root.at? p = some .null

theorem formAt?_eq_none_iff (root : Value) (p : Position) :
    root.formAt? p = none ↔ root.IsUnsetAt p := by
  unfold formAt? IsUnsetAt
  cases root.at? p with
  | none => simp
  | some v => simp [form?_eq_none_iff]

/-- The scope of the dependency at a position: the one that it names, or `compile`. -/
def DeclaresScope (root : Value) (p : Position) (scope : Scope) : Prop :=
  root.IsUnsetAt (p ++ [.key "scope"]) ∧ scope = .compile ∨
    ∃ text, root.formAt? (p ++ [.key "scope"]) = some text ∧ scope.IsNamedBy text

theorem DeclaresScope.eq {root : Value} {p : Position} {s t : Scope}
    (first : root.DeclaresScope p s) (second : root.DeclaresScope p t) : s = t := by
  have clash {text : String} (unset : root.IsUnsetAt (p ++ [.key "scope"]))
      (held : root.formAt? (p ++ [.key "scope"]) = some text) : s = t := by
    rw [(root.formAt?_eq_none_iff _).2 unset] at held
    cases held
  rcases first with ⟨unset, rfl⟩ | ⟨text, held, named⟩
  · rcases second with ⟨-, rfl⟩ | ⟨text, held, -⟩
    · rfl
    · exact clash unset held
  · rcases second with ⟨unset, -⟩ | ⟨other, held', named'⟩
    · exact clash unset held
    · obtain rfl : text = other := Option.some.inj (held.symm.trans held')
      exact named.eq named'

theorem declaredScope?_eq_some_iff {root v : Value} {p : Position} (here : root.at? p = some v)
    (scope : Scope) : Build.declaredScope? v = some scope ↔
      v.isObject = true ∧ root.DeclaresScope p scope := by
  have entry : (v.get? "scope").bind form? = root.formAt? (p ++ [.key "scope"]) := by
    rw [formAt?, at?_concat_key, here]
    rfl
  unfold Build.declaredScope? DeclaresScope
  rw [entry, ← formAt?_eq_none_iff]
  cases v.isObject with
  | false => simp
  | true =>
    cases root.formAt? (p ++ [.key "scope"]) with
    | none => simp [Scope.undeclared, eq_comm]
    | some text => simp [Scope.ofName?_eq_some_iff]

theorem exists_object {root v : Value} {p : Position} (here : root.at? p = some v)
    (object : v.isObject = true) : ∃ entries, root.at? p = some (.object entries) := by
  cases v with
  | object entries => exact ⟨entries, here⟩
  | array _ | text _ | number _ | boolean _ | null => cases object

/-- A dependency on the artifact stands at the position, at or below the node. -/
structure HoldsDependency (root : Value) (m : Matching) (node artifactId : String) (p : Position) :
    Prop where
  isUnder : m.isUnder p.path node = true
  place : Build.IsDependencyPlace p
  object : ∃ entries, root.at? p = some (.object entries)
  artifact : root.formAt? (p ++ [.key "artifactId"]) = some artifactId

end Value

theorem Predicate.accepts_dependency_iff {root v : Value} {p : Position}
    (here : root.at? p = some v) (plain : p.IsPlain) (q : Query) (artifactId : String)
    (scope : Scope) : (dependency artifactId scope).accepts q ⟨p.path, v⟩ = true ↔
      q.inScope p.path = true ∧ Build.IsDependencyPlace p ∧
        root.formAt? (p ++ [.key "artifactId"]) = some artifactId ∧
        v.isObject = true ∧ root.DeclaresScope p scope := by
  simp only [accepts, Bool.and_eq_true, beq_iff_eq, and_assoc,
    Build.isDependencyPath_path_iff plain, Value.hasField_iff here,
    Value.declaredScope?_eq_some_iff here]

namespace Checker

variable (k : Checker) {root : Value} (elements : k.elements = root.flatten.toArray)
  (distinct : root.DistinctKeys) (plain : ∀ key ∈ root.keys, IsPlainKey key) {node : String}
  {q : Query} (reached : Reaches Query.perform (k.checking node) q) {artifactId : String}
  (spelt : Text.isBlank artifactId = false)

include elements distinct plain reached spelt in
theorem check_dependency_keeps (scope : Scope) :
    ∃ r, q.check (.dependency artifactId scope) = .ok r ∧ r.working.Sublist q.working ∧
      ∀ x, x ∈ r.placesIn root ↔ x ∈ q.placesIn root ∧
        root.HoldsDependency k.matching node artifactId x ∧ root.DeclaresScope x scope := by
  obtain ⟨r, checked, narrowed, kept⟩ := k.check_keeps_places elements distinct reached
    (p := .dependency artifactId scope) (by simp [Predicate.IsSpelt, Predicate.arguments, spelt])
  refine ⟨r, checked, narrowed, fun x => ?_⟩
  rw [kept x]
  refine and_congr_right fun mem => ?_
  have plainPlace := Value.isPlain_of_mem_positions plain (Query.mem_positions_of_mem_placesIn mem)
  constructor
  · rintro ⟨v, here, accepted⟩
    rw [Predicate.accepts_dependency_iff here plainPlace, inScope_eq reached] at accepted
    obtain ⟨under, place, artifact, object, declared⟩ := accepted
    exact ⟨⟨under, place, Value.exists_object here object, artifact⟩, declared⟩
  · rintro ⟨⟨under, place, ⟨entries, here⟩, artifact⟩, declared⟩
    refine ⟨_, here, ?_⟩
    rw [Predicate.accepts_dependency_iff here plainPlace, inScope_eq reached]
    exact ⟨under, place, artifact, rfl, declared⟩

end Checker

/-- Each scope selects the dependencies that have it. One that declares no scope is selected
by `compile` alone, and one that names none of the four by none. -/
theorem Checker.dependency_selects (k : Checker) {root : Value}
    (elements : k.elements = root.flatten.toArray) (distinct : root.DistinctKeys)
    (plain : ∀ key ∈ root.keys, IsPlainKey key) {node : String} {q : Query}
    (reached : Reaches Query.perform (k.checking node) q) {artifactId : String}
    (spelt : Text.isBlank artifactId = false) :
    ∃ r : Scope → Query,
      (∀ scope, q.check (.dependency artifactId scope) = .ok (r scope) ∧
        (r scope).working.Sublist q.working ∧
        ∀ x, x ∈ (r scope).placesIn root ↔ x ∈ q.placesIn root ∧
          root.HoldsDependency k.matching node artifactId x ∧ root.DeclaresScope x scope) ∧
      ∀ x ∈ q.placesIn root, root.HoldsDependency k.matching node artifactId x →
        (root.IsUnsetAt (x ++ [.key "scope"]) → ∃! scope, x ∈ (r scope).placesIn root) ∧
        ∀ text, root.formAt? (x ++ [.key "scope"]) = some text →
          ((∃ scope : Scope, scope.IsNamedBy text) → ∃! scope, x ∈ (r scope).placesIn root) ∧
          ((∀ scope : Scope, ¬ scope.IsNamedBy text) → ∀ scope, x ∉ (r scope).placesIn root) := by
  choose r selects using k.check_dependency_keeps elements distinct plain reached spelt
  have selected {x : Position} (mem : x ∈ q.placesIn root)
      (held : root.HoldsDependency k.matching node artifactId x) (scope : Scope) :
      x ∈ (r scope).placesIn root ↔ root.DeclaresScope x scope := by
    rw [(selects scope).2.2 x]
    exact ⟨fun kept => kept.2.2, fun declared => ⟨mem, held, declared⟩⟩
  have unique {x : Position} (mem : x ∈ q.placesIn root)
      (held : root.HoldsDependency k.matching node artifactId x) {scope : Scope}
      (declared : root.DeclaresScope x scope) : ∃! scope, x ∈ (r scope).placesIn root := by
    refine ⟨scope, (selected mem held scope).2 declared, fun other kept => ?_⟩
    exact ((selected mem held other).1 kept).eq declared
  refine ⟨r, selects, fun x mem held => ⟨fun unset => ?_, fun text form => ⟨?_, ?_⟩⟩⟩
  · exact unique mem held (.inl ⟨unset, rfl⟩)
  · rintro ⟨scope, named⟩
    exact unique mem held (.inr ⟨text, form, named⟩)
  · intro unknown scope kept
    rcases (selected mem held scope).1 kept with ⟨unset, -⟩ | ⟨other, form', named⟩
    · rw [(root.formAt?_eq_none_iff _).2 unset] at form
      cases form
    · obtain rfl : text = other := Option.some.inj (form.symm.trans form')
      exact unknown scope named

/-- Dependencies without a scope, with a known one and with an unknown one. -/
def dependencyDocument : Value :=
  .object [("dependency", .array [
    .object [("artifactId", .text "a"),
      ("exclusions", .object [("exclusion", .object [("artifactId", .text "a")])])],
    .object [("artifactId", .text "a"), ("scope", .text " TEST ")],
    .object [("artifactId", .text "a"), ("scope", .text "system")]])]

theorem Checker.dependency_selects_on_scopes :
    ∃ (q : Query) (r : Scope → Query),
      Reaches Query.perform ((⟨dependencyDocument.flatten.toArray, .literal,
        ⟨fun _ => false, fun _ => false⟩, "pom.xml"⟩ : Checker).checking "dep") q ∧
      (∀ scope, q.check (.dependency "a" scope) = .ok (r scope)) ∧
      [.key "dependency", .index 0] ∈ (r .compile).placesIn dependencyDocument ∧
      (∃! scope, [.key "dependency", .index 1] ∈ (r scope).placesIn dependencyDocument) ∧
      ∀ scope, [.key "dependency", .index 2] ∉ (r scope).placesIn dependencyDocument := by
  have distinct : dependencyDocument.DistinctKeys := by
    simp [dependencyDocument, Value.DistinctKeys, Value.EntriesDistinct, Value.ItemsDistinct]
  have reached : Reaches Query.perform ((⟨dependencyDocument.flatten.toArray, .literal,
      ⟨fun _ => false, fun _ => false⟩, "pom.xml"⟩ : Checker).checking "dep") _ :=
    .move (.predicate (.tag "]")) (.move (.opening .shouldNot) .start rfl) rfl
  have spelt : Text.isBlank "a" = false := by decide
  obtain ⟨r, selects, unique⟩ := dependency_selects _ rfl distinct (by decide) reached spelt
  have none : dependencyDocument.HoldsDependency .literal "dep" "a"
      [.key "dependency", .index 0] := ⟨by decide, ⟨[], .inr ⟨0, rfl⟩⟩, ⟨_, rfl⟩, by decide⟩
  have known : dependencyDocument.HoldsDependency .literal "dep" "a"
      [.key "dependency", .index 1] := ⟨by decide, ⟨[], .inr ⟨1, rfl⟩⟩, ⟨_, rfl⟩, by decide⟩
  have other : dependencyDocument.HoldsDependency .literal "dep" "a"
      [.key "dependency", .index 2] := ⟨by decide, ⟨[], .inr ⟨2, rfl⟩⟩, ⟨_, rfl⟩, by decide⟩
  refine ⟨_, r, reached, fun scope => (selects scope).1, ?_, ?_, ?_⟩
  · exact ((selects .compile).2.2 _).2 ⟨by decide +kernel, none, .inl ⟨.inl rfl, rfl⟩⟩
  · exact ((unique _ (by decide +kernel) known).2 " TEST " (by decide)).1 ⟨.test, by decide⟩
  · have unknown : ∀ scope : Scope, ¬ scope.IsNamedBy "system" := by
      intro scope
      cases scope <;> decide
    exact ((unique _ (by decide +kernel) other).2 "system" (by decide)).2 unknown

end DescriptorCheck
