import DescriptorCheck.Proofs.Check.Places
import DescriptorCheck.Proofs.Path.Endings

set_option autoImplicit false

namespace DescriptorCheck

namespace Value

/-- The value has an item with this form, as the one item or in a list. -/
def HasItem (v : Value) (form : String) : Prop := ∃ item ∈ v.items, item.form? = some form

theorem runsGoal_iff {root v : Value} {p : Position} (here : root.at? p = some v)
    (goal : String) : Build.runsGoal v goal = true ↔
      ∃ goals, root.at? (p ++ [.key "goals", .key "goal"]) = some goals ∧ goals.HasItem goal := by
  have split : Text.split '.' "goals.goal" = ["goals", "goal"] := by decide
  have found : v.getDotted? "goals.goal" = root.at? (p ++ [.key "goals", .key "goal"]) := by
    rw [← List.singleton_append, ← List.append_assoc, at?_concat_key, at?_concat_key, here,
      getDotted?, split]
    change ((v.get? "goals").bind fun w => (w.get? "goal").bind some) = _
    simp only [Option.bind_fun_some]
    rfl
  unfold Build.runsGoal
  rw [found]
  cases root.at? (p ++ [.key "goals", .key "goal"]) with
  | none => simp
  | some goals => simp [HasItem]

end Value

namespace Predicate

variable {q : Query} {root : Value} (elements : q.elements = root.flatten.toArray)
  (distinct : root.DistinctKeys) (plain : ∀ key ∈ root.keys, IsPlainKey key)

include elements distinct in
theorem mem_pluginPaths_iff (artifactId path : String) :
    path ∈ pluginPaths q artifactId ↔
      ∃ plugin ∈ q.placesIn root, plugin.path = path ∧ q.inScope path = true ∧
        root.formAt? (plugin ++ [.key "artifactId"]) = some artifactId := by
  unfold pluginPaths
  rw [List.mem_map]
  constructor
  · rintro ⟨e, kept, rfl⟩
    obtain ⟨working, accepted⟩ := List.mem_filter.1 kept
    obtain ⟨plugin, mem, path, value⟩ := (q.mem_workingElements_iff elements distinct e).1 working
    rw [Bool.and_eq_true, Value.hasField_iff value] at accepted
    exact ⟨plugin, mem, path, accepted⟩
  · rintro ⟨plugin, mem, rfl, scope, named⟩
    obtain ⟨v, value, -⟩ := Value.exists_of_formAt?_concat named
    have working := (q.mem_workingElements_iff elements distinct ⟨plugin.path, v⟩).2
      ⟨plugin, mem, rfl, value⟩
    refine ⟨⟨plugin.path, v⟩, List.mem_filter.2 ⟨working, ?_⟩, rfl⟩
    rw [Bool.and_eq_true, Value.hasField_iff value]
    exact ⟨scope, named⟩

include elements distinct plain in
/-- As no other position has the path text of the plugin, the plugin found by its text is the
one above the execution. -/
theorem owner_mem_pluginPaths_iff {x : Position} (plainPlace : x.IsPlain) (artifactId : String) :
    (∃ owner, Build.executionOwner? x.path = some owner ∧ owner ∈ pluginPaths q artifactId) ↔
      ∃ plugin : Position, plugin ≠ [] ∧ Build.IsExecutionOf plugin x ∧ plugin ∈ q.placesIn root ∧
        q.inScope plugin.path = true ∧
        root.formAt? (plugin ++ [.key "artifactId"]) = some artifactId := by
  constructor
  · rintro ⟨owner, found, mem⟩
    obtain ⟨plugin, below, rfl, above⟩ := (Build.executionOwner?_path_iff plainPlace owner).1 found
    obtain ⟨other, working, path, rest⟩ :=
      (mem_pluginPaths_iff elements distinct artifactId _).1 mem
    have plainOther := Value.isPlain_of_mem_positions plain
      (Query.mem_positions_of_mem_placesIn working)
    obtain rfl : other = plugin := Position.eq_of_path_eq plainOther (above.plain plainPlace) path
    exact ⟨other, below, above, working, rest⟩
  · rintro ⟨plugin, below, above, working, rest⟩
    exact ⟨plugin.path, (Build.executionOwner?_path_iff plainPlace _).2 ⟨plugin, below, rfl, above⟩,
      (mem_pluginPaths_iff elements distinct artifactId _).2 ⟨plugin, working, rfl, rest⟩⟩

include elements distinct plain in
theorem accepts_execution_iff {x : Position} {v : Value} (here : root.at? x = some v)
    (plainPlace : x.IsPlain) (artifactId phase goal : String) :
    (execution artifactId phase goal).accepts q ⟨x.path, v⟩ = true ↔
      q.inScope x.path = true ∧
      (∃ plugin : Position, plugin ≠ [] ∧ Build.IsExecutionOf plugin x ∧ plugin ∈ q.placesIn root ∧
        q.inScope plugin.path = true ∧
        root.formAt? (plugin ++ [.key "artifactId"]) = some artifactId) ∧
      root.formAt? (x ++ [.key "phase"]) = some phase ∧
      ∃ goals, root.at? (x ++ [.key "goals", .key "goal"]) = some goals ∧ goals.HasItem goal := by
  rw [← owner_mem_pluginPaths_iff elements distinct plain plainPlace, ← Value.hasField_iff here,
    ← Value.runsGoal_iff here]
  unfold accepts
  cases found : Build.executionOwner? x.path with
  | none => simp [found]
  | some owner => simp [found, and_assoc]

end Predicate

/-- The predicate on plugins selects the executions in scope of a plugin that is in scope and
still in the working set, by the tree and not by its path texts. -/
theorem Checker.execution_selects (k : Checker) {root : Value}
    (elements : k.elements = root.flatten.toArray) (distinct : root.DistinctKeys)
    (plain : ∀ key ∈ root.keys, IsPlainKey key) {node : String} {q : Query}
    (reached : Reaches Query.perform (k.checking node) q) {artifactId phase goal : String}
    (spelt : (Predicate.execution artifactId phase goal).IsSpelt) :
    ∃ r, q.check (.execution artifactId phase goal) = .ok r ∧ r.working.Sublist q.working ∧
      ∀ x, x ∈ r.placesIn root ↔
        x ∈ q.placesIn root ∧ k.matching.isUnder x.path node = true ∧
        (∃ plugin : Position, plugin ≠ [] ∧ Build.IsExecutionOf plugin x ∧
          plugin ∈ q.placesIn root ∧ k.matching.isUnder plugin.path node = true ∧
          root.formAt? (plugin ++ [.key "artifactId"]) = some artifactId) ∧
        root.formAt? (x ++ [.key "phase"]) = some phase ∧
        ∃ goals, root.at? (x ++ [.key "goals", .key "goal"]) = some goals ∧ goals.HasItem goal := by
  have whole : q.elements = root.flatten.toArray :=
    (Query.narrowsTo_of_reaches reached).elements.trans elements
  obtain ⟨r, checked, narrowed, kept⟩ := k.check_keeps_places elements distinct reached spelt
  refine ⟨r, checked, narrowed, fun x => ?_⟩
  rw [kept x]
  refine and_congr_right fun mem => ?_
  have plainPlace := Value.isPlain_of_mem_positions plain (Query.mem_positions_of_mem_placesIn mem)
  have accepts {v : Value} (here : root.at? x = some v) := Predicate.accepts_execution_iff whole
    distinct plain here plainPlace artifactId phase goal
  simp only [inScope_eq reached] at accepts
  constructor
  · rintro ⟨v, here, accepted⟩
    exact (accepts here).1 accepted
  · intro accepted
    obtain ⟨v, here, -⟩ := Value.exists_of_formAt?_concat accepted.2.2.1
    exact ⟨v, here, (accepts here).2 accepted⟩

def pluginDocument : Value :=
  .object [("plugin", .array [.object [("artifactId", .text "jar"),
    ("executions", .object [("execution", .array [
      .object [("phase", .text "test"),
        ("goals", .object [("goal", .array [.text "f", .text "g"])])],
      .object [("phase", .text "site"), ("goals", .object [("goal", .text "g")])]])])]])]

/-- Only items of lists are left in the working set, and the plugin is one. -/
theorem Checker.execution_selects_on_list :
    ∃ q r, Reaches Query.perform ((⟨pluginDocument.flatten.toArray, .literal,
        ⟨fun _ => false, fun _ => false⟩, "pom.xml"⟩ : Checker).checking "plugin") q ∧
      q.check (.execution "jar" "test" "g") = .ok r ∧
      [.key "plugin", .index 0, .key "executions", .key "execution", .index 0] ∈
        r.placesIn pluginDocument ∧
      [.key "plugin", .index 0, .key "executions", .key "execution", .index 1] ∉
        r.placesIn pluginDocument := by
  have distinct : pluginDocument.DistinctKeys := by
    simp [pluginDocument, Value.DistinctKeys, Value.EntriesDistinct, Value.ItemsDistinct]
  have reached : Reaches Query.perform ((⟨pluginDocument.flatten.toArray, .literal,
      ⟨fun _ => false, fun _ => false⟩, "pom.xml"⟩ : Checker).checking "plugin") _ :=
    .move (.predicate (.tag "]")) (.move (.opening .shouldNot) .start rfl) rfl
  have spelt : (Predicate.execution "jar" "test" "g").IsSpelt := by decide
  obtain ⟨r, checked, -, selected⟩ := execution_selects _ rfl distinct (by decide) reached spelt
  refine ⟨_, r, reached, checked,
    (selected _).2 ⟨by decide +kernel, by decide, ?_, by decide, ?_⟩, ?_⟩
  · exact ⟨[.key "plugin", .index 0], by decide, .inr ⟨0, rfl⟩, by decide +kernel, by decide,
      by decide⟩
  · exact ⟨_, rfl, .text "g", by simp [Value.items], by decide⟩
  · intro other
    exact absurd ((selected _).1 other).2.2.2.1 (by decide)

end DescriptorCheck
