import DescriptorCheck.Proofs.Check.Executions

set_option autoImplicit false

/-! A check of an execution leaves nothing but executions in the working set, and nothing puts
their plugins back. So a later check of an execution finds no plugin to start from. -/
namespace DescriptorCheck

namespace Build

/-- The path ends like that of an execution: in the keys of executions, or in these and
digits in brackets, of which there may be none. -/
def IsExecutionPath (path : String) : Prop :=
  ∃ owner index, path.toList = owner ++ ".executions.execution".toList ++ index ∧
    (index = [] ∨ ∃ digits, (∀ c ∈ digits, c.isDigit = true) ∧ index = '[' :: digits ++ [']'])

theorem isExecutionPath_iff (path : String) :
    IsExecutionPath path ↔ (executionOwner? path).isSome = true := by
  rw [Option.isSome_iff_exists]
  constructor
  · rintro ⟨owner, index, whole, ends⟩
    have stripped : stripIndexChars? path.toList = some (owner ++ executionsEnding.toList) := by
      rw [whole]
      rcases ends with rfl | ⟨digits, all, rfl⟩
      · rw [List.append_nil]
        exact stripIndexChars?_of_not_bracket (by simp)
      · have brackets := stripIndexChars?_brackets (owner ++ executionsEnding.toList) all
        rwa [List.append_assoc _ ['[']] at brackets
    refine ⟨String.ofList owner, ?_⟩
    rw [executionOwner?, stripIndex?, stripped, Option.map_some, Option.bind_some,
      Text.stripEnding?, String.toList_ofList, List.isSuffixOf?_eq_some_iff_append_eq.2 rfl,
      Option.map_some]
  · rintro ⟨owner, owned⟩
    obtain ⟨entry, stripped, cut⟩ := Option.bind_eq_some_iff.1 owned
    obtain ⟨head, taken, rfl⟩ := Option.map_eq_some_iff.1 stripped
    obtain ⟨front, ending, -⟩ := Option.map_eq_some_iff.1 cut
    rw [String.toList_ofList, List.isSuffixOf?_eq_some_iff_append_eq] at ending
    rcases eq_or_exists_of_stripIndexChars? taken with rfl | ⟨digits, all, whole⟩
    · exact ⟨front, [], by rw [List.append_nil, ← ending]; rfl, .inl rfl⟩
    · refine ⟨front, '[' :: digits ++ [']'], ?_, .inr ⟨digits, all, rfl⟩⟩
      rw [whole, ← ending]
      simp [executionsEnding]

instance (path : String) : Decidable (IsExecutionPath path) :=
  decidable_of_iff _ (isExecutionPath_iff path).symm

end Build

namespace Predicate

def isExecution : Predicate → Bool
  | execution _ _ _ => true
  | _ => false

theorem exists_of_isExecution {p : Predicate} (asked : p.isExecution = true) :
    ∃ artifactId phase goal, p = execution artifactId phase goal := by
  cases p with
  | execution artifactId phase goal => exact ⟨artifactId, phase, goal, rfl⟩
  | tag _ | contains _ | equals _ | property _ | dependency _ _ => cases asked

end Predicate

namespace Query

/-- All that is left lies where a plugin has its executions. -/
def HoldsExecutions (q : Query) : Prop := ∀ e ∈ q.workingElements, Build.IsExecutionPath e.path

/-- No execution is named like a plugin. -/
def NoExecutionNamed (elements : Array Element) : Prop :=
  ∀ e ∈ elements, Build.IsExecutionPath e.path → e.value.get? "artifactId" = none

theorem mem_elements_of_mem_workingElements {q : Query} {e : Element}
    (mem : e ∈ q.workingElements) : e ∈ q.elements := by
  obtain ⟨i, -, here⟩ := List.mem_filterMap.1 mem
  exact Array.mem_of_getElem? here

theorem holdsExecutions_advance_execution (q : Query) (artifactId phase goal : String) :
    (q.advance (.execution artifactId phase goal)).HoldsExecutions := by
  intro e mem
  rw [workingElements_advance] at mem
  have accepted := (List.mem_filter.1 mem).2
  simp only [Predicate.accepts, Bool.and_eq_true] at accepted
  rw [Build.isExecutionPath_iff]
  cases owner : Build.executionOwner? e.path with
  | none => simp [owner] at accepted
  | some _ => rfl

theorem HoldsExecutions.advance {q : Query} (held : q.HoldsExecutions) (p : Predicate) :
    (q.advance p).HoldsExecutions := by
  intro e mem
  rw [workingElements_advance] at mem
  exact held e (List.mem_of_mem_filter mem)

theorem HoldsExecutions.advanceAll {q : Query} (held : q.HoldsExecutions) (ps : List Predicate) :
    (q.advanceAll ps).HoldsExecutions := by
  induction ps generalizing q with
  | nil => exact held
  | cons p rest ih => exact ih (held.advance p)

theorem holdsExecutions_advanceAll {q : Query} {ps : List Predicate} {p : Predicate}
    (mem : p ∈ ps) (asked : p.isExecution = true) : (q.advanceAll ps).HoldsExecutions := by
  obtain ⟨artifactId, phase, goal, rfl⟩ := Predicate.exists_of_isExecution asked
  obtain ⟨front, rest, rfl⟩ := List.append_of_mem mem
  have found := (q.advanceAll front).holdsExecutions_advance_execution artifactId phase goal
  rw [advanceAll_append]
  exact found.advanceAll rest

section Unnamed

variable {q : Query} (unnamed : NoExecutionNamed q.elements) (held : q.HoldsExecutions)

include unnamed held

theorem pluginPaths_eq_nil (artifactId : String) : Predicate.pluginPaths q artifactId = [] := by
  rw [Predicate.pluginPaths, List.map_eq_nil_iff, List.filter_eq_nil_iff]
  intro e mem
  simp [Build.hasField, unnamed e (mem_elements_of_mem_workingElements mem) (held e mem)]

theorem advance_execution_eq_nil (artifactId phase goal : String) :
    (q.advance (.execution artifactId phase goal)).working = [] := by
  change q.select _ = []
  rw [select, List.filter_eq_nil_iff]
  intro i _
  cases q.elements[i]? with
  | none => simp
  | some e =>
    cases owner : Build.executionOwner? e.path <;>
      simp [Predicate.accepts, pluginPaths_eq_nil unnamed held, owner]

theorem advanceAll_execution_eq_nil {ps : List Predicate} {p : Predicate} (mem : p ∈ ps)
    (asked : p.isExecution = true) : (q.advanceAll ps).working = [] := by
  obtain ⟨artifactId, phase, goal, rfl⟩ := Predicate.exists_of_isExecution asked
  obtain ⟨front, rest, rfl⟩ := List.append_of_mem mem
  rw [advanceAll_append]
  refine advanceAll_eq_nil ?_ rest
  have elements := q.elements_advanceAll front
  exact advance_execution_eq_nil (elements ▸ unnamed) (held.advanceAll front) artifactId phase goal

end Unnamed

/-- The first of two checks leaves executions only, and the second finds no plugin among them. -/
theorem advanceAll_eq_nil_of_two {q : Query} (unnamed : NoExecutionNamed q.elements)
    {ps : List Predicate} (two : 1 < ps.countP Predicate.isExecution) :
    (q.advanceAll ps).working = [] := by
  induction ps generalizing q with
  | nil => exact absurd two (Nat.not_lt_zero 1)
  | cons p rest ih =>
    rw [List.countP_cons] at two
    by_cases asked : p.isExecution = true
    · rw [if_pos asked] at two
      obtain ⟨later, mem, again⟩ := List.countP_pos_iff.1 (Nat.lt_of_succ_lt_succ two)
      have held : (q.advance p).HoldsExecutions :=
        holdsExecutions_advanceAll (List.mem_singleton_self p) asked
      exact advanceAll_execution_eq_nil (q := q.advance p) unnamed held mem again
    · rw [if_neg asked] at two
      exact ih unnamed two

end Query

namespace Checker

theorem eq_of_run_ok {k : Checker} {node : String} {o : Opening} {c : Chain Predicate} {q : Query}
    (ran : ((k.checking node).opened o).run c = .ok q) :
    (∀ p ∈ c.predicates, p.IsSpelt) ∧
      q = Query.analyzer.withContext ((k.checking node).advanceAll c.predicates)
        ⟨o.mode, .ofBlocks (Query.analyzer.blocks (k.checking node) o.mode c)⟩ := by
  have whole := ran
  rw [checking_opened] at ran
  have spelt := (Query.analyzer.refusal?_eq_none_iff c.predicates).1
    (Query.analyzer.reports_of_run_ok ran).1
  have outcome := (k.runQuery_eq (some node) o spelt).symm.trans whole
  exact ⟨spelt, (Except.ok.inj outcome).symm⟩

/-- One more predicate that selects nothing adds the block of what is missing where something
should hold, and no block where it should not. -/
theorem check_of_advance_eq_nil {s r : Query} {mode : Mode} {blocks : List (List String)}
    {p : Predicate} (empty : (s.advance p).working = [])
    (checked : (Query.analyzer.withContext s ⟨mode, .ofBlocks blocks⟩).check p = .ok r) :
    r.working = [] ∧ (mode = .affirm → ∃ report, r.verdict = .error report) ∧
      (mode = .negate → r.context = ⟨mode, .ofBlocks blocks⟩) := by
  have step := Query.analyzer.check_ofBlocks s p mode blocks
  have evaluations : Query.analyzer.evaluations s p = [s.evaluation p] := rfl
  change (Query.analyzer.withContext s ⟨mode, .ofBlocks blocks⟩).check p = _ at step
  rw [checked] at step
  split at step
  · cases step
  · obtain rfl := Except.ok.inj step
    refine ⟨empty, ?_, ?_⟩
    · rintro rfl
      refine ⟨_, (Findings.verdict_ofBlocks _).trans (if_neg ?_)⟩
      simp [evaluations, Query.block?_evaluation, empty]
    · rintro rfl
      simp [Query.block?_evaluation, empty, Query.analyzer]

end Checker

/-- A chain in which a check of an execution was evaluated, in a document that names no
execution like a plugin. Every further check of an execution selects nothing. So where
something should hold, a chain with two such checks fails, and where something should not,
the further check leaves the findings as they are. -/
theorem Checker.later_execution_finds_nothing (k : Checker)
    (unnamed : ∀ e ∈ k.elements, Build.IsExecutionPath e.path → e.value.get? "artifactId" = none)
    (node : String) :
    (∀ (o : Opening) (before : Chain Predicate) (q : Query),
      (∃ p ∈ before.predicates, p.isExecution = true) →
      ((k.checking node).opened o).run before = .ok q →
      ∀ j artifactId phase goal,
        ((Predicate.execution artifactId phase goal).IsSpelt →
          ∃ r, (q.joined j).check (.execution artifactId phase goal) = .ok r) ∧
        ∀ r, (q.joined j).check (.execution artifactId phase goal) = .ok r →
          r.working = [] ∧ (o = .should → ∃ report, r.verdict = .error report) ∧
            (o = .shouldNot → r.context = (q.joined j).context)) ∧
    ∀ (c : Chain Predicate) (r : Query), 1 < c.predicates.countP Predicate.isExecution →
      ((k.checking node).opened .should).run c = .ok r → ∃ report, r.verdict = .error report := by
  constructor
  · intro o before q ⟨earlier, mem, asked⟩ ran j artifactId phase goal
    obtain ⟨-, rfl⟩ := eq_of_run_ok ran
    have unnamed : Query.NoExecutionNamed
        ((k.checking node).advanceAll before.predicates).elements := by
      rw [Query.elements_advanceAll]
      exact unnamed
    -- Executions are all that is left, and no plugin is among them.
    have empty := Query.advance_execution_eq_nil unnamed
      (Query.holdsExecutions_advanceAll mem asked) artifactId phase goal
    have joined (s : Query) (blocks : List (List String)) :
        (Query.analyzer.withContext s ⟨o.mode, .ofBlocks blocks⟩).joined j =
          Query.analyzer.withContext s
            ⟨o.mode, .ofBlocks (if o.mode = .negate ∧ j = .and then [] else blocks)⟩ :=
      congrArg (Query.analyzer.withContext s) (Context.joined_ofBlocks o.mode blocks j)
    rw [joined]
    refine ⟨?_, ?_⟩
    · intro spelt
      exact ⟨_, (Query.check_eq_ok_iff _ _ _).2
        ⟨(BlankArgument.first?_eq_none_iff _).2 spelt, rfl⟩⟩
    · intro r checked
      obtain ⟨left, failed, silent⟩ := check_of_advance_eq_nil empty checked
      refine ⟨left, ?_, ?_⟩
      · rintro rfl
        exact failed rfl
      · rintro rfl
        exact silent rfl
  · intro c r two ran
    obtain ⟨spelt, -⟩ := eq_of_run_ok ran
    obtain ⟨q, ran', -, -, verdict⟩ := k.runQuery_outcome (some node) .should spelt
    obtain rfl := Except.ok.inj (ran.symm.trans ran')
    have empty := Query.advanceAll_eq_nil_of_two (q := k.checking node) unnamed two
    cases passed : r.verdict with
    | error report => exact ⟨report, rfl⟩
    | ok _ => exact absurd empty (verdict.1 passed)

/-- A plugin runs a goal in two phases. Both checks pass alone and fail in one chain. -/
theorem Checker.later_execution_finds_nothing_on_phases :
    let k : Checker :=
      ⟨pluginDocument.flatten.toArray, .segment, ⟨fun _ => false, fun _ => false⟩, "pom.xml"⟩
    let inTest := Predicate.execution "jar" "test" "g"
    let inSite := Predicate.execution "jar" "site" "g"
    (∀ e ∈ k.elements, Build.IsExecutionPath e.path → e.value.get? "artifactId" = none) ∧
    (∀ p ∈ [inTest, inSite], ∃ q, ((k.checking "plugin").opened .should).run (.first p) = .ok q ∧
      q.verdict = .ok ()) ∧
    ∃ r report, ((k.checking "plugin").opened .should).run
      (.next (.first inTest) .and inSite) = .ok r ∧ r.verdict = .error report := by
  intro k inTest inSite
  have unnamed : ∀ e ∈ k.elements, Build.IsExecutionPath e.path →
      e.value.get? "artifactId" = none := by
    have plugin : ∀ e ∈ k.elements, e.value.get? "artifactId" = none ∨ e.path = "plugin[0]" := by
      decide +kernel
    intro e mem path
    rcases plugin e mem with none | same
    · exact none
    · rw [same] at path
      exact absurd path (by decide)
  have alone : ∀ p ∈ [inTest, inSite],
      ∃ q, ((k.checking "plugin").opened .should).run (.first p) = .ok q ∧
        q.verdict = .ok () := by
    rw [List.forall_mem_cons, List.forall_mem_singleton]
    exact ⟨⟨_, rfl, by decide +kernel⟩, ⟨_, rfl, by decide +kernel⟩⟩
  have ran : ∃ r, ((k.checking "plugin").opened .should).run
      (.next (.first inTest) .and inSite) = .ok r := ⟨_, rfl⟩
  obtain ⟨r, ran⟩ := ran
  obtain ⟨report, failed⟩ :=
    (k.later_execution_finds_nothing unnamed "plugin").2 _ r (by decide) ran
  exact ⟨unnamed, alone, r, report, ran, failed⟩

end DescriptorCheck
