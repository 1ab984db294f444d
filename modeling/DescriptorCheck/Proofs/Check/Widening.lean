import DescriptorCheck.Proofs.Check.Negation
import DescriptorCheck.Proofs.Path.Nesting

set_option autoImplicit false

/-! The plugin predicate looks at the whole working set and is monotone all the same: what it
asks for is that a plugin is still there, and more elements leave more plugins. -/
namespace DescriptorCheck

/-- Every test on paths that accepts under the first matching and node accepts under
the second. -/
structure Narrower (m : Matching) (node : String) (m' : Matching) (node' : String) : Prop where
  under : ∀ path, m.isUnder path node = true → m'.isUnder path node' = true
  beside : ∀ path other, m.isUnder path other = true → m'.isUnder path other = true
  tag : ∀ path tag, m.endsWithTag path tag = true → m'.endsWithTag path tag = true

namespace Narrower

theorem of_literal (node : String) : Narrower .segment node .literal node where
  under _ := Matching.isUnder_literal_of_segment
  beside _ _ := Matching.isUnder_literal_of_segment
  tag _ _ := Matching.endsWithTag_literal_of_segment

theorem of_isUnder {m : Matching} {node outer : String} (within : m.isUnder node outer = true) :
    Narrower m node m outer where
  under _ inner := Matching.isUnder_trans inner within
  beside _ _ := id
  tag _ _ := id

end Narrower

namespace Query

/-- Two runs over the same elements, the first in a narrower scope and with less left. -/
structure Within (q r : Query) : Prop where
  elements : q.elements = r.elements
  scope : Narrower q.matching q.node r.matching r.node
  working : q.working.Sublist r.working

namespace Within

variable {q r : Query}

theorem inScope (within : Within q r) {path : String} (inside : q.inScope path = true) :
    r.inScope path = true :=
  within.scope.under path inside

theorem workingElements (within : Within q r) :
    q.workingElements.Sublist r.workingElements := by
  unfold Query.workingElements resolve
  rw [within.elements]
  exact within.working.filterMap _

theorem pluginPaths_subset (within : Within q r) (artifactId : String) :
    Predicate.pluginPaths q artifactId ⊆ Predicate.pluginPaths r artifactId := by
  unfold Predicate.pluginPaths
  refine List.map_subset _ ?_
  intro e mem
  simp only [List.mem_filter, Bool.and_eq_true] at mem ⊢
  obtain ⟨left, inside, named⟩ := mem
  exact ⟨within.workingElements.subset left, within.inScope inside, named⟩

theorem accepts (within : Within q r) (p : Predicate) (e : Element)
    (accepted : p.accepts q e = true) : p.accepts r e = true := by
  cases p with
  | tag name =>
    simp only [Predicate.accepts, Bool.and_eq_true] at accepted ⊢
    exact ⟨within.inScope accepted.1, within.scope.tag _ _ accepted.2⟩
  | contains _ | equals _ =>
    simp only [Predicate.accepts, Bool.and_eq_true] at accepted ⊢
    exact ⟨within.inScope accepted.1, accepted.2⟩
  | property name =>
    simp only [Predicate.accepts, Bool.and_eq_true] at accepted ⊢
    exact ⟨within.scope.beside _ _ accepted.1, accepted.2⟩
  | execution artifactId phase goal =>
    simp only [Predicate.accepts, Bool.and_eq_true] at accepted ⊢
    obtain ⟨⟨⟨inside, owned⟩, inPhase⟩, runs⟩ := accepted
    refine ⟨⟨⟨within.inScope inside, ?_⟩, inPhase⟩, runs⟩
    -- The owner was among the plugins left in the narrower run.
    cases owner : Build.executionOwner? e.path with
    | none => simp [owner] at owned
    | some path =>
      simp only [owner, List.contains_iff_mem] at owned ⊢
      exact within.pluginPaths_subset artifactId owned
  | dependency artifactId scope =>
    simp only [Predicate.accepts, Bool.and_eq_true] at accepted ⊢
    obtain ⟨⟨⟨inside, path⟩, named⟩, declared⟩ := accepted
    exact ⟨⟨⟨within.inScope inside, path⟩, named⟩, declared⟩

theorem select (within : Within q r) (p : Predicate) :
    (q.select (p.accepts q)).Sublist (r.select (p.accepts r)) := by
  unfold Query.select
  rw [within.elements]
  refine (List.monotone_filter_right q.working ?_).trans (within.working.filter _)
  intro i accepted
  cases at? : r.elements[i]? with
  | none => simp [at?] at accepted
  | some e =>
    simp only [at?] at accepted ⊢
    exact within.accepts p e accepted

theorem advance (within : Within q r) (p : Predicate) : Within (q.advance p) (r.advance p) where
  elements := within.elements
  scope := within.scope
  working := within.select p

theorem advanceAll (within : Within q r) (ps : List Predicate) :
    Within (q.advanceAll ps) (r.advanceAll ps) := by
  induction ps generalizing q r with
  | nil => exact within
  | cons p rest ih => exact ih (within.advance p)

theorem eq_nil (within : Within q r) (empty : r.working = []) : q.working = [] := by
  have left := within.working
  rw [empty] at left
  exact List.sublist_nil.1 left

end Within

end Query

/-- A chain in two scopes, of which the second is wider by its matching or its node.
What it leaves in the narrower one is left in the wider one, and as a beginning of a
chain is a chain, this holds after every predicate. So what should hold still holds
in the wider scope, and what should not, joined with `and`, in the narrower one. -/
theorem Checker.chain_in_wider_scope (k : Checker) {m m' : Matching} {node node' : String}
    (wider : (m = .segment ∧ m' = .literal ∧ node = node') ∨
      (m = m' ∧ m.isUnder node node' = true))
    (o : Opening) (c : Chain Predicate) (spelt : ∀ p ∈ c.predicates, p.IsSpelt) :
    ∃ q r, (k.withMatching m).runQuery (some node) o c = .ok q ∧
      (k.withMatching m').runQuery (some node') o c = .ok r ∧
      q.working.Sublist r.working ∧ q.workingElements.Sublist r.workingElements ∧
      (o = .should → q.verdict = .ok () → r.verdict = .ok ()) ∧
      (o = .shouldNot → (∀ j ∈ c.joints, j = .and) →
        r.verdict = .ok () → q.verdict = .ok ()) := by
  have scope : Narrower m node m' node' := by
    rcases wider with ⟨rfl, rfl, rfl⟩ | ⟨rfl, within⟩
    · exact .of_literal node
    · exact .of_isUnder within
  have started : Query.Within ((k.withMatching m).start (some node))
      ((k.withMatching m').start (some node')) := ⟨rfl, scope, List.Sublist.refl _⟩
  have ended := started.advanceAll c.predicates
  obtain ⟨q, ranq, workingq, elementsq, verdictq⟩ :=
    (k.withMatching m).runQuery_outcome (some node) o spelt
  obtain ⟨r, ranr, workingr, elementsr, verdictr⟩ :=
    (k.withMatching m').runQuery_outcome (some node') o spelt
  refine ⟨q, r, ranq, ranr, ?_, ?_, ?_, ?_⟩
  · rw [workingq, workingr]
    exact ended.working
  · rw [elementsq, elementsr]
    exact ended.workingElements
  · rintro rfl passed
    exact verdictr.2 fun empty => verdictq.1 passed (ended.eq_nil empty)
  · rintro rfl joined passed
    have all : c.predicates.take (c.beforeLastAnd + 1) = c.predicates := by
      rw [Chain.length_of_joined_and joined, List.take_length]
    rw [all] at verdictq verdictr
    exact verdictq.2 (ended.eq_nil (verdictr.1 passed))

/-- An execution with its plugin, below the plugin's node and below the empty one. -/
theorem Checker.chain_in_wider_scope_on_plugin :
    Matching.segment.isUnder "b.p" "" = true ∧
    ∃ q r, ((⟨#[⟨"b.p", .object [("artifactId", .text "x")]⟩,
          ⟨"b.p.executions.execution", .object [("phase", .text "test"),
            ("goals", .object [("goal", .text "run")])]⟩],
        .segment, ⟨fun _ => false, fun _ => false⟩, "pom.xml"⟩ : Checker).withMatching
          .segment).runQuery (some "b.p") .should (.first (.execution "x" "test" "run")) = .ok q ∧
      ((⟨#[⟨"b.p", .object [("artifactId", .text "x")]⟩,
          ⟨"b.p.executions.execution", .object [("phase", .text "test"),
            ("goals", .object [("goal", .text "run")])]⟩],
        .segment, ⟨fun _ => false, fun _ => false⟩, "pom.xml"⟩ : Checker).withMatching
          .segment).runQuery (some "") .should (.first (.execution "x" "test" "run")) = .ok r ∧
      q.working.Sublist r.working := by
  have outer : Matching.segment.isUnder "b.p" "" = true := by decide
  obtain ⟨q, r, ranq, ranr, working, -⟩ := chain_in_wider_scope
    ⟨#[⟨"b.p", .object [("artifactId", .text "x")]⟩,
        ⟨"b.p.executions.execution", .object [("phase", .text "test"),
          ("goals", .object [("goal", .text "run")])]⟩],
      .segment, ⟨fun _ => false, fun _ => false⟩, "pom.xml"⟩
    (.inr ⟨rfl, outer⟩) .should (.first (.execution "x" "test" "run")) (by decide)
  exact ⟨outer, q, r, ranq, ranr, working⟩

end DescriptorCheck
