import DescriptorCheck.Proofs.Check.Negation
import Mathlib.Logic.Basic

set_option autoImplicit false

namespace DescriptorCheck

namespace Predicate

def isPointwise : Predicate → Bool
  | execution _ _ _ => false
  | _ => true

/-- Which elements a pointwise predicate admits below a node. -/
def admits (matching : Matching) (node : String) : Predicate → Element → Bool
  | tag name, e => matching.isUnder e.path node && matching.endsWithTag e.path name
  | contains text, e =>
    matching.isUnder e.path node && e.value.form?.any fun form => Text.contains form text
  | equals text, e => matching.isUnder e.path node && e.value.form? == some text
  | property name, e =>
    matching.isUnder e.path Build.propertiesNode && Text.contains e.path name
  | execution _ _ _, _ => false
  | dependency artifactId scope, e =>
    matching.isUnder e.path node && Build.isDependencyPath e.path
      && Build.hasField e.value "artifactId" artifactId
      && Build.declaredScope? e.value == some scope

theorem accepts_eq_admits (q : Query) {p : Predicate} (pointwise : p.isPointwise = true) :
    p.accepts q = p.admits q.matching q.node := by
  funext e
  cases p with
  | contains text =>
    simp only [accepts, admits]
    cases e.value.form? <;> rfl
  | execution _ _ _ => exact absurd pointwise Bool.false_ne_true
  | tag _ | equals _ | property _ | dependency _ _ => rfl

end Predicate

namespace Query

/-- Every index in the working set is that of an element. -/
def InRange (q : Query) : Prop := ∀ i ∈ q.working, i < q.elements.size

theorem inRange_start (node : String) (elements : Array Element) (matching : Matching) :
    (start node elements matching).InRange := fun _ mem => List.mem_range.1 mem

theorem workingElements_eq_nil_iff {q : Query} (inRange : q.InRange) :
    q.workingElements = [] ↔ q.working = [] := by
  unfold workingElements resolve
  constructor
  · intro empty
    refine List.eq_nil_iff_forall_not_mem.2 fun i mem => ?_
    have absent := List.filterMap_eq_nil_iff.1 empty i mem
    have present := Array.getElem?_eq_getElem (inRange i mem)
    simp [present] at absent
  · intro empty
    rw [empty]
    rfl

theorem workingElements_start (node : String) (elements : Array Element) (matching : Matching) :
    (start node elements matching).workingElements = elements.toList := by
  change (List.range elements.size).filterMap (elements[·]?) = elements.toList
  rw [← Array.length_toList]
  simp only [← Array.getElem?_toList]
  induction elements.toList with
  | nil => rfl
  | cons e rest ih =>
    rw [List.length_cons, List.range_succ_eq_map, List.filterMap_cons, List.filterMap_map]
    exact congrArg (e :: ·) ih

theorem workingElements_advanceAll (q : Query) {ps : List Predicate}
    (pointwise : ∀ p ∈ ps, p.isPointwise = true) :
    (q.advanceAll ps).workingElements =
      q.workingElements.filter fun e => ps.all fun p => p.admits q.matching q.node e := by
  induction ps generalizing q with
  | nil => exact (List.filter_eq_self.2 fun _ _ => rfl).symm
  | cons p rest ih =>
    have kept := ih (q.advance p) fun p mem => pointwise p (List.mem_cons_of_mem _ mem)
    rw [advanceAll_cons, kept, workingElements_advance, List.filter_filter,
      Predicate.accepts_eq_admits q (pointwise p List.mem_cons_self)]
    simp only [List.all_cons, Bool.and_comm]
    rfl

theorem inRange_advanceAll {q : Query} (inRange : q.InRange) (ps : List Predicate) :
    (q.advanceAll ps).InRange := by
  intro i mem
  rw [elements_advanceAll]
  exact inRange i ((q.advanceAll_sublist ps).subset mem)

end Query

namespace Checker

theorem start_eq (k : Checker) (given : Option String) :
    k.start given = .start (given.getD modulesNode) k.elements k.matching := by
  cases given <;> rfl

theorem working_ne_nil_iff (k : Checker) (given : Option String) (ps : List Predicate)
    (pointwise : ∀ p ∈ ps, p.isPointwise = true) :
    ((k.start given).advanceAll ps).working ≠ [] ↔
      ∃ e ∈ k.elements.toList, ∀ p ∈ ps,
        p.admits k.matching (given.getD modulesNode) e = true := by
  have inRange : (k.start given).InRange := by
    rw [start_eq]
    exact Query.inRange_start _ _ _
  rw [Ne, ← Query.workingElements_eq_nil_iff (Query.inRange_advanceAll inRange ps),
    Query.workingElements_advanceAll _ pointwise, start_eq, Query.workingElements_start,
    List.filter_eq_nil_iff]
  simp [Query.start]

/-- The elements that a chain of pointwise predicates ends with, and when it passes. -/
theorem pointwise_outcome (k : Checker) (given : Option String) (o : Opening)
    (c : Chain Predicate) (pointwise : ∀ p ∈ c.predicates, p.isPointwise = true)
    (spelt : ∀ p ∈ c.predicates, p.IsSpelt) :
    ∃ q, k.runQuery given o c = .ok q ∧
      q.workingElements = k.elements.toList.filter (fun e =>
        c.predicates.all fun p => p.admits k.matching (given.getD modulesNode) e) ∧
      (q.verdict = .ok () ↔
        match o with
        | .should => ∃ e ∈ k.elements.toList, ∀ p ∈ c.predicates,
          p.admits k.matching (given.getD modulesNode) e = true
        | .shouldNot => ¬ ∃ e ∈ k.elements.toList,
          ∀ p ∈ c.predicates.take (c.beforeLastAnd + 1),
            p.admits k.matching (given.getD modulesNode) e = true) := by
  obtain ⟨q, ran, -, elements, verdict⟩ := k.runQuery_outcome given o spelt
  refine ⟨q, ran, ?_, verdict.trans ?_⟩
  · rw [elements, Query.workingElements_advanceAll _ pointwise, start_eq,
      Query.workingElements_start]
    rfl
  · cases o with
    | should => exact k.working_ne_nil_iff given c.predicates pointwise
    | shouldNot =>
      have front := k.working_ne_nil_iff given (c.predicates.take (c.beforeLastAnd + 1))
        fun p mem => pointwise p (List.mem_of_mem_take mem)
      exact (not_iff_comm.1 front).symm

/-- What a chain of pointwise predicates comes to. It ends with the elements that all
its predicates admit, in document order; as a beginning of a chain is a chain, this
tells the working set after every predicate. It passes if an element is left when
something should hold; when it should not, it fails if an element is admitted by
all predicates up to the first one behind the last `and`. Chains of the same
predicates therefore end with the same elements and, if both should hold or both are
joined with `and`, with the same outcome. -/
theorem pointwise_chain (k : Checker) (given : Option String) (o : Opening)
    (c : Chain Predicate) (pointwise : ∀ p ∈ c.predicates, p.isPointwise = true)
    (spelt : ∀ p ∈ c.predicates, p.IsSpelt) :
    ∃ q, k.runQuery given o c = .ok q ∧
      q.workingElements = k.elements.toList.filter (fun e =>
        c.predicates.all fun p => p.admits k.matching (given.getD modulesNode) e) ∧
      (o = .should → (q.verdict = .ok () ↔ ∃ e ∈ k.elements.toList, ∀ p ∈ c.predicates,
        p.admits k.matching (given.getD modulesNode) e = true)) ∧
      (o = .shouldNot → (q.verdict ≠ .ok () ↔ ∃ e ∈ k.elements.toList,
        ∀ p ∈ c.predicates.take (c.beforeLastAnd + 1),
          p.admits k.matching (given.getD modulesNode) e = true)) ∧
      ∀ d : Chain Predicate, (∀ p, p ∈ d.predicates ↔ p ∈ c.predicates) →
        ∃ r, k.runQuery given o d = .ok r ∧ r.workingElements = q.workingElements ∧
          (o = .should → (r.verdict = .ok () ↔ q.verdict = .ok ())) ∧
          (o = .shouldNot → (∀ j ∈ c.joints, j = .and) → (∀ j ∈ d.joints, j = .and) →
            (r.verdict = .ok () ↔ q.verdict = .ok ())) := by
  obtain ⟨q, ran, elements, verdict⟩ := k.pointwise_outcome given o c pointwise spelt
  refine ⟨q, ran, elements, ?_, ?_, ?_⟩
  · rintro rfl
    exact verdict
  · rintro rfl
    exact not_iff_comm.1 verdict.symm
  · intro d same
    obtain ⟨r, ran', elements', verdict'⟩ := k.pointwise_outcome given o d
      (fun p mem => pointwise p ((same p).1 mem)) (fun p mem => spelt p ((same p).1 mem))
    refine ⟨r, ran', ?_, ?_, ?_⟩
    · rw [elements, elements']
      refine List.filter_congr fun e _ => ?_
      rw [Bool.eq_iff_iff, List.all_eq_true, List.all_eq_true]
      simp only [same]
    · rintro rfl
      simp only [same] at verdict'
      exact verdict'.trans verdict.symm
    · rintro rfl joined joined'
      rw [Chain.length_of_joined_and joined, List.take_length] at verdict
      rw [Chain.length_of_joined_and joined', List.take_length] at verdict'
      simp only [same] at verdict'
      exact verdict'.trans verdict.symm

/-- A property is left by `tag` and `contains`, so forbidding both fails. -/
theorem pointwise_chain_on_property :
    ∃ q, (⟨#[⟨"properties", .object [("a", .text "1")]⟩, ⟨"properties.a", .text "1"⟩],
        .segment, ⟨fun _ => false, fun _ => false⟩, "pom.xml"⟩ : Checker).runQuery
          (some "properties") .shouldNot (.next (.first (.tag "a")) .or (.contains "1")) = .ok q ∧
      q.workingElements = [⟨"properties.a", .text "1"⟩] ∧ q.verdict ≠ .ok () := by
  obtain ⟨q, ran, elements, -, failed, -⟩ := pointwise_chain
    ⟨#[⟨"properties", .object [("a", .text "1")]⟩, ⟨"properties.a", .text "1"⟩],
      .segment, ⟨fun _ => false, fun _ => false⟩, "pom.xml"⟩
    (some "properties") .shouldNot (.next (.first (.tag "a")) .or (.contains "1"))
    (by decide) (by decide)
  refine ⟨q, ran, elements, (failed rfl).2 ⟨⟨"properties.a", .text "1"⟩, ?_, by decide⟩⟩
  exact List.mem_cons_of_mem _ List.mem_cons_self

end Checker

end DescriptorCheck
