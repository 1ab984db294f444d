import DescriptorCheck.Proofs.Check.Pointwise
import DescriptorCheck.Proofs.Path.Equality

set_option autoImplicit false

namespace DescriptorCheck

theorem UpToOrder.filter {α β : Type} {related : α → β → Prop} {xs : List α} {ys : List β}
    (matched : UpToOrder related xs ys) {p : α → Bool} {q : β → Bool}
    (agree : ∀ x y, related x y → p x = q y) :
    UpToOrder related (xs.filter p) (ys.filter q) := by
  have kept {s : Multiset α} {t : Multiset β} (matched : Multiset.Rel related s t) :
      Multiset.Rel related (s.filter (p ·)) (t.filter (q ·)) := by
    induction matched with
    | zero => exact .zero
    | @cons x y s t here _ ih =>
      have same := agree x y here
      by_cases accepted : p x = true
      · rw [Multiset.filter_cons_of_pos s accepted,
          Multiset.filter_cons_of_pos t (same ▸ accepted)]
        exact .cons here ih
      · rw [Multiset.filter_cons_of_neg s accepted,
          Multiset.filter_cons_of_neg t (same ▸ accepted)]
        exact ih
  simpa using kept matched

namespace Predicate

/-- True of the predicates that look at the paths of elements and not at their values. -/
def readsPath : Predicate → Bool
  | tag _ => true
  | property _ => true
  | _ => false

theorem isPointwise_of_readsPath {p : Predicate} (paths : p.readsPath = true) :
    p.isPointwise = true := by
  cases p with
  | tag _ | property _ => rfl
  | contains _ | equals _ | execution _ _ _ | dependency _ _ =>
    exact absurd paths Bool.false_ne_true

theorem admits_of_path_eq {p : Predicate} (paths : p.readsPath = true) (matching : Matching)
    (node : String) {e f : Element} (same : e.path = f.path) :
    p.admits matching node e = p.admits matching node f := by
  cases p with
  | tag _ | property _ => simp only [admits, same]
  | contains _ | equals _ | execution _ _ _ | dependency _ _ =>
    exact absurd paths Bool.false_ne_true

end Predicate

namespace Query

/-- Two runs in the same scope, over elements that match up to their order. -/
structure Reordered (q r : Query) : Prop where
  node : q.node = r.node
  matching : q.matching = r.matching
  left : q.InRange
  right : r.InRange
  working : UpToOrder Element.Alike q.workingElements r.workingElements

namespace Reordered

variable {q r : Query}

theorem advance (reordered : Reordered q r) {p : Predicate} (paths : p.readsPath = true) :
    Reordered (q.advance p) (r.advance p) where
  node := reordered.node
  matching := reordered.matching
  left := inRange_advanceAll reordered.left [p]
  right := inRange_advanceAll reordered.right [p]
  working := by
    have pointwise := Predicate.isPointwise_of_readsPath paths
    rw [workingElements_advance, workingElements_advance, p.accepts_eq_admits q pointwise,
      p.accepts_eq_admits r pointwise, reordered.node, reordered.matching]
    exact reordered.working.filter fun e f alike =>
      Predicate.admits_of_path_eq paths r.matching r.node alike.1

theorem advanceAll (reordered : Reordered q r) {ps : List Predicate}
    (paths : ∀ p ∈ ps, p.readsPath = true) : Reordered (q.advanceAll ps) (r.advanceAll ps) := by
  induction ps generalizing q r with
  | nil => exact reordered
  | cons p rest ih =>
    obtain ⟨here, behind⟩ := List.forall_mem_cons.1 paths
    exact ih (reordered.advance here) behind

theorem working_eq_nil_iff (reordered : Reordered q r) : q.working = [] ↔ r.working = [] := by
  have length := Multiset.card_eq_card_of_rel reordered.working
  rw [Multiset.coe_card, Multiset.coe_card] at length
  rw [← workingElements_eq_nil_iff reordered.left, ← workingElements_eq_nil_iff reordered.right,
    ← List.length_eq_zero_iff, ← List.length_eq_zero_iff, length]

/-- What is missing is told in the same words, as it is told by node and argument. -/
theorem affirmed_eq (reordered : Reordered q r) {ps : List Predicate}
    (paths : ∀ p ∈ ps, p.readsPath = true) :
    (analyzer.evaluated q ps).flatten.filterMap (Evaluation.block? .affirm) =
      (analyzer.evaluated r ps).flatten.filterMap (Evaluation.block? .affirm) := by
  induction ps generalizing q r with
  | nil => rfl
  | cons p rest ih =>
    obtain ⟨here, behind⟩ := List.forall_mem_cons.1 paths
    have next := reordered.advance here
    have block : (q.evaluation p).block? .affirm = (r.evaluation p).block? .affirm := by
      simp only [block?_evaluation, next.working_eq_nil_iff, reordered.node]
    change (q.evaluation p :: (analyzer.evaluated (q.advance p) rest).flatten).filterMap _ =
      (r.evaluation p :: (analyzer.evaluated (r.advance p) rest).flatten).filterMap _
    rw [List.filterMap_cons, List.filterMap_cons, block, ih next behind]

end Reordered

end Query

namespace Checker

theorem reordered_start {d e : Document} (distinct : d.root.DistinctKeys)
    (same : d.root.equal e.root = true) (files : FileTree) (m : Matching)
    (given : Option String) :
    Query.Reordered (((ofDocument d files).withMatching m).start given)
      (((ofDocument e files).withMatching m).start given) := by
  rw [start_eq, start_eq]
  exact {
    node := rfl
    matching := rfl
    left := Query.inRange_start _ _ _
    right := Query.inRange_start _ _ _
    working := by
      rw [Query.workingElements_start, Query.workingElements_start]
      exact Value.rel_elementsUnder distinct same "" }

/-- A chain of predicates on paths on two documents that are equal, so that only the order
of their keys may differ. Both runs end with elements of the same paths and with equal
values, in whatever order, and both pass or both fail. What `verdict` answers in failing
holds the report, and this is the same only if something should hold: what lies below a
forbidden tag is told in the order of the keys. As a beginning of a chain is a chain, this
holds after every predicate. The first hypothesis says that every object holds a key once. -/
theorem key_order_is_ignored {d e : Document} (distinct : d.root.DistinctKeys)
    (same : d.root.equal e.root = true) (files : FileTree) (m : Matching)
    (given : Option String) (o : Opening) (c : Chain Predicate)
    (paths : ∀ p ∈ c.predicates, p.readsPath = true) (spelt : ∀ p ∈ c.predicates, p.IsSpelt) :
    ∃ q r, ((ofDocument d files).withMatching m).runQuery given o c = .ok q ∧
      ((ofDocument e files).withMatching m).runQuery given o c = .ok r ∧
      (q.verdict = .ok () ↔ r.verdict = .ok ()) ∧
      (o = .should → q.verdict = r.verdict) ∧
      Multiset.Rel (fun x y => x.path = y.path ∧ x.value.equal y.value = true)
        (q.workingElements : Multiset Element) (r.workingElements : Multiset Element) := by
  have started := reordered_start distinct same files m given
  have ended := started.advanceAll paths
  obtain ⟨q, ranq, -, elementsq, verdictq⟩ :=
    ((ofDocument d files).withMatching m).runQuery_outcome given o spelt
  obtain ⟨r, ranr, -, elementsr, verdictr⟩ :=
    ((ofDocument e files).withMatching m).runQuery_outcome given o spelt
  refine ⟨q, r, ranq, ranr, ?_, ?_, ?_⟩
  · rw [verdictq, verdictr]
    cases o with
    | should => exact not_congr ended.working_eq_nil_iff
    | shouldNot =>
      have front := started.advanceAll fun p mem =>
        paths p (List.mem_of_mem_take (i := c.beforeLastAnd + 1) mem)
      exact front.working_eq_nil_iff
  · rintro rfl
    rw [runQuery_eq _ _ _ spelt] at ranq ranr
    cases ranq
    cases ranr
    exact congrArg (fun blocks => (Findings.ofBlocks blocks).verdict) (started.affirmed_eq paths)
  · rw [elementsq, elementsr]
    exact ended.working

/-- Keys in another order at two depths, and zeros of either sign. -/
theorem key_order_is_ignored_on_properties :
    let d : Document := ⟨.object [("build", .null), ("properties", .object
      [("java", .text "11"), ("delay", .number (.float (.zero true)))])], none⟩
    let e : Document := ⟨.object [("properties", .object
      [("delay", .number (.float (.zero false))), ("java", .text "11")]), ("build", .null)], none⟩
    let c : Chain Predicate := .next (.first (.property "a")) .or (.tag "delay")
    d.root.DistinctKeys ∧ d.root.equal e.root = true ∧
    (∀ p ∈ c.predicates, p.readsPath = true) ∧ (∀ p ∈ c.predicates, p.IsSpelt) ∧
    ∃ q r, ((ofDocument d .empty).withMatching .segment).runQuery (some "") .shouldNot c = .ok q ∧
      ((ofDocument e .empty).withMatching .segment).runQuery (some "") .shouldNot c = .ok r ∧
      (q.verdict = .ok () ↔ r.verdict = .ok ()) ∧
      Multiset.Rel (fun x y => x.path = y.path ∧ x.value.equal y.value = true)
        (q.workingElements : Multiset Element) (r.workingElements : Multiset Element) := by
  intro d e c
  have distinct : d.root.DistinctKeys := by
    simp [d, Value.DistinctKeys, Value.EntriesDistinct]
  have same : d.root.equal e.root = true := by rfl
  have paths : ∀ p ∈ c.predicates, p.readsPath = true := by decide
  have spelt : ∀ p ∈ c.predicates, p.IsSpelt := by decide
  obtain ⟨q, r, ranq, ranr, verdicts, -, working⟩ :=
    key_order_is_ignored distinct same .empty .segment (some "") .shouldNot c paths spelt
  exact ⟨distinct, same, paths, spelt, q, r, ranq, ranr, verdicts, working⟩

end Checker

end DescriptorCheck
