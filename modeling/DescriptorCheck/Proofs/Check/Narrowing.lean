import DescriptorCheck.Proofs.Check.Chains

set_option autoImplicit false

/-! Every predicate on the document narrows the working set to what it selects, in either mode
and behind either joint. So an affirming chain passes if and only if its last working set holds
something, and a negated one fails if and only if the working set does right after the first
predicate that follows the last `and`. -/
namespace DescriptorCheck

namespace Query

def advanceAll (q : Query) (ps : List Predicate) : Query := analyzer.advanceAll q ps

theorem advanceAll_cons (q : Query) (p : Predicate) (rest : List Predicate) :
    q.advanceAll (p :: rest) = (q.advance p).advanceAll rest := rfl

theorem advanceAll_append (q : Query) (ps more : List Predicate) :
    q.advanceAll (ps ++ more) = (q.advanceAll ps).advanceAll more :=
  analyzer.advanceAll_append q ps more

theorem advanceAll_concat (q : Query) (ps : List Predicate) (p : Predicate) :
    q.advanceAll (ps ++ [p]) = (q.advanceAll ps).advance p :=
  q.advanceAll_append ps [p]

theorem elements_advanceAll (q : Query) (ps : List Predicate) :
    (q.advanceAll ps).elements = q.elements := by
  induction ps generalizing q with
  | nil => rfl
  | cons p rest ih => exact ih (q.advance p)

theorem advanceAll_sublist (q : Query) (ps : List Predicate) :
    (q.advanceAll ps).working.Sublist q.working := by
  induction ps generalizing q with
  | nil => exact List.Sublist.refl _
  | cons p rest ih => exact (ih (q.advance p)).trans (q.select_sublist _)

theorem advanceAll_eq_nil {q : Query} (empty : q.working = []) (ps : List Predicate) :
    (q.advanceAll ps).working = [] := by
  have within := q.advanceAll_sublist ps
  rw [empty] at within
  exact List.sublist_nil.1 within

/-- In affirming mode predicates leave the report empty if each finds something, that
is, if the last one does. -/
theorem affirm_silent_iff (q : Query) (ps : List Predicate) (nonempty : ps ≠ []) :
    (analyzer.evaluated q ps).flatten.filterMap (Evaluation.block? .affirm) = [] ↔
      (q.advanceAll ps).working ≠ [] := by
  induction ps generalizing q with
  | nil => exact absurd rfl nonempty
  | cons p rest ih =>
    rw [advanceAll_cons]
    change (q.evaluation p :: (analyzer.evaluated (q.advance p) rest).flatten).filterMap _ = [] ↔ _
    by_cases found : (q.advance p).working = []
    · have last := advanceAll_eq_nil found rest
      simp [block?_evaluation, found, last]
    · have silent : (q.evaluation p).block? .affirm = none := by
        simp [block?_evaluation, found]
      rw [List.filterMap_cons_none silent]
      cases rest with
      | nil => simpa [Analyzer.evaluated, advanceAll, Analyzer.advanceAll] using found
      | cons next others => exact ih (q.advance p) (List.cons_ne_nil next others)

theorem negate_silent_of_nil {q : Query} (empty : q.working = []) (ps : List Predicate) :
    (analyzer.evaluated q ps).flatten.filterMap (Evaluation.block? .negate) = [] := by
  induction ps generalizing q with
  | nil => rfl
  | cons p rest ih =>
    have empty' : (q.advance p).working = [] := advanceAll_eq_nil empty [p]
    have silent : (q.evaluation p).block? .negate = none := by
      simp [block?_evaluation, empty']
    change (q.evaluation p :: (analyzer.evaluated (q.advance p) rest).flatten).filterMap _ = []
    rw [List.filterMap_cons_none silent]
    exact ih empty'

theorem negate_silent_iff (q : Query) (p : Predicate) (rest : List Predicate) :
    (analyzer.evaluated q (p :: rest)).flatten.filterMap (Evaluation.block? .negate) = [] ↔
      (q.advance p).working = [] := by
  change (q.evaluation p :: (analyzer.evaluated (q.advance p) rest).flatten).filterMap _ = [] ↔ _
  by_cases found : (q.advance p).working = []
  · -- What the first predicate leaves empty stays empty, so the others are silent too.
    have silent : (q.evaluation p).block? .negate = none := by
      simp [block?_evaluation, found]
    rw [List.filterMap_cons_none silent]
    exact iff_of_true (negate_silent_of_nil found rest) found
  · simp [block?_evaluation, found]

theorem verdict_eq_ok_iff {q : Query} {mode : Mode} {blocks : List (List String)}
    (settled : q.context = ⟨mode, .ofBlocks blocks⟩) : q.verdict = .ok () ↔ blocks = [] := by
  simp only [verdict, settled, Findings.verdict_ofBlocks]
  cases blocks <;> simp

end Query

namespace Predicate

def IsSpelt (p : Predicate) : Prop := ∀ given ∈ p.arguments, Text.isBlank given.2 = false

instance (p : Predicate) : Decidable p.IsSpelt :=
  inferInstanceAs (Decidable (∀ given ∈ p.arguments, Text.isBlank given.2 = false))

end Predicate

namespace Checker

/-- The query that a chain starts from: below a given node, or over the modules when
none is given. -/
def start (k : Checker) (given : Option String) : Query :=
  match given with
  | some node => k.checking node
  | none => k.checkingModule.query

/-- What a chain of predicates on the document leaves of its query. -/
def runQuery (k : Checker) (given : Option String) (o : Opening) (c : Chain Predicate) :
    Except BlankArgument Query :=
  match given with
  | some node => ((k.checking node).opened o).run c
  | none => ((k.checkingModule.opened o).run (c.map .query)).map ModuleQuery.query

theorem runQuery_eq_run (k : Checker) (given : Option String) (o : Opening)
    (c : Chain Predicate) : k.runQuery given o c = ((k.start given).opened o).run c := by
  cases given with
  | some node => rfl
  | none =>
    simp only [runQuery, ModuleQuery.run_map_query]
    change ((((k.start none).opened o).run c).map _).map _ = _
    cases ((k.start none).opened o).run c <;> rfl

theorem runQuery_eq (k : Checker) (given : Option String) (o : Opening) {c : Chain Predicate}
    (spelt : ∀ p ∈ c.predicates, p.IsSpelt) :
    k.runQuery given o c =
      .ok { (k.start given).advanceAll c.predicates with
        context := ⟨o.mode, .ofBlocks (Query.analyzer.blocks (k.start given) o.mode c)⟩ } := by
  have opened : (k.start given).opened o =
      Query.analyzer.withContext (k.start given) ⟨o.mode, .none⟩ := by
    cases given <;> cases o <;> rfl
  have accepted : Query.analyzer.refusal? c.predicates = none :=
    (Query.analyzer.refusal?_eq_none_iff c.predicates).2 spelt
  have outcome := Query.analyzer.run_eq (k.start given) o.mode c
  rw [accepted] at outcome
  rw [runQuery_eq_run, opened]
  exact outcome

/-- How a chain of predicates on the document ends: with the working set that its
predicates leave, and with a verdict that depends on whether a working set is empty,
the last one when something should hold and the one right after the first predicate
behind the last `and` when it should not. -/
theorem runQuery_outcome (k : Checker) (given : Option String) (o : Opening)
    {c : Chain Predicate} (spelt : ∀ p ∈ c.predicates, p.IsSpelt) :
    ∃ q, k.runQuery given o c = .ok q ∧
      q.working = ((k.start given).advanceAll c.predicates).working ∧
      q.workingElements = ((k.start given).advanceAll c.predicates).workingElements ∧
      (q.verdict = .ok () ↔
        match o with
        | .should => ((k.start given).advanceAll c.predicates).working ≠ []
        | .shouldNot =>
          ((k.start given).advanceAll (c.predicates.take (c.beforeLastAnd + 1))).working = []) := by
  refine ⟨_, k.runQuery_eq given o spelt, rfl, rfl, ?_⟩
  rw [Query.verdict_eq_ok_iff rfl]
  have bound := c.beforeLastAnd_lt
  cases o with
  | should =>
    refine Query.affirm_silent_iff (k.start given) c.predicates ?_
    intro empty
    simp [empty] at bound
  | shouldNot =>
    change ((Query.analyzer.evaluated _ c.predicates).drop c.beforeLastAnd).flatten.filterMap
      (Evaluation.block? .negate) = [] ↔
        ((k.start given).advanceAll (c.predicates.take (c.beforeLastAnd + 1))).working = []
    -- Behind the last `and` the run goes on as if it began from the set narrowed so far.
    rw [Analyzer.drop_evaluated, List.drop_eq_getElem_cons bound,
      List.take_succ_eq_append_getElem bound, Query.advanceAll_concat]
    exact Query.negate_silent_iff _ _ _

end Checker

end DescriptorCheck
