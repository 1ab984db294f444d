import DescriptorCheck.Proofs.Check.Narrowing

set_option autoImplicit false

namespace DescriptorCheck

theorem Chain.length_of_joined_and {P : Type} {c : Chain P} (joined : ∀ j ∈ c.joints, j = .and) :
    c.beforeLastAnd + 1 = c.predicates.length := by
  cases c with
  | first p => rfl
  | next before joint p =>
    have last : joint = .and := joined joint (by simp [joints])
    subst last
    simp [beforeLastAnd, predicates]

/-- Of the two openings of a chain joined with `and`, exactly one fails, and both leave
the same working set. -/
theorem Checker.one_opening_fails (k : Checker) (given : Option String) (c : Chain Predicate)
    (joined : ∀ j ∈ c.joints, j = .and) (spelt : ∀ p ∈ c.predicates, p.IsSpelt) :
    ∃ q r, k.runQuery given .should c = .ok q ∧ k.runQuery given .shouldNot c = .ok r ∧
      q.working = r.working ∧ q.workingElements = r.workingElements ∧
      ((q.verdict = .ok () ∧ r.verdict ≠ .ok ()) ∨ (q.verdict ≠ .ok () ∧ r.verdict = .ok ())) := by
  obtain ⟨q, ranq, workingq, elementsq, verdictq⟩ := k.runQuery_outcome given .should spelt
  obtain ⟨r, ranr, workingr, elementsr, verdictr⟩ := k.runQuery_outcome given .shouldNot spelt
  refine ⟨q, r, ranq, ranr, workingq.trans workingr.symm, elementsq.trans elementsr.symm, ?_⟩
  have all : c.predicates.take (c.beforeLastAnd + 1) = c.predicates := by
    rw [Chain.length_of_joined_and joined, List.take_length]
  rw [all] at verdictr
  by_cases left : ((k.start given).advanceAll c.predicates).working = []
  · exact .inr ⟨fun passed => verdictq.1 passed left, verdictr.2 left⟩
  · exact .inl ⟨verdictq.2 left, fun passed => left (verdictr.1 passed)⟩

/-- The plugin predicate finds nothing without a plugin, so only its negation passes. -/
theorem Checker.one_opening_fails_on_plugin :
    ∃ q r, (⟨#[⟨"build", .object []⟩], .segment, ⟨fun _ => false, fun _ => false⟩,
        "pom.xml"⟩ : Checker).runQuery (some "build") .should
          (.next (.first (.tag "build")) .and (.execution "p" "test" "run")) = .ok q ∧
      (⟨#[⟨"build", .object []⟩], .segment, ⟨fun _ => false, fun _ => false⟩,
        "pom.xml"⟩ : Checker).runQuery (some "build") .shouldNot
          (.next (.first (.tag "build")) .and (.execution "p" "test" "run")) = .ok r ∧
      q.working = r.working ∧
      ((q.verdict = .ok () ∧ r.verdict ≠ .ok ()) ∨ (q.verdict ≠ .ok () ∧ r.verdict = .ok ())) := by
  obtain ⟨q, r, ranq, ranr, working, -, verdicts⟩ := one_opening_fails
    ⟨#[⟨"build", .object []⟩], .segment, ⟨fun _ => false, fun _ => false⟩, "pom.xml"⟩
    (some "build") (.next (.first (.tag "build")) .and (.execution "p" "test" "run"))
    (by decide) (by decide)
  exact ⟨q, r, ranq, ranr, working, verdicts⟩

end DescriptorCheck
