import DescriptorCheck.Check.Chain
import DescriptorCheck.Proofs.Check.Report

set_option autoImplicit false

/-! A document chain and a module chain differ in their states and predicates, but a predicate
does the same two things in both: it evaluates checks, which the context takes in, and it
advances the rest of the state. Neither looks at the context, so the mode and the joints only
decide which of what was evaluated is in the report. -/
namespace DescriptorCheck

namespace Chain

variable {P : Type}

def beforeLastAnd : Chain P → Nat
  | first _ => 0
  | next before .and _ => before.predicates.length
  | next before .or _ => before.beforeLastAnd

/-- How many predicates at the front have nothing in the report any more. -/
def unreported (c : Chain P) : Mode → Nat
  | .affirm => 0
  | .negate => c.beforeLastAnd

def map {Q : Type} (f : P → Q) : Chain P → Chain Q
  | first p => first (f p)
  | next before joint p => next (before.map f) joint (f p)

theorem beforeLastAnd_lt (c : Chain P) : c.beforeLastAnd < c.predicates.length := by
  induction c with
  | first p => simp [beforeLastAnd, predicates]
  | next before joint p ih =>
    cases joint <;> simp only [beforeLastAnd, predicates, List.length_append, List.length_singleton]
    · omega
    · omega

end Chain

/-- States of type `S` in which predicates of type `P` are checked. -/
structure Analyzer (S P : Type) where
  query : S → Query
  withContext : S → Context → S
  check : S → P → Except BlankArgument S
  join : S → Joint → S
  arguments : P → List (Argument × String)
  /-- The checks that a predicate evaluates, in order. -/
  evaluations : S → P → List Evaluation
  /-- What a predicate changes besides the context. -/
  advance : S → P → S
  check_eq : ∀ s p, check s p =
    match BlankArgument.first? (arguments p) with
    | some refusal => .error refusal
    | none => .ok (withContext (advance s p) ((query s).context.evaluateAll (evaluations s p)))
  join_eq : ∀ s j, join s j = withContext s ((query s).context.joined j)
  query_withContext : ∀ s c, query (withContext s c) = { query s with context := c }
  withContext_withContext : ∀ s c d, withContext (withContext s c) d = withContext s d
  evaluations_withContext : ∀ s c p, evaluations (withContext s c) p = evaluations s p
  advance_withContext : ∀ s c p, advance (withContext s c) p = withContext (advance s p) c

namespace Analyzer

variable {S P : Type} (a : Analyzer S P)

def run (s : S) (c : Chain P) : Except BlankArgument S := c.run a.check a.join s

def refusal? (ps : List P) : Option BlankArgument :=
  ps.findSome? fun p => BlankArgument.first? (a.arguments p)

def advanceAll (s : S) (ps : List P) : S := ps.foldl a.advance s

/-- The checks that predicates evaluate one after the other, predicate by predicate. -/
def evaluated (s : S) : List P → List (List Evaluation)
  | [] => []
  | p :: rest => a.evaluations s p :: evaluated (a.advance s p) rest

/-- The blocks of the report: one for each evaluated check that disagrees with the
mode, but under negation only from the last `and` on. -/
def blocks (s : S) (mode : Mode) (c : Chain P) : List (List String) :=
  ((a.evaluated s c.predicates).drop (c.unreported mode)).flatten.filterMap
    (Evaluation.block? mode)

theorem refusal?_singleton (p : P) :
    a.refusal? [p] = BlankArgument.first? (a.arguments p) := by
  simp only [refusal?, List.findSome?_cons, List.findSome?_nil]
  cases BlankArgument.first? (a.arguments p) <;> rfl

theorem refusal?_append (ps qs : List P) :
    a.refusal? (ps ++ qs) = (a.refusal? ps).or (a.refusal? qs) :=
  List.findSome?_append

theorem refusal?_eq_none_iff (ps : List P) :
    a.refusal? ps = none ↔ ∀ p ∈ ps, ∀ given ∈ a.arguments p, Text.isBlank given.2 = false := by
  simp only [refusal?, List.findSome?_eq_none_iff, BlankArgument.first?_eq_none_iff]

theorem advanceAll_append (s : S) (ps qs : List P) :
    a.advanceAll s (ps ++ qs) = a.advanceAll (a.advanceAll s ps) qs :=
  List.foldl_append

theorem evaluated_append (s : S) (ps qs : List P) :
    a.evaluated s (ps ++ qs) = a.evaluated s ps ++ a.evaluated (a.advanceAll s ps) qs := by
  induction ps generalizing s with
  | nil => rfl
  | cons p rest ih => exact congrArg (a.evaluations s p :: ·) (ih (a.advance s p))

theorem length_evaluated (s : S) (ps : List P) : (a.evaluated s ps).length = ps.length := by
  induction ps generalizing s with
  | nil => rfl
  | cons p rest ih => simp [evaluated, ih]

theorem drop_evaluated (s : S) (ps : List P) (k : Nat) :
    (a.evaluated s ps).drop k = a.evaluated (a.advanceAll s (ps.take k)) (ps.drop k) := by
  induction ps generalizing s k with
  | nil => simp [evaluated]
  | cons p rest ih =>
    cases k with
    | zero => rfl
    | succ k => exact ih (a.advance s p) k

/-- What a joint keeps of the blocks so far, followed by the blocks of one more predicate. -/
theorem blocks_next (s : S) (mode : Mode) (before : Chain P) (joint : Joint) (p : P) :
    a.blocks s mode (.next before joint p) =
      (if mode = .negate ∧ joint = .and then [] else a.blocks s mode before) ++
        (a.evaluations (a.advanceAll s before.predicates) p).filterMap
          (Evaluation.block? mode) := by
  have last : a.evaluated s (before.predicates ++ [p]) =
      a.evaluated s before.predicates ++ [a.evaluations (a.advanceAll s before.predicates) p] :=
    a.evaluated_append s before.predicates [p]
  have count := a.length_evaluated s before.predicates
  have bound := before.beforeLastAnd_lt
  cases mode with
  | affirm => simp [blocks, Chain.unreported, Chain.predicates, last]
  | negate =>
    cases joint with
    | and =>
      simp [blocks, Chain.unreported, Chain.predicates, Chain.beforeLastAnd, last, ← count]
    | or =>
      have within : before.beforeLastAnd ≤ (a.evaluated s before.predicates).length := by omega
      simp [blocks, Chain.unreported, Chain.predicates, Chain.beforeLastAnd, last,
        List.drop_append_of_le_length within]

end Analyzer

/-- The findings are these blocks and nothing else: nothing is pending, the verdict is
the report if there is one, and `or` changes nothing. -/
structure Query.Reports (q : Query) (mode : Mode) (blocks : List (List String)) : Prop where
  mode_eq : q.context.mode = mode
  pending_eq : q.context.findings.pending = []
  report_eq : q.context.findings.report = String.join (blocks.map fun messages =>
    "Error(s) occurred:\n" ++ String.join (messages.map (· ++ "\n")))
  verdict_eq : q.verdict = if q.context.findings.report = "" then .ok ()
    else .error q.context.findings.report
  joined_or_eq : q.joined .or = q

theorem Query.reports_ofBlocks {q : Query} {mode : Mode} {blocks : List (List String)}
    (settled : q.context = ⟨mode, .ofBlocks blocks⟩) : q.Reports mode blocks where
  mode_eq := by rw [settled]
  pending_eq := by rw [settled]; rfl
  report_eq := by rw [settled]; rfl
  verdict_eq := by
    rw [verdict, settled, Findings.verdict_ofBlocks]
    change _ = if Findings.joinBlocks blocks = "" then .ok ()
      else Except.error (Findings.joinBlocks blocks)
    simp only [Findings.joinBlocks_eq_empty_iff]
  joined_or_eq := rfl

theorem Context.joined_ofBlocks (mode : Mode) (blocks : List (List String)) (joint : Joint) :
    Context.joined ⟨mode, .ofBlocks blocks⟩ joint =
      ⟨mode, .ofBlocks (if mode = .negate ∧ joint = .and then [] else blocks)⟩ := by
  cases mode <;> cases joint <;> rfl

namespace Analyzer

variable {S P : Type} (a : Analyzer S P)

theorem check_ofBlocks (s : S) (p : P) (mode : Mode) (blocks : List (List String)) :
    a.check (a.withContext s ⟨mode, .ofBlocks blocks⟩) p =
      match BlankArgument.first? (a.arguments p) with
      | some refusal => .error refusal
      | none => .ok (a.withContext (a.advance s p)
          ⟨mode, .ofBlocks (blocks ++
            (a.evaluations s p).filterMap (Evaluation.block? mode))⟩) := by
  rw [a.check_eq, a.query_withContext, a.evaluations_withContext, a.advance_withContext,
    a.withContext_withContext, Context.evaluateAll_ofBlocks]

/-- The outcome of a run from findings that are clear: the first refusal, or the state
that the predicates lead to, with the mode as it was and the blocks as findings. -/
theorem run_eq (s : S) (mode : Mode) (c : Chain P) :
    a.run (a.withContext s ⟨mode, .none⟩) c =
      match a.refusal? c.predicates with
      | some refusal => .error refusal
      | none => .ok (a.withContext (a.advanceAll s c.predicates)
          ⟨mode, .ofBlocks (a.blocks s mode c)⟩) := by
  induction c with
  | first p =>
    have told : a.blocks s mode (.first p) =
        [] ++ (a.evaluations s p).filterMap (Evaluation.block? mode) := by
      cases mode <;>
        simp [blocks, Chain.unreported, Chain.beforeLastAnd, Chain.predicates, evaluated]
    change a.check (a.withContext s ⟨mode, .ofBlocks []⟩) p = _
    rw [a.check_ofBlocks, told, Chain.predicates, refusal?_singleton]
    rfl
  | next before joint p ih =>
    change (a.run (a.withContext s ⟨mode, .none⟩) before).bind
      (fun t => a.check (a.join t joint) p) = _
    rw [ih, Chain.predicates, refusal?_append, refusal?_singleton]
    cases a.refusal? before.predicates with
    | some refusal => rfl
    | none =>
      change a.check (a.join (a.withContext (a.advanceAll s before.predicates)
        ⟨mode, .ofBlocks (a.blocks s mode before)⟩) joint) p = _
      -- The joint drops blocks or keeps them, and the predicate appends its own.
      rw [a.join_eq, a.query_withContext, a.withContext_withContext, Context.joined_ofBlocks,
        a.check_ofBlocks, ← blocks_next, advanceAll_append]
      rfl

theorem refusal?_of_run_error {s : S} {mode : Mode} {c : Chain P} {refusal : BlankArgument}
    (ran : a.run (a.withContext s ⟨mode, .none⟩) c = .error refusal) :
    a.refusal? c.predicates = some refusal := by
  rw [a.run_eq] at ran
  cases refused : a.refusal? c.predicates with
  | some first =>
    rw [refused] at ran
    exact congrArg some (Except.error.inj ran)
  | none =>
    rw [refused] at ran
    exact absurd ran nofun

theorem reports_of_run_ok {s t : S} {mode : Mode} {c : Chain P}
    (ran : a.run (a.withContext s ⟨mode, .none⟩) c = .ok t) :
    a.refusal? c.predicates = none ∧ (a.query t).Reports mode (a.blocks s mode c) := by
  rw [a.run_eq] at ran
  cases refused : a.refusal? c.predicates with
  | some first =>
    rw [refused] at ran
    exact absurd ran nofun
  | none =>
    rw [refused] at ran
    cases ran
    exact ⟨rfl, Query.reports_ofBlocks (by rw [a.query_withContext])⟩

end Analyzer

end DescriptorCheck
