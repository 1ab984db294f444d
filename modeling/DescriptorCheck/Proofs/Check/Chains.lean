import DescriptorCheck.Check.Checker
import DescriptorCheck.Proofs.Check.Analyzer

set_option autoImplicit false

namespace DescriptorCheck

namespace Query

def advance (q : Query) (p : Predicate) : Query := q.narrow (q.select (p.accepts q))

theorem workingElements_advance (q : Query) (p : Predicate) :
    (q.advance p).workingElements = q.workingElements.filter (p.accepts q) := by
  change (q.select (p.accepts q)).filterMap (q.elements[·]?) =
    (q.working.filterMap (q.elements[·]?)).filter (p.accepts q)
  unfold select
  induction q.working with
  | nil => rfl
  | cons i rest ih =>
    -- An index without an element is dropped on both sides.
    cases at? : q.elements[i]? with
    | none => simp [at?, ih]
    | some e => by_cases accepted : p.accepts q e <;> simp [at?, accepted, ih]

/-- What is selected has elements, so nothing is selected if no element is accepted. -/
theorem working_advance_eq_nil_iff (q : Query) (p : Predicate) :
    (q.advance p).working = [] ↔ q.workingElements.filter (p.accepts q) = [] := by
  change (q.select (p.accepts q)) = [] ↔ _
  rw [select, List.filter_eq_nil_iff, List.filter_eq_nil_iff]
  constructor
  · intro refused e mem accepted
    obtain ⟨i, inside, at?⟩ := List.mem_filterMap.1 mem
    exact refused i inside (by simp [at?, accepted])
  · intro refused i inside selected
    cases at? : q.elements[i]? with
    | none => simp [at?] at selected
    | some e =>
      have accepted : p.accepts q e = true := by simpa [at?] using selected
      exact refused e (List.mem_filterMap.2 ⟨i, inside, at?⟩) accepted

def evaluation (q : Query) (p : Predicate) : Evaluation where
  found := !(q.advance p).working.isEmpty
  unexpected := p.unexpected q.node
  listed := p.listed (q.advance p).workingElements
  missing := p.missing q.node

/-- The block of a predicate: what is missing if nothing was selected, or what was
found, with the selected values in order below a tag. -/
theorem block?_evaluation (q : Query) (p : Predicate) (mode : Mode) :
    (q.evaluation p).block? mode =
      match mode with
      | .affirm => if (q.advance p).working = [] then some [p.missing q.node] else none
      | .negate =>
        if (q.advance p).working = [] then none
        else some (p.unexpected q.node :: p.listed (q.advance p).workingElements) := by
  by_cases found : (q.advance p).working = [] <;> cases mode <;>
    simp [Evaluation.block?, evaluation, found]

/-- The block in words: what is missing, or what was found, with a line below a tag for
each element that was selected. -/
theorem block?_evaluation_eq (q : Query) (p : Predicate) (mode : Mode) :
    let found := q.workingElements.filter (p.accepts q)
    (q.evaluation p).block? mode =
      match mode, p with
      | .affirm, _ => if found = [] then some [p.missing q.node] else none
      | .negate, .tag _ => if found = [] then none
        else some (p.unexpected q.node :: found.map fun e => "- " ++ e.value.display)
      | .negate, _ => if found = [] then none else some [p.unexpected q.node] := by
  intro found
  rw [block?_evaluation, workingElements_advance]
  simp only [working_advance_eq_nil_iff]
  cases mode <;> cases p <;> rfl

def analyzer : Analyzer Query Predicate where
  query q := q
  withContext q c := { q with context := c }
  check := check
  join := joined
  arguments := Predicate.arguments
  evaluations q p := [q.evaluation p]
  advance := advance
  check_eq q p := by
    unfold check
    cases BlankArgument.first? p.arguments <;> rfl
  join_eq _ _ := rfl
  query_withContext _ _ := rfl
  withContext_withContext _ _ _ := rfl
  evaluations_withContext _ _ p := by cases p <;> rfl
  advance_withContext _ _ p := by cases p <;> rfl

end Query

namespace ModuleQuery

def withContext (m : ModuleQuery) (c : Context) : ModuleQuery :=
  { m with query := { m.query with context := c } }

def existence (m : ModuleQuery) (name : String) : Evaluation where
  found := (lookFor m.files m.descriptor name).2
  unexpected := unexpectedMessage name
  listed := []
  missing := missingMessage name

theorem lookFor_found (files : Surroundings) (descriptor name : String) :
    (lookFor files descriptor name).2 =
      (files.directory name || files.present (PathName.join name descriptor)) := by
  unfold lookFor
  cases files.directory name <;> rfl

theorem block?_existence (m : ModuleQuery) (name : String) (mode : Mode) :
    (m.existence name).block? mode =
      match mode with
      | .affirm =>
        if (lookFor m.files m.descriptor name).2 then none else some [missingMessage name]
      | .negate =>
        if (lookFor m.files m.descriptor name).2 then some [unexpectedMessage name] else none := by
  cases mode <;> rfl

def evaluations (m : ModuleQuery) : ModulePredicate → List Evaluation
  | .query p => [m.query.evaluation p]
  | .moduleExists name => [m.existence name]
  | .allRegisteredModulesExist => (registeredNames m.query).map m.existence

def ask (m : ModuleQuery) (names : List String) : ModuleQuery :=
  { m with asked := m.asked ++ names.flatMap fun name => (lookFor m.files m.descriptor name).1 }

def advance (m : ModuleQuery) : ModulePredicate → ModuleQuery
  | .query p => { m with query := m.query.advance p }
  | .moduleExists name => m.ask [name]
  | .allRegisteredModulesExist => m.ask (registeredNames m.query)

theorem checkModule_eq (m : ModuleQuery) (name : String) :
    m.checkModule name =
      (m.ask [name]).withContext (m.query.context.evaluate (m.existence name)) := by
  simp only [ask, List.flatMap_cons, List.flatMap_nil, List.append_nil]
  rfl

theorem foldl_checkModule (m : ModuleQuery) (names : List String) :
    names.foldl checkModule m =
      (m.ask names).withContext (m.query.context.evaluateAll (names.map m.existence)) := by
  induction names generalizing m with
  | nil => simp [ask, withContext, Context.evaluateAll]
  | cons name rest ih =>
    rw [List.foldl_cons, ih, checkModule_eq]
    simp only [ask, List.flatMap_cons, List.flatMap_nil, List.append_nil, withContext,
      List.append_assoc]
    rfl

theorem check_query (m : ModuleQuery) (p : Predicate) :
    m.check (.query p) = (m.query.check p).map fun q => { m with query := q } := by
  cases checked : m.query.check p <;> simp [check, checked, Except.map, bind, Except.bind, pure,
    Except.pure]

def analyzer : Analyzer ModuleQuery ModulePredicate where
  query := query
  withContext := withContext
  check := check
  join := joined
  arguments := ModulePredicate.arguments
  evaluations := evaluations
  advance := advance
  check_eq m p := by
    cases p with
    | query p =>
      rw [check_query]
      unfold Query.check
      change _ = match BlankArgument.first? p.arguments with | some _ => _ | none => _
      cases BlankArgument.first? p.arguments <;> rfl
    | moduleExists name =>
      simp only [check, checkNamed, checkModule_eq, ModulePredicate.arguments]
      cases BlankArgument.first? [(Argument.moduleName, name)] <;> rfl
    | allRegisteredModulesExist =>
      rw [check_allRegistered, foldl_checkModule]
      rfl
  join_eq _ _ := rfl
  query_withContext _ _ := rfl
  withContext_withContext _ _ _ := rfl
  evaluations_withContext _ _ p := by
    cases p with
    | query p => cases p <;> rfl
    | moduleExists name => rfl
    | allRegisteredModulesExist => rfl
  advance_withContext _ _ p := by
    cases p with
    | query p => cases p <;> rfl
    | moduleExists name => rfl
    | allRegisteredModulesExist => rfl

theorem run_map_query (m : ModuleQuery) (c : Chain Predicate) :
    m.run (c.map .query) = (m.query.run c).map fun q => { m with query := q } := by
  induction c with
  | first p => exact m.check_query p
  | next before joint p ih =>
    change (m.run (before.map .query)).bind (fun t => (t.joined joint).check (.query p)) =
      ((m.query.run before).bind fun t => (t.joined joint).check p).map _
    rw [ih]
    cases m.query.run before with
    | error refusal => rfl
    | ok t => exact check_query ({ m with query := t }.joined joint) p

end ModuleQuery

def Opening.mode : Opening → Mode
  | .should => .affirm
  | .shouldNot => .negate

namespace Checker

theorem checking_opened (k : Checker) (node : String) (o : Opening) :
    (k.checking node).opened o =
      Query.analyzer.withContext (k.checking node) ⟨o.mode, .none⟩ := by
  cases o <;> rfl

theorem checkingModule_opened (k : Checker) (o : Opening) :
    k.checkingModule.opened o =
      ModuleQuery.analyzer.withContext k.checkingModule ⟨o.mode, .none⟩ := by
  cases o <;> rfl

/-- The report of every chain: one block for each evaluated check that disagrees with
the mode of the opening, over all predicates when something should hold and over
those after the last `and` when it should not. A beginning of a chain is a chain,
so this tells the report after every predicate. -/
theorem report_tells_disagreements (k : Checker) (o : Opening) :
    (∀ (q : Query) (p : Predicate),
      let found := q.workingElements.filter (p.accepts q)
      (q.evaluation p).block? o.mode =
        match o.mode, p with
        | .affirm, _ => if found = [] then some [p.missing q.node] else none
        | .negate, .tag _ => if found = [] then none
          else some (p.unexpected q.node :: found.map fun e => "- " ++ e.value.display)
        | .negate, _ => if found = [] then none else some [p.unexpected q.node]) ∧
    (∀ (m : ModuleQuery) (name : String),
      let there := m.files.directory name || m.files.present (PathName.join name m.descriptor)
      (m.existence name).block? o.mode =
        match o.mode with
        | .affirm => if there then none
          else some ["Module '" ++ name ++ "' directory or pom file not found while expected"]
        | .negate => if there
          then some ["Module '" ++ name ++ "' directory or pom file found, but not expected"]
          else none) ∧
    (∀ (node : String) (c : Chain Predicate),
      match ((k.checking node).opened o).run c with
      | .error refusal => Query.analyzer.refusal? c.predicates = some refusal
      | .ok q => Query.analyzer.refusal? c.predicates = none ∧
          q.Reports o.mode (Query.analyzer.blocks (k.checking node) o.mode c)) ∧
    ∀ c : Chain ModulePredicate,
      match (k.checkingModule.opened o).run c with
      | .error refusal => ModuleQuery.analyzer.refusal? c.predicates = some refusal
      | .ok m => ModuleQuery.analyzer.refusal? c.predicates = none ∧
          m.query.Reports o.mode (ModuleQuery.analyzer.blocks k.checkingModule o.mode c) := by
  refine ⟨fun q p => q.block?_evaluation_eq p o.mode, ?_, ?_, ?_⟩
  · intro m name there
    rw [m.block?_existence, ModuleQuery.lookFor_found]
    rfl
  · intro node c
    rw [checking_opened]
    cases ran : (Query.analyzer.withContext (k.checking node) ⟨o.mode, .none⟩).run c with
    | error refusal => exact Query.analyzer.refusal?_of_run_error ran
    | ok q => exact Query.analyzer.reports_of_run_ok ran
  · intro c
    rw [checkingModule_opened]
    cases ran : (ModuleQuery.analyzer.withContext k.checkingModule ⟨o.mode, .none⟩).run c with
    | error refusal => exact ModuleQuery.analyzer.refusal?_of_run_error ran
    | ok m => exact ModuleQuery.analyzer.reports_of_run_ok ran

/-- A tag with two values is found before and after an `and`, and then a value. -/
theorem report_tells_disagreements_on_tags :
    let k : Checker := ⟨#[⟨"a.v", .text "1"⟩, ⟨"a.w.v", .text "2"⟩], .segment,
      ⟨fun _ => false, fun _ => false⟩, "pom.xml"⟩
    let c : Chain Predicate :=
      .next (.next (.first (.tag "v")) .and (.tag "v")) .or (.contains "2")
    ∃ q, ((k.checking "a").opened .shouldNot).run c = .ok q ∧
      q.context.findings.report =
        "Error(s) occurred:\nv found in a where it is not allowed. \n" ++
        "Found disallowed value: \n- 1\n- 2\n" ++
        "Error(s) occurred:\nValue '2' found in a where it is not allowed\n" ∧
      q.verdict = .error q.context.findings.report := by
  intro k c
  obtain ⟨-, -, document, -⟩ := k.report_tells_disagreements .shouldNot
  have told := document "a" c
  have blocks : Query.analyzer.blocks (k.checking "a") .negate c =
      [["v found in a where it is not allowed. \nFound disallowed value: ", "- 1", "- 2"],
        ["Value '2' found in a where it is not allowed"]] := by decide +kernel
  have accepted : Query.analyzer.refusal? c.predicates = none := by decide
  cases ran : ((k.checking "a").opened .shouldNot).run c with
  | error refusal =>
    rw [ran] at told
    exact absurd (accepted.symm.trans told) nofun
  | ok q =>
    rw [ran] at told
    obtain ⟨-, reports⟩ := told
    have report := reports.report_eq
    rw [Opening.mode, blocks] at report
    refine ⟨q, rfl, report.trans (by decide +kernel), ?_⟩
    rw [reports.verdict_eq, if_neg]
    rw [report]
    decide +kernel

end Checker

end DescriptorCheck
