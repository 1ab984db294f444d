import DescriptorCheck.Proofs.Check.Reachable

set_option autoImplicit false

namespace DescriptorCheck

/-- The element registers a module: it is a scalar at or below the entries of modules and
shows more than blanks. -/
structure Element.Registers (e : Element) (matching : Matching) : Prop where
  placed : matching.isUnder e.path "modules.module" = true
  notNull : e.value.isNull = false
  scalar : e.value.isContainer = false
  named : ¬ ∀ c ∈ e.value.display.toList, Text.isBlankChar c = true

theorem Element.registers_iff (e : Element) (matching : Matching) :
    e.Registers matching ↔ matching.isUnder e.path "modules.module" = true ∧
      e.value.isNull = false ∧ e.value.isContainer = false ∧
      Text.isBlank e.value.display = false := by
  have blank : Text.isBlank e.value.display = false ↔
      ¬ ∀ c ∈ e.value.display.toList, Text.isBlankChar c = true := by
    rw [Text.isBlank, ← List.all_eq_true, Bool.not_eq_true]
  rw [blank]
  exact ⟨fun r => ⟨r.placed, r.notNull, r.scalar, r.named⟩, fun ⟨a, b, c, d⟩ => ⟨a, b, c, d⟩⟩

instance (e : Element) (matching : Matching) : Decidable (e.Registers matching) :=
  decidable_of_iff _ (e.registers_iff matching).symm

namespace Surroundings

/-- A module is there if it has a directory, or else a descriptor. -/
def HasModule (files : Surroundings) (descriptor name : String) : Prop :=
  files.directory name = true ∨ files.present (PathName.join name descriptor) = true

instance (files : Surroundings) (descriptor name : String) :
    Decidable (files.HasModule descriptor name) :=
  inferInstanceAs (Decidable (_ ∨ _))

/-- What is asked about a module: the descriptor only if there is no directory. -/
def questionsOn (files : Surroundings) (descriptor name : String) : List FileQuestion :=
  if files.directory name then [.directory name]
  else [.directory name, .present (PathName.join name descriptor)]

def complaint? (files : Surroundings) (descriptor : String) (mode : Mode) (name : String) :
    Option String :=
  match mode with
  | .affirm =>
    if files.HasModule descriptor name then none
    else some ("Module '" ++ name ++ "' directory or pom file not found while expected")
  | .negate =>
    if files.HasModule descriptor name then
      some ("Module '" ++ name ++ "' directory or pom file found, but not expected")
    else none

end Surroundings

namespace ModuleQuery

theorem registeredNames_eq (q : Query) :
    registeredNames q =
      (q.workingElements.filter (·.Registers q.matching)).map (·.value.display) := by
  rw [← List.filterMap_eq_filter, List.map_filterMap, registeredNames]
  congr 1
  funext e
  have form : e.value.isNull = false → e.value.form? = some e.value.display := by
    cases e.value <;> simp [Value.form?, Value.isNull]
  by_cases registers : e.Registers q.matching
  · obtain ⟨placed, notNull, scalar, named⟩ := (e.registers_iff q.matching).1 registers
    simp [Option.guard, registers, Query.isUnder, moduleEntries, placed, scalar, form notNull,
      named]
  · simp only [Option.guard, registers, decide_false]
    rw [e.registers_iff] at registers
    cases notNull : e.value.isNull with
    | true => cases value : e.value <;> simp_all [Value.isNull, Value.form?]
    | false => simp_all [Query.isUnder, moduleEntries]

theorem lookFor_eq (files : Surroundings) (descriptor name : String) :
    lookFor files descriptor name =
      (files.questionsOn descriptor name, decide (files.HasModule descriptor name)) := by
  unfold lookFor Surroundings.questionsOn Surroundings.HasModule
  by_cases directory : files.directory name = true <;> simp [directory]

theorem block?_existence_eq (m : ModuleQuery) (name : String) (mode : Mode) :
    (m.existence name).block? mode = (m.files.complaint? m.descriptor mode name).map ([·]) := by
  rw [block?_existence, lookFor_eq]
  cases mode <;> by_cases there : m.files.HasModule m.descriptor name <;>
    simp [Surroundings.complaint?, there, missingMessage, unexpectedMessage]

/-- The files and the name of descriptors stay those that the chain was opened with. -/
theorem files_of_perform {m n : ModuleQuery} {move : Move ModulePredicate}
    (done : m.perform move = .ok n) : n.files = m.files ∧ n.descriptor = m.descriptor := by
  cases move with
  | predicate p =>
    change m.check p = .ok n at done
    cases p with
    | query p =>
      rw [check_query] at done
      cases checked : m.query.check p with
      | error refusal => simp [checked, Except.map] at done
      | ok q =>
        rw [checked] at done
        cases done
        exact ⟨rfl, rfl⟩
    | moduleExists name =>
      rw [check, checkNamed] at done
      split at done
      · cases done
      · cases done
        exact ⟨rfl, rfl⟩
    | allRegisteredModulesExist =>
      rw [check_allRegistered, foldl_checkModule] at done
      cases done
      exact ⟨rfl, rfl⟩
  | opening _ | joint _ | toggle | call _ =>
    cases done
    exact ⟨rfl, rfl⟩

theorem files_of_reaches {m n : ModuleQuery} (reached : Reaches perform m n) :
    n.files = m.files ∧ n.descriptor = m.descriptor :=
  reached.preserves (I := fun n => n.files = m.files ∧ n.descriptor = m.descriptor) ⟨rfl, rfl⟩
    fun {_ _ _} same done =>
      ⟨(files_of_perform done).1.trans same.1, (files_of_perform done).2.trans same.2⟩

theorem check_allRegistered_settled {m : ModuleQuery}
    (settled : m.query.context.findings.pending = []) :
    m.check .allRegisteredModulesExist =
      .ok ((m.ask (registeredNames m.query)).withContext ⟨m.query.context.mode,
        m.query.context.findings.addBlocks (((registeredNames m.query).filterMap
          (m.files.complaint? m.descriptor m.query.context.mode)).map ([·]))⟩) := by
  rw [check_allRegistered, foldl_checkModule, Context.evaluateAll_settled settled,
    List.filterMap_map, List.map_filterMap]
  congr 5
  funext name
  exact m.block?_existence_eq name _

end ModuleQuery

/-- Checking all registered modules from any state of a chain in which nothing is pending.
No name is refused. Every registered one is looked for, in the order of the working set,
and complained of in a block of its own behind the report so far; the chain counts as
failed if it did before or there is a complaint. All else stays. -/
theorem Checker.registered_modules_checked (k : Checker) {m : ModuleQuery}
    (reached : Reaches ModuleQuery.perform k.checkingModule m)
    (settled : m.query.context.findings.pending = []) :
    let names := (m.query.workingElements.filter (·.Registers k.matching)).map (·.value.display)
    let complaints := names.filterMap (k.files.complaint? k.descriptor m.query.context.mode)
    ∃ n, m.check .allRegisteredModulesExist = .ok n ∧
      n.asked = m.asked ++ names.flatMap (k.files.questionsOn k.descriptor) ∧
      n.query.context.findings.report = m.query.context.findings.report ++
        String.join (complaints.map fun complaint => "Error(s) occurred:\n" ++ complaint ++ "\n") ∧
      n.query.context.findings.failed =
        (m.query.context.findings.failed || !complaints.isEmpty) ∧
      n.query.context.findings.pending = [] ∧ n.query.context.mode = m.query.context.mode ∧
      n.query = { m.query with context := n.query.context } ∧
      n.files = m.files ∧ n.descriptor = m.descriptor := by
  obtain ⟨files, descriptor⟩ := ModuleQuery.files_of_reaches reached
  have matching : m.query.matching = k.matching :=
    (ModuleQuery.narrowsTo_of_reaches reached).matching
  intro names complaints
  have registered : ModuleQuery.registeredNames m.query = names := by
    rw [ModuleQuery.registeredNames_eq, matching]
  have checked := ModuleQuery.check_allRegistered_settled settled
  rw [registered, files, descriptor] at checked
  have questions (name : String) :
      (ModuleQuery.lookFor m.files m.descriptor name).1 =
        k.files.questionsOn k.descriptor name := by
    rw [ModuleQuery.lookFor_eq, files, descriptor]
    rfl
  refine ⟨_, checked, ?_, ?_, ?_, rfl, rfl, rfl, rfl, rfl⟩
  · simp only [ModuleQuery.withContext, ModuleQuery.ask, questions]
  · have blocks : (complaints.map ([·])).map Findings.block =
        complaints.map fun complaint => "Error(s) occurred:\n" ++ complaint ++ "\n" := by
      rw [List.map_map]
      exact List.map_congr_left fun complaint _ => Findings.block_singleton complaint
    rw [← blocks]
    rfl
  · rw [← List.isEmpty_map]
    rfl

/-- The first of two modules is registered twice and has a directory, the second is not
there; a blank name and a null are passed over. -/
def registeringChecker : Checker where
  elements := #[⟨"modules.module", .array
      [.text "a", .text " ", .null, .text "b", .text "a"]⟩,
    ⟨"modules.module[0]", .text "a"⟩, ⟨"modules.module[1]", .text " "⟩,
    ⟨"modules.module[2]", .null⟩, ⟨"modules.module[3]", .text "b"⟩,
    ⟨"modules.module[4]", .text "a"⟩]
  matching := .segment
  files := ⟨fun _ => false, (· == "a")⟩
  descriptor := "pom.xml"

theorem Checker.registered_modules_checked_on_repeated :
    ∃ m, Reaches ModuleQuery.perform registeringChecker.checkingModule m ∧
      m.query.context.findings.pending = [] ∧
      ∃ n, m.check .allRegisteredModulesExist = .ok n ∧
        n.asked = [.directory "a", .directory "b", .present "b/pom.xml", .directory "a"] ∧
        n.query.context.findings.report = "Error(s) occurred:\nearlier\n" ++
          "Error(s) occurred:\nModule 'a' directory or pom file found, but not expected\n" ++
          "Error(s) occurred:\nModule 'a' directory or pom file found, but not expected\n" := by
  have reached : Reaches ModuleQuery.perform registeringChecker.checkingModule _ :=
    .move (.call .settle) (.move (.call (.record "earlier"))
      (.move (.opening .shouldNot) .start rfl) rfl) rfl
  obtain ⟨n, checked, asked, report, -⟩ := registered_modules_checked registeringChecker reached rfl
  exact ⟨_, reached, rfl, n, checked, asked.trans (by decide), report.trans (by decide +kernel)⟩

end DescriptorCheck
