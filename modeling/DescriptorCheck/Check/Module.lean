import DescriptorCheck.Check.Predicate
import DescriptorCheck.Files.PathName

set_option autoImplicit false

namespace DescriptorCheck

/-- What is known of files: whether a path leads anywhere, and whether to a directory. The
answers are those of one moment, so files do not change while a chain is checked. -/
structure Surroundings where
  present : String → Bool
  directory : String → Bool

inductive FileQuestion where
  | present (path : String)
  | directory (path : String)
deriving DecidableEq

def modulesNode : String := "modules"

def moduleEntries : String := "modules.module"

structure ModuleQuery where
  query : Query
  files : Surroundings
  descriptor : String
  asked : List FileQuestion

inductive ModulePredicate where
  | query (p : Predicate)
  | moduleExists (name : String)
  | allRegisteredModulesExist

namespace ModulePredicate

def registered (name : String) : ModulePredicate := .query (.contains name)

def arguments : ModulePredicate → List (Argument × String)
  | query p => p.arguments
  | moduleExists name => [(.moduleName, name)]
  | allRegisteredModulesExist => []

end ModulePredicate

namespace ModuleQuery

/-- The questions asked about a module, and whether it exists. -/
def lookFor (files : Surroundings) (descriptor name : String) : List FileQuestion × Bool :=
  let descriptorPath := PathName.join name descriptor
  if files.directory name then ([.directory name], true)
  else ([.directory name, .present descriptorPath], files.present descriptorPath)

def unexpectedMessage (name : String) : String :=
  "Module '" ++ name ++ "' directory or pom file found, but not expected"

def missingMessage (name : String) : String :=
  "Module '" ++ name ++ "' directory or pom file not found while expected"

def checkModule (m : ModuleQuery) (name : String) : ModuleQuery :=
  let (questions, found) := lookFor m.files m.descriptor name
  { m with
    query := m.query.conclude found [unexpectedMessage name] (missingMessage name)
    asked := m.asked ++ questions }

/-- Checks the module of this name, or refuses a blank name before any file is asked. -/
def checkNamed (m : ModuleQuery) (name : String) : Except BlankArgument ModuleQuery :=
  match BlankArgument.first? [(.moduleName, name)] with
  | some refusal => .error refusal
  | none => .ok (m.checkModule name)

/-- The names registered in the working set: forms of scalars that are not blank. -/
def registeredNames (q : Query) : List String :=
  q.workingElements.filterMap fun e =>
    if q.isUnder e.path moduleEntries && !e.value.isContainer then
      e.value.form?.filter fun name => !Text.isBlank name
    else none

def check (m : ModuleQuery) : ModulePredicate → Except BlankArgument ModuleQuery
  | .query p => do
    let q ← m.query.check p
    return { m with query := q }
  | .moduleExists name => m.checkNamed name
  | .allRegisteredModulesExist => (registeredNames m.query).foldlM checkNamed m

theorem isBlank_of_mem_registeredNames {q : Query} {name : String}
    (mem : name ∈ registeredNames q) : Text.isBlank name = false := by
  obtain ⟨e, -, told⟩ := List.mem_filterMap.1 mem
  split at told
  · simpa using (Option.filter_eq_some_iff.1 told).2
  · cases told

theorem checkNamed_of_not_isBlank (m : ModuleQuery) {name : String}
    (spelt : Text.isBlank name = false) : m.checkNamed name = .ok (m.checkModule name) := by
  simp [checkNamed, BlankArgument.first?, spelt]

theorem foldlM_checkNamed (m : ModuleQuery) {names : List String}
    (spelt : ∀ name ∈ names, Text.isBlank name = false) :
    names.foldlM checkNamed m = .ok (names.foldl checkModule m) := by
  induction names generalizing m with
  | nil => rfl
  | cons name rest ih =>
    obtain ⟨here, behind⟩ := List.forall_mem_cons.1 spelt
    rw [List.foldlM_cons, m.checkNamed_of_not_isBlank here]
    exact ih (m.checkModule name) behind

theorem check_allRegistered (m : ModuleQuery) : m.check .allRegisteredModulesExist =
    .ok ((registeredNames m.query).foldl checkModule m) :=
  m.foldlM_checkNamed fun _ mem => isBlank_of_mem_registeredNames mem

end ModuleQuery

end DescriptorCheck
