import DescriptorCheck.Proofs.Check.Chains

set_option autoImplicit false

/-! A refusal undoes no step, so it leaves the state as it was only because the arguments come
first. The steps are written out here, and what they come to is what the check comes to. -/
namespace DescriptorCheck

/-- Steps on a state. A refusal ends them and leaves the state that it met. -/
abbrev Action (S α : Type) := EStateM BlankArgument S α

namespace Action

variable {S : Type}

def require (argument : Argument) (given : String) : Action S Unit :=
  if Text.isBlank given then throw ⟨argument⟩ else pure ()

def requireAll : List (Argument × String) → Action S Unit
  | [] => pure ()
  | (argument, given) :: rest => do
    require argument given
    requireAll rest

/-- The outcome of a check as one of steps, where a refusal finds the state as it was. -/
def ofCheck (s : S) : Except BlankArgument S → EStateM.Result BlankArgument S Unit
  | .ok t => .ok () t
  | .error refusal => .error refusal s

theorem run_bind_ok {α β : Type} {action : Action S α} {s t : S} {a : α}
    (done : action.run s = .ok a t) (next : α → Action S β) :
    (action >>= next).run s = (next a).run t := by
  unfold EStateM.run at done
  change EStateM.bind action next s = _
  simp only [EStateM.bind, done]
  rfl

theorem run_requireAll (arguments : List (Argument × String)) (action : Action S Unit) (s : S) :
    (requireAll arguments >>= fun _ => action).run s =
      match BlankArgument.first? arguments with
      | some refusal => .error refusal s
      | none => action.run s := by
  induction arguments with
  | nil => rfl
  | cons given rest ih =>
    obtain ⟨argument, text⟩ := given
    rw [requireAll, bind_assoc, BlankArgument.first?]
    by_cases blank : Text.isBlank text = true
    · rw [require, if_pos blank, if_pos blank]
      rfl
    · rw [require, if_neg blank, if_neg blank]
      exact ih

end Action

namespace Query

def apply (p : Predicate) : Action Query Unit := do
  Action.requireAll p.arguments
  let q ← get
  let selected := q.select (p.accepts q)
  let found := p.disallowed q.node (q.resolve selected)
  modify fun q => q.conclude (!selected.isEmpty) found (p.missing q.node)
  modify fun q => q.narrow selected

theorem run_apply (p : Predicate) (q : Query) :
    (apply p).run q = Action.ofCheck q (q.check p) := by
  rw [apply, Action.run_requireAll, check]
  cases BlankArgument.first? p.arguments <;> rfl

end Query

def FileQuestion.answer (files : Surroundings) : FileQuestion → Bool
  | present path => files.present path
  | directory path => files.directory path

namespace ModuleQuery

def onQuery (action : Action Query Unit) : Action ModuleQuery Unit := fun m =>
  match action.run m.query with
  | .ok _ q => .ok () { m with query := q }
  | .error refusal q => .error refusal { m with query := q }

def askFiles (question : FileQuestion) : Action ModuleQuery Bool := do
  modify fun m => { m with asked := m.asked ++ [question] }
  return question.answer (← get).files

def askFor (name : String) : Action ModuleQuery Bool := do
  if ← askFiles (.directory name) then return true
  askFiles (.present (PathName.join name (← get).descriptor))

def applyNamed (name : String) : Action ModuleQuery Unit := do
  Action.requireAll [(.moduleName, name)]
  let found ← askFor name
  modify fun m => { m with
    query := m.query.conclude found [unexpectedMessage name] (missingMessage name) }

def apply : ModulePredicate → Action ModuleQuery Unit
  | .query p => onQuery (Query.apply p)
  | .moduleExists name => applyNamed name
  | .allRegisteredModulesExist => do
    (registeredNames (← get).query).forM applyNamed

theorem run_askFor (name : String) (m : ModuleQuery) :
    (askFor name).run m =
      .ok (lookFor m.files m.descriptor name).2
        { m with asked := m.asked ++ (lookFor m.files m.descriptor name).1 } := by
  have first : (askFiles (.directory name)).run m =
      .ok (m.files.directory name) { m with asked := m.asked ++ [.directory name] } := rfl
  rw [askFor, Action.run_bind_ok first, lookFor]
  by_cases there : m.files.directory name = true
  · rw [if_pos there, if_pos there]
    rfl
  · rw [if_neg there, if_neg there]
    change EStateM.Result.ok _ { m with asked := (m.asked ++ [_]) ++ [_] } = _
    rw [List.append_assoc]
    rfl

theorem run_applyNamed (name : String) (m : ModuleQuery) :
    (applyNamed name).run m = Action.ofCheck m (m.checkNamed name) := by
  rw [applyNamed, Action.run_requireAll, checkNamed]
  cases BlankArgument.first? [(Argument.moduleName, name)] with
  | some refusal => rfl
  | none =>
    dsimp only
    rw [Action.run_bind_ok (run_askFor name m)]
    rfl

/-- Of names that are not blank none is refused, whatever the checks before it found. -/
theorem run_forM_applyNamed {names : List String}
    (spelt : ∀ name ∈ names, Text.isBlank name = false) (m : ModuleQuery) :
    (names.forM applyNamed).run m = .ok () (names.foldl checkModule m) := by
  induction names generalizing m with
  | nil => rfl
  | cons name rest ih =>
    obtain ⟨here, behind⟩ := List.forall_mem_cons.1 spelt
    have done := run_applyNamed name m
    rw [m.checkNamed_of_not_isBlank here] at done
    rw [List.forM, Action.run_bind_ok done]
    exact ih behind (m.checkModule name)

theorem run_apply (p : ModulePredicate) (m : ModuleQuery) :
    (apply p).run m = Action.ofCheck m (m.check p) := by
  cases p with
  | query p =>
    rw [check_query]
    change (match (Query.apply p).run m.query with | .ok _ _ => _ | .error _ _ => _) = _
    rw [Query.run_apply]
    cases m.query.check p <;> rfl
  | moduleExists name => exact run_applyNamed name m
  | allRegisteredModulesExist =>
    rw [check_allRegistered]
    exact run_forM_applyNamed (fun _ mem => isBlank_of_mem_registeredNames mem) m

end ModuleQuery

def Text.OnlyBlanks (s : String) : Prop := ∀ c ∈ s.toList, isBlankChar c = true

theorem Text.isBlank_iff (s : String) : isBlank s = true ↔ OnlyBlanks s := List.all_eq_true

instance (s : String) : Decidable (Text.OnlyBlanks s) := decidable_of_iff _ (Text.isBlank_iff s)

/-- Of named texts, the first blank one has this name. -/
inductive IsFirstBlank (name : String) : List (String × String) → Prop
  | here {text : String} {rest : List (String × String)} (blank : Text.OnlyBlanks text) :
      IsFirstBlank name ((name, text) :: rest)
  | later {given : String × String} {rest : List (String × String)}
      (spelt : ¬Text.OnlyBlanks given.2) (behind : IsFirstBlank name rest) :
      IsFirstBlank name (given :: rest)

theorem Argument.name_injective {a b : Argument} (same : a.name = b.name) : a = b := by
  cases a <;> cases b <;> first | rfl | exact absurd same (by decide)

namespace BlankArgument

def named (arguments : List (Argument × String)) : List (String × String) :=
  arguments.map fun given => (given.1.name, given.2)

theorem first?_eq_some_iff (arguments : List (Argument × String)) (refusal : BlankArgument) :
    first? arguments = some refusal ↔ IsFirstBlank refusal.argument.name (named arguments) := by
  induction arguments with
  | nil => exact iff_of_false nofun nofun
  | cons given rest ih =>
    obtain ⟨argument, text⟩ := given
    rw [first?]
    split
    · rename_i blank
      rw [Text.isBlank_iff] at blank
      constructor
      · rintro ⟨⟩
        exact .here blank
      · intro first
        generalize told : refusal.argument.name = name at first
        cases first with
        | here => exact congrArg some (congrArg mk (Argument.name_injective told.symm))
        | later spelt => exact absurd blank spelt
    · rename_i spelt
      rw [Text.isBlank_iff] at spelt
      rw [ih]
      constructor
      · exact .later spelt
      · intro first
        generalize refusal.argument.name = name at first
        cases first with
        | here blank => exact absurd blank spelt
        | later _ behind => exact behind

theorem first?_eq_none_iff_spelt (arguments : List (Argument × String)) :
    first? arguments = none ↔ ∀ given ∈ named arguments, ¬Text.OnlyBlanks given.2 := by
  simp only [first?_eq_none_iff, named, List.forall_mem_map, ← Text.isBlank_iff,
    Bool.not_eq_true]

end BlankArgument

/-- Steps that are refused just for the first blank one of the named texts, and then leave
the state as it was, whatever state it was. -/
structure RefusesBlanks {S : Type} (action : Action S Unit) (texts : List (String × String)) :
    Prop where
  refused_iff : ∀ s t refusal,
    action.run s = .error refusal t ↔ t = s ∧ IsFirstBlank refusal.argument.name texts
  done_iff : ∀ s, (∃ t, action.run s = .ok () t) ↔ ∀ given ∈ texts, ¬Text.OnlyBlanks given.2

theorem Analyzer.refusesBlanks {S P : Type} (a : Analyzer S P) {p : P} {action : Action S Unit}
    (run : ∀ s, action.run s = Action.ofCheck s (a.check s p)) :
    RefusesBlanks action (BlankArgument.named (a.arguments p)) := by
  constructor
  · intro s t refusal
    rw [run, a.check_eq, ← BlankArgument.first?_eq_some_iff]
    cases BlankArgument.first? (a.arguments p) with
    | none => simp [Action.ofCheck]
    | some first => simp [Action.ofCheck, eq_comm, and_comm]
  · intro s
    rw [run, a.check_eq, ← BlankArgument.first?_eq_none_iff_spelt]
    cases BlankArgument.first? (a.arguments p) <;> simp [Action.ofCheck]

/-- Every predicate in every state, on a document and on modules. Its steps come to what
its check comes to. They are refused just if an argument is blank, for the first blank one
in the order of the arguments, and the state is then what it was before: mode, findings
and working set, and the questions that the files were asked. Checking all registered
modules has no argument and is never refused. -/
theorem blank_arguments_leave_no_trace :
    (∀ (p : Predicate) (q : Query), (Query.apply p).run q = Action.ofCheck q (q.check p)) ∧
    (∀ (p : ModulePredicate) (m : ModuleQuery),
      (ModuleQuery.apply p).run m = Action.ofCheck m (m.check p)) ∧
    (∀ name, RefusesBlanks (Query.apply (.tag name)) [("tag_name", name)]) ∧
    (∀ text, RefusesBlanks (Query.apply (.contains text)) [("value", text)]) ∧
    (∀ text, RefusesBlanks (Query.apply (.equals text)) [("value", text)]) ∧
    (∀ name, RefusesBlanks (Query.apply (.property name)) [("property_name", name)]) ∧
    (∀ artifactId phase goal, RefusesBlanks (Query.apply (.execution artifactId phase goal))
      [("plugin_artifact_id", artifactId), ("phase", phase), ("goal", goal)]) ∧
    (∀ artifactId scope, RefusesBlanks (Query.apply (.dependency artifactId scope))
      [("artifact_id", artifactId)]) ∧
    (∀ name, RefusesBlanks (ModuleQuery.apply (.query (.tag name))) [("tag_name", name)]) ∧
    (∀ text, RefusesBlanks (ModuleQuery.apply (.query (.contains text))) [("value", text)]) ∧
    (∀ text, RefusesBlanks (ModuleQuery.apply (.query (.equals text))) [("value", text)]) ∧
    (∀ name, RefusesBlanks (ModuleQuery.apply (.registered name)) [("value", name)]) ∧
    (∀ name, RefusesBlanks (ModuleQuery.apply (.moduleExists name)) [("module_name", name)]) ∧
    RefusesBlanks (ModuleQuery.apply .allRegisteredModulesExist) [] := by
  have onDocument (p : Predicate) :
      RefusesBlanks (Query.apply p) (BlankArgument.named p.arguments) :=
    Query.analyzer.refusesBlanks (Query.run_apply p)
  have onModules (p : ModulePredicate) :
      RefusesBlanks (ModuleQuery.apply p) (BlankArgument.named p.arguments) :=
    ModuleQuery.analyzer.refusesBlanks (ModuleQuery.run_apply p)
  exact ⟨Query.run_apply, ModuleQuery.run_apply, fun name => onDocument (.tag name),
    fun text => onDocument (.contains text), fun text => onDocument (.equals text),
    fun name => onDocument (.property name),
    fun artifactId phase goal => onDocument (.execution artifactId phase goal),
    fun artifactId scope => onDocument (.dependency artifactId scope),
    fun name => onModules (.query (.tag name)), fun text => onModules (.query (.contains text)),
    fun text => onModules (.query (.equals text)), fun name => onModules (.registered name),
    fun name => onModules (.moduleExists name), onModules .allRegisteredModulesExist⟩

end DescriptorCheck
