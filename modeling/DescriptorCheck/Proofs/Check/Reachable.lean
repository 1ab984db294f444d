import DescriptorCheck.Proofs.Check.Chains
import DescriptorCheck.Proofs.Check.History
import DescriptorCheck.Proofs.Check.Pointwise

set_option autoImplicit false

namespace DescriptorCheck

/-- What can be done to a chain with predicates of type `P`. The last two are done
to its context directly. -/
inductive Move (P : Type) where
  | opening (o : Opening)
  | predicate (p : P)
  | joint (j : Joint)
  | toggle
  | call (c : Call)

/-- The states that moves lead to, in whatever order they are made. A move that is
refused leads nowhere. -/
inductive Reaches {S M : Type} (perform : S → M → Except BlankArgument S) (s : S) : S → Prop where
  | start : Reaches perform s s
  | move {t u : S} (m : M) (before : Reaches perform s t) (done : perform t m = .ok u) :
    Reaches perform s u

theorem Reaches.preserves {S M : Type} {perform : S → M → Except BlankArgument S} {s t : S}
    (reached : Reaches perform s t) {I : S → Prop} (holds : I s)
    (kept : ∀ {u v m}, I u → perform u m = .ok v → I v) : I t := by
  induction reached with
  | start => exact holds
  | move m before done ih => exact kept ih done

namespace Query

def perform (q : Query) : Move Predicate → Except BlankArgument Query
  | .opening o => .ok (q.opened o)
  | .predicate p => q.check p
  | .joint j => .ok (q.joined j)
  | .toggle => .ok { q with context := q.context.toggle }
  | .call c => .ok { q with context := (q.context.perform c).1 }

/-- The second query looks at the same elements in the same way, and at no others. -/
structure NarrowsTo (q r : Query) : Prop where
  node : r.node = q.node
  matching : r.matching = q.matching
  elements : r.elements = q.elements
  working : r.working.Sublist q.working

namespace NarrowsTo

theorem refl (q : Query) : q.NarrowsTo q := ⟨rfl, rfl, rfl, List.Sublist.refl _⟩

theorem trans {q r s : Query} (first : q.NarrowsTo r) (second : r.NarrowsTo s) :
    q.NarrowsTo s where
  node := second.node.trans first.node
  matching := second.matching.trans first.matching
  elements := second.elements.trans first.elements
  working := second.working.trans first.working

theorem of_context (q : Query) (c : Context) : q.NarrowsTo { q with context := c } :=
  ⟨rfl, rfl, rfl, List.Sublist.refl _⟩

end NarrowsTo

theorem narrowsTo_of_check {q r : Query} {p : Predicate} (checked : q.check p = .ok r) :
    q.NarrowsTo r := by
  obtain ⟨-, rfl⟩ := (q.check_eq_ok_iff r p).1 checked
  exact ⟨rfl, rfl, rfl, q.select_sublist _⟩

theorem narrowsTo_of_perform {q r : Query} {m : Move Predicate} (done : q.perform m = .ok r) :
    q.NarrowsTo r := by
  cases m with
  | predicate p => exact narrowsTo_of_check done
  | opening _ | joint _ | toggle | call _ =>
    cases done
    exact .of_context q _

theorem narrowsTo_of_reaches {q r : Query} (reached : Reaches perform q r) : q.NarrowsTo r :=
  reached.preserves (.refl q) fun narrows done => narrows.trans (narrowsTo_of_perform done)

/-- A state of a chain over these elements: the working set lists some of their indices
in order, each once, so that all it looks at is there. -/
structure InOrder (q : Query) (node : String) (elements : Array Element) (matching : Matching) :
    Prop where
  node_eq : q.node = node
  matching_eq : q.matching = matching
  elements_eq : q.elements = elements
  increasing : q.working.Pairwise (· < ·)
  inRange : ∀ i ∈ q.working, i < elements.size
  present : q.working.map (fun i => q.elements[i]?) = q.workingElements.map some
  apart : q.working.Nodup

theorem map_getElem?_working {q : Query} (inRange : q.InRange) :
    q.working.map (fun i => q.elements[i]?) = q.workingElements.map some := by
  unfold InRange at inRange
  unfold workingElements resolve
  generalize q.working = indices at inRange ⊢
  induction indices with
  | nil => rfl
  | cons i rest ih =>
    have here := Array.getElem?_eq_getElem (inRange i List.mem_cons_self)
    rw [List.map_cons, List.filterMap_cons_some here, List.map_cons,
      ih fun j mem => inRange j (List.mem_cons_of_mem i mem), here]

theorem inOrder_of_narrowsTo {node : String} {elements : Array Element} {matching : Matching}
    {q : Query} (narrows : (start node elements matching).NarrowsTo q) :
    q.InOrder node elements matching := by
  obtain ⟨rfl, rfl, rfl, working⟩ := narrows
  have increasing : q.working.Pairwise (· < ·) := List.pairwise_lt_range.sublist working
  have inRange : q.InRange := fun i mem => List.mem_range.1 (working.subset mem)
  exact {
    node_eq := rfl
    matching_eq := rfl
    elements_eq := rfl
    increasing := increasing
    inRange := inRange
    present := map_getElem?_working inRange
    apart := increasing.imp Nat.ne_of_lt }

end Query

namespace ModuleQuery

def perform (m : ModuleQuery) : Move ModulePredicate → Except BlankArgument ModuleQuery
  | .opening o => .ok (m.opened o)
  | .predicate p => m.check p
  | .joint j => .ok (m.joined j)
  | .toggle => .ok (m.withContext m.query.context.toggle)
  | .call c => .ok (m.withContext (m.query.context.perform c).1)

theorem check_query_eq_ok {m n : ModuleQuery} {p : Predicate}
    (checked : m.check (.query p) = .ok n) : m.query.check p = .ok n.query := by
  rw [check_query] at checked
  cases step : m.query.check p with
  | error refusal =>
    rw [step] at checked
    cases checked
  | ok q =>
    rw [step] at checked
    cases checked
    rfl

theorem query_of_check_moduleExists {m n : ModuleQuery} {name : String}
    (checked : m.check (.moduleExists name) = .ok n) :
    ∃ c, n.query = { m.query with context := c } := by
  rw [check, checkNamed] at checked
  split at checked
  · cases checked
  · cases checked
    exact ⟨_, rfl⟩

theorem query_of_check_allRegistered {m n : ModuleQuery}
    (checked : m.check .allRegisteredModulesExist = .ok n) :
    ∃ c, n.query = { m.query with context := c } := by
  rw [check_allRegistered, foldl_checkModule] at checked
  cases checked
  exact ⟨_, rfl⟩

theorem narrowsTo_of_check {m n : ModuleQuery} {p : ModulePredicate}
    (checked : m.check p = .ok n) : m.query.NarrowsTo n.query := by
  cases p with
  | query q => exact Query.narrowsTo_of_check (check_query_eq_ok checked)
  | moduleExists name =>
    obtain ⟨c, same⟩ := query_of_check_moduleExists checked
    rw [same]
    exact .of_context m.query c
  | allRegisteredModulesExist =>
    obtain ⟨c, same⟩ := query_of_check_allRegistered checked
    rw [same]
    exact .of_context m.query c

theorem narrowsTo_of_perform {m n : ModuleQuery} {move : Move ModulePredicate}
    (done : m.perform move = .ok n) : m.query.NarrowsTo n.query := by
  cases move with
  | predicate p => exact narrowsTo_of_check done
  | opening _ | joint _ | toggle | call _ =>
    cases done
    exact .of_context m.query _

theorem narrowsTo_of_reaches {m n : ModuleQuery} (reached : Reaches perform m n) :
    m.query.NarrowsTo n.query :=
  reached.preserves (I := fun n => m.query.NarrowsTo n.query) (.refl m.query)
    fun narrows done => narrows.trans (narrowsTo_of_perform done)

end ModuleQuery

/-- Every reachable state of the chains of a checker, with predicates of either kind. -/
theorem Checker.reachable_states (k : Checker) :
    (∀ node q, Reaches Query.perform (k.checking node) q →
      q.InOrder node k.elements k.matching ∧
      ∀ p r, q.check p = .ok r → r.working.Sublist q.working) ∧
    ∀ m, Reaches ModuleQuery.perform k.checkingModule m →
      m.query.InOrder modulesNode k.elements k.matching ∧
      (∀ p n, m.check p = .ok n → n.query.working.Sublist m.query.working) ∧
      (∀ name n, m.check (.moduleExists name) = .ok n → n.query.working = m.query.working) ∧
      ∀ n, m.check .allRegisteredModulesExist = .ok n → n.query.working = m.query.working := by
  constructor
  · intro node q reached
    refine ⟨Query.inOrder_of_narrowsTo (Query.narrowsTo_of_reaches reached), ?_⟩
    intro p r checked
    exact (Query.narrowsTo_of_check checked).working
  · intro m reached
    refine ⟨Query.inOrder_of_narrowsTo (ModuleQuery.narrowsTo_of_reaches reached), ?_, ?_, ?_⟩
    · intro p n checked
      exact (ModuleQuery.narrowsTo_of_check checked).working
    · intro name n checked
      obtain ⟨c, same⟩ := ModuleQuery.query_of_check_moduleExists checked
      rw [same]
    · intro n checked
      obtain ⟨c, same⟩ := ModuleQuery.query_of_check_allRegistered checked
      rw [same]

/-- A negated chain that finds one of two elements and whose report is added to by hand. -/
theorem Checker.reachable_states_on_tag :
    ∃ q, Reaches Query.perform ((⟨#[⟨"a", .text "1"⟩, ⟨"b", .text "2"⟩], .segment,
        ⟨fun _ => false, fun _ => false⟩, "pom.xml"⟩ : Checker).checking "") q ∧
      q.working = [1] ∧
      q.InOrder "" #[⟨"a", .text "1"⟩, ⟨"b", .text "2"⟩] .segment := by
  have reached : Reaches Query.perform ((⟨#[⟨"a", .text "1"⟩, ⟨"b", .text "2"⟩], .segment,
      ⟨fun _ => false, fun _ => false⟩, "pom.xml"⟩ : Checker).checking "") _ :=
    .move (.call (.record "later"))
      (.move (.predicate (.tag "b")) (.move (.opening .shouldNot) .start rfl) rfl) rfl
  exact ⟨_, reached, by rfl, ((reachable_states _).1 "" _ reached).1⟩

end DescriptorCheck
