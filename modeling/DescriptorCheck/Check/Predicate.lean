import DescriptorCheck.Check.Argument
import DescriptorCheck.Check.Build
import DescriptorCheck.Check.Query

set_option autoImplicit false

/-! All predicates but the one on plugins look at one element at a time: an execution is
accepted only if the element of its plugin is still in the working set. -/
namespace DescriptorCheck

inductive Predicate where
  | tag (name : String)
  | contains (text : String)
  | equals (text : String)
  /-- A property has the name in its path, wherever the chain's node is. -/
  | property (name : String)
  | execution (artifactId phase goal : String)
  | dependency (artifactId : String) (scope : Scope)
deriving DecidableEq

namespace Predicate

def arguments : Predicate → List (Argument × String)
  | tag name => [(.tagName, name)]
  | contains text => [(.value, text)]
  | equals text => [(.value, text)]
  | property name => [(.propertyName, name)]
  | execution artifactId phase goal =>
    [(.pluginArtifactId, artifactId), (.phase, phase), (.goal, goal)]
  | dependency artifactId _ => [(.artifactId, artifactId)]

def pluginPaths (q : Query) (artifactId : String) : List String :=
  (q.workingElements.filter fun e =>
    q.inScope e.path && Build.hasField e.value "artifactId" artifactId).map Element.path

def accepts (q : Query) : Predicate → Element → Bool
  | tag name => fun e => q.inScope e.path && q.matching.endsWithTag e.path name
  | contains text => fun e =>
    q.inScope e.path &&
    match e.value.form? with
    | some form => Text.contains form text
    | none => false
  | equals text => fun e => q.inScope e.path && e.value.form? == some text
  | property name => fun e =>
    q.isUnder e.path Build.propertiesNode && Text.contains e.path name
  | execution artifactId phase goal =>
    let plugins := pluginPaths q artifactId
    fun e =>
      q.inScope e.path
      && (match Build.executionOwner? e.path with
          | some owner => plugins.contains owner
          | none => false)
      && Build.hasField e.value "phase" phase
      && Build.runsGoal e.value goal
  | dependency artifactId scope => fun e =>
    q.inScope e.path && Build.isDependencyPath e.path
      && Build.hasField e.value "artifactId" artifactId
      && Build.declaredScope? e.value == some scope

def unexpected (node : String) : Predicate → String
  | tag name =>
    name ++ " found in " ++ node ++ " where it is not allowed. \nFound disallowed value: "
  | contains text => "Value '" ++ text ++ "' found in " ++ node ++ " where it is not allowed"
  | equals text => "Value '" ++ text ++ "' found in " ++ node ++ " where it is not allowed"
  | property name => "Property '" ++ name ++ "' found where not allowed"
  | execution artifactId phase goal =>
    "Plugin '" ++ artifactId ++ "' found in phase '" ++ phase ++ "' for goal '" ++ goal
      ++ "' where this is not permitted"
  | dependency artifactId scope =>
    "Dependency '" ++ artifactId ++ "' found with scope '" ++ scope.name ++ "' in " ++ node
      ++ " where it is not allowed"

/-- The lines below it, which only tags have: the values that were found. -/
def listed : Predicate → List Element → List String
  | tag _, found => found.map fun e => "- " ++ e.value.display
  | _, _ => []

def disallowed (node : String) (p : Predicate) (found : List Element) : List String :=
  p.unexpected node :: p.listed found

def missing (node : String) : Predicate → String
  | tag name => "No " ++ name ++ " found in " ++ node ++ " where it is required"
  | contains text => "Value '" ++ text ++ "' not found in " ++ node ++ " where it is required"
  | equals text => "Value '" ++ text ++ "' not found in " ++ node ++ " where it is required"
  | property name => "Required property '" ++ name ++ "' not found"
  | execution artifactId phase goal =>
    "Plugin '" ++ artifactId ++ "' not found in given phase '" ++ phase ++ "' for goal '"
      ++ goal ++ "'"
  | dependency artifactId scope =>
    "Dependency '" ++ artifactId ++ "' with scope '" ++ scope.name ++ "' not found in " ++ node
      ++ " where it is required"

end Predicate

namespace Query

/-- Checks a predicate, or refuses it and leaves the query as it is. -/
def check (q : Query) (p : Predicate) : Except BlankArgument Query :=
  match BlankArgument.first? p.arguments with
  | some refusal => .error refusal
  | none => .ok (q.keep (p.accepts q) (p.disallowed q.node) (p.missing q.node))

theorem check_eq_ok_iff (q r : Query) (p : Predicate) :
    q.check p = .ok r ↔
      BlankArgument.first? p.arguments = none ∧
      q.keep (p.accepts q) (p.disallowed q.node) (p.missing q.node) = r := by
  unfold check
  cases BlankArgument.first? p.arguments <;> simp

end Query

end DescriptorCheck
