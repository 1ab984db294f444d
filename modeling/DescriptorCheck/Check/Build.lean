import DescriptorCheck.Check.Scope
import DescriptorCheck.Path.Element
import DescriptorCheck.Text.Affix

set_option autoImplicit false

namespace DescriptorCheck.Build

def propertiesNode : String := "properties"

def executionsEnding : String := ".executions.execution"

def dependencyKey : String := "dependency"

/-- The characters of a path without one index at the end; none if the brackets at
the end hold anything but digits. -/
def stripIndexChars? (path : List Char) : Option (List Char) :=
  match path.reverse with
  | ']' :: rest =>
    match rest.dropWhile Char.isDigit with
    | '[' :: head => some head.reverse
    | _ => none
  | _ => some path

def stripIndex? (path : String) : Option String :=
  (stripIndexChars? path.toList).map String.ofList

def executionOwner? (path : String) : Option String :=
  (stripIndex? path).bind (Text.stripEnding? executionsEnding)

def isDependencyPath (path : String) : Bool :=
  match stripIndex? path with
  | some entry => (Text.split '.' entry).getLast? == some dependencyKey
  | none => false

def hasField (v : Value) (key form : String) : Bool :=
  (v.get? key).bind Value.form? == some form

def runsGoal (execution : Value) (goal : String) : Bool :=
  match execution.getDotted? "goals.goal" with
  | some goals => goals.items.any fun g => g.form? == some goal
  | none => false

/-- The scope that a dependency declares, or has by declaring none; nothing for
values that are no objects and for names that are no scopes. -/
def declaredScope? (dependency : Value) : Option Scope :=
  if dependency.isObject then
    match (dependency.get? "scope").bind Value.form? with
    | some name => Scope.ofName? name
    | none => some .undeclared
  else none

theorem stripIndexChars?_of_not_bracket {path : List Char} (h : path.getLast? ≠ some ']') :
    stripIndexChars? path = some path := by
  unfold stripIndexChars?
  split
  · rename_i rest reversed
    have : path = (']' :: rest).reverse := by rw [← reversed, List.reverse_reverse]
    exact absurd (by simp [this]) h
  · rfl

end DescriptorCheck.Build
