import DescriptorCheck.Text.Blank

set_option autoImplicit false

namespace DescriptorCheck

inductive Argument where
  | tagName
  | value
  | propertyName
  | pluginArtifactId
  | phase
  | goal
  | artifactId
  | moduleName
deriving DecidableEq

namespace Argument

def name : Argument → String
  | .tagName => "tag_name"
  | .value => "value"
  | .propertyName => "property_name"
  | .pluginArtifactId => "plugin_artifact_id"
  | .phase => "phase"
  | .goal => "goal"
  | .artifactId => "artifact_id"
  | .moduleName => "module_name"

end Argument

structure BlankArgument where
  argument : Argument
deriving DecidableEq

namespace BlankArgument

def message (refusal : BlankArgument) : String :=
  "invalid argument: '" ++ refusal.argument.name ++ "' must not be blank"

/-- The refusal of the first blank text among the arguments, if there is one. -/
def first? : List (Argument × String) → Option BlankArgument
  | [] => none
  | (argument, given) :: rest => if Text.isBlank given then some ⟨argument⟩ else first? rest

theorem first?_eq_none_iff (arguments : List (Argument × String)) :
    first? arguments = none ↔ ∀ given ∈ arguments, Text.isBlank given.2 = false := by
  induction arguments with
  | nil => simp [first?]
  | cons given rest ih =>
    obtain ⟨argument, text⟩ := given
    cases h : Text.isBlank text <;> simp [first?, h, ih]

end BlankArgument

end DescriptorCheck
