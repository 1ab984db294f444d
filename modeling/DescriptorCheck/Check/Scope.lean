import DescriptorCheck.Text.Blank

set_option autoImplicit false

namespace DescriptorCheck

inductive Scope where
  | compile
  | test
  | runtime
  | provided
deriving DecidableEq

namespace Scope

def undeclared : Scope := .compile

def name : Scope → String
  | .compile => "compile"
  | .test => "test"
  | .runtime => "runtime"
  | .provided => "provided"

/-- Letters outside ASCII have no lower case among the letters of a scope name. -/
def ofName? (s : String) : Option Scope :=
  let chars := (Text.trimChars s.toList).map Char.toLower
  [compile, test, runtime, provided].find? fun scope => scope.name.toList == chars

def unknownMessage (s : String) : String := "unknown dependency scope '" ++ s ++ "'"

theorem ofName?_name (scope : Scope) : ofName? scope.name = some scope := by
  cases scope <;> decide

end Scope

end DescriptorCheck
