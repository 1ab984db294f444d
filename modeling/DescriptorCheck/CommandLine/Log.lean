import DescriptorCheck.Check.Chain
import DescriptorCheck.Config
import DescriptorCheck.Document.Load

set_option autoImplicit false

namespace DescriptorCheck.CommandLine

inductive LogLevel where
  | warn
  | debug
deriving DecidableEq

/-- One line of the log, without its time and without what a library tells. -/
structure LogLine where
  level : LogLevel
  message : String
  fields : List (String × String)
deriving DecidableEq

namespace LogLine

def isWritten (verbose : Bool) (line : LogLine) : Bool := verbose || line.level == .warn

def text (line : LogLine) : String :=
  let level := match line.level with
    | .warn => "WARN"
    | .debug => "DEBUG"
  level ++ " " ++ line.message
    ++ String.join (line.fields.map fun field => " " ++ field.1 ++ "=" ++ field.2) ++ "\n"

end LogLine

def configLog (path : String) (content : Except FileFault (List UInt8)) : List LogLine :=
  if Config.isInvalid content then [⟨.warn, "ignoring invalid config", [("path", path)]⟩] else []

def loadLog (path : String) (content : Except FileFault (List UInt8)) : List LogLine :=
  match Document.fileText path content with
  | .ok text =>
    let format := (Format.ofPath? path).getD (Format.sniff text)
    [⟨.debug, "loading document", [("path", path), ("format", "\"" ++ format.name ++ "\"")]⟩]
  | .error _ => []

def checkLine (q : Query) (found : Bool) : LogLine :=
  ⟨.debug, "assertion evaluated", [("node", q.node), ("found", toString found),
    ("negated", toString q.context.isNegated)]⟩

/-- One line for each predicate that is checked, up to the first that is refused. -/
def checkLog (q : Query) : List Predicate → List LogLine
  | [] => []
  | p :: rest =>
    match q.check p with
    | .error _ => []
    | .ok r => checkLine q (!r.working.isEmpty) :: checkLog (r.joined .and) rest

end DescriptorCheck.CommandLine
