import DescriptorCheck.CommandLine.Arguments
import DescriptorCheck.CommandLine.Log
import DescriptorCheck.Json.Writer

set_option autoImplicit false

/-! The configuration is read first, then the document, then the command is run. The first error
of these ends the run with code 1, and so does a failed assertion. -/
namespace DescriptorCheck.CommandLine

/-- What a run ends with. Standard error gets the log and then `err`, which leaves out what
caused an error. -/
structure Outcome where
  code : Nat
  out : String
  err : String
  log : List LogLine
deriving DecidableEq

namespace Outcome

def success (out : String) : Outcome := ⟨0, out, "", []⟩

def failure (message : String) : Outcome := ⟨1, "", "Error: " ++ message ++ "\n", []⟩

/-- The outcome behind other lines of the log, of which the written ones are kept. -/
def logged (o : Outcome) (verbose : Bool) (before : List LogLine) : Outcome :=
  { o with log := (before ++ o.log).filter (·.isWritten verbose) }

end Outcome

def versionText : String := "pomassert 0.1.0\n"

def usageText : String :=
  "Usage: pomassert [--file FILE] [--verbose] paths [--prefix NODE] [--json]\n"
    ++ "       pomassert [--file FILE] [--verbose] check --node NODE [--not] [--tag TAG]\n"
    ++ "                 [--contains TEXT] [--equals TEXT] [--property NAME] [--reason TEXT]\n"

namespace Assertion

/-- All predicates in the order in which they are checked: by kind, then as given. -/
def predicates (a : Assertion) : List Predicate :=
  a.tags.map .tag ++ a.contained.map .contains ++ a.equalled.map .equals
    ++ a.properties.map .property

def opening (a : Assertion) : Opening := if a.negated then .shouldNot else .should

/-- The verdict of a finished chain, with the reason in front of its report. -/
def verdict (a : Assertion) (q : Query) : Except String Unit :=
  match a.reason with
  | some reason => q.verdictBecause reason
  | none => q.verdict

end Assertion

def runCheck (elements : List Element) (matching : Matching) (a : Assertion) : Outcome :=
  if a.predicates.isEmpty then
    .failure "check needs at least one of --tag, --contains, --equals or --property"
  else
    let q := (Query.start a.node elements.toArray matching).opened a.opening
    let outcome : Outcome :=
      match q.checkAll a.predicates with
      | .error refusal => .failure refusal.message
      | .ok q =>
        match a.verdict q with
        | .ok _ => .success ("✓ " ++ a.node ++ " passed\n")
        | .error report => ⟨1, "", report, []⟩
    { outcome with log := checkLog q a.predicates }

def listed (elements : List Element) (matching : Matching) : Option String → List Element
  | some node => elements.filter fun e => matching.isUnder e.path node
  | none => elements

def elementLine (json : Bool) (e : Element) : String :=
  if json then Json.elementLine e else e.path ++ " = " ++ e.value.display

def runPaths (elements : List Element) (matching : Matching) (node : Option String)
    (json : Bool) : Outcome :=
  .success (String.join ((listed elements matching node).map fun e => elementLine json e ++ "\n"))

def runCommand (config : Config) (document : Except LoadError Document) (command : Command) :
    Outcome :=
  match document with
  | .error e => .failure e.message
  | .ok d =>
    match command with
    | .paths node json => runPaths d.elements config.pathMatching node json
    | .check a => runCheck d.elements config.pathMatching a

def stopped : Stop → Outcome
  | .usage => ⟨2, "", usageText, []⟩
  | .version => .success versionText
  | .help => .success usageText

/-- What a run asks of the system that it is on. -/
structure System (m : Type → Type) where
  home? : m (Option String)
  readFile : String → m (Except FileFault (List UInt8))
  /-- What standard input holds; nothing is read of a terminal. -/
  input? : m (Option (List UInt8))

section System

variable {m : Type → Type} [Monad m] (s : System m)

/-- The configuration of the home directory, with what the log says of it. -/
def System.config : m (Config × List LogLine) := do
  match ← s.home? with
  | none => return (.usual, [])
  | some home =>
    let path := Config.pathBelow home
    let content ← s.readFile path
    return (Config.ofFile content, configLog path content)

def System.documentAt (path : String) : m (Except LoadError Document × List LogLine) := do
  let content ← s.readFile path
  return (Document.ofFile path content, loadLog path content)

/-- The document of a file, if one is given, or else of standard input; with a terminal
there, of the file that the configuration names. -/
def System.document (config : Config) :
    Option String → m (Except LoadError Document × List LogLine)
  | some path => s.documentAt path
  | none => do
    match ← s.input? with
    | some bytes => return (Document.ofInput bytes, [])
    | none => s.documentAt config.defaultDocument

def run (args : List String) : m Outcome := do
  match read args with
  | .error stop => return stopped stop
  | .ok invocation =>
    let (config, configLog) ← s.config
    let (document, loadLog) ← s.document config invocation.file
    let outcome := runCommand config document invocation.command
    return outcome.logged invocation.verbose (configLog ++ loadLog)

end System

end DescriptorCheck.CommandLine
