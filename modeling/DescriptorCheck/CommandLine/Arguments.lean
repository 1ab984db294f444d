set_option autoImplicit false

/-! Switches stand behind the command, letters behind one dash. The value of a switch follows
behind `=`, behind its letter, or as the next argument, which then must not look like a switch.
-/
namespace DescriptorCheck.CommandLine

inductive Switch where
  | file
  | verbose
  | version
  | help
  | pathBeginning
  | json
  | node
  | negate
  | tag
  | contains
  | equals
  | property
  | reason
deriving DecidableEq

namespace Switch

def long : Switch → String
  | file => "file"
  | verbose => "verbose"
  | version => "version"
  | help => "help"
  | pathBeginning => "prefix"
  | json => "json"
  | node => "node"
  | negate => "not"
  | tag => "tag"
  | contains => "contains"
  | equals => "equals"
  | property => "property"
  | reason => "reason"

def letter? : Switch → Option Char
  | file => some 'f'
  | verbose => some 'v'
  | version => some 'V'
  | help => some 'h'
  | _ => none

def takesValue : Switch → Bool
  | verbose | version | help | json | negate => false
  | _ => true

def repeats : Switch → Bool
  | tag | contains | equals | property => true
  | _ => false

end Switch

inductive Stop where
  | usage
  | version
  | help
deriving DecidableEq

abbrev Given := List (Switch × String)

namespace Given

def values (given : Given) (s : Switch) : List String :=
  (given.filter (·.1 = s)).map (·.2)

def value? (given : Given) (s : Switch) : Option String := (given.values s).head?

def has (given : Given) (s : Switch) : Bool := given.any (·.1 = s)

def add (given : Given) (s : Switch) (value : String) : Except Stop Given :=
  match s with
  | .version => .error .version
  | .help => .error .help
  | _ => if given.has s && !s.repeats then .error .usage else .ok (given ++ [(s, value)])

end Given

/-- What a part of the arguments adds, and the switch that still lacks its value. -/
abbrev Added := Given × Option Switch

def readLong (known : List Switch) (given : Given) (cs : List Char) : Except Stop Added := do
  let name := cs.takeWhile (· != '=')
  match known.find? fun s => s.long.toList == name, cs.dropWhile (· != '=') with
  | none, _ => .error .usage
  | some s, _ :: value =>
    if s.takesValue then return (← given.add s (String.ofList value), none) else .error .usage
  | some s, [] =>
    if s.takesValue then return (given, some s) else return (← given.add s "", none)

/-- The letters behind one dash. The rest behind a letter that takes a value is that
value. -/
def readLetters (known : List Switch) : Given → List Char → Except Stop Added
  | given, [] => .ok (given, none)
  | given, c :: rest =>
    match known.find? fun s => s.letter? == some c with
    | none => .error .usage
    | some s =>
      if s.takesValue then
        match rest with
        | [] => .ok (given, some s)
        | '=' :: value => do return (← given.add s (String.ofList value), none)
        | value => do return (← given.add s (String.ofList value), none)
      else do
        readLetters known (← given.add s "") rest

def looksLikeSwitch (arg : String) : Bool :=
  match arg.toList with
  | '-' :: _ :: _ => true
  | _ => false

/-- Reads one argument as a switch or several; nothing if it is none. -/
def readArgument (known : List Switch) (given : Given) (arg : String) :
    Except Stop (Option Added) :=
  match arg.toList with
  | '-' :: '-' :: cs => (readLong known given cs).map some
  | '-' :: c :: cs => (readLetters known given (c :: cs)).map some
  | _ => .ok none

/-- Reads switches up to the first argument that is none. Two dashes alone end the
switches, and nothing may come behind them. -/
def readSwitches (known : List Switch) (given : Given) :
    List String → Except Stop (Given × List String)
  | [] => .ok (given, [])
  | "--" :: rest => if rest.isEmpty then .ok (given, []) else .error .usage
  | arg :: rest => do
    match ← readArgument known given arg with
    | none => return (given, arg :: rest)
    | some (given, none) => readSwitches known given rest
    | some (given, some s) =>
      match rest with
      | [] => .error .usage
      | value :: rest =>
        if looksLikeSwitch value then .error .usage
        else do readSwitches known (← given.add s value) rest

structure Assertion where
  node : String
  negated : Bool
  tags : List String
  contained : List String
  equalled : List String
  properties : List String
  reason : Option String
deriving DecidableEq

inductive Command where
  | paths (node : Option String) (json : Bool)
  | check (a : Assertion)
deriving DecidableEq

structure Invocation where
  file : Option String
  verbose : Bool
  command : Command
deriving DecidableEq

def generalSwitches : List Switch := [.file, .verbose, .version, .help]

def pathsSwitches : List Switch := [.file, .verbose, .help, .pathBeginning, .json]

def checkSwitches : List Switch :=
  [.file, .verbose, .help, .node, .negate, .tag, .contains, .equals, .property, .reason]

def readAllSwitches (known : List Switch) (args : List String) : Except Stop Given := do
  let (given, rest) ← readSwitches known [] args
  if rest.isEmpty then return given else .error .usage

def assertionOf (given : Given) : Except Stop Assertion :=
  match given.value? .node with
  | none => .error .usage
  | some node =>
    .ok ⟨node, given.has .negate, given.values .tag, given.values .contains,
      given.values .equals, given.values .property, given.value? .reason⟩

def read (args : List String) : Except Stop Invocation := do
  let (general, rest) ← readSwitches generalSwitches [] args
  let (given, command) ←
    match rest with
    | "paths" :: rest => do
      let given ← readAllSwitches pathsSwitches rest
      pure (given, Command.paths (given.value? .pathBeginning) (given.has .json))
    | "check" :: rest => do
      let given ← readAllSwitches checkSwitches rest
      pure (given, Command.check (← assertionOf given))
    | ["help"] | ["help", "paths"] | ["help", "check"] | ["help", "help"] => .error .help
    | _ => .error .usage
  return ⟨(given.value? .file).or (general.value? .file),
    given.has .verbose || general.has .verbose, command⟩

end DescriptorCheck.CommandLine
