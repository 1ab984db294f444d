import DescriptorCheck.Files.Tree
import DescriptorCheck.Path.Matching
import DescriptorCheck.Toml.Reader

set_option autoImplicit false

namespace DescriptorCheck

structure Config where
  defaultDocument : String
  pathMatching : Matching
  moduleRoot : String
  moduleDescriptor : String
deriving DecidableEq

namespace Config

def usual : Config := ⟨"pom.xml", .usual, ".", "pom.xml"⟩

/-- A text field: the default if it is missing, nothing if it is no string. -/
def textField (usual : String) : Option Toml.Node → Option String
  | none => some usual
  | some (.string s) => some s
  | some _ => none

def isEmptyNode : Toml.Node → Bool
  | .array items => items.isEmpty
  | .table _ entries => entries.isEmpty
  | .tables items => items.isEmpty
  | _ => false

/-- The matching field: a name, or a table whose one key is a name and holds nothing. -/
def matchingField : Option Toml.Node → Option Matching
  | none => some .usual
  | some (.string s) => Matching.ofName? s
  | some (.table _ [(name, content)]) =>
    if isEmptyNode content then Matching.ofName? name else none
  | some _ => none

def ofEntries? (entries : Toml.Entries) : Option Config := do
  return {
    defaultDocument := ← textField usual.defaultDocument (entries.lookup "default_document")
    pathMatching := ← matchingField (entries.lookup "path_matching")
    moduleRoot := ← textField usual.moduleRoot (entries.lookup "module_root")
    moduleDescriptor := ← textField usual.moduleDescriptor (entries.lookup "module_descriptor") }

def ofText (text : String) : Config := ((Toml.read? text).bind ofEntries?).getD usual

def fieldLine (key value : String) : String :=
  key ++ " = " ++ String.ofList (Toml.Quoted.encode value) ++ "\n"

def toText (c : Config) : String :=
  fieldLine "default_document" c.defaultDocument
    ++ fieldLine "path_matching" c.pathMatching.name
    ++ fieldLine "module_root" c.moduleRoot
    ++ fieldLine "module_descriptor" c.moduleDescriptor

/-- The configuration that a file holds, given what reading its bytes came to. -/
def ofFile (content : Except FileFault (List UInt8)) : Config :=
  match content with
  | .ok bytes =>
    match Text.ofUtf8? bytes with
    | some text => ofText text
    | none => usual
  | .error _ => usual

def isInvalid : Except FileFault (List UInt8) → Bool
  | .ok bytes => (Text.ofUtf8? bytes).any fun text => ((Toml.read? text).bind ofEntries?).isNone
  | .error _ => false

def pathBelow (home : String) : String := PathName.join home ".config/pomassert/config.toml"

def load (files : FileTree) (path : String) : Config := ofFile (files.read path)

inductive SaveError where
  | notCreated (directory : String) (fault : FileFault)
  | notWritten (path : String) (fault : FileFault)
deriving DecidableEq

namespace SaveError

def message : SaveError → String
  | notCreated directory _ => "Failed to create " ++ directory
  | notWritten path _ => "Failed to write " ++ path

def fault : SaveError → FileFault
  | notCreated _ fault => fault
  | notWritten _ fault => fault

end SaveError

/-- Writes the configuration to a file and makes the directories above it. -/
def save (c : Config) (files : FileTree) (path : String) : Except SaveError FileTree := do
  let made ←
    match PathName.parent? path with
    | some directory => (files.makeDirectories directory).mapError (.notCreated directory)
    | none => .ok files
  (made.write path (Text.toUtf8 c.toText)).mapError (.notWritten path)

end Config

end DescriptorCheck
