import DescriptorCheck.Check.Module
import DescriptorCheck.Files.PathName
import DescriptorCheck.Text.Utf8

set_option autoImplicit false

/-! A tree of files below a working directory, held in memory. Outside of it nothing is known
but the directories above. -/
namespace DescriptorCheck

inductive FileFault where
  | notFound
  | notADirectory
  | isADirectory
  | alreadyExists
  | invalidData
  | invalidInput
  | invalidFilename
deriving DecidableEq

inductive FileEntry where
  | file (content : List UInt8)
  | directory
deriving DecidableEq

/-- Entries under the names that lead to them from the working directory. -/
structure FileTree where
  entries : List (List String × FileEntry)

namespace FileTree

inductive Place where
  | inside (names : List String)
  | outside
deriving DecidableEq

def empty : FileTree := ⟨[]⟩

/-- The entry under these names; the working directory itself has none of its own. -/
def entry? (t : FileTree) : Place → Option FileEntry
  | .inside [] => some .directory
  | .inside names => t.entries.lookup names
  | .outside => some .directory

def put (t : FileTree) (names : List String) (e : FileEntry) : FileTree :=
  ⟨(names, e) :: t.entries.filter (·.1 != names)⟩

/-- The place one piece further, before it is asked whether anything is there. -/
def Place.step : Place → String → Place
  | .inside names, ".." => if names.isEmpty then .outside else .inside names.dropLast
  | .inside names, piece =>
    if PathName.isIdle piece then .inside names else .inside (names ++ [piece])
  | .outside, _ => .outside

/-- True if a piece leads from a place to something that can be there at all. -/
def Place.leads : Place → String → Bool
  | .inside _, _ => true
  | .outside, piece => piece == ".." || PathName.isIdle piece

def follow (t : FileTree) (from_ : Place) : List String → Except FileFault Place
  | [] => .ok from_
  | piece :: rest =>
    match t.entry? from_ with
    | none => .error .notFound
    | some (.file _) => .error .notADirectory
    | some .directory =>
      if 255 < piece.utf8ByteSize then .error .invalidFilename
      else if from_.leads piece then t.follow (from_.step piece) rest
      else .error .notFound

def place (t : FileTree) (path : String) : Except FileFault Place :=
  if path.toList.contains '\x00' then .error .invalidInput
  else if path = "" then .error .notFound
  else t.follow (if PathName.isAbsolute path then .outside else .inside []) (PathName.pieces path)

def find (t : FileTree) (path : String) : Except FileFault FileEntry := do
  match t.entry? (← t.place path) with
  | some e => .ok e
  | none => .error .notFound

def isPresent (t : FileTree) (path : String) : Bool :=
  match t.find path with
  | .ok _ => true
  | .error _ => false

def isDirectory (t : FileTree) (path : String) : Bool :=
  match t.find path with
  | .ok .directory => true
  | _ => false

def read (t : FileTree) (path : String) : Except FileFault (List UInt8) := do
  match ← t.find path with
  | .file content => .ok content
  | .directory => .error .isADirectory

/-- The text of a file; bytes that are no text are at fault. -/
def readText (t : FileTree) (path : String) : Except FileFault String := do
  match Text.ofUtf8? (← t.read path) with
  | some s => .ok s
  | none => .error .invalidData

def makeDirectory (t : FileTree) (path : String) : Except FileFault FileTree := do
  let place ← t.place (String.ofList (path.toList.reverse.dropWhile (· == '/')).reverse)
  match t.entry? place, place with
  | some _, _ => .error .alreadyExists
  | none, .inside names => .ok (t.put names .directory)
  | none, .outside => .error .notFound

/-- Makes a directory and those above it that are missing, at most `depth` of them. -/
def makeDirectoriesWithin (t : FileTree) (path : String) : Nat → Except FileFault FileTree
  | 0 => .error .notFound
  | depth + 1 =>
    if path = "" then .ok t
    else
      match t.makeDirectory path with
      | .ok made => .ok made
      | .error .notFound => do
        let parent ← match PathName.parent? path with
          | some parent => .ok parent
          | none => .error .notFound
        let above ← t.makeDirectoriesWithin parent depth
        match above.makeDirectory path with
        | .ok made => .ok made
        | .error fault => if above.isDirectory path then .ok above else .error fault
      | .error fault => if t.isDirectory path then .ok t else .error fault

def makeDirectories (t : FileTree) (path : String) : Except FileFault FileTree :=
  t.makeDirectoriesWithin path (path.length + 1)

/-- Writes a file in a directory that is there; an old file is replaced. -/
def write (t : FileTree) (path : String) (content : List UInt8) : Except FileFault FileTree := do
  let place ← t.place path
  match t.entry? place, place with
  | some .directory, _ => .error .isADirectory
  | _, .inside names => .ok (t.put names (.file content))
  | _, .outside => .error .notFound

def add (t : FileTree) (path : String) (e : FileEntry) : FileTree :=
  let names := (PathName.pieces path).filter fun piece => !PathName.isIdle piece
  let withDirectories := (List.range names.length).foldl
    (fun t n => if n = 0 then t else t.put (names.take n) .directory) t
  if names.isEmpty then t else withDirectories.put names e

def surroundings (t : FileTree) (root : String) : Surroundings where
  present path := t.isPresent (PathName.join root path)
  directory path := t.isDirectory (PathName.join root path)

end FileTree

end DescriptorCheck
