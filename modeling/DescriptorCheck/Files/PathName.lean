import DescriptorCheck.Text.Affix

set_option autoImplicit false

namespace DescriptorCheck.PathName

def isAbsolute (path : String) : Bool := Text.startsWith path "/"

/-- `path` seen from the directory `base`. An absolute path is seen from anywhere
as itself. -/
def join (base path : String) : String :=
  if isAbsolute path then path
  else if base = "" || Text.endsWith base "/" then base ++ path
  else base ++ "/" ++ path

def pieces (path : String) : List String := Text.split '/' path

def isIdle (piece : String) : Bool := piece == "" || piece == "."

def trimIdle (ps : List String) : List String := (ps.reverse.dropWhile isIdle).reverse

/-- What a path starts with before its pieces that can be taken away: the root, or
the directory it is relative to. -/
def anchored (path : String) : List String × List String :=
  match pieces path with
  | "" :: rest => ([""], trimIdle rest)
  | "." :: rest => (["."], trimIdle rest)
  | rest => ([], trimIdle rest)

def fileName? (path : String) : Option String :=
  match (anchored path).2.getLast? with
  | some ".." => none
  | last => last

/-- The characters after the last point of the file name. A name that starts with
its only point has no extension. -/
def extension? (path : String) : Option String := do
  let name ← fileName? path
  let behind := name.toList.reverse.takeWhile (· != '.')
  let before := name.toList.reverse.drop (behind.length + 1)
  if before.isEmpty then none else some (String.ofList behind.reverse)

/-- The path without its last part, as it is written; nothing for a root and for the
empty path. -/
def parent? (path : String) : Option String :=
  match anchored path with
  | (["."], []) => some ""
  | (_, []) => none
  | ([""], named) => some ("/" ++ String.intercalate "/" (trimIdle named.dropLast))
  | (anchor, named) => some (String.intercalate "/" (anchor ++ trimIdle named.dropLast))

theorem join_of_isAbsolute {base path : String} (h : isAbsolute path = true) :
    join base path = path := by
  simp [join, h]

end DescriptorCheck.PathName
