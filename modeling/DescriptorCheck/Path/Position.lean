import DescriptorCheck.Value.Basic

set_option autoImplicit false

/-! Different positions can share a path text when keys hold `.` or `[`, or are empty; positions
themselves are always distinct. -/
namespace DescriptorCheck

inductive Step where
  | key (k : String)
  | index (i : Nat)
deriving DecidableEq

abbrev Position := List Step

namespace Step

/-- The path text one step below `path`. No point stands before a key that
follows empty text. -/
def extend (path : String) : Step → String
  | key k => if path = "" then k else path ++ "." ++ k
  | index i => path ++ "[" ++ Number.naturalText i ++ "]"

end Step

namespace Position

def path (p : Position) : String := p.foldl Step.extend ""

theorem path_append_singleton (p : Position) (s : Step) :
    path (p ++ [s]) = s.extend (path p) := by
  simp [path]

end Position

namespace Value

def child? : Value → Step → Option Value
  | object entries, .key k => entries.lookup k
  | array items, .index i => items[i]?
  | _, _ => none

def at? (v : Value) (p : Position) : Option Value := p.foldlM child? v

theorem at?_nil (v : Value) : v.at? [] = some v := rfl

theorem at?_cons (v : Value) (s : Step) (p : Position) :
    v.at? (s :: p) = (v.child? s).bind (fun c => c.at? p) := rfl

theorem at?_append (v : Value) (p q : Position) :
    v.at? (p ++ q) = (v.at? p).bind (fun c => c.at? q) := by
  simp only [at?, List.foldlM_append]
  rfl

mutual

/-- All positions strictly below a value, each before those below it. -/
def positions : Value → List Position
  | object entries => entryPositions entries
  | array items => itemPositions 0 items
  | _ => []

def entryPositions : List (String × Value) → List Position
  | [] => []
  | (k, v) :: rest =>
    [.key k] :: (v.positions.map (.key k :: ·)) ++ entryPositions rest

def itemPositions (i : Nat) : List Value → List Position
  | [] => []
  | v :: rest =>
    [.index i] :: (v.positions.map (.index i :: ·)) ++ itemPositions (i + 1) rest

end

end Value

end DescriptorCheck
