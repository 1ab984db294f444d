import DescriptorCheck.Path.Position

set_option autoImplicit false

namespace DescriptorCheck

structure Element where
  path : String
  value : Value

namespace Value

mutual

def elementsUnder (path : String) : Value → List Element
  | object entries => entryElements path entries
  | array items => itemElements path 0 items
  | _ => []

def entryElements (path : String) : List (String × Value) → List Element
  | [] => []
  | (k, v) :: rest =>
    ⟨Step.extend path (.key k), v⟩
      :: v.elementsUnder (Step.extend path (.key k)) ++ entryElements path rest

def itemElements (path : String) (i : Nat) : List Value → List Element
  | [] => []
  | v :: rest =>
    ⟨Step.extend path (.index i), v⟩
      :: v.elementsUnder (Step.extend path (.index i)) ++ itemElements path (i + 1) rest

end

def flatten (root : Value) : List Element := root.elementsUnder ""

mutual

/-- How many values lie strictly below a value. -/
def nodesBelow : Value → Nat
  | object entries => entryNodes entries
  | array items => itemNodes items
  | _ => 0

def entryNodes : List (String × Value) → Nat
  | [] => 0
  | (_, v) :: rest => 1 + v.nodesBelow + entryNodes rest

def itemNodes : List Value → Nat
  | [] => 0
  | v :: rest => 1 + v.nodesBelow + itemNodes rest

end

end Value

end DescriptorCheck
