import DescriptorCheck.Yaml.Tag

set_option autoImplicit false

/-! Anchors have numbers. Two nodes may share one, and then an alias stands for the later of
them, wherever the alias itself stands. -/
namespace DescriptorCheck.Yaml

structure Properties where
  anchor? : Option Nat
  tag? : Option Tag
deriving DecidableEq

def Properties.none : Properties := ⟨.none, .none⟩

inductive Node where
  /-- An alias. -/
  | reference (target : Nat)
  | scalar (p : Properties) (text : String) (plain : Bool)
  | sequence (p : Properties) (items : List Node)
  | mapping (p : Properties) (entries : List (Node × Node))

namespace Node

def empty (p : Properties) : Node := scalar p "" true

def tag? : Node → Option Tag
  | reference _ => none
  | scalar p _ _ => p.tag?
  | sequence p _ => p.tag?
  | mapping p _ => p.tag?

mutual

/-- How many marks spell the node: one a scalar or alias, and two a collection
besides its content. -/
def size : Node → Nat
  | reference _ => 1
  | scalar _ _ _ => 1
  | sequence _ items => sizeItems items + 2
  | mapping _ entries => sizeEntries entries + 2

def sizeItems : List Node → Nat
  | [] => 0
  | n :: rest => n.size + sizeItems rest

def sizeEntries : List (Node × Node) → Nat
  | [] => 0
  | (key, n) :: rest => key.size + n.size + sizeEntries rest

end

def numbered (p : Properties) (n : Node) : List (Nat × Node) :=
  p.anchor?.toList.map (·, n)

mutual

def anchored : Node → List (Nat × Node)
  | reference _ => []
  | scalar p text plain => numbered p (scalar p text plain)
  | sequence p items => numbered p (sequence p items) ++ anchoredItems items
  | mapping p entries => numbered p (mapping p entries) ++ anchoredEntries entries

def anchoredItems : List Node → List (Nat × Node)
  | [] => []
  | n :: rest => n.anchored ++ anchoredItems rest

def anchoredEntries : List (Node × Node) → List (Nat × Node)
  | [] => []
  | (key, n) :: rest => key.anchored ++ n.anchored ++ anchoredEntries rest

end

def target? (root : Node) (number : Nat) : Option Node :=
  root.anchored.reverse.lookup number

end Node

end DescriptorCheck.Yaml
