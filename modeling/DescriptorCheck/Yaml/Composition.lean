import DescriptorCheck.Yaml.Node
import DescriptorCheck.Yaml.Scalar

set_option autoImplicit false

/-! Each alias stands for a copy of its node. Copies count towards the limit on nesting, and
there may be no more of them than a hundred times the size of the document, so an alias within
its own node is a fault. -/
namespace DescriptorCheck.Yaml.Datum

abbrev Composition := StateT Nat (Except Error)

/-- A node that is no alias: the one that an alias stands for, or the node itself. -/
def follow (root : Node) : Node → Composition Node
  | .reference number => do
    let count ← get
    if root.size * 100 < count + 1 then throw .aliasLimit
    set (count + 1)
    match root.target? number with
    | some n => return n
    | none => throw .unexpectedToken
  | n => return n

def ofEntries (entries : List (Datum × Datum)) : Except Error Datum :=
  if keysDiffer entries then .ok (mapping entries) else .error .repeatedKey

def withTag (tag? : Option Tag) (content : Datum) : Datum :=
  match tag?.bind Tag.localName? with
  | some name => tagged name content
  | none => content

/-- What a node stands for, given what the content of nodes without aliases is. -/
def ofAny (root : Node) (content : Node → Composition Datum) (node : Node) :
    Composition Datum := do
  let node ← follow root node
  return withTag node.tag? (← content node)

/-- The content of a node that is no alias, if its collections are nested at most
`depth` deep. -/
def ofContent (root : Node) : Nat → Node → Composition Datum
  | _, .scalar p s plain => (Scalar.resolve p.tag? s plain : Except Error Datum)
  | depth + 1, .sequence _ items =>
    sequence <$> items.mapM (ofAny root (ofContent root depth))
  | depth + 1, .mapping _ entries => do
    let entries ← entries.mapM fun (key, n) => do
      let key ← ofAny root (ofContent root depth) key
      let d ← ofAny root (ofContent root depth) n
      return (key, d)
    ofEntries entries
  | 0, _ => throw .nestingLimit
  | _, .reference _ => throw .unexpectedToken

/-- What a node stands for, if its collections are nested at most `depth` deep. -/
def ofNode (root : Node) (depth : Nat) : Node → Composition Datum :=
  ofAny root (ofContent root depth)

end DescriptorCheck.Yaml.Datum
