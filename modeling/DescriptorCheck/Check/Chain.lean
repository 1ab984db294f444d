import DescriptorCheck.Check.Module

set_option autoImplicit false

/-! Under negation `and` clears the findings so far, and `or` lets them stand. Nothing fails
before the verdict is asked for. -/
namespace DescriptorCheck

inductive Opening where
  | should
  | shouldNot
deriving DecidableEq

inductive Joint where
  | and
  | or
deriving DecidableEq

/-- The predicates of one chain: the first comes right after the opening, and each
later one after a joint. -/
inductive Chain (P : Type) where
  | first (p : P)
  | next (before : Chain P) (joint : Joint) (p : P)

namespace Chain

variable {P S : Type}

def predicates : Chain P → List P
  | first p => [p]
  | next before _ p => before.predicates ++ [p]

def joints : Chain P → List Joint
  | first _ => []
  | next before joint _ => before.joints ++ [joint]

/-- Checks one predicate after the other. A refused argument ends the chain. -/
def run (check : S → P → Except BlankArgument S) (join : S → Joint → S) (s : S) :
    Chain P → Except BlankArgument S
  | first p => check s p
  | next before joint p => do
    let t ← before.run check join s
    check (join t joint) p

end Chain

namespace Context

def opened (c : Context) : Opening → Context
  | .should => c
  | .shouldNot => c.toggle

def joined (c : Context) : Joint → Context
  | .and => if c.isNegated then c.clear else c
  | .or => c

end Context

namespace Query

def opened (q : Query) (o : Opening) : Query := { q with context := q.context.opened o }

def joined (q : Query) (j : Joint) : Query := { q with context := q.context.joined j }

def run (q : Query) (c : Chain Predicate) : Except BlankArgument Query := c.run check joined q

/-- Checks predicates that are all joined with `and`; the first comes right after
the opening. -/
def checkAll (q : Query) : List Predicate → Except BlankArgument Query
  | [] => .ok q
  | [p] => q.check p
  | p :: rest => do
    let next ← q.check p
    (next.joined .and).checkAll rest

def verdict (q : Query) : Except String Unit := q.context.findings.verdict

def verdictBecause (q : Query) (reason : String) : Except String Unit :=
  q.context.findings.verdictBecause reason

end Query

namespace ModuleQuery

def opened (m : ModuleQuery) (o : Opening) : ModuleQuery := { m with query := m.query.opened o }

def joined (m : ModuleQuery) (j : Joint) : ModuleQuery := { m with query := m.query.joined j }

def run (m : ModuleQuery) (c : Chain ModulePredicate) : Except BlankArgument ModuleQuery :=
  c.run check joined m

end ModuleQuery

end DescriptorCheck
