import DescriptorCheck.Check.Context
import DescriptorCheck.Path.Element
import DescriptorCheck.Path.Matching

set_option autoImplicit false

/-! The working set lists the indices of the elements that later checks of a chain look at. A
check narrows it to what was found, whether or not that is what the mode asks for. -/
namespace DescriptorCheck

structure Query where
  node : String
  elements : Array Element
  matching : Matching
  working : List Nat
  context : Context

namespace Query

def start (node : String) (elements : Array Element) (matching : Matching) : Query :=
  ⟨node, elements, matching, List.range elements.size, .fresh⟩

def isUnder (q : Query) (path node : String) : Bool := q.matching.isUnder path node

def inScope (q : Query) (path : String) : Bool := q.isUnder path q.node

def resolve (q : Query) (selected : List Nat) : List Element :=
  selected.filterMap (fun i => q.elements[i]?)

def workingElements (q : Query) : List Element := q.resolve q.working

def select (q : Query) (accepts : Element → Bool) : List Nat :=
  q.working.filter fun i =>
    match q.elements[i]? with
    | some e => accepts e
    | none => false

def narrow (q : Query) (selected : List Nat) : Query := { q with working := selected }

def conclude (q : Query) (found : Bool) (disallowed : List String) (missing : String) : Query :=
  { q with context := q.context.conclude found disallowed missing }

/-- One check: accepted elements of the working set are found, the outcome is
concluded in the chain's mode, and the working set becomes what was found. -/
def keep (q : Query) (accepts : Element → Bool) (disallowed : List Element → List String)
    (missing : String) : Query :=
  let selected := q.select accepts
  (q.conclude (!selected.isEmpty) (disallowed (q.resolve selected)) missing).narrow selected

theorem keep_working (q : Query) (accepts : Element → Bool)
    (disallowed : List Element → List String) (missing : String) :
    (q.keep accepts disallowed missing).working = q.select accepts := rfl

theorem select_sublist (q : Query) (accepts : Element → Bool) :
    (q.select accepts).Sublist q.working := List.filter_sublist

end Query

end DescriptorCheck
