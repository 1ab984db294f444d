import DescriptorCheck.Text.Affix

set_option autoImplicit false

/-! Literal matching compares plain beginnings and endings; segment matching accepts them only
where a key or an index begins or ends. -/
namespace DescriptorCheck

inductive Matching where
  | literal
  | segment
deriving DecidableEq

namespace Matching

def usual : Matching := .segment

def name : Matching → String
  | .literal => "literal"
  | .segment => "segment"

def ofName? : String → Option Matching
  | "literal" => some .literal
  | "segment" => some .segment
  | _ => none

/-- True of what may follow a node in a path at or below it. -/
def continues : List Char → Bool
  | [] => true
  | c :: _ => c == '.' || c == '['

/-- True if `path` lies at or below `node`. Every path is below the empty node. -/
def isUnder (m : Matching) (path node : String) : Bool :=
  match m with
  | .literal => Text.startsWith path node
  | .segment =>
    node == "" ||
    match List.isPrefixOf? node.toList path.toList with
    | some rest => continues rest
    | none => false

/-- True if `path` ends with `tag`. Under segment matching the tag starts the path
or follows a point, unless it starts with an index. -/
def endsWithTag (m : Matching) (path tag : String) : Bool :=
  match m with
  | .literal => Text.endsWith path tag
  | .segment =>
    match List.isSuffixOf? tag.toList path.toList with
    | some head => head.isEmpty || head.getLast? == some '.' || tag.toList.head? == some '['
    | none => false

theorem ofName?_name (m : Matching) : ofName? m.name = some m := by
  cases m <;> rfl

end Matching

end DescriptorCheck
