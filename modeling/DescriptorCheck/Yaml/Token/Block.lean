import DescriptorCheck.Number.Radix
import DescriptorCheck.Yaml.Token.Gap

set_option autoImplicit false

namespace DescriptorCheck.Yaml.Block
open Number (digitValue)

inductive Style where
  | literal
  | folded
deriving DecidableEq

inductive Chomping where
  | strip
  | clip
  | keep
deriving DecidableEq

structure Header where
  chomping : Chomping
  /-- How much deeper than the surroundings the lines are, from 1 to 9. -/
  increment? : Option Nat
deriving DecidableEq

def chomping? : Char → Option Chomping
  | '+' => some .keep
  | '-' => some .strip
  | _ => none

def increment? (c : Char) : Option Nat :=
  if c.isDigit && c != '0' then some (digitValue c) else none

/-- A chomping sign and an increment in either order, each optional, and the rest of
the line. -/
def readHeader : Reader Header := fun c =>
  let (header, length) : Header × Nat :=
    match c.rest with
    | [] => (⟨.clip, none⟩, 0)
    | first :: rest =>
      match chomping? first, increment? first with
      | some chomping, _ =>
        match rest.head?.bind increment? with
        | some n => (⟨chomping, some n⟩, 2)
        | none => (⟨chomping, none⟩, 1)
      | none, some n =>
        match rest.head?.bind chomping? with
        | some chomping => (⟨chomping, some n⟩, 2)
        | none => (⟨.clip, some n⟩, 1)
      | none, none => (⟨.clip, none⟩, 0)
  match (c.skip length).endLine? with
  | some c => .ok (header, c)
  | none => .error .invalidHeader

/-- Empty lines and the indentation behind them, up to column `indent?` if that is
known: the breaks and the deepest column reached. -/
def readIndentation (indent? : Option Nat) :
    List Char → Nat → Nat → Except Error ((List Char × Nat) × Cursor)
  | [], line, column => .ok (([], column), ⟨[], line, column⟩)
  | c :: rest, line, column =>
    let isInside := indent?.all (column < ·)
    if isInside && c == ' ' then readIndentation indent? rest line (column + 1)
    else if isInside && c == '\t' then .error .tabInIndentation
    else if isBreak c then do
      let ((breaks, deepest), cursor) ← readIndentation indent? rest (line + 1) 0
      .ok ((c :: breaks, max column deepest), cursor)
    else .ok (([], column), ⟨c :: rest, line, column⟩)

/-- What stands between two lines of a block: the break that ends the first of them
and the breaks of the empty lines behind it. -/
structure Between where
  first : Option Char
  more : List Char
  afterBlank : Bool
deriving DecidableEq

/-- What joins the line before with one that starts with a blank or does not. -/
def Between.joint (style : Style) (b : Between) (beforeBlank : Bool) : List Char :=
  if style = .folded && b.first == some '\n' && !b.afterBlank && !beforeBlank then
    Gap.fold b.first b.more
  else b.first.toList ++ b.more

def Between.ending (chomping : Chomping) (b : Between) : List Char :=
  match chomping with
  | .strip => []
  | .clip => b.first.toList
  | .keep => b.first.toList ++ b.more

/-- The lines of a block that is indented to column `indent`, at most `count` of them. -/
def readLines (style : Style) (chomping : Chomping) (indent : Nat) :
    Nat → Between → Reader (List Char)
  | 0, between, c => .ok (between.ending chomping, c)
  | count + 1, between, c =>
    if c.column = indent && !c.rest.isEmpty then do
      let startsBlank := c.rest.head?.any isBlank
      let (line, c) := c.takeWhile (!isBreak ·)
      let first := c.rest.head?
      let c := if first.isSome then c.skipBreak else c
      let ((more, _), c) ← readIndentation (some indent) c.rest c.line c.column
      let (rest, c) ← readLines style chomping indent count ⟨first, more, startsBlank⟩ c
      .ok (between.joint style startsBlank ++ line ++ rest, c)
    else .ok (between.ending chomping, c)

/-- The scalar of at most `count` lines whose header starts here. Block collections
around it put their content at column `margin` or deeper. -/
def read (style : Style) (margin count : Nat) : Reader String := fun c => do
  let (header, c) ← readHeader (c.skip 1)
  let indent? := header.increment?.map (margin - 1 + ·)
  let ((breaks, deepest), c) ← readIndentation indent? c.rest c.line c.column
  let indent := indent?.getD (max deepest (max margin 1))
  let (cs, c) ← readLines style header.chomping indent count ⟨none, breaks, false⟩ c
  .ok (String.ofList cs, c)

end DescriptorCheck.Yaml.Block
