import DescriptorCheck.Yaml.Cursor

set_option autoImplicit false

namespace DescriptorCheck.Yaml

inductive Gap where
  | blanks (cs : List Char)
  | breaks (first : Option Char) (more : List Char)
deriving DecidableEq

namespace Gap

def isBroken : Gap → Bool
  | blanks _ => false
  | breaks _ _ => true

def addBlank (c : Char) : Gap → Gap
  | blanks cs => blanks (cs ++ [c])
  | breaks first more => breaks first more

def addBreak (c : Char) : Gap → Gap
  | blanks _ => breaks (some c) []
  | breaks first more => breaks first (more ++ [c])

def fold (first : Option Char) (more : List Char) : List Char :=
  match first with
  | none => more
  | some '\n' => if more.isEmpty then [' '] else more
  | some c => c :: more

def joint : Gap → List Char
  | blanks cs => cs
  | breaks first more => fold first more

/-- Extends a gap by the blanks and breaks that follow. At the start of a line no
tab may stand before column `margin`. -/
def readFrom (margin : Nat) : List Char → Nat → Nat → Gap → Except Error (Gap × Cursor)
  | [], line, column, gap => .ok (gap, ⟨[], line, column⟩)
  | c :: rest, line, column, gap =>
    if isBlank c then
      if gap.isBroken && c == '\t' && column < margin then .error .tabInIndentation
      else readFrom margin rest line (column + 1) (gap.addBlank c)
    else if isBreak c then readFrom margin rest (line + 1) 0 (gap.addBreak c)
    else .ok (gap, ⟨c :: rest, line, column⟩)

def read (margin : Nat) : Reader Gap := fun c =>
  readFrom margin c.rest c.line c.column (blanks [])

end Gap

end DescriptorCheck.Yaml
