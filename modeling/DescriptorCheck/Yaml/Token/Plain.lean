import DescriptorCheck.Yaml.Token.Gap

set_option autoImplicit false

namespace DescriptorCheck.Yaml.Plain

def isFlowMark (c : Char) : Bool :=
  c == ',' || c == '[' || c == ']' || c == '\x7b' || c == '\x7d'

/-- A word, and what follows it. A colon within a word of a flow collection is not
followed by a mark of the collection. -/
def word (inFlow : Bool) : List Char → Except Error (List Char × List Char)
  | [] => .ok ([], [])
  | c :: rest =>
    if isBlank c || isBreak c then .ok ([], c :: rest)
    else if inFlow && c == ':' && rest.head?.any (fun d => isFlowMark d || d == '?') then
      .error .strayColon
    else if (c == ':' && endsWord rest) || (inFlow && isFlowMark c) then .ok ([], c :: rest)
    else do
      let (more, rest) ← word inFlow rest
      .ok (c :: more, rest)

def readWord (inFlow : Bool) : Reader (List Char) := fun c => do
  let (word, rest) ← word inFlow c.rest
  .ok (word, ⟨rest, c.line, c.column + word.length⟩)

def endsAt (inFlow : Bool) (margin : Nat) (c : Cursor) : Bool :=
  (!inFlow && c.column < margin) || c.atDocumentMark || c.rest.head? == some '#'

/-- The rest of a scalar behind one of its words, and whether the scalar is ended by
a line break; at most `count` words. -/
def readMore (inFlow : Bool) (margin : Nat) : Nat → Reader (List Char × Bool)
  | 0, c => .ok (([], false), c)
  | count + 1, c => do
    let (gap, c) ← Gap.read margin c
    if endsAt inFlow margin c then .ok (([], gap.isBroken), c)
    else
      let (word, c) ← readWord inFlow c
      if word.isEmpty then .ok (([], gap.isBroken), c)
      else
        let ((more, broken), c) ← readMore inFlow margin count c
        .ok ((gap.joint ++ word ++ more, broken), c)

/-- A plain scalar of at most `count` words behind the first one, and whether a line
break ends it. In block context its further lines start at column `margin` at least. -/
def read (inFlow : Bool) (margin count : Nat) : Reader (String × Bool) := fun c => do
  let (word, c) ← readWord inFlow c
  let ((more, broken), c) ← readMore inFlow margin count c
  .ok ((String.ofList (word ++ more), broken), c)

end DescriptorCheck.Yaml.Plain
