import DescriptorCheck.Number.Radix
import DescriptorCheck.Yaml.Token.Gap

set_option autoImplicit false

namespace DescriptorCheck.Yaml.Quoted
open Number (digitValue?)

inductive Style where
  | single
  | double
deriving DecidableEq

def Style.quote : Style → Char
  | .single => '\''
  | .double => '"'

def escape? : Char → Option Char
  | '0' => some '\x00'
  | 'a' => some '\x07'
  | 'b' => some '\x08'
  | 't' => some '\t'
  | '\t' => some '\t'
  | 'n' => some '\n'
  | 'v' => some '\x0b'
  | 'f' => some '\x0c'
  | 'r' => some '\r'
  | 'e' => some '\x1b'
  | ' ' => some ' '
  | '"' => some '"'
  | '/' => some '/'
  | '\\' => some '\\'
  | 'N' => some '\u0085'
  | '_' => some '\u00a0'
  | 'L' => some '\u2028'
  | 'P' => some '\u2029'
  | _ => none

def digitCount? : Char → Option Nat
  | 'x' => some 2
  | 'u' => some 4
  | 'U' => some 8
  | _ => none

def codePoint? (digits : List Char) : Option Char := do
  let code ← Number.naturalIn? 16 digits
  if h : code.isValidChar then some (Char.ofNatAux code h) else none

/-- The character of an escape, and how many characters spell it behind the backslash. -/
def escaped? : List Char → Option (Char × Nat)
  | [] => none
  | c :: rest =>
    match digitCount? c with
    | some count =>
      if rest.length < count then none
      else (codePoint? (rest.take count)).map (·, count + 1)
    | none => (escape? c).map (·, 1)

def readFrom (style : Style) : Nat → Reader (List Char)
  | 0, _ => .error .unclosedQuote
  | count + 1, c =>
    let more (joint : List Char) (c : Cursor) : Except Error (List Char × Cursor) := do
      let (rest, c) ← readFrom style count c
      .ok (joint ++ rest, c)
    if c.atDocumentMark then .error .markInQuote
    else
      match c.rest with
      | [] => .error .unclosedQuote
      | first :: rest =>
        if first = style.quote then
          if style = .single && rest.head? == some '\'' then more ['\''] (c.skip 2)
          else .ok ([], c.skip 1)
        else if style = .double && first = '\\' then
          if rest.head?.any isBreak then do
            let c := (c.skip 1).skipBreak
            let (gap, c) ← Gap.readFrom 0 c.rest c.line c.column (.breaks none [])
            more gap.joint c
          else
            match escaped? rest with
            | some (escaped, length) => more [escaped] (c.skip (length + 1))
            | none => .error .unknownEscape
        else if isBlank first || isBreak first then do
          let (gap, c) ← Gap.read 0 c
          more gap.joint c
        else more [first] (c.skip 1)

/-- The scalar that an opening quote starts here, if it has less than `count` parts. -/
def read (style : Style) (count : Nat) : Reader String := fun c => do
  let (cs, c) ← readFrom style count (c.skip 1)
  .ok (String.ofList cs, c)

end DescriptorCheck.Yaml.Quoted
