import DescriptorCheck.Number.Digits
import DescriptorCheck.Text.Utf8

set_option autoImplicit false

namespace DescriptorCheck.Json
open Text (byteLength)

inductive Cause where
  | endInList
  | endInObject
  | endInString
  | endInValue
  | expectedColon
  | expectedListCommaOrEnd
  | expectedObjectCommaOrEnd
  | expectedIdent
  | expectedValue
  | invalidEscape
  | invalidNumber
  | numberOutOfRange
  | controlCharacter
  | keyMustBeString
  | loneSurrogate
  | unexpectedEndOfHexEscape
  | trailingComma
  | trailingCharacters
  | recursionLimit
deriving DecidableEq

namespace Cause

def message : Cause → String
  | endInList => "EOF while parsing a list"
  | endInObject => "EOF while parsing an object"
  | endInString => "EOF while parsing a string"
  | endInValue => "EOF while parsing a value"
  | expectedColon => "expected `:`"
  | expectedListCommaOrEnd => "expected `,` or `]`"
  | expectedObjectCommaOrEnd => "expected `,` or `\x7d`"
  | expectedIdent => "expected ident"
  | expectedValue => "expected value"
  | invalidEscape => "invalid escape"
  | invalidNumber => "invalid number"
  | numberOutOfRange => "number out of range"
  | controlCharacter => "control character (\\u0000-\\u001F) found while parsing a string"
  | keyMustBeString => "key must be a string"
  | loneSurrogate => "lone leading surrogate in hex escape"
  | unexpectedEndOfHexEscape => "unexpected end of hex escape"
  | trailingComma => "trailing comma"
  | trailingCharacters => "trailing characters"
  | recursionLimit => "recursion limit exceeded"

end Cause

structure Error where
  cause : Cause
  line : Nat
  column : Nat
deriving DecidableEq

namespace Error

def message (e : Error) : String :=
  e.cause.message ++ " at line " ++ Number.naturalText e.line ++ " column "
    ++ Number.naturalText e.column

end Error

def reach (line column : Nat) : List Char → Nat → Nat × Nat
  | [], _ => (line, column)
  | c :: rest, count =>
    if count < c.utf8Size then (line, column + count)
    else if c = '\n' then reach (line + 1) 0 rest (count - 1)
    else reach line (column + c.utf8Size) rest (count - c.utf8Size)

/-- Why reading stopped, and how many bytes of the text were left there. -/
structure Stop where
  cause : Cause
  left : Nat
deriving DecidableEq

namespace Stop

def before (cause : Cause) (rest : List Char) : Stop := ⟨cause, byteLength rest⟩

def behind (count : Nat) (cause : Cause) (rest : List Char) : Stop :=
  ⟨cause, byteLength rest - count⟩

def error (text : List Char) (s : Stop) : Error :=
  let (line, column) := reach 1 0 text (byteLength text - s.left)
  ⟨s.cause, line, column⟩

end Stop

abbrev Reader (α : Type) := List Char → Except Stop (α × List Char)

end DescriptorCheck.Json
