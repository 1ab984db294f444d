import DescriptorCheck.Json.Error
import DescriptorCheck.Number.Radix

set_option autoImplicit false

namespace DescriptorCheck.Json.Quoted
open Text (byteLength)

def hexDigit (n : Nat) : Char := Nat.digitChar n

def hexUnit? (a b c d : Char) : Option Nat := Number.naturalIn? 16 [a, b, c, d]

/-- A unit of four hex digits. All four bytes are read before any is looked at. -/
def readUnit : Reader Nat := fun cs =>
  if byteLength cs < 4 then .error ⟨.endInString, 0⟩
  else
    match cs with
    | a :: b :: c :: d :: rest =>
      match hexUnit? a b c d with
      | some unit => .ok (unit, rest)
      | none => .error (.behind 4 .invalidEscape cs)
    | _ => .error (.behind 4 .invalidEscape cs)

def isLeading (unit : Nat) : Bool := 0xD800 ≤ unit && unit ≤ 0xDBFF

def isTrailing (unit : Nat) : Bool := 0xDC00 ≤ unit && unit ≤ 0xDFFF

def paired (leading trailing : Nat) : Char :=
  Char.ofNat ((leading - 0xD800) * 0x400 + (trailing - 0xDC00) + 0x10000)

def readUnicode : Reader Char := fun cs => do
  let (unit, rest) ← readUnit cs
  if isTrailing unit then .error (.before .loneSurrogate rest)
  else if isLeading unit then
    match rest with
    | [] => .error (.before .endInString rest)
    | '\\' :: 'u' :: behind => do
      let (second, rest) ← readUnit behind
      if isTrailing second then .ok (paired unit second, rest)
      else .error (.before .loneSurrogate rest)
    | '\\' :: behind =>
      if behind.isEmpty then .error (.before .endInString behind)
      else .error (.behind 1 .unexpectedEndOfHexEscape behind)
    | _ => .error (.behind 1 .unexpectedEndOfHexEscape rest)
  else .ok (Char.ofNat unit, rest)

def readEscape : Reader Char
  | [] => .error ⟨.endInString, 0⟩
  | 'u' :: rest => readUnicode rest
  | c :: rest =>
    match c with
    | '"' => .ok ('"', rest)
    | '\\' => .ok ('\\', rest)
    | '/' => .ok ('/', rest)
    | 'b' => .ok ('\x08', rest)
    | 'f' => .ok ('\x0c', rest)
    | 'n' => .ok ('\n', rest)
    | 'r' => .ok ('\r', rest)
    | 't' => .ok ('\t', rest)
    | _ => .error (.behind 1 .invalidEscape (c :: rest))

def readUpTo : Nat → Reader (List Char)
  | 0, cs => .error (.before .endInString cs)
  | _ + 1, [] => .error ⟨.endInString, 0⟩
  | _ + 1, '"' :: rest => .ok ([], rest)
  | count + 1, '\\' :: rest => do
    let (c, rest) ← readEscape rest
    let (more, rest) ← readUpTo count rest
    .ok (c :: more, rest)
  | count + 1, c :: rest =>
    if c < ' ' then .error (.behind 1 .controlCharacter (c :: rest))
    else do
      let (more, rest) ← readUpTo count rest
      .ok (c :: more, rest)

/-- The string behind its opening quote. Each character takes at least one of the text. -/
def read : Reader String := fun cs => do
  let (chars, rest) ← readUpTo (cs.length + 1) cs
  .ok (String.ofList chars, rest)

def encodeChar (c : Char) : List Char :=
  match c with
  | '"' => ['\\', '"']
  | '\\' => ['\\', '\\']
  | '\x08' => ['\\', 'b']
  | '\x0c' => ['\\', 'f']
  | '\n' => ['\\', 'n']
  | '\r' => ['\\', 'r']
  | '\t' => ['\\', 't']
  | _ =>
    if c < ' ' then ['\\', 'u', '0', '0', hexDigit (c.toNat / 16), hexDigit (c.toNat % 16)]
    else [c]

def encode (s : String) : List Char := '"' :: s.toList.flatMap encodeChar ++ ['"']

end DescriptorCheck.Json.Quoted
