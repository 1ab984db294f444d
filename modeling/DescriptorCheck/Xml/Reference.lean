import DescriptorCheck.Number.Radix
import DescriptorCheck.Xml.Error

set_option autoImplicit false

namespace DescriptorCheck.Xml.Reference
open Number (digitValue?)
open Text (byteLength)

def entity? : List Char → Option Char
  | ['l', 't'] => some '<'
  | ['g', 't'] => some '>'
  | ['a', 'm', 'p'] => some '&'
  | ['a', 'p', 'o', 's'] => some '\''
  | ['q', 'u', 'o', 't'] => some '"'
  | _ => none

def appendDigits (base value : Nat) : List Char → Except ReferenceError Nat
  | [] => .ok value
  | c :: rest =>
    match digitValue? base c with
    | none => .error .invalidDigit
    | some d =>
      if value * base + d < 0x100000000 then appendDigits base (value * base + d) rest
      else .error .numberTooLarge

def number (base : Nat) : List Char → Except ReferenceError Nat
  | [] => .error .emptyNumber
  | '+' :: _ => .error .signedNumber
  | '-' :: _ => .error .signedNumber
  | digits => appendDigits base 0 digits

def character (code : Nat) : Except ReferenceError Char :=
  if code = 0 then .error .nullCharacter
  else if h : code.isValidChar then .ok (Char.ofNatAux code h)
  else .error (.noCharacter code)

/-- The character that the text between `&` and `;` stands for, which starts at
byte `first`. -/
def resolve (first : Nat) (name : List Char) : Except ReferenceError Char :=
  match name with
  | '#' :: 'x' :: digits => number 16 digits >>= character
  | '#' :: digits => number 10 digits >>= character
  | _ =>
    match entity? name with
    | some c => .ok c
    | none => .error (.unknownEntity first (first + byteLength name) (String.ofList name))

/-- True of the characters that end the name of a reference, rightly or not. -/
def endsName (c : Char) : Bool := c == '&' || c == ';'

/-- Replaces the references of a text that starts at byte `start` and ends at byte
`stop`. Text outside of references is kept; each reference takes at least one of
`count` characters. -/
def replaceFrom (stop : Nat) : Nat → Nat → List Char → Except ReferenceError (List Char)
  | _, _, [] => .ok []
  | 0, _, cs => .ok cs
  | count + 1, start, '&' :: rest =>
    let name := rest.takeWhile (!endsName ·)
    match rest.dropWhile (!endsName ·) with
    | ';' :: behind => do
      let c ← resolve (start + 1) name
      let more ← replaceFrom stop count (start + byteLength name + 2) behind
      .ok (c :: more)
    | _ => .error (.unterminated start stop)
  | count + 1, start, c :: rest => do
    let more ← replaceFrom stop count (start + c.utf8Size) rest
    .ok (c :: more)

def replace (cs : List Char) : Except ReferenceError (List Char) :=
  replaceFrom (byteLength cs) cs.length 0 cs

def escapeChar : Char → List Char
  | '&' => ['&', 'a', 'm', 'p', ';']
  | '<' => ['&', 'l', 't', ';']
  | '>' => ['&', 'g', 't', ';']
  | c => [c]

def escape (cs : List Char) : List Char := cs.flatMap escapeChar

end DescriptorCheck.Xml.Reference
