import DescriptorCheck.Number.Radix
import DescriptorCheck.Text.Utf8
import DescriptorCheck.Yaml.Cursor

set_option autoImplicit false

namespace DescriptorCheck.Yaml

abbrev Tag := List UInt8

namespace Tag
open Number (digitValue?)

def ofString (s : String) : Tag := Text.toUtf8 s

def core (name : String) : Tag := ofString ("tag:yaml.org,2002:" ++ name)

def localName? : Tag → Option String
  | [] => none
  | first :: rest =>
    if first = '!'.toUInt8 then
      if rest.isEmpty then some "!" else Text.ofUtf8? rest
    else none

def isNameChar (c : Char) : Bool := c.isAlphanum || c == '-' || c == '_'

/-- True of the characters of a tag besides escapes; those that also delimit
collections only count in a tag between angle brackets. -/
def isUriChar (bracketed : Bool) (c : Char) : Bool :=
  isNameChar c || ";/?:@&=+$.!~*'()".toList.contains c || (bracketed && ",[]".toList.contains c)

/-- The byte of an escape: a percent sign and two hexadecimal digits. -/
def octet? : List Char → Option (Nat × List Char)
  | '%' :: high :: low :: rest => do
    return ((← digitValue? 16 high) * 16 + (← digitValue? 16 low), rest)
  | _ => none

def octetCount? (first : Nat) : Option Nat :=
  if first < 0x80 then some 1
  else if first < 0xC0 then none
  else if first < 0xE0 then some 2
  else if first < 0xF0 then some 3
  else if first < 0xF8 then some 4
  else none

def continuation? : Nat → List Char → Option (List UInt8 × List Char)
  | 0, cs => some ([], cs)
  | count + 1, cs => do
    let (byte, rest) ← octet? cs
    if byte / 0x40 ≠ 2 then none
    let (more, rest) ← continuation? count rest
    return (.ofNat byte :: more, rest)

def escaped? (cs : List Char) : Option (List UInt8 × List Char) := do
  let (first, rest) ← octet? cs
  let (more, rest) ← continuation? ((← octetCount? first) - 1) rest
  return (.ofNat first :: more, rest)

def uriBytes? (bracketed : Bool) : Nat → List Char → Option (List UInt8 × List Char)
  | 0, cs => some ([], cs)
  | _ + 1, [] => some ([], [])
  | count + 1, '%' :: rest => do
    let (bytes, rest) ← escaped? ('%' :: rest)
    let (more, rest) ← uriBytes? bracketed count rest
    return (bytes ++ more, rest)
  | count + 1, c :: rest =>
    if isUriChar bracketed c then do
      let (more, rest) ← uriBytes? bracketed count rest
      return (c.toUInt8 :: more, rest)
    else some ([], c :: rest)

/-- A tag or the end of one. A byte of zero ends what counts of it. -/
def readUri (bracketed mayBeEmpty : Bool) : Reader Tag := fun c =>
  match uriBytes? bracketed c.rest.length c.rest with
  | none => .error .invalidTag
  | some (bytes, rest) =>
    if bytes.isEmpty && !mayBeEmpty then .error .invalidTag
    else .ok (bytes.takeWhile (· != 0), c.skip (c.rest.length - rest.length))

/-- The text between two exclamation marks, and whether there is a second one. -/
def readHandle : Reader (String × Bool) := fun c =>
  match c.rest with
  | '!' :: _ =>
    let (name, c) := (c.skip 1).takeWhile isNameChar
    match c.rest with
    | '!' :: _ => .ok ((String.ofList name, true), c.skip 1)
    | _ => .ok ((String.ofList name, false), c)
  | _ => .error .invalidTag

end Tag

/-- How a document writes a tag: in full, or as the end of what a handle stands for. -/
structure TagName where
  handle? : Option String
  suffix : Tag
deriving DecidableEq

namespace TagName
open Tag

/-- What a document writes at the start of a tag between two exclamation marks. -/
def named (name : String) : String := "!" ++ name ++ "!"

def read : Reader TagName := fun c =>
  match c.rest with
  | '!' :: '<' :: _ => do
    let (uri, c) ← readUri true false (c.skip 2)
    match c.rest with
    | '>' :: _ => .ok (⟨none, uri⟩, c.skip 1)
    | _ => .error .invalidTag
  | _ => do
    let ((name, closed), c) ← readHandle c
    if closed then
      let (suffix, c) ← readUri false false c
      .ok (⟨some (named name), suffix⟩, c)
    else
      let (more, c) ← readUri false true c
      let suffix := ofString name ++ more
      .ok (if suffix.isEmpty then ⟨none, ofString "!"⟩ else ⟨some "!", suffix⟩, c)

end TagName

end DescriptorCheck.Yaml
