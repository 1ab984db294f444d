import DescriptorCheck.Json.Numeral
import DescriptorCheck.Json.Quoted
import DescriptorCheck.Value.Basic

set_option autoImplicit false

namespace DescriptorCheck.Json

def isBlank (c : Char) : Bool := c == ' ' || c == '\n' || c == '\t' || c == '\r'

def skipBlanks (cs : List Char) : List Char := cs.dropWhile isBlank

/-- The rest of a word whose first letter was read. Letters are read one at a time. -/
def readWord : List Char → Reader Unit
  | [], cs => .ok ((), cs)
  | _ :: _, [] => .error ⟨.endInValue, 0⟩
  | l :: word, c :: rest =>
    if c = l then readWord word rest else .error (.behind 1 .expectedIdent (c :: rest))

/-- The items up to the closing bracket, each read by `item`, at most `count` of them. -/
def readItems (item : Reader Value) (first : Bool) : Nat → Reader (List Value)
  | 0, cs => .error (.before .endInList cs)
  | count + 1, cs =>
    let more (cs : List Char) : Except Stop (List Value × List Char) := do
      let (v, rest) ← item cs
      let (vs, rest) ← readItems item false count rest
      .ok (v :: vs, rest)
    match skipBlanks cs with
    | [] => .error ⟨.endInList, 0⟩
    | ']' :: rest => .ok ([], rest)
    | ',' :: rest =>
      if first then more (',' :: rest)
      else
        match skipBlanks rest with
        | [] => .error ⟨.endInValue, 0⟩
        | ']' :: rest => .error (.behind 1 .trailingComma (']' :: rest))
        | rest => more rest
    | rest => if first then more rest else .error (.behind 1 .expectedListCommaOrEnd rest)

/-- The value behind a key: a colon, then what `item` reads. -/
def readColon (item : Reader Value) : Reader Value := fun cs =>
  match skipBlanks cs with
  | [] => .error ⟨.endInObject, 0⟩
  | ':' :: rest => item rest
  | rest => .error (.behind 1 .expectedColon rest)

def readEntries (item : Reader Value) (first : Bool) : Nat → Reader (List (String × Value))
  | 0, cs => .error (.before .endInObject cs)
  | count + 1, cs =>
    let more (cs : List Char) : Except Stop (List (String × Value) × List Char) := do
      let (key, rest) ← Quoted.read cs
      let (v, rest) ← readColon item rest
      let (entries, rest) ← readEntries item false count rest
      .ok ((key, v) :: entries, rest)
    match skipBlanks cs with
    | [] => .error ⟨.endInObject, 0⟩
    | '\x7d' :: rest => .ok ([], rest)
    | ',' :: rest =>
      if first then .error (.behind 1 .keyMustBeString (',' :: rest))
      else
        match skipBlanks rest with
        | [] => .error ⟨.endInValue, 0⟩
        | '"' :: rest => more rest
        | '\x7d' :: rest => .error (.behind 1 .trailingComma ('\x7d' :: rest))
        | rest => .error (.behind 1 .keyMustBeString rest)
    | '"' :: rest =>
      if first then more rest else .error (.behind 1 .expectedObjectCommaOrEnd ('"' :: rest))
    | rest =>
      .error (.behind 1 (if first then .keyMustBeString else .expectedObjectCommaOrEnd) rest)

def readValue : Nat → Reader Value
  | 0, cs => .error (.before .recursionLimit cs)
  | depth + 1, cs =>
    match skipBlanks cs with
    | [] => .error ⟨.endInValue, 0⟩
    | 'n' :: rest => do
      let (_, rest) ← readWord ['u', 'l', 'l'] rest
      .ok (.null, rest)
    | 't' :: rest => do
      let (_, rest) ← readWord ['r', 'u', 'e'] rest
      .ok (.boolean true, rest)
    | 'f' :: rest => do
      let (_, rest) ← readWord ['a', 'l', 's', 'e'] rest
      .ok (.boolean false, rest)
    | '-' :: rest => do
      let (n, rest) ← Numeral.read true rest
      .ok (.number n, rest)
    | '"' :: rest => do
      let (s, rest) ← Quoted.read rest
      .ok (.text s, rest)
    | '[' :: rest =>
      if depth = 0 then .error (.behind 1 .recursionLimit ('[' :: rest))
      else do
        let (items, rest) ← readItems (readValue depth) true (rest.length + 1) rest
        .ok (.array items, rest)
    | '\x7b' :: rest =>
      if depth = 0 then .error (.behind 1 .recursionLimit ('\x7b' :: rest))
      else do
        let (entries, rest) ← readEntries (readValue depth) true (rest.length + 1) rest
        .ok (.ofEntries entries, rest)
    | c :: rest =>
      if c.isDigit then do
        let (n, rest) ← Numeral.read false (c :: rest)
        .ok (.number n, rest)
      else .error (.behind 1 .expectedValue (c :: rest))

def depthLimit : Nat := 128

def readAll (cs : List Char) : Except Stop Value := do
  let (v, rest) ← readValue depthLimit cs
  match skipBlanks rest with
  | [] => .ok v
  | rest => .error (.behind 1 .trailingCharacters rest)

def read (text : String) : Except Error Value :=
  (readAll text.toList).mapError (Stop.error text.toList)

end DescriptorCheck.Json
