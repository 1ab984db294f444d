import DescriptorCheck.Number.Radix

set_option autoImplicit false

namespace DescriptorCheck.Toml.Quoted
open Number (digitValue?)

structure Metrics where
  /-- The longest run of single quotes. -/
  single : Nat
  /-- The longest run of double quotes. -/
  double : Nat
  control : Bool
  backslash : Bool
  newline : Bool
deriving DecidableEq

/-- The longest run of `c`, counting one of `current` that leads up to the text. -/
def longestRun (c : Char) (current : Nat) : List Char → Nat
  | [] => current
  | d :: rest =>
    if d = c then longestRun c (current + 1) rest else max current (longestRun c 0 rest)

def isControl (c : Char) : Bool := (c < ' ' && c != '\t' && c != '\n') || c == '\x7f'

def Metrics.of (cs : List Char) : Metrics :=
  ⟨longestRun '\'' 0 cs, longestRun '"' 0 cs, cs.any isControl, cs.contains '\\',
    cs.contains '\n'⟩

inductive Form where
  | basic
  | literal
  | basicLines
  | literalLines
deriving DecidableEq

/-- The first form that holds the string without escapes, and else a basic one. -/
def Form.of (m : Metrics) : Form :=
  if !m.control && !m.backslash && m.double = 0 && !m.newline then .basic
  else if !m.control && m.single = 0 && !m.newline then .literal
  else if !m.control && !m.backslash && m.double ≤ 2 then .basicLines
  else if !m.control && m.single ≤ 2 then .literalLines
  else if m.newline then .basicLines
  else .basic

def hexDigit (n : Nat) : Char := (Nat.digitChar n).toUpper

def escape? (onLines : Bool) (c : Char) : Option (List Char) :=
  match c with
  | '\x08' => some ['\\', 'b']
  | '\t' => some ['\\', 't']
  | '\n' => if onLines then none else some ['\\', 'n']
  | '\x0c' => some ['\\', 'f']
  | '\r' => some ['\\', 'r']
  | '\\' => some ['\\', '\\']
  | _ =>
    if c < ' ' || c = '\x7f' then
      some ['\\', 'u', '0', '0', hexDigit (c.toNat / 16), hexDigit (c.toNat % 16)]
    else none

/-- The text of a basic string, where no run of quotes gets longer than `limit`; `run`
is the length of the run that leads up to the text. -/
def escapeFrom (onLines : Bool) (limit run : Nat) : List Char → List Char
  | [] => []
  | '"' :: rest =>
    if run < limit then '"' :: escapeFrom onLines limit (run + 1) rest
    else '\\' :: '"' :: escapeFrom onLines limit 0 rest
  | c :: rest => (escape? onLines c).getD [c] ++ escapeFrom onLines limit 0 rest

def lineStart (m : Metrics) : List Char := if m.newline then ['\n'] else []

def encode (s : String) : List Char :=
  let cs := s.toList
  let m := Metrics.of cs
  let (three, threeSingle) := (['"', '"', '"'], ['\'', '\'', '\''])
  match Form.of m with
  | .basic => '"' :: escapeFrom false 0 0 cs ++ ['"']
  | .literal => '\'' :: cs ++ ['\'']
  | .basicLines => three ++ lineStart m ++ escapeFrom true 2 0 cs ++ three
  | .literalLines => threeSingle ++ lineStart m ++ cs ++ threeSingle

def isPlain (c : Char) : Bool := c == '\t' || (' ' ≤ c && c != '\x7f')

def readHex : Nat → Nat → List Char → Option (Nat × List Char)
  | 0, value, cs => some (value, cs)
  | _ + 1, _, [] => none
  | count + 1, value, c :: rest => do readHex count (value * 16 + (← digitValue? 16 c)) rest

def readCodePoint (digits : Nat) (cs : List Char) : Option (Char × List Char) := do
  let (code, rest) ← readHex digits 0 cs
  if h : code.isValidChar then return (Char.ofNatAux code h, rest) else none

def readEscape : List Char → Option (Char × List Char)
  | 'b' :: rest => some ('\x08', rest)
  | 't' :: rest => some ('\t', rest)
  | 'n' :: rest => some ('\n', rest)
  | 'f' :: rest => some ('\x0c', rest)
  | 'r' :: rest => some ('\r', rest)
  | '"' :: rest => some ('"', rest)
  | '\\' :: rest => some ('\\', rest)
  | 'u' :: rest => readCodePoint 4 rest
  | 'U' :: rest => readCodePoint 8 rest
  | _ => none

def readBasic : Nat → List Char → Option (List Char × List Char)
  | 0, _ => none
  | _ + 1, [] => none
  | _ + 1, '"' :: rest => some ([], rest)
  | count + 1, '\\' :: rest => do
    let (c, rest) ← readEscape rest
    let (more, rest) ← readBasic count rest
    return (c :: more, rest)
  | count + 1, c :: rest => do
    guard (isPlain c)
    let (more, rest) ← readBasic count rest
    return (c :: more, rest)

def readLiteral (cs : List Char) : Option (List Char × List Char) :=
  match cs.dropWhile (· != '\'') with
  | _ :: rest =>
    let content := cs.takeWhile (· != '\'')
    if content.all isPlain then some (content, rest) else none
  | [] => none

def skipBreak? : List Char → Option (List Char)
  | '\n' :: rest => some rest
  | '\r' :: '\n' :: rest => some rest
  | _ => none

def isSpace (c : Char) : Bool := c == ' ' || c == '\t'

def skipLines : Nat → List Char → List Char
  | 0, cs => cs
  | count + 1, cs =>
    match skipBreak? cs with
    | some rest => skipLines count rest
    | none =>
      match cs with
      | c :: rest => if isSpace c then skipLines count rest else cs
      | [] => []

/-- Quotes in front of a text on lines: the text goes on if there are fewer than
three; up to two of them belong to it before the three that close it. -/
def closing? (quote : Char) (cs : List Char) : Option (List Char × List Char) :=
  let quotes := (cs.takeWhile (· == quote)).length
  if quotes < 3 then none
  else
    let taken := min quotes 5
    some (List.replicate (taken - 3) quote, cs.drop taken)

def readLines (quote : Char) (escapes : Bool) : Nat → List Char → Option (List Char × List Char)
  | 0, _ => none
  | _ + 1, [] => none
  | count + 1, c :: rest =>
    match closing? quote (c :: rest) with
    | some closed => some closed
    | none =>
      match skipBreak? (c :: rest) with
      | some rest => do
        let (more, rest) ← readLines quote escapes count rest
        return ('\n' :: more, rest)
      | none =>
        if escapes && c == '\\' then
          match skipBreak? (rest.dropWhile isSpace) with
          | some behind => readLines quote escapes count (skipLines behind.length behind)
          | none => do
            let (d, rest) ← readEscape rest
            let (more, rest) ← readLines quote escapes count rest
            return (d :: more, rest)
        else do
          guard (isPlain c)
          let (more, rest) ← readLines quote escapes count rest
          return (c :: more, rest)

/-- A line break right behind the opening quotes is no part of the string. -/
def skipFirstBreak (cs : List Char) : List Char := (skipBreak? cs).getD cs

def read (cs : List Char) : Option (String × List Char) := do
  let (content, rest) ←
    match cs with
    | '"' :: '"' :: '"' :: rest => readLines '"' true (rest.length + 1) (skipFirstBreak rest)
    | '\'' :: '\'' :: '\'' :: rest => readLines '\'' false (rest.length + 1) (skipFirstBreak rest)
    | '"' :: rest => readBasic (rest.length + 1) rest
    | '\'' :: rest => readLiteral rest
    | _ => none
  return (String.ofList content, rest)

end DescriptorCheck.Toml.Quoted
