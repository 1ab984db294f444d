import DescriptorCheck.Toml.Quoted
import DescriptorCheck.Toml.Scalar

set_option autoImplicit false

namespace DescriptorCheck.Toml
open Quoted (isPlain isSpace skipBreak?)
open Scalar (Reader)

def nestingLimit : Nat := 80

def skipSpaces (cs : List Char) : List Char := cs.dropWhile isSpace

def skipComment : List Char → List Char
  | '#' :: rest => rest.dropWhile isPlain
  | cs => cs

def endLine? (cs : List Char) : Option (List Char) :=
  match skipComment (skipSpaces cs) with
  | [] => some []
  | rest => skipBreak? rest

/-- The text behind blanks, comments and line breaks, at most `count` of each. -/
def skipFiller : Nat → List Char → List Char
  | 0, cs => cs
  | count + 1, cs =>
    let rest := skipComment (skipSpaces cs)
    match skipBreak? rest with
    | some behind => skipFiller count behind
    | none => rest

def isBareKey (c : Char) : Bool := c.isAlphanum || c == '_' || c == '-'

def readPart : Reader String := fun cs =>
  match cs with
  | '"' :: rest =>
    (Quoted.readBasic (rest.length + 1) rest).map fun (s, rest) => (String.ofList s, rest)
  | '\'' :: rest => (Quoted.readLiteral rest).map fun (s, rest) => (String.ofList s, rest)
  | _ =>
    let part := cs.takeWhile isBareKey
    if part.isEmpty then none else some (String.ofList part, cs.dropWhile isBareKey)

def readParts : Nat → Reader (List String)
  | 0, _ => none
  | count + 1, cs => do
    let (part, rest) ← readPart (skipSpaces cs)
    match skipSpaces rest with
    | '.' :: behind => do
      let (parts, rest) ← readParts count behind
      return (part :: parts, rest)
    | rest => return ([part], rest)

/-- A key: the parts that lead to its table, and the last one. -/
def readKey : Reader (List String × String) := fun cs => do
  let (parts, rest) ← readParts (nestingLimit - 1) cs
  return ((parts.dropLast, ← parts.getLast?), rest)

def readItems (item : Reader Node) : Nat → Reader (List Node)
  | 0, _ => none
  | count + 1, cs =>
    match skipFiller cs.length cs with
    | ']' :: rest => some ([], rest)
    | start => do
      let (n, rest) ← item start
      match skipFiller rest.length rest with
      | ',' :: rest => do
        let (more, rest) ← readItems item count rest
        return (n :: more, rest)
      | ']' :: rest => return ([n], rest)
      | _ => none

def readEntry (item : Reader Node) : Reader (List String × String × Node) := fun cs => do
  let ((path, key), rest) ← readKey cs
  match skipSpaces rest with
  | '=' :: behind => do
    let (n, rest) ← item (skipSpaces behind)
    return ((path, key, n), rest)
  | _ => none

/-- The entries of a table in line, from one up to its brace, at most `count` of them. -/
def readInline (item : Reader Node) : Nat → Entries → Reader Entries
  | 0, _, _ => none
  | count + 1, entries, cs => do
    let ((path, key, n), rest) ← readEntry item cs
    let entries ← entries.insert .inline path key n
    match skipSpaces rest with
    | ',' :: behind => readInline item count entries behind
    | '\x7d' :: behind => return (entries, behind)
    | _ => none

def readValue (depth : Nat) : Reader Node := fun cs =>
  match cs, depth with
  | '"' :: _, _ => (Quoted.read cs).map fun (s, rest) => (.string s, rest)
  | '\'' :: _, _ => (Quoted.read cs).map fun (s, rest) => (.string s, rest)
  | '[' :: rest, depth + 1 => do
    let (items, rest) ← readItems (readValue depth) (rest.length + 1) rest
    return (.array items, rest)
  | '\x7b' :: rest, depth + 1 =>
    match skipSpaces rest with
    | '\x7d' :: behind => some (.table .inline [], behind)
    | start => do
      let (entries, rest) ← readInline (readValue depth) (rest.length + 1) [] start
      return (.table .inline entries, rest)
  | _, _ => Scalar.read cs

/-- The tables read so far and the path of the one that entries go into. -/
structure Progress where
  root : Entries
  current : List String

def Progress.add (p : Progress) (path : List String) (key : String) (n : Node) :
    Option Progress := do
  let root ← Entries.change false (fun origin entries => entries.insert origin path key n)
    p.current .header p.root
  return { p with root }

def readLine (p : Progress) (cs : List Char) : Option (Progress × List Char) :=
  match cs with
  | '[' :: '[' :: rest => do
    let ((path, key), rest) ← readKey rest
    match rest with
    | ']' :: ']' :: rest => do
      let root ← p.root.openNext path key
      return (⟨root, path ++ [key]⟩, ← endLine? rest)
    | _ => none
  | '[' :: rest => do
    let ((path, key), rest) ← readKey rest
    match rest with
    | ']' :: rest => do
      let root ← p.root.openTable path key
      return (⟨root, path ++ [key]⟩, ← endLine? rest)
    | _ => none
  | _ => do
    let ((path, key, n), rest) ← readEntry (readValue (nestingLimit - 1)) cs
    return (← p.add path key n, ← endLine? rest)

def readLines : Nat → Progress → List Char → Option Entries
  | 0, _, _ => none
  | count + 1, p, cs =>
    match skipFiller cs.length cs with
    | [] => some p.root
    | start => do
      let (p, rest) ← readLine p start
      readLines count p rest

/-- The entries of a text; a byte order mark in front is no part of it. -/
def read? (text : String) : Option Entries :=
  let cs :=
    match text.toList with
    | '\ufeff' :: rest => rest
    | cs => cs
  readLines (cs.length + 1) ⟨[], []⟩ cs

end DescriptorCheck.Toml
