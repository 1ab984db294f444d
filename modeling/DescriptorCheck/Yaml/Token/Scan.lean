import DescriptorCheck.Yaml.Token.Block
import DescriptorCheck.Yaml.Token.Directive
import DescriptorCheck.Yaml.Token.Plain
import DescriptorCheck.Yaml.Token.Quoted

set_option autoImplicit false

/-! A key is known for one only at the colon behind it. So each place where a key may start is
kept as a candidate, one on each level of flow collections, and the colon puts the `key` token
before the tokens read since. -/
namespace DescriptorCheck.Yaml

/-- A place where a key may have started, behind `number` tokens. -/
structure Candidate where
  /-- True if the text there can be nothing but a key. -/
  required : Bool
  number : Nat
  line : Nat
  column : Nat
deriving DecidableEq

def keyLimit : Nat := 1024

def Candidate.isPast (c : Cursor) (key : Candidate) : Bool :=
  key.line < c.line || key.column + keyLimit < c.column

structure Scan where
  cursor : Cursor
  /-- The tokens read, the last one first. -/
  tokens : List Token
  number : Nat
  number_eq : number = tokens.length
  /-- The columns of the open block collections, the innermost first. -/
  columns : List Nat
  keyAllowed : Bool
  candidate : Option Candidate
  /-- The candidates outside of each open flow collection, the innermost first. -/
  outer : List (Option Candidate)

namespace Scan

def start (cs : List Char) : Scan := ⟨.ofText cs, [], 0, rfl, [], true, none, []⟩

def inFlow (s : Scan) : Bool := !s.outer.isEmpty

def margin (s : Scan) : Nat :=
  match s.columns with
  | [] => 0
  | column :: _ => column + 1

def push (token : Token) (c : Cursor) (s : Scan) : Scan :=
  { s with
    tokens := token :: s.tokens
    number := s.number + 1
    number_eq := by rw [s.number_eq, List.length_cons]
    cursor := c }

def add (token : Token) (length : Nat) (s : Scan) : Scan := s.push token (s.cursor.skip length)

def insert (token : Token) (number : Nat) (s : Scan) : Scan :=
  { s with
    tokens := s.tokens.insertIdx (s.number - number) token
    number := s.number + 1
    number_eq := by
      rw [List.length_insertIdx_of_le_length (by rw [s.number_eq]; exact Nat.sub_le _ _),
        s.number_eq] }

/-- Opens a block collection behind the first `number` tokens if its items are
deeper than what is around it. -/
def openBlock (token : Token) (column number : Nat) (s : Scan) : Scan :=
  if !s.inFlow && s.margin ≤ column then
    { s.insert token number with columns := column :: s.columns }
  else s

def closeBlocks (p : Nat → Bool) (s : Scan) : Scan :=
  if s.inFlow then s
  else
    let closed := s.columns.takeWhile p
    { s with
      columns := s.columns.dropWhile p
      tokens := closed.map (fun _ => .blockEnd) ++ s.tokens
      number := closed.length + s.number
      number_eq := by rw [List.length_append, List.length_map, s.number_eq] }

def dropCandidate (s : Scan) : Except Error Scan :=
  if s.candidate.any Candidate.required then .error .missingColon
  else .ok { s with candidate := none }

def dropPast (s : Scan) : Except Error Scan :=
  let candidates := s.candidate :: s.outer
  if candidates.any (·.any fun key => key.required && key.isPast s.cursor) then
    .error .missingColon
  else
    .ok { s with
      candidate := s.candidate.filter (!·.isPast s.cursor)
      outer := s.outer.map (·.filter (!·.isPast s.cursor)) }

def note (s : Scan) : Except Error Scan :=
  if s.keyAllowed then do
    let required := !s.inFlow && s.columns.head? == some s.cursor.column
    let s ← s.dropCandidate
    .ok { s with
      candidate := some ⟨required, s.number, s.cursor.line, s.cursor.column⟩ }
  else .ok s

/-- Passes over blanks, comments and line breaks, in at most `count` steps. A tab is
no indentation, so it is not passed over where a key may start. -/
def skipFiller : Nat → Scan → Scan
  | 0, s => s
  | count + 1, s =>
    let isFiller (c : Char) : Bool := c == ' ' || (c == '\t' && (s.inFlow || !s.keyAllowed))
    let c := s.cursor
    let c := if c.column = 0 && c.rest.head? == some '\ufeff' then c.skip 1 else c
    let c := (c.skipWhile isFiller).skipComment
    if c.rest.head?.any isBreak then
      skipFiller count { s with cursor := c.skipBreak, keyAllowed := s.keyAllowed || !s.inFlow }
    else { s with cursor := c }

def betweenDocuments (read : Reader Token) (s : Scan) : Except Error Scan := do
  let s ← (s.closeBlocks fun _ => true).dropCandidate
  let (token, c) ← read s.cursor
  .ok { s.push token c with keyAllowed := false }

def openFlow (token : Token) (s : Scan) : Except Error Scan := do
  let s ← s.note
  .ok <| add token 1 { s with
    candidate := none, outer := s.candidate :: s.outer, keyAllowed := true }

def closeFlow (token : Token) (s : Scan) : Except Error Scan := do
  let s ← s.dropCandidate
  .ok <| add token 1 { s with
    candidate := s.outer.head?.join, outer := s.outer.tail, keyAllowed := false }

def flowEntry (s : Scan) : Except Error Scan := do
  let s ← s.dropCandidate
  .ok (add .flowEntry 1 { s with keyAllowed := true })

/-- Opens the block collection that an item or key without a candidate belongs to. -/
def openHere (token : Token) (e : Error) (s : Scan) : Except Error Scan :=
  if s.inFlow then .ok s
  else if s.keyAllowed then .ok (s.openBlock token s.cursor.column s.number)
  else .error e

def blockEntry (s : Scan) : Except Error Scan := do
  let s ← s.openHere .blockSequenceStart .strayEntry
  let s ← s.dropCandidate
  .ok (add .blockEntry 1 { s with keyAllowed := true })

def key (s : Scan) : Except Error Scan := do
  let s ← s.openHere .blockMappingStart .strayKey
  let s ← s.dropCandidate
  .ok (add .key 1 { s with keyAllowed := !s.inFlow })

/-- A colon: what it follows is a key if it has a candidate. -/
def value (s : Scan) : Except Error Scan := do
  match s.candidate with
  | some key =>
    let s := (s.insert .key key.number).openBlock .blockMappingStart key.column key.number
    .ok (add .value 1 { s with candidate := none, keyAllowed := false })
  | none =>
    let s ← s.openHere .blockMappingStart .strayValue
    .ok (add .value 1 { s with keyAllowed := !s.inFlow })

def content (read : Reader Token) (s : Scan) : Except Error Scan := do
  let s ← s.note
  let (token, c) ← read s.cursor
  .ok { s.push token c with keyAllowed := false }

def readName : Reader String := fun c =>
  let (name, c) := (c.skip 1).takeWhile Tag.isNameChar
  let ends := endsWord c.rest || c.rest.head?.any "?:,]\x7d%@\x60".toList.contains
  if !name.isEmpty && ends then .ok (String.ofList name, c) else .error .invalidName

/-- A tag, which ends a word or stands before a comma of a flow collection. -/
def readTag (inFlow : Bool) : Reader Token := fun c => do
  let (name, c) ← TagName.read c
  if endsWord c.rest || (inFlow && c.rest.head? == some ',') then .ok (.tag name, c)
  else .error .invalidTag

def readQuoted (style : Quoted.Style) (count : Nat) : Reader Token := fun c => do
  let (text, c) ← Quoted.read style count c
  .ok (.scalar text false, c)

/-- A plain scalar; behind a line break that ends it a key may start. -/
def plain (count : Nat) (s : Scan) : Except Error Scan := do
  let s ← s.note
  let ((text, broken), c) ← Plain.read s.inFlow s.margin count s.cursor
  .ok { s.push (.scalar text true) c with keyAllowed := broken }

/-- A block scalar; behind its last line a key may start. -/
def block (style : Block.Style) (count : Nat) (s : Scan) : Except Error Scan := do
  let s ← s.dropCandidate
  let (text, c) ← Block.read style s.margin count s.cursor
  .ok { s.push (.scalar text false) c with keyAllowed := true }

def readMark : Reader Token := fun c =>
  .ok (if c.rest.head? == some '-' then .documentStart else .documentEnd, c.skip 3)

/-- Reads the token that starts with `first`, a character other than a break, in a text
of which less than `count` characters are left. -/
def token (count : Nat) (first : Char) (rest : List Char) (s : Scan) : Except Error Scan :=
  if s.cursor.column = 0 && first == '%' then s.betweenDocuments Directive.read
  else if s.cursor.atDocumentMark then s.betweenDocuments readMark
  else
    match first with
    | '[' => s.openFlow .flowSequenceStart
    | ']' => s.closeFlow .flowSequenceEnd
    | '\x7b' => s.openFlow .flowMappingStart
    | '\x7d' => s.closeFlow .flowMappingEnd
    | ',' => s.flowEntry
    | '-' => if endsWord rest then s.blockEntry else s.plain count
    | '?' => if s.inFlow || endsWord rest then s.key else s.plain count
    | ':' => if s.inFlow || endsWord rest then s.value else s.plain count
    | '&' => s.content fun c => do
      let (name, c) ← readName c
      .ok (.anchor name, c)
    | '*' => s.content fun c => do
      let (name, c) ← readName c
      .ok (.reference name, c)
    | '!' => s.content (readTag s.inFlow)
    | '|' => if s.inFlow then .error (.strayCharacter first) else s.block .literal count
    | '>' => if s.inFlow then .error (.strayCharacter first) else s.block .folded count
    | '\'' => s.content (readQuoted .single count)
    | '"' => s.content (readQuoted .double count)
    | c => if "\t#%@\x60".toList.contains c then .error (.strayCharacter c) else s.plain count

/-- Reads on to the end of the text, which has less than `count` characters. -/
def finish : Nat → Scan → Except Error (List Token)
  | 0, s => .ok s.tokens.reverse
  | count + 1, s => do
    let s ← (s.skipFiller (count + 1)).dropPast
    let s := s.closeBlocks (s.cursor.column < ·)
    match s.cursor.rest with
    | [] =>
      let s ← (s.closeBlocks fun _ => true).dropCandidate
      .ok s.tokens.reverse
    | first :: rest =>
      let s ← s.token (count + 1) first rest
      finish count s

end Scan

def Token.ofChars (cs : List Char) : Except Error (List Token) :=
  (Scan.start cs).finish (cs.length + 1)

end DescriptorCheck.Yaml
