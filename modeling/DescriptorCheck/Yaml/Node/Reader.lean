import DescriptorCheck.Yaml.Node
import DescriptorCheck.Yaml.Token

set_option autoImplicit false

namespace DescriptorCheck.Yaml.Node

/-- The tokens left, and the number that each name of an anchor has. -/
structure Source where
  tokens : List Token
  names : List (String × Nat)

namespace Source

def skip (s : Source) : Source := { s with tokens := s.tokens.tail }

def starts (expected : List Token) (s : Source) : Bool :=
  s.tokens.head?.any expected.contains

/-- Numbers a name by how many names there are. A name known before gets a new
number, so the next new name gets the same one. -/
def addName (name : String) (s : Source) : Nat × Source :=
  (s.names.length,
    { s with names := (name, s.names.length) :: s.names.filter (·.1 != name) })

end Source

abbrev Reader (α : Type) := Source → Except Error (α × Source)

abbrev Handles := List (String × Tag)

def defaultHandles : Handles := [("!", Tag.ofString "!"), ("!!", Tag.core "")]

def resolveTag (handles : Handles) (name : TagName) : Except Error Tag :=
  match name.handle? with
  | none => .ok name.suffix
  | some handle =>
    match handles.lookup handle with
    | some meaning => .ok (meaning ++ name.suffix)
    | none => .error (.unknownHandle handle)

def readProperties (handles : Handles) : Reader Properties := fun s =>
  let (anchor?, tag?, rest) : Option String × Option TagName × List Token :=
    match s.tokens with
    | .anchor name :: .tag t :: rest => (some name, some t, rest)
    | .tag t :: .anchor name :: rest => (some name, some t, rest)
    | .anchor name :: rest => (some name, none, rest)
    | .tag t :: rest => (none, some t, rest)
    | tokens => (none, none, tokens)
  let s := { s with tokens := rest }
  let (number?, s) : Option Nat × Source :=
    match anchor? with
    | some name =>
      let (number, s) := s.addName name
      (some number, s)
    | none => (none, s)
  do
    let tag? ← tag?.mapM (resolveTag handles)
    .ok (⟨number?, tag?⟩, s)

inductive Place where
  | block
  /-- In a block mapping, where a sequence needs no further indentation. -/
  | mappingEntry
  | flow
deriving DecidableEq

inductive Collection where
  | sequence (items : List Node)
  | mapping (entries : List (Node × Node))

def Collection.toNode (p : Properties) : Collection → Node
  | sequence items => .sequence p items
  | mapping entries => .mapping p entries

def readUnless (ends : List Token) (item : Reader Node) : Reader Node := fun s =>
  if s.starts ends then .ok (.empty .none, s) else item s

def readValue (ends : List Token) (item : Reader Node) : Reader Node := fun s =>
  match s.tokens with
  | .value :: _ => readUnless ends item s.skip
  | _ => .ok (.empty .none, s)

def readBlockItems (item : Reader Node) : Nat → Reader (List Node)
  | 0, _ => .error .unexpectedToken
  | count + 1, s =>
    match s.tokens with
    | .blockEntry :: _ => do
      let (n, s) ← readUnless [.blockEntry, .blockEnd] item s.skip
      let (more, s) ← readBlockItems item count s
      .ok (n :: more, s)
    | .blockEnd :: _ => .ok ([], s.skip)
    | _ => .error .unexpectedToken

def readEvenItems (item : Reader Node) : Nat → Reader (List Node)
  | 0, _ => .error .unexpectedToken
  | count + 1, s =>
    match s.tokens with
    | .blockEntry :: _ => do
      let (n, s) ← readUnless [.blockEntry, .key, .value, .blockEnd] item s.skip
      let (more, s) ← readEvenItems item count s
      .ok (n :: more, s)
    | _ => .ok ([], s)

def readBlockEntries (item : Reader Node) : Nat → Reader (List (Node × Node))
  | 0, _ => .error .unexpectedToken
  | count + 1, s =>
    match s.tokens with
    | .key :: _ => do
      let ends : List Token := [.key, .value, .blockEnd]
      let (key, s) ← readUnless ends item s.skip
      let (n, s) ← readValue ends item s
      let (more, s) ← readBlockEntries item count s
      .ok ((key, n) :: more, s)
    | .blockEnd :: _ => .ok ([], s.skip)
    | _ => .error .unexpectedToken

/-- A mapping of one entry that is an item of a flow sequence, behind its key token.
A token that stands in the place of the key is passed over. -/
def readPair (item : Reader Node) : Reader Node := fun s => do
  let (key, s) ←
    if s.starts [.value, .flowEntry, .flowSequenceEnd] then .ok (.empty .none, s.skip)
    else item s
  let (n, s) ← readValue [.flowEntry, .flowSequenceEnd] item s
  .ok (.mapping .none [(key, n)], s)

def readComma (first : Bool) : Reader Unit := fun s =>
  if first then .ok ((), s)
  else
    match s.tokens with
    | .flowEntry :: _ => .ok ((), s.skip)
    | _ => .error .unexpectedToken

def readFlowItems (item : Reader Node) : Nat → Bool → Reader (List Node)
  | 0, _, _ => .error .unexpectedToken
  | count + 1, first, s =>
    if s.starts [.flowSequenceEnd] then .ok ([], s.skip)
    else do
      let (_, s) ← readComma first s
      if s.starts [.flowSequenceEnd] then .ok ([], s.skip)
      else
        let (n, s) ← if s.starts [.key] then readPair item s.skip else item s
        let (more, s) ← readFlowItems item count false s
        .ok (n :: more, s)

/-- An entry of a flow mapping: without a key token it has no value. -/
def readFlowEntry (item : Reader Node) : Reader (Node × Node) := fun s =>
  if s.starts [.key] then do
    let (key, s) ← readUnless [.value, .flowEntry, .flowMappingEnd] item s.skip
    let (n, s) ← readValue [.flowEntry, .flowMappingEnd] item s
    .ok ((key, n), s)
  else do
    let (key, s) ← item s
    .ok ((key, .empty .none), s)

def readFlowEntries (item : Reader Node) : Nat → Bool → Reader (List (Node × Node))
  | 0, _, _ => .error .unexpectedToken
  | count + 1, first, s =>
    if s.starts [.flowMappingEnd] then .ok ([], s.skip)
    else do
      let (_, s) ← readComma first s
      if s.starts [.flowMappingEnd] then .ok ([], s.skip)
      else
        let (entry, s) ← readFlowEntry item s
        let (more, s) ← readFlowEntries item count false s
        .ok (entry :: more, s)

def readCollection? (item : Place → Reader Node) (place : Place) (s : Source) :
    Option (Except Error (Collection × Source)) :=
  let count := s.tokens.length + 1
  let sequence (read : Reader (List Node)) (s : Source) := do
    let (items, s) ← read s
    .ok (Collection.sequence items, s)
  let mapping (read : Reader (List (Node × Node))) (s : Source) := do
    let (entries, s) ← read s
    .ok (Collection.mapping entries, s)
  match s.tokens with
  | .flowSequenceStart :: _ => some (sequence (readFlowItems (item .flow) count true) s.skip)
  | .flowMappingStart :: _ => some (mapping (readFlowEntries (item .flow) count true) s.skip)
  | .blockEntry :: _ =>
    if place = .mappingEntry then some (sequence (readEvenItems (item .block) count) s) else none
  | .blockSequenceStart :: _ =>
    if place = .flow then none
    else some (sequence (readBlockItems (item .block) count) s.skip)
  | .blockMappingStart :: _ =>
    if place = .flow then none
    else some (mapping (readBlockEntries (item .mappingEntry) count) s.skip)
  | _ => none

def depthLimit : Nat := 128

/-- A node whose collections are read by `collection?`. Where there is no content,
properties alone make an empty node. -/
def readWith (handles : Handles)
    (collection? : Source → Option (Except Error (Collection × Source))) : Reader Node := fun s =>
  match s.tokens with
  | .reference name :: _ =>
    match s.names.lookup name with
    | some number => .ok (.reference number, s.skip)
    | none => .error (.unknownAnchor name)
  | _ => do
    let (p, s) ← readProperties handles s
    match s.tokens with
    | .scalar text plain :: _ =>
      let isLone := p.tag? == some (Tag.ofString "!")
      .ok (.scalar (if isLone then { p with tag? := none } else p) text plain, s.skip)
    | _ =>
      match collection? s with
      | some result =>
        let (content, s) ← result
        .ok (content.toNode p, s)
      | none => if p = .none then .error .unexpectedToken else .ok (.empty p, s)

def readNode (handles : Handles) : Nat → Place → Reader Node
  | 0, place =>
    readWith handles fun s =>
      (readCollection? (fun _ _ => .error .nestingLimit) place s).map fun _ =>
        .error .nestingLimit
  | depth + 1, place => readWith handles (readCollection? (readNode handles depth) place)

/-- The directives of a document: what is known of the version and of the handles,
and the tokens behind. -/
def readDirectives (versionGiven : Bool) (handles : Handles) :
    List Token → Except Error (Handles × List Token)
  | .version major minor :: rest =>
    if versionGiven then .error .repeatedDirective
    else if major = 1 && (minor = 1 || minor = 2) then readDirectives true handles rest
    else .error (.unsupportedVersion major minor)
  | .handle name meaning :: rest =>
    if (handles.lookup name).isSome then .error .repeatedDirective
    else readDirectives versionGiven ((name, meaning) :: handles) rest
  | tokens => .ok (handles, tokens)

/-- The content of a document behind its start mark, which may be missing. -/
def readContent (handles : Handles) : Reader Node := fun s =>
  if s.tokens.isEmpty || s.starts [.documentStart, .documentEnd] then .ok (.empty .none, s)
  else readNode handles depthLimit .block s

def isDirective : Token → Bool
  | .version _ _ => true
  | .handle _ _ => true
  | _ => false

def ofTokens (tokens : List Token) : Except Error (Option Node) :=
  if tokens.isEmpty then .ok none
  else do
    let explicit := tokens.head?.any fun t => t = .documentStart || isDirective t
    let (root, s) ←
      if explicit then do
        let (handles, rest) ← readDirectives false [] tokens
        match rest with
        | .documentStart :: rest => readContent (handles ++ defaultHandles) ⟨rest, []⟩
        | _ => .error .unexpectedToken
      else readNode defaultHandles depthLimit .block ⟨tokens, []⟩
    if s.tokens.all (· = .documentEnd) then .ok (some root)
    else .error .severalDocuments

end DescriptorCheck.Yaml.Node
