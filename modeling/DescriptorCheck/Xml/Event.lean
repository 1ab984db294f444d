import DescriptorCheck.Xml.Tag

set_option autoImplicit false

namespace DescriptorCheck.Xml
open Text (byteLength)

inductive Event where
  | start (tag : Tag)
  | empty (tag : Tag)
  | close (name : List Char)
  | text (content : List Char)
  /-- Text in which nothing is a reference. -/
  | data (content : List Char)
  | aside
deriving DecidableEq

/-- A fault in markup and how many bytes of the text are left behind it. -/
structure Fault where
  error : MarkupError
  left : Nat
deriving DecidableEq

namespace Event

/-- The text before the first place where `ending` stands, and the text behind it. -/
def splitAt? (ending : List Char) : List Char → Option (List Char × List Char)
  | [] => none
  | c :: rest =>
    if ending.isPrefixOf (c :: rest) then some ([], (c :: rest).drop ending.length)
    else (splitAt? ending rest).map fun (before, behind) => (c :: before, behind)

/-- The text up to the bracket that closes a tag; brackets in quotes do not. -/
def splitTag? : Option Char → List Char → Option (List Char × List Char)
  | _, [] => none
  | none, '>' :: rest => some ([], rest)
  | quote, c :: rest =>
    let quote :=
      match quote with
      | some q => if c = q then none else some q
      | none => if c == '"' || c == '\'' then some c else none
    (splitTag? quote rest).map fun (before, behind) => (c :: before, behind)

/-- The text up to the bracket that closes a document type, past `open_` inner pairs. -/
def splitDoctype? : Nat → List Char → Option (List Char × List Char)
  | _, [] => none
  | 0, '>' :: rest => some ([], rest)
  | open_ + 1, '>' :: rest =>
    (splitDoctype? open_ rest).map fun (before, behind) => ('>' :: before, behind)
  | open_, c :: rest =>
    let inner := if c = '<' then open_ + 1 else open_
    (splitDoctype? inner rest).map fun (before, behind) => (c :: before, behind)

/-- The comment behind `<!-`, where `cs` starts at the second dash. The dashes that
end a comment are not those that start it. -/
def readComment (cs : List Char) : Except Fault (Event × List Char) :=
  match splitAt? ['-', '-', '>'] (cs.drop 1) with
  | none => .error ⟨.unclosedComment, 0⟩
  | some (_, rest) =>
    if cs.head? = some '-' then .ok (.aside, rest)
    else .error ⟨.unclosedComment, byteLength rest⟩

def readData (cs : List Char) : Except Fault (Event × List Char) :=
  match splitAt? [']', ']', '>'] cs with
  | none => .error ⟨.unclosedCData, 0⟩
  | some (before, rest) =>
    match List.isPrefixOf? ['[', 'C', 'D', 'A', 'T', 'A', '['] before with
    | some content => .ok (.data content, rest)
    | none => .error ⟨.unclosedCData, byteLength rest⟩

def readDoctype (cs : List Char) : Except Fault (Event × List Char) :=
  match splitDoctype? 0 cs with
  | none => .error ⟨.unclosedDoctype, 0⟩
  | some (before, rest) =>
    if (before.take 7).map Char.toUpper = ['D', 'O', 'C', 'T', 'Y', 'P', 'E'] then
      if (before.drop 7).all isBlank then .error ⟨.missingDoctypeName, byteLength rest⟩
      else .ok (.aside, rest)
    else .error ⟨.unclosedDoctype, byteLength rest⟩

def readInstruction (cs : List Char) : Except Fault (Event × List Char) :=
  match cs with
  | '>' :: rest => .error ⟨.unclosedInstruction, byteLength rest⟩
  | _ =>
    match splitAt? ['?', '>'] cs with
    | some (_, rest) => .ok (.aside, rest)
    | none => .error ⟨.unclosedInstruction, 0⟩

def trimName (name : List Char) : List Char :=
  if name.all isBlank then name else (name.reverse.dropWhile isBlank).reverse

/-- Reads markup behind its opening bracket; also the names of the elements open
after it, innermost first. -/
def readMarkup (opened : List (List Char)) (cs : List Char) :
    Except Fault (Event × List (List Char) × List Char) :=
  let aside (result : Except Fault (Event × List Char)) :
      Except Fault (Event × List (List Char) × List Char) :=
    result.map fun (event, rest) => (event, opened, rest)
  match cs with
  | '!' :: rest =>
    match rest with
    | '-' :: rest => aside (readComment rest)
    | '[' :: _ => aside (readData rest)
    | 'D' :: _ => aside (readDoctype rest)
    | 'd' :: _ => aside (readDoctype rest)
    | _ => .error ⟨.unknownBang, byteLength cs⟩
  | '?' :: rest => aside (readInstruction rest)
  | '/' :: _ =>
    match splitTag? none cs with
    | none => .error ⟨.unclosedTag, 0⟩
    | some (content, rest) =>
      let name := trimName (content.drop 1)
      match opened with
      | [] => .error ⟨.unmatchedEnd (String.ofList name), byteLength rest⟩
      | innermost :: outer =>
        if innermost = name then .ok (.close name, outer, rest)
        else
          .error ⟨.mismatchedEnd (String.ofList innermost) (String.ofList name), byteLength rest⟩
  | _ =>
    match splitTag? none cs with
    | none => .error ⟨.unclosedTag, 0⟩
    | some (content, rest) =>
      if content.getLast? = some '/' then .ok (.empty ⟨content.dropLast⟩, opened, rest)
      else
        let tag : Tag := ⟨content⟩
        .ok (.start tag, tag.name :: opened, rest)

/-- The events of a text inside the given elements. Each takes at least one of
`count` characters. -/
def readFrom : Nat → List (List Char) → List Char → List (Except Fault Event)
  | 0, _, _ => []
  | _ + 1, _, [] => []
  | count + 1, opened, '<' :: rest =>
    match readMarkup opened rest with
    | .ok (event, opened, rest) => .ok event :: readFrom count opened rest
    | .error fault => [.error fault]
  | count + 1, opened, cs =>
    .ok (.text (cs.takeWhile (· != '<'))) :: readFrom count opened (cs.dropWhile (· != '<'))

def read (cs : List Char) : List (Except Fault Event) := readFrom (cs.length + 1) [] cs

end Event

end DescriptorCheck.Xml
