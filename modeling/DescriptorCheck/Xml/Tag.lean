import DescriptorCheck.Xml.Error

set_option autoImplicit false

namespace DescriptorCheck.Xml
open Text (byteLength)

def isBlank (c : Char) : Bool := c == ' ' || c == '\t' || c == '\n' || c == '\r'

structure Tag where
  content : List Char
deriving DecidableEq

def localName (name : List Char) : List Char :=
  match name.dropWhile (· != ':') with
  | _ :: rest => rest
  | [] => name

structure Attribute where
  key : List Char
  /-- The value as written, references included. -/
  value : List Char
deriving DecidableEq

namespace Attribute

/-- True of every key that starts like that of a namespace declaration, also of `xmlnsx`. -/
def isNamespace (a : Attribute) : Bool := ['x', 'm', 'l', 'n', 's'].isPrefixOf a.key

end Attribute

namespace Tag

def name (t : Tag) : List Char := t.content.takeWhile (!isBlank ·)

def behindName (t : Tag) : List Char := t.content.dropWhile (!isBlank ·)

def endsKey (c : Char) : Bool := c == '=' || isBlank c

/-- The key at the start of a text and the text from its end on. A key takes its
first character whatever it is. -/
def splitKey : List Char → List Char × List Char
  | [] => ([], [])
  | c :: rest => (c :: rest.takeWhile (!endsKey ·), rest.dropWhile (!endsKey ·))

/-- The attributes in a text that ends at byte `stop`; `known` holds the places of
the keys before it. Each attribute takes at least one of `count` characters. -/
def attributesIn (stop : Nat) (known : List (List Char × Nat)) :
    Nat → List Char → List (Except AttributeError Attribute)
  | 0, _ => []
  | count + 1, cs =>
    match cs.dropWhile isBlank with
    | [] => []
    | start =>
      let place (rest : List Char) : Nat := stop - byteLength rest
      let (key, behindKey) := splitKey start
      match behindKey.dropWhile isBlank with
      | '=' :: behindEquals =>
        match known.lookup key with
        | some previous => [.error (.duplicated (place start) previous)]
        | none =>
          match behindEquals.dropWhile isBlank with
          | [] => [.error (.expectedValue stop)]
          | quote :: rest =>
            if quote == '"' || quote == '\'' then
              match rest.dropWhile (· != quote) with
              | [] => [.error (.unclosedQuote stop quote)]
              | _ :: behind =>
                .ok ⟨key, rest.takeWhile (· != quote)⟩
                  :: attributesIn stop ((key, place start) :: known) count behind
            else [.error (.unquotedValue (place (quote :: rest)))]
      | rest => [.error (.expectedEquals (place rest))]

/-- The attributes of a tag in order, up to the first that is not well formed. -/
def attributes (t : Tag) : List (Except AttributeError Attribute) :=
  attributesIn (byteLength t.content) [] (t.content.length + 1) t.behindName

end Tag

end DescriptorCheck.Xml
