import DescriptorCheck.Text.Blank
import DescriptorCheck.Value.Basic
import DescriptorCheck.Xml.Event
import DescriptorCheck.Xml.Reference

set_option autoImplicit false

/-! The value of an element groups its attributes and then its children by local name, in the
order in which names first occur. The root's own name is dropped, and an empty root is an empty
object. -/
namespace DescriptorCheck.Xml

/-- Adds an entry: the first under a key is kept as it is, further ones make an array. -/
def addEntry (key : String) (v : Value) : List (String × Value) → List (String × Value)
  | [] => [(key, v)]
  | (k, w) :: rest =>
    if k = key then
      match w with
      | .array items => (k, .array (items ++ [v])) :: rest
      | w => (k, .array [w, v]) :: rest
    else (k, w) :: addEntry key v rest

structure Frame where
  name : String
  entries : List (String × Value)
  text : List Char

namespace Frame

def addAttributes (entries : List (String × Value)) :
    List (Except AttributeError Attribute) → Except Error (List (String × Value))
  | [] => .ok entries
  | .error e :: _ => .error (.inTag e)
  | .ok a :: rest =>
    if a.isNamespace then addAttributes entries rest
    else
      match Reference.replace a.value with
      | .error e => .error (.inText e)
      | .ok value =>
        addAttributes
          (addEntry (String.ofList (localName a.key)) (.text (String.ofList value)) entries) rest

def ofTag (t : Tag) : Except Error Frame := do
  let entries ← addAttributes [] t.attributes
  return ⟨String.ofList (localName t.name), entries, []⟩

def value (f : Frame) : Value :=
  let text := String.ofList (Text.trimChars f.text)
  if f.entries.isEmpty then .text text
  else if text = "" then .object f.entries
  else .object (Value.putEntry "" (.text text) f.entries)

end Frame

/-- The open elements, innermost first, and the root once it is closed. -/
structure Progress where
  frames : List Frame
  root : Option Value

namespace Progress

def start : Progress := ⟨[], none⟩

def close (f : Frame) (outer : List Frame) (root : Option Value) : Except Error Progress :=
  match outer with
  | parent :: rest =>
    .ok ⟨{ parent with entries := addEntry f.name f.value parent.entries } :: rest, root⟩
  | [] =>
    match root with
    | none => .ok ⟨[], some f.value⟩
    | some _ => .error (.secondRoot f.name)

/-- Text belongs to the innermost element; outside of elements it is ignored. -/
def addText (p : Progress) (content : List Char) : Progress :=
  match p.frames with
  | f :: outer => { p with frames := { f with text := f.text ++ content } :: outer }
  | [] => p

def step (p : Progress) : Event → Except Error Progress
  | .start tag => do
    let f ← Frame.ofTag tag
    return { p with frames := f :: p.frames }
  | .empty tag => do
    let f ← Frame.ofTag tag
    close f p.frames p.root
  | .close _ =>
    match p.frames with
    | f :: outer => close f outer p.root
    | [] => .error .unexpectedEnd
  | .text content =>
    if p.frames.isEmpty then .ok p
    else
      match Reference.replace content with
      | .ok text => .ok (p.addText text)
      | .error e => .error (.inText e)
  | .data content => .ok (p.addText content)
  | .aside => .ok p

def finish (p : Progress) : Except Error Value :=
  match p.frames, p.root with
  | f :: _, _ => .error (.unclosedElement f.name)
  | [], some (.text s) => .ok (if s = "" then .object [] else .text s)
  | [], some v => .ok v
  | [], none => .error .noRoot

def run (length : Nat) (p : Progress) : List (Except Fault Event) → Except Error Value
  | [] => p.finish
  | .error fault :: _ => .error (.inMarkup (length - fault.left) fault.error)
  | .ok event :: rest => do
    let next ← p.step event
    next.run length rest

end Progress

def skipMark : List Char → List Char
  | '\ufeff' :: rest => rest
  | cs => cs

def read (text : String) : Except Error Value :=
  let cs := skipMark text.toList
  Progress.start.run (Text.byteLength cs) (Event.read cs)

end DescriptorCheck.Xml
