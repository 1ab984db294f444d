import DescriptorCheck.Json.Quoted
import DescriptorCheck.Path.Element

set_option autoImplicit false

namespace DescriptorCheck.Json

def encodeMagnitude (x : Number.Magnitude) : String :=
  if x.isZero then "0.0"
  else
    let d := x.shortest .even
    if -5 < d.pointAt ∧ d.pointAt ≤ 16 then d.positional else d.scientific

def encodeFloat : Number.Binary64 → String
  | .finite negative x => (if negative then "-" else "") ++ encodeMagnitude x
  | _ => "null"

def encodeNumber : Number → String
  | .integer i => Number.integerText i.toInt
  | .float x => encodeFloat x

mutual

def encode : Value → List Char
  | .object entries => '\x7b' :: encodeEntries entries ++ ['\x7d']
  | .array items => '[' :: encodeItems items ++ [']']
  | .text s => Quoted.encode s
  | .number n => (encodeNumber n).toList
  | .boolean b => if b then ['t', 'r', 'u', 'e'] else ['f', 'a', 'l', 's', 'e']
  | .null => ['n', 'u', 'l', 'l']

def encodeItems : List Value → List Char
  | [] => []
  | [v] => encode v
  | v :: rest => encode v ++ ',' :: encodeItems rest

def encodeEntries : List (String × Value) → List Char
  | [] => []
  | [(key, v)] => Quoted.encode key ++ ':' :: encode v
  | (key, v) :: rest => Quoted.encode key ++ ':' :: encode v ++ ',' :: encodeEntries rest

end

/-- One line for an element: the object of its path and its value. -/
def elementLine (e : Element) : String :=
  String.ofList (encode (.object [("path", .text e.path), ("value", e.value)]))

end DescriptorCheck.Json
