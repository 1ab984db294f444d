import DescriptorCheck.Number.Reading
import DescriptorCheck.Number.Word
import DescriptorCheck.Yaml.Datum
import DescriptorCheck.Yaml.Tag

set_option autoImplicit false

namespace DescriptorCheck.Yaml.Scalar
open Number (integerLimit naturalIn? wordLimit)

/-- True of the words for null; no text at all is none of them. -/
def isNull (text : String) : Bool := ["null", "Null", "NULL", "~"].contains text

def boolean? : String → Option Bool
  | "true" | "True" | "TRUE" => some true
  | "false" | "False" | "FALSE" => some false
  | _ => none

def isZeroLed (cs : List Char) : Bool :=
  let digits :=
    match cs with
    | '-' :: digits => digits
    | '+' :: digits => digits
    | digits => digits
  match digits with
  | '0' :: c :: rest => (c :: rest).all Char.isDigit
  | _ => false

def natural? : List Char → Option Nat
  | '0' :: 'x' :: digits => naturalIn? 16 digits
  | '0' :: 'o' :: digits => naturalIn? 8 digits
  | '0' :: 'b' :: digits => naturalIn? 2 digits
  | digits => if isZeroLed digits then none else naturalIn? 10 digits

def wholeNumber? : List Char → Option Int
  | '-' :: digits => (natural? digits).map fun n => -(n : Int)
  | '+' :: digits => (natural? digits).map Int.ofNat
  | digits => (natural? digits).map Int.ofNat

/-- An integer of 64 bits, with or without a sign. Integers of up to 128 bits beyond
that are faults; larger ones are no integers. -/
def integer? (text : String) : Except Error (Option Datum) :=
  match wholeNumber? text.toList with
  | none => .ok none
  | some i =>
    if -integerLimit ≤ i ∧ i < wordLimit then .ok (some (.integer i))
    else if -(integerLimit * wordLimit) ≤ i ∧ i < wordLimit * wordLimit then
      .error (.integerTooLarge text)
    else .ok none

def float? (text : String) : Option Number.Binary64 :=
  match text with
  | ".inf" | ".Inf" | ".INF" | "+.inf" | "+.Inf" | "+.INF" => some (.infinite false)
  | "-.inf" | "-.Inf" | "-.INF" => some (.infinite true)
  | ".nan" | ".NaN" | ".NAN" => some .nan
  | _ =>
    match Number.Binary64.read? text.toList with
    | some (.finite negative x) => some (.finite negative x)
    | _ => none

def ofPlain (text : String) : Except Error Datum :=
  if text.isEmpty || isNull text then .ok .null
  else
    match boolean? text with
    | some b => .ok (.boolean b)
    | none => do
      match ← integer? text with
      | some d => .ok d
      | none =>
        if isZeroLed text.toList then .ok (.text text)
        else .ok ((float? text).elim (.text text) .float)

def expect (text : String) (d? : Option Datum) : Except Error Datum :=
  match d? with
  | some d => .ok d
  | none => .error (.invalidScalar text)

/-- What a scalar is. Tags that are neither local nor listed here make it text. -/
def resolve (tag? : Option Tag) (text : String) (plain : Bool) : Except Error Datum :=
  let untagged : Except Error Datum := if plain then ofPlain text else .ok (.text text)
  match tag? with
  | none => untagged
  | some tag =>
    if tag.head? = some '!'.toUInt8 then untagged
    else if tag = Tag.core "bool" then expect text ((boolean? text).map .boolean)
    else if tag = Tag.core "int" then do expect text (← integer? text)
    else if tag = Tag.core "float" then expect text ((float? text).map .float)
    else if tag = Tag.core "null" then expect text (if isNull text then some .null else none)
    else .ok (.text text)

end DescriptorCheck.Yaml.Scalar
