import DescriptorCheck.Number.Digits
import DescriptorCheck.Number.Word

set_option autoImplicit false

namespace DescriptorCheck

inductive Number where
  | integer (i : Int64)
  | float (x : Number.Binary64)
deriving DecidableEq

namespace Number

def ofInt? (i : Int) : Option Number :=
  if -integerLimit ≤ i ∧ i < integerLimit then some (.integer (.ofInt i)) else none

/-- The whole number itself if it has 64 bits, and else the nearest float. -/
def ofInt (i : Int) : Number := (ofInt? i).getD (.float (.ofInt i))

namespace Binary64

/-- A whole number is written with all its digits and the fraction `0`; any other
value has the fewest digits that read back, and a half goes up. -/
def display : Binary64 → String
  | .finite negative x =>
    let text :=
      if x.isWhole then naturalText x.floor ++ ".0" else (x.shortest .up).positional
    if negative then "-" ++ text else text
  | .infinite negative => if negative then "-inf" else "inf"
  | .nan => "NaN"

end Binary64

def display : Number → String
  | .integer i => integerText i.toInt
  | .float x => x.display

def equal : Number → Number → Bool
  | .integer i, .integer j => i == j
  | .float x, .float y => x.equal y
  | _, _ => false

end Number

end DescriptorCheck
