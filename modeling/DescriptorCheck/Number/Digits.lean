import DescriptorCheck.Number.Shortest

set_option autoImplicit false

namespace DescriptorCheck.Number

def naturalDigits (n : Nat) : List Char := Nat.toDigits 10 n

def naturalText (n : Nat) : String := String.ofList (naturalDigits n)

def integerText (i : Int) : String :=
  if i < 0 then "-" ++ naturalText i.natAbs else naturalText i.natAbs

namespace Decimal

def digitChars (d : Decimal) : List Char := naturalDigits d.digits

/-- How many digits stand before the point; none or less for a value below a tenth. -/
def pointAt (d : Decimal) : Int := d.digitChars.length + d.exponent

/-- The decimal without an exponent. A whole number has the fraction `0`. -/
def positional (d : Decimal) : String :=
  let digits := d.digitChars
  let point := d.pointAt
  String.ofList <|
    if point ≤ 0 then
      '0' :: '.' :: (List.replicate (-point).toNat '0' ++ digits)
    else if digits.length ≤ point.toNat then
      digits ++ List.replicate (point.toNat - digits.length) '0' ++ ['.', '0']
    else
      digits.take point.toNat ++ '.' :: digits.drop point.toNat

/-- One digit before the point, the rest behind it, and a signed exponent. -/
def scientific (d : Decimal) : String :=
  let exponent := d.pointAt - 1
  let mantissa :=
    match d.digitChars with
    | first :: second :: rest => first :: '.' :: second :: rest
    | digits => digits
  String.ofList mantissa ++ "e" ++ (if exponent < 0 then "-" else "+")
    ++ naturalText exponent.natAbs

end Decimal

end DescriptorCheck.Number
