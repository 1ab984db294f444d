import DescriptorCheck.Number.Radix
import DescriptorCheck.Number.Shortest

set_option autoImplicit false

namespace DescriptorCheck.Number

def naturalOf (digits : List Char) : Nat :=
  digits.foldl (fun n c => n * 10 + digitValue c) 0

namespace Decimal

def exponentOf? : List Char → Option Int
  | '-' :: digits => unsigned? digits |>.map fun n => -(n : Int)
  | '+' :: digits => unsigned? digits |>.map Int.ofNat
  | digits => unsigned? digits |>.map Int.ofNat
where
  unsigned? (digits : List Char) : Option Nat :=
    if digits.isEmpty || !digits.all Char.isDigit then none else some (naturalOf digits)

def read? (cs : List Char) : Option Decimal := do
  let whole := cs.takeWhile Char.isDigit
  let rest := cs.dropWhile Char.isDigit
  let (fraction, rest) :=
    match rest with
    | '.' :: behind => (behind.takeWhile Char.isDigit, behind.dropWhile Char.isDigit)
    | _ => ([], rest)
  guard (!(whole ++ fraction).isEmpty)
  let exponent ←
    match rest with
    | [] => some 0
    | c :: digits => if c == 'e' || c == 'E' then exponentOf? digits else none
  return ⟨naturalOf (whole ++ fraction), exponent - fraction.length⟩

end Decimal

def Binary64.read? (cs : List Char) : Option Binary64 :=
  let signed (negative : Bool) (digits : List Char) : Option Binary64 :=
    (Decimal.read? digits).map fun d => ofDecimal negative d.digits d.exponent
  match cs with
  | '-' :: digits => signed true digits
  | '+' :: digits => signed false digits
  | digits => signed false digits

end DescriptorCheck.Number
