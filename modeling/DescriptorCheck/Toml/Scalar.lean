import DescriptorCheck.Number.Reading
import DescriptorCheck.Number.Word
import DescriptorCheck.Toml.Node

set_option autoImplicit false

namespace DescriptorCheck.Toml.Scalar
open Number (digitValue? integerLimit naturalIn? naturalOf)

abbrev Reader (α : Type) := List Char → Option (α × List Char)

/-- Digits behind a first one, where an underscore stands between two digits. -/
def moreDigits (isDigit : Char → Bool) : List Char → List Char × List Char
  | '_' :: d :: rest =>
    if isDigit d then
      let (digits, rest) := moreDigits isDigit rest
      (d :: digits, rest)
    else ([], '_' :: d :: rest)
  | c :: rest =>
    if isDigit c then
      let (digits, rest) := moreDigits isDigit rest
      (c :: digits, rest)
    else ([], c :: rest)
  | [] => ([], [])

def digits (isDigit : Char → Bool) : Reader (List Char)
  | c :: rest =>
    if isDigit c then
      let (more, rest) := moreDigits isDigit rest
      some (c :: more, rest)
    else none
  | [] => none

/-- Digits of a decimal number: a leading zero stands alone. -/
def decimalDigits : Reader (List Char)
  | '0' :: rest => some (['0'], rest)
  | cs => digits Char.isDigit cs

def sign : List Char → Bool × List Char
  | '+' :: rest => (false, rest)
  | '-' :: rest => (true, rest)
  | cs => (false, cs)

def integerOf (i : Int) : Option Node :=
  if -integerLimit ≤ i ∧ i < integerLimit then some (.integer i) else none

def basedInteger (base : Nat) : Reader Node := fun cs => do
  let (ds, rest) ← digits (fun c => (digitValue? base c).isSome) cs
  return (← integerOf (← naturalIn? base ds), rest)

def integer : Reader Node
  | '0' :: 'x' :: rest => basedInteger 16 rest
  | '0' :: 'o' :: rest => basedInteger 8 rest
  | '0' :: 'b' :: rest => basedInteger 2 rest
  | cs => do
    let (negative, rest) := sign cs
    let (ds, rest) ← decimalDigits rest
    let n : Int := naturalOf ds
    return (← integerOf (if negative then -n else n), rest)

def exponent : Reader Int
  | c :: rest =>
    if c == 'e' || c == 'E' then do
      let (negative, rest) := sign rest
      let (ds, rest) ← digits Char.isDigit rest
      let n : Int := naturalOf ds
      return (if negative then -n else n, rest)
    else none
  | [] => none

/-- A float with a fraction, an exponent or both. It may not be too large, unless it
is negative. -/
def decimalFloat : Reader Node := fun cs => do
  let (negative, rest) := sign cs
  let (whole, rest) ← decimalDigits rest
  let (fraction, shift, rest) ←
    match rest with
    | '.' :: behind => do
      let (fraction, rest) ← digits Char.isDigit behind
      match exponent rest with
      | some (shift, rest) => pure (fraction, shift, rest)
      | none => pure (fraction, 0, rest)
    | _ => do
      let (shift, rest) ← exponent rest
      pure ([], shift, rest)
  let x := Number.Binary64.ofDecimal negative (naturalOf (whole ++ fraction))
    (shift - fraction.length)
  if x = .infinite false then none else return (.float x, rest)

def specialFloat : Reader Node := fun cs =>
  let (negative, rest) := sign cs
  match rest with
  | 'i' :: 'n' :: 'f' :: rest => some (.float (.infinite negative), rest)
  | 'n' :: 'a' :: 'n' :: rest => some (.float .nan, rest)
  | _ => none

def fixedDigits (count : Nat) : Reader Nat := fun cs =>
  let ds := cs.take count
  if ds.length = count && ds.all Char.isDigit then some (naturalOf ds, cs.drop count) else none

def literal (c : Char) : Reader Unit
  | d :: rest => if d = c then some ((), rest) else none
  | [] => none

def daysOf (year month : Nat) : Nat :=
  let isLeap := year % 4 = 0 && (year % 100 ≠ 0 || year % 400 = 0)
  if month = 2 then (if isLeap then 29 else 28)
  else if [4, 6, 9, 11].contains month then 30
  else 31

def date : Reader Unit := fun cs => do
  let (year, rest) ← fixedDigits 4 cs
  let (_, rest) ← literal '-' rest
  let (month, rest) ← fixedDigits 2 rest
  let (_, rest) ← literal '-' rest
  let (day, rest) ← fixedDigits 2 rest
  guard (1 ≤ month && month ≤ 12 && 1 ≤ day && day ≤ daysOf year month)
  return ((), rest)

/-- A time of day; its last minute may have a leap second. -/
def time : Reader Unit := fun cs => do
  let (hour, rest) ← fixedDigits 2 cs
  let (_, rest) ← literal ':' rest
  let (minute, rest) ← fixedDigits 2 rest
  let (_, rest) ← literal ':' rest
  let (second, rest) ← fixedDigits 2 rest
  guard (hour ≤ 23 && minute ≤ 59 && second ≤ 60)
  match rest with
  | '.' :: behind =>
    if (behind.takeWhile Char.isDigit).isEmpty then none
    else return ((), behind.dropWhile Char.isDigit)
  | _ => return ((), rest)

def offset : Reader Unit := fun cs =>
  match cs with
  | 'Z' :: rest => some ((), rest)
  | 'z' :: rest => some ((), rest)
  | c :: rest =>
    if c == '+' || c == '-' then do
      let (hour, rest) ← fixedDigits 2 rest
      let (_, rest) ← literal ':' rest
      let (minute, rest) ← fixedDigits 2 rest
      guard (hour ≤ 23 && minute ≤ 59)
      return ((), rest)
    else some ((), cs)
  | [] => some ((), [])

def moment : Reader Node := fun cs =>
  match date cs with
  | some (_, rest) =>
    let withTime : Option (Unit × List Char) :=
      match rest with
      | c :: behind =>
        if c == 'T' || c == 't' || c == ' ' then time behind else none
      | [] => none
    match withTime with
    | some (_, rest) => (offset rest).map fun (_, rest) => (.moment, rest)
    | none => some (.moment, rest)
  | none => (time cs).map fun (_, rest) => (.moment, rest)

def boolean : Reader Node
  | 't' :: 'r' :: 'u' :: 'e' :: rest => some (.boolean true, rest)
  | 'f' :: 'a' :: 'l' :: 's' :: 'e' :: rest => some (.boolean false, rest)
  | _ => none

def read : Reader Node := fun cs =>
  (moment cs).or ((decimalFloat cs).or ((specialFloat cs).or ((integer cs).or (boolean cs))))

end DescriptorCheck.Toml.Scalar
