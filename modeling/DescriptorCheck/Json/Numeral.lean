import DescriptorCheck.Json.Error
import DescriptorCheck.Number.Radix
import DescriptorCheck.Value.Number

set_option autoImplicit false

/-! A number is read as a significand of at most 64 bits and a power of ten. Digits that no
longer fit are dropped, those before the point into the power, so a long number may be rounded
twice. `-0` is a float. -/
namespace DescriptorCheck.Json.Numeral
open Number (Magnitude digitValue)

def significandLimit : Nat := 0xFFFFFFFFFFFFFFFF

/-- Appends digits to a significand while it fits; also how many were appended. -/
def appendDigits (significand count : Nat) : List Char → Nat × Nat × List Char
  | [] => (significand, count, [])
  | c :: rest =>
    if c.isDigit && significand * 10 + digitValue c ≤ significandLimit then
      appendDigits (significand * 10 + digitValue c) (count + 1) rest
    else (significand, count, c :: rest)

/-- Multiplication and division of magnitudes, rounded; none beyond the largest. -/
def times? (x y : Magnitude) : Option Magnitude :=
  Magnitude.ofRatio? (x.scaled * y.scaled) (Magnitude.unit * Magnitude.unit)

def over? (x y : Magnitude) : Option Magnitude := Magnitude.ofRatio? x.scaled y.scaled

def power? (exponent : Nat) : Option Magnitude := Magnitude.ofRatio? (Nat.pow 10 exponent) 1

/-- Divides by `10 ^ exponent`, by at most `10 ^ 308` at a time. A magnitude of 64
bits is zero after two such divisions, so three rounds are enough. -/
def divideByPower (x : Magnitude) (exponent : Nat) : Nat → Option Magnitude
  | 0 => some x
  | rounds + 1 => do
    if exponent ≤ 308 then over? x (← power? exponent)
    else if x.isZero then some x
    else divideByPower (← over? x (← power? 308)) (exponent - 308) rounds

/-- `significand * 10 ^ exponent`; none if it lies beyond the largest magnitude. -/
def scale? (significand : Nat) (exponent : Int) : Option Magnitude := do
  let x ← Magnitude.ofRatio? significand 1
  if exponent < 0 then divideByPower x (-exponent).toNat 3
  else if exponent ≤ 308 then times? x (← power? exponent.toNat)
  else if x.isZero then some x
  else none

def finish (negative : Bool) (significand : Nat) (exponent : Int) : Reader Number := fun cs =>
  match scale? significand exponent with
  | some x => .ok (.float (.finite negative x), cs)
  | none => .error (.before .numberOutOfRange cs)

def exponentLimit : Nat := 0x7FFFFFFF

/-- Digits of an exponent that fits; otherwise the text behind the first that does not. -/
def exponentDigits (exponent : Nat) : List Char → Except (List Char) (Nat × List Char)
  | [] => .ok (exponent, [])
  | c :: rest =>
    if c.isDigit then
      if exponent * 10 + digitValue c ≤ exponentLimit then
        exponentDigits (exponent * 10 + digitValue c) rest
      else .error rest
    else .ok (exponent, c :: rest)

def clampExponent (exponent : Int) : Int :=
  max (-exponentLimit - 1) (min exponentLimit exponent)

def readExponent (negative : Bool) (significand : Nat) (shift : Int) : Reader Number := fun cs =>
  let (down, digits) :=
    match cs with
    | '+' :: rest => (false, rest)
    | '-' :: rest => (true, rest)
    | _ => (false, cs)
  match digits with
  | [] => .error (.before .endInValue digits)
  | c :: rest =>
    if c.isDigit then
      match exponentDigits (digitValue c) rest with
      | .ok (exponent, rest) =>
        finish negative significand
          (clampExponent (if down then shift - exponent else shift + exponent)) rest
      | .error rest =>
        if significand ≠ 0 && !down then .error (.before .numberOutOfRange rest)
        else .ok (.float (.zero negative), rest.dropWhile Char.isDigit)
    else .error (.behind 1 .invalidNumber digits)

def readPower (negative : Bool) (significand : Nat) (exponent : Int) : Reader Number
  | 'e' :: rest => readExponent negative significand exponent rest
  | 'E' :: rest => readExponent negative significand exponent rest
  | cs => finish negative significand exponent cs

def readFraction (negative : Bool) (significand : Nat) (shift : Int) : Reader Number := fun cs =>
  let (longer, count, rest) := appendDigits significand 0 cs
  match rest with
  | c :: _ =>
    if c.isDigit then readPower negative longer (shift - count) (rest.dropWhile Char.isDigit)
    else if count = 0 then .error (.behind 1 .invalidNumber rest)
    else readPower negative longer (shift - count) rest
  | [] =>
    if count = 0 then .error (.before .endInValue rest)
    else finish negative longer (shift - count) rest

def whole (negative : Bool) (significand : Nat) : Number :=
  if negative then
    if significand = 0 then .float (.zero true) else .ofInt (-significand)
  else .ofInt significand

def readRest (negative : Bool) (significand : Nat) : Reader Number
  | '.' :: rest => readFraction negative significand 0 rest
  | 'e' :: rest => readExponent negative significand 0 rest
  | 'E' :: rest => readExponent negative significand 0 rest
  | cs => .ok (whole negative significand, cs)

def readLong (negative : Bool) (significand : Nat) : Reader Number := fun cs =>
  let shift : Int := (cs.takeWhile Char.isDigit).length
  match cs.dropWhile Char.isDigit with
  | '.' :: rest => readFraction negative significand shift rest
  | rest => readPower negative significand shift rest

def read (negative : Bool) : Reader Number
  | [] => .error ⟨.endInValue, 0⟩
  | '0' :: rest =>
    match rest with
    | c :: _ =>
      if c.isDigit then .error (.behind 1 .invalidNumber rest) else readRest negative 0 rest
    | [] => readRest negative 0 rest
  | c :: rest =>
    if c.isDigit then
      let (significand, _, rest) := appendDigits (digitValue c) 0 rest
      match rest with
      | d :: _ =>
        if d.isDigit then readLong negative significand rest
        else readRest negative significand rest
      | [] => readRest negative significand rest
    else .error (.behind 1 .invalidNumber (c :: rest))

end DescriptorCheck.Json.Numeral
