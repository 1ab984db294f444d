import DescriptorCheck.Number.Binary64

set_option autoImplicit false

/-! A decimal reads back as a magnitude if it lies between the midpoints to the neighbouring
magnitudes, the midpoints included exactly when the significand is even. The coarsest grid of
powers of ten with a point in that interval gives the fewest digits. -/
namespace DescriptorCheck.Number

structure Decimal where
  digits : Nat
  exponent : Int
deriving DecidableEq

/-- Which of two equally near decimals is written. -/
inductive Tie where
  | up
  | even

namespace Magnitude

/-- The quarter units from `x` down to the midpoint below it. Below a power of
two the neighbour is half as far away as above it. -/
def gapBelow (x : Magnitude) : Nat :=
  if x.significand = leastFull ∧ x.scale ≠ 0 then 1 <<< x.scale else 2 <<< x.scale

def lowest (x : Magnitude) : Nat := 4 * x.scaled - x.gapBelow

def highest (x : Magnitude) : Nat := 4 * x.scaled + 2 <<< x.scale

/-- True if `digits * 10 ^ exponent` is rounded to `x`. -/
def isReadFrom (x : Magnitude) (d : Decimal) : Bool :=
  let point := 4 * unit * d.digits * Nat.pow 10 d.exponent.toNat
  let step := Nat.pow 10 (-d.exponent).toNat
  if x.significand % 2 = 0 then x.lowest * step ≤ point && point ≤ x.highest * step
  else x.lowest * step < point && point < x.highest * step

/-- The point of the grid `10 ^ exponent` that is written for `x`, if one of the
two points next to `x` reads back as `x`. -/
def onGrid? (tie : Tie) (x : Magnitude) (exponent : Int) : Option Decimal :=
  let value := x.scaled * Nat.pow 10 (-exponent).toNat
  let step := unit * Nat.pow 10 exponent.toNat
  let below := value / step
  let above := below + 1
  let belowReads := below != 0 && x.isReadFrom ⟨below, exponent⟩
  let aboveReads := x.isReadFrom ⟨above, exponent⟩
  if belowReads && aboveReads then
    let twice := 2 * (value % step)
    let takesBelow := twice < step || (twice == step && match tie with
      | .up => false
      | .even => below % 2 == 0)
    some ⟨if takesBelow then below else above, exponent⟩
  else if belowReads then some ⟨below, exponent⟩
  else if aboveReads then some ⟨above, exponent⟩
  else none

/-- The first of `count` grids, from `10 ^ exponent` on to finer ones, with a
point for `x`. -/
def onGrids? (tie : Tie) (x : Magnitude) : Nat → Int → Option Decimal
  | 0, _ => none
  | count + 1, exponent =>
    match onGrid? tie x exponent with
    | some d => some d
    | none => onGrids? tie x count (exponent - 1)

def exactDecimal (x : Magnitude) : Decimal := ⟨x.scaled * Nat.pow 5 1074, -1074⟩

/-- The decimal with the fewest digits that reads back as `x`. The first grid
is coarser than `x`; seventeen digits always read back. -/
def shortest (tie : Tie) (x : Magnitude) : Decimal :=
  let start := (Nat.toDigits 10 x.floor).length
  (onGrids? tie x (start + 400) start).getD x.exactDecimal

end Magnitude

end DescriptorCheck.Number
