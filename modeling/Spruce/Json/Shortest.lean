import Spruce.Json.Double

/-!
# The fewest digits that read back

A decimal stands for a double when it lies closer to it than to its neighbours; the ends of that
interval count when the significand of the double is even. Grids of decimals with one, two, three
and more digits are tried in turn. On the first grid with a point in the interval, the nearest
point to the double is taken, and of two equally near ones the even one.
-/

namespace Spruce.Json

/-- A decimal number: an integer times a power of ten. -/
structure Decimal where
  digits : Nat
  exponent : Int
  deriving DecidableEq, Repr

namespace Decimal

/-- The decimal without zeros at the end of its digits, of which there are at most `bound`. -/
def trimZeros : Nat → Decimal → Decimal
  | 0, x => x
  | bound + 1, x =>
    if x.digits ≠ 0 ∧ x.digits % 10 = 0 then trimZeros bound ⟨x.digits / 10, x.exponent + 1⟩ else x

/-- A power of ten. -/
def tenTo (n : Nat) : Nat := Nat.pow 10 n

/-- The exponent of the power of ten by which all is scaled, so that every grid in use has whole
points. -/
def scale : Nat := 340

/-- Whether a number of quarter units, scaled, lies in the interval of a positive number of
units. -/
def standsFor (units point : Nat) : Bool :=
  let g := Double.grain units
  let value := 4 * units * tenTo scale
  let above := 2 * g * tenTo scale
  let below := if 1 < g ∧ units = Nat.pow 2 52 * g then g * tenTo scale else above
  if units / g % 2 = 0 then value ≤ point + below && point ≤ value + above
  else value < point + below && point < value + above

/-- The point nearest to a positive number of units on the grid of 10^(`place` - `scale`), if it
lies in the interval. -/
def onGrid? (units place : Nat) : Option Nat :=
  let step := 4 * Double.one * tenTo place
  let value := 4 * units * tenTo scale
  let low := value / step
  let gap := value % step
  match standsFor units (low * step), standsFor units ((low + 1) * step) with
  | true, true => some (if 2 * gap < step ∨ (2 * gap = step ∧ low % 2 = 0) then low else low + 1)
  | true, false => some low
  | false, true => some (low + 1)
  | false, false => none

/-- The place of the first digit of a positive number of units. -/
def firstPlace (units : Nat) : Nat :=
  (Nat.toDigits 10 (units * tenTo scale / Double.one)).length - 1

/-- The shortest decimal that stands for a number of units. -/
def shortest (units : Nat) : Decimal :=
  let first := firstPlace units
  let found := (List.range 17).findSome? fun n =>
    (onGrid? units (first - n)).map fun digits =>
      trimZeros 18 ⟨digits, Int.ofNat (first - n) - Int.ofNat scale⟩
  found.getD ⟨0, 0⟩

end Decimal

end Spruce.Json
