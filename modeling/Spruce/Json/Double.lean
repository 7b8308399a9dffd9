/-!
# Doubles

The finite 64-bit floating-point numbers. Each is a sign and a natural number of units, the unit
being the least positive double, 2^-1074. Every operation is one exact quotient of naturals,
rounded once to the nearest double, a half to the even neighbour.
-/

namespace Spruce.Json

/-- A finite double. -/
structure Double where
  negative : Bool
  units : Nat
  deriving DecidableEq, Repr

namespace Double

/-- One in units. -/
def one : Nat := Nat.pow 2 1074

/-- The least number of units that no finite double has. -/
def limit : Nat := Nat.pow 2 2098

/-- The distance between the doubles around a number of units: they have 53 binary digits. -/
def grain (units : Nat) : Nat := Nat.pow 2 (units.log2 + 1 - 53)

/-- A quotient rounded to the nearest natural number, a half to the even one. -/
def roundDiv (num den : Nat) : Nat :=
  let q := num / den
  let r := num % den
  if 2 * r < den ∨ (2 * r = den ∧ q % 2 = 0) then q else q + 1

/-- The double nearest to a quotient of units; there is none when it is too large. -/
def round? (negative : Bool) (num den : Nat) : Option Double :=
  let g := grain (num / den)
  let units := roundDiv num (den * g) * g
  if units < limit then some ⟨negative, units⟩ else none

/-- The double nearest to a natural number. -/
def ofNat? (n : Nat) : Option Double := round? false (n * one) 1

/-- The product of two doubles. -/
def mul? (x y : Double) : Option Double :=
  round? (x.negative != y.negative) (x.units * y.units) one

/-- The quotient of two doubles. -/
def div? (x y : Double) : Option Double :=
  round? (x.negative != y.negative) (x.units * one) y.units

/-- Positive zero. -/
def zero : Double := ⟨false, 0⟩

/-- The double with a given sign. -/
def withSign (negative : Bool) (x : Double) : Double := { x with negative }

/-- Whether two doubles are the same number. The zeros are. -/
def same (x y : Double) : Bool := x.units = y.units && (x.negative = y.negative || x.units = 0)

end Double

end Spruce.Json
