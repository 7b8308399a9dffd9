import Spruce.Json.Shortest
import Spruce.Text.Basic

/-!
# Numbers

A number is a whole number or a double. The two kinds are never equal. Doubles are written with
the fewest digits that read back: positionally, and always with a fraction, when the first digit
stands for 10^-5 up to 10^15, and with an exponent otherwise.
-/

namespace Spruce.Json

/-- A number. -/
inductive Number
  | whole (n : Int)
  | double (x : Double)
  deriving DecidableEq, Repr

namespace Number

/-- Whether two numbers are of one kind and equal. -/
def same : Number → Number → Bool
  | .whole a, .whole b => a = b
  | .double x, .double y => x.same y
  | _, _ => false

/-- An integer in decimal. -/
def ofInt : Int → Text
  | .ofNat n => Text.ofNat n
  | .negSucc n => '-' :: Text.ofNat (n + 1)

/-- The exponents of the first digit that are written positionally. -/
def isPositional (exponent : Int) : Bool := -5 ≤ exponent && exponent ≤ 15

/-- Digits whose first stands for 10^`exponent`, written positionally with a fraction. -/
def positional (digits : Text) : Int → Text
  | .ofNat e =>
    let whole := digits.take (e + 1)
    let fraction := digits.drop (e + 1)
    whole ++ List.replicate (e + 1 - whole.length) '0' ++
      '.' :: (if fraction.isEmpty then ['0'] else fraction)
  | .negSucc e => '0' :: '.' :: List.replicate e '0' ++ digits

/-- Digits whose first stands for 10^`exponent`, written with the exponent and its sign. -/
def scientific (digits : Text) (exponent : Int) : Text :=
  let significand := match digits with
    | first :: d :: rest => first :: '.' :: d :: rest
    | _ => digits
  let sign := if 0 ≤ exponent then '+' else '-'
  significand ++ 'e' :: sign :: Text.ofNat exponent.natAbs

/-- A number of units in decimal. -/
def ofUnits (units : Nat) : Text :=
  if units = 0 then ['0', '.', '0']
  else
    let x := Decimal.shortest units
    let digits := Text.ofNat x.digits
    let exponent := x.exponent + Int.ofNat (digits.length - 1)
    if isPositional exponent then positional digits exponent else scientific digits exponent

/-- The spelling of a number. -/
def text : Number → Text
  | .whole n => ofInt n
  | .double x => (if x.negative then ['-'] else []) ++ ofUnits x.units

end Number

end Spruce.Json
