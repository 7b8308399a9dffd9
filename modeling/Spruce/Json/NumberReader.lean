import Spruce.Json.Number
import Spruce.Json.ReadError

/-!
# Reading numbers

The digits of a number make a significand as long as it fits into 64 bits; the digits beyond only
count for the exponent. A number without fraction and exponent that fits is whole. Any other is the
double nearest to the significand, multiplied or divided by the double nearest to a power of ten.
-/

namespace Spruce.Json

open Text

/-- Whether a character is a digit. -/
def isDecimalDigit (c : Char) : Bool := (digitValue? c).isSome

/-- Whether a text begins with a digit. -/
def startsWithDigit (t : Text) : Bool := t.head?.any isDecimalDigit

/-- The value of the digits at the start of a text, read onto `acc` as long as it is below
`bound`; the number of digits read, and the rest. -/
def digitsBelow (bound acc : Nat) : Text → Nat × Nat × Text
  | [] => (acc, 0, [])
  | c :: r =>
    match digitValue? c with
    | none => (acc, 0, c :: r)
    | some d =>
      if 10 * acc + d < bound then
        let (value, count, rest) := digitsBelow bound (10 * acc + d) r
        (value, count + 1, rest)
      else (acc, 0, c :: r)

/-- Significands are below this number. -/
def significandBound : Nat := wordBound

/-- Exponents are below this number as they are written. -/
def exponentBound : Nat := Nat.pow 2 31

/-- The double nearest to a power of ten up to 10^308. -/
def powerOfTen (n : Nat) : Double := (Double.ofNat? (Decimal.tenTo n)).getD .zero

/-- A double divided by a power of ten. -/
def divideByPower (x : Double) (n : Nat) : Option Double :=
  if n ≤ 308 then x.div? (powerOfTen n)
  else if x.units = 0 then some x
  else (x.div? (powerOfTen 308)).bind fun y => divideByPower y (n - 308)
termination_by n

/-- A significand times a power of ten, unless it is too large. -/
def scaled? (significand : Nat) (exponent : Int) : Option Double :=
  (Double.ofNat? significand).bind fun x =>
    match exponent with
    | .ofNat n => if n ≤ 308 then x.mul? (powerOfTen n) else if x.units = 0 then some x else none
    | .negSucc n => divideByPower x (n + 1)

/-- The double with a given sign and significand and exponent, read up to `rest`. -/
-- Irreducible, as unfolding it by accident starts the arithmetic of doubles.
@[irreducible]
def finish (negative : Bool) (significand : Nat) (exponent : Int) (rest : Text) :
    Reading Number :=
  (scaled? significand exponent).elim (stopBefore .numberOutOfRange rest) fun x =>
    .ok (.double (x.withSign negative), rest)

/-- The sign of an exponent, and the rest. -/
def exponentSign : Text → Bool × Text
  | '+' :: r => (false, r)
  | '-' :: r => (true, r)
  | r => (false, r)

/-- The number whose exponent, without the letter, starts a text. An exponent that is too large
makes the number zero or out of range. -/
def readExponent (negative : Bool) (significand : Nat) (exponent : Int) (t : Text) :
    Reading Number :=
  let (down, digits) := exponentSign t
  match digits with
  | [] => stopBefore .unfinishedValue []
  | c :: r =>
    if isDecimalDigit c then
      let (value, _, rest) := digitsBelow exponentBound 0 (c :: r)
      if startsWithDigit rest then
        if significand ≠ 0 ∧ !down then stopBefore .numberOutOfRange (rest.drop 1)
        else .ok (.double ⟨negative, 0⟩, rest.dropWhile isDecimalDigit)
      else
        finish negative significand (if down then exponent - value else exponent + value) rest
    else stopAt .invalidNumber (c :: r)

/-- The number whose exponent, if it has one, starts a text. -/
def readScale (negative : Bool) (significand : Nat) (exponent : Int) (t : Text) :
    Reading Number :=
  match t with
  | 'e' :: r | 'E' :: r => readExponent negative significand exponent r
  | _ => finish negative significand exponent t

/-- The number whose fraction, without the point, starts a text. -/
def readFraction (negative : Bool) (significand : Nat) (exponent : Int) (t : Text) :
    Reading Number :=
  let (value, count, rest) := digitsBelow significandBound significand t
  if startsWithDigit rest then
    readScale negative value (exponent - count) (rest.dropWhile isDecimalDigit)
  else if count = 0 then
    match rest with
    | [] => stopBefore .unfinishedValue []
    | _ => stopAt .invalidNumber rest
  else readScale negative value (exponent - count) rest

/-- The whole number with a given sign and magnitude; negative zero and what is below -2^63 are
doubles. -/
def wholeOrDouble (negative : Bool) (magnitude : Nat) : Number :=
  if negative then
    if magnitude = 0 ∨ Nat.pow 2 63 < magnitude then
      .double (((Double.ofNat? magnitude).getD .zero).withSign true)
    else .whole (-(magnitude : Int))
  else .whole magnitude

/-- The number with a significand so far, and what follows it. -/
def readAfterWhole (negative : Bool) (significand : Nat) (t : Text) : Reading Number :=
  match t with
  | '.' :: r => readFraction negative significand 0 r
  | 'e' :: r | 'E' :: r => readExponent negative significand 0 r
  | _ => .ok (wholeOrDouble negative significand, t)

/-- The number with a significand that takes no more digits, and the digits that follow. -/
def readAfterLong (negative : Bool) (significand : Nat) (t : Text) : Reading Number :=
  let exponent : Int := (t.takeWhile isDecimalDigit).length
  match t.dropWhile isDecimalDigit with
  | '.' :: r => readFraction negative significand exponent r
  | rest => readScale negative significand exponent rest

/-- The number at the start of a text that has no sign. -/
def readMagnitude (negative : Bool) (t : Text) : Reading Number :=
  match t with
  | [] => stopBefore .unfinishedValue []
  | '0' :: r => if startsWithDigit r then stopAt .invalidNumber r else readAfterWhole negative 0 r
  | c :: r =>
    if isDecimalDigit c then
      let (value, _, rest) := digitsBelow significandBound 0 (c :: r)
      if startsWithDigit rest then readAfterLong negative value rest
      else readAfterWhole negative value rest
    else stopAt .invalidNumber (c :: r)

/-- The number at the start of a text. -/
def readNumber : Text → Reading Number
  | '-' :: r => readMagnitude true r
  | t => readMagnitude false t

end Spruce.Json
