import Spruce.Tool.Effect

/-!
# Backslash escapes

The escapes that programs which write their arguments understand: a letter for a control character,
a number for a byte, and `\c` for the end of all output.
-/

namespace Spruce.Tool.Escape

/-- How the number of a byte is written after the backslash. -/
inductive Numbers
  /-- A zero and up to three octal digits. -/
  | afterZero
  /-- Up to three octal digits. -/
  | plain
  deriving DecidableEq, Repr

/-- The bytes that a letter after a backslash stands for. -/
def letters : List (Char × UInt8) :=
  [('a', 7), ('b', 8), ('f', 12), ('n', 10), ('r', 13), ('t', 9), ('v', 11), ('\\', 92)]

/-- The value of an octal digit. -/
def octalValue? (c : Char) : Option Nat :=
  if '0' ≤ c ∧ c ≤ '7' then some (c.toNat - '0'.toNat) else none

/-- The octal digits at the start of a text, at most `bound`. -/
def octalRun (bound : Nat) (t : Text) : List Nat :=
  ((t.take bound).takeWhile fun c => (octalValue? c).isSome).filterMap octalValue?

/-- The byte with some octal digits. -/
def octalByte (digits : List Nat) : UInt8 := UInt8.ofNat (digits.foldl (fun n d => 8 * n + d) 0)

/-- The byte of a number after a backslash, and how many characters spell it. -/
def numbered? (numbers : Numbers) (t : Text) : Option (UInt8 × Nat) :=
  match numbers, t with
  | .afterZero, '0' :: r => some (octalByte (octalRun 3 r), (octalRun 3 r).length + 1)
  | .plain, c :: r =>
    if (octalValue? c).isSome then
      some (octalByte (octalRun 3 (c :: r)), (octalRun 3 (c :: r)).length)
    else none
  | _, _ => none

/-- The bytes of a text with its escapes resolved, and whether they end all output. The counter
says how many characters of the last escape are still to be passed over. -/
def resolveFrom (numbers : Numbers) : Nat → Text → List UInt8 × Bool
  | _, [] => ([], false)
  | passed + 1, _ :: r => resolveFrom numbers passed r
  | 0, c :: r =>
    if c = '\\' then
      if r.head? = some 'c' then ([], true)
      else
        match numbered? numbers r, r.head?.bind fun c => letters.lookup c with
        | some (b, length), _ =>
          let (rest, ends) := resolveFrom numbers length r
          (b :: rest, ends)
        | none, some b =>
          let (rest, ends) := resolveFrom numbers 1 r
          (b :: rest, ends)
        | none, none =>
          let (rest, ends) := resolveFrom numbers 0 r
          (92 :: rest, ends)
    else
      let (rest, ends) := resolveFrom numbers 0 r
      (bytes [c] ++ rest, ends)

/-- The bytes of a text with its escapes resolved, and whether they end all output. -/
def resolve (numbers : Numbers) (t : Text) : List UInt8 × Bool := resolveFrom numbers 0 t

end Spruce.Tool.Escape
