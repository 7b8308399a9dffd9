import Spruce.Text.Basic
import Spruce.Text.Alphabetic
import Spruce.Text.Mark
import Spruce.Text.Numeric

/-!
# Classes of characters

The classes that recognise identifiers, words and numbers. Each answers for ASCII by comparison
and for the rest by the range tables; `alphanumeric` is contained in `isWord` up to the numbers
that are neither digits nor letters.
-/

namespace Spruce.Text

/-- Whether a code point lies in one of the ranges. -/
def inRanges (ranges : List (Nat × Nat)) (n : Nat) : Bool :=
  ranges.any fun (first, last) => first ≤ n && n ≤ last

/-- The ASCII letters. -/
def isAsciiLetter (c : Char) : Bool := ('a' ≤ c && c ≤ 'z') || ('A' ≤ c && c ≤ 'Z')

/-- The ASCII digits. -/
def isAsciiDigit (c : Char) : Bool := '0' ≤ c && c ≤ '9'

/-- The Unicode decimal digits. -/
def isDigit (c : Char) : Bool :=
  if c.toNat < 0x80 then isAsciiDigit c else inRanges digitRanges c.toNat

/-- The alphabetic characters and the numbers of every kind. -/
def isAlphanumeric (c : Char) : Bool :=
  if c.toNat < 0x80 then isAsciiLetter c || isAsciiDigit c
  else inRanges alphabeticRanges c.toNat || inRanges digitRanges c.toNat ||
    inRanges otherNumberRanges c.toNat

/-- The connector punctuation beyond ASCII, and the two joiners. -/
def isConnector (n : Nat) : Bool :=
  n == 0x200C || n == 0x200D || n == 0x203F || n == 0x2040 || n == 0x2054 || n == 0xFE33 ||
    n == 0xFE34 || (0xFE4D ≤ n && n ≤ 0xFE4F) || n == 0xFF3F

/-- The word characters: alphabetic characters, marks, decimal digits, connectors and joiners. -/
def isWord (c : Char) : Bool :=
  if c.toNat < 0x80 then isAsciiLetter c || isAsciiDigit c || c == '_'
  else inRanges alphabeticRanges c.toNat || inRanges markRanges c.toNat ||
    inRanges digitRanges c.toNat || isConnector c.toNat

/-- The characters an identifier consists of. -/
def isIdentifier (c : Char) : Bool := isAlphanumeric c || c == '_' || c == '$'

end Spruce.Text
