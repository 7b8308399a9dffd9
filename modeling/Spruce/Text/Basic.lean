/-!
# Text

Text is a list of characters, so that every function on it is a recursion and every law about it
an induction. Blanks are the characters with the Unicode property `White_Space`; trimming and
splitting into words use no other notion of space.
-/

namespace Spruce

/-- Text as the list of its characters. -/
abbrev Text := List Char

namespace Text

/-- The property `White_Space`. -/
def isBlank (c : Char) : Bool :=
  (9 ≤ c.toNat && c.toNat ≤ 13) || c.toNat == 0x20 || c.toNat == 0x85 || c.toNat == 0xA0 ||
    c.toNat == 0x1680 || (0x2000 ≤ c.toNat && c.toNat ≤ 0x200A) || c.toNat == 0x2028 ||
    c.toNat == 0x2029 || c.toNat == 0x202F || c.toNat == 0x205F || c.toNat == 0x3000

/-- The text without its leading blanks. -/
def trimStart (t : Text) : Text := t.dropWhile isBlank

/-- The text without its trailing blanks. -/
def trimEnd (t : Text) : Text := (t.reverse.dropWhile isBlank).reverse

/-- The text without blanks at either end. -/
def trim (t : Text) : Text := trimEnd (trimStart t)

/-- Whether `part` occurs somewhere in the text. The empty text occurs in every text. -/
def holds (part : Text) : Text → Bool
  | [] => part.isEmpty
  | c :: r => part.isPrefixOf (c :: r) || holds part r

/-- What stands before and after the first `sep`, if there is one. -/
def splitFirst (sep : Char) : Text → Option (Text × Text)
  | [] => none
  | c :: r =>
    if c = sep then some ([], r)
    else (splitFirst sep r).map fun (before, after) => (c :: before, after)

/-- What stands before and after the last `sep`, if there is one. -/
def splitLast (sep : Char) (t : Text) : Option (Text × Text) :=
  (splitFirst sep t.reverse).map fun (after, before) => (before.reverse, after.reverse)

/-- The pieces between the occurrences of `sep`; never an empty list. -/
def split (sep : Char) : Text → List Text
  | [] => [[]]
  | c :: r =>
    if c = sep then [] :: split sep r
    else match split sep r with
      | [] => [[c]]
      | piece :: pieces => (c :: piece) :: pieces

/-- The maximal runs of characters that are not blank. -/
def words : Text → List Text
  | [] => []
  | c :: r =>
    if isBlank c then words r
    else match r with
      | [] => [[c]]
      | d :: _ =>
        if isBlank d then [c] :: words r
        else match words r with
          | [] => [[c]]
          | word :: others => (c :: word) :: others

/-- The texts one after another, with `sep` between neighbours. -/
def joinWith (sep : Text) (parts : List Text) : Text := sep.intercalate parts

/-- Every occurrence of `part` replaced by `new`, from left to right and without overlap. The
counter says how many characters of the last occurrence are still to be passed over. -/
def replaceFrom (part new : Text) : Nat → Text → Text
  | _, [] => []
  | skipped + 1, _ :: r => replaceFrom part new skipped r
  | 0, c :: r =>
    if part.isPrefixOf (c :: r) then new ++ replaceFrom part new (part.length - 1) r
    else c :: replaceFrom part new 0 r

/-- Every occurrence of the nonempty `part` replaced by `new`. -/
def replace (part new t : Text) : Text := replaceFrom part new 0 t

/-- A number in decimal digits. -/
def ofNat (n : Nat) : Text := Nat.toDigits 10 n

/-- The value of an ASCII decimal digit. -/
def digitValue? (c : Char) : Option Nat :=
  if '0' ≤ c ∧ c ≤ '9' then some (c.toNat - '0'.toNat) else none

/-- The value of a nonempty run of ASCII digits, read from the left onto `acc`. -/
def decimalFrom? (acc : Nat) : Text → Option Nat
  | [] => some acc
  | c :: r => (digitValue? c).bind fun d => decimalFrom? (10 * acc + d) r

/-- The least number that does not fit into 64 bits. -/
def wordBound : Nat := Nat.pow 2 64

/-- The value of a text that consists of ASCII digits, if it fits into 64 bits. -/
def word64? (t : Text) : Option Nat :=
  if t.isEmpty then none else (decimalFrom? 0 t).filter (· < wordBound)

end Text

end Spruce
