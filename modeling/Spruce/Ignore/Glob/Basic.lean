import Spruce.Text.Utf8

/-!
# Globs

A glob is a list of tokens that match the bytes of a relative path. What a token can match at the
start of some bytes is given by the rests that it may leave; a glob matches the bytes of which it
may leave nothing.
-/

namespace Spruce.Ignore

/-- A slash as a byte. -/
def slash : UInt8 := 0x2F

/-- A part of a glob. -/
inductive Token
  /-- The bytes of one character. -/
  | literal (bytes : List UInt8)
  /-- One byte that is not a slash. -/
  | any
  /-- Any number of bytes that are not slashes. -/
  | run
  /-- Nothing, or directories at the beginning. -/
  | leading
  /-- A slash and whatever follows it. -/
  | trailing
  /-- A slash, or directories between two slashes. -/
  | between
  /-- One byte inside, or outside, some ranges. -/
  | set (negated : Bool) (ranges : List (UInt8 × UInt8))
  /-- One of several lists of tokens; of none, nothing. -/
  | choice (alternatives : List (List Token))

/-- A pattern for relative paths. -/
abbrev Glob := List Token

namespace Token

/-- The rests after any number of bytes up to the first slash. -/
def runRests : List UInt8 → List (List UInt8)
  | [] => [[]]
  | b :: r => (b :: r) :: if b = slash then [] else runRests r

/-- The rests after any number of bytes. -/
def allRests : List UInt8 → List (List UInt8)
  | [] => [[]]
  | b :: r => (b :: r) :: allRests r

/-- The rests after each slash. -/
def restsAfterSlash : List UInt8 → List (List UInt8)
  | [] => []
  | b :: r => if b = slash then r :: restsAfterSlash r else restsAfterSlash r

/-- The rest after a slash at the start. -/
def afterSlash? : List UInt8 → Option (List UInt8)
  | b :: r => if b = slash then some r else none
  | [] => none

/-- Whether a byte lies in one of the ranges. -/
def inByteRanges (ranges : List (UInt8 × UInt8)) (b : UInt8) : Bool :=
  ranges.any fun (first, last) => first ≤ b && b ≤ last

mutual

/-- The rests that a token may leave of some bytes. -/
def rests : Token → List UInt8 → List (List UInt8)
  | .literal bytes, s => (bytes.isPrefixOf? s).toList
  | .any, b :: r => if b = slash then [] else [r]
  | .any, [] => []
  | .run, s => runRests s
  | .leading, s => s :: restsAfterSlash s
  | .trailing, s => ((afterSlash? s).map allRests).getD []
  | .between, s => ((afterSlash? s).map fun r => r :: restsAfterSlash r).getD []
  | .set negated ranges, b :: r => if inByteRanges ranges b != negated then [r] else []
  | .set _ _, [] => []
  | .choice [], s => [s]
  | .choice (first :: others), s => restsOfAny (first :: others) s

/-- The rests that tokens one after another may leave of some bytes. -/
def restsOfAll : List Token → List UInt8 → List (List UInt8)
  | [], s => [s]
  | token :: tokens, s => ((rests token s).eraseDups.flatMap (restsOfAll tokens)).eraseDups

/-- The rests that one of several lists of tokens may leave of some bytes. -/
def restsOfAny : List (List Token) → List UInt8 → List (List UInt8)
  | [], _ => []
  | tokens :: others, s => restsOfAll tokens s ++ restsOfAny others s

end

/-- Whether a token matches nothing whatever the bytes: a choice of nothing. -/
def isVacuous : Token → Bool
  | .choice [] => true
  | _ => false

/-- A choice between alternatives, without those that have no part. -/
def choiceOf (alternatives : List (List Token)) : Token :=
  .choice (alternatives.filter fun tokens => !tokens.all isVacuous)

end Token

/-- Whether a glob matches the bytes of a path. The glob `**` alone matches every path. -/
def Glob.matches (g : Glob) (path : List UInt8) : Bool :=
  match g with
  | [.leading] => true
  | _ => (Token.restsOfAll g path).contains []

end Spruce.Ignore
