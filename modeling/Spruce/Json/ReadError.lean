import Spruce.Text.Utf8

/-!
# Errors in JSON texts

A reader stops at a rest of the text, for a reason. The place of an error is counted in bytes, up
to that rest and perhaps some bytes of it: those that were looked at and found wrong.
-/

namespace Spruce.Json

/-- What is wrong with a JSON text. -/
inductive Reason
  | unfinishedValue
  | unfinishedArray
  | unfinishedObject
  | unfinishedString
  | expectedValue
  | expectedWord
  | expectedColon
  | expectedArrayEnd
  | expectedObjectEnd
  | trailingComma
  | trailingCharacters
  | keyNotString
  | invalidNumber
  | numberOutOfRange
  | invalidEscape
  | controlCharacter
  | unfinishedPair
  | loneSurrogate
  | tooDeep
  deriving DecidableEq, Repr

/-- The wording of a reason. -/
def Reason.text : Reason → Text
  | .unfinishedValue => "EOF while parsing a value".toList
  | .unfinishedArray => "EOF while parsing a list".toList
  | .unfinishedObject => "EOF while parsing an object".toList
  | .unfinishedString => "EOF while parsing a string".toList
  | .expectedValue => "expected value".toList
  | .expectedWord => "expected ident".toList
  | .expectedColon => "expected \x60:\x60".toList
  | .expectedArrayEnd => "expected \x60,\x60 or \x60]\x60".toList
  | .expectedObjectEnd => "expected \x60,\x60 or \x60\x7d\x60".toList
  | .trailingComma => "trailing comma".toList
  | .trailingCharacters => "trailing characters".toList
  | .keyNotString => "key must be a string".toList
  | .invalidNumber => "invalid number".toList
  | .numberOutOfRange => "number out of range".toList
  | .invalidEscape => "invalid escape".toList
  | .controlCharacter =>
    "control character (\\u0000-\\u001F) found while parsing a string".toList
  | .unfinishedPair => "unexpected end of hex escape".toList
  | .loneSurrogate => "lone leading surrogate in hex escape".toList
  | .tooDeep => "recursion limit exceeded".toList

/-- Where a reader stopped: before `rest`, of which `ahead` bytes belong to the error. -/
structure Stop where
  reason : Reason
  rest : Text
  ahead : Nat
  deriving DecidableEq, Repr

/-- What a reader of the start of a text gives: a result and the rest of the text. -/
abbrev Reading (α : Type) := Except Stop (α × Text)

/-- A stop before a rest. -/
def stopBefore {α : Type} (reason : Reason) (rest : Text) : Reading α := .error ⟨reason, rest, 0⟩

/-- A stop at the first byte of a rest. -/
def stopAt {α : Type} (reason : Reason) (rest : Text) : Reading α := .error ⟨reason, rest, 1⟩

/-- An error in a JSON text: the reason, and the place as a line and the number of bytes on it. -/
structure ReadError where
  reason : Reason
  line : Nat
  column : Nat
  deriving DecidableEq, Repr

/-- The line and column reached after a number of bytes, from a line and column on. -/
def placeFrom (line column : Nat) : Text → Nat → Nat × Nat
  | [], _ => (line, column)
  | c :: r, offset =>
    if offset = 0 then (line, column)
    else if c = '\n' then placeFrom (line + 1) 0 r (offset - 1)
    else if offset ≤ c.utf8Size then (line, column + offset)
    else placeFrom line (column + c.utf8Size) r (offset - c.utf8Size)

/-- The error of a reader that stopped in a text. -/
def Stop.error (t : Text) (s : Stop) : ReadError :=
  let passed := Text.byteCount t - Text.byteCount s.rest
  let (line, column) := placeFrom 1 0 t (passed + s.ahead)
  ⟨s.reason, line, column⟩

/-- The wording of an error. -/
def ReadError.message (e : ReadError) : Text :=
  e.reason.text ++ " at line ".toList ++ Text.ofNat e.line ++ " column ".toList ++
    Text.ofNat e.column

end Spruce.Json
