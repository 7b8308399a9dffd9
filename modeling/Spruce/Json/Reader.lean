import Spruce.Json.Basic
import Spruce.Json.NumberReader

/-!
# Reading JSON

Each reader takes the start of a text and gives the rest. Arrays and objects may be nested up to a
depth, on which the reader of values recurs; the items between two brackets are read by one loop
for arrays and objects alike. Of a key that an object has twice, the first place and the last value
count.
-/

namespace Spruce.Json

/-- The blanks between the parts of a JSON text. -/
def isJsonBlank (c : Char) : Bool := c == ' ' || c == '\n' || c == '\t' || c == '\r'

/-- A text without the blanks at its start. -/
def skipJsonBlanks (t : Text) : Text := t.dropWhile isJsonBlank

/-! ### Strings -/

/-- The value of a hexadecimal digit. -/
def hexValue? (c : Char) : Option Nat :=
  if '0' ≤ c ∧ c ≤ '9' then some (c.toNat - '0'.toNat)
  else if 'a' ≤ c ∧ c ≤ 'f' then some (c.toNat - 'a'.toNat + 10)
  else if 'A' ≤ c ∧ c ≤ 'F' then some (c.toNat - 'A'.toNat + 10)
  else none

/-- The value of four hexadecimal digits. -/
def hexFour? : Text → Option Nat
  | a :: b :: c :: d :: _ => do
    some (4096 * (← hexValue? a) + 256 * (← hexValue? b) + 16 * (← hexValue? c) + (← hexValue? d))
  | _ => none

/-- The value of the four hexadecimal digits at the start of a text. -/
def readHexFour (t : Text) : Reading Nat :=
  if Text.byteCount t < 4 then stopBefore .unfinishedString []
  else
    match hexFour? t with
    | some n => .ok (n, t.drop 4)
    | none => .error ⟨.invalidEscape, t, 4⟩

/-- Whether a number is the first half of a surrogate pair. -/
def isLeading (n : Nat) : Bool := 0xD800 ≤ n && n ≤ 0xDBFF

/-- Whether a number is the second half of a surrogate pair. -/
def isTrailing (n : Nat) : Bool := 0xDC00 ≤ n && n ≤ 0xDFFF

/-- The character that a surrogate pair stands for. -/
def pairChar (leading trailing : Nat) : Char :=
  Char.ofNat (0x10000 + 0x400 * (leading - 0xD800) + (trailing - 0xDC00))

/-- The character of a pair whose first half has been read. -/
def readSecondHalf (leading : Nat) (t : Text) : Reading Char :=
  match t with
  | [] => stopBefore .unfinishedString []
  | ['\\'] => stopBefore .unfinishedString []
  | '\\' :: 'u' :: r =>
    match readHexFour r with
    | .error s => .error s
    | .ok (trailing, rest) =>
      if isTrailing trailing then .ok (pairChar leading trailing, rest)
      else stopBefore .loneSurrogate rest
  | '\\' :: r => stopAt .unfinishedPair r
  | _ => stopAt .unfinishedPair t

/-- The character of an escape in hexadecimal. -/
def readUnicode (t : Text) : Reading Char :=
  match readHexFour t with
  | .error s => .error s
  | .ok (n, rest) =>
    if isTrailing n then stopBefore .loneSurrogate rest
    else if isLeading n then readSecondHalf n rest
    else .ok (Char.ofNat n, rest)

/-- The characters that a letter after a backslash stands for. -/
def escapes : List (Char × Char) :=
  [('"', '"'), ('\\', '\\'), ('/', '/'), ('b', '\x08'), ('f', '\x0c'), ('n', '\n'), ('r', '\r'),
    ('t', '\t')]

/-- The character of the escape whose backslash has been read. -/
def readEscape (t : Text) : Reading Char :=
  match t with
  | [] => stopBefore .unfinishedString []
  | c :: r =>
    if c = 'u' then readUnicode r
    else
      match escapes.lookup c with
      | some d => .ok (d, r)
      | none => stopAt .invalidEscape (c :: r)

/-- The string whose opening quote has been read. The counter says how many characters of the last
escape are still to be passed over. -/
def readStringFrom : Nat → Text → Reading Text
  | _, [] => stopBefore .unfinishedString []
  | passed + 1, _ :: r => readStringFrom passed r
  | 0, c :: r =>
    if c = '"' then .ok ([], r)
    else if c = '\\' then
      match readEscape r with
      | .error s => .error s
      | .ok (d, after) =>
        (readStringFrom (r.length - after.length) r).map fun (t, rest) => (d :: t, rest)
    else if c < ' ' then stopBefore .controlCharacter r
    else (readStringFrom 0 r).map fun (t, rest) => (c :: t, rest)

/-- The string whose opening quote has been read. -/
def readString (t : Text) : Reading Text := readStringFrom 0 t

/-! ### Items between brackets -/

/-- A kind of brackets: the closing one, and what is wrong where it, or a comma, is missing. -/
structure Bracket where
  close : Char
  unfinished : Reason
  expected : Reason
  deriving DecidableEq, Repr

/-- The brackets of arrays. -/
def arrayBracket : Bracket := ⟨']', .unfinishedArray, .expectedArrayEnd⟩

/-- The brackets of objects. -/
def objectBracket : Bracket := ⟨'}', .unfinishedObject, .expectedObjectEnd⟩

/-- The items after the first one, at most `bound`, up to the closing bracket. -/
def readMore {α : Type} (b : Bracket) (item : Text → Reading α) : Nat → Text → Reading (List α)
  | 0, t => stopBefore b.unfinished t
  | bound + 1, t =>
    match skipJsonBlanks t with
    | [] => stopBefore b.unfinished []
    | c :: r =>
      if c = b.close then .ok ([], r)
      else if c = ',' then
        match skipJsonBlanks r with
        | [] => stopBefore .unfinishedValue []
        | d :: s =>
          if d = b.close then stopAt .trailingComma (d :: s)
          else
            match item (d :: s) with
            | .error e => .error e
            | .ok (x, rest) => (readMore b item bound rest).map fun (xs, after) => (x :: xs, after)
      else stopAt b.expected (c :: r)

/-- The items up to the closing bracket, separated by commas. -/
def readItems {α : Type} (b : Bracket) (item : Text → Reading α) (t : Text) : Reading (List α) :=
  match skipJsonBlanks t with
  | [] => stopBefore b.unfinished []
  | c :: r =>
    if c = b.close then .ok ([], r)
    else
      match item (c :: r) with
      | .error e => .error e
      | .ok (x, rest) =>
        (readMore b item (rest.length + 1) rest).map fun (xs, after) => (x :: xs, after)

/-! ### Values -/

/-- The rest of a word, of which the first letter has been read, and its value. -/
def readWord (v : Value) : Text → Text → Reading Value
  | [], t => .ok (v, t)
  | _ :: _, [] => stopBefore .unfinishedValue []
  | expected :: word, c :: r =>
    if c = expected then readWord v word r else stopAt .expectedWord (c :: r)

/-- The value, not an array or object, that starts with a character. -/
def readScalar (c : Char) (r : Text) : Reading Value :=
  if c = 'n' then readWord .null "ull".toList r
  else if c = 't' then readWord (.bool true) "rue".toList r
  else if c = 'f' then readWord (.bool false) "alse".toList r
  else if c = '"' then (readString r).map fun (t, rest) => (.string t, rest)
  else if c = '-' ∨ isDecimalDigit c then
    (readNumber (c :: r)).map fun (n, rest) => (.number n, rest)
  else stopAt .expectedValue (c :: r)

/-- The value of a member, after its key. -/
def readMemberValue (value : Text → Reading Value) (t : Text) : Reading Value :=
  match skipJsonBlanks t with
  | [] => stopBefore .unfinishedObject []
  | ':' :: r => value r
  | rest => stopAt .expectedColon rest

/-- A member of an object. -/
def readMember (value : Text → Reading Value) : Text → Reading (Text × Value)
  | '"' :: r =>
    match readString r with
    | .error e => .error e
    | .ok (key, rest) => (readMemberValue value rest).map fun (v, after) => ((key, v), after)
  | t => stopAt .keyNotString t

/-- The members of an object that are written one after another. -/
def collectMembers (written : List (Text × Value)) : Members :=
  written.foldl (fun members (key, v) => members.put key v) []

/-- The value at the start of a text, with arrays and objects nested up to `depth`. -/
def readValue (depth : Nat) (t : Text) : Reading Value :=
  match skipJsonBlanks t with
  | [] => stopBefore .unfinishedValue []
  | '[' :: r =>
    match depth with
    | 0 => stopAt .tooDeep ('[' :: r)
    | depth + 1 =>
      (readItems arrayBracket (readValue depth) r).map fun (items, rest) => (.array items, rest)
  | '{' :: r =>
    match depth with
    | 0 => stopAt .tooDeep ('{' :: r)
    | depth + 1 =>
      (readItems objectBracket (readMember (readValue depth)) r).map fun (written, rest) =>
        (.object (collectMembers written), rest)
  | c :: r => readScalar c r

/-- How deep arrays and objects may be nested. -/
def depthLimit : Nat := 127

/-- The value that a whole text is, up to the stop of the reader. -/
def readDocument (t : Text) : Except Stop Value :=
  match readValue depthLimit t with
  | .error s => .error s
  | .ok (v, rest) =>
    match skipJsonBlanks rest with
    | [] => .ok v
    | c :: r => .error ⟨.trailingCharacters, c :: r, 1⟩

/-- The value that a text is. -/
def read (t : Text) : Except ReadError Value := (readDocument t).mapError (·.error t)

end Spruce.Json
