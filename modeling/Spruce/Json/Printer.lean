import Spruce.Json.Basic

/-!
# Writing JSON

Strings are escaped character by character. Values are written either without any blanks, or with
each item and member on a line of its own, two spaces deeper than its brackets.
-/

namespace Spruce.Json

/-- A hexadecimal digit in lower case. -/
def hexDigit (n : Nat) : Char := Nat.digitChar n

/-- How a character is written in a string. -/
def escapeChar (c : Char) : Text :=
  if c = '"' then ['\\', '"']
  else if c = '\\' then ['\\', '\\']
  else if c = '\x08' then ['\\', 'b']
  else if c = '\x0c' then ['\\', 'f']
  else if c = '\n' then ['\\', 'n']
  else if c = '\r' then ['\\', 'r']
  else if c = '\t' then ['\\', 't']
  else if c < ' ' then ['\\', 'u', '0', '0', hexDigit (c.toNat / 16), hexDigit (c.toNat % 16)]
  else [c]

/-- A string between quotes. -/
def quote (t : Text) : Text := '"' :: t.flatMap escapeChar ++ ['"']

/-- The spelling of a truth value. -/
def boolText (b : Bool) : Text := if b then "true".toList else "false".toList

namespace Value

mutual

/-- A value without blanks. -/
def compact : Value → Text
  | .null => "null".toList
  | .bool b => boolText b
  | .number n => n.text
  | .string t => quote t
  | .array items => '[' :: compactItems items ++ [']']
  | .object members => '{' :: compactMembers members ++ ['}']

/-- The items of an array, with commas between them. -/
def compactItems : List Value → Text
  | [] => []
  | [v] => compact v
  | v :: w :: rest => compact v ++ ',' :: compactItems (w :: rest)

/-- The members of an object, with commas between them. -/
def compactMembers : List (Text × Value) → Text
  | [] => []
  | [(key, v)] => quote key ++ ':' :: compact v
  | (key, v) :: m :: rest => quote key ++ ':' :: compact v ++ ',' :: compactMembers (m :: rest)

end

/-- A new line, indented for a depth. -/
def newLine (depth : Nat) : Text := '\n' :: List.replicate (2 * depth) ' '

mutual

/-- A value on lines that are indented for a depth, except the first. -/
def prettyAt (depth : Nat) : Value → Text
  | .null => "null".toList
  | .bool b => boolText b
  | .number n => n.text
  | .string t => quote t
  | .array [] => ['[', ']']
  | .array (v :: rest) => '[' :: prettyItems (depth + 1) (v :: rest) ++ newLine depth ++ [']']
  | .object [] => ['{', '}']
  | .object (m :: rest) => '{' :: prettyMembers (depth + 1) (m :: rest) ++ newLine depth ++ ['}']

/-- The items of an array, each on a line of its own. -/
def prettyItems (depth : Nat) : List Value → Text
  | [] => []
  | [v] => newLine depth ++ prettyAt depth v
  | v :: w :: rest => newLine depth ++ prettyAt depth v ++ ',' :: prettyItems depth (w :: rest)

/-- The members of an object, each on a line of its own. -/
def prettyMembers (depth : Nat) : List (Text × Value) → Text
  | [] => []
  | [(key, v)] => newLine depth ++ quote key ++ ':' :: ' ' :: prettyAt depth v
  | (key, v) :: m :: rest =>
    newLine depth ++ quote key ++ ':' :: ' ' :: prettyAt depth v ++
      ',' :: prettyMembers depth (m :: rest)

end

/-- A value with each item and member on a line of its own. -/
def pretty (v : Value) : Text := prettyAt 0 v

end Value

end Spruce.Json
