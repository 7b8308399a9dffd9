import Spruce.Text.CharClass

/-!
# Lexemes of scripts

A script is cut into words, operators and ends of lines. A word consists of parts: text, and
parameters to be replaced by their values; what stands in quotes is never split. A script that
breaks off inside quotes, or uses what is not understood, ends in a lexeme that says so.
-/

namespace Spruce.Tool.Shell

/-- A part of a word. -/
inductive Part
  | text (t : Text)
  | parameter (name : Text) (quoted : Bool)
  deriving DecidableEq, Repr

/-- What a redirection does. -/
inductive Redirection
  | read
  | write
  | append
  | duplicate
  deriving DecidableEq, Repr

/-- A lexeme of a script. -/
inductive Lexeme
  | word (parts : List Part)
  | redirect (descriptor : Nat) (kind : Redirection)
  | pipe
  | ifOk
  | ifFailed
  | semicolon
  | newline
  | malformed (problem : Text)
  deriving DecidableEq, Repr

/-- Where the reading of a script stands. -/
inductive Quoting
  | plain
  | single
  | double
  | comment
  deriving DecidableEq, Repr

/-- What has been read of a script: the parts of the current word, if there is one, in reverse. -/
structure Draft where
  quoting : Quoting
  word : Option (List Part)
  deriving DecidableEq, Repr

namespace Draft

/-- Nothing has been read. -/
def empty : Draft := ⟨.plain, none⟩

/-- The current word with one more part. Texts next to each other are joined. -/
def push (d : Draft) (part : Part) : Draft :=
  match part, d.word.getD [] with
  | .text t, .text before :: parts => { d with word := some (.text (before ++ t) :: parts) }
  | part, parts => { d with word := some (part :: parts) }

/-- The lexeme for the current word, if there is one. -/
def finished (d : Draft) : List Lexeme :=
  match d.word with
  | some parts => [.word parts.reverse]
  | none => []

/-- The descriptor that the current word names, if it stands right before a redirection. -/
def descriptor? (d : Draft) : Option Nat :=
  match d.word with
  | some [.text [c]] => Text.digitValue? c
  | _ => none

end Draft

/-- Whether a character begins the name of a parameter. -/
def isNameStart (c : Char) : Bool := Text.isAsciiLetter c || c == '_'

/-- Whether a character continues the name of a parameter. -/
def isNamePart (c : Char) : Bool := isNameStart c || Text.isAsciiDigit c

/-- Whether a character is the whole name of a parameter. -/
def isSpecialName (c : Char) : Bool := Text.isAsciiDigit c || "?#@*$!-".toList.contains c

/-- The name of the parameter whose dollar sign has been read, and how many characters spell
it. -/
def parameterName? : Text → Option (Text × Nat)
  | '{' :: r =>
    let name := r.takeWhile (· ≠ '}')
    some (name, name.length + 2)
  | c :: r =>
    if isNameStart c then
      let name := c :: r.takeWhile isNamePart
      some (name, name.length)
    else if isSpecialName c then some ([c], 1)
    else none
  | [] => none

/-- The operator at the start of a text, and how many characters spell it. -/
def operator? (descriptor : Option Nat) : Text → Option (Lexeme × Nat)
  | '&' :: '&' :: _ => some (.ifOk, 2)
  | '&' :: _ => some (.semicolon, 1)
  | '|' :: '|' :: _ => some (.ifFailed, 2)
  | '|' :: _ => some (.pipe, 1)
  | ';' :: _ => some (.semicolon, 1)
  | '\n' :: _ => some (.newline, 1)
  | '>' :: '>' :: _ => some (.redirect (descriptor.getD 1) .append, 2)
  | '>' :: '&' :: _ => some (.redirect (descriptor.getD 1) .duplicate, 2)
  | '>' :: _ => some (.redirect (descriptor.getD 1) .write, 1)
  | '<' :: _ => some (.redirect (descriptor.getD 0) .read, 1)
  | _ => none

/-- The characters that a backslash takes the meaning from inside double quotes. -/
def isEscapable (c : Char) : Bool := c == '$' || c == '\x60' || c == '\x22' || c == '\\'

/-- One step of reading: the lexemes that are complete, the draft, and the number of further
characters that belong to the step. -/
abbrev Step := List Lexeme × Draft × Nat

/-- A step outside quotes. -/
def plainStep (d : Draft) (c : Char) (r : Text) : Step :=
  if c = ' ' ∨ c = '\t' then (d.finished, .empty, 0)
  else if c = '#' ∧ d.word = none then ([], { d with quoting := .comment }, 0)
  else if c = '\x27' then ([], { d.push (.text []) with quoting := .single }, 0)
  else if c = '\x22' then ([], { d.push (.text []) with quoting := .double }, 0)
  else if c = '\\' then
    match r with
    | [] => ([], d.push (.text ['\\']), 0)
    | '\n' :: _ => ([], d, 1)
    | e :: _ => ([], d.push (.text [e]), 1)
  else if c = '$' then
    match parameterName? r with
    | some (name, length) => ([], d.push (.parameter name false), length)
    | none => ([], d.push (.text ['$']), 0)
  else if c = '(' ∨ c = ')' ∨ c = '\x60' then
    ([.malformed ("Syntax error: \x22".toList ++ c :: "\x22 unexpected".toList)], .empty, r.length)
  else
    match operator? d.descriptor? (c :: r) with
    | some (.redirect n kind, length) =>
      (if d.descriptor?.isSome then [.redirect n kind] else d.finished ++ [.redirect n kind],
        .empty, length - 1)
    | some (operator, length) => (d.finished ++ [operator], .empty, length - 1)
    | none => ([], d.push (.text [c]), 0)

/-- A step inside double quotes. -/
def doubleStep (d : Draft) (c : Char) (r : Text) : Step :=
  if c = '\x22' then ([], { d with quoting := .plain }, 0)
  else if c = '\\' then
    match r with
    | '\n' :: _ => ([], d, 1)
    | e :: _ =>
      if isEscapable e then ([], d.push (.text [e]), 1) else ([], d.push (.text ['\\']), 0)
    | [] => ([], d, 0)
  else if c = '$' then
    match parameterName? r with
    | some (name, length) => ([], d.push (.parameter name true), length)
    | none => ([], d.push (.text ['$']), 0)
  else ([], d.push (.text [c]), 0)

/-- A step of reading. -/
def step (d : Draft) (c : Char) (r : Text) : Step :=
  match d.quoting with
  | .plain => plainStep d c r
  | .double => doubleStep d c r
  | .single =>
    if c = '\x27' then ([], { d with quoting := .plain }, 0) else ([], d.push (.text [c]), 0)
  | .comment => if c = '\n' then ([.newline], .empty, 0) else ([], d, 0)

/-- What is left at the end of a script. -/
def atEnd (d : Draft) : List Lexeme :=
  match d.quoting with
  | .plain | .comment => d.finished
  | .single | .double => [.malformed "Syntax error: Unterminated quoted string".toList]

/-- The lexemes of a script from a draft on. The counter says how many characters are still to be
passed over. -/
def lexemesFrom (d : Draft) : Nat → Text → List Lexeme
  | _, [] => atEnd d
  | passed + 1, _ :: r => lexemesFrom d passed r
  | 0, c :: r =>
    let (complete, next, passed) := step d c r
    complete ++ lexemesFrom next passed r

/-- The lexemes of a script. -/
def lexemes (script : Text) : List Lexeme := lexemesFrom .empty 0 script

end Spruce.Tool.Shell
