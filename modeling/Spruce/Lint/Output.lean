import Spruce.Lint.Finding
import Spruce.Project
import Spruce.Text.CharClass
import Spruce.Text.Colour
import Spruce.Text.Lines

/-!
# The output of a linter

A linter names a file on a line of its own and lists what it found there on indented lines below.
Each line is read by itself, as a header, a warning about an unused variable, or neither; a reader
then only has to remember the last header.
-/

namespace Spruce.Lint

open Text

/-- What a line of output says. -/
inductive Line
  /-- The findings that follow belong to the file with this path. -/
  | header (path : Text)
  /-- A variable is unused. -/
  | warning (line column : Nat) (name : Text)
  /-- Anything else. -/
  | other
  deriving DecidableEq, Repr

/-! ### Headers -/

/-- Whether a text begins with a drive letter, a colon and a slash or backslash. -/
def startsWithDrive : Text → Bool
  | letter :: ':' :: slash :: _ => isAsciiLetter letter && (slash == '/' || slash == '\\')
  | _ => false

/-- Whether a text begins as only a path does. -/
def startsAsPath (t : Text) : Bool :=
  ['/'].isPrefixOf t || ['.', '/'].isPrefixOf t || ['.', '.', '/'].isPrefixOf t ||
    startsWithDrive t

/-- Whether a text is one word that ends in the extension of a source file. -/
def isSourceName (t : Text) : Bool :=
  !t.any isBlank &&
    match splitLast '.' t with
    | some (_, extension) => Project.sourceExtensions.contains extension
    | none => false

/-- The path on a header line, which is not indented. -/
def header? (t : Text) : Option Text :=
  match t with
  | [] => none
  | c :: _ =>
    if isBlank c then none
    else
      let path := trimEnd t
      if startsAsPath path || isSourceName path then some path else none

/-! ### Warnings -/

/-- The phrases of which a warning about an unused variable holds one. -/
def unusedPhrases : List Text :=
  ["is defined but never used".toList, "is assigned a value but never used".toList,
    "no-unused-vars".toList]

/-- The word between the position and the message of a warning. -/
def warningWord : Text := "warning".toList

/-- Either mark that quotes a name. -/
def isNameQuote (c : Char) : Bool := c == '\x27' || c == '\x22'

/-- A nonempty run of decimal digits, of any script, at the start of a text, and what follows. -/
def digits? (t : Text) : Option (Text × Text) :=
  match t.takeWhile isDigit with
  | [] => none
  | run => some (run, t.dropWhile isDigit)

/-- What follows a nonempty run of blanks. -/
def skipBlanks? : Text → Option Text
  | c :: r => if isBlank c then some (r.dropWhile isBlank) else none
  | [] => none

/-- A nonempty name between quotes at the start of a text, and what follows. -/
def quotedName? : Text → Option (Text × Text)
  | c :: r =>
    if isNameQuote c then
      match r.takeWhile (!isNameQuote ·), r.dropWhile (!isNameQuote ·) with
      | d :: name, _ :: rest => some (d :: name, rest)
      | _, _ => none
    else none
  | [] => none

/-- The position and the name that begin a warning, and what follows. -/
def warningStart? (t : Text) : Option (Text × Text × Text × Text) := do
  let (line, afterLine) ← digits? (trimStart t)
  let (column, afterColumn) ← digits? (← [':'].isPrefixOf? afterLine)
  let message ← skipBlanks? (← warningWord.isPrefixOf? (← skipBlanks? afterColumn))
  let (name, rest) ← quotedName? message
  some (line, column, name, rest)

/-- A warning about an unused variable. A position that is no 64-bit number makes it none. -/
def warning? (t : Text) : Option (Nat × Nat × Text) := do
  let (line, column, name, rest) ← warningStart? t
  guard (unusedPhrases.any fun phrase => holds phrase rest)
  some (← word64? line, ← word64? column, name)

/-- What a line of output says. Colours do not count. -/
def Line.ofText (raw : Text) : Line :=
  let t := plain raw
  match header? t with
  | some path => .header path
  | none =>
    match warning? t with
    | some (line, column, name) => .warning line column name
    | none => .other

/-! ### Reading -/

/-- A reader of output: the directory that the linter ran in, and the file that the last header
named. -/
structure Reader where
  root : Path
  file : Option Path
  deriving DecidableEq, Repr

/-- The reader after a line, and the finding on that line. A warning before the first header is
none. -/
def Reader.next (r : Reader) : Line → Reader × Option Finding
  | .header path => ({ r with file := some (Path.resolve r.root path) }, none)
  | .warning line column name => (r, r.file.map fun file => ⟨file, line, column, name⟩)
  | .other => (r, none)

/-- The findings on the lines that are still to be read. -/
def Reader.findings : Reader → List Line → List Finding
  | _, [] => []
  | r, line :: rest =>
    let (r, finding) := r.next line
    finding.toList ++ r.findings rest

/-- The findings in the output of a linter that ran in `root`. -/
def findings (root : Path) (output : Text) : List Finding :=
  Reader.findings ⟨root, none⟩ ((lines output).map Line.ofText)

end Spruce.Lint
