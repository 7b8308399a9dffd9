import Spruce.Text.Basic

/-!
# Command lines

A command line is cut at blanks into a program and its arguments; there is no quoting.
-/

namespace Spruce.Tool

/-- A program and its arguments. -/
structure Command where
  program : Text
  arguments : List Text
  deriving DecidableEq, Repr

namespace Command

/-- The command on a line; a line without words is none. -/
def ofLine? (line : Text) : Option Command :=
  match Text.words line with
  | [] => none
  | program :: arguments => some ⟨program, arguments⟩

/-- The command on one line, as messages show it. -/
def text (c : Command) : Text := Text.joinWith [' '] (c.program :: c.arguments)

end Command

end Spruce.Tool
