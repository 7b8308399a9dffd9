import Spruce.Path.Basic

/-!
# The ledger of deleted lines

A linter counts lines as they were before anything was deleted. The ledger keeps, for each file,
the reported numbers of the lines deleted so far, and so tells where another line stands now. Files
are told apart by the components of their paths.
-/

namespace Spruce.Cleanup

/-- What a file is known by. -/
abbrev FileKey := List Component

/-- The reported number of each deleted line, with its file; the last deletion comes first. -/
abbrev Ledger := List (FileKey × Nat)

namespace Ledger

/-- The reported numbers of the lines deleted from a file. -/
def linesOf (ledger : Ledger) (file : FileKey) : List Nat :=
  (ledger.filter fun entry => entry.1 = file).map Prod.snd

/-- Where a line stands among the lines that are left, unless it is one of the deleted ones. -/
def shifted? (deleted : List Nat) (line : Nat) : Option Nat :=
  if line ∈ deleted then none else some (line - (deleted.filter (· < line)).length)

/-- Where the line with a reported number stands now, unless it has been deleted. -/
def currentLine? (ledger : Ledger) (file : FileKey) (line : Nat) : Option Nat :=
  shifted? (ledger.linesOf file) line

/-- The ledger after one more deletion. -/
def record (ledger : Ledger) (file : FileKey) (line : Nat) : Ledger := (file, line) :: ledger

end Ledger

end Spruce.Cleanup
