import Spruce.Text.Colour

/-!
# Reports

The marks and lines that the reports of all tools have in common.
-/

namespace Spruce.Text.Report

/-- A line of a report. -/
def row (t : Text) : Text := t ++ ['\n']

/-- A number, painted. -/
def number (colour : Bool) (paints : List Paint) (n : Nat) : Text := paint colour paints (ofNat n)

/-- The mark of success. -/
def check : Text := ['✓']

/-- The mark of failure. -/
def cross : Text := ['✗']

/-- The mark of a change that keeps something. -/
def arrow : Text := ['→']

/-- The mark of what was left alone. -/
def dot : Text := ['·']

/-- The mark of a warning. -/
def warningSign : Text := ['⚠']

/-- The rule above a summary. -/
def ruler : Text := List.replicate 60 '─'

/-- The beginning of a summary: an empty line, the ruler and the title. -/
def title (colour dryRun : Bool) : Text :=
  let note := if dryRun then " (dry run, no files written)".toList else []
  row [] ++ row (paint colour [.dimmed] ruler) ++
    row (paint colour [.bold] "Results".toList ++ note)

end Spruce.Text.Report
