import Spruce.Text.Lines
import Spruce.Path.Basic

/-!
# Sources

A source is a text file in memory, as the list of its physical lines. Edits replace the content of
one line or take one line out; every other line keeps all its characters, its terminator among
them. Lines are numbered from 1.
-/

namespace Spruce

/-- A text file as its physical lines, and the path it belongs to. -/
structure Source where
  path : Path
  rows : List Text
  deriving DecidableEq, Repr

namespace Source

/-- The source that a text is. -/
def ofText (path : Path) (t : Text) : Source := ⟨path, Text.physicalLines t⟩

/-- The text of a source. -/
def contents (s : Source) : Text := s.rows.flatten

/-- The number of lines. -/
def size (s : Source) : Nat := s.rows.length

/-- Whether there are no lines. -/
def isEmpty (s : Source) : Bool := s.rows.isEmpty

/-- A line with its terminator. -/
def row? (s : Source) : Nat → Option Text
  | 0 => none
  | n + 1 => s.rows[n]?

/-- The content of a line. -/
def line? (s : Source) (n : Nat) : Option Text := (s.row? n).map Text.lineContent

/-- The source with new content on a line that it has; the terminator stays. -/
def replaceLine? (s : Source) (n : Nat) (content : Text) : Option Source :=
  (s.row? n).map fun row =>
    { s with rows := s.rows.set (n - 1) (content ++ Text.lineTerminator row) }

/-- The content of a line that the source has, and the source without that line. -/
def removeLine? (s : Source) (n : Nat) : Option (Text × Source) :=
  (s.row? n).map fun row => (Text.lineContent row, { s with rows := s.rows.eraseIdx (n - 1) })

/-- A text is the contents of its source. -/
theorem contents_ofText (path : Path) (t : Text) : (ofText path t).contents = t :=
  Text.flatten_physicalLines t

/-- A source has the lines numbered from 1 to its size, and no others. -/
theorem row?_isSome (s : Source) (n : Nat) : (s.row? n).isSome ↔ 1 ≤ n ∧ n ≤ s.size := by
  cases n with
  | zero => simp [row?]
  | succ n =>
    have h : (s.rows[n]?).isSome ↔ n < s.rows.length := by simp
    exact h.trans ⟨fun below => ⟨Nat.le_add_left 1 n, below⟩, fun bounds => bounds.2⟩

end Source

end Spruce
