import Spruce.Source

/-!
# Changing one row of a source

A line that a source has is one row between those above and those below it. Replacing the content of
the line and removing it both put other rows in the place of that row (`Source.replaceLine?_eq`,
`Source.removeLine?_eq`).
-/

namespace Spruce.Source

open Text

/-- The source with other rows in place of the row of a line. -/
def splice (s : Source) (n : Nat) (rows : List Text) : Source :=
  { s with rows := s.rows.take (n - 1) ++ rows ++ s.rows.drop n }

variable {s : Source} {n : Nat} {row : Text}

/-- A source that has a line is what stands above it, its row, and what stands below. -/
theorem rows_eq_of_row? (h : s.row? n = some row) :
    s.rows = s.rows.take (n - 1) ++ row :: s.rows.drop n := by
  cases n with
  | zero => cases h
  | succ i =>
    obtain ⟨hi, hr⟩ := List.getElem?_eq_some_iff.mp h
    rw [Nat.add_sub_cancel, ← hr, List.getElem_cons_drop, List.take_append_drop]

/-- Other rows in place of a row stand between those above and those below it. -/
theorem rows_splice {above below : List Text} (h : s.rows = above ++ row :: below)
    (hn : above.length + 1 = n) (rows : List Text) :
    (s.splice n rows).rows = above ++ rows ++ below := by
  have hdrop : (above ++ row :: below).drop n = below := by
    rw [List.append_cons, List.drop_left' (by simpa using hn)]
  dsimp only [splice]
  rw [h, hdrop, ← hn, Nat.add_sub_cancel, List.take_left]

/-- A line is the content of its row. -/
theorem line?_eq (h : s.row? n = some row) : s.line? n = some (lineContent row) := by
  rw [line?, h]
  rfl

/-- Replacing the content of a line replaces its row. -/
theorem replaceLine?_eq (h : s.row? n = some row) (content : Text) :
    s.replaceLine? n content = some (s.splice n [content ++ lineTerminator row]) := by
  rw [replaceLine?, h, Option.map_some, splice]
  cases n with
  | zero => cases h
  | succ i =>
    obtain ⟨hi, hr⟩ := List.getElem?_eq_some_iff.mp h
    rw [Nat.add_sub_cancel, List.set_eq_take_append_cons_drop, if_pos hi]
    simp

/-- Removing a line takes its row out. -/
theorem removeLine?_eq (h : s.row? n = some row) :
    s.removeLine? n = some (lineContent row, s.splice n []) := by
  rw [removeLine?, h, Option.map_some, splice]
  cases n with
  | zero => cases h
  | succ i => rw [Nat.add_sub_cancel, List.eraseIdx_eq_take_drop_succ, List.append_nil]

end Spruce.Source
