import Spruce.Text.Basic

/-!
# Physical lines

A text is the concatenation of its physical lines. Each ends in a newline, except perhaps the
last; the terminator of a line is that newline together with a carriage return before it.
-/

namespace Spruce.Text

/-- The physical lines of a text, each with its terminator. -/
def physicalLines : Text → List Text
  | [] => []
  | c :: r =>
    if c = '\n' then [c] :: physicalLines r
    else match physicalLines r with
      | [] => [[c]]
      | line :: lines => (c :: line) :: lines

/-- A physical line as its content and its terminator: a newline, a carriage return and a newline,
or nothing. -/
def splitTerminator (raw : Text) : Text × Text :=
  match raw.reverse with
  | '\n' :: '\r' :: content => (content.reverse, ['\r', '\n'])
  | '\n' :: content => (content.reverse, ['\n'])
  | _ => (raw, [])

/-- The content of a physical line. -/
def lineContent (raw : Text) : Text := (splitTerminator raw).1

/-- The terminator of a physical line. -/
def lineTerminator (raw : Text) : Text := (splitTerminator raw).2

/-- The lines of a text without their terminators. -/
def lines (t : Text) : List Text := (physicalLines t).map lineContent

/-- The lines are the text cut up, with nothing lost. -/
theorem flatten_physicalLines (t : Text) : (physicalLines t).flatten = t := by
  induction t with
  | nil => rfl
  | cons c r ih =>
    unfold physicalLines
    split
    · simp [ih]
    · cases h : physicalLines r with
      | nil => rw [h] at ih; simp only [List.flatten_nil] at ih; simp [← ih]
      | cons line lines => rw [h] at ih; simpa using ih

/-- Content and terminator make up the line. -/
theorem lineContent_append_lineTerminator (raw : Text) :
    lineContent raw ++ lineTerminator raw = raw := by
  unfold lineContent lineTerminator splitTerminator
  split
  · next content h => simpa using (congrArg List.reverse h).symm
  · next content _ h => simpa using (congrArg List.reverse h).symm
  · simp

end Spruce.Text
