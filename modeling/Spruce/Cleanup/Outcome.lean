import Spruce.Path.Basic

/-!
# Outcomes of a cleanup

What was done about each finding, and the count of each kind of action.
-/

namespace Spruce.Cleanup

/-- What was done about a finding. -/
inductive Action
  | removed
  | prefixed
  | skipped
  deriving DecidableEq, Repr

/-- A remark on an outcome. -/
inductive Remark
  | fileNotFound
  | lineRemoved
  | pastEnd (line : Nat)
  | nameNotFound
  | deletedDeclaration
  | removedElement
  /-- The wording of what went wrong. -/
  | failure (wording : Text)
  deriving DecidableEq, Repr

/-- The wording of a remark. -/
def Remark.text : Remark → Text
  | .fileNotFound => "file not found".toList
  | .lineRemoved => "line was already removed".toList
  | .pastEnd line => "line ".toList ++ Text.ofNat line ++ " is past the end of the file".toList
  | .nameNotFound => "identifier not found on line".toList
  | .deletedDeclaration => "deleted declaration".toList
  | .removedElement => "removed from destructuring".toList
  | .failure wording => wording

/-- What was done about the finding of `name` on a line of a file, counted as the linter did. -/
structure Outcome where
  file : Path
  line : Nat
  name : Text
  action : Action
  remark : Option Remark
  deriving DecidableEq, Repr

/-- The outcomes of a cleanup in order, and how many there are of each action. -/
structure Summary where
  removed : Nat
  prefixed : Nat
  skipped : Nat
  dryRun : Bool
  outcomes : List Outcome
  deriving DecidableEq, Repr

namespace Summary

/-- No outcome yet. -/
def empty (dryRun : Bool) : Summary := ⟨0, 0, 0, dryRun, []⟩

/-- The number of findings that were handled. -/
def total (s : Summary) : Nat := s.removed + s.prefixed + s.skipped

/-- One more of an action. -/
def count (s : Summary) : Action → Summary
  | .removed => { s with removed := s.removed + 1 }
  | .prefixed => { s with prefixed := s.prefixed + 1 }
  | .skipped => { s with skipped := s.skipped + 1 }

/-- The summary with one more outcome. -/
def record (s : Summary) (o : Outcome) : Summary :=
  { s.count o.action with outcomes := s.outcomes ++ [o] }

end Summary

end Spruce.Cleanup
