import Spruce.Declaration.Pattern
import Spruce.Declaration.Rename
import Spruce.Declaration.Verdict
import Spruce.Source

/-!
# Edits for one unused variable

A variable leaves a source together with the line that declares it, or as one element of a
pattern; otherwise it stays under an underscore name. Each edit touches one line.
-/

namespace Spruce

/-- The ways in which a declaration is removed. -/
inductive Removal
  | deletedLine
  | removedElement
  deriving DecidableEq, Repr

namespace Source

/-- The source without the declaration of `name` on a line, and the way it was removed. -/
def removeDeclaration? (s : Source) (n : Nat) (name : Text) : Option (Removal × Source) :=
  (s.line? n).bind fun line =>
    if Declaration.isStandalone line name then
      (s.removeLine? n).map fun (_, rest) => (.deletedLine, rest)
    else if Declaration.isDestructuring line then
      (Declaration.removeElement? line name).bind fun updated =>
        (s.replaceLine? n updated).map fun edited => (.removedElement, edited)
    else none

/-- The source with the variable `name` renamed on a line. -/
def addUnderscore? (s : Source) (n : Nat) (name : Text) : Option Source :=
  (s.line? n).bind fun line =>
    (Declaration.addUnderscore? line name).bind fun renamed => s.replaceLine? n renamed

end Source

end Spruce
