import Spruce.Path.Relative

/-!
# Findings

A finding is one report of an unused variable: the file, the position as the linter counts it, and
the name of the variable.
-/

namespace Spruce.Lint

/-- A report of an unused variable. -/
structure Finding where
  file : Path
  line : Nat
  column : Nat
  name : Text
  deriving DecidableEq, Repr

end Spruce.Lint
