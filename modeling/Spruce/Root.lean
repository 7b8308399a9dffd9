import Spruce.Fault

/-!
# The root of a project

The root is a given directory, or the nearest directory upwards from the current one that holds a
repository.
-/

namespace Spruce

/-- A path and the paths above it, as far as its spelling goes; there are at most `bound`. -/
def Path.upwards : Nat → Path → List Path
  | 0, _ => []
  | bound + 1, p => p :: (p.parent?.map (upwards bound)).getD []

namespace Disk

/-- The name of what marks the root of a repository. -/
def repositoryMark : Path := .ofString ".git"

/-- The nearest path upwards from `start` that holds a repository. -/
def repositoryAbove (d : Disk) (start : Path) : Except Fault Path :=
  match (Path.upwards (start.spelling.length + 1) start).find? fun p =>
      d.has (p.join repositoryMark) with
  | some p => .ok p
  | none => .error (.of .noRepository)

/-- The root of a project: the given directory, or that of the repository around the current
one. -/
def projectRoot (d : Disk) (given : Option Path) : Except Fault Path :=
  match given with
  | none => d.repositoryAbove d.currentPath
  | some p =>
    match d.canonical p with
    | .error e => .error ⟨[.findRoot p], .io e⟩
    | .ok (root, .directory) => .ok root
    | .ok (root, .file _ _) => .error (.of (.rootIsFile root))

end Disk

end Spruce
