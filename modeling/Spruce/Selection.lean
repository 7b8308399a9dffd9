import Spruce.Ignore.Walk
import Spruce.Project

/-!
# Collecting files

Of the files that a walk meets, those with one of some extensions are collected, unless a marker
occurs in their path relative to the root. The order is that of components, whatever the order of
the walk.
-/

namespace Spruce

/-- What is collected: files below a root, with one of some extensions, and without any of some
markers in their relative path. -/
structure Selection where
  root : Path
  extensions : List Text
  markers : List Text
  deriving DecidableEq, Repr

namespace Selection

/-- The components of a path after those of the root, where it lies below the root. -/
def componentsBelow (root p : Path) : Option (List Component) :=
  root.components.isPrefixOf? p.components

/-- The spelling of a path relative to the root, with slashes for backslashes. -/
def relativeSpelling (root p : Path) : Text :=
  let spelling := match componentsBelow root p with
    | some cs => (Path.ofComponents cs).spelling
    | none => p.spelling
  spelling.map fun c => if c = '\\' then '/' else c

/-- Whether a file belongs to a selection. -/
def selects (s : Selection) (p : Path) : Bool :=
  !(s.markers.any fun marker => Text.holds marker (relativeSpelling s.root p)) &&
    p.extension?.any s.extensions.contains

/-- The files of a walk that belong to a selection, in order. -/
def select (s : Selection) (walked : List Path) : List Path :=
  (walked.filter s.selects).mergeSort fun p q => !q.before p

/-- The files on a disk that belong to a selection, in order. -/
def collect (s : Selection) (d : Disk) : Except Ignore.WalkError (List Path) :=
  (Ignore.walk d s.root).map s.select

end Selection

end Spruce
