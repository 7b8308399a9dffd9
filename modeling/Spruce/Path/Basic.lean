import Spruce.Text.Basic

/-!
# Paths

A path is kept as it is spelled, because messages and reports show that spelling. What it means is
its list of components: repeated and trailing slashes and inner `.` have no part in it. Two
spellings of one list of components are the same path to everything that compares paths.
-/

namespace Spruce

/-- One step of a path. -/
inductive Component
  /-- The leading slash of an absolute path. -/
  | root
  /-- A leading `.` of a relative path. -/
  | here
  /-- `..` -/
  | up
  /-- Any other name. -/
  | name (text : Text)
  deriving DecidableEq, Repr

/-- A path as it is spelled. -/
structure Path where
  spelling : Text
  deriving DecidableEq, Repr

namespace Component

/-- The spelling of a component. -/
def text : Component → Text
  | .root => ['/']
  | .here => ['.']
  | .up => ['.', '.']
  | .name t => t

/-- The component that a nonempty piece between slashes stands for; `.` stands for none. -/
def ofPiece? (piece : Text) : Option Component :=
  if piece = ['.'] then none
  else if piece = ['.', '.'] then some .up
  else some (.name piece)

/-- The place of a kind of component in the order of components. -/
def rank : Component → Nat
  | .root => 0
  | .here => 1
  | .up => 2
  | .name _ => 3

/-- The order of components: the root first, then `.`, `..` and the names in text order. -/
def before : Component → Component → Bool
  | .name a, .name b => a < b
  | a, b => a.rank < b.rank

end Component

namespace Path

/-- The path with the given spelling. -/
def ofString (s : String) : Path := ⟨s.toList⟩

/-- Whether the path begins at the root. -/
def isAbsolute (p : Path) : Bool := p.spelling.head? = some '/'

/-- The nonempty pieces between slashes. -/
def pieces (p : Path) : List Text := (Text.split '/' p.spelling).filter (!·.isEmpty)

/-- The components of a path. -/
def components (p : Path) : List Component :=
  if p.isAbsolute then .root :: p.pieces.filterMap Component.ofPiece?
  else match p.pieces with
    | ['.'] :: rest => .here :: rest.filterMap Component.ofPiece?
    | pieces => pieces.filterMap Component.ofPiece?

/-- Whether two paths have the same components. -/
def same (p q : Path) : Bool := p.components = q.components

/-- A path continued by another one. An absolute continuation replaces the path; otherwise a slash
stands between the two unless the first is empty or ends in one. -/
def join (p q : Path) : Path :=
  if q.isAbsolute then q
  else if p.spelling.isEmpty || p.spelling.getLast? = some '/' then ⟨p.spelling ++ q.spelling⟩
  else ⟨p.spelling ++ '/' :: q.spelling⟩

/-- The path that is spelled component by component. -/
def ofComponents (cs : List Component) : Path :=
  cs.foldl (fun p c => p.join ⟨c.text⟩) ⟨[]⟩

/-- A reversed spelling without trailing slashes and trailing `.`; a lone slash stays. -/
def dropTail : Text → Text
  | ['/'] => ['/']
  | '/' :: r => dropTail r
  | '.' :: '/' :: r => dropTail ('/' :: r)
  | r => r

/-- The path without its last component, spelled as far as it goes; the root and the empty path
have none. -/
def parent? (p : Path) : Option Path :=
  let body := dropTail p.spelling.reverse
  if body = [] ∨ body = ['/'] then none
  else some ⟨(dropTail (body.dropWhile (· ≠ '/'))).reverse⟩

/-- The last component, if it is a name. -/
def fileName? (p : Path) : Option Text :=
  match p.components.getLast? with
  | some (.name t) => some t
  | _ => none

/-- A file name cut at its last dot. A name without a dot, or with its only dot in front, is all
stem. -/
def splitName (name : Text) : Text × Option Text :=
  match Text.splitLast '.' name with
  | some (c :: stem, extension) => (c :: stem, some extension)
  | _ => (name, none)

/-- What follows the last dot of the file name. -/
def extension? (p : Path) : Option Text := p.fileName?.bind fun name => (splitName name).2

/-- The file name up to its last dot, and nothing where there is no file name. -/
def stem (p : Path) : Text := (p.fileName?.map fun name => (splitName name).1).getD []

/-- The order of component lists, in which a beginning comes before its continuations. -/
def componentsBefore : List Component → List Component → Bool
  | _, [] => false
  | [], _ :: _ => true
  | a :: as, b :: bs => a.before b || (a = b && componentsBefore as bs)

/-- Whether a path comes before another in component order. -/
def before (p q : Path) : Bool := componentsBefore p.components q.components

end Path

end Spruce
