import Spruce.Path.Basic
import Spruce.Text.Utf8

/-!
# Disks

A disk is plain data: what stands at each location, and the current directory. A location is the
list of names from the root, so it has one form only, while a path may spell it in many ways.
Writing a node is seen at its own location and nowhere else (`node?_put`).

Only directories and regular files are covered: there are no symbolic links, so a path leads where
its names say. The permissions of a file are kept when it is replaced and tell whether it can be
run, but no reading or writing is refused because of them, and there is always room to write.
Nothing else writes to the disk.
-/

namespace Spruce

/-- The names that lead from the root to a place on a disk. -/
abbrev Location := List Text

/-- What stands at a location. -/
inductive Node
  | directory
  | file (content : ByteArray) (mode : Nat)

/-- The ways in which the use of a path fails. -/
inductive IoError
  | notFound
  | permissionDenied
  | notDirectory
  | isDirectory
  | notExecutable
  | notUtf8
  | nulInPath
  | nulInArgument
  deriving DecidableEq, Repr

/-- The wording of a failure. -/
def IoError.message : IoError → Text
  | .notFound => "No such file or directory (os error 2)".toList
  | .permissionDenied => "Permission denied (os error 13)".toList
  | .notDirectory => "Not a directory (os error 20)".toList
  | .isDirectory => "Is a directory (os error 21)".toList
  | .notExecutable => "Exec format error (os error 8)".toList
  | .notUtf8 => "stream did not contain valid UTF-8".toList
  | .nulInPath => "file name contained an unexpected NUL byte".toList
  | .nulInArgument => "nul byte found in provided data".toList

/-- A tree of directories and files, and the directory that relative paths start from. -/
structure Disk where
  entries : List (Location × Node)
  current : Location

namespace Disk

/-- The permissions of a file that is written anew. -/
def defaultMode : Nat := 0o644

/-- What stands at a location. The root is always a directory. -/
def node? (d : Disk) (place : Location) : Option Node :=
  if place = [] then some .directory else d.entries.lookup place

/-- The disk with `n` at a location, in place of what stood there. -/
def put (d : Disk) (place : Location) (n : Node) : Disk :=
  { d with entries := (place, n) :: d.entries.filter fun e => e.1 ≠ place }

/-- The disk with directories at a location and above it, where nothing stood before. -/
def makeDirectories (d : Disk) (place : Location) : Disk :=
  (List.range place.length).foldl
    (fun d n =>
      let above := place.take (n + 1)
      if (d.node? above).isSome then d else d.put above .directory) d

/-- The names in a directory, with what stands there. -/
def children (d : Disk) (place : Location) : List (Text × Node) :=
  d.entries.filterMap fun (other, n) =>
    match other.getLast? with
    | some name => if other = place ++ [name] then some (name, n) else none
    | none => none

/-- The location reached by following pieces of a path, each from within a directory. -/
def follow (d : Disk) : Location → List Text → Except IoError Location
  | place, [] => .ok place
  | place, piece :: rest =>
    match d.node? place with
    | none => .error .notFound
    | some (.file _ _) => .error .notDirectory
    | some .directory =>
      if piece = ['.'] then d.follow place rest
      else if piece = ['.', '.'] then d.follow place.dropLast rest
      else d.follow (place ++ [piece]) rest

/-- The location that a path names and what stands there. A trailing slash names directories
only. -/
def locate (d : Disk) (p : Path) : Except IoError (Location × Node) :=
  if p.spelling.isEmpty then .error .notFound
  else if p.spelling.contains '\x00' then .error .nulInPath
  else
    match d.follow (if p.isAbsolute then [] else d.current) p.pieces with
    | .error e => .error e
    | .ok place =>
      match d.node? place with
      | none => .error .notFound
      | some .directory => .ok (place, .directory)
      | some (.file content mode) =>
        if p.spelling.getLast? = some '/' then .error .notDirectory
        else .ok (place, .file content mode)

/-- Whether anything stands at a path. -/
def has (d : Disk) (p : Path) : Bool :=
  match d.locate p with
  | .ok _ => true
  | .error _ => false

/-- Whether a file stands at a path. -/
def isFile (d : Disk) (p : Path) : Bool :=
  match d.locate p with
  | .ok (_, .file _ _) => true
  | _ => false

/-- Whether a directory stands at a path. -/
def isDirectory (d : Disk) (p : Path) : Bool :=
  match d.locate p with
  | .ok (_, .directory) => true
  | _ => false

/-- The absolute path of a location. -/
def pathOf (place : Location) : Path := .ofComponents (.root :: place.map .name)

/-- The current directory as a path. -/
def currentPath (d : Disk) : Path := pathOf d.current

/-- The absolute path of what a path names. -/
def canonical (d : Disk) (p : Path) : Except IoError (Path × Node) :=
  (d.locate p).map fun (place, n) => (pathOf place, n)

/-- The content of the file at a path. -/
def read (d : Disk) (p : Path) : Except IoError ByteArray :=
  match d.locate p with
  | .error e => .error e
  | .ok (_, .directory) => .error .isDirectory
  | .ok (_, .file content _) => .ok content

/-- The content of the file at a path as text. -/
def readText (d : Disk) (p : Path) : Except IoError Text :=
  match d.read p with
  | .error e => .error e
  | .ok bytes =>
    match Text.decode? bytes with
    | some t => .ok t
    | none => .error .notUtf8

/-- The permissions that a file written to a path gets: those of the file it replaces. -/
def modeFor (d : Disk) (p : Path) : Nat :=
  match d.locate p with
  | .ok (_, .file _ mode) => mode
  | _ => defaultMode

/-- The directory that holds the last component of a path. -/
def holder (p : Path) : Path :=
  match p.parent? with
  | some ⟨[]⟩ | none => ⟨['.']⟩
  | some parent => parent

/-- The disk once the file at a path has been replaced as a whole. The directory must be there
already, and a directory is not replaced. -/
def write (d : Disk) (p : Path) (content : ByteArray) : Except IoError Disk :=
  match d.locate (holder p), p.fileName? with
  | .error e, _ => .error e
  | .ok (_, .file _ _), _ => .error .notDirectory
  | .ok _, none => .error .isDirectory
  | .ok (place, .directory), some name =>
    match d.node? (place ++ [name]) with
    | some .directory => .error .isDirectory
    | _ => .ok (d.put (place ++ [name]) (.file content (d.modeFor p)))

/-- A node is seen at the location where it was put, and everything else is as before. -/
theorem node?_put (d : Disk) {place : Location} (n : Node) (other : Location) (h : place ≠ []) :
    (d.put place n).node? other = if other = place then some n else d.node? other := by
  unfold node? put
  by_cases ho : other = place
  · subst ho
    simp [h]
  · by_cases hr : other = []
    · subst hr
      simp [ho]
    · have lookup_filter : ∀ es : List (Location × Node),
          (es.filter fun e => e.1 ≠ place).lookup other = es.lookup other := by
        intro es
        induction es with
        | nil => rfl
        | cons e es ih =>
          obtain ⟨site, m⟩ := e
          by_cases he : site = place
          · have hne : (other == site) = false := by
              rw [he]
              simpa using ho
            rw [List.filter_cons_of_neg (by simpa using he), ih]
            simp [List.lookup_cons, hne]
          · rw [List.filter_cons_of_pos (by simpa using he)]
            simp only [List.lookup_cons]
            split <;> simp_all
      have hb : (other == place) = false := by simpa using ho
      simp only [ho, hr, if_false, List.lookup_cons, hb]
      exact lookup_filter d.entries

end Disk

end Spruce
