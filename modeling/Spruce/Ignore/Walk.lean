import Spruce.Ignore.Rules

/-!
# Walks that heed ignore files

A walk below a directory passes over what the ignore files in that directory, above it and below it
tell it to ignore, and over everything inside. It is said here without walking: a file is met when
the rules ignore neither the file nor any directory between it and the root.

Each directory contributes three lists of rules: those of `.ignore` always count, those of
`.gitignore` and of the exclude file of the repository only up to the directory that holds the
repository. In each kind the deepest directory with a rule that applies decides, and `.ignore` goes
before the others.

The ignore file that a user keeps for all repositories is left out: where it is to be found depends
on the user's settings and not on the directories, and no rule is taken from it.
-/

namespace Spruce.Ignore

/-- The rules that a directory contributes. -/
structure Level where
  place : Location
  ignore : List Rule
  gitignore : List Rule
  exclude : List Rule
  holdsRepository : Bool

/-- A fault found while the ignore files of a directory were read. -/
structure FileFault where
  file : Path
  line : Option Nat
  fault : LineFault
  deriving DecidableEq, Repr

/-- The wording of a fault, with its place. -/
def FileFault.message (f : FileFault) : Text :=
  let line := match f.line with
    | some n => "line ".toList ++ Text.ofNat n ++ ": ".toList
    | none => []
  f.file.spelling ++ ": ".toList ++ line ++ f.fault.message

/-- Why a walk cannot be made. -/
inductive WalkError
  /-- There are faults in the ignore files above the root. -/
  | faults (found : List FileFault)
  /-- The root cannot be read. -/
  | unreadableRoot (root : Path) (error : IoError)
  deriving DecidableEq, Repr

/-- The wording of an error. -/
def WalkError.message : WalkError → Text
  | .faults found => Text.joinWith ['\n'] (found.map FileFault.message)
  | .unreadableRoot root error =>
    root.spelling ++ ": IO error for operation on ".toList ++ root.spelling ++ ": ".toList ++
      error.message

/-! ### What a directory contributes -/

/-- Whether a fault is a failure to read. -/
def LineFault.isUnreadable : LineFault → Bool
  | .unreadable _ => true
  | .glob _ _ => false

/-- A fault on a numbered line of a file. -/
def FileFault.onLine (file : Path) (f : Nat × LineFault) : FileFault := ⟨file, some f.1, f.2⟩

/-- The rules in an ignore file and the faults in it. A file that is missing has neither, and a
failure to read is passed over when it is the only fault. -/
def rulesAt (d : Disk) (file : Path) : List Rule × List FileFault :=
  match d.read file with
  | .error _ => ([], [])
  | .ok content =>
    let (rules, faults) := readRules content
    let only := faults.length = 1 && faults.all fun f => f.2.isUnreadable
    (rules, if only then [] else faults.map (FileFault.onLine file))

/-- The first line of a file, if it has one. -/
def firstLine? (d : Disk) (file : Path) : Except IoError (Option Text) :=
  match d.read file with
  | .error e => .error e
  | .ok content =>
    match byteLines content.toList with
    | [] => .ok none
    | line :: _ =>
      match decodeLine? line with
      | some t => .ok (some t)
      | none => .error .notUtf8

/-- The word before the path in a file that stands for a repository. -/
def repositoryWord : Text := "gitdir: ".toList

/-- The directory that the work trees of a repository share, told by a file in the repository of
one of them. -/
def sharedRepository? (d : Disk) (repository : Path) : Except FileFault (Option Path) :=
  let file := repository.join (.ofString "commondir")
  if d.has file then
    match firstLine? d file with
    | .error e => .error ⟨file, none, .unreadable e⟩
    | .ok none => .ok none
    | .ok (some line) =>
      .ok (some (if line.head? = some '.' then repository.join ⟨line⟩ else ⟨line⟩))
  else .ok none

/-- The repository of a directory. Where `.git` is a file, it names the repository of a work
tree. -/
def repository? (d : Disk) (dir : Path) : Except FileFault (Option Path) :=
  let git := dir.join (.ofString ".git")
  if d.isFile git then
    match firstLine? d git with
    | .error e => .error ⟨git, none, .unreadable e⟩
    | .ok none => .ok none
    | .ok (some line) =>
      match repositoryWord.isPrefixOf? line with
      | some repository => sharedRepository? d ⟨repository⟩
      | none => .ok none
  else .ok (some git)

/-- The rules in the exclude file of the repository of a directory, and the faults. -/
def excludesAt (d : Disk) (dir : Path) : List Rule × List FileFault :=
  match repository? d dir with
  | .error fault => ([], [fault])
  | .ok none => ([], [])
  | .ok (some repository) => rulesAt d (repository.join (.ofString "info/exclude"))

/-- What a directory contributes. -/
def levelAt (d : Disk) (place : Location) : Level :=
  let dir := Disk.pathOf place
  { place
    ignore := (rulesAt d (dir.join (.ofString ".ignore"))).1
    gitignore := (rulesAt d (dir.join (.ofString ".gitignore"))).1
    exclude := (excludesAt d dir).1
    holdsRepository := d.has (dir.join (.ofString ".git")) || d.has (dir.join (.ofString ".jj")) }

/-- The faults in the ignore files of a directory. -/
def faultsAt (d : Disk) (place : Location) : List FileFault :=
  let dir := Disk.pathOf place
  (rulesAt d (dir.join (.ofString ".ignore"))).2 ++
    (rulesAt d (dir.join (.ofString ".gitignore"))).2 ++ (excludesAt d dir).2

/-! ### Decisions -/

/-- The locations above a location, the topmost first. -/
def above (place : Location) : List Location :=
  (List.range place.length).map fun n => place.take n

/-- A location relative to a level, as the bytes of a path. -/
def relativeBytes (level : Level) (place : Location) : List UInt8 :=
  (Text.encode (Text.joinWith ['/'] (place.drop level.place.length))).toList

/-- What the first of some levels with a rule that applies decides. -/
def decideBy (rules : Level → List Rule) (levels : List Level) (place : Location)
    (isDirectory : Bool) : Option Bool :=
  levels.findSome? fun level => decide? (rules level) (relativeBytes level place) isDirectory

/-- The levels up to the first that holds a repository. -/
def withinRepository : List Level → List Level
  | [] => []
  | level :: levels =>
    if level.holdsRepository then [level] else level :: withinRepository levels

/-- Whether the levels, the deepest first, keep or drop what stands at a location, if any rule
applies. -/
def verdict? (levels : List Level) (place : Location) (isDirectory : Bool) : Option Bool :=
  let inner := if levels.any (·.holdsRepository) then withinRepository levels else []
  decideBy (·.ignore) levels place isDirectory <|>
    decideBy (·.gitignore) inner place isDirectory <|>
    decideBy (·.exclude) inner place isDirectory

/-- Whether the ignore files say to pass over what stands at a location. -/
def isIgnored (d : Disk) (place : Location) (isDirectory : Bool) : Bool :=
  verdict? ((above place).reverse.map (levelAt d)) place isDirectory = some false

/-- Whether a walk from `root` meets the file at a location. -/
def meets (d : Disk) (root place : Location) : Bool :=
  root.isPrefixOf place && !isIgnored d place false &&
    (above place).all fun dir => dir.length ≤ root.length || !isIgnored d dir true

/-! ### The walk -/

/-- The files that a walk from a directory meets. -/
def filesBelow (d : Disk) (root : Location) : List Location :=
  d.entries.filterMap fun (place, node) =>
    match node with
    | .file _ _ => if root.length < place.length && meets d root place then some place else none
    | .directory => none

/-- The path of a location below the place that a path names. -/
def pathBelow (root : Path) (place : Location) (below : Location) : Path :=
  (below.drop place.length).foldl (fun p name => p.join ⟨name⟩) root

/-- The paths of the files that a walk from `root` meets. A root that is a file is met itself. -/
def walk (d : Disk) (root : Path) : Except WalkError (List Path) :=
  match d.locate root with
  | .error e => .error (.unreadableRoot root e)
  | .ok (_, .file _ _) => .ok [root]
  | .ok (place, .directory) =>
    match (above place).flatMap (faultsAt d) with
    | [] => .ok ((filesBelow d place).map (pathBelow root place))
    | faults => .error (.faults faults)

end Spruce.Ignore
