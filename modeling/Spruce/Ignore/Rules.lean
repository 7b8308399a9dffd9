import Spruce.Ignore.Glob.Reader
import Spruce.Disk.Basic
import Spruce.Text.Lines

/-!
# Ignore files

An ignore file holds a rule on each line. A rule is a glob for paths relative to the directory of
the file, perhaps for directories only; a rule with an exclamation mark takes paths back in. The
last rule that applies decides. A line that cannot be read is a fault of the file, and the other
lines still count.
-/

namespace Spruce.Ignore

open Text

/-- A rule of an ignore file. -/
structure Rule where
  glob : Glob
  keeps : Bool
  directoriesOnly : Bool

/-- What is wrong with a line of an ignore file. -/
inductive LineFault
  | glob (spelling : Text) (error : GlobError)
  | unreadable (error : IoError)
  deriving DecidableEq, Repr

/-- The wording of a fault. -/
def LineFault.message : LineFault → Text
  | .glob spelling error =>
    "error parsing glob '".toList ++ spelling ++ "': ".toList ++ error.message
  | .unreadable error => error.message

/-! ### Rules -/

/-- A line without the blanks at its end, unless the last of them is escaped. -/
def trimRule (line : Text) : Text :=
  if ['\\', ' '].isSuffixOf line then line else trimEnd line

/-- The marks at the start of a rule: whether it keeps paths, whether it is bound to the
directory of its file, and the glob that follows. An escaped mark belongs to the glob. -/
def splitMarks (line : Text) : Bool × Bool × Text :=
  match line with
  | '\\' :: '!' :: r => (false, false, '!' :: r)
  | '\\' :: '#' :: r => (false, false, '#' :: r)
  | '!' :: '/' :: r => (true, true, r)
  | '!' :: r => (true, false, r)
  | '/' :: r => (false, true, r)
  | _ => (false, false, line)

/-- A glob without a slash at its end, and whether there was one. A backslash before that slash
goes with it. -/
def splitDirectoryMark (t : Text) : Bool × Text :=
  match t.reverse with
  | '/' :: '\\' :: r => (true, r.reverse)
  | '/' :: r => (true, r.reverse)
  | _ => (false, t)

/-- Whether a glob begins with directories of any depth. -/
def startsWithDirectories (t : Text) : Bool := ['*', '*', '/'].isPrefixOf t || t == ['*', '*']

/-- The glob that is matched: one without a slash holds at any depth, and what ends in two stars
does not match the directory above them. -/
def completeGlob (anchored : Bool) (t : Text) : Text :=
  let anywhere :=
    if !anchored && !t.contains '/' && !startsWithDirectories t then '*' :: '*' :: '/' :: t else t
  if ['/', '*', '*'].isSuffixOf anywhere then anywhere ++ ['/', '*'] else anywhere

/-- The rule on a line, if there is one. -/
def readRule (line : Text) : Except LineFault (Option Rule) :=
  if line.head? = some '#' then .ok none
  else
    let spelling := trimRule line
    if spelling.isEmpty then .ok none
    else
      let (keeps, anchored, body) := splitMarks spelling
      let (directoriesOnly, pattern) := splitDirectoryMark body
      match Glob.read (completeGlob anchored pattern) with
      | .ok glob => .ok (some ⟨glob, keeps, directoriesOnly⟩)
      | .error e => .error (.glob spelling e)

/-- Whether a rule applies to a path relative to its file. -/
def Rule.applies (rule : Rule) (path : List UInt8) (isDirectory : Bool) : Bool :=
  (isDirectory || !rule.directoriesOnly) && rule.glob.matches path

/-- Whether the rules keep or drop a path, if any of them applies. -/
def decide? (rules : List Rule) (path : List UInt8) (isDirectory : Bool) : Option Bool :=
  (rules.reverse.find? fun rule => rule.applies path isDirectory).map (·.keeps)

/-! ### Files -/

/-- The lines of a file in bytes, each with its newline. -/
def byteLines : List UInt8 → List (List UInt8)
  | [] => []
  | b :: r =>
    if b = 0x0A then [b] :: byteLines r
    else match byteLines r with
      | [] => [[b]]
      | line :: lines => (b :: line) :: lines

/-- A line of a file as text. -/
def decodeLine? (line : List UInt8) : Option Text :=
  (decode? (ByteArray.mk line.toArray)).map lineContent

/-- The first line of a text without a byte order mark. -/
def dropOrderMark (line : Text) : Text := line.dropWhile (· = '\ufeff')

/-- The rules on lines of a file, and the faults with the numbers of their lines. Nothing is read
after a line that is not text. -/
def readLines (number : Nat) : List (List UInt8) → List Rule × List (Nat × LineFault)
  | [] => ([], [])
  | bytes :: rest =>
    match decodeLine? bytes with
    | none => ([], [(number, .unreadable .notUtf8)])
    | some line =>
      let (rules, faults) := readLines (number + 1) rest
      match readRule (if number = 1 then dropOrderMark line else line) with
      | .ok rule => (rule.toList ++ rules, faults)
      | .error fault => (rules, (number, fault) :: faults)

/-- The rules in a file, and the faults with the numbers of their lines. -/
def readRules (content : ByteArray) : List Rule × List (Nat × LineFault) :=
  readLines 1 (byteLines content.toList)

end Spruce.Ignore
