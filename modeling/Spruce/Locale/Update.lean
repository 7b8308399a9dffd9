import Spruce.Selection
import Spruce.Json.Printer
import Spruce.Locale.Merge
import Spruce.Locale.Patch
import Spruce.Source.Stored

/-!
# Updating locale files

The sections of a patch that apply to the locale of a file are merged into the object in the file.
The file is written only when the merge changed something and the text differs. A file that cannot
be updated is reported and does not hinder the others.
-/

namespace Spruce.Locale

open Json

/-- What became of a locale file. -/
inductive Status
  | updated
  | unchanged
  | failed
  deriving DecidableEq, Repr

/-- The report on a locale file: what became of it, what was merged, and the wording of what went
wrong. -/
structure FileReport where
  path : Path
  locale : Text
  status : Status
  stats : Stats
  error : Option Text
  deriving DecidableEq, Repr

/-- The sections merged into an object one after another. -/
def mergeAll (overwrite : Bool) (target : Members) : List Members → Members × Stats
  | [] => (target, .zero)
  | patch :: rest =>
    let merged := merge overwrite target patch
    let others := mergeAll overwrite merged.1 rest
    (others.1, merged.2.add others.2)

/-- The object in the text of a locale file. -/
def objectIn (p : Path) (t : Text) : Except Fault Members :=
  match Json.read t with
  | .error e => .error ⟨[.parseFile p], .json e⟩
  | .ok (.object members) => .ok members
  | .ok _ => .error (.of (.localeNotObject p))

/-- The text of a locale file. -/
def render (members : Members) : Text := (Value.object members).pretty ++ ['\n']

/-- What is to be written to a locale file with a given text, if anything, and what was merged. -/
def reviseText (overwrite : Bool) (sections : List Members) (p : Path) (t : Text) :
    Except Fault (Option Text × Stats) :=
  match objectIn p t with
  | .error fault => .error fault
  | .ok target =>
    let (merged, stats) := mergeAll overwrite target sections
    if stats.changed ∧ render merged ≠ t then .ok (some (render merged), stats)
    else .ok (none, stats)

/-- What is to be written to a locale file on a disk, if anything, and what was merged. A file that
no section applies to is not read. -/
def revise (d : Disk) (patch : Patch) (overwrite : Bool) (p : Path) :
    Except Fault (Option Text × Stats) :=
  match patch.sectionsFor p.stem with
  | [] => .ok (none, .zero)
  | sections =>
    match d.readText p with
    | .error e => .error ⟨[.readFile p], .io e⟩
    | .ok t => reviseText overwrite sections p t

/-- How an update is made. -/
structure Mode where
  overwrite : Bool
  dryRun : Bool
  deriving DecidableEq, Repr

/-- The report on a file that could not be updated. -/
def failure (p : Path) (fault : Fault) : FileReport :=
  ⟨p, p.stem, .failed, .zero, some fault.message⟩

/-- The disk after a locale file has been updated, and the report. -/
def updateFile (d : Disk) (patch : Patch) (mode : Mode) (p : Path) : FileReport × Disk :=
  match revise d patch mode.overwrite p with
  | .error fault => (failure p fault, d)
  | .ok (none, stats) => (⟨p, p.stem, .unchanged, stats, none⟩, d)
  | .ok (some t, stats) =>
    if mode.dryRun then (⟨p, p.stem, .updated, stats, none⟩, d)
    else
      match d.save p (Text.encode t) with
      | .error fault => (failure p fault, d)
      | .ok d => (⟨p, p.stem, .updated, stats, none⟩, d)

/-- The disk after locale files have been updated one after another, and the reports. -/
def updateFiles (patch : Patch) (mode : Mode) (d : Disk) : List Path → List FileReport × Disk
  | [] => ([], d)
  | p :: rest =>
    let first := updateFile d patch mode p
    let others := updateFiles patch mode first.2 rest
    (first.1 :: others.1, others.2)

/-- The reports on all locale files, and the locales of the patch that have none. -/
structure Summary where
  files : List FileReport
  unmatched : List Text
  dryRun : Bool
  deriving DecidableEq, Repr

namespace Summary

/-- The number of files with a status. -/
def count (s : Summary) (status : Status) : Nat :=
  (s.files.filter fun report => report.status = status).length

/-- The number of leaves that were added in all files. -/
def added (s : Summary) : Nat := s.files.foldr (fun report n => report.stats.added + n) 0

end Summary

/-- The locales of a patch that none of the reports is on. -/
def unmatched (patch : Patch) (reports : List FileReport) : List Text :=
  patch.locales.filter fun locale => !reports.any fun report => report.locale = locale

/-- The selection of the locale files in a directory. -/
def localeFiles (dir : Path) : Selection := ⟨dir, ["json".toList], Project.foreignMarkers⟩

/-- The disk after the locale files in a directory have been updated with a patch, and the
summary. -/
def updateDirectory (d : Disk) (dir : Path) (patch : Patch) (mode : Mode) :
    Except Fault (Summary × Disk) :=
  match (localeFiles dir).collect d with
  | .error e => .error (.of (.walk e))
  | .ok [] => .error (.of (.noLocaleFiles dir))
  | .ok files =>
    let (reports, after) := updateFiles patch mode d files
    .ok (⟨reports, unmatched patch reports, mode.dryRun⟩, after)

end Spruce.Locale
