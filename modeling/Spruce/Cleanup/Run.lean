import Spruce.Cleanup.Edit
import Spruce.Cleanup.Ledger
import Spruce.Cleanup.Outcome
import Spruce.Lint.Finding
import Spruce.Source.Stored

/-!
# Runs of a cleanup

Findings are handled one after another. A file is read when its first finding comes up and is
edited in memory from then on; each edit is written back at once, except in a dry run. A finding
that cannot be handled is skipped and does not hinder the others.
-/

namespace Spruce.Cleanup

open Lint

/-- What tells a finding from others: the same variable on the same line is handled once. -/
abbrev FindingKey := FileKey × Nat × Text

/-- The key of a finding. -/
def keyOf (f : Finding) : FindingKey := (f.file.components, f.line, f.name)

/-- The state of a run: the disk, the findings met, the deleted lines, the files read so far as
they are after the edits, and the outcomes. -/
structure Run where
  disk : Disk
  met : List FindingKey
  ledger : Ledger
  sources : List (FileKey × Source)
  summary : Summary

/-- What handling a finding came to: an action and a remark, or a fault. -/
abbrev Verdict := Except Fault (Action × Option Remark)

namespace Run

/-- Nothing has been handled. -/
def start (d : Disk) (dryRun : Bool) : Run := ⟨d, [], [], [], .empty dryRun⟩

/-- The run with a source in place of what was known of its file. -/
def keep (r : Run) (file : FileKey) (s : Source) : Run :=
  { r with sources := (file, s) :: r.sources.filter fun entry => entry.1 ≠ file }

/-- The run without what was known of a file. -/
def forget (r : Run) (file : FileKey) : Run :=
  { r with sources := r.sources.filter fun entry => entry.1 ≠ file }

/-- The source of a file: as it is known, or as it stands on the disk. -/
def sourceOf (r : Run) (file : FileKey) (p : Path) : Except Fault Source :=
  match r.sources.lookup file with
  | some s => .ok s
  | none => Source.load r.disk p

/-- The run after an edit of a file has been kept and, except in a dry run, written. A file that
cannot be written is read anew when it comes up again. -/
def commit (r : Run) (file : FileKey) (edited : Source) : Run × Option Fault :=
  if r.summary.dryRun then (r.keep file edited, none)
  else
    match edited.save r.disk with
    | .ok disk => ({ r.keep file edited with disk }, none)
    | .error fault => (r.forget file, some fault)

/-- The run after an edit, and what it came to. -/
def edit (r : Run) (file : FileKey) (edited : Source) (action : Action) (remark : Option Remark) :
    Run × Verdict :=
  match r.commit file edited with
  | (r, none) => (r, .ok (action, remark))
  | (r, some fault) => (r, .error fault)

/-- The run with a deleted line in the ledger, if the deletion was committed. -/
def noteDeletion (file : FileKey) (line : Nat) : Run × Verdict → Run × Verdict
  | (r, .ok done) => ({ r with ledger := r.ledger.record file line }, .ok done)
  | (r, .error fault) => (r, .error fault)

/-- The run after a finding whose line stands at `line` of a source: the declaration is removed
where that is safe, and renamed otherwise. -/
def handleLine (r : Run) (f : Finding) (line : Nat) (s : Source) (content : Text) :
    Run × Verdict :=
  let file := f.file.components
  let removal :=
    if Declaration.isSafeToRemove content f.name then s.removeDeclaration? line f.name else none
  match removal with
  | some (.deletedLine, edited) =>
    noteDeletion file f.line (r.edit file edited .removed (some .deletedDeclaration))
  | some (.removedElement, edited) => r.edit file edited .removed (some .removedElement)
  | none =>
    match s.addUnderscore? line f.name with
    | some edited => r.edit file edited .prefixed none
    | none => (r, .ok (.skipped, some .nameNotFound))

/-- The run after a finding, and what it came to. -/
def handle (r : Run) (f : Finding) : Run × Verdict :=
  if !r.disk.isFile f.file then (r, .ok (.skipped, some .fileNotFound))
  else
    let file := f.file.components
    match r.ledger.currentLine? file f.line with
    | none => (r, .ok (.skipped, some .lineRemoved))
    | some line =>
      match r.sourceOf file f.file with
      | .error fault => (r, .error fault)
      | .ok s =>
        match s.line? line with
        | none => (r.keep file s, .ok (.skipped, some (.pastEnd line)))
        | some content => (r.keep file s).handleLine f line s content

/-- The outcome that a verdict on a finding is recorded as. -/
def outcomeOf (f : Finding) : Verdict → Outcome
  | .ok (action, remark) => ⟨f.file, f.line, f.name, action, remark⟩
  | .error fault => ⟨f.file, f.line, f.name, .skipped, some (.failure fault.message)⟩

/-- The run after a finding. Underscore names and findings met before leave no outcome. -/
def step (r : Run) (f : Finding) : Run :=
  if f.name.head? = some '_' then r
  else if keyOf f ∈ r.met then r
  else
    let (after, verdict) := { r with met := keyOf f :: r.met }.handle f
    { after with summary := after.summary.record (outcomeOf f verdict) }

end Run

/-- The run over all findings. -/
def run (d : Disk) (dryRun : Bool) (findings : List Finding) : Run :=
  findings.foldl Run.step (.start d dryRun)

/-- The summary of a cleanup, and the disk after it. -/
def clean (d : Disk) (dryRun : Bool) (findings : List Finding) : Summary × Disk :=
  let r := run d dryRun findings
  (r.summary, r.disk)

end Spruce.Cleanup
