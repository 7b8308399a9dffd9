import Spruce.Cleanup.Run
import Spruce.Lint.Output
import Spruce.Root
import Spruce.Tool.Run

/-!
# Cleaning up a project

The output of the linter is taken from a file, from standard input, or from a run of the linter in
the root of the project; its findings are then handled.
-/

namespace Spruce.Cleanup

/-- How a project is cleaned up. -/
structure Options where
  root : Option Path
  lintCommand : Text
  input : Option Path
  timeoutSeconds : Option Nat
  dryRun : Bool
  json : Bool
  deriving DecidableEq, Repr

namespace Options

/-- The command that runs the linter unless another one is given. -/
def defaultLintCommand : Text := "npm run lint".toList

/-- The root, once it is known. -/
def knownRoot (o : Options) : Except Fault Path :=
  match o.root with
  | some root => .ok root
  | none => .error (.of .rootUnknown)

/-- The path that stands for standard input. -/
def standardInput : Text := ['-']

/-- The output of the linter that was run in the root, and the disk after it. -/
def runLinter (o : Options) (d : Disk) : Except Fault (Text × Disk) :=
  match o.knownRoot with
  | .error fault => .error fault
  | .ok root =>
    match Tool.Command.ofLine? o.lintCommand with
    | none => .error (.of .emptyCommand)
    | some command =>
      match Tool.run d root command (o.timeoutSeconds.map (1000 * ·)) with
      | .error fault => .error (fault.during (.runLinter command))
      | .ok (output, after) => .ok (output.text, after)

/-- The output of the linter from where the options say, and the disk after it. -/
def lintOutput (o : Options) (d : Disk) (input : ByteArray) : Except Fault (Text × Disk) :=
  match o.input with
  | none => o.runLinter d
  | some p =>
    if p.spelling = standardInput then
      match Text.decode? input with
      | some t => .ok (t, d)
      | none => .error ⟨[.readStandardInput], .io .notUtf8⟩
    else
      match d.readText p with
      | .ok t => .ok (t, d)
      | .error e => .error ⟨[.readLintOutput p], .io e⟩

/-- The summary of the cleanup of a project, and the disk after it. -/
def cleanProject (o : Options) (d : Disk) (input : ByteArray) : Except Fault (Summary × Disk) :=
  match d.projectRoot o.root with
  | .error fault => .error fault
  | .ok root =>
    match { o with root := some root }.lintOutput d input with
    | .error fault => .error fault
    | .ok (output, after) => .ok (clean after o.dryRun (Lint.findings root output))

end Options

end Spruce.Cleanup
