import Spruce.Disk.Basic
import Spruce.Ignore.Walk
import Spruce.Json.ReadError
import Spruce.Tool.Command

/-!
# Faults

A fault is the cause of a failure and what was being done when it came up, from the outside in. Its
wording is a chain of lines of text: one for each thing that was being done, then those of the
cause.
-/

namespace Spruce

/-- What was being done when a fault came up. -/
inductive Task
  | readFile (p : Path)
  | parseFile (p : Path)
  | readPatch (p : Path)
  | checkPatch (p : Path)
  | findRoot (p : Path)
  | readStandardInput
  | readLintOutput (p : Path)
  | runLinter (command : Tool.Command)
  deriving DecidableEq, Repr

/-- The wording of a task that failed. -/
def Task.text : Task → Text
  | .readFile p => "Failed to read ".toList ++ p.spelling
  | .parseFile p => "Failed to parse ".toList ++ p.spelling
  | .readPatch p => "Failed to read patch file ".toList ++ p.spelling
  | .checkPatch p => "Invalid patch file ".toList ++ p.spelling
  | .findRoot p => "Root directory ".toList ++ p.spelling ++ " does not exist".toList
  | .readStandardInput => "Failed to read lint output from stdin".toList
  | .readLintOutput p => "Failed to read lint output from ".toList ++ p.spelling
  | .runLinter command =>
    "Could not collect warnings with \x60".toList ++ command.text ++ ['\x60']

/-- What can go wrong. -/
inductive Cause
  | emptyCommand
  | launch (command : Tool.Command) (error : IoError)
  | timedOut (command : Tool.Command) (seconds : Nat)
  | json (error : Json.ReadError)
  | io (error : IoError)
  | walk (error : Ignore.WalkError)
  | unwritable (p : Path) (error : IoError)
  | rootIsFile (p : Path)
  | noRepository
  | rootUnknown
  | patchNotObject
  | sectionNotObject (locale : Text)
  | localeNotObject (p : Path)
  | noLocaleDirectory (p : Path)
  | noLocaleFiles (p : Path)
  deriving DecidableEq, Repr

/-- The wording of a cause. A failure to launch is followed by the error behind it. -/
def Cause.chain : Cause → List Text
  | .emptyCommand => ["lint command is empty".toList]
  | .launch command error =>
    ["failed to launch \x60".toList ++ command.text ++ "\x60: ".toList ++ error.message,
      error.message]
  | .timedOut command seconds =>
    ['\x60' :: command.text ++ "\x60 did not finish within ".toList ++ Text.ofNat seconds ++ ['s']]
  | .json error => [error.message]
  | .io error => [error.message]
  | .walk error => [error.message]
  | .unwritable p error => ["Failed to write ".toList ++ p.spelling ++ ": ".toList ++ error.message]
  | .rootIsFile p => ["Root ".toList ++ p.spelling ++ " is not a directory".toList]
  | .noRepository => ["Could not find .git directory in any parent folder".toList]
  | .rootUnknown => ["Config not initialized - call initialize() first".toList]
  | .patchNotObject => ["patch must be a JSON object keyed by locale".toList]
  | .sectionNotObject locale =>
    ["patch section '".toList ++ locale ++ "' must be a JSON object".toList]
  | .localeNotObject p => [p.spelling ++ " does not hold a JSON object".toList]
  | .noLocaleDirectory p =>
    ["Locale directory ".toList ++ p.spelling ++ " does not exist".toList]
  | .noLocaleFiles p => ["No locale files found under ".toList ++ p.spelling]

/-- A cause and the tasks around it, the outermost first. -/
structure Fault where
  tasks : List Task
  cause : Cause
  deriving DecidableEq, Repr

namespace Fault

/-- A fault with nothing around its cause. -/
def of (cause : Cause) : Fault := ⟨[], cause⟩

/-- A fault that came up during a task. -/
def during (task : Task) (f : Fault) : Fault := { f with tasks := task :: f.tasks }

/-- The wording of a fault, the outermost first. -/
def chain (f : Fault) : List Text := f.tasks.map Task.text ++ f.cause.chain

/-- The wording of a fault on one line. -/
def message (f : Fault) : Text := Text.joinWith [':', ' '] f.chain

end Fault

end Spruce
