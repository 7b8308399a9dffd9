import Spruce.Fault
import Spruce.Tool.Shell.Run

/-!
# Running tools

A tool runs in a directory, with nothing on its standard input, for no longer than it is given time.
Its exit status is a result and no fault: linters fail whenever they have something to report.
-/

namespace Spruce.Tool

/-- What a tool that finished gave: its exit status, and its output followed by its errors. -/
structure Output where
  status : Nat
  text : Text
  deriving DecidableEq, Repr

/-- What a program does, if it can be launched. A name without a slash is one of the programs at
hand; any other names a file. -/
def launch (s : Setting) (program : Text) (arguments : List Text) : Except IoError Effect :=
  if (program :: arguments).any (·.contains '\x00') then .error .nulInArgument
  else
    match Shell.State.external? (Shell.run Shell.nestingLimit) s program arguments with
    | some e => .ok e
    | none =>
      if program.contains '/' then
        match s.disk.locate ⟨program⟩ with
        | .error e => .error e
        | .ok (_, .directory) => .error .permissionDenied
        | .ok (_, .file content mode) =>
          if mode &&& 0o111 = 0 then .error .permissionDenied
          else if (bytes "#!/bin/sh".toList).isPrefixOf content.toList then
            .ok (Shell.run Shell.nestingLimit s (program :: arguments))
          else .error .notExecutable
      else .error .notFound

/-- The directory that a tool runs in. -/
def workplace (d : Disk) (dir : Path) : Except IoError Disk :=
  match d.locate dir with
  | .error e => .error e
  | .ok (_, .file _ _) => .error .notDirectory
  | .ok (place, .directory) => .ok { d with current := place }

/-- The output of a tool that ran in a directory, and the disk after it. The limit is in
milliseconds. -/
def run (d : Disk) (dir : Path) (command : Command) (limit : Option Nat) :
    Except Fault (Output × Disk) :=
  match workplace d dir with
  | .error e => .error (.of (.launch command e))
  | .ok there =>
    match launch ⟨there, []⟩ command.program command.arguments with
    | .error e => .error (.of (.launch command e))
    | .ok e =>
      let late := limit.any fun limit => 0 < e.slept && limit ≤ e.slept
      if late then .error (.of (.timedOut command (limit.getD 0 / 1000)))
      else
        let text (stream : Stream) := Text.decodeLossy (ByteArray.mk (e.written stream).toArray)
        .ok (⟨e.status, text .output ++ text .error⟩, { e.disk with current := d.current })

end Spruce.Tool
