import Spruce.CommandLine.Program

/-!
# The executable

The disk that the program works on is loaded from the current directory and from the paths among
the arguments, together with what stands above them. Afterwards the files that have changed are
written.
-/

namespace Spruce.Main

open CommandLine

/-- The names in an absolute path. -/
def placeOf (path : String) : Location := Path.pieces ⟨path.toList⟩

/-- The disk with a file or a directory, as far as it can be read. -/
partial def load (d : Disk) (name : String) : IO Disk := do
  let path ← IO.FS.realPath name
  if ← path.isDir then
    let mut d := d.makeDirectories (placeOf path.toString)
    for entry in ← path.readDir do
      d ← load d entry.path.toString
    return d
  else if ← path.pathExists then
    let content ← IO.FS.readBinFile path
    let place := placeOf path.toString
    return (d.makeDirectories place.dropLast).put place (.file content Disk.defaultMode)
  else return d

/-- The disk with a file or a directory if it can be read, and the disk as it was if not. -/
def tryLoad (d : Disk) (name : String) : IO Disk := do
  try load d name catch _ => return d

/-- The files that count for the directories below them. -/
def markFiles : List String := [".git", ".jj", ".ignore", ".gitignore"]

/-- The disk with the files above a location that count for what is below. -/
def loadAbove (d : Disk) (place : Location) : IO Disk := do
  let mut d := d
  for dir in Ignore.above place do
    for name in markFiles do
      let path := (Disk.pathOf dir).join (.ofString name)
      d ← tryLoad d (String.ofList path.spelling)
  return d

/-- The part of an argument that may be a path. -/
def pathIn (argument : String) : String :=
  match Text.splitFirst '=' argument.toList with
  | some (_, value) => String.ofList value
  | none => argument

/-- The disk on which the arguments are understood. -/
def loadDisk (arguments : List String) : IO Disk := do
  let current := placeOf (← IO.currentDir).toString
  let mut d : Disk := ⟨[], current⟩
  for path in (String.ofList (Disk.pathOf current).spelling) :: arguments.map pathIn do
    d ← tryLoad d path
    match d.locate ⟨path.toList⟩ with
    | .ok (place, _) => d ← loadAbove d place
    | .error _ => pure ()
  return d

/-- Writes the files whose contents have changed. -/
def store (before after : Disk) : IO Unit := do
  for (place, node) in after.entries do
    match node, before.node? place with
    | .file content _, some (.file old _) =>
      if content.toList ≠ old.toList then
        IO.FS.writeBinFile (String.ofList (Disk.pathOf place).spelling) content
    | .file content _, none =>
      IO.FS.writeBinFile (String.ofList (Disk.pathOf place).spelling) content
    | _, _ => pure ()

/-- All bytes of a stream after some that have been read. -/
partial def readAll (stream : IO.FS.Stream) (sofar : ByteArray) : IO ByteArray := do
  let more ← stream.read 65536
  if more.isEmpty then return sofar else readAll stream (sofar ++ more)

/-- Runs the program and returns its exit status. -/
def runProgram (arguments : List String) : IO UInt32 := do
  let start ← IO.monoMsNow
  let disk ← loadDisk arguments
  let words := arguments.map String.toList
  let input ← if wantsInput words then readAll (← IO.getStdin) .empty else pure .empty
  let colour ← (← IO.getStdout).isTty
  let milliseconds := Text.ofNat ((← IO.monoMsNow) - start)
  let response := run { disk, input, colour, milliseconds, threads := ['1'] } words
  store disk response.disk
  IO.print (String.ofList response.output)
  IO.eprint (String.ofList response.error)
  return UInt32.ofNat response.status

end Spruce.Main

/-- The entry point. -/
def main (arguments : List String) : IO UInt32 := Spruce.Main.runProgram arguments
