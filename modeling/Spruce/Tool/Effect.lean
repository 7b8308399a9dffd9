import Spruce.Disk.Basic

/-!
# What a program does

A program takes its arguments, a disk, and the bytes on its standard input. What it does is a value:
the pieces that it writes, in order, the disk it leaves, the time it sleeps, and its exit status.
-/

namespace Spruce.Tool

/-- The two streams that a program writes to. -/
inductive Stream
  | output
  | error
  deriving DecidableEq, Repr

/-- A piece of what a program writes. -/
structure Chunk where
  stream : Stream
  bytes : List UInt8
  deriving DecidableEq, Repr

/-- What a program finds when it starts. -/
structure Setting where
  disk : Disk
  input : List UInt8

/-- What a program does. -/
structure Effect where
  disk : Disk
  chunks : List Chunk
  status : Nat
  slept : Nat

/-- The bytes of a text. -/
def bytes (t : Text) : List UInt8 := (Text.encode t).toList

namespace Effect

/-- Nothing but an exit status. -/
def exit (d : Disk) (status : Nat) : Effect := ⟨d, [], status, 0⟩

/-- A piece of output. -/
def output (d : Disk) (written : List UInt8) : Effect := ⟨d, [⟨.output, written⟩], 0, 0⟩

/-- A message of an error, on a line of its own. -/
def complaint (d : Disk) (status : Nat) (message : Text) : Effect :=
  ⟨d, [⟨.error, bytes (message ++ ['\n'])⟩], status, 0⟩

/-- The bytes that went to a stream. -/
def written (e : Effect) (stream : Stream) : List UInt8 :=
  (e.chunks.filter fun chunk => chunk.stream = stream).flatMap Chunk.bytes

end Effect

end Spruce.Tool
