import Spruce.Fault
import Spruce.Source

/-!
# Sources on a disk

A source is read from the file at its path and written back there as a whole.
-/

namespace Spruce

/-- The disk after a file has been written as a whole. -/
def Disk.save (d : Disk) (p : Path) (content : ByteArray) : Except Fault Disk :=
  (d.write p content).mapError fun e => .of (.unwritable p e)

namespace Source

/-- The source in the file at a path. -/
def load (d : Disk) (p : Path) : Except Fault Source :=
  match d.readText p with
  | .ok t => .ok (ofText p t)
  | .error e => .error ⟨[.readFile p], .io e⟩

/-- The disk after a source has been written to its path. -/
def save (s : Source) (d : Disk) : Except Fault Disk := d.save s.path (Text.encode s.contents)

end Source

end Spruce
