import Spruce.Tool.Effect
import Spruce.Tool.Shell.Script

/-!
# States of a shell

What a script changes as it runs, and the values of words and redirections in a state.
-/

namespace Spruce.Tool.Shell

/-- The state of a shell. -/
structure State where
  disk : Disk
  input : List UInt8
  chunks : List Chunk
  slept : Nat
  status : Nat
  bindings : List (Text × Text)
  /-- The name of the script and its arguments. -/
  arguments : List Text
  exited : Bool

namespace State

/-- The state in which a script starts. -/
def start (s : Setting) (arguments : List Text) : State :=
  ⟨s.disk, s.input, [], 0, 0, [], arguments, false⟩

/-- What the script has done. -/
def effect (st : State) : Effect := ⟨st.disk, st.chunks, st.status, st.slept⟩

/-- The name under which the shell complains. -/
def name (st : State) : Text := st.arguments.headD "sh".toList

/-- A complaint about something on a line. -/
def complain (st : State) (line status : Nat) (message : Text) : State :=
  let text := st.name ++ ": ".toList ++ Text.ofNat line ++ ": ".toList ++ message ++ ['\n']
  { st with chunks := st.chunks ++ [⟨.error, bytes text⟩], status }

/-- The value of a parameter; one that is not set is empty. -/
def value (st : State) (parameter : Text) : Text :=
  if parameter = ['?'] then Text.ofNat st.status
  else if parameter = ['#'] then Text.ofNat (st.arguments.length - 1)
  else if parameter = ['@'] ∨ parameter = ['*'] then Text.joinWith [' '] (st.arguments.drop 1)
  else if parameter = "PWD".toList then st.disk.currentPath.spelling
  else
    match Text.word64? parameter with
    | some n => st.arguments[n]?.getD []
    | none => (st.bindings.lookup parameter).getD []

/-- Words put after some fields: the first continues the last field. -/
def appendWords (fields : List Text × Option Text) : List Text → List Text × Option Text
  | [] => fields
  | [w] => (fields.1, some (fields.2.getD [] ++ w))
  | w :: rest => appendWords (fields.1 ++ [fields.2.getD [] ++ w], none) rest

/-- The fields of a word once one more of its parts has its value. -/
def expandPart (st : State) (fields : List Text × Option Text) : Part → List Text × Option Text
  | .text t => (fields.1, some (fields.2.getD [] ++ t))
  | .parameter name true => (fields.1, some (fields.2.getD [] ++ st.value name))
  | .parameter name false => appendWords fields (Text.words (st.value name))

/-- The fields that a word comes to. -/
def expand (st : State) (word : List Part) : List Text :=
  let (fields, last) := word.foldl st.expandPart ([], none)
  fields ++ last.toList

/-- The text that a word comes to where it is not split. -/
def expandWhole (st : State) (word : List Part) : Text :=
  word.flatMap fun
    | .text t => t
    | .parameter name _ => st.value name

end State

/-! ### Redirections -/

/-- Where what is written to a descriptor goes. -/
inductive Sink
  | stream (s : Stream)
  | nowhere
  | file (p : Path)
  deriving DecidableEq, Repr

/-- What the redirections of a command lead to. -/
structure Wiring where
  disk : Disk
  input : List UInt8
  output : Sink
  error : Sink

/-- The file that takes anything and gives nothing. -/
def nullFile : Text := "/dev/null".toList

namespace Wiring

/-- No redirection. -/
def plain (st : State) : Wiring := ⟨st.disk, st.input, .stream .output, .stream .error⟩

/-- The sink of a descriptor. -/
def sinkOf (w : Wiring) (target : Text) : Sink :=
  if target = ['1'] then w.output else if target = ['2'] then w.error else .nowhere

/-- A descriptor led to a sink. -/
def lead (w : Wiring) (descriptor : Nat) (sink : Sink) : Wiring :=
  if descriptor = 1 then { w with output := sink }
  else if descriptor = 2 then { w with error := sink }
  else w

/-- A descriptor led to a file, which is emptied first unless it is to be continued. -/
def leadToFile (w : Wiring) (descriptor : Nat) (continued : Bool) (p : Path) :
    Except Text Wiring :=
  let before := if continued then (w.disk.read p).toOption.getD .empty else .empty
  match w.disk.write p before with
  | .ok disk => .ok ({ w with disk }.lead descriptor (.file p))
  | .error .isDirectory =>
    .error ("cannot create ".toList ++ p.spelling ++ ": Is a directory".toList)
  | .error _ =>
    .error ("cannot create ".toList ++ p.spelling ++ ": Directory nonexistent".toList)

/-- The wiring after one more redirection to a target. -/
def redirect (w : Wiring) (r : Redirect) (target : Text) : Except Text Wiring :=
  match r.kind with
  | .duplicate => .ok (w.lead r.descriptor (w.sinkOf target))
  | .read =>
    if target = nullFile then .ok { w with input := [] }
    else
      match w.disk.read ⟨target⟩ with
      | .ok content => .ok { w with input := content.toList }
      | .error _ => .error ("cannot open ".toList ++ target ++ ": No such file".toList)
  | .write =>
    if target = nullFile then .ok (w.lead r.descriptor .nowhere)
    else w.leadToFile r.descriptor false ⟨target⟩
  | .append =>
    if target = nullFile then .ok (w.lead r.descriptor .nowhere)
    else w.leadToFile r.descriptor true ⟨target⟩

/-- The wiring after redirections, from left to right. -/
def redirectAll (st : State) : Wiring → List Redirect → Except Text Wiring
  | w, [] => .ok w
  | w, r :: rest =>
    match w.redirect r (st.expandWhole r.target) with
    | .ok w => redirectAll st w rest
    | .error message => .error message

/-- The disk with bytes at the end of a file. -/
def appendTo (d : Disk) (p : Path) (written : List UInt8) : Disk :=
  let content := ((d.read p).toOption.getD .empty).toList ++ written
  (d.write p (ByteArray.mk content.toArray)).toOption.getD d

/-- The disk and the pieces left after one piece has gone where it is led. -/
def route (w : Wiring) (done : Disk × List Chunk) (chunk : Chunk) : Disk × List Chunk :=
  match if chunk.stream = .output then w.output else w.error with
  | .stream s => (done.1, done.2 ++ [⟨s, chunk.bytes⟩])
  | .nowhere => done
  | .file p => (appendTo done.1 p chunk.bytes, done.2)

/-- An effect with all that is written led where it belongs. -/
def apply (w : Wiring) (e : Effect) : Effect :=
  let (disk, chunks) := e.chunks.foldl w.route (e.disk, [])
  { e with disk, chunks }

end Wiring

end Spruce.Tool.Shell
