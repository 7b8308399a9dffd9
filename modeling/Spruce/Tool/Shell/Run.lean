import Spruce.Tool.Programs
import Spruce.Tool.Shell.State

/-!
# Running scripts

The commands of a script run one after another. Some commands are the shell's own, since they
change its state or differ from the programs of the same name; a shell inside a shell runs with one
level of nesting less.
-/

namespace Spruce.Tool.Shell

/-- How a shell runs another one. -/
abbrev Nested := Setting → List Text → Effect

namespace State

/-! ### The shell's own commands -/

/-- `echo`, which always resolves escapes and knows one option. -/
def echo (st : State) (arguments : List Text) : Effect :=
  let quiet := arguments.head? == some ['-', 'n']
  let style : EchoStyle := ⟨!quiet, true⟩
  .output st.disk (style.bytes (if quiet then arguments.drop 1 else arguments))

/-- What `printf` writes for a format and as many arguments as it takes, and the arguments left. -/
def format : Text → List Text → List UInt8 × List Text
  | [], arguments => ([], arguments)
  | '%' :: '%' :: r, arguments =>
    let (rest, left) := format r arguments
    (0x25 :: rest, left)
  | '%' :: 's' :: r, arguments =>
    let (rest, left) := format r (arguments.drop 1)
    (bytes (arguments.headD []) ++ rest, left)
  | c :: r, arguments =>
    let (rest, left) := format r arguments
    (bytes [c] ++ rest, left)

/-- `printf`, which repeats its format as long as arguments are left; each round takes one of
`bound`. -/
def printf (bound : Nat) (pattern : Text) (arguments : List Text) : List UInt8 :=
  match bound with
  | 0 => []
  | bound + 1 =>
    let (written, left) := format pattern arguments
    if left.isEmpty || left.length == arguments.length then written
    else written ++ printf bound pattern left

/-- The format of `printf` with its escapes resolved. -/
def formatText (t : Text) : Text :=
  Text.decodeLossy (ByteArray.mk (Escape.resolve .plain t).1.toArray)

/-- The state in another directory. -/
def changeDirectory (st : State) (line : Nat) (target : Text) : State :=
  match st.disk.locate ⟨target⟩ with
  | .ok (place, .directory) => { st with disk := { st.disk with current := place }, status := 0 }
  | _ => st.complain line 2 ("cd: can't cd to ".toList ++ target)

/-- The state after `exit`. -/
def leave (st : State) (line : Nat) : List Text → State
  | [] => { st with exited := true }
  | code :: _ =>
    match Text.decimalFrom? 0 code with
    | some n => { st with exited := true, status := n % 256 }
    | none => { st.complain line 2 ("exit: Illegal number: ".toList ++ code) with exited := true }

/-! ### Other commands -/

/-- The name of a program without the directory in which programs are found. -/
def programName (program : Text) : Text :=
  match "/bin/".toList.isPrefixOf? program, "/usr/bin/".toList.isPrefixOf? program with
  | some name, _ | _, some name => name
  | none, none => program

/-- What a command does that is not the shell's own, if it is found. -/
def external? (nested : Nested) (s : Setting) (program : Text) (arguments : List Text) :
    Option Effect :=
  if programName program = "sh".toList then some (nested s arguments)
  else runSmall? s (programName program) arguments

/-- The state after an effect of a command. -/
def absorb (st : State) (w : Wiring) (e : Effect) : State :=
  let led := w.apply e
  { st with
    disk := { led.disk with current := st.disk.current }
    chunks := st.chunks ++ led.chunks
    slept := st.slept + led.slept
    status := led.status }

/-- The state after a command with its words. -/
def runCommand (nested : Nested) (st : State) (line : Nat) (w : Wiring) (program : Text)
    (arguments : List Text) : State :=
  let here := { st with disk := w.disk }
  if program = [':'] then { here with status := 0 }
  else if program = "cd".toList then
    match arguments with
    | [] => { here with status := 0 }
    | target :: _ => here.changeDirectory line target
  else if program = "exit".toList then here.leave line arguments
  else if program = "pwd".toList then
    here.absorb w (.output here.disk (bytes (here.disk.currentPath.spelling ++ ['\n'])))
  else if program = "echo".toList then here.absorb w (here.echo arguments)
  else if program = "printf".toList then
    let rest := arguments.drop 1
    here.absorb w
      (.output here.disk (printf (rest.length + 1) (formatText (arguments.headD [])) rest))
  else
    match external? nested ⟨here.disk, w.input⟩ program arguments with
    | some e => here.absorb w e
    | none =>
      let found := program.contains '/' && here.disk.has ⟨program⟩
      let (status, problem) :=
        if found then (126, ": Permission denied") else (127, ": not found")
      let complaint := ({ here with chunks := [] }.complain line status
        (program ++ problem.toList)).effect
      here.absorb w { complaint with slept := 0 }

/-- A word that gives a variable its value: the name and the parts of the value. -/
def assignment? : List Part → Option (Text × List Part)
  | .text t :: rest =>
    match Text.splitFirst '=' t with
    | some (c :: name, value) =>
      if isNameStart c && name.all isNamePart then some (c :: name, .text value :: rest) else none
    | _ => none
  | _ => none

/-- The state after a simple command on a line. -/
def runSimple (nested : Nested) (st : State) (line : Nat) (command : Simple) : State :=
  match Wiring.redirectAll st (.plain st) command.redirects with
  | .error message => st.complain line 2 message
  | .ok w =>
    match command.words.dropWhile (fun word => (assignment? word).isSome) with
    | [] =>
      let values := (command.words.filterMap assignment?).map fun (name, value) =>
        (name, st.expandWhole value)
      { st with disk := w.disk, bindings := values.reverse ++ st.bindings, status := 0 }
    | words =>
      match words.flatMap st.expand with
      | [] => { st with disk := w.disk, status := 0 }
      | program :: arguments => st.runCommand nested line w program arguments

/-- The state with success for failure and failure for success. -/
def negate (st : State) : State := { st with status := if st.status = 0 then 1 else 0 }

/-- The word that negates a pipeline. -/
def negation : List Part := [.text ['!']]

/-- The state after a pipeline. What each command but the last writes to its output is the input
of the next. -/
def runPipeline (nested : Nested) (line : Nat) : State → List Simple → State
  | st, [] => st
  | st, [command] => st.runSimple nested line command
  | st, command :: rest =>
    let after := { st with chunks := [] }.runSimple nested line command
    let next := runPipeline nested line
      { st with
        disk := { after.disk with current := st.disk.current }
        input := after.effect.written .output
        chunks := st.chunks ++ after.chunks.filter fun chunk => chunk.stream = .error
        slept := after.slept } rest
    { next with input := st.input }

/-- Whether a pipeline runs in a state. -/
def runs (st : State) : Condition → Bool
  | .always => true
  | .afterSuccess => st.status = 0
  | .afterFailure => st.status ≠ 0

/-- The state after a part of a script. -/
def runEntry (nested : Nested) (st : State) (entry : Entry) : State :=
  if st.exited then st
  else
    match entry with
    | .malformed line problem => { st.complain line 2 problem with exited := true }
    | .pipeline line condition commands =>
      if st.runs condition then
        match commands with
        | ⟨first :: words, redirects⟩ :: rest =>
          if first = negation then (runPipeline nested line st (⟨words, redirects⟩ :: rest)).negate
          else runPipeline nested line st commands
        | _ => runPipeline nested line st commands
      else st

/-- What a script does. -/
def runScript (nested : Nested) (s : Setting) (arguments : List Text) (script : Text) : Effect :=
  ((entries script).foldl (runEntry nested) (start s arguments)).effect

end State

/-! ### The program -/

/-- Whether an argument is an option. -/
def isOption : Text → Bool
  | '-' :: _ :: _ => true
  | _ => false

/-- The program `sh`: the script is an argument, a file, or the input. -/
def run : Nat → Nested
  | 0, s, _ => .complaint s.disk 2 "sh: too many shells inside one another".toList
  | depth + 1, s, arguments =>
    let options := arguments.takeWhile isOption
    let rest := arguments.dropWhile isOption
    let name := "sh".toList
    let script := State.runScript (run depth) s
    if options.any fun option => option.contains 'c' then
      match rest with
      | [] => .complaint s.disk 2 "sh: 0: -c requires an argument".toList
      | t :: [] => script [name] t
      | t :: others => script others t
    else
      match rest with
      | [] => script [name] (Text.decodeLossy (ByteArray.mk s.input.toArray))
      | file :: others =>
        match s.disk.read ⟨file⟩ with
        | .ok content => script (file :: others) (Text.decodeLossy content)
        | .error _ =>
          .complaint s.disk 2 ("sh: 0: cannot open ".toList ++ file ++ ": No such file".toList)

/-- How deep shells may run inside one another. -/
def nestingLimit : Nat := 32

end Spruce.Tool.Shell
