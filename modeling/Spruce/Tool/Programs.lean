import Spruce.Tool.Escape

/-!
# Small programs

The programs that need nothing but their arguments and files: `true`, `false`, `echo`, `cat` and
`sleep`.
-/

namespace Spruce.Tool

/-! ### echo -/

/-- Whether an argument is a bundle of the options of `echo`. -/
def isEchoOption : Text → Bool
  | '-' :: c :: r => (c :: r).all fun c => c == 'n' || c == 'e' || c == 'E'
  | _ => false

/-- The options of `echo`: whether a newline ends the output, and whether escapes are resolved. -/
structure EchoStyle where
  newline : Bool
  escapes : Bool
  deriving DecidableEq, Repr

/-- The style after one more letter of an option. -/
def EchoStyle.next (style : EchoStyle) (c : Char) : EchoStyle :=
  if c = 'n' then { style with newline := false }
  else if c = 'e' then { style with escapes := true }
  else { style with escapes := false }

/-- The bytes that `echo` writes in a style. -/
def EchoStyle.bytes (style : EchoStyle) (words : List Text) : List UInt8 :=
  let line := Text.joinWith [' '] words
  let (body, ends) :=
    if style.escapes then Escape.resolve .afterZero line else (Tool.bytes line, false)
  if ends || !style.newline then body else body ++ [10]

/-- The program `echo`, with its options before the words. -/
def echo (d : Disk) (arguments : List Text) : Effect :=
  let options := (arguments.takeWhile isEchoOption).flatMap (·.drop 1)
  let style := options.foldl EchoStyle.next ⟨true, false⟩
  .output d (style.bytes (arguments.dropWhile isEchoOption))

/-! ### cat -/

/-- The wording of an error as programs give it. -/
def shortMessage : IoError → Text
  | .permissionDenied => "Permission denied".toList
  | .notDirectory => "Not a directory".toList
  | .isDirectory => "Is a directory".toList
  | .notExecutable => "Exec format error".toList
  | _ => "No such file or directory".toList

/-- The characters that make a name unfit to stand without quotes. -/
def needsQuotes (c : Char) : Bool := " !\x22$&'()*;<=>?[\\^\x60|".toList.contains c

/-- A file name as messages show it: between quotes where a shell would not take it as it is. -/
def shownName (name : Text) : Text :=
  if !name.isEmpty && !name.any needsQuotes then name
  else if !name.contains '\x27' then '\x27' :: name ++ ['\x27']
  else if !name.any "\x22$\\\x60!".toList.contains then '\x22' :: name ++ ['\x22']
  else '\x27' :: Text.replace ['\x27'] "'\\''".toList name ++ ['\x27']

/-- The piece that `cat` writes for one argument, and whether it went well. -/
def catOne (s : Setting) (argument : Text) : Chunk × Bool :=
  if argument = ['-'] then (⟨.output, s.input⟩, true)
  else
    match s.disk.read ⟨argument⟩ with
    | .ok content => (⟨.output, content.toList⟩, true)
    | .error e =>
      (⟨.error, bytes ("cat: ".toList ++ shownName argument ++ ": ".toList ++ shortMessage e ++
        ['\n'])⟩, false)

/-- The program `cat`, which writes files one after another. -/
def cat (s : Setting) (arguments : List Text) : Effect :=
  let names := if arguments.head? = some ['-', '-'] then arguments.drop 1 else arguments
  let parts := (if names.isEmpty then [['-']] else names).map (catOne s)
  ⟨s.disk, parts.map Prod.fst, if parts.all Prod.snd then 0 else 1, 0⟩

/-! ### sleep -/

/-- The milliseconds in a unit of time. -/
def unitOf? : Text → Option Nat
  | [] | ['s'] => some 1000
  | ['m'] => some 60000
  | ['h'] => some 3600000
  | ['d'] => some 86400000
  | _ => none

/-- A time in milliseconds: digits, perhaps a point and more digits, and a unit. -/
def time? (t : Text) : Option Nat :=
  let isDigit := fun c => (Text.digitValue? c).isSome
  let whole := t.takeWhile isDigit
  let rest := t.dropWhile isDigit
  let (fraction, unit) := match rest with
    | '.' :: r => (r.takeWhile isDigit, r.dropWhile isDigit)
    | _ => ([], rest)
  if whole.isEmpty && fraction.isEmpty then none
  else do
    let value ← Text.decimalFrom? 0 (whole ++ fraction)
    some (value * (← unitOf? unit) / Nat.pow 10 fraction.length)

/-- The second line of the complaints of `sleep`. -/
def sleepHint : Text := "\nTry 'sleep --help' for more information.".toList

/-- The program `sleep`, which sleeps for the sum of its arguments. -/
def sleep (d : Disk) (arguments : List Text) : Effect :=
  if arguments.isEmpty then .complaint d 1 ("sleep: missing operand".toList ++ sleepHint)
  else
    match arguments.find? fun argument => (time? argument).isNone with
    | some argument =>
      .complaint d 1
        ("sleep: invalid time interval '".toList ++ argument ++ ['\x27'] ++ sleepHint)
    | none => ⟨d, [], 0, (arguments.filterMap time?).foldr Nat.add 0⟩

/-! ### All of them -/

/-- What a small program does. -/
def runSmall? (s : Setting) (program : Text) (arguments : List Text) : Option Effect :=
  if program = "true".toList then some (.exit s.disk 0)
  else if program = "false".toList then some (.exit s.disk 1)
  else if program = "echo".toList then some (echo s.disk arguments)
  else if program = "cat".toList then some (cat s arguments)
  else if program = "sleep".toList then some (sleep s.disk arguments)
  else none

end Spruce.Tool
