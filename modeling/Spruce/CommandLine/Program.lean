import Spruce.Cleanup.Report
import Spruce.CommandLine.Options
import Spruce.Locale.Report

/-!
# The program

The first argument chooses a tool, and the others are its options. What the program does is a
value: what it writes, its exit status, and the disk it leaves.
-/

namespace Spruce.CommandLine

/-- What the program finds beside its arguments: the disk, the bytes on its standard input,
whether it paints, and how the time it took and the threads it used are written. -/
structure Surroundings where
  disk : Disk
  input : ByteArray
  colour : Bool
  milliseconds : Text
  threads : Text

/-- What the program does. -/
structure Response where
  status : Nat
  output : Text
  error : Text
  disk : Disk

/-! ### Faults -/

/-- A text whose lines after the first are indented. -/
def indentTail (margin : Text) (t : Text) : Text :=
  Text.joinWith ('\n' :: margin) (Text.split '\n' t)

/-- A number in a column of five. -/
def columnNumber (n : Nat) : Text :=
  let digits := Text.ofNat n
  List.replicate (5 - digits.length) ' ' ++ digits

/-- The causes of a fault, numbered from `n`. -/
def numberedCauses (n : Nat) : List Text → Text
  | [] => []
  | cause :: rest =>
    '\n' :: columnNumber n ++ ": ".toList ++ indentTail (List.replicate 7 ' ') cause ++
      numberedCauses (n + 1) rest

/-- What is written below the wording of a fault about its causes. -/
def causeReport : List Text → Text
  | [] => []
  | [cause] =>
    "\n\nCaused by:\n    ".toList ++ indentTail (List.replicate 4 ' ') cause
  | causes => "\n\nCaused by:".toList ++ numberedCauses 0 causes

/-- What is written about a fault that ends the program. -/
def faultReport (f : Fault) : Text :=
  "Error: ".toList ++ f.chain.headD [] ++ causeReport (f.chain.drop 1) ++ ['\n']

/-! ### The tools -/

open Text Text.Report

/-- The mark before what the program says about itself. -/
def bullet (colour : Bool) : Text := paint colour [.brightBlue] ['●']

/-- The last line, about the time. -/
def closing (s : Surroundings) (details : Text) : Text :=
  row ('\n' :: bullet s.colour ++ " Finished in ".toList ++ paint s.colour [.cyan] s.milliseconds ++
    "ms".toList ++ details ++ ['.'])

/-- The report on a cleanup. -/
def cleanupOutput (s : Surroundings) (json : Bool) (summary : Cleanup.Summary) : Text :=
  if json then summary.jsonReport
  else
    summary.outcomeReport s.colour s.disk.currentPath ++ summary.countReport s.colour ++
      closing s []

/-- The cleanup of a project as the program does it. -/
def runCleanup (s : Surroundings) (o : Cleanup.Options) : Response :=
  let greeting :=
    if o.json then [] else row (bullet s.colour ++ " Fixing unused variables...".toList)
  match o.cleanProject s.disk s.input with
  | .error fault => ⟨1, greeting, faultReport fault, s.disk⟩
  | .ok (summary, disk) => ⟨0, greeting ++ cleanupOutput s o.json summary, [], disk⟩

/-- The report on an update. -/
def localeOutput (s : Surroundings) (json : Bool) (summary : Locale.Summary) : Text :=
  if json then summary.jsonReport
  else
    summary.fileReport s.colour s.disk.currentPath ++ summary.countReport s.colour ++
      closing s (" on ".toList ++ number s.colour [.cyan] summary.files.length ++
        " files (using ".toList ++ paint s.colour [.cyan] s.threads ++ " threads)".toList)

/-- The update of the locale files of a project as the program does it. -/
def runLocale (s : Surroundings) (o : Locale.Options) : Response :=
  match o.updateProject s.disk with
  | .error fault => ⟨1, [], faultReport fault, s.disk⟩
  | .ok (summary, disk) => ⟨0, localeOutput s o.json summary, [], disk⟩

/-! ### Usage -/

/-- The names of the tools. -/
def toolNames : List Text := ["unused-vars".toList, "locale".toList, "help".toList]

/-- How the program is used. -/
def usage : Text :=
  row "Fix lint warnings in JavaScript and TypeScript projects".toList ++ row [] ++
  row "Usage: spruce unused-vars [--root DIR] [--lint-command COMMAND] [--input FILE]".toList ++
  row "                          [--timeout-secs N] [--dry-run] [--json]".toList ++
  row "       spruce locale --patch FILE [--root DIR] [--dir DIR] [--overwrite]".toList ++
  row "                     [--dry-run] [--json]".toList

/-- The wording of what is wrong with a command line. -/
def UsageError.message : UsageError → Text
  | .unknownArgument => "unexpected argument".toList
  | .missingValue => "a value is required".toList
  | .invalidValue => "invalid value".toList
  | .repeated => "an argument cannot be used multiple times".toList
  | .missingParameter => "a required argument was not provided".toList
  | .unexpectedValue => "a value was not expected".toList
  | .help => "help was asked for".toList

/-- What the program does when it is not used as it should be, or is asked for help. -/
def refuse (d : Disk) : UsageError → Response
  | .help => ⟨0, usage, [], d⟩
  | e => ⟨2, [], row ("error: ".toList ++ e.message) ++ usage, d⟩

/-- What the program does with the arguments after `help`: the name of a tool may follow. -/
def runHelp (d : Disk) : List Text → Response
  | [] => refuse d .help
  | name :: _ => refuse d (if name ∈ toolNames then .help else .unknownArgument)

/-- Whether some arguments ask for the standard input. -/
def wantsInput (arguments : List Text) : Bool :=
  arguments.contains Cleanup.Options.standardInput || arguments.contains "--input=-".toList

/-- What the program does. -/
def run (s : Surroundings) : List Text → Response
  | [] => refuse s.disk .missingParameter
  | tool :: arguments =>
    if tool = "unused-vars".toList then
      match Cleanup.Options.ofArguments arguments with
      | .ok o => runCleanup s o
      | .error e => refuse s.disk e
    else if tool = "locale".toList then
      match Locale.Options.ofArguments arguments with
      | .ok o => runLocale s o
      | .error e => refuse s.disk e
    else if tool = "help".toList then runHelp s.disk arguments
    else if shapeOf tool = .long "help".toList none ∨ shapeOf tool = .short 'h' then
      refuse s.disk .help
    else refuse s.disk .unknownArgument

end Spruce.CommandLine
