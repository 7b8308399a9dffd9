import Spruce.Text.Basic

/-!
# Arguments

A command line names its parameters by words with two hyphens. A flag stands alone; the value of
any other parameter follows after an equals sign or as the next argument. A value that comes as the
next argument is looked at only once something else has been understood, so that an argument that
is unknown is reported first.
-/

namespace Spruce.CommandLine

/-- What is wrong with a command line, or that help is asked for. -/
inductive UsageError
  | unknownArgument
  | missingValue
  | invalidValue
  | repeated
  | missingParameter
  | unexpectedValue
  | help
  deriving DecidableEq, Repr

/-- What a parameter takes. -/
inductive Kind
  | flag
  /-- A text that is not empty. -/
  | path
  | text
  /-- A 64-bit number in decimal digits, perhaps after a plus sign. -/
  | number
  deriving DecidableEq, Repr

/-- A parameter and its name without the hyphens. -/
structure Parameter where
  name : Text
  kind : Kind
  required : Bool
  deriving DecidableEq, Repr

/-- The value of a number. -/
def numberValue? : Text → Option Nat
  | '+' :: r => Text.word64? r
  | t => Text.word64? t

/-- What is wrong with a value for a kind of parameter. -/
def Kind.problem? : Kind → Text → Option UsageError
  | .path, t => if t.isEmpty then some .missingValue else none
  | .number, t => if (numberValue? t).isSome then none else some .invalidValue
  | _, _ => none

/-- What an argument looks like. -/
inductive Shape
  | separator
  | long (name : Text) (value : Option Text)
  | short (first : Char)
  | plain
  deriving DecidableEq, Repr

/-- What an argument looks like. A lone hyphen is plain. -/
def shapeOf : Text → Shape
  | ['-', '-'] => .separator
  | '-' :: '-' :: r =>
    match Text.splitFirst '=' r with
    | some (name, value) => .long name (some value)
    | none => .long r none
  | '-' :: c :: _ => .short c
  | _ => .plain

/-- The values that have been given, and a parameter that was named last and may lack its
value. -/
structure Given where
  values : List (Text × Text)
  pending : Option (Parameter × Option Text)
  deriving DecidableEq, Repr

namespace Given

/-- Nothing has been given. -/
def nothing : Given := ⟨[], none⟩

/-- One more value. -/
def accept (g : Given) (p : Parameter) (value : Text) : Except UsageError Given :=
  if (g.values.lookup p.name).isSome then .error .repeated
  else
    match p.kind.problem? value with
    | some problem => .error problem
    | none => .ok { g with values := g.values ++ [(p.name, value)] }

/-- The parameter that was named last, with its value, among the others. -/
def settle (g : Given) : Except UsageError Given :=
  match g.pending with
  | none => .ok g
  | some (_, none) => .error .missingValue
  | some (p, some value) => { g with pending := none }.accept p value

/-- What is given once a parameter has been named, perhaps with a value. -/
def name (g : Given) (p : Parameter) (value : Option Text) : Except UsageError Given :=
  match p.kind, value with
  | .flag, some _ => .error .unexpectedValue
  | .flag, none => g.settle.bind fun g => g.accept p []
  | _, some value => g.settle.bind fun g => g.accept p value
  | _, none => g.settle.map fun g => { g with pending := some (p, none) }

/-- What is given once help has been asked for. -/
def askForHelp (g : Given) (value : Option Text) : Except UsageError Given :=
  if value.isSome then .error .unexpectedValue else g.settle.bind fun _ => .error .help

/-- What is given once one more argument has been read. -/
def next (g : Given) (parameters : List Parameter) (argument : Text) : Except UsageError Given :=
  match shapeOf argument with
  | .long name value =>
    match parameters.find? fun p => p.name = name with
    | some p => g.name p value
    | none => if name = "help".toList then g.askForHelp value else .error .unknownArgument
  | .short c => if c = 'h' then g.askForHelp none else .error .unknownArgument
  | .separator | .plain =>
    match g.pending with
    | some (p, none) => .ok { g with pending := some (p, some argument) }
    | _ => .error .unknownArgument

/-- What is given once all arguments have been read. Nothing may follow the separator. -/
def readAll (parameters : List Parameter) : Given → List Text → Except UsageError Given
  | g, [] => g.settle
  | g, argument :: rest =>
    if shapeOf argument = .separator then
      if rest.isEmpty then g.settle else .error .unknownArgument
    else
      match g.next parameters argument with
      | .error e => .error e
      | .ok g => readAll parameters g rest

/-- The value of a parameter. -/
def value? (g : Given) (name : String) : Option Text := g.values.lookup name.toList

/-- Whether a flag is given. -/
def has (g : Given) (name : String) : Bool := (g.value? name).isSome

end Given

/-- What some arguments give for some parameters. -/
def readArguments (parameters : List Parameter) (arguments : List Text) :
    Except UsageError Given :=
  match Given.readAll parameters .nothing arguments with
  | .error e => .error e
  | .ok g =>
    if parameters.any fun p => p.required && (g.values.lookup p.name).isNone then
      .error .missingParameter
    else .ok g

end Spruce.CommandLine
