import Spruce.Tool.Shell.Lexeme

/-!
# Scripts

A script is a list of pipelines, each of which runs always, or only after the success or the
failure of what ran before it. A pipeline consists of simple commands: words and redirections.
Nothing of a line that is malformed runs.
-/

namespace Spruce.Tool.Shell

/-- When a pipeline runs. -/
inductive Condition
  | always
  | afterSuccess
  | afterFailure
  deriving DecidableEq, Repr

/-- A redirection of a descriptor to what a word names. -/
structure Redirect where
  descriptor : Nat
  kind : Redirection
  target : List Part
  deriving DecidableEq, Repr

/-- A simple command: its words and its redirections. -/
structure Simple where
  words : List (List Part)
  redirects : List Redirect
  deriving DecidableEq, Repr

/-- A part of a script. -/
inductive Entry
  /-- Simple commands, the output of each the input of the next, on a numbered line. -/
  | pipeline (line : Nat) (condition : Condition) (commands : List Simple)
  /-- A line that is malformed. -/
  | malformed (line : Nat) (problem : Text)
  deriving DecidableEq, Repr

namespace Simple

/-- No command yet. -/
def empty : Simple := ⟨[], []⟩

/-- Whether there is neither a word nor a redirection. -/
def isEmpty (s : Simple) : Bool := s.words.isEmpty && s.redirects.isEmpty

/-- The simple command that lexemes without operators make up. -/
def ofLexemes : List Lexeme → Simple
  | .redirect descriptor kind :: .word target :: rest =>
    let s := ofLexemes rest
    { s with redirects := ⟨descriptor, kind, target⟩ :: s.redirects }
  | .word parts :: rest =>
    let s := ofLexemes rest
    { s with words := parts :: s.words }
  | _ :: rest => ofLexemes rest
  | [] => empty

end Simple

/-- The lexemes between the occurrences of one of them. -/
def splitLexemes (separator : Lexeme) : List Lexeme → List (List Lexeme)
  | [] => [[]]
  | lexeme :: rest =>
    if lexeme = separator then [] :: splitLexemes separator rest
    else
      match splitLexemes separator rest with
      | [] => [[lexeme]]
      | first :: others => (lexeme :: first) :: others

/-- The pipeline that lexemes make up, if there is a command in it. -/
def pipelineOf (line : Nat) (condition : Condition) (lexemes : List Lexeme) : List Entry :=
  match ((splitLexemes .pipe lexemes).map Simple.ofLexemes).filter (!·.isEmpty) with
  | [] => []
  | commands => [.pipeline line condition commands]

/-- The pipelines on a line, from the lexemes of the current one, in reverse, on. -/
def lineEntries (line : Nat) (condition : Condition) (current : List Lexeme) :
    List Lexeme → List Entry
  | [] => pipelineOf line condition current.reverse
  | .semicolon :: rest =>
    pipelineOf line condition current.reverse ++ lineEntries line .always [] rest
  | .ifOk :: rest =>
    pipelineOf line condition current.reverse ++ lineEntries line .afterSuccess [] rest
  | .ifFailed :: rest =>
    pipelineOf line condition current.reverse ++ lineEntries line .afterFailure [] rest
  | lexeme :: rest => lineEntries line condition (lexeme :: current) rest

/-- The problem of a line that is malformed. -/
def problem? : List Lexeme → Option Text
  | [] => none
  | .malformed problem :: _ => some problem
  | _ :: rest => problem? rest

/-- The parts of a script on numbered lines. -/
def entriesFrom (line : Nat) : List (List Lexeme) → List Entry
  | [] => []
  | lexemes :: rest =>
    match problem? lexemes with
    | some problem => [.malformed line problem]
    | none => lineEntries line .always [] lexemes ++ entriesFrom (line + 1) rest

/-- The parts of a script. -/
def entries (script : Text) : List Entry := entriesFrom 1 (splitLexemes .newline (lexemes script))

end Spruce.Tool.Shell
