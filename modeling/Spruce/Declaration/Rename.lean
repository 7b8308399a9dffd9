import Spruce.Text.CharClass

/-!
# Underscore names

A variable that cannot be removed is renamed by an underscore in front, at its first occurrence as
a whole identifier that is not a key. In an object pattern or an import list a bare name also says
which property is meant, so there the old name stays beside the new one.

Occurrences are looked at with the text before them reversed, nearest character first.
-/

namespace Spruce.Declaration

open Text

/-- The nearest bracket that is still open at the end of a text, given in reverse, when `depth`
closed brackets have been met on the way back. Kinds of brackets are not matched. -/
def enclosingFrom : Nat → Text → Option Char
  | _, [] => none
  | depth, c :: before =>
    if c = '}' ∨ c = ']' ∨ c = ')' then enclosingFrom (depth + 1) before
    else if c = '{' ∨ c = '[' ∨ c = '(' then
      match depth with
      | 0 => some c
      | depth + 1 => enclosingFrom depth before
    else enclosingFrom depth before

/-- The nearest bracket that is still open at the end of a text, given in reverse. -/
def enclosingOpener (before : Text) : Option Char := enclosingFrom 0 before

/-- What an occurrence of a name is. -/
inductive Occurrence
  /-- A name and nothing more. -/
  | plain
  /-- A name that is both the property and the variable. -/
  | shorthand
  /-- The name of a property only. -/
  | key
  deriving DecidableEq, Repr

/-- Whether a default value follows, and neither a comparison nor an arrow. -/
def startsDefault : Text → Bool
  | '=' :: '=' :: _ | '=' :: '>' :: _ => false
  | '=' :: _ => true
  | _ => false

/-- What the name between `before`, in reverse, and `after` is. -/
def occurrence (before after : Text) : Occurrence :=
  let near := trimStart before
  let next := trimStart after
  let inBraces := enclosingOpener before = some '{'
  if inBraces ∧ (next.head? = some ':' ∨ ['a', 's', ' '].isPrefixOf next) then .key
  else
    let opens := near.head? = some '{' ∨ near.head? = some ','
    let closes := next.head? = some ',' ∨ next.head? = some '}' ∨ startsDefault next
    if inBraces ∧ opens ∧ closes then .shorthand else .plain

/-- Whether no identifier goes on at the start of a text. -/
def endsIdentifier (t : Text) : Bool := !(t.head?.any isIdentifier)

/-- The word that begins an import. -/
def importWord : Text := "import".toList

/-- What an occurrence is renamed to on an import line or elsewhere; a key is not renamed. -/
def renamed? (isImport : Bool) (name : Text) : Occurrence → Option Text
  | .key => none
  | .plain => some ('_' :: name)
  | .shorthand =>
    if isImport then some (name ++ " as _".toList ++ name) else some (name ++ ": _".toList ++ name)

/-- What takes the place of the occurrence of a name between `before`, in reverse, and `after`. -/
def renamedBetween? (isImport : Bool) (name before after : Text) : Option Text :=
  if endsIdentifier before && endsIdentifier after then
    renamed? isImport name (occurrence before after)
  else none

/-- The line with the first eligible occurrence of a nonempty name renamed, where `before` is the
part already passed, in reverse. Occurrences do not overlap; the counter says how many characters
of the last one are still to be passed over. -/
def renameFrom (isImport : Bool) (name : Text) : Nat → Text → Text → Option Text
  | _, _, [] => none
  | passed + 1, before, c :: r => renameFrom isImport name passed (c :: before) r
  | 0, before, c :: r =>
    match name.isPrefixOf? (c :: r) with
    | none => renameFrom isImport name 0 (c :: before) r
    | some after =>
      match renamedBetween? isImport name before after with
      | some new => some (before.reverse ++ new ++ after)
      | none => renameFrom isImport name (name.length - 1) (c :: before) r

/-- The line with the variable `name` renamed, unless it has no eligible occurrence. -/
def addUnderscore? (line name : Text) : Option Text :=
  if name.isEmpty then none
  else renameFrom (importWord.isPrefixOf (trimStart line)) name 0 [] line

end Spruce.Declaration
