import Spruce.Text.CharClass

/-!
# Elements of object patterns

An element of an object pattern is a name, perhaps with a key before it and a default after it,
between two delimiters. Cutting the element that binds a name keeps one of the delimiters and then
joins what is left: doubled commas become one, and a comma next to a brace disappears. A cut that
would empty a pair of braces is refused.
-/

namespace Spruce.Declaration

open Text

/-- The ways to split off the start of a text within a class of characters, the longest first. -/
def splitsDown (p : Char → Bool) : Text → List (Text × Text)
  | [] => [([], [])]
  | c :: r =>
    if p c then (splitsDown p r).map (fun (run, rest) => (c :: run, rest)) ++ [([], c :: r)]
    else [([], c :: r)]

/-- The ways to split off a nonempty start of a text within a class of characters, the shortest
first. -/
def splitsUp (p : Char → Bool) : Text → List (Text × Text)
  | [] => []
  | c :: r =>
    if p c then ([c], r) :: (splitsUp p r).map fun (run, rest) => (c :: run, rest) else []

/-- The end of an element: blanks, a comma or closing brace, and the spaces and tabs after it. -/
structure Closing where
  tail : Text
  delimiter : Char
  after : Text
  rest : Text
  deriving DecidableEq, Repr

/-- The spaces and tabs that belong to a delimiter. -/
def isSpaceOrTab (c : Char) : Bool := c == ' ' || c == '\t'

/-- The end of an element at the start of a text. -/
def closing? (t : Text) : Option Closing :=
  match t.dropWhile isBlank with
  | c :: r =>
    if c = ',' ∨ c = '}' then
      some ⟨t.takeWhile isBlank, c, r.takeWhile isSpaceOrTab, r.dropWhile isSpaceOrTab⟩
    else none
  | [] => none

/-- The characters of a default value. -/
def isDefaultChar (c : Char) : Bool := c != ',' && c != '{' && c != '}'

/-- The end of an element at whose start a default value stands. The value is as short as the end
allows. -/
def closingAfterDefault? (t : Text) : Option Closing :=
  match t.dropWhile isBlank with
  | '=' :: r =>
    (splitsDown isBlank r).findSome? fun (_, value) =>
      (splitsUp isDefaultChar value).findSome? fun (_, rest) => closing? rest
  | _ => none

/-- The end of the element whose name stands at the start of a text. -/
def closingAfterName? (name t : Text) : Option Closing :=
  match name.isPrefixOf? t with
  | some r => closingAfterDefault? r <|> closing? r
  | none => none

/-- The characters that begin a key. -/
def isKeyStart (c : Char) : Bool := isAsciiLetter c || c == '_' || c == '$'

/-- The characters that continue a key. -/
def isKeyPart (c : Char) : Bool := isWord c || c == '$'

/-- The end of the element whose key and name stand at the start of a text. -/
def closingAfterKey? (name : Text) : Text → Option Closing
  | [] => none
  | c :: r =>
    if isKeyStart c then
      match (r.dropWhile isKeyPart).dropWhile isBlank with
      | ':' :: after =>
        (splitsDown isBlank after).findSome? fun (_, rest) => closingAfterName? name rest
      | _ => none
    else none

/-- An element that binds a name: what stands before its first delimiter, that delimiter, the
blanks after it, and its end. -/
structure Element where
  before : Text
  opener : Char
  lead : Text
  closing : Closing
  deriving DecidableEq, Repr

/-- The element that binds `name` and whose first delimiter starts a text. As many blanks as
possible belong to the delimiter, and a key is preferred to none. -/
def elementAt? (name : Text) : Text → Option Element
  | [] => none
  | c :: r =>
    if c = '{' ∨ c = ',' then
      (splitsDown isBlank r).findSome? fun (lead, rest) =>
        (closingAfterKey? name rest <|> closingAfterName? name rest).map fun closing =>
          ⟨[], c, lead, closing⟩
    else none

/-- The first element that binds `name`. -/
def element? (name : Text) : Text → Option Element
  | [] => none
  | c :: r =>
    elementAt? name (c :: r) <|>
      (element? name r).map fun e => { e with before := c :: e.before }

/-- The line without an element. The first element of a pattern leaves its opening brace, an inner
one its leading comma, and the last one the closing brace; a sole element stays. -/
def Element.cut? (e : Element) : Option Text :=
  let rest := e.closing.rest
  if e.opener = '{' then
    if e.closing.delimiter = '}' then none else some (e.before ++ '{' :: e.lead ++ rest)
  else if e.closing.delimiter = ',' then some (e.before ++ ',' :: e.closing.after ++ rest)
  else some (e.before ++ e.closing.tail ++ '}' :: e.closing.after ++ rest)

/-- The number of characters up to and including `last`, if only blanks stand before it. -/
def pairLength? (last : Char) (t : Text) : Option Nat :=
  match t.dropWhile isBlank with
  | c :: _ => if c = last then some ((t.takeWhile isBlank).length + 1) else none
  | [] => none

/-- Every pair of `first` and `last` with only blanks between them replaced by `new`, from left to
right and without overlap. The counter says how many characters of the last pair are still to be
passed over. -/
def replacePairFrom (first last : Char) (new : Text) : Nat → Text → Text
  | _, [] => []
  | passed + 1, _ :: r => replacePairFrom first last new passed r
  | 0, c :: r =>
    if c = first then
      match pairLength? last r with
      | some length => new ++ replacePairFrom first last new length r
      | none => c :: replacePairFrom first last new 0 r
    else c :: replacePairFrom first last new 0 r

/-- Every pair of `first` and `last` with only blanks between them replaced by `new`. -/
def replacePair (first last : Char) (new t : Text) : Text := replacePairFrom first last new 0 t

/-- Whether `first` and `last` stand somewhere with only blanks between them. -/
def holdsPair (first last : Char) : Text → Bool
  | [] => false
  | c :: r => (c = first && (pairLength? last r).isSome) || holdsPair first last r

/-- A cut line with its commas in order: no two in a row, none next to a brace. -/
def joinCommas (t : Text) : Text :=
  replacePair ',' '}' [' ', '}'] <| replacePair '{' ',' ['{', ' '] <| replacePair ',' ',' [','] t

/-- The line without the element that binds `name`, unless there is none or its pattern would be
left empty. -/
def removeElement? (line name : Text) : Option Text :=
  (element? name line).bind fun e =>
    e.cut?.bind fun cut =>
      let updated := joinCommas cut
      if updated = line ∨ (holdsPair '{' '}' updated ∧ !holdsPair '{' '}' line) then none
      else some updated

end Spruce.Declaration
