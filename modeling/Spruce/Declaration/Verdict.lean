import Spruce.Text.CharClass

/-!
# Verdicts on declarations

Whether the line that declares an unused variable may be deleted, judged by that line alone. The
grounds against deletion are tried in a fixed order and the first one that applies is the verdict;
only a line with a recognised shape and no ground against it is safe.
-/

namespace Spruce.Declaration

open Text

/-- What is known of a line that declares an unused variable. -/
inductive Verdict
  | safeToRemove
  | alreadyPrefixed
  | frameworkHook
  | multiParamFunction
  | asyncOperation
  | spread
  | multipleDeclarators
  | unrecognizedShape
  deriving DecidableEq, Repr

/-- Whether `test` holds of some suffix of a text. -/
def anySuffix (test : Text → Bool) : Text → Bool
  | [] => test []
  | c :: r => test (c :: r) || anySuffix test r

/-! ### Framework hooks -/

/-- The names, beside the `on…` handlers, under which a component framework finds its hooks. -/
def hookNames : List Text :=
  ["mounted".toList, "unmounted".toList, "created".toList, "destroyed".toList, "setup".toList,
    "watch".toList, "computed".toList]

/-- Whether blanks lead to a colon or an opening parenthesis. -/
def opensHook (t : Text) : Bool :=
  match trimStart t with
  | c :: _ => c == ':' || c == '('
  | [] => false

/-- Whether a text begins with an event handler such as `onClick`, and its colon or parenthesis. -/
def startsHandler : Text → Bool
  | 'o' :: 'n' :: c :: r => ('A' ≤ c && c ≤ 'Z') && opensHook (r.dropWhile isWord)
  | _ => false

/-- Whether a text begins with a hook, and its colon or parenthesis. -/
def startsHook (t : Text) : Bool :=
  startsHandler t || hookNames.any fun name =>
    match name.isPrefixOf? t with
    | some r => opensHook r
    | none => false

/-- Whether a hook occurs on the line. -/
def mentionsHook (line : Text) : Bool := anySuffix startsHook line

/-! ### Functions of several parameters -/

/-- Neither kind of round parenthesis. -/
def isInsideParens (c : Char) : Bool := c != '(' && c != ')'

/-- Whether a text begins with `=>`. -/
def startsArrow (t : Text) : Bool := ['=', '>'].isPrefixOf t

/-- Whether an arrow follows, perhaps after a return type, which has no `=` in it. -/
def leadsToArrow (t : Text) : Bool :=
  match trimStart t with
  | ':' :: r => !(r.takeWhile (· != '=')).isEmpty && startsArrow (r.dropWhile (· != '='))
  | r => startsArrow r

/-- Whether a text begins with the parameters of an arrow function that has at least two. -/
def startsArrowFunction : Text → Bool
  | '(' :: r =>
    match r.dropWhile isInsideParens with
    | ')' :: after => (r.takeWhile isInsideParens).contains ',' && leadsToArrow after
    | _ => false
  | _ => false

/-- The word that begins a function. -/
def functionWord : Text := "function".toList

/-- Whether a text begins with the whole word `function` and a parameter list with a comma. -/
def startsFunction (t : Text) : Bool :=
  match functionWord.isPrefixOf? t with
  | none => false
  | some r =>
    !(r.head?.any isWord) &&
      match r.dropWhile (· != '(') with
      | _ :: parameters => (parameters.takeWhile (· != ')')).contains ','
      | [] => false

/-- Whether a function of several parameters begins somewhere in a text; `inWord` says whether a
word character stands before the text. -/
def mentionsFunctionAfter : Bool → Text → Bool
  | _, [] => false
  | inWord, c :: r =>
    startsArrowFunction (c :: r) || (!inWord && startsFunction (c :: r)) ||
      mentionsFunctionAfter (isWord c) r

/-- Whether a function of several parameters begins on the line. -/
def mentionsMultiParamFunction (line : Text) : Bool := mentionsFunctionAfter false line

/-! ### Asynchronous work and spread -/

/-- The marks of asynchronous work. -/
def asyncMarks : List Text :=
  ["async".toList, "await".toList, ".then".toList, ".catch".toList]

/-- The mark of spread and rest. -/
def spreadMark : Text := "...".toList

/-! ### Shapes -/

/-- The words that begin a declaration. -/
def declarators : List Text := ["const".toList, "let".toList, "var".toList]

/-- Whether an initializer follows an `=`: something on one line, perhaps after blank lines. -/
def isInitializer (t : Text) : Bool :=
  match splitLast '\n' t with
  | none => !t.isEmpty
  | some (above, last) => above.all isBlank && !last.isEmpty

/-- Whether a type annotation or nothing, an `=` and an initializer follow the declared name. -/
def isInitialized (t : Text) : Bool :=
  match trimStart t with
  | '=' :: r => isInitializer r
  | ':' :: r =>
    !(r.takeWhile (· != '=')).isEmpty &&
      match r.dropWhile (· != '=') with
      | _ :: init => isInitializer init
      | [] => false
  | _ => false

/-- Whether a text is blanks, at least one, and then the name with its initializer. -/
def declaresAfterBlanks (name : Text) : Text → Bool
  | [] => false
  | c :: r =>
    isBlank c &&
      ((match name.isPrefixOf? r with
        | some rest => isInitialized rest
        | none => false) || declaresAfterBlanks name r)

/-- Whether the line begins with a declaration of `name` that has an initializer. -/
def declares (name line : Text) : Bool :=
  declarators.any fun word =>
    match word.isPrefixOf? (trimStart line) with
    | some r => declaresAfterBlanks name r
    | none => false

/-- Whether the line is a declaration of `name`, perhaps along with others, and has no braces. -/
def hasDeclarationShape (line name : Text) : Bool :=
  !line.contains '{' && !line.contains '}' && declares name line

/-- Where a scan for commas stands: in a string that ends with the given quote, perhaps right
after a backslash, or outside strings at a depth of brackets. -/
inductive Scan
  | quoted (quote : Char) (escaped : Bool) (depth : Nat)
  | code (depth : Nat)
  deriving DecidableEq, Repr

/-- Whether a character begins a string: an apostrophe, a quotation mark or a backquote. -/
def isQuote (c : Char) : Bool := c == '\x27' || c == '\x22' || c == '\x60'

/-- Whether a character opens a bracket. -/
def isOpening (c : Char) : Bool := c == '(' || c == '[' || c == '{'

/-- Whether a character closes a bracket. -/
def isClosing (c : Char) : Bool := c == ')' || c == ']' || c == '}'

/-- Whether a comma stands outside strings and brackets. A closing bracket that nothing opened
does not count. -/
def hasTopLevelComma : Scan → Text → Bool
  | _, [] => false
  | .quoted quote escaped depth, c :: r =>
    if escaped then hasTopLevelComma (.quoted quote false depth) r
    else if c = '\\' then hasTopLevelComma (.quoted quote true depth) r
    else if c = quote then hasTopLevelComma (.code depth) r
    else hasTopLevelComma (.quoted quote false depth) r
  | .code depth, c :: r =>
    if isQuote c then hasTopLevelComma (.quoted c false depth) r
    else if isOpening c then hasTopLevelComma (.code (depth + 1)) r
    else if isClosing c then hasTopLevelComma (.code (depth - 1)) r
    else if c = ',' ∧ depth = 0 then true
    else hasTopLevelComma (.code depth) r

/-- Whether the initializer, the text after the first `=`, goes on with another declarator. -/
def declaresSeveral (line : Text) : Bool :=
  match splitFirst '=' line with
  | some (_, init) => hasTopLevelComma (.code 0) init
  | none => false

/-- Whether the line declares `name` and nothing else. -/
def isStandalone (line name : Text) : Bool :=
  hasDeclarationShape line name && !declaresSeveral line

/-- Whether the line takes an object apart outside any call. -/
def isDestructuring (line : Text) : Bool :=
  line.contains '{' && line.contains '}' && line.contains '=' &&
    !(line.contains '(' && line.contains ')')

/-! ### The verdict -/

/-- The verdict on the line for the unused variable `name`. -/
def verdict (line name : Text) : Verdict :=
  if name.head? = some '_' then .alreadyPrefixed
  else if mentionsHook line then .frameworkHook
  else if mentionsMultiParamFunction line then .multiParamFunction
  else if asyncMarks.any fun mark => holds mark line then .asyncOperation
  else if holds spreadMark line then .spread
  else if hasDeclarationShape line name && declaresSeveral line then .multipleDeclarators
  else if isStandalone line name || isDestructuring line then .safeToRemove
  else .unrecognizedShape

/-- Whether the line may be deleted or cut for the unused variable `name`. -/
def isSafeToRemove (line name : Text) : Bool := verdict line name = .safeToRemove

end Spruce.Declaration
