import Spruce.Ignore.Glob.Basic

/-!
# Reading globs

A glob is read character by character. Braces open a group of alternatives, inside which commas
separate; what has been read of the open groups is kept on a stack. Two stars are directories only
where they stand as a whole component. A bracket that is not closed is an ordinary character.
-/

namespace Spruce.Ignore

/-- What is wrong with a glob. -/
inductive GlobError
  | unopenedGroup
  | unclosedGroup
  | danglingEscape
  | invalidRange (first last : Char)
  deriving DecidableEq, Repr

/-- The wording of an error in a glob. -/
def GlobError.message : GlobError → Text
  | .unopenedGroup =>
    "unopened alternate group; missing '\x7b' (maybe escape '\x7d' with '[\x7d]'?)".toList
  | .unclosedGroup =>
    "unclosed alternate group; missing '\x7d' (maybe escape '\x7b' with '[\x7b]'?)".toList
  | .danglingEscape => "dangling '\\'".toList
  | .invalidRange first last =>
    "invalid range; '".toList ++ first :: "' > '".toList ++ last :: ['\x27']

namespace Glob

/-- The bytes of a character. -/
def bytesOf (c : Char) : List UInt8 := (Text.encode [c]).toList

/-- The token that matches one character. -/
def literalToken (c : Char) : Token := .literal (bytesOf c)

/-! ### Classes -/

/-- The ranges of bytes that a range of characters stands for: from the last byte of the first
character to the first byte of the last one, and the other bytes of both. -/
def byteRanges (range : Char × Char) : List (UInt8 × UInt8) :=
  let single (b : UInt8) : UInt8 × UInt8 := (b, b)
  if range.1 = range.2 then (bytesOf range.1).map single
  else
    match (bytesOf range.1).reverse, bytesOf range.2 with
    | low :: before, high :: after =>
      before.reverse.map single ++ (low, high) :: after.map single
    | _, _ => []

/-- Where the reading of a class stands: its ranges in reverse, and whether the last one waits for
its end. -/
structure ClassDraft where
  ranges : List (Char × Char)
  pending : Bool

/-- The class once one more character has been read. -/
def ClassDraft.next (draft : ClassDraft) (c : Char) : Except GlobError ClassDraft :=
  match draft.pending, draft.ranges with
  | true, (first, _) :: others =>
    if c < first then .error (.invalidRange first c) else .ok ⟨(first, c) :: others, false⟩
  | _, ranges =>
    if c = '-' ∧ !ranges.isEmpty then .ok ⟨ranges, true⟩ else .ok ⟨(c, c) :: ranges, false⟩

/-- The class whose beginning has been read, and the number of its characters; there is none if it
is not closed. -/
def readClassFrom (draft : ClassDraft) (count : Nat) :
    Text → Except GlobError (Option (List (Char × Char) × Nat))
  | [] => .ok none
  | c :: r =>
    if c = ']' ∧ !draft.ranges.isEmpty then
      let ranges := if draft.pending then ('-', '-') :: draft.ranges else draft.ranges
      .ok (some (ranges.reverse, count + 1))
    else
      match draft.next c with
      | .error e => .error e
      | .ok draft => readClassFrom draft (count + 1) r

/-- The class whose opening bracket has been read, and the number of its characters; there is none
if it is not closed. -/
def readClass (t : Text) : Except GlobError (Option (Token × Nat)) :=
  let negated := t.head? == some '!' || t.head? == some '^'
  let marks := if negated then 1 else 0
  (readClassFrom ⟨[], false⟩ marks (t.drop marks)).map fun found =>
    found.map fun (ranges, count) => (.set negated (ranges.flatMap byteRanges), count)

/-! ### Tokens -/

/-- What has been read of a glob: the tokens of the innermost group, in reverse; for each group
around it the alternatives and tokens so far, in reverse; and whether brackets are ordinary. -/
structure Draft where
  tokens : List Token
  outer : List (List (List Token) × List Token)
  plainBrackets : Bool

namespace Draft

/-- Nothing has been read. -/
def empty : Draft := ⟨[], [], false⟩

/-- One more token. -/
def push (d : Draft) (token : Token) : Draft := { d with tokens := token :: d.tokens }

/-- Whether a group is open. -/
def inGroup (d : Draft) : Bool := !d.outer.isEmpty

/-- A group opens. -/
def openGroup (d : Draft) : Draft := { d with tokens := [], outer := ([], d.tokens) :: d.outer }

/-- The next alternative of the innermost group begins. -/
def nextAlternative (d : Draft) : Draft :=
  match d.outer with
  | [] => d.push (literalToken ',')
  | (alternatives, before) :: outer =>
    { d with tokens := [], outer := (d.tokens.reverse :: alternatives, before) :: outer }

/-- The innermost group closes. -/
def closeGroup (d : Draft) : Except GlobError Draft :=
  match d.outer with
  | [] => .error .unopenedGroup
  | (alternatives, before) :: outer =>
    let choice := Token.choiceOf (d.tokens.reverse :: alternatives).reverse
    .ok { d with tokens := choice :: before, outer }

/-- Directories in place of the slash that was read last. Directories that are already there stay
alone. -/
def pushDirectories (d : Draft) (token : Token) : Draft :=
  match d.tokens with
  | .leading :: _ | .trailing :: _ => d
  | _ :: tokens => { d with tokens := token :: tokens }
  | [] => d

/-- Two stars that stand for no directories. -/
def pushRuns (d : Draft) : Draft := (d.push .run).push .run

/-- Two stars before `next`, and the number of characters that belong to them after the first
star. `last` is the character before them. -/
def pushStars (d : Draft) (last : Option Char) (next : Text) : Draft × Nat :=
  if d.tokens.isEmpty then
    match next with
    | [] => (d.push .leading, 1)
    | '/' :: _ => (d.push .leading, 2)
    | _ => (d.pushRuns, 1)
  else if last = some '/' ∨ (d.inGroup ∧ (last = some ',' ∨ last = some '{')) then
    match next with
    | [] => (d.pushDirectories .trailing, 1)
    | '/' :: _ => (d.pushDirectories .between, 2)
    | c :: _ =>
      if d.inGroup ∧ (c = ',' ∨ c = '}') then (d.pushDirectories .trailing, 1)
      else (d.pushRuns, 1)
  else (d.pushRuns, 1)

/-- The draft after a character and the number of further characters it takes with it. -/
def next (d : Draft) (last : Option Char) (c : Char) (r : Text) :
    Except GlobError (Draft × Nat) :=
  if c = '?' then .ok (d.push .any, 0)
  else if c = '*' then
    match r with
    | '*' :: after => .ok (d.pushStars last after)
    | _ => .ok (d.push .run, 0)
  else if c = '[' ∧ !d.plainBrackets then
    match readClass r with
    | .error e => .error e
    | .ok (some (token, count)) => .ok (d.push token, count)
    | .ok none => .ok ({ d with plainBrackets := true }.push (literalToken '['), 0)
  else if c = '{' then .ok (d.openGroup, 0)
  else if c = '}' then d.closeGroup.map fun d => (d, 0)
  else if c = ',' then .ok (d.nextAlternative, 0)
  else if c = '\\' then
    match r with
    | [] => .error .danglingEscape
    | escaped :: _ => .ok (d.push (literalToken escaped), 1)
  else .ok (d.push (literalToken c), 0)

end Draft

/-- The glob of which a draft has been read. The counter says how many characters are still to be
passed over, and `last` is the character before the text. -/
def readFrom (d : Draft) (last : Option Char) : Nat → Text → Except GlobError Glob
  | _, [] => if d.inGroup then .error .unclosedGroup else .ok d.tokens.reverse
  | passed + 1, c :: r => readFrom d (some c) passed r
  | 0, c :: r =>
    match d.next last c r with
    | .error e => .error e
    | .ok (d, passed) => readFrom d (some c) passed r

/-- The glob that a text spells. -/
def read (t : Text) : Except GlobError Glob := readFrom .empty none 0 t

end Glob

end Spruce.Ignore
