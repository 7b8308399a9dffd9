import Spruce.Text.Basic

/-!
# Terminal colours

A colour sequence is ESC, `[`, digits and semicolons, `m`. Output of other programs has its colour
sequences removed before it is read; reports are painted only where colour is wanted.
-/

namespace Spruce.Text

/-- ESC. -/
def escapeChar : Char := '\x1b'

/-- The characters between the bracket and the final letter of a colour sequence. -/
def isColourParameter (c : Char) : Bool := ('0' ≤ c && c ≤ '9') || c == ';'

/-- The number of characters after the ESC in the colour sequence that the ESC begins, if it
begins one. -/
def colourLength? : Text → Option Nat
  | '[' :: r =>
    match r.dropWhile isColourParameter with
    | 'm' :: _ => some ((r.takeWhile isColourParameter).length + 2)
    | _ => none
  | _ => none

/-- The text without its colour sequences. The counter says how many characters of the last
sequence are still to be passed over. -/
def plainFrom : Nat → Text → Text
  | _, [] => []
  | passed + 1, _ :: r => plainFrom passed r
  | 0, c :: r =>
    if c = escapeChar then
      match colourLength? r with
      | some length => plainFrom length r
      | none => c :: plainFrom 0 r
    else c :: plainFrom 0 r

/-- The text without its colour sequences. -/
def plain (t : Text) : Text := plainFrom 0 t

/-- The ways a report paints a piece of text. -/
inductive Paint
  | bold
  | dimmed
  | red
  | green
  | yellow
  | blue
  | cyan
  | brightBlue
  deriving DecidableEq, Repr

/-- The number that selects a paint in a colour sequence. -/
def Paint.code : Paint → Nat
  | .bold => 1
  | .dimmed => 2
  | .red => 31
  | .green => 32
  | .yellow => 33
  | .blue => 34
  | .cyan => 36
  | .brightBlue => 94

/-- The colour sequence with the given parameters. -/
def colourSequence (parameters : List Nat) : Text :=
  escapeChar :: '[' :: joinWith [';'] (parameters.map ofNat) ++ ['m']

/-- A piece of text between the sequence that turns the paints on and the one that turns them
off. A reset inside the piece is followed by the paints again. -/
def paint (colour : Bool) (paints : List Paint) (t : Text) : Text :=
  if colour then
    let on := colourSequence (paints.map Paint.code)
    let off := colourSequence [0]
    on ++ replace off (off ++ on) t ++ off
  else t

end Spruce.Text
