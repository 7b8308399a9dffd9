import Mathlib.Data.List.Induction
import Spruce.Proofs.Declaration.Nesting

/-!
# The stack of open brackets

A text is read forwards onto a stack of open brackets, from which a bracket that closes takes the
innermost one, whatever its kind. Looking backwards with `depth` closed brackets to make up for
finds the bracket that has `depth` others above it on the stack (`enclosingFrom_reverse`), so the
nearest open bracket is the top of the stack. The counter of the way back is the number of brackets
that close less the number of those that open, which is never negative until the bracket is found
(`enclosingOpener_openBrackets`).
-/

namespace Spruce.Declaration

open Text

/-! ### Reading forwards -/

/-- The open brackets after one more character, innermost first. A bracket that closes takes the
innermost one away, whatever its kind, and does nothing where none is open. -/
def pushOrPop (stack : Text) (c : Char) : Text :=
  if isClosing c then stack.tail
  else if isOpening c then c :: stack
  else stack

/-- The brackets that are open at the end of a text, innermost first. -/
def openBrackets (t : Text) : Text := t.foldl pushOrPop []

/-- One more character at the end moves the stack once. -/
theorem openBrackets_concat (t : Text) (c : Char) :
    openBrackets (t ++ [c]) = pushOrPop (openBrackets t) c := by
  rw [openBrackets, List.foldl_append]
  rfl

/-- With `depth` closed brackets to make up for, the way back ends at the bracket that has `depth`
others above it on the stack. -/
theorem enclosingFrom_reverse (depth : Nat) (t : Text) :
    enclosingFrom depth t.reverse = (openBrackets t)[depth]? := by
  -- The last character is the first one on the way back and the last one to move the stack.
  induction t using List.reverseRecOn generalizing depth with
  | nil => rfl
  | append_singleton t c ih =>
    rw [List.reverse_concat, enclosingFrom_cons, openBrackets_concat, pushOrPop]
    split
    · rw [ih, List.getElem?_tail]
    · split
      · cases depth with
        | zero => rfl
        | succ outer => rw [List.getElem?_cons_succ, ← ih]
      · exact ih depth

/-! ### The counter of the way back -/

/-- What a character adds to the number of closed brackets that are to be made up for. -/
def weight (c : Char) : Int := if isClosing c then 1 else if isOpening c then -1 else 0

/-- How many more brackets close in a text than open in it. -/
def surplus : Text → Int
  | [] => 0
  | c :: t => weight c + surplus t

/-- A character on the way back is the bracket looked for, or the counter changes by its weight, to
a natural number again. -/
theorem enclosingFrom_step (depth : Nat) (c : Char) :
    (∀ rest, enclosingFrom depth (c :: rest) = some c) ∨
      ∃ next : Nat, (next : Int) = depth + weight c ∧
        ∀ rest, enclosingFrom depth (c :: rest) = enclosingFrom next rest := by
  simp only [enclosingFrom_cons, weight]
  split
  · exact .inr ⟨depth + 1, by omega, fun _ ↦ rfl⟩
  · split
    · cases depth with
      | zero => exact .inl fun _ ↦ rfl
      | succ outer => exact .inr ⟨outer, by omega, fun _ ↦ rfl⟩
    · exact .inr ⟨depth, by omega, fun _ ↦ rfl⟩

/-- A text on the way back holds the bracket looked for, or the counter changes by its surplus, to a
natural number again. -/
theorem enclosingFrom_append (depth : Nat) (passed : Text) :
    (∃ c, ∀ rest, enclosingFrom depth (passed ++ rest) = some c) ∨
      ∃ next : Nat, (next : Int) = depth + surplus passed ∧
        ∀ rest, enclosingFrom depth (passed ++ rest) = enclosingFrom next rest := by
  induction passed generalizing depth with
  | nil => exact .inr ⟨depth, (Int.add_zero _).symm, fun _ ↦ rfl⟩
  | cons c passed ih =>
    rcases enclosingFrom_step depth c with hfound | ⟨next, hnext, hstep⟩
    · exact .inl ⟨c, fun rest ↦ hfound (passed ++ rest)⟩
    · simp only [List.cons_append, hstep]
      rcases ih next with hfound | ⟨last, hlast, hrest⟩
      · exact .inl hfound
      · refine .inr ⟨last, ?_, hrest⟩
        rw [hlast, hnext, surplus, Int.add_assoc]

/-! ### Both readings -/

/-- The nearest open bracket, found backwards, is the top of the stack that the text leaves when it
is read forwards. After any number of characters on the way back either the bracket has been found
among them, or the counter is their surplus: adding up what closes and taking off what opens has not
led below zero, and the search goes on with what is left of the text. -/
theorem enclosingOpener_openBrackets (t : Text) :
    enclosingOpener t.reverse = (openBrackets t).head? ∧
      ∀ n, (∃ c, enclosingOpener (t.reverse.take n) = some c ∧
          enclosingOpener t.reverse = some c) ∨
        enclosingOpener (t.reverse.take n) = none ∧ 0 ≤ surplus (t.reverse.take n) ∧
          enclosingOpener t.reverse =
            enclosingFrom (surplus (t.reverse.take n)).toNat (t.reverse.drop n) := by
  constructor
  · rw [enclosingOpener, enclosingFrom_reverse, List.head?_eq_getElem?]
  · intro n
    have hsplit := List.take_append_drop n t.reverse
    generalize t.reverse.take n = passed, t.reverse.drop n = rest at hsplit ⊢
    rw [← hsplit]
    rcases enclosingFrom_append 0 passed with ⟨c, hfound⟩ | ⟨depth, hdepth, hrest⟩
    · have hpassed := hfound []
      rw [List.append_nil] at hpassed
      exact .inl ⟨c, hpassed, hfound rest⟩
    · have hpassed := hrest []
      rw [List.append_nil] at hpassed
      rw [Int.natCast_zero, Int.zero_add] at hdepth
      rw [← hdepth, Int.toNat_natCast]
      exact .inr ⟨hpassed, Int.natCast_nonneg depth, hrest rest⟩

/-- A bracket that closes nothing and one that closes another kind than it should. -/
example :
    openBrackets "](\x7b)".toList = ['('] ∧
      enclosingOpener "](\x7b)".toList.reverse = some '(' := by
  decide

end Spruce.Declaration
