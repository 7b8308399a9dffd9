import Spruce.Declaration.Rename
import Spruce.Proofs.Declaration.Brackets

/-!
# Nesting of brackets

The nearest open bracket before a place is looked for backwards, by counting the closed ones. Read
forwards it is the last bracket that opens and is not closed: what stands after it closes all that
it opens, whatever the kinds of the brackets (`enclosingOpener_eq_some_iff`). Text without brackets
makes no difference (`enclosingOpener_congr`).
-/

namespace Spruce.Declaration

open Text

variable {head s t : Text} {c : Char}

/-! ### Depth -/

/-- The number of brackets that are open after one more character. Where none is open, none can be
closed. -/
def nextDepth (depth : Nat) (c : Char) : Option Nat :=
  if isClosing c then (if depth = 0 then none else some (depth - 1))
  else if isOpening c then some (depth + 1)
  else some depth

/-- The number of brackets that are open after a text, from those that are open before it. -/
def depthAfter (depth : Nat) (t : Text) : Option Nat := t.foldlM nextDepth depth

/-- The text closes what it opens and nothing else. -/
def IsClosed (t : Text) : Prop := depthAfter 0 t = some 0

instance (t : Text) : Decidable (IsClosed t) :=
  inferInstanceAs (Decidable (depthAfter 0 t = some 0))

/-- The last open bracket of the text is `c`, after `head`. -/
def LastOpen (t head : Text) (c : Char) : Prop :=
  ∃ inner, t = head ++ c :: inner ∧ isOpening c = true ∧ IsClosed inner

private theorem depthAfter_append (depth : Nat) (s t : Text) :
    depthAfter depth (s ++ t) = (depthAfter depth s).bind (depthAfter · t) := by
  rw [depthAfter, List.foldlM_append]
  rfl

private theorem depthAfter_cons (depth : Nat) (c : Char) (t : Text) :
    depthAfter depth (c :: t) = (nextDepth depth c).bind (depthAfter · t) := by
  rw [depthAfter, List.foldlM_cons]
  rfl

private theorem depthAfter_concat (depth : Nat) (t : Text) (c : Char) :
    depthAfter depth (t ++ [c]) = (depthAfter depth t).bind (nextDepth · c) := by
  rw [depthAfter_append]
  refine Option.bind_congr fun depth _ ↦ ?_
  rw [depthAfter_cons]
  exact Option.bind_fun_some (nextDepth depth c)

private theorem isClosing_of_isOpening (h : isOpening c = true) : isClosing c = false := by
  simp only [isOpening, Bool.or_eq_true, beq_iff_eq] at h
  rcases h with (rfl | rfl) | rfl <;> decide

private theorem nextDepth_closing_iff (h : isClosing c = true) (before after : Nat) :
    nextDepth before c = some after ↔ before = after + 1 := by
  rw [nextDepth, if_pos h]
  split
  · next hz => simp [hz]
  · next hz =>
    rw [Option.some.injEq]
    omega

private theorem nextDepth_opening_iff (h : isOpening c = true) (before after : Nat) :
    nextDepth before c = some after ↔ before + 1 = after := by
  rw [nextDepth, isClosing_of_isOpening h, if_neg Bool.false_ne_true, if_pos h, Option.some.injEq]

private theorem nextDepth_other_iff (hc : isClosing c = false) (ho : isOpening c = false)
    (before after : Nat) : nextDepth before c = some after ↔ before = after := by
  rw [nextDepth, hc, ho, if_neg Bool.false_ne_true, if_neg Bool.false_ne_true, Option.some.injEq]

private theorem nextDepth_add {depth after : Nat} (h : nextDepth depth c = some after)
    (outer : Nat) : nextDepth (depth + outer) c = some (after + outer) := by
  cases hc : isClosing c with
  | true =>
    rw [nextDepth_closing_iff hc] at h ⊢
    omega
  | false =>
    cases ho : isOpening c with
    | true =>
      rw [nextDepth_opening_iff ho] at h ⊢
      omega
    | false =>
      rw [nextDepth_other_iff hc ho] at h ⊢
      omega

private theorem depthAfter_add {depth after : Nat} (h : depthAfter depth t = some after)
    (outer : Nat) : depthAfter (depth + outer) t = some (after + outer) := by
  induction t generalizing depth with
  | nil =>
    obtain rfl : depth = after := Option.some.inj h
    rfl
  | cons c t ih =>
    rw [depthAfter_cons] at h ⊢
    obtain ⟨next, hnext, ht⟩ := Option.bind_eq_some_iff.mp h
    rw [nextDepth_add hnext, Option.bind_some, ih ht]

/-- A closed text has no open bracket in it. -/
theorem not_isClosed_of_open (ho : isOpening c = true) (ht : IsClosed t) (s : Text) :
    ¬ IsClosed (s ++ c :: t) := by
  intro h
  rw [IsClosed, depthAfter_append] at h
  obtain ⟨depth, -, h⟩ := Option.bind_eq_some_iff.mp h
  have hnext : nextDepth depth c = some (depth + 1) := (nextDepth_opening_iff ho _ _).mpr rfl
  have hafter := depthAfter_add ht (depth + 1)
  rw [Nat.zero_add] at hafter
  rw [depthAfter_cons, hnext, Option.bind_some, hafter] at h
  exact Nat.succ_ne_zero depth (Option.some.inj h)

/-- A text has one last open bracket at most. -/
theorem LastOpen.unique {other : Text} {d : Char} (h : LastOpen t head c)
    (ho : LastOpen t other d) : head = other ∧ c = d := by
  obtain ⟨inner, rfl, hc, hinner⟩ := h
  obtain ⟨inner', hsplit, hd, hinner'⟩ := ho
  rcases List.append_eq_append_iff.mp hsplit with ⟨w, rfl, hw⟩ | ⟨w, rfl, hw⟩
  · cases w with
    | nil => exact ⟨by simp, (List.cons.inj hw).1⟩
    | cons x w =>
      obtain ⟨rfl, rfl⟩ := List.cons.inj hw
      exact absurd hinner (not_isClosed_of_open hd hinner' w)
  · cases w with
    | nil => exact ⟨by simp, (List.cons.inj hw).1.symm⟩
    | cons x w =>
      obtain ⟨rfl, rfl⟩ := List.cons.inj hw
      exact absurd hinner' (not_isClosed_of_open hc hinner w)

/-! ### The nearest open bracket -/

/-- What one character on the way back does to the counter, in terms of the classes of brackets. -/
theorem enclosingFrom_cons (depth : Nat) (c : Char) (t : Text) :
    enclosingFrom depth (c :: t) =
      if isClosing c then enclosingFrom (depth + 1) t
      else if isOpening c then
        match depth with
        | 0 => some c
        | outer + 1 => enclosingFrom outer t
      else enclosingFrom depth t := by
  have hclosing : (c = '}' ∨ c = ']' ∨ c = ')') ↔ isClosing c = true := by
    simp only [isClosing, Bool.or_eq_true, beq_iff_eq]
    tauto
  have hopening : (c = '{' ∨ c = '[' ∨ c = '(') ↔ isOpening c = true := by
    simp only [isOpening, Bool.or_eq_true, beq_iff_eq]
    tauto
  cases depth <;> simp [enclosingFrom, hclosing, hopening]

private theorem exists_concat_iff {p : Text → Prop} (t : Text) (d : Char) :
    (∃ head inner, t ++ [d] = head ++ c :: inner ∧ p inner) ↔
      d = c ∧ p [] ∨ ∃ head inner, t = head ++ c :: inner ∧ p (inner ++ [d]) := by
  constructor
  · rintro ⟨head, inner, h, hp⟩
    rcases List.eq_nil_or_concat inner with rfl | ⟨inner, e, hinner⟩
    · exact .inl ⟨(List.cons.inj (List.append_inj' h rfl).2).1, hp⟩
    · rw [List.concat_eq_append] at hinner
      subst hinner
      have hsplit : t ++ [d] = (head ++ c :: inner) ++ [e] := by simpa using h
      obtain ⟨ht, hd⟩ := List.append_inj' hsplit rfl
      obtain rfl := (List.cons.inj hd).1
      exact .inr ⟨head, inner, ht, hp⟩
  · rintro (⟨rfl, hp⟩ | ⟨head, inner, rfl, hp⟩)
    · exact ⟨t, [], rfl, hp⟩
    · exact ⟨head, inner ++ [d], by simp, hp⟩

/-- The bracket that is found has `depth` brackets open after it. -/
theorem enclosingFrom_eq_some_iff (depth : Nat) (t : Text) :
    enclosingFrom depth t = some c ↔ ∃ head inner, t.reverse = head ++ c :: inner ∧
      isOpening c = true ∧ depthAfter 0 inner = some depth := by
  induction t generalizing depth with
  | nil => simp [enclosingFrom]
  | cons d t ih =>
    rw [List.reverse_cons, exists_concat_iff]
    -- What `d` leaves open tells how many brackets are open before it.
    have hbefore {outer : Nat} (h : ∀ n, nextDepth n d = some depth ↔ n = outer) :
        (∃ head inner, t.reverse = head ++ c :: inner ∧ isOpening c = true ∧
          depthAfter 0 (inner ++ [d]) = some depth) ↔ enclosingFrom outer t = some c := by
      simp only [ih, depthAfter_concat, Option.bind_eq_some_iff, h, exists_eq_right]
    have hself (h : isOpening d = false ∨ depth ≠ 0) :
        ¬ (d = c ∧ isOpening c = true ∧ depthAfter 0 [] = some depth) := by
      rintro ⟨rfl, ho, hd⟩
      rcases h with h | h
      · rw [ho] at h
        cases h
      · exact h (Option.some.inj hd).symm
    rw [enclosingFrom_cons]
    cases hclosing : isClosing d with
    | true =>
      have hopening : isOpening d = false := by
        by_contra ho
        rw [isClosing_of_isOpening (Bool.not_eq_false _ ▸ ho)] at hclosing
        cases hclosing
      rw [hbefore fun n ↦ nextDepth_closing_iff hclosing n depth,
        or_iff_right (hself (.inl hopening))]
      rfl
    | false =>
      cases hopening : isOpening d with
      | true =>
        cases depth with
        | zero =>
          have hnone : ¬ ∃ head inner, t.reverse = head ++ c :: inner ∧ isOpening c = true ∧
              depthAfter 0 (inner ++ [d]) = some 0 := by
            rintro ⟨head, inner, -, -, hd⟩
            rw [depthAfter_concat] at hd
            obtain ⟨n, -, hn⟩ := Option.bind_eq_some_iff.mp hd
            exact Nat.succ_ne_zero n ((nextDepth_opening_iff hopening n 0).mp hn)
          rw [or_iff_left hnone]
          constructor
          · intro hfound
            obtain rfl : d = c := Option.some.inj hfound
            exact ⟨rfl, hopening, rfl⟩
          · rintro ⟨rfl, -, -⟩
            rfl
        | succ outer =>
          rw [hbefore fun n ↦ (nextDepth_opening_iff hopening n _).trans Nat.succ_inj,
            or_iff_right (hself (.inr (Nat.succ_ne_zero outer)))]
          rfl
      | false =>
        rw [hbefore fun n ↦ nextDepth_other_iff hclosing hopening n depth,
          or_iff_right (hself (.inl hopening))]
        rfl

/-- The nearest open bracket before a place is the last open one of what stands before it. -/
theorem enclosingOpener_eq_some_iff (t : Text) :
    enclosingOpener t.reverse = some c ↔ ∃ head, LastOpen t head c := by
  rw [enclosingOpener, enclosingFrom_eq_some_iff, List.reverse_reverse]
  rfl

/-- Text without brackets does not hide an open one. -/
theorem enclosingOpener_congr (h : brackets s = brackets t) :
    enclosingOpener s = enclosingOpener t := by
  have hbrackets (depth : Nat) (t : Text) :
      enclosingFrom depth (brackets t) = enclosingFrom depth t := by
    induction t generalizing depth with
    | nil => rfl
    | cons c t ih =>
      rw [enclosingFrom_cons]
      cases hc : isBracket c with
      | true =>
        simp only [brackets] at ih
        rw [brackets, List.filter_cons_of_pos hc, enclosingFrom_cons]
        cases depth <;> simp only [ih]
      | false =>
        obtain ⟨ho, hclosing⟩ := Bool.or_eq_false_iff.mp hc
        rw [brackets, List.filter_cons_of_neg (by simp [hc]), ho, hclosing]
        exact ih depth
  rw [enclosingOpener, ← hbrackets, h, hbrackets]
  rfl

end Spruce.Declaration
