import Spruce.Declaration.Verdict
import Spruce.Proofs.Declaration.Element

/-!
# Brackets on a line

The brackets of a text are read from the left onto a stack of those that are still to be closed, and
are balanced when each closes the innermost one and none is left. A line without an element has the
brackets of the line except those of the default that went with the element, so it is balanced
exactly when that default closes what it opens (`balanced_removeElement?_iff`). The default of an
element ends at its first comma, and of an array of several items only the beginning goes
(`removeElement?_unbalanced`).
-/

namespace Spruce.Declaration

open Text

/-! ### Balanced texts -/

/-- Whether a character is a bracket. -/
def isBracket (c : Char) : Bool := isOpening c || isClosing c

/-- The bracket that closes an opening one. -/
def closer (c : Char) : Char := if c = '(' then ')' else if c = '[' then ']' else '}'

/-- The brackets that are to close after one more character, innermost first. A bracket that closes
another one than the innermost leaves none. -/
def readBracket (stack : Text) (c : Char) : Option Text :=
  if isOpening c then some (closer c :: stack)
  else if isClosing c then
    match stack with
    | expected :: rest => if expected = c then some rest else none
    | [] => none
  else some stack

/-- The brackets that are to close after a text, from those that are to close before it. -/
def readBrackets (stack t : Text) : Option Text := t.foldlM readBracket stack

/-- Every bracket of the text closes the innermost open one, and none stays open. -/
def Balanced (t : Text) : Prop := readBrackets [] t = some []

instance (t : Text) : Decidable (Balanced t) :=
  inferInstanceAs (Decidable (readBrackets [] t = some []))

/-- The brackets of a text in order. -/
def brackets (t : Text) : Text := t.filter isBracket

variable {stack before middle after s t : Text}

private theorem readBrackets_cons (stack : Text) (c : Char) (t : Text) :
    readBrackets stack (c :: t) = (readBracket stack c).bind (readBrackets · t) := by
  rw [readBrackets, List.foldlM_cons]
  rfl

private theorem readBrackets_append (stack s t : Text) :
    readBrackets stack (s ++ t) = (readBrackets stack s).bind (readBrackets · t) := by
  rw [readBrackets, List.foldlM_append]
  rfl

private theorem readBracket_of_not {c : Char} (h : isBracket c = false) (stack : Text) :
    readBracket stack c = some stack := by
  simp only [isBracket, Bool.or_eq_false_iff] at h
  simp [readBracket, h.1, h.2]

/-- Only the brackets of a text count. -/
theorem readBrackets_brackets (stack t : Text) :
    readBrackets stack (brackets t) = readBrackets stack t := by
  induction t generalizing stack with
  | nil => rfl
  | cons c t ih =>
    cases hc : isBracket c with
    | true =>
      rw [brackets, List.filter_cons_of_pos hc, readBrackets_cons, readBrackets_cons]
      exact Option.bind_congr fun stack _ ↦ ih stack
    | false =>
      rw [brackets, List.filter_cons_of_neg (by simp [hc]), readBrackets_cons,
        readBracket_of_not hc]
      exact ih stack

/-- Texts with the same brackets are read alike. -/
theorem readBrackets_congr (h : brackets s = brackets t) (stack : Text) :
    readBrackets stack s = readBrackets stack t := by
  rw [← readBrackets_brackets, h, readBrackets_brackets]

/-- Texts with the same brackets are balanced alike. -/
theorem balanced_congr (h : brackets s = brackets t) : Balanced s ↔ Balanced t := by
  rw [Balanced, Balanced, readBrackets_congr h]

private theorem readBracket_inj {c : Char} {old new result : Text}
    (ho : readBracket old c = some result) (hn : readBracket new c = some result) : old = new := by
  unfold readBracket at ho hn
  split at ho
  · next hc =>
    rw [if_pos hc] at hn
    exact (List.cons.inj ((Option.some.inj ho).trans (Option.some.inj hn).symm)).2
  · next hc =>
    rw [if_neg hc] at hn
    split at ho
    · next hclose =>
      rw [if_pos hclose] at hn
      cases old <;> cases new <;> simp_all
    · next hclose =>
      rw [if_neg hclose] at hn
      exact (Option.some.inj ho).trans (Option.some.inj hn).symm

/-- What is to close after a text tells what was to close before it. -/
theorem readBrackets_inj {old new result : Text} (ho : readBrackets old t = some result)
    (hn : readBrackets new t = some result) : old = new := by
  induction t generalizing old new with
  | nil => exact (Option.some.inj ho).trans (Option.some.inj hn).symm
  | cons c t ih =>
    rw [readBrackets_cons] at ho hn
    obtain ⟨old', hold, ho⟩ := Option.bind_eq_some_iff.mp ho
    obtain ⟨new', hnew, hn⟩ := Option.bind_eq_some_iff.mp hn
    obtain rfl := ih ho hn
    exact readBracket_inj hold hnew

private theorem readBracket_above {c : Char} {old new : Text} (h : readBracket old c = some new)
    (stack : Text) : readBracket (old ++ stack) c = some (new ++ stack) := by
  unfold readBracket at h ⊢
  split at h
  · next hc =>
    rw [if_pos hc, ← Option.some.inj h]
    rfl
  · next hc =>
    rw [if_neg hc]
    split at h
    · next hclose =>
      rw [if_pos hclose]
      cases old with
      | nil => cases h
      | cons expected rest =>
        dsimp only [List.cons_append] at h ⊢
        split at h
        · next he => rw [if_pos he, Option.some.inj h]
        · cases h
    · next hclose => rw [if_neg hclose, Option.some.inj h]

private theorem readBrackets_above {old new : Text} (h : readBrackets old t = some new)
    (stack : Text) : readBrackets (old ++ stack) t = some (new ++ stack) := by
  induction t generalizing old with
  | nil => rw [← Option.some.inj h]; rfl
  | cons c t ih =>
    rw [readBrackets_cons] at h ⊢
    obtain ⟨next, hnext, h⟩ := Option.bind_eq_some_iff.mp h
    rw [readBracket_above hnext, Option.bind_some, ih h]

/-- A balanced text leaves what is to close as it is. -/
theorem Balanced.readBrackets_eq (h : Balanced t) (stack : Text) :
    readBrackets stack t = some stack :=
  readBrackets_above h stack

/-- Taking out a piece of a balanced text leaves it balanced exactly when the piece leaves what is
to close as it is. -/
theorem balanced_append_iff (h : Balanced (before ++ middle ++ after)) :
    ∃ stack, readBrackets [] before = some stack ∧
      (Balanced (before ++ after) ↔ readBrackets stack middle = some stack) := by
  rw [Balanced, readBrackets_append, readBrackets_append] at h
  obtain ⟨next, hnext, hafter⟩ := Option.bind_eq_some_iff.mp h
  obtain ⟨stack, hstack, hmiddle⟩ := Option.bind_eq_some_iff.mp hnext
  refine ⟨stack, hstack, ?_⟩
  rw [Balanced, readBrackets_append, hstack, Option.bind_some]
  constructor
  · intro hrest
    rw [hmiddle, readBrackets_inj hafter hrest]
  · intro hkept
    obtain rfl : next = stack := Option.some.inj (hmiddle.symm.trans hkept)
    exact hafter

/-! ### Texts without brackets -/

/-- The brackets of two texts in a row are those of the one and then those of the other. -/
theorem brackets_append (s t : Text) : brackets (s ++ t) = brackets s ++ brackets t :=
  List.filter_append ..

/-- Characters of a class that has no bracket in it make up a text without brackets. -/
theorem brackets_eq_nil {p : Char → Bool} (h : ∀ c ∈ t, p c = true)
    (hp : ['(', ')', '[', ']', '{', '}'].any p = false) : brackets t = [] := by
  refine List.filter_eq_nil_iff.mpr fun c hc hb ↦ ?_
  have hm : c ∈ ['(', ')', '[', ']', '{', '}'] := by
    simp only [isBracket, isOpening, isClosing, Bool.or_eq_true, beq_iff_eq] at hb
    rcases hb with ((rfl | rfl) | rfl) | (rfl | rfl) | rfl <;> decide
  exact List.any_eq_false.mp hp c hm (h c hc)

/-- Blanks have no brackets among them. -/
theorem brackets_blanks (h : IsBlanks t) : brackets t = [] := brackets_eq_nil h (by decide)

private theorem brackets_key (h : IsKey t) : brackets t = [] := by
  rcases h with rfl | ⟨first, word, gap, blanks, rfl, hfirst, hword, hgap, hblanks⟩
  · rfl
  · have hf : brackets [first] = [] :=
      brackets_eq_nil (p := isKeyStart) (by simpa using hfirst) (by decide)
    have hw : brackets word = [] := brackets_eq_nil hword (by decide)
    have hcolon : brackets [':'] = [] := by decide
    calc brackets (first :: (word ++ (gap ++ ':' :: blanks)))
        = brackets ([first] ++ (word ++ (gap ++ ([':'] ++ blanks)))) := rfl
      _ = [] := by
        simp only [brackets_append, hf, hw, hcolon, brackets_blanks hgap, brackets_blanks hblanks,
          List.append_nil]

/-! ### Cutting and joining -/

/-- A line has the brackets of its parts. -/
theorem Element.Spells.brackets_line {e : Element} {name key value line : Text}
    (h : e.Spells name key value line) (hn : brackets name = []) :
    brackets line = brackets (e.before ++ [e.opener]) ++ brackets value ++
      brackets e.closing.text := by
  have hline : line = e.before ++ [e.opener] ++ e.lead ++ key ++ name ++ value ++
      e.closing.text := by
    rw [h.line_eq]
    simp
  rw [hline]
  simp only [brackets_append, brackets_blanks h.lead, brackets_key h.key, hn, List.append_nil]

private theorem Closing.IsEnd.brackets_text {e : Closing} (h : e.IsEnd) :
    brackets e.text = brackets [e.delimiter] ++ brackets e.rest := by
  have htext : e.text = e.tail ++ [e.delimiter] ++ e.after ++ e.rest := by simp [Closing.text]
  have hafter : brackets e.after = [] := brackets_eq_nil h.after (by decide)
  rw [htext]
  simp only [brackets_append, brackets_blanks h.tail, hafter, List.nil_append, List.append_nil]

/-- A cut takes the brackets of the default out of the line and no others. -/
theorem Element.Spells.brackets_cut {e : Element} {name key value line cut : Text}
    (h : e.Spells name key value line) (hc : e.cut? = some cut) :
    brackets cut = brackets (e.before ++ [e.opener]) ++ brackets e.closing.text := by
  have comma : brackets [','] = [] := by decide
  have hlead := brackets_blanks h.lead
  have htail := brackets_blanks h.closing.tail
  have hafter : brackets e.closing.after = [] := brackets_eq_nil h.closing.after (by decide)
  rw [brackets_append, h.closing.brackets_text]
  simp only [Element.cut?] at hc
  split at hc
  · next hopen =>
    split at hc
    · cases hc
    · next hclose =>
      have hcut : cut = e.before ++ ['{'] ++ e.lead ++ e.closing.rest := by
        rw [← Option.some.inj hc]
        simp
      rw [hcut, hopen, h.closing.delimiter.resolve_right hclose]
      simp only [brackets_append, comma, hlead, List.nil_append, List.append_nil]
  · next hopen =>
    rw [h.opener.resolve_left hopen]
    split at hc
    · next hclose =>
      have hcut : cut = e.before ++ [','] ++ e.closing.after ++ e.closing.rest := by
        rw [← Option.some.inj hc]
        simp
      rw [hcut, hclose]
      simp only [brackets_append, comma, hafter, List.nil_append, List.append_nil]
    · next hclose =>
      have hcut : cut = e.before ++ e.closing.tail ++ ['}'] ++ e.closing.after ++
          e.closing.rest := by
        rw [← Option.some.inj hc]
        simp
      rw [hcut, h.closing.delimiter.resolve_left hclose]
      simp only [brackets_append, comma, htail, hafter, List.nil_append, List.append_nil,
        List.append_assoc]

/-- A pair that is found begins after blanks. -/
theorem exists_of_pairLength? {last : Char} {r : Text} {length : Nat}
    (h : pairLength? last r = some length) :
    ∃ blanks rest, r = blanks ++ last :: rest ∧ IsBlanks blanks ∧ r.drop length = rest := by
  unfold pairLength? at h
  split at h
  · next c rest hr =>
    split at h
    · next hc =>
      obtain rfl := Option.some.inj h
      subst hc
      have hsplit : r = r.takeWhile isBlank ++ c :: rest := by
        rw [← hr, List.takeWhile_append_dropWhile]
      refine ⟨r.takeWhile isBlank, rest, hsplit, fun _ hm ↦ List.mem_takeWhile_imp hm, ?_⟩
      nth_rewrite 2 [hsplit]
      rw [List.append_cons, List.drop_left' (by simp)]
    · cases h
  · cases h

private theorem brackets_replacePairFrom {first last : Char} {new : Text}
    (hn : brackets new = brackets [first, last]) (passed : Nat) (t : Text) :
    brackets (replacePairFrom first last new passed t) = brackets (t.drop passed) := by
  fun_induction replacePairFrom first last new passed t with
  | case1 => rw [List.drop_nil]
  | case2 passed c r ih => exact ih
  | case3 r length hl ih =>
    obtain ⟨blanks, rest, rfl, hb, hd⟩ := exists_of_pairLength? hl
    have hpair : brackets (first :: (blanks ++ last :: rest)) =
        brackets [first] ++ (brackets blanks ++ (brackets [last] ++ brackets rest)) := by
      rw [← brackets_append, ← brackets_append, ← brackets_append]
      rfl
    have hends : brackets [first, last] = brackets [first] ++ brackets [last] :=
      brackets_append [first] [last]
    rw [brackets_append, ih, hd, hn, List.drop_zero, hpair, brackets_blanks hb, hends,
      List.nil_append, List.append_assoc]
  | case4 r hl ih =>
    rw [List.drop_zero] at ih ⊢
    simp only [brackets, List.filter_cons] at ih ⊢
    rw [ih]
  | case5 c r hc ih =>
    rw [List.drop_zero] at ih ⊢
    simp only [brackets, List.filter_cons] at ih ⊢
    rw [ih]

/-- Joining commas leaves the brackets as they are. -/
theorem brackets_joinCommas (t : Text) : brackets (joinCommas t) = brackets t := by
  have replaced {first last : Char} {new : Text} (hn : brackets new = brackets [first, last])
      (t : Text) : brackets (replacePair first last new t) = brackets t :=
    brackets_replacePairFrom hn 0 t
  rw [joinCommas, replaced (by decide), replaced (by decide), replaced (by decide)]

/-! ### Removing an element -/

/-- A balanced line is balanced without an element exactly when the default of the element leaves
open what was open before it; a default that is balanced by itself does. -/
theorem balanced_removeElement?_iff {line name new : Text} (hl : Balanced line)
    (hn : ∀ c ∈ name, isIdentifier c = true) (h : removeElement? line name = some new) :
    ∃ e key value stack, element? name line = some e ∧ e.Spells name key value line ∧
      readBrackets [] (e.before ++ [e.opener]) = some stack ∧
      (Balanced new ↔ readBrackets stack value = some stack) ∧ (Balanced value → Balanced new) := by
  obtain ⟨e, cut, he, hc, rfl, -⟩ := exists_cut_of_removeElement? h
  obtain ⟨key, value, hs⟩ := exists_spells_of_element? he
  have hname : brackets name = [] := brackets_eq_nil hn (by decide)
  have hline : brackets line = brackets (e.before ++ [e.opener] ++ value ++ e.closing.text) := by
    rw [hs.brackets_line hname, brackets_append _ e.closing.text, brackets_append _ value]
  have hnew : brackets (joinCommas cut) = brackets (e.before ++ [e.opener] ++ e.closing.text) := by
    rw [brackets_joinCommas, hs.brackets_cut hc, brackets_append _ e.closing.text]
  obtain ⟨stack, hstack, hiff⟩ := balanced_append_iff ((balanced_congr hline).mp hl)
  rw [← balanced_congr hnew] at hiff
  exact ⟨e, key, value, stack, he, hs, hstack, hiff, fun hv ↦ hiff.mpr (hv.readBrackets_eq stack)⟩

/-- An element with a default in brackets, within brackets. -/
theorem balanced_removeElement?_iff_call :
    let line : Text := "f([\x7b a = (1), b \x7d])".toList
    Balanced line ∧ (∀ c ∈ ['a'], isIdentifier c = true) ∧
      removeElement? line ['a'] = some "f([\x7b b \x7d])".toList ∧
      ∃ e key value stack, element? ['a'] line = some e ∧ e.Spells ['a'] key value line ∧
        readBrackets [] (e.before ++ [e.opener]) = some stack ∧
        (Balanced "f([\x7b b \x7d])".toList ↔ readBrackets stack value = some stack) ∧
        (Balanced value → Balanced "f([\x7b b \x7d])".toList) := by
  intro line
  have hl : Balanced line := by decide
  have hn : ∀ c ∈ ['a'], isIdentifier c = true := List.forall_mem_singleton.mpr (by decide)
  have h : removeElement? line ['a'] = some "f([\x7b b \x7d])".toList := by decide
  exact ⟨hl, hn, h, balanced_removeElement?_iff hl hn h⟩

/-- Of a default that is an array of two items, the second one stays with its bracket. -/
theorem removeElement?_unbalanced :
    let line : Text := "const \x7b a = [1, 2], b \x7d = obj".toList
    let new : Text := "const \x7b 2], b \x7d = obj".toList
    (∀ c ∈ ['a'], isIdentifier c = true) ∧ Balanced line ∧
      removeElement? line ['a'] = some new ∧ ¬ Balanced new :=
  ⟨List.forall_mem_singleton.mpr (by decide), by decide, by decide, by decide⟩

end Spruce.Declaration
