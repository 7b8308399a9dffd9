import Spruce.Proofs.Declaration.Binding
import Spruce.Proofs.Declaration.Brackets
import Spruce.Proofs.Text.Pieces

/-!
# Joining commas

After a cut the commas of the line are put in order by three replacements, each over the whole line.
Of a list in braces they take the comma at its end, and they leave its items alone
(`joinCommas_list`, `joinCommas_list_open`). What stands after the list is treated in the same way:
it stays as it is exactly when no comma in it is doubled or next to a brace
(`joinCommas_eq_self_iff`).
-/

namespace Spruce.Declaration

open Text

variable {first last c : Char} {new s t r : Text}

/-! ### Pairs -/

/-- Text between delimiters that is not blank. -/
def IsItem (t : Text) : Prop := Undelimited t ∧ ¬ IsBlanks t

/-- The first character after blanks tells whether a pair ends there, and how long it is. -/
theorem pairLength?_blanks {blanks : Text} (hb : IsBlanks blanks) (hc : isBlank c = false)
    (last : Char) (r : Text) : pairLength? last (blanks ++ c :: r) =
      if c = last then some (blanks.length + 1) else none := by
  simp only [pairLength?, dropWhile_run_cons hb hc, takeWhile_run_cons hb hc]

/-- An item keeps what stands before and after it apart. -/
theorem IsItem.pairLength?_eq_none (h : IsItem t) (hlast : isDefaultChar last = false) (r : Text) :
    pairLength? last (t ++ r) = none := by
  obtain ⟨hundelimited, hblank⟩ := h
  obtain ⟨blanks, d, u, rfl, hb, hd⟩ := exists_of_not_blanks hblank
  have hne : d ≠ last := by
    rintro rfl
    rw [hundelimited d (by simp)] at hlast
    cases hlast
  rw [List.append_assoc, List.cons_append, pairLength?_blanks hb hd, if_neg hne]

/-! ### Replacing pairs -/

private theorem replacePairFrom_eq (first last : Char) (new : Text) (passed : Nat) (t : Text) :
    replacePairFrom first last new passed t = replacePair first last new (t.drop passed) := by
  induction passed generalizing t with
  | zero => rfl
  | succ passed ih =>
    cases t with
    | nil => rfl
    | cons c r => exact ih r

private theorem replacePair_cons_of_ne (h : c ≠ first) (r : Text) :
    replacePair first last new (c :: r) = c :: replacePair first last new r := by
  rw [replacePair, replacePairFrom, if_neg h]
  rfl

private theorem replacePair_cons_of_none (h : pairLength? last r = none) (c : Char) :
    replacePair first last new (c :: r) = c :: replacePair first last new r := by
  by_cases hc : c = first
  · rw [replacePair, replacePairFrom, if_pos hc, h]
    rfl
  · exact replacePair_cons_of_ne hc r

private theorem replacePair_cons_of_some {length : Nat} (h : pairLength? last r = some length) :
    replacePair first last new (first :: r) =
      new ++ replacePair first last new (r.drop length) := by
  rw [replacePair, replacePairFrom, if_pos rfl, h]
  exact congrArg (new ++ ·) (replacePairFrom_eq first last new length r)

private theorem replacePair_append (h : first ∉ s) (t : Text) :
    replacePair first last new (s ++ t) = s ++ replacePair first last new t := by
  induction s with
  | nil => rfl
  | cons c s ih =>
    obtain ⟨hc, hs⟩ := not_or.mp (mt List.mem_cons.mpr h)
    rw [List.cons_append, replacePair_cons_of_ne (Ne.symm hc), ih hs]
    rfl

/-- What becomes of a text follows from what becomes of the text after its first character, where
that stays, or after its first pair. -/
theorem replacePair_induction {motive : Text → Text → Prop} (nil : motive [] [])
    (kept : ∀ c r out, (c = first → pairLength? last r = none) → motive r out →
      motive (c :: r) (c :: out))
    (pair : ∀ blanks rest out, IsBlanks blanks → motive rest out →
      motive (first :: (blanks ++ last :: rest)) (new ++ out))
    (t : Text) : motive t (replacePair first last new t) := by
  suffices hfrom : ∀ passed,
      motive (t.drop passed) (replacePairFrom first last new passed t) from hfrom 0
  intro passed
  fun_induction replacePairFrom first last new passed t with
  | case1 =>
    rw [List.drop_nil]
    exact nil
  | case2 passed c r ih => exact ih
  | case3 r length hl ih =>
    obtain ⟨blanks, rest, rfl, hb, hdrop⟩ := exists_of_pairLength? hl
    rw [hdrop] at ih
    exact pair blanks rest _ hb ih
  | case4 r hl ih => exact kept first r _ (fun _ ↦ hl) ih
  | case5 c r hc ih => exact kept c r _ (fun h ↦ absurd h hc) ih

/-- A text without such a pair stays as it is. -/
theorem replacePair_eq_self (h : holdsPair first last t = false) :
    replacePair first last new t = t := by
  induction t with
  | nil => rfl
  | cons c r ih =>
    rw [holdsPair, Bool.or_eq_false_iff] at h
    by_cases hc : c = first
    · have hnone : pairLength? last r = none := by simpa [hc] using h.1
      rw [hc, replacePair_cons_of_none hnone, ih h.2]
    · rw [replacePair_cons_of_ne hc, ih h.2]

/-! ### Counting commas -/

section Counting

variable (hnew : new.count ',' < [first, last].count ',')

include hnew

/-- A pair takes more commas with it than come in its place. -/
theorem count_pair_lt {length : Nat} (h : pairLength? last r = some length) :
    (new ++ r.drop length).count ',' < (first :: r).count ',' := by
  obtain ⟨blanks, rest, rfl, -, hdrop⟩ := exists_of_pairLength? h
  have hsplit : (first :: (blanks ++ last :: rest)).count ',' =
      [first, last].count ',' + blanks.count ',' + rest.count ',' := by
    rw [List.count_cons, List.count_append, List.count_cons, List.count_cons, List.count_cons,
      List.count_nil]
    omega
  rw [hdrop, List.count_append, hsplit]
  omega

private theorem count_replacePairFrom_le (passed : Nat) (t : Text) :
    (replacePairFrom first last new passed t).count ',' ≤ (t.drop passed).count ',' := by
  fun_induction replacePairFrom first last new passed t with
  | case1 => simp
  | case2 passed c r ih => exact ih
  | case3 r length hl ih =>
    have hlt := count_pair_lt hnew hl
    rw [List.count_append] at hlt ⊢
    rw [List.drop_zero]
    omega
  | case4 r hl ih =>
    rw [List.drop_zero, List.count_cons, List.count_cons] at *
    omega
  | case5 c r hc ih =>
    rw [List.drop_zero, List.count_cons, List.count_cons] at *
    omega

/-- Replacing such pairs brings in no comma. -/
theorem count_replacePair_le (t : Text) :
    (replacePair first last new t).count ',' ≤ t.count ',' :=
  count_replacePairFrom_le hnew 0 t

/-- A text with such a pair loses a comma. -/
theorem count_replacePair_lt (h : holdsPair first last t = true) :
    (replacePair first last new t).count ',' < t.count ',' := by
  induction t with
  | nil => cases h
  | cons c r ih =>
    by_cases hc : c = first
    · subst hc
      cases hl : pairLength? last r with
      | none =>
        rw [replacePair_cons_of_none hl, List.count_cons, List.count_cons]
        have hr : holdsPair c last r = true := by simpa [holdsPair, hl] using h
        have := ih hr
        omega
      | some length =>
        have hle := count_replacePair_le hnew (r.drop length)
        have hlt := count_pair_lt hnew hl
        rw [replacePair_cons_of_some hl, List.count_append]
        rw [List.count_append] at hlt
        omega
    · have hr : holdsPair first last r = true := by simpa [holdsPair, hc] using h
      have := ih hr
      rw [replacePair_cons_of_ne hc, List.count_cons, List.count_cons]
      omega

end Counting

/-- Joining commas brings in no comma. -/
theorem count_joinCommas_le (t : Text) : (joinCommas t).count ',' ≤ t.count ',' := by
  have double : [','].count ',' < [',', ','].count ',' := by decide
  have opening : ['{', ' '].count ',' < ['{', ','].count ',' := by decide
  have closing : [' ', '}'].count ',' < [',', '}'].count ',' := by decide
  exact (count_replacePair_le closing _).trans
    ((count_replacePair_le opening _).trans (count_replacePair_le double t))

/-- A text stays as it is when its commas are joined exactly when no comma in it is doubled or next
to a brace. -/
theorem joinCommas_eq_self_iff (t : Text) : joinCommas t = t ↔
    holdsPair ',' ',' t = false ∧ holdsPair '{' ',' t = false ∧ holdsPair ',' '}' t = false := by
  have double : [','].count ',' < [',', ','].count ',' := by decide
  have opening : ['{', ' '].count ',' < ['{', ','].count ',' := by decide
  have closing : [' ', '}'].count ',' < [',', '}'].count ',' := by decide
  constructor
  · intro h
    rw [joinCommas] at h
    -- A pair that the first replacements find takes a comma that the later ones do not bring back.
    have hdouble : holdsPair ',' ',' t = false := by
      by_contra hp
      have hlt := count_replacePair_lt double (Bool.not_eq_false _ ▸ hp)
      have hmiddle := count_replacePair_le opening (replacePair ',' ',' [','] t)
      have hlast := count_replacePair_le closing
        (replacePair '{' ',' ['{', ' '] (replacePair ',' ',' [','] t))
      rw [h] at hlast
      omega
    rw [replacePair_eq_self hdouble] at h
    have hopening : holdsPair '{' ',' t = false := by
      by_contra hp
      have hlt := count_replacePair_lt opening (Bool.not_eq_false _ ▸ hp)
      have hlast := count_replacePair_le closing (replacePair '{' ',' ['{', ' '] t)
      rw [h] at hlast
      omega
    rw [replacePair_eq_self hopening] at h
    have hclosing : holdsPair ',' '}' t = false := by
      by_contra hp
      have hlt := count_replacePair_lt closing (Bool.not_eq_false _ ▸ hp)
      rw [h] at hlt
      exact Nat.lt_irrefl _ hlt
    exact ⟨hdouble, hopening, hclosing⟩
  · rintro ⟨hdouble, hopening, hclosing⟩
    rw [joinCommas, replacePair_eq_self hdouble, replacePair_eq_self hopening,
      replacePair_eq_self hclosing]

/-! ### Lists in braces -/

/-- No pair begins in a text without its first character. -/
theorem holdsPair_append (h : first ∉ s) (t : Text) :
    holdsPair first last (s ++ t) = holdsPair first last t := by
  induction s with
  | nil => rfl
  | cons c s ih =>
    obtain ⟨hc, hs⟩ := not_or.mp (mt List.mem_cons.mpr h)
    rw [List.cons_append, holdsPair, ih hs, decide_eq_false (Ne.symm hc), Bool.false_and,
      Bool.false_or]

/-- A text without the first character of a pair holds no pair. -/
theorem holdsPair_of_notMem (h : first ∉ t) : holdsPair first last t = false := by
  rw [← List.append_nil t, holdsPair_append h]
  rfl

/-- Text without commas and braces has no comma to join. -/
theorem Undelimited.joinCommas_eq (h : Undelimited t) : joinCommas t = t :=
  (joinCommas_eq_self_iff t).mpr ⟨holdsPair_of_notMem (h.notMem (by decide)),
    holdsPair_of_notMem (h.notMem (by decide)), holdsPair_of_notMem (h.notMem (by decide))⟩

section Lists

variable {before w blanks : Text} {ws : List Text} (hbefore : Undelimited before)

include hbefore

/-- Blanks in braces stay as they are. -/
theorem joinCommas_blanks (hb : IsBlanks blanks) (after : Text) :
    joinCommas (before ++ '{' :: (blanks ++ '}' :: after)) =
      before ++ '{' :: (blanks ++ '}' :: joinCommas after) := by
  have hinner : Undelimited blanks := undelimited_blanks hb
  have hnone (after : Text) : pairLength? ',' (blanks ++ '}' :: after) = none := by
    rw [pairLength?_blanks hb (by decide), if_neg (by decide)]
  rw [joinCommas,
    replacePair_append (hbefore.notMem (by decide)), replacePair_cons_of_ne (by decide),
    replacePair_append (hinner.notMem (by decide)), replacePair_cons_of_ne (by decide),
    replacePair_append (hbefore.notMem (by decide)), replacePair_cons_of_none (hnone _),
    replacePair_append (hinner.notMem (by decide)), replacePair_cons_of_ne (by decide),
    replacePair_append (hbefore.notMem (by decide)), replacePair_cons_of_ne (by decide),
    replacePair_append (hinner.notMem (by decide)), replacePair_cons_of_ne (by decide), joinCommas]

variable (hw : IsItem w) (hws : ∀ t ∈ ws, IsItem t)

include hw hws

/-- Among the items of a list no pair of delimiters begins. -/
theorem replacePair_list (hfirst : isDefaultChar first = false)
    (hlast : isDefaultChar last = false) (rest : Text) :
    replacePair first last new (before ++ '{' :: (w ++ (following ',' ws ++ rest))) =
      before ++ '{' :: (w ++ (following ',' ws ++ replacePair first last new rest)) := by
  have hfollowing : replacePair first last new (following ',' ws ++ rest) =
      following ',' ws ++ replacePair first last new rest := by
    clear hw
    induction ws with
    | nil => rfl
    | cons u us ih =>
      obtain ⟨hu, hus⟩ := List.forall_mem_cons.mp hws
      rw [following_cons, List.cons_append, List.append_assoc,
        replacePair_cons_of_none (hu.pairLength?_eq_none hlast _),
        replacePair_append (hu.1.notMem hfirst), ih hus, List.cons_append, List.append_assoc]
  rw [replacePair_append (hbefore.notMem hfirst),
    replacePair_cons_of_none (hw.pairLength?_eq_none hlast _),
    replacePair_append (hw.1.notMem hfirst), hfollowing]

/-- The items of a list in braces stay as they are. -/
theorem joinCommas_list (after : Text) :
    joinCommas (before ++ '{' :: (w ++ (following ',' ws ++ '}' :: after))) =
      before ++ '{' :: (w ++ (following ',' ws ++ '}' :: joinCommas after)) := by
  rw [joinCommas,
    replacePair_list hbefore hw hws (by decide) (by decide), replacePair_cons_of_ne (by decide),
    replacePair_list hbefore hw hws (by decide) (by decide), replacePair_cons_of_ne (by decide),
    replacePair_list hbefore hw hws (by decide) (by decide), replacePair_cons_of_ne (by decide),
    joinCommas]

/-- Of a list in braces the comma at its end is taken. -/
theorem joinCommas_list_open (hb : IsBlanks blanks) (after : Text) :
    joinCommas (before ++ '{' :: (w ++ (following ',' ws ++ ',' :: (blanks ++ '}' :: after)))) =
      before ++ '{' :: (w ++ (following ',' ws ++ ' ' :: '}' :: joinCommas after)) := by
  have hinner : Undelimited blanks := undelimited_blanks hb
  have hnone (after : Text) : pairLength? ',' (blanks ++ '}' :: after) = none := by
    rw [pairLength?_blanks hb (by decide), if_neg (by decide)]
  have hsome (after : Text) :
      pairLength? '}' (blanks ++ '}' :: after) = some (blanks.length + 1) := by
    rw [pairLength?_blanks hb (by decide), if_pos rfl]
  have hdrop (after : Text) : (blanks ++ '}' :: after).drop (blanks.length + 1) = after := by
    rw [List.append_cons, List.drop_left' (by simp)]
  rw [joinCommas,
    replacePair_list hbefore hw hws (by decide) (by decide), replacePair_cons_of_none (hnone _),
    replacePair_append (hinner.notMem (by decide)), replacePair_cons_of_ne (by decide),
    replacePair_list hbefore hw hws (by decide) (by decide), replacePair_cons_of_ne (by decide),
    replacePair_append (hinner.notMem (by decide)), replacePair_cons_of_ne (by decide),
    replacePair_list hbefore hw hws (by decide) (by decide), replacePair_cons_of_some (hsome _),
    hdrop, joinCommas]
  rfl

end Lists

end Spruce.Declaration
