import Spruce.Proofs.Declaration.Joining

/-!
# Hollow pairs of braces

A pair of braces is hollow where nothing but blanks and commas stands in it, and empty where no
comma does. Of the commas in a row joining leaves one for two, and takes one next to each brace: it
empties the hollow pairs of at most four commas and no others (`emptyPairs_joinCommas`). Where two
texts meet one more hollow pair can come about (`hollowPairs_append`).
-/

namespace Spruce.Declaration

open Text

variable {first last c : Char} {k : Nat} {r s t blanks : Text}

/-! ### Closing braces -/

/-- Whether a closing brace stands at the start of a text, after blanks and at most `k` commas. -/
def closesWithin : Nat → Text → Bool
  | _, [] => false
  | k, c :: r =>
    if isBlank c then closesWithin k r
    else if c = ',' then k != 0 && closesWithin (k - 1) r
    else c = '}'

/-- Nothing but blanks and commas. -/
def IsFilling (t : Text) : Prop := ∀ c ∈ t, isBlank c = true ∨ c = ','

private theorem closesWithin_blank (h : isBlank c = true) (k : Nat) (r : Text) :
    closesWithin k (c :: r) = closesWithin k r := by
  rw [closesWithin, if_pos h]

private theorem closesWithin_comma_zero (r : Text) : closesWithin 0 (',' :: r) = false := rfl

private theorem closesWithin_comma (k : Nat) (r : Text) :
    closesWithin (k + 1) (',' :: r) = closesWithin k r := rfl

private theorem closesWithin_stop (hb : isBlank c = false) (hc : c ≠ ',') (k : Nat) (r : Text) :
    closesWithin k (c :: r) = decide (c = '}') := by
  rw [closesWithin, if_neg (by simp [hb]), if_neg hc]

private theorem closesWithin_blanks (h : IsBlanks blanks) (k : Nat) (r : Text) :
    closesWithin k (blanks ++ r) = closesWithin k r := by
  induction blanks with
  | nil => rfl
  | cons c blanks ih =>
    obtain ⟨hc, hblanks⟩ := List.forall_mem_cons.mp h
    rw [List.cons_append, closesWithin_blank hc, ih hblanks]

private theorem blanks_cases (t : Text) :
    IsBlanks t ∨ ∃ blanks c r, t = blanks ++ c :: r ∧ IsBlanks blanks ∧ isBlank c = false := by
  by_cases h : IsBlanks t
  · exact .inl h
  · exact .inr (exists_of_not_blanks h)

private theorem closesWithin_of_blanks (h : IsBlanks t) (k : Nat) : closesWithin k t = false := by
  rw [← List.append_nil t, closesWithin_blanks h]
  rfl

private theorem pairLength?_of_blanks (h : IsBlanks t) (last : Char) :
    pairLength? last t = none := by
  rw [pairLength?, List.dropWhile_eq_nil_iff.mpr h]

private theorem closesWithin_eq (h : pairLength? ',' t = none) (k j : Nat) :
    closesWithin k t = closesWithin j t := by
  rcases blanks_cases t with hb | ⟨blanks, c, r, rfl, hb, hc⟩
  · rw [closesWithin_of_blanks hb, closesWithin_of_blanks hb]
  · have hcomma : c ≠ ',' := by
      rintro rfl
      rw [pairLength?_blanks hb hc, if_pos rfl] at h
      cases h
    rw [closesWithin_blanks hb, closesWithin_blanks hb, closesWithin_stop hc hcomma,
      closesWithin_stop hc hcomma]

private theorem closesWithin_zero (t : Text) :
    closesWithin 0 t = (pairLength? '}' t).isSome := by
  rcases blanks_cases t with hb | ⟨blanks, c, r, rfl, hb, hc⟩
  · rw [closesWithin_of_blanks hb, pairLength?_of_blanks hb]
    rfl
  · rw [closesWithin_blanks hb, pairLength?_blanks hb hc]
    by_cases hcomma : c = ','
    · subst hcomma
      rfl
    · rw [closesWithin_stop hc hcomma]
      split <;> simp [*]

private theorem closesWithin_mono (k : Nat) (t : Text) (h : closesWithin k t = true) :
    closesWithin (k + 1) t = true := by
  induction t generalizing k with
  | nil => cases h
  | cons c r ih =>
    by_cases hb : isBlank c = true
    · rw [closesWithin_blank hb] at h ⊢
      exact ih k h
    · by_cases hc : c = ','
      · subst hc
        cases k with
        | zero => cases h
        | succ k => exact ih k h
      · rw [closesWithin_stop (Bool.not_eq_true _ ▸ hb) hc] at h ⊢
        exact h

/-- An item keeps a closing brace after it apart from what stands before it. -/
theorem IsItem.closesWithin_eq_false (h : IsItem t) (k : Nat) (r : Text) :
    closesWithin k (t ++ r) = false := by
  obtain ⟨hundelimited, hblank⟩ := h
  obtain ⟨blanks, c, u, rfl, hb, hc⟩ := exists_of_not_blanks hblank
  have hne {d : Char} (hd : isDefaultChar d = false) : c ≠ d := by
    rintro rfl
    rw [hundelimited c (by simp)] at hd
    cases hd
  rw [List.append_assoc, List.cons_append, closesWithin_blanks hb,
    closesWithin_stop hc (hne (by decide)), decide_eq_false (hne (by decide))]

/-! ### Pairs of braces -/

/-- The number of pairs of braces with nothing but blanks and at most `k` commas in them. -/
def hollowPairs (k : Nat) : Text → Nat
  | [] => 0
  | c :: r => (if c = '{' ∧ closesWithin k r = true then 1 else 0) + hollowPairs k r

/-- The number of pairs of braces with nothing but blanks in them. -/
def emptyPairs (t : Text) : Nat := hollowPairs 0 t

private theorem hollowPairs_cons (k : Nat) (c : Char) (r : Text) : hollowPairs k (c :: r) =
    (if c = '{' ∧ closesWithin k r = true then 1 else 0) + hollowPairs k r := rfl

/-- No pair begins at a character that is no opening brace. -/
theorem hollowPairs_cons_of_ne (h : c ≠ '{') (k : Nat) (r : Text) :
    hollowPairs k (c :: r) = hollowPairs k r := by
  rw [hollowPairs_cons, if_neg (fun hc ↦ h hc.1), Nat.zero_add]

/-- No pair begins in a text without an opening brace. -/
theorem hollowPairs_append_of_notMem (h : '{' ∉ s) (k : Nat) (t : Text) :
    hollowPairs k (s ++ t) = hollowPairs k t := by
  induction s with
  | nil => rfl
  | cons c s ih =>
    obtain ⟨hc, hs⟩ := not_or.mp (mt List.mem_cons.mpr h)
    rw [List.cons_append, hollowPairs_cons_of_ne (Ne.symm hc), ih hs]

private theorem hollowPairs_mono (k : Nat) (t : Text) :
    hollowPairs k t ≤ hollowPairs (k + 1) t := by
  induction t with
  | nil => exact Nat.le_refl 0
  | cons c r ih =>
    rw [hollowPairs_cons, hollowPairs_cons]
    refine Nat.add_le_add ?_ ih
    split
    · next h => rw [if_pos ⟨h.1, closesWithin_mono k r h.2⟩]
    · exact Nat.zero_le _

/-- A pair with nothing but blanks in it may as well hold commas. -/
theorem emptyPairs_le_hollowPairs (k : Nat) (t : Text) : emptyPairs t ≤ hollowPairs k t := by
  induction k with
  | zero => exact Nat.le_refl _
  | succ k ih => exact ih.trans (hollowPairs_mono k t)

/-- A text holds an empty pair of braces where their number is not zero. -/
theorem holdsPair_eq_emptyPairs (t : Text) : holdsPair '{' '}' t = decide (emptyPairs t ≠ 0) := by
  induction t with
  | nil => rfl
  | cons c r ih =>
    rw [emptyPairs] at ih ⊢
    rw [holdsPair, ih, hollowPairs_cons, closesWithin_zero]
    by_cases hc : c = '{' <;> cases (pairLength? '}' r).isSome <;> simp [hc]

/-! ### Joining commas -/

section Joining

variable {f : Nat → Nat} {out : Text}

/-- A first character that stays does not change how closing braces before and after correspond,
unless it is a comma. -/
theorem closesWithin_kept (h : ∀ k, closesWithin k out = closesWithin (f k) r)
    (hcomma : c = ',' → ∀ k, closesWithin k (',' :: out) = closesWithin (f k) (',' :: r))
    (k : Nat) : closesWithin k (c :: out) = closesWithin (f k) (c :: r) := by
  by_cases hb : isBlank c = true
  · rw [closesWithin_blank hb, closesWithin_blank hb, h]
  · by_cases hc : c = ','
    · subst hc
      exact hcomma rfl k
    · have hblank : isBlank c = false := Bool.not_eq_true _ ▸ hb
      rw [closesWithin_stop hblank hc, closesWithin_stop hblank hc]

private theorem hollowPairs_kept (hcloses : ∀ k, closesWithin k out = closesWithin (f k) r)
    (hhollow : ∀ k, hollowPairs k out = hollowPairs (f k) r) (c : Char) (k : Nat) :
    hollowPairs k (c :: out) = hollowPairs (f k) (c :: r) := by
  rw [hollowPairs_cons, hollowPairs_cons, hcloses, hhollow]

private theorem hollowPairs_pair (hb : IsBlanks blanks) (hfirst : first ≠ '{') (hlast : last ≠ '{')
    (k : Nat) (r : Text) :
    hollowPairs k (first :: (blanks ++ last :: r)) = hollowPairs k r := by
  have hblanks : '{' ∉ blanks := hb.notMem (by decide)
  have hnot : '{' ∉ first :: (blanks ++ [last]) := by
    simp [hblanks, Ne.symm hfirst, Ne.symm hlast]
  rw [List.append_cons, ← List.cons_append]
  exact hollowPairs_append_of_notMem hnot k r

/-- Of two commas one stays: a pair of braces holds at most `k` commas where it held at most twice
as many. -/
theorem hollow_double (t : Text) :
    (∀ k, closesWithin k (replacePair ',' ',' [','] t) = closesWithin (2 * k) t) ∧
      ∀ k, hollowPairs k (replacePair ',' ',' [','] t) = hollowPairs (2 * k) t := by
  refine replacePair_induction (motive := fun t out ↦
    (∀ k, closesWithin k out = closesWithin (2 * k) t) ∧
      ∀ k, hollowPairs k out = hollowPairs (2 * k) t) ⟨fun _ ↦ rfl, fun _ ↦ rfl⟩ ?_ ?_ t
  · rintro c r out hnone ⟨hcloses, hhollow⟩
    refine ⟨closesWithin_kept hcloses ?_, hollowPairs_kept hcloses hhollow c⟩
    rintro hc (- | k)
    · rfl
    · -- A comma that stays is the last one in its row, so one more makes no difference.
      rw [closesWithin_comma, hcloses, Nat.mul_succ, closesWithin_comma]
      exact closesWithin_eq (hnone hc) _ _
  · rintro blanks rest out hb ⟨hcloses, hhollow⟩
    refine ⟨?_, fun k ↦ ?_⟩
    · rintro (- | k)
      · rfl
      · rw [Nat.mul_succ, closesWithin_comma, closesWithin_blanks hb, closesWithin_comma]
        exact hcloses k
    · rw [hollowPairs_pair hb (by decide) (by decide), ← hhollow]
      exact hollowPairs_cons_of_ne (by decide) k out

/-- The comma after an opening brace goes, so that the pair holds one less. -/
theorem hollow_opening (t : Text) :
    (∀ k, closesWithin k (replacePair '{' ',' ['{', ' '] t) = closesWithin k t) ∧
      ∀ k, hollowPairs k (replacePair '{' ',' ['{', ' '] t) = hollowPairs (k + 1) t := by
  refine replacePair_induction (motive := fun t out ↦
    (∀ k, closesWithin k out = closesWithin k t) ∧
      ∀ k, hollowPairs k out = hollowPairs (k + 1) t) ⟨fun _ ↦ rfl, fun _ ↦ rfl⟩ ?_ ?_ t
  · rintro c r out hnone ⟨hcloses, hhollow⟩
    refine ⟨closesWithin_kept (f := id) hcloses ?_, fun k ↦ ?_⟩
    · rintro - (- | k)
      · rfl
      · exact hcloses k
    · rw [hollowPairs_cons, hollowPairs_cons, hcloses, hhollow]
      by_cases hc : c = '{'
      · rw [closesWithin_eq (hnone hc) k (k + 1)]
      · simp [hc]
  · rintro blanks rest out hb ⟨hcloses, hhollow⟩
    refine ⟨fun k ↦ rfl, fun k ↦ ?_⟩
    have hblanks : '{' ∉ blanks := hb.notMem (by decide)
    have hout : hollowPairs k (' ' :: out) = hollowPairs k out :=
      hollowPairs_cons_of_ne (by decide) k out
    have hrest : hollowPairs (k + 1) (blanks ++ ',' :: rest) = hollowPairs (k + 1) rest := by
      rw [List.append_cons]
      exact hollowPairs_append_of_notMem (by simp [hblanks]) (k + 1) rest
    have hinner : closesWithin k (' ' :: out) = closesWithin (k + 1) (blanks ++ ',' :: rest) := by
      rw [closesWithin_blanks hb, closesWithin_comma, closesWithin_blank (by decide), hcloses]
    rw [List.cons_append, List.singleton_append, hollowPairs_cons k '{', hout,
      hollowPairs_cons (k + 1) '{', hrest, hhollow, hinner]

/-- The comma before a closing brace goes, so that the pair holds one less. -/
theorem hollow_closing (t : Text) :
    (∀ k, closesWithin k (replacePair ',' '}' [' ', '}'] t) = closesWithin (k + 1) t) ∧
      ∀ k, hollowPairs k (replacePair ',' '}' [' ', '}'] t) = hollowPairs (k + 1) t := by
  refine replacePair_induction (motive := fun t out ↦
    (∀ k, closesWithin k out = closesWithin (k + 1) t) ∧
      ∀ k, hollowPairs k out = hollowPairs (k + 1) t) ⟨fun _ ↦ rfl, fun _ ↦ rfl⟩ ?_ ?_ t
  · rintro c r out hnone ⟨hcloses, hhollow⟩
    refine ⟨closesWithin_kept hcloses ?_, hollowPairs_kept hcloses hhollow c⟩
    rintro hc (- | k)
    · rw [closesWithin_comma, closesWithin_comma_zero, closesWithin_zero, hnone hc]
      rfl
    · rw [closesWithin_comma, closesWithin_comma, hcloses]
  · rintro blanks rest out hb ⟨-, hhollow⟩
    refine ⟨fun k ↦ ?_, fun k ↦ ?_⟩
    · rw [closesWithin_comma, closesWithin_blanks hb]
      rfl
    · rw [hollowPairs_pair hb (by decide) (by decide), ← hhollow]
      exact hollowPairs_append_of_notMem (s := [' ', '}']) (by decide) k out

/-- Joining the commas of a text empties the pairs of braces that hold at most four of them, and no
others. -/
theorem emptyPairs_joinCommas (t : Text) : emptyPairs (joinCommas t) = hollowPairs 4 t := by
  rw [emptyPairs, joinCommas, (hollow_closing _).2, (hollow_opening _).2, (hollow_double _).2]

end Joining

/-! ### Pairs across two texts -/

/-- After nothing but blanks and commas in `s` a closing brace stands in `t`, with at most `k`
commas before it in both. -/
def Bridges (k : Nat) (s t : Text) : Prop :=
  IsFilling s ∧ ∃ j, s.count ',' + j = k ∧ closesWithin j t = true

/-- A pair of braces begins in `s` and ends in `t`, with nothing but blanks and at most `k` commas
between. -/
def Spans (k : Nat) (s t : Text) : Prop :=
  ∃ head left, s = head ++ '{' :: left ∧ Bridges k left t

private theorem isFilling_cons : IsFilling (c :: t) ↔ (isBlank c = true ∨ c = ',') ∧ IsFilling t :=
  List.forall_mem_cons

/-- Only blanks and commas occur in a filling. -/
theorem IsFilling.notMem (h : IsFilling t) (hb : isBlank c = false) (hc : c ≠ ',') : c ∉ t := by
  intro hm
  rcases h c hm with hblank | hcomma
  · rw [hb] at hblank
    cases hblank
  · exact hc hcomma

/-- A closing brace is found in the first text, or after it in the second. -/
theorem closesWithin_append (k : Nat) (s t : Text) : closesWithin k (s ++ t) = true ↔
    closesWithin k s = true ∨ Bridges k s t := by
  induction s generalizing k with
  | nil => simp [closesWithin, Bridges, IsFilling]
  | cons c s ih =>
    rw [List.cons_append]
    by_cases hb : isBlank c = true
    · have hc : c ≠ ',' := by
        rintro rfl
        cases hb
      rw [closesWithin_blank hb, closesWithin_blank hb, ih, Bridges, Bridges, isFilling_cons,
        List.count_cons_of_ne hc]
      simp [hb]
    · by_cases hc : c = ','
      · subst hc
        cases k with
        | zero => simp [closesWithin_comma_zero, Bridges]
        | succ k =>
          rw [closesWithin_comma, closesWithin_comma, ih, Bridges, Bridges, isFilling_cons,
            List.count_cons_self]
          have hsum (j : Nat) : s.count ',' + 1 + j = k + 1 ↔ s.count ',' + j = k := by omega
          simp [hsum]
      · rw [closesWithin_stop (Bool.not_eq_true _ ▸ hb) hc,
          closesWithin_stop (Bool.not_eq_true _ ▸ hb) hc, Bridges, isFilling_cons]
        simp [hb, hc]

private theorem spans_cons (k : Nat) (c : Char) (s t : Text) : Spans k (c :: s) t ↔
    c = '{' ∧ Bridges k s t ∨ Spans k s t := by
  constructor
  · rintro ⟨head, left, hs, hb⟩
    cases head with
    | nil =>
      obtain ⟨rfl, rfl⟩ := List.cons.inj hs
      exact .inl ⟨rfl, hb⟩
    | cons d head =>
      obtain ⟨rfl, rfl⟩ := List.cons.inj hs
      exact .inr ⟨head, left, rfl, hb⟩
  · rintro (⟨rfl, hb⟩ | ⟨head, left, rfl, hb⟩)
    · exact ⟨[], s, rfl, hb⟩
    · exact ⟨c :: head, left, rfl, hb⟩

private theorem Spans.mem (h : Spans k s t) : '{' ∈ s := by
  obtain ⟨head, left, rfl, -⟩ := h
  simp

private theorem not_isFilling_of_closesWithin (h : closesWithin k s = true) : ¬ IsFilling s := by
  intro hs
  induction s generalizing k with
  | nil => cases h
  | cons c s ih =>
    obtain ⟨hb | rfl, hrest⟩ := isFilling_cons.mp hs
    · rw [closesWithin_blank hb] at h
      exact ih h hrest
    · cases k with
      | zero => cases h
      | succ k => exact ih h hrest

open Classical in
/-- Two texts have the pairs of each and perhaps one that begins in the first and ends in the
second. -/
theorem hollowPairs_append (k : Nat) (s t : Text) : hollowPairs k (s ++ t) =
    hollowPairs k s + hollowPairs k t + if Spans k s t then 1 else 0 := by
  induction s with
  | nil => simp [hollowPairs, Spans]
  | cons c s ih =>
    rw [List.cons_append, hollowPairs_cons, hollowPairs_cons, ih]
    simp only [closesWithin_append]
    by_cases hc : c = '{'
    · -- A brace that is still open at the end of `s` has only filling after it in `s`: it is not
      -- closed in `s`, and no other brace opens after it.
      have hexclusive : Bridges k s t → ¬ Spans k s t ∧ closesWithin k s ≠ true := by
        rintro ⟨hfilling, -⟩
        exact ⟨fun hspans ↦ hfilling.notMem (by decide) (by decide) hspans.mem,
          fun h ↦ not_isFilling_of_closesWithin h hfilling⟩
      by_cases hb : Bridges k s t
      · obtain ⟨hspans, hcloses⟩ := hexclusive hb
        simp only [spans_cons, hc, hb, hspans, hcloses, true_and, or_true, if_true,
          Bool.false_eq_true, if_false, or_false]
        omega
      · simp only [spans_cons, hc, hb, true_and, and_false, or_false, false_or]
        omega
    · simp only [spans_cons, hc, false_and, false_or, if_false]
      omega

/-! ### Moving the place where texts meet -/

/-- Blanks at the border of two texts do not change which pairs span it. -/
theorem spans_blanks_append (hb : IsBlanks blanks) :
    Spans k s (blanks ++ t) ↔ Spans k s t := by
  simp only [Spans, Bridges, closesWithin_blanks hb]

/-- A comma right behind the border counts among the commas of a pair that spans it. -/
theorem spans_comma_cons : Spans (k + 1) s (',' :: t) ↔ Spans k s t := by
  have hbridges (left : Text) : Bridges (k + 1) left (',' :: t) ↔ Bridges k left t := by
    constructor
    · rintro ⟨hfilling, - | j, hj, hcloses⟩
      · cases hcloses
      · exact ⟨hfilling, j, by omega, hcloses⟩
    · rintro ⟨hfilling, j, hj, hcloses⟩
      exact ⟨hfilling, j + 1, by omega, hcloses⟩
  simp only [Spans, hbridges]

/-- A comma right before the border counts among the commas of a pair that spans it. -/
theorem spans_append_comma : Spans (k + 1) (s ++ [',']) t ↔ Spans k s t := by
  have hbridges (left : Text) : Bridges (k + 1) (left ++ [',']) t ↔ Bridges k left t := by
    have hfilling : IsFilling (left ++ [',']) ↔ IsFilling left := by
      rw [IsFilling, List.forall_mem_append, ← IsFilling]
      simp
    have hsum (j : Nat) : (left ++ [',']).count ',' + j = k + 1 ↔ left.count ',' + j = k := by
      rw [List.count_append, List.count_singleton_self]
      omega
    simp only [Bridges, hfilling, hsum]
  constructor
  · rintro ⟨head, left, hs, hb⟩
    rcases List.eq_nil_or_concat left with rfl | ⟨left, c, hleft⟩
    · exact absurd (List.append_inj' hs rfl).2 (by decide)
    · rw [List.concat_eq_append] at hleft
      subst hleft
      rw [← List.cons_append, ← List.append_assoc] at hs
      obtain ⟨rfl, hc⟩ := List.append_inj' hs rfl
      rw [← hc] at hb
      exact ⟨head, left, rfl, (hbridges left).mp hb⟩
  · rintro ⟨head, left, rfl, hb⟩
    exact ⟨head, left ++ [','], by simp, (hbridges left).mpr hb⟩

/-- A comma at the end of a text ends no pair. -/
theorem hollowPairs_append_comma (k : Nat) (s : Text) :
    hollowPairs k (s ++ [',']) = hollowPairs k s := by
  have hnot : ¬ Spans k s [','] := by
    rintro ⟨head, left, rfl, -, - | j, -, hcloses⟩ <;> cases hcloses
  rw [hollowPairs_append, if_neg hnot]
  rfl

/-- No hollow pair runs across an item. -/
theorem IsItem.not_spans {item : Text} (h : IsItem item) : ¬ Spans k s (item ++ t) := by
  rintro ⟨head, left, rfl, -, j, -, hcloses⟩
  rw [h.closesWithin_eq_false] at hcloses
  cases hcloses

end Spruce.Declaration
