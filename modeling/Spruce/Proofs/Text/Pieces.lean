import Spruce.Proofs.Text.Runs

/-!
# Pieces of a text

A text is cut at a separator into pieces that do not have it, and texts that are joined by a
separator are split into themselves (`split_joinWith`). Blanks around a text are trimmed away with
its own (`trim_blanks_append`, `trim_append_blanks`).
-/

namespace Spruce.Text

variable {sep : Char} {t piece : Text}

/-! ### Splitting -/

/-- There is always a piece. -/
theorem split_ne_nil (sep : Char) (t : Text) : split sep t ≠ [] := by
  cases t with
  | nil => simp [split]
  | cons c r =>
    simp only [split]
    split
    · simp
    · split <;> simp

/-- A text without the separator is one piece. -/
theorem split_of_notMem (h : sep ∉ t) : split sep t = [t] := by
  induction t with
  | nil => rfl
  | cons c r ih =>
    obtain ⟨hc, hr⟩ := not_or.mp (mt List.mem_cons.mpr h)
    rw [split, if_neg (Ne.symm hc), ih hr]

/-- The pieces before a separator come before the pieces after it. -/
theorem split_append (sep : Char) (s t : Text) :
    split sep (s ++ sep :: t) = split sep s ++ split sep t := by
  induction s with
  | nil => simp [split]
  | cons c s ih =>
    rw [List.cons_append, split, split]
    split
    · rw [ih, List.cons_append]
    · rw [ih]
      cases hs : split sep s with
      | nil => exact absurd hs (split_ne_nil sep s)
      | cons first others => rfl

/-- No piece has a separator in it. -/
theorem notMem_of_mem_split (h : piece ∈ split sep t) : sep ∉ piece := by
  induction t generalizing piece with
  | nil =>
    rw [split, List.mem_singleton] at h
    simp [h]
  | cons c r ih =>
    simp only [split] at h
    split at h
    · rcases List.mem_cons.mp h with rfl | hr
      · exact List.not_mem_nil
      · exact ih hr
    · next hc =>
      cases hs : split sep r with
      | nil => exact absurd hs (split_ne_nil sep r)
      | cons first others =>
        simp only [hs] at h ih
        rcases List.mem_cons.mp h with rfl | ho
        · have hf := ih List.mem_cons_self
          simp [hf, Ne.symm hc]
        · exact ih (List.mem_cons_of_mem first ho)

/-- The characters of a piece are characters of the text. -/
theorem subset_of_mem_split (h : piece ∈ split sep t) : piece ⊆ t := by
  induction t generalizing piece with
  | nil =>
    rw [split, List.mem_singleton] at h
    simp [h]
  | cons c r ih =>
    simp only [split] at h
    split at h
    · rcases List.mem_cons.mp h with rfl | hr
      · exact List.nil_subset _
      · exact List.subset_cons_of_subset c (ih hr)
    · cases hs : split sep r with
      | nil => exact absurd hs (split_ne_nil sep r)
      | cons first others =>
        simp only [hs] at h ih
        rcases List.mem_cons.mp h with rfl | ho
        · exact List.cons_subset_cons c (ih List.mem_cons_self)
        · exact List.subset_cons_of_subset c (ih (List.mem_cons_of_mem first ho))

/-! ### Cutting at one separator -/

/-- There is no first separator exactly when none occurs. -/
theorem splitFirst_eq_none_iff : splitFirst sep t = none ↔ sep ∉ t := by
  induction t with
  | nil => simp [splitFirst]
  | cons c r ih =>
    rw [splitFirst]
    split
    · next hc => simp [hc]
    · next hc => simp [ih, Ne.symm hc]

/-- A text is cut at the first separator in it. -/
theorem splitFirst_eq_some_iff {before after : Text} : splitFirst sep t = some (before, after) ↔
    t = before ++ sep :: after ∧ sep ∉ before := by
  induction t generalizing before after with
  | nil => simp [splitFirst]
  | cons c r ih =>
    rw [splitFirst]
    split
    · next hc =>
      subst hc
      cases before with
      | nil => simp
      | cons d before => simp +contextual [eq_comm]
    · next hc =>
      cases before with
      | nil => simp [hc]
      | cons d before =>
        simp only [Option.map_eq_some_iff, Prod.exists, ih, List.cons_append, List.cons.injEq,
          List.mem_cons, not_or, Prod.mk.injEq]
        constructor
        · rintro ⟨_, _, ⟨rfl, hb⟩, ⟨rfl, rfl⟩, rfl⟩
          exact ⟨⟨rfl, rfl⟩, Ne.symm hc, hb⟩
        · rintro ⟨⟨rfl, rfl⟩, -, hb⟩
          exact ⟨before, after, ⟨rfl, hb⟩, ⟨rfl, rfl⟩, rfl⟩

/-- There is no last separator exactly when none occurs. -/
theorem splitLast_eq_none_iff : splitLast sep t = none ↔ sep ∉ t := by
  rw [splitLast, Option.map_eq_none_iff, splitFirst_eq_none_iff, List.mem_reverse]

/-- A text is cut at the last separator in it. -/
theorem splitLast_eq_some_iff {before after : Text} : splitLast sep t = some (before, after) ↔
    t = before ++ sep :: after ∧ sep ∉ after := by
  simp only [splitLast, Option.map_eq_some_iff, Prod.exists, Prod.mk.injEq, splitFirst_eq_some_iff]
  constructor
  · rintro ⟨_, _, ⟨ht, ha⟩, rfl, rfl⟩
    refine ⟨?_, by simpa using ha⟩
    rw [← List.reverse_reverse t, ht]
    simp
  · rintro ⟨rfl, ha⟩
    exact ⟨after.reverse, before.reverse, ⟨by simp, by simpa using ha⟩, by simp, by simp⟩

/-! ### Joining -/

/-- The texts with a separator before each. -/
def following (sep : Char) (texts : List Text) : Text := texts.flatMap (sep :: ·)

/-- The texts with a separator after each. -/
def leading (sep : Char) (texts : List Text) : Text := texts.flatMap (· ++ [sep])

/-- The first text stands behind a separator, and the others follow. -/
theorem following_cons (sep : Char) (t : Text) (ts : List Text) :
    following sep (t :: ts) = sep :: (t ++ following sep ts) := rfl

/-- The first text stands before a separator, and the others come next. -/
theorem leading_cons (sep : Char) (t : Text) (ts : List Text) :
    leading sep (t :: ts) = t ++ sep :: leading sep ts := by
  simp [leading]

/-- After the first of some joined texts, each has a separator before it. -/
theorem joinWith_cons (sep : Char) (t : Text) (ts : List Text) :
    joinWith [sep] (t :: ts) = t ++ following sep ts := by
  induction ts generalizing t with
  | nil => simp [joinWith, following]
  | cons u us ih =>
    have hu := ih u
    rw [joinWith] at hu
    rw [joinWith, List.intercalate_cons_cons, hu, following_cons]
    simp

/-- Around one of some joined texts, a separator stands after each text before it and before each
text after it. -/
theorem joinWith_append_cons (sep : Char) (left : List Text) (t : Text) (right : List Text) :
    joinWith [sep] (left ++ t :: right) = leading sep left ++ (t ++ following sep right) := by
  induction left with
  | nil => exact joinWith_cons sep t right
  | cons u us ih =>
    have hu : joinWith [sep] (u :: (us ++ t :: right)) =
        u ++ sep :: joinWith [sep] (us ++ t :: right) := by
      cases us with
      | nil => rw [List.nil_append, joinWith_cons, joinWith_cons, following_cons]
      | cons v vs => rw [List.cons_append, joinWith_cons, joinWith_cons, following_cons]
    rw [List.cons_append, hu, ih, leading_cons, List.append_assoc, List.cons_append]

/-- What stands after the last of some joined texts joins it. -/
theorem joinWith_append (sep : Char) (ts : List Text) (t r : Text) :
    joinWith [sep] (ts ++ [t]) ++ r = joinWith [sep] (ts ++ [t ++ r]) := by
  simp [joinWith_append_cons, following]

/-- A character of joined texts is the separator or a character of one of them. -/
theorem mem_joinWith {ts : List Text} {c : Char} (h : c ∈ joinWith [sep] ts) :
    c = sep ∨ ∃ t ∈ ts, c ∈ t := by
  cases ts with
  | nil => cases h
  | cons t ts =>
    rw [joinWith_cons, List.mem_append, following, List.mem_flatMap] at h
    rcases h with h | ⟨u, hu, h⟩
    · exact .inr ⟨t, List.mem_cons_self, h⟩
    · rcases List.mem_cons.mp h with rfl | h
      · exact .inl rfl
      · exact .inr ⟨u, List.mem_cons_of_mem t hu, h⟩

/-- A text and others after it, without the separator, are the pieces of what they make up. -/
theorem split_append_following {ts : List Text} (ht : sep ∉ t) (hts : ∀ u ∈ ts, sep ∉ u) :
    split sep (t ++ following sep ts) = t :: ts := by
  induction ts generalizing t with
  | nil => simp [following, split_of_notMem ht]
  | cons u us ih =>
    obtain ⟨hu, hus⟩ := List.forall_mem_cons.mp hts
    rw [following_cons, split_append, split_of_notMem ht, ih hu hus, List.singleton_append]

/-- Joined texts without the separator are split into themselves. -/
theorem split_joinWith {ts : List Text} (hne : ts ≠ []) (hts : ∀ u ∈ ts, sep ∉ u) :
    split sep (joinWith [sep] ts) = ts := by
  cases ts with
  | nil => exact absurd rfl hne
  | cons t ts =>
    obtain ⟨ht, hts⟩ := List.forall_mem_cons.mp hts
    rw [joinWith_cons, split_append_following ht hts]

/-! ### Trimming -/

/-- A text is trimmed away as a whole exactly when it is blank. -/
theorem trim_eq_nil_iff : trim t = [] ↔ IsBlanks t := by
  constructor
  · intro h
    by_contra hb
    obtain ⟨blanks, c, r, rfl, hblanks, hc⟩ := exists_of_not_blanks hb
    rw [trim, hblanks.trimStart_append, trimStart_cons hc] at h
    exact List.append_ne_nil_of_right_ne_nil [] (List.cons_ne_nil c (trimEnd r))
      ((trimEnd_append_cons hc [] r).symm.trans h)
  · intro h
    rw [trim, h.trimStart_eq_nil]
    rfl

/-- Blanks before a text are trimmed away with its own. -/
theorem trim_blanks_append {blanks : Text} (h : IsBlanks blanks) (t : Text) :
    trim (blanks ++ t) = trim t := by
  rw [trim, h.trimStart_append, trim]

/-- Blanks after a text are trimmed away at its end. -/
theorem trimEnd_append_blanks {blanks : Text} (h : IsBlanks blanks) (t : Text) :
    trimEnd (t ++ blanks) = trimEnd t := by
  rw [trimEnd, List.reverse_append, List.dropWhile_append_of_pos fun c hc ↦
    h c (List.mem_reverse.mp hc), trimEnd]

/-- Blanks after a text are trimmed away with its own. -/
theorem trim_append_blanks {blanks : Text} (h : IsBlanks blanks) (t : Text) :
    trim (t ++ blanks) = trim t := by
  by_cases ht : IsBlanks t
  · rw [trim_eq_nil_iff.mpr ht, trim_blanks_append ht, trim_eq_nil_iff.mpr h]
  · obtain ⟨lead, c, r, rfl, hlead, hc⟩ := exists_of_not_blanks ht
    rw [List.append_assoc, trim_blanks_append hlead, trim_blanks_append hlead, List.cons_append,
      trim, trim, trimStart_cons hc, trimStart_cons hc, ← List.cons_append, trimEnd_append_blanks h]

/-! ### Occurrences -/

/-- A part occurs in a text exactly where the text can be cut before and after it. -/
theorem holds_iff_isInfix (part t : Text) : holds part t = true ↔ part <:+: t := by
  induction t with
  | nil => rw [holds, List.isEmpty_iff, List.infix_nil]
  | cons c r ih =>
    rw [holds, Bool.or_eq_true, ih, List.isPrefixOf_iff_prefix, List.infix_cons_iff]

/-- A part that ends in no blank does not occur in the blanks after a text. -/
theorem holds_append_blanks {blanks part : Text} (h : IsBlanks blanks) {c : Char}
    (hpart : part.getLast? = some c) (hc : isBlank c = false) (t : Text) :
    holds part (t ++ blanks) = holds part t := by
  obtain ⟨body, rfl⟩ := List.getLast?_eq_some_iff.mp hpart
  apply Bool.eq_iff_iff.mpr
  rw [holds_iff_isInfix, holds_iff_isInfix]
  constructor
  · rintro ⟨before, after, hcut⟩
    have hcut' : t ++ blanks = before ++ body ++ c :: after := by simp [← hcut]
    obtain ⟨after', ht, -⟩ := exists_of_append_blanks h hc hcut'
    exact ⟨before, after', by simp [ht]⟩
  · exact fun hin ↦ hin.trans (List.prefix_append t blanks).isInfix

end Spruce.Text
