import Mathlib.Data.Option.Basic
import Spruce.Proofs.Lint.Recognition
import Spruce.Proofs.Text.CharClass
import Spruce.Proofs.Text.Coloured

/-!
# The parts of a warning

Each scanner on a line of output is known by how it cuts the text (`digits?_eq_some_iff`,
`skipBlanks?_eq_some_iff`, `quotedName?_eq_some_iff`), and so is the start of a warning
(`warningStart?_eq_some_iff`). What follows the quoted name counts only for the phrases in it, none
of which ends in a blank; hence blanks at the end of a line make no difference to what it says
(`Line.ofText_append_blanks`).
-/

namespace Spruce

namespace Text

/-- No blank is a digit. -/
theorem isDigit_of_isBlank {c : Char} (h : isBlank c = true) : isDigit c = false := by
  have hi := isIdentifier_of_isBlank h
  simp only [isIdentifier, isAlphanumeric, isDigit, Bool.or_eq_false_iff] at hi ⊢
  split <;> simp_all

end Text

namespace Lint

open Text

variable {t r run line column name rest blanks : Text}

/-! ### Scanners -/

/-- Digits alone, at least one. -/
def IsNumeral (t : Text) : Prop := t ≠ [] ∧ ∀ c ∈ t, isDigit c = true

/-- Blanks alone, at least one. -/
def IsGap (t : Text) : Prop := t ≠ [] ∧ IsBlanks t

/-- A name that can stand between quotes. -/
def IsQuotable (t : Text) : Prop := t ≠ [] ∧ ∀ c ∈ t, isNameQuote c = false

/-- What is read as digits is a numeral that no further digit follows. -/
theorem digits?_eq_some_iff : digits? t = some (run, r) ↔
    t = run ++ r ∧ IsNumeral run ∧ ∀ c ∈ r.head?, isDigit c = false := by
  have hread : digits? t = some (run, r) ↔
      run ≠ [] ∧ t.takeWhile isDigit = run ∧ t.dropWhile isDigit = r := by
    rw [digits?]
    cases t.takeWhile isDigit with
    | nil => simp +contextual [eq_comm]
    | cons c cs => simp +contextual [eq_comm]
  rw [hread, takeWhile_dropWhile_iff, IsNumeral]
  tauto

/-- What is skipped is a gap that no further blank follows. -/
theorem skipBlanks?_eq_some_iff : skipBlanks? t = some r ↔
    ∃ gap, t = gap ++ r ∧ IsGap gap ∧ ∀ c ∈ r.head?, isBlank c = false := by
  constructor
  · intro h
    unfold skipBlanks? at h
    split at h
    · next c t =>
      split at h
      · next hc =>
        obtain ⟨ht, hrun, hr⟩ := takeWhile_dropWhile_iff.mp ⟨rfl, Option.some.inj h⟩
        refine ⟨c :: t.takeWhile isBlank, ?_, ⟨List.cons_ne_nil _ _, ?_⟩, hr⟩
        · rw [List.cons_append, ← ht]
        · exact List.forall_mem_cons.mpr ⟨hc, hrun⟩
      · cases h
    · cases h
  · rintro ⟨gap, rfl, ⟨hne, hgap⟩, hr⟩
    cases gap with
    | nil => exact absurd rfl hne
    | cons c gap =>
      obtain ⟨hc, hgap⟩ := List.forall_mem_cons.mp hgap
      rw [List.cons_append, skipBlanks?, if_pos hc, dropWhile_run hgap hr]

/-- What is read as a name stands between two quotes and can be quoted. -/
theorem quotedName?_eq_some_iff : quotedName? t = some (name, r) ↔
    ∃ q q', t = q :: (name ++ q' :: r) ∧ isNameQuote q = true ∧ isNameQuote q' = true ∧
      IsQuotable name := by
  constructor
  · intro h
    unfold quotedName? at h
    split at h
    · next q t =>
      split at h
      · next hq =>
        split at h
        · next c cs q' rest hname hrest =>
          obtain ⟨rfl, rfl⟩ := Prod.mk.inj (Option.some.inj h)
          obtain ⟨ht, hrun, hstop⟩ := takeWhile_dropWhile_iff.mp ⟨hname, hrest⟩
          refine ⟨q, q', congrArg (q :: ·) ht, hq, ?_, List.cons_ne_nil c cs, fun d hd ↦ ?_⟩
          · simpa using hstop q' rfl
          · simpa using hrun d hd
        · cases h
      · cases h
    · cases h
  · rintro ⟨q, q', rfl, hq, hq', hne, hname⟩
    exact quotedName?_append hne hname hq hq' r

/-- The text begins with the parts of a warning: after blanks a line and a column with a colon
between them, then the word for a warning and a quoted name, each after blanks. -/
def BeginsWarning (t line column name rest : Text) : Prop :=
  ∃ indent gap gap' q q',
    t = indent ++ line ++ ':' :: column ++ gap ++ warningWord ++ gap' ++ q :: name ++ q' :: rest ∧
      IsBlanks indent ∧ IsNumeral line ∧ IsNumeral column ∧ IsGap gap ∧ IsGap gap' ∧
      IsQuotable name ∧ isNameQuote q = true ∧ isNameQuote q' = true

private theorem isBlank_of_isNameQuote {q : Char} (h : isNameQuote q = true) :
    isBlank q = false := by
  simp only [isNameQuote, Bool.or_eq_true, beq_iff_eq] at h
  rcases h with rfl | rfl <;> decide

private theorem head?_append {p : Char → Bool} (hne : t ≠ []) (h : ∀ c ∈ t, p c = false)
    (r : Text) : ∀ c ∈ (t ++ r).head?, p c = false := by
  cases t with
  | nil => exact absurd rfl hne
  | cons d t =>
    rintro c ⟨⟩
    exact h d List.mem_cons_self

/-- The start of a warning is read exactly where it stands. -/
theorem warningStart?_eq_some_iff : warningStart? t = some (line, column, name, rest) ↔
    BeginsWarning t line column name rest := by
  simp only [warningStart?, Option.bind_eq_bind, Option.bind_eq_some_iff, Prod.exists,
    Option.some.injEq, Prod.mk.injEq, List.isPrefixOf?_eq_some_iff_append_eq,
    digits?_eq_some_iff, skipBlanks?_eq_some_iff, quotedName?_eq_some_iff]
  constructor
  · rintro ⟨line, afterLine, ⟨htrim, hline, -⟩, afterColon, rfl, column, afterColumn,
      ⟨rfl, hcolumn, -⟩, beforeWord, ⟨gap, rfl, hgap, -⟩, afterWord, rfl, message,
      ⟨gap', rfl, hgap', -⟩, name, rest, ⟨q, q', rfl, hq, hq', hname⟩, rfl, rfl, rfl, rfl⟩
    obtain ⟨indent, hindent, ht⟩ := exists_blanks t
    refine ⟨indent, gap, gap', q, q', ?_, hindent, hline, hcolumn, hgap, hgap', hname, hq, hq'⟩
    rw [ht, htrim]
    simp
  · rintro ⟨indent, gap, gap', q, q', rfl, hindent, hline, hcolumn, hgap, hgap', hname, hq, hq'⟩
    have hdigit : ∀ c ∈ line, isBlank c = false := by
      intro c hc
      by_contra hb
      rw [Bool.not_eq_false] at hb
      exact Bool.false_ne_true ((isDigit_of_isBlank hb).symm.trans (hline.2 c hc))
    have hblank : ∀ c ∈ gap, isDigit c = false := fun c hc ↦ isDigit_of_isBlank (hgap.2 c hc)
    have hquote : isBlank q = false := isBlank_of_isNameQuote hq
    refine ⟨line, _, ⟨?_, hline, ?_⟩, _, rfl, column, _, ⟨rfl, hcolumn, ?_⟩, _,
      ⟨gap, rfl, hgap, ?_⟩, _, rfl, _, ⟨gap', rfl, hgap', ?_⟩, name, rest,
      ⟨q, q', rfl, hq, hq', hname⟩, rfl, rfl, rfl, rfl⟩
    · simp only [List.append_assoc, List.cons_append]
      rw [hindent.trimStart_append, trimStart_of_head? (head?_append hline.1 hdigit _)]
      simp
    · rintro c ⟨⟩
      decide
    · exact head?_append hgap.1 hblank _
    · rintro c ⟨⟩
      decide
    · rintro c ⟨⟩
      exact hquote

/-- A warning has the parts of one and one of the phrases, and its position is two numbers. -/
theorem warning?_eq_some_iff {number place : Nat} : warning? t = some (number, place, name) ↔
    ∃ line column rest, BeginsWarning t line column name rest ∧
      (unusedPhrases.any fun phrase => holds phrase rest) = true ∧
      word64? line = some number ∧ word64? column = some place := by
  simp only [← warningStart?_eq_some_iff, warning?, Option.bind_eq_bind, Option.bind_eq_some_iff,
    Prod.exists, Option.some.injEq, Prod.mk.injEq, Option.guard_eq_some']
  constructor
  · rintro ⟨line, column, name, rest, hstart, -, hphrase, _, hline, _, hcolumn, rfl, rfl, rfl⟩
    exact ⟨line, column, rest, hstart, hphrase, hline, hcolumn⟩
  · rintro ⟨line, column, rest, hstart, hphrase, hline, hcolumn⟩
    exact ⟨line, column, name, rest, hstart, (), hphrase, _, hline, _, hcolumn, rfl, rfl, rfl⟩

/-! ### Blanks at the end -/

private theorem holds_phrase (hb : IsBlanks blanks) (t : Text) :
    (unusedPhrases.any fun phrase => holds phrase (t ++ blanks)) =
      unusedPhrases.any fun phrase => holds phrase t := by
  have hclosed : ∀ phrase ∈ unusedPhrases, phrase.getLast?.any (!isBlank ·) = true :=
    List.all_eq_true.mp (by decide)
  apply Bool.eq_iff_iff.mpr
  simp only [List.any_eq_true]
  refine exists_congr fun phrase ↦ and_congr_right fun hp ↦ ?_
  obtain ⟨c, hl, hc⟩ := (Option.any_eq_true _ _).mp (hclosed phrase hp)
  rw [holds_append_blanks hb hl (by simpa using hc)]

/-- Blanks after the start of a warning follow its quoted name. -/
theorem beginsWarning_append_blanks (hb : IsBlanks blanks) :
    BeginsWarning (t ++ blanks) line column name rest ↔
      ∃ rest', rest = rest' ++ blanks ∧ BeginsWarning t line column name rest' := by
  constructor
  · rintro ⟨indent, gap, gap', q, q', ht, h⟩
    have hquote : isBlank q' = false := isBlank_of_isNameQuote h.2.2.2.2.2.2.2
    obtain ⟨rest', ht', hrest⟩ := exists_of_append_blanks hb hquote ht
    exact ⟨rest', hrest, indent, gap, gap', q, q', ht', h⟩
  · rintro ⟨rest', rfl, indent, gap, gap', q, q', rfl, h⟩
    exact ⟨indent, gap, gap', q, q', by simp, h⟩

/-- Blanks after a warning make no difference to it, and make no warning. -/
theorem warning?_append_blanks (hb : IsBlanks blanks) (t : Text) :
    warning? (t ++ blanks) = warning? t := by
  ext ⟨number, place, name⟩
  rw [warning?_eq_some_iff, warning?_eq_some_iff]
  simp only [beginsWarning_append_blanks hb]
  constructor
  · rintro ⟨line, column, _, ⟨rest, rfl, hstart⟩, hphrase, h⟩
    exact ⟨line, column, rest, hstart, (holds_phrase hb rest).symm.trans hphrase, h⟩
  · rintro ⟨line, column, rest, hstart, hphrase, h⟩
    exact ⟨line, column, _, ⟨rest, rfl, hstart⟩, (holds_phrase hb rest).trans hphrase, h⟩

/-- Blanks after a header are no part of its path. -/
theorem header?_append_blanks (hb : IsBlanks blanks) (t : Text) :
    header? (t ++ blanks) = header? t := by
  cases t with
  | nil =>
    cases blanks with
    | nil => rfl
    | cons c blanks => exact if_pos (hb c List.mem_cons_self)
  | cons c r =>
    have htrim := trimEnd_append_blanks hb (c :: r)
    rw [List.cons_append] at htrim ⊢
    simp only [header?, htrim]

/-- Blanks at the end of a line make no difference to what it says. -/
theorem Line.ofText_append_blanks (hb : IsBlanks blanks) (t : Text) :
    Line.ofText (t ++ blanks) = Line.ofText t := by
  simp only [Line.ofText, plain_append_blanks hb, header?_append_blanks hb,
    warning?_append_blanks hb]

end Lint

end Spruce
