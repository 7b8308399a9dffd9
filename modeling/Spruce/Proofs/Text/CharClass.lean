import Spruce.Text.CharClass

/-!
# Classes within and beside each other

The letters and digits of ASCII are part of words and of identifiers (`isWord_of_ascii`,
`isIdentifier_of_ascii`), and no blank is (`isWord_of_isBlank`, `isIdentifier_of_isBlank`). Beyond
ASCII the latter is read off the tables: each of their ranges lies beside every range of blanks.
-/

namespace Spruce.Text

variable {c : Char}

/-! ### Letters and digits -/

private theorem toNat_lt_of_ascii (h : (isAsciiLetter c || isAsciiDigit c) = true) :
    c.toNat < 0x80 := by
  have small {last : Char} (hl : c ≤ last) (hlast : last.toNat < 0x80) : c.toNat < 0x80 :=
    Nat.lt_of_le_of_lt (UInt32.le_iff_toNat_le.mp hl) hlast
  simp only [isAsciiLetter, isAsciiDigit, Bool.or_eq_true, Bool.and_eq_true,
    decide_eq_true_eq] at h
  rcases h with (⟨-, hl⟩ | ⟨-, hl⟩) | ⟨-, hl⟩ <;> exact small hl (by decide)

/-- The letters and digits of ASCII are part of words. -/
theorem isWord_of_ascii (h : (isAsciiLetter c || isAsciiDigit c) = true) : isWord c = true := by
  rw [isWord, if_pos (toNat_lt_of_ascii h), h, Bool.true_or]

/-- The letters and digits of ASCII are part of identifiers. -/
theorem isIdentifier_of_ascii (h : (isAsciiLetter c || isAsciiDigit c) = true) :
    isIdentifier c = true := by
  rw [isIdentifier, isAlphanumeric, if_pos (toNat_lt_of_ascii h), h, Bool.true_or, Bool.true_or]

/-! ### Blanks -/

/-- The ranges of the blanks. -/
def blankRanges : List (Nat × Nat) :=
  [(9, 13), (0x20, 0x20), (0x85, 0x85), (0xA0, 0xA0), (0x1680, 0x1680), (0x2000, 0x200A),
    (0x2028, 0x2029), (0x202F, 0x202F), (0x205F, 0x205F), (0x3000, 0x3000)]

/-- Whether each range of a table lies beside every range of blanks. -/
def besideBlanks (ranges : List (Nat × Nat)) : Bool :=
  ranges.all fun r => blankRanges.all fun b => Nat.blt r.2 b.1 || Nat.blt b.2 r.1

private theorem exists_blankRange (h : isBlank c = true) :
    ∃ b ∈ blankRanges, b.1 ≤ c.toNat ∧ c.toNat ≤ b.2 := by
  simp only [isBlank, Bool.or_eq_true, Bool.and_eq_true, decide_eq_true_eq, beq_iff_eq] at h
  simp only [blankRanges, List.mem_cons, List.not_mem_nil, exists_eq_or_imp, or_false,
    exists_eq_left]
  omega

private theorem inRanges_of_isBlank {ranges : List (Nat × Nat)} (hr : besideBlanks ranges = true)
    (h : isBlank c = true) : inRanges ranges c.toNat = false := by
  obtain ⟨b, hb, hlow, hhigh⟩ := exists_blankRange h
  refine List.any_eq_false.mpr fun r hm ↦ ?_
  have hbeside := List.all_eq_true.mp (List.all_eq_true.mp hr r hm) b hb
  simp only [Bool.or_eq_true, Nat.blt_eq] at hbeside
  simp only [Bool.and_eq_true, decide_eq_true_eq]
  omega

private theorem beside_tables : besideBlanks alphabeticRanges = true ∧
    besideBlanks markRanges = true ∧ besideBlanks digitRanges = true ∧
    besideBlanks otherNumberRanges = true := by
  decide +kernel

private theorem ascii_blank (h : isBlank c = true) (hc : c.toNat < 0x80) :
    isWord c = false ∧ isIdentifier c = false := by
  have hall : ∀ n ∈ [9, 10, 11, 12, 13, 0x20],
      isWord (Char.ofNat n) = false ∧ isIdentifier (Char.ofNat n) = false := by decide
  have hm : c.toNat ∈ [9, 10, 11, 12, 13, 0x20] := by
    simp only [isBlank, Bool.or_eq_true, Bool.and_eq_true, decide_eq_true_eq, beq_iff_eq] at h
    simp only [List.mem_cons, List.not_mem_nil, or_false]
    omega
  have hclass := hall _ hm
  rwa [Char.ofNat_toNat] at hclass

/-- No blank is part of a word. -/
theorem isWord_of_isBlank (h : isBlank c = true) : isWord c = false := by
  by_cases hc : c.toNat < 0x80
  · exact (ascii_blank h hc).1
  · obtain ⟨halphabetic, hmark, hdigit, -⟩ := beside_tables
    have hconnector : isConnector c.toNat = false := by
      simp only [isBlank, Bool.or_eq_true, Bool.and_eq_true, decide_eq_true_eq, beq_iff_eq] at h
      simp [isConnector, Bool.or_eq_false_iff]
      omega
    simp [isWord, hc, inRanges_of_isBlank, h, halphabetic, hmark, hdigit, hconnector]

/-- No blank is part of an identifier. -/
theorem isIdentifier_of_isBlank (h : isBlank c = true) : isIdentifier c = false := by
  by_cases hc : c.toNat < 0x80
  · exact (ascii_blank h hc).2
  · obtain ⟨halphabetic, -, hdigit, hother⟩ := beside_tables
    have hunder : c ≠ '_' := by
      rintro rfl
      exact hc (by decide)
    have hdollar : c ≠ '$' := by
      rintro rfl
      exact hc (by decide)
    simp [isIdentifier, isAlphanumeric, hc, inRanges_of_isBlank, h, halphabetic, hdigit, hother,
      hunder, hdollar]

end Spruce.Text
