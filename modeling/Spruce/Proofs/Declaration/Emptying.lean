import Spruce.Proofs.Cleanup.Treatment
import Spruce.Proofs.Declaration.Eligible
import Spruce.Proofs.Declaration.Hollow
import Spruce.Proofs.Declaration.Removal

/-!
# Emptying a pattern

An element is alone where the braces around it hold nothing else but commas, no more of them than go
with a cut and the joining of commas. With an element that is alone an empty pair of braces comes
about (`hollowPairs_cut`). Such a cut is refused where the element stands between both braces, or
where the line has no empty pair so far; on a line that has one already it is carried out
(`emptyPairs_removeElement?`). A variable whose element is not cut out is renamed.
-/

namespace Spruce.Declaration

open Text

variable {name key value line cut : Text} {e : Element}

/-! ### Cutting an element -/

/-- The braces around the element hold nothing else but blanks and at most five commas: one goes
with the element, and joining takes four. -/
def Element.IsAlone (e : Element) : Prop := Spans 5 (e.before ++ [e.opener]) e.closing.text

private theorem Element.Spells.isItem (h : e.Spells name key value line) (hn : IsVariable name) :
    IsItem (e.lead ++ (key ++ name ++ value)) := by
  have hbinds : Binds name (e.lead ++ (key ++ name ++ value)) :=
    ⟨e.lead, key, value, [], by simp, h.lead, h.key, h.value, isBlanks_nil⟩
  exact ⟨hbinds.undelimited hn, hbinds.not_blank hn⟩

private theorem Element.Spells.line_eq_item (h : e.Spells name key value line) :
    line = e.before ++ [e.opener] ++ (e.lead ++ (key ++ name ++ value) ++ e.closing.text) := by
  rw [h.line_eq]
  simp

private theorem Closing.IsEnd.isBlanks_after {c : Closing} (h : c.IsEnd) : IsBlanks c.after :=
  fun d hd ↦ isBlank_of_isSpaceOrTab (h.after d hd)

/-- The element goes with the comma after it up to some blanks, or with the comma before it. -/
theorem Element.Spells.cut_cases (h : e.Spells name key value line)
    (hc : e.cut? = some cut) :
    (∃ gap, IsBlanks gap ∧ e.closing.delimiter = ',' ∧
      cut = e.before ++ [e.opener] ++ (gap ++ e.closing.rest)) ∨
      e.opener = ',' ∧ cut = e.before ++ e.closing.text := by
  simp only [Element.cut?] at hc
  split at hc
  · next hopener =>
    split at hc
    · cases hc
    · next hdelimiter =>
      left
      refine ⟨e.lead, h.lead, h.closing.delimiter.resolve_right hdelimiter, ?_⟩
      rw [← Option.some.inj hc, hopener]
      simp
  · next hopener =>
    have hcomma : e.opener = ',' := h.opener.resolve_left hopener
    split at hc
    · next hdelimiter =>
      left
      refine ⟨e.closing.after, h.closing.isBlanks_after, hdelimiter, ?_⟩
      rw [← Option.some.inj hc, hcomma]
      simp
    · next hdelimiter =>
      right
      refine ⟨hcomma, ?_⟩
      rw [← Option.some.inj hc, Closing.text, h.closing.delimiter.resolve_left hdelimiter]
      simp

/-- A line has the hollow pairs of what stands before and after the element. -/
theorem Element.Spells.hollowPairs_line (h : e.Spells name key value line)
    (hn : IsVariable name) (k : Nat) :
    hollowPairs k line = hollowPairs k (e.before ++ [e.opener]) + hollowPairs k e.closing.text := by
  have hitem := h.isItem hn
  rw [h.line_eq_item, hollowPairs_append, if_neg hitem.not_spans,
    hollowPairs_append_of_notMem (hitem.1.notMem (by decide)), Nat.add_zero]

open Classical in
/-- A cut line has the hollow pairs of the line, and one more where the element was alone. -/
theorem hollowPairs_cut (hn : IsVariable name) (hs : e.Spells name key value line)
    (hc : e.cut? = some cut) :
    hollowPairs 4 cut = hollowPairs 4 line + if e.IsAlone then 1 else 0 := by
  rw [hs.hollowPairs_line hn, Element.IsAlone]
  rcases hs.cut_cases hc with ⟨gap, hgap, hdelimiter, rfl⟩ | ⟨hopener, rfl⟩
  · have hblanks : '{' ∉ gap := hgap.notMem (by decide)
    have htail : '{' ∉ e.closing.tail := hs.closing.tail.notMem (by decide)
    have hafter : '{' ∉ e.closing.after := hs.closing.isBlanks_after.notMem (by decide)
    have htext : e.closing.text = e.closing.tail ++ ',' :: (e.closing.after ++ e.closing.rest) := by
      rw [Closing.text, hdelimiter]
    have hrest : hollowPairs 4 e.closing.text = hollowPairs 4 e.closing.rest := by
      rw [htext, hollowPairs_append_of_notMem htail, hollowPairs_cons_of_ne (by decide),
        hollowPairs_append_of_notMem hafter]
    have hspans : Spans 5 (e.before ++ [e.opener]) e.closing.text ↔
        Spans 4 (e.before ++ [e.opener]) (gap ++ e.closing.rest) := by
      rw [htext, spans_blanks_append hs.closing.tail, spans_comma_cons,
        spans_blanks_append hs.closing.isBlanks_after, spans_blanks_append hgap]
    rw [hollowPairs_append, hollowPairs_append_of_notMem hblanks, hrest]
    simp only [hspans]
  · rw [hopener, hollowPairs_append_comma, hollowPairs_append]
    simp only [spans_append_comma]

/-- A cut takes a comma with it. -/
theorem count_cut_lt (hn : IsVariable name) (hs : e.Spells name key value line)
    (hc : e.cut? = some cut) : cut.count ',' < line.count ',' := by
  have hitem : (e.lead ++ (key ++ name ++ value)).count ',' = 0 :=
    List.count_eq_zero_of_not_mem ((hs.isItem hn).1.notMem (by decide))
  have hline : line.count ',' = (e.before ++ [e.opener]).count ',' + e.closing.text.count ',' := by
    rw [hs.line_eq_item]
    simp only [List.count_append] at hitem ⊢
    omega
  rw [hline]
  rcases hs.cut_cases hc with ⟨gap, hgap, hdelimiter, rfl⟩ | ⟨hopener, rfl⟩
  · have hblanks : gap.count ',' = 0 :=
      List.count_eq_zero_of_not_mem (hgap.notMem (by decide))
    have htext : e.closing.rest.count ',' < e.closing.text.count ',' := by
      rw [Closing.text, hdelimiter]
      simp only [List.count_append, List.count_cons_self]
      omega
    simp only [List.count_append, hblanks]
    omega
  · simp only [hopener, List.count_append, List.count_singleton_self]
    omega

/-! ### Refusing a cut -/

private theorem cut?_eq_none_iff (e : Element) :
    e.cut? = none ↔ e.opener = '{' ∧ e.closing.delimiter = '}' := by
  simp only [Element.cut?]
  split
  · next hopener =>
    split
    · next hdelimiter => simp [hopener, hdelimiter]
    · next hdelimiter => simp [hdelimiter]
  · next hopener => split <;> simp [hopener]

/-- An element is not cut out where it stands between both braces, or where an empty pair of braces
comes about on a line without one. -/
theorem removeElement?_eq_none_iff (hn : IsVariable name) (he : element? name line = some e) :
    removeElement? line name = none ↔ e.opener = '{' ∧ e.closing.delimiter = '}' ∨
      emptyPairs line = 0 ∧ (e.IsAlone ∨ hollowPairs 4 line ≠ 0) := by
  obtain ⟨key, value, hs⟩ := exists_spells_of_element? he
  rw [← cut?_eq_none_iff, removeElement?, he, Option.bind_some]
  cases hc : e.cut? with
  | none => simp
  | some cut =>
    have hne : joinCommas cut ≠ line := by
      intro hsame
      have hlt := Nat.lt_of_le_of_lt (count_joinCommas_le cut) (count_cut_lt hn hs hc)
      rw [hsame] at hlt
      exact Nat.lt_irrefl _ hlt
    rw [Option.bind_some]
    dsimp only
    rw [holdsPair_eq_emptyPairs, holdsPair_eq_emptyPairs, emptyPairs_joinCommas,
      hollowPairs_cut hn hs hc]
    by_cases ha : e.IsAlone <;> by_cases hl : emptyPairs line = 0 <;> simp [hne, ha, hl]

/-! ### Renaming instead -/

private theorem endsIdentifier_blanks {blanks : Text} (hb : IsBlanks blanks) {c : Char}
    (hc : isIdentifier c = false) (r : Text) : endsIdentifier (blanks ++ c :: r) = true := by
  cases blanks with
  | nil => rw [List.nil_append, endsIdentifier_cons, hc]; rfl
  | cons b blanks =>
    rw [List.cons_append, endsIdentifier_cons, isIdentifier_of_isBlank (hb b List.mem_cons_self)]
    rfl

/-- The name of an element is an eligible occurrence. -/
theorem Element.Spells.exists_eligible (h : e.Spells name key value line) :
    ∃ s t, line = s ++ name ++ t ∧ IsEligible s t := by
  obtain ⟨s, c, blanks, hbefore, hc, hb⟩ : ∃ s c blanks,
      e.before ++ e.opener :: (e.lead ++ key) = s ++ c :: blanks ∧ c ∈ ['{', ',', ':'] ∧
        IsBlanks blanks := by
    rcases h.key with rfl | ⟨first, word, gap, blanks, rfl, -, -, -, hb⟩
    · refine ⟨e.before, e.opener, e.lead, by simp, ?_, h.lead⟩
      rcases h.opener with ho | ho <;> simp [ho]
    · exact ⟨e.before ++ e.opener :: (e.lead ++ first :: (word ++ gap)), ':', blanks, by simp,
        by simp, hb⟩
  obtain ⟨gap, d, t, hafter, hd, hgap⟩ : ∃ gap d t,
      value ++ e.closing.text = gap ++ d :: t ∧ d ∈ ['=', ',', '}'] ∧ IsBlanks gap := by
    rcases h.value with rfl | ⟨gap, v, rfl, hgap, -, -⟩
    · refine ⟨e.closing.tail, e.closing.delimiter, _, rfl, ?_, h.closing.tail⟩
      rcases h.closing.delimiter with hd | hd <;> simp [hd]
    · exact ⟨gap, '=', v ++ e.closing.text, by simp, by simp, hgap⟩
  have hleft : isIdentifier c = false := by
    rcases List.mem_cons.mp hc with rfl | hc
    · decide
    · rcases List.mem_pair.mp hc with rfl | rfl <;> decide
  have hright : isIdentifier d = false ∧ isBlank d = false ∧ d ≠ ':' ∧ d ≠ 'a' := by
    rcases List.mem_cons.mp hd with rfl | hd
    · decide
    · rcases List.mem_pair.mp hd with rfl | rfl <;> decide
  obtain ⟨hidentifier, hblank, hcolon, hword⟩ := hright
  refine ⟨s ++ c :: blanks, gap ++ d :: t, ?_, ?_, endsIdentifier_blanks hgap hidentifier t, ?_⟩
  · rw [← hafter, ← hbefore, h.line_eq]
    simp
  · have hreverse : (s ++ c :: blanks).reverse = blanks.reverse ++ c :: s.reverse := by simp
    rw [hreverse]
    exact endsIdentifier_blanks (fun b hm ↦ hb b (List.mem_reverse.mp hm)) hleft s.reverse
  · rw [Ne, occurrence_eq_key_iff, EndsKey, hgap.trimStart_append, trimStart_cons hblank]
    simp [hcolon, Ne.symm hword]

/-- A line with an element of the name has an occurrence to rename. -/
theorem exists_addUnderscore?_of_element? (hn : IsVariable name)
    (he : element? name line = some e) : ∃ new, addUnderscore? line name = some new := by
  obtain ⟨key, value, hs⟩ := exists_spells_of_element? he
  obtain ⟨s, t, hline, heligible⟩ := hs.exists_eligible
  cases hu : addUnderscore? line name with
  | none => exact absurd heligible ((addUnderscore?_eq_none_iff hn).mp hu s t hline)
  | some new => exact ⟨new, rfl⟩

/-! ### Removing an element -/

/-- An element is not cut out where it stands between both braces, or where an empty pair of braces
would come about on a line without one; the variable is renamed instead. Where it is cut out, the
line has no more empty pairs than before exactly when the element was not alone and no other pair
holds only commas that go. -/
theorem emptyPairs_removeElement? {line name : Text} {e : Element} (hn : IsVariable name)
    (he : element? name line = some e) :
    (removeElement? line name = none ↔ e.opener = '{' ∧ e.closing.delimiter = '}' ∨
      emptyPairs line = 0 ∧ (e.IsAlone ∨ hollowPairs 4 line ≠ 0)) ∧
    (∀ row, lineContent row = line → isStandalone line name = false →
      removeElement? line name = none → ∃ new, addUnderscore? line name = some new ∧
        Cleanup.treat row name = ⟨[new ++ lineTerminator row], .prefixed, none⟩) ∧
    ∀ new, removeElement? line name = some new →
      (emptyPairs new ≤ emptyPairs line ↔
        ¬ e.IsAlone ∧ hollowPairs 4 line = emptyPairs line) := by
  refine ⟨removeElement?_eq_none_iff hn he, ?_, fun new h ↦ ?_⟩
  · rintro row rfl hstandalone hnone
    obtain ⟨new, hu⟩ := exists_addUnderscore?_of_element? hn he
    exact ⟨new, hu, Cleanup.treat_of_removeElement?_eq_none hstandalone hnone hu⟩
  · obtain ⟨e', cut, he', hc, rfl, -⟩ := exists_cut_of_removeElement? h
    obtain rfl : e = e' := Option.some.inj (he.symm.trans he')
    obtain ⟨key, value, hs⟩ := exists_spells_of_element? he
    have hle := emptyPairs_le_hollowPairs 4 line
    rw [emptyPairs_joinCommas, hollowPairs_cut hn hs hc]
    by_cases ha : e.IsAlone
    · simp only [ha, if_true, not_true_eq_false, false_and, iff_false]
      omega
    · simp only [ha, if_false, not_false_eq_true, true_and]
      omega

/-- The only element of a pattern, with a comma after it, is renamed. -/
theorem emptyPairs_removeElement?_sole :
    let line : Text := "const \x7b a, \x7d = b".toList
    let rest : Text := "\x7d = b".toList
    let e : Element := ⟨"const ".toList, '{', [' '], ⟨[], ',', [' '], rest⟩⟩
    IsVariable ['a'] ∧ element? ['a'] line = some e ∧ isStandalone line ['a'] = false ∧
      removeElement? line ['a'] = none ∧ ∃ new, addUnderscore? line ['a'] = some new ∧
        Cleanup.treat (line ++ ['\n']) ['a'] = ⟨[new ++ ['\n']], .prefixed, none⟩ := by
  intro line rest e
  have hn : IsVariable ['a'] := by decide
  have he : element? ['a'] line = some e := by decide
  have hs : isStandalone line ['a'] = false := by decide
  have hnone : removeElement? line ['a'] = none := by decide
  exact ⟨hn, he, hs, hnone, (emptyPairs_removeElement? hn he).2.1 (line ++ ['\n']) (by decide) hs
    hnone⟩

/-- On a line with an empty object the only element of a pattern is removed. -/
theorem removeElement?_emptied :
    let line : Text := "const \x7b a, \x7d = \x7b\x7d".toList
    let new : Text := "const \x7b \x7d = \x7b\x7d".toList
    IsVariable ['a'] ∧ removeElement? line ['a'] = some new ∧
      emptyPairs line = 1 ∧ emptyPairs new = 2 ∧
      (Cleanup.treat line ['a']).action = .removed := by
  decide

end Spruce.Declaration
