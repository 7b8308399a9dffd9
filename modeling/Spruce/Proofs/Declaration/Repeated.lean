import Mathlib.Data.List.Infix
import Spruce.Proofs.Cleanup.Treatment
import Spruce.Proofs.Declaration.Eligible
import Spruce.Proofs.Declaration.Nesting

/-!
# Renaming a variable again

A rename is settled when the name has no eligible occurrence on the renamed line. The occurrences
after the renamed one are as eligible as they were, and those before it stay not eligible; only
where the name is the word of the import form does the new text bring an occurrence of its own or
free a key before it. So a second rename does nothing exactly when the first one renamed the only
eligible occurrence (`addUnderscore?_again_iff`), and it renames a use of the variable on the same
line otherwise (`addUnderscore?_property`).
-/

namespace Spruce.Declaration

open Text

variable {name line before after replacement new s t x y : Text} {isImport : Bool}

/-! ### What a rename leaves -/

private theorem brackets_replacement (hn : IsVariable name) {o : Occurrence}
    (hr : renamed? isImport name o = some replacement) : brackets replacement = brackets name := by
  have hname : brackets name = [] := brackets_eq_nil hn.2 (by decide)
  have underscore : brackets ['_'] = [] := by decide
  have himport : brackets " as _".toList = [] := by decide
  have hproperty : brackets ": _".toList = [] := by decide
  rcases (renamed?_eq_some_iff _).mp hr with ⟨-, rfl⟩ | ⟨-, -, rfl⟩ | ⟨-, -, rfl⟩
  · rw [← List.singleton_append, brackets_append, underscore, List.nil_append]
  · simp only [importForm, brackets_append, hname, himport, List.append_nil]
  · simp only [propertyForm, brackets_append, hname, hproperty, List.append_nil]

private theorem endsIdentifier_append (hne : s ≠ []) (t : Text) :
    endsIdentifier (s ++ t) = endsIdentifier s := by
  cases s with
  | nil => exact absurd rfl hne
  | cons c s => rfl

/-! ### Occurrences after the renamed one -/

/-- Of the text further before an occurrence only the brackets count. -/
theorem IsEligible.of_brackets (h : IsEligible (x ++ s) t) (hne : s ≠ [])
    (hb : brackets x = brackets y) : IsEligible (y ++ s) t := by
  have hrev : s.reverse ≠ [] := by simpa using hne
  have hopen : enclosingOpener (y ++ s).reverse = enclosingOpener (x ++ s).reverse := by
    refine enclosingOpener_congr ?_
    simp only [brackets, List.filter_reverse] at hb ⊢
    rw [List.filter_append, List.filter_append, hb]
  obtain ⟨hl, hr, hk⟩ := h
  refine ⟨?_, hr, ?_⟩
  · rw [List.reverse_append, endsIdentifier_append hrev] at hl ⊢
    exact hl
  · rw [Ne, occurrence_eq_key_iff] at hk ⊢
    rwa [hopen]

/-! ### Occurrences before the renamed one -/

/-- Whether an occurrence is a key is seen from what follows up to the end of an identifier. -/
theorem EndsKey.of_not_blank (h : EndsKey (t ++ x)) (hb : ¬ IsBlanks t)
    (hends : endsIdentifier t.reverse = true) (y : Text) : EndsKey (t ++ y) := by
  obtain ⟨blanks, c, r, rfl, hblanks, hc⟩ := exists_of_not_blanks hb
  have htrim (z : Text) : trimStart (blanks ++ c :: r ++ z) = c :: (r ++ z) := by
    rw [List.append_assoc, hblanks.trimStart_append, List.cons_append, trimStart_cons hc]
  unfold EndsKey at h ⊢
  rw [htrim] at h ⊢
  rcases h with h | h
  · exact .inl h
  · right
    rw [List.isPrefixOf_iff_prefix] at h ⊢
    rcases List.prefix_or_prefix_of_prefix h (List.prefix_append (c :: r) x) with hw | hw
    · exact hw.trans (List.prefix_append (c :: r) y)
    · -- The text does not end inside the word, as an identifier ends where it does.
      have hall : ∀ w ∈ ['a', 's', ' '].inits, w ≠ [] → endsIdentifier w.reverse = true →
          w = ['a', 's', ' '] := by decide
      rw [List.reverse_append, endsIdentifier_append (by simp)] at hends
      have hword := hall (c :: r) ((List.mem_inits _ _).mpr hw) (List.cons_ne_nil c r) hends
      exact ⟨y, by rw [← hword]; rfl⟩

private theorem eq_of_endsKey_name (hn : IsVariable name) (hends : endsIdentifier after = true)
    (h : EndsKey (name ++ after)) : name = ['a', 's'] := by
  obtain ⟨c, r, rfl⟩ := List.exists_cons_of_ne_nil hn.1
  have hc : isBlank c = false := by
    by_contra hb
    have hno := isIdentifier_of_isBlank (Bool.not_eq_false _ ▸ hb)
    rw [hn.2 c List.mem_cons_self] at hno
    cases hno
  unfold EndsKey at h
  rw [List.cons_append, trimStart_cons hc] at h
  rcases h with h | h
  · obtain rfl := Option.some.inj h
    exact absurd (hn.2 ':' List.mem_cons_self) (by decide)
  · rw [← List.cons_append, List.isPrefixOf_iff_prefix] at h
    rcases List.prefix_or_prefix_of_prefix h (List.prefix_append (c :: r) after) with hw | hw
    · exact absurd (hn.2 ' ' (hw.subset (by simp))) (by decide)
    · have hall : ∀ w ∈ ['a', 's', ' '].inits, w ≠ [] → w.all isIdentifier = true →
          w = ['a'] ∨ w = ['a', 's'] := by decide
      rcases hall _ ((List.mem_inits _ _).mpr hw) hn.1 (List.all_eq_true.mpr hn.2) with hr | hr
      · rw [hr] at h
        obtain ⟨z, hz⟩ := h
        obtain rfl : 's' :: ' ' :: z = after := (List.cons.inj hz).2
        exact absurd hends (by rw [endsIdentifier_cons]; decide)
      · exact hr

private theorem endsKey_blanks_append (h : IsBlanks t) (r : Text) :
    EndsKey (t ++ r) ↔ EndsKey r := by
  rw [EndsKey, h.trimStart_append, EndsKey]

private theorem not_endsKey_underscore (r : Text) : ¬ EndsKey ('_' :: r) := by
  unfold EndsKey
  rw [trimStart_cons (by decide)]
  rintro (hcolon | hword)
  · exact absurd (Option.some.inj hcolon) (by decide)
  · exact absurd (Bool.and_eq_true_iff.mp hword).1 (by decide)

/-- An occurrence before the renamed one is eligible afterwards exactly where it was a key because
the name is the word of the import form and stands right after it. -/
theorem isEligible_before_iff (hn : IsVariable name)
    (hfirst : IsFirst line name before after)
    (hr : renamed? isImport name (occurrence before.reverse after) = some replacement)
    (h : before = s ++ name ++ t) : IsEligible s (t ++ (replacement ++ after)) ↔
      name = ['a', 's'] ∧ IsBlanks t ∧ endsIdentifier s.reverse = true := by
  obtain ⟨hleft, hright, -⟩ := hfirst.eligible
  have hname : name.reverse ≠ [] := by simpa using hn.1
  have hne : t ≠ [] := by
    rintro rfl
    rw [h, List.append_nil, List.reverse_append, endsIdentifier_append_of_ne_nil hname
      (fun c hc ↦ hn.2 c (List.mem_reverse.mp hc))] at hleft
    cases hleft
  constructor
  · rintro ⟨hl, hrt, hk⟩
    have hends : endsIdentifier t.reverse = true := by
      rwa [h, List.reverse_append, endsIdentifier_append (by simpa using hne)] at hleft
    rw [endsIdentifier_append hne] at hrt
    have hkey : occurrence s.reverse (t ++ (name ++ after)) = .key := by
      by_contra hno
      have hle := hfirst.least s (t ++ (name ++ after)) (by simp [hfirst.line_eq, h])
        ⟨hl, by rwa [endsIdentifier_append hne], hno⟩
      rw [h, List.length_append, List.length_append] at hle
      have hpos := List.length_pos_iff.mpr hn.1
      omega
    obtain ⟨hopen, hend⟩ := (occurrence_eq_key_iff _ _).mp hkey
    have hb : IsBlanks t := by
      by_contra hb
      exact hk ((occurrence_eq_key_iff _ _).mpr ⟨hopen, hend.of_not_blank hb hends _⟩)
    exact ⟨eq_of_endsKey_name hn hright ((endsKey_blanks_append hb _).mp hend), hb, hl⟩
  · rintro ⟨rfl, hb, hl⟩
    have htrim : trimStart before.reverse = 's' :: 'a' :: s.reverse := by
      have hreverse : IsBlanks t.reverse := fun c hc ↦ hb c (List.mem_reverse.mp hc)
      rw [h, List.reverse_append, hreverse.trimStart_append, List.reverse_append]
      exact trimStart_cons (by decide) _
    have hplain : replacement = '_' :: ['a', 's'] := by
      have hshort : occurrence before.reverse after ≠ .shorthand := by
        intro ho
        have hnear := (of_occurrence_eq_shorthand ho).2
        rw [htrim] at hnear
        rcases hnear with hnear | hnear <;> exact absurd (Option.some.inj hnear) (by decide)
      rcases (renamed?_eq_some_iff _).mp hr with ⟨-, hp⟩ | ⟨ho, -⟩ | ⟨ho, -⟩
      · exact hp
      · exact absurd ho hshort
      · exact absurd ho hshort
    refine ⟨hl, ?_, ?_⟩
    · obtain ⟨c, t, rfl⟩ := List.exists_cons_of_ne_nil hne
      rw [List.cons_append, endsIdentifier_cons, isIdentifier_of_isBlank (hb c List.mem_cons_self)]
      rfl
    · rw [Ne, occurrence_eq_key_iff, endsKey_blanks_append hb, hplain]
      exact fun hkey ↦ not_endsKey_underscore _ hkey.2

/-! ### Renaming again -/

/-- The same name stands right before the place, with blanks between. -/
def Follows (name before : Text) : Prop :=
  ∃ s blanks, before = s ++ name ++ blanks ∧ IsBlanks blanks ∧ endsIdentifier s.reverse = true

/-- The new text brings an eligible occurrence of its own where the name is the word of the import
form. -/
theorem isEligible_word (before after : Text) :
    IsEligible (before ++ ['a', 's', ' ']) (' ' :: '_' :: after) := by
  have hblank : IsBlanks [' '] := by decide
  refine ⟨?_, by rw [endsIdentifier_cons]; decide, ?_⟩
  · rw [List.reverse_append]
    exact endsIdentifier_append (s := [' ', 's', 'a']) (by decide) _
  · rw [Ne, occurrence_eq_key_iff]
    rintro ⟨-, hkey⟩
    exact not_endsKey_underscore after ((endsKey_blanks_append hblank _).mp hkey)

private theorem ne_nil_of_occurs (hn : IsVariable name) (hends : endsIdentifier y = true)
    (h : y = s ++ name ++ t) : s ≠ [] := by
  rintro rfl
  rw [h, List.nil_append, endsIdentifier_append_of_ne_nil hn.1 hn.2] at hends
  cases hends

/-- After the rename of an occurrence nothing on the line is eligible: no other occurrence was, and,
where the name is the word of the import form, this form does not take its place and the name does
not stand right before it. -/
def Settles (line name before replacement : Text) : Prop :=
  (∀ s t, line = s ++ name ++ t → IsEligible s t → s = before) ∧
    (name = "as".toList → replacement ≠ importForm name ∧ ¬ Follows name before)

private theorem addUnderscore?_new_eq_none_iff (hn : IsVariable name)
    (hfirst : IsFirst line name before after)
    (hr : renamed? isImport name (occurrence before.reverse after) = some replacement) :
    addUnderscore? (before ++ replacement ++ after) name = none ↔
      Settles line name before replacement := by
  obtain ⟨hleft, hright, -⟩ := hfirst.eligible
  have hb : brackets (before ++ replacement) = brackets (before ++ name) := by
    rw [brackets_append, brackets_append, brackets_replacement hn hr]
  rw [addUnderscore?_eq_none_iff hn]
  constructor
  · intro hnone
    refine ⟨fun s t hline he ↦ ?_, fun hname ↦ ⟨?_, ?_⟩⟩
    · have hsplit := hfirst.line_eq.symm.trans hline
      rcases occurs_append hn (.inr hright) hsplit with ⟨t', hx, rfl⟩ | ⟨s', rfl, hy⟩
      · have hle := hfirst.least s (t' ++ after) hline he
        have hlength := congrArg List.length hx
        simp only [List.length_append] at hlength
        rw [List.append_assoc] at hx
        exact (List.append_inj hx (by omega)).1.symm
      · have hne := ne_nil_of_occurs hn hright hy
        exact absurd (he.of_brackets hne hb.symm) (hnone _ t (by simp [hy]))
    · rintro rfl
      obtain rfl : name = ['a', 's'] := hname
      exact hnone (before ++ ['a', 's', ' ']) (' ' :: '_' :: (['a', 's'] ++ after))
        (by simp [importForm_eq]) (isEligible_word before _)
    · rintro ⟨s, blanks, hbefore, hblanks, hs⟩
      exact hnone s (blanks ++ (replacement ++ after)) (by simp [hbefore])
        ((isEligible_before_iff hn hfirst hr hbefore).mpr ⟨hname, hblanks, hs⟩)
  · rintro ⟨honly, hword⟩ s t hu he
    rw [List.append_assoc] at hu
    rcases occurs_append hn (.inl hleft) hu with ⟨t', hx, rfl⟩ | ⟨s', rfl, hy⟩
    · obtain ⟨hname, hblanks, hs⟩ := (isEligible_before_iff hn hfirst hr hx).mp he
      exact (hword hname).2 ⟨s, t', hx, hblanks, hs⟩
    · rcases occurs_append hn (.inr hright) hy with ⟨t', hx, rfl⟩ | ⟨s'', rfl, hz⟩
      · exact not_isEligible_renamed hn hr (fun h ↦ (hword h.1).1 h.2) hx he
      · rw [← List.append_assoc] at he
        have hkept := he.of_brackets (ne_nil_of_occurs hn hright hz) hb
        have hsame := honly _ t (by simp [hfirst.line_eq, hz]) hkept
        have hlength := congrArg List.length hsame
        simp only [List.length_append] at hlength
        have hpos := List.length_pos_iff.mpr hn.1
        omega

/-! ### Renaming again in a source -/

private theorem row?_splice {source : Source} {n : Nat} {row : Text}
    (h : source.row? n = some row) (new : Text) : (source.splice n [new]).row? n = some new := by
  cases n with
  | zero => cases h
  | succ n =>
    have hlength : n < source.rows.length := (List.getElem?_eq_some_iff.mp h).1
    have habove : (source.rows.take n).length = n := List.length_take_of_le (Nat.le_of_lt hlength)
    rw [Source.row?, Source.rows_splice (Source.rows_eq_of_row? h)
      (by rw [Nat.add_sub_cancel, habove])]
    simp [habove]

/-- The content of a renamed line is what the line was renamed to. -/
theorem lineContent_renamed {row : Text} (hn : IsVariable name)
    (hline : lineContent row = before ++ name ++ after)
    (hr : renamed? isImport name (occurrence before.reverse after) = some replacement) :
    lineContent (before ++ replacement ++ after ++ lineTerminator row) =
      before ++ replacement ++ after := by
  obtain ⟨kept, rfl⟩ : ∃ kept, replacement = kept ++ name := by
    rcases (renamed?_eq_some_iff _).mp hr with ⟨-, rfl⟩ | ⟨-, -, rfl⟩ | ⟨-, -, rfl⟩
    · exact ⟨['_'], rfl⟩
    · exact ⟨_, rfl⟩
    · exact ⟨_, rfl⟩
  -- The renamed line ends as the line did, with the name or with what stands after it.
  have hlast (s : Text) : (s ++ (name ++ after)).getLast? = (name ++ after).getLast? :=
    List.getLast?_append_of_ne_nil s (by simp [hn.1])
  refine lineContent_append_terminator fun c hc _ ↦ ?_
  have hnew : before ++ (kept ++ name) ++ after = before ++ kept ++ (name ++ after) := by simp
  rw [hnew, hlast] at hc
  rwa [hline, List.append_assoc, hlast]

/-- A second rename of a line does nothing exactly when the first one settles it; in a source it
then finds nothing to rename on that line. -/
theorem addUnderscore?_again_iff {name : Text} (hn : IsVariable name) :
    (∀ line new, addUnderscore? line name = some new → ∃ before after replacement,
      IsFirst line name before after ∧ new = before ++ replacement ++ after ∧
        (addUnderscore? new name = none ↔ Settles line name before replacement)) ∧
    ∀ (source : Source) n edited, source.addUnderscore? n name = some edited →
      ∃ line before after replacement, source.line? n = some line ∧
        IsFirst line name before after ∧ edited.line? n = some (before ++ replacement ++ after) ∧
          (edited.addUnderscore? n name = none ↔ Settles line name before replacement) := by
  refine ⟨fun line new h ↦ ?_, fun source n edited h ↦ ?_⟩
  · obtain ⟨before, after, replacement, hfirst, hr, rfl⟩ := exists_first_of_addUnderscore? hn h
    exact ⟨before, after, replacement, hfirst, rfl, addUnderscore?_new_eq_none_iff hn hfirst hr⟩
  · obtain ⟨line, hline, -⟩ := Option.bind_eq_some_iff.mp h
    obtain ⟨row, hrow, rfl⟩ := Option.map_eq_some_iff.mp hline
    rw [Source.addUnderscore?_eq hrow] at h
    obtain ⟨new, hnew, rfl⟩ := Option.map_eq_some_iff.mp h
    obtain ⟨before, after, replacement, hfirst, hr, rfl⟩ := exists_first_of_addUnderscore? hn hnew
    have hedited := row?_splice hrow (before ++ replacement ++ after ++ lineTerminator row)
    have hcontent := lineContent_renamed hn hfirst.line_eq hr
    refine ⟨_, before, after, replacement, hline, hfirst, ?_, ?_⟩
    · rw [Source.line?_eq hedited, hcontent]
    · rw [Source.addUnderscore?_eq hedited, hcontent, Option.map_eq_none_iff]
      exact addUnderscore?_new_eq_none_iff hn hfirst hr

/-- An import is settled by its new name. -/
theorem addUnderscore?_again_iff_import :
    let line : Text := "import \x7b ref, watch \x7d".toList
    let new : Text := "import \x7b ref, watch as _watch \x7d".toList
    let name : Text := "watch".toList
    IsVariable name ∧ addUnderscore? line name = some new ∧ addUnderscore? new name = none ∧
      ∃ before after replacement, IsFirst line name before after ∧
        new = before ++ replacement ++ after ∧ Settles line name before replacement := by
  intro line new name
  have hn : IsVariable name := by decide
  have h : addUnderscore? line name = some new := by decide
  have hagain : addUnderscore? new name = none := by decide
  obtain ⟨before, after, replacement, hfirst, hnew, hiff⟩ :=
    (addUnderscore?_again_iff hn).1 line new h
  exact ⟨hn, h, hagain, before, after, replacement, hfirst, hnew, hiff.mp hagain⟩

/-- A property of the same name is renamed by a second rename of its line. -/
theorem addUnderscore?_property :
    let line : Text := "const items = store.items".toList
    let once : Text := "const _items = store.items".toList
    let twice : Text := "const _items = store._items".toList
    let name : Text := "items".toList
    let source (line : Text) : Source := ⟨⟨"a.ts".toList⟩, [line ++ ['\n']]⟩
    IsVariable name ∧ addUnderscore? line name = some once ∧ addUnderscore? once name = some twice ∧
      (source line).addUnderscore? 1 name = some (source once) ∧
      (source once).addUnderscore? 1 name = some (source twice) ∧ source twice ≠ source once :=
  ⟨by decide, by decide, by decide, by decide, by decide, by decide⟩

end Spruce.Declaration
