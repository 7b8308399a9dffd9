import Mathlib.Data.Nat.Find
import Spruce.Proofs.Declaration.Binding
import Spruce.Proofs.Declaration.Underscore

/-!
# The occurrence that is renamed

An occurrence of a name is eligible where it stands as a whole identifier and is not a key. A line
is renamed at its first eligible occurrence, and not at all where it has none
(`addUnderscore?_eq_none_iff`, `exists_first_of_addUnderscore?`). The name is not eligible again
inside the text that takes its place, unless it is the word of the import form
(`addUnderscore?_first`).
-/

namespace Spruce.Declaration

open Text

variable {name line before after replacement new s t : Text} {isImport : Bool}

/-! ### Eligible occurrences -/

/-- What stands between two texts is a whole identifier and not a key. -/
structure IsEligible (before after : Text) : Prop where
  left : endsIdentifier before.reverse = true
  right : endsIdentifier after = true
  not_key : occurrence before.reverse after ≠ .key

/-- The first eligible occurrence of `name` on the line stands between `before` and `after`. -/
structure IsFirst (line name before after : Text) : Prop where
  line_eq : line = before ++ name ++ after
  eligible : IsEligible before after
  least : ∀ s t, line = s ++ name ++ t → IsEligible s t → before.length ≤ s.length

/-- Whether the line begins with the letters of an import. -/
def isImportLine (line : Text) : Bool := importWord.isPrefixOf (trimStart line)

private theorem renamedBetween?_eq_none_iff :
    renamedBetween? isImport name before.reverse after = none ↔ ¬ IsEligible before after := by
  unfold renamedBetween?
  constructor
  · rintro h ⟨hl, hr, hk⟩
    rw [hl, hr] at h
    cases ho : occurrence before.reverse after with
    | plain => simp [ho, renamed?] at h
    | shorthand =>
      rw [ho] at h
      simp only [renamed?, Bool.and_self, if_true] at h
      split at h <;> cases h
    | key => exact hk ho
  · intro h
    split
    · next hends =>
      obtain ⟨hl, hr⟩ := Bool.and_eq_true_iff.mp hends
      have hk : occurrence before.reverse after = .key := by
        by_contra hk
        exact h ⟨hl, hr, hk⟩
      rw [hk]
      rfl
    · rfl

private theorem renamedBetween?_of_eligible (h : IsEligible before after) (isImport : Bool)
    (name : Text) :
    renamedBetween? isImport name before.reverse after =
      renamed? isImport name (occurrence before.reverse after) := by
  rw [renamedBetween?, h.left, h.right]
  rfl

/-- An identifier ends where an identifier character stands next to it only on its other side. -/
theorem endsIdentifier_cons (c : Char) (t : Text) : endsIdentifier (c :: t) = !isIdentifier c := rfl

/-! ### The search -/

/-- What the counter of the search stands for: the positions that it passes over come after a
character of an identifier, so that no whole identifier begins there. -/
def Passing (passed : Nat) (before rest : Text) : Prop :=
  passed ≠ 0 → endsIdentifier before = false ∧
    ∀ c ∈ rest.take (passed - 1), isIdentifier c = true

private theorem Passing.next {passed : Nat} {c : Char} {rest : Text}
    (h : Passing (passed + 1) before (c :: rest)) : Passing passed (c :: before) rest := by
  intro hne
  obtain ⟨n, rfl⟩ := Nat.exists_eq_succ_of_ne_zero hne
  have hall := (h (Nat.succ_ne_zero _)).2
  rw [Nat.add_sub_cancel, List.take_succ_cons] at hall
  obtain ⟨hc, hrest⟩ := List.forall_mem_cons.mp hall
  exact ⟨by rw [endsIdentifier_cons, hc]; rfl, hrest⟩

private theorem passing_name {c : Char} {rest : Text} (hn : IsVariable name)
    (h : c :: rest = name ++ t) (before : Text) :
    Passing (name.length - 1) (c :: before) rest := by
  obtain ⟨hne, hall⟩ := hn
  cases name with
  | nil => exact absurd rfl hne
  | cons d name =>
    obtain ⟨rfl, rfl⟩ := List.cons.inj h
    obtain ⟨hc, hname⟩ := List.forall_mem_cons.mp hall
    intro _
    refine ⟨by rw [endsIdentifier_cons, hc]; rfl, fun d hd ↦ hname d ?_⟩
    have hwithin : (name ++ t).take (name.length - 1) = name.take (name.length - 1) :=
      List.take_append_of_le_length (Nat.sub_le _ _)
    rw [List.length_cons, Nat.add_sub_cancel] at hd
    exact List.mem_of_mem_take (hwithin ▸ hd)

/-- The search renames the first occurrence that can be renamed. -/
theorem renameFrom_eq {between before rest : Text} {passed : Nat} (hn : IsVariable name)
    (hp : Passing passed before rest) (hrest : rest = between ++ name ++ after)
    (hr : renamedBetween? isImport name (between.reverse ++ before) after = some replacement)
    (hfirst : ∀ s t, rest = s ++ name ++ t → s.length < between.length →
      renamedBetween? isImport name (s.reverse ++ before) t = none) :
    renameFrom isImport name passed before rest =
      some (before.reverse ++ between ++ replacement ++ after) := by
  induction between generalizing passed before rest with
  | nil =>
    cases passed with
    | zero =>
      have hstart : name.isPrefixOf? rest = some after :=
        List.isPrefixOf?_eq_some_iff_append_eq.mpr hrest.symm
      cases rest with
      | nil => exact absurd (List.append_eq_nil_iff.mp hrest.symm).1 (by simpa using hn.1)
      | cons c r =>
        rw [List.reverse_nil, List.nil_append] at hr
        rw [renameFrom, hstart]
        simp only [hr, List.append_nil]
    | succ passed =>
      have hends := (hp (Nat.succ_ne_zero passed)).1
      rw [List.reverse_nil, List.nil_append, renamedBetween?, hends] at hr
      cases hr
  | cons c between ih =>
    subst hrest
    rw [List.cons_append, List.cons_append] at hp hfirst ⊢
    have hr' : renamedBetween? isImport name (between.reverse ++ c :: before) after =
        some replacement := by simpa using hr
    have hfirst' : ∀ s t, between ++ name ++ after = s ++ name ++ t →
        s.length < between.length →
          renamedBetween? isImport name (s.reverse ++ c :: before) t = none := by
      intro s t hs hlt
      have hnone := hfirst (c :: s) t (congrArg (c :: ·) hs) (Nat.succ_lt_succ hlt)
      simpa using hnone
    have hline : (c :: before).reverse ++ between ++ replacement ++ after =
        before.reverse ++ c :: between ++ replacement ++ after := by simp
    cases passed with
    | succ passed => rw [renameFrom, ih hp.next rfl hr' hfirst', hline]
    | zero =>
      rw [renameFrom]
      split
      · rw [ih (fun hne ↦ absurd rfl hne) rfl hr' hfirst', hline]
      · next rest' hstart =>
        have hsplit := List.append_eq_of_isPrefixOf?_eq_some hstart
        have hnone := hfirst [] rest' (by simpa using hsplit.symm) (Nat.succ_pos _)
        rw [List.reverse_nil, List.nil_append] at hnone
        simp only [hnone]
        rw [ih (passing_name hn hsplit.symm before) rfl hr' hfirst', hline]

/-- A line with an eligible occurrence has a first one. -/
theorem exists_isFirst (hline : line = s ++ name ++ t) (h : IsEligible s t) :
    ∃ before after, IsFirst line name before after := by
  classical
  have hex : ∃ n s t, s.length = n ∧ line = s ++ name ++ t ∧ IsEligible s t :=
    ⟨s.length, s, t, rfl, hline, h⟩
  obtain ⟨before, after, hlength, hsplit, heligible⟩ := Nat.find_spec hex
  refine ⟨before, after, hsplit, heligible, fun s t hs he ↦ ?_⟩
  rw [hlength]
  exact Nat.find_min' hex ⟨s, t, rfl, hs, he⟩

/-- The first eligible occurrence is renamed. -/
theorem addUnderscore?_of_isFirst (hn : IsVariable name) (h : IsFirst line name before after) :
    ∃ replacement, renamed? (isImportLine line) name (occurrence before.reverse after) =
        some replacement ∧
      addUnderscore? line name = some (before ++ replacement ++ after) := by
  have hrenamed := renamedBetween?_of_eligible h.eligible (isImportLine line) name
  cases hr : renamed? (isImportLine line) name (occurrence before.reverse after) with
  | none =>
    rw [hr, renamedBetween?_eq_none_iff] at hrenamed
    exact absurd h.eligible hrenamed
  | some replacement =>
    refine ⟨replacement, rfl, ?_⟩
    have hempty : name.isEmpty = false := by simpa using hn.1
    rw [addUnderscore?, hempty, if_neg Bool.false_ne_true, ← isImportLine,
      renameFrom_eq hn (fun hne ↦ absurd rfl hne) h.line_eq (by simpa [hr] using hrenamed)]
    · simp
    · intro s t hs hlt
      rw [List.append_nil, renamedBetween?_eq_none_iff]
      exact fun he ↦ Nat.not_lt.mpr (h.least s t hs he) hlt

/-- A line is left alone exactly when it has no eligible occurrence. -/
theorem addUnderscore?_eq_none_iff (hn : IsVariable name) : addUnderscore? line name = none ↔
    ∀ s t, line = s ++ name ++ t → ¬ IsEligible s t := by
  constructor
  · intro hnone s t hline he
    obtain ⟨before, after, hfirst⟩ := exists_isFirst hline he
    obtain ⟨replacement, -, hsome⟩ := addUnderscore?_of_isFirst hn hfirst
    rw [hnone] at hsome
    cases hsome
  · intro hnot
    cases h : addUnderscore? line name with
    | none => rfl
    | some new =>
      obtain ⟨-, before, after, replacement, hline, hr, -⟩ := eq_of_addUnderscore? h
      rw [renamedBetween?_eq_none_iff.mpr (hnot before after hline)] at hr
      cases hr

/-- A renamed line is the line with its first eligible occurrence renamed. -/
theorem exists_first_of_addUnderscore? (hn : IsVariable name)
    (h : addUnderscore? line name = some new) :
    ∃ before after replacement, IsFirst line name before after ∧
      renamed? (isImportLine line) name (occurrence before.reverse after) = some replacement ∧
      new = before ++ replacement ++ after := by
  obtain ⟨s, t, hline, he⟩ : ∃ s t, line = s ++ name ++ t ∧ IsEligible s t := by
    by_contra hnot
    push Not at hnot
    rw [(addUnderscore?_eq_none_iff hn).mpr hnot] at h
    cases h
  obtain ⟨before, after, hfirst⟩ := exists_isFirst hline he
  obtain ⟨replacement, hr, hsome⟩ := addUnderscore?_of_isFirst hn hfirst
  exact ⟨before, after, replacement, hfirst, hr, Option.some.inj (h.symm.trans hsome)⟩

/-! ### Names in a text -/

/-- No identifier ends before characters of an identifier. -/
theorem endsIdentifier_append_of_ne_nil {s : Text} (hne : s ≠ [])
    (hs : ∀ c ∈ s, isIdentifier c = true) (t : Text) : endsIdentifier (s ++ t) = false := by
  cases s with
  | nil => exact absurd rfl hne
  | cons c s =>
    rw [List.cons_append, endsIdentifier_cons, hs c List.mem_cons_self]
    rfl

/-- A name does not run across a place where an identifier ends. -/
theorem occurs_append {x y : Text} (hn : IsVariable name)
    (hends : endsIdentifier x.reverse = true ∨ endsIdentifier y = true)
    (h : x ++ y = s ++ name ++ t) :
    (∃ t', x = s ++ name ++ t' ∧ t = t' ++ y) ∨ ∃ s', s = x ++ s' ∧ y = s' ++ name ++ t := by
  rcases List.append_eq_append_iff.mp h with ⟨w, hw, rfl⟩ | ⟨t', hx, ht⟩
  · rcases List.append_eq_append_iff.mp hw with ⟨v, rfl, rfl⟩ | ⟨s', rfl, rfl⟩
    · obtain ⟨hv, hw⟩ := List.forall_mem_append.mp hn.2
      by_cases hvne : v = []
      · subst hvne
        exact .inr ⟨[], by simp, by simp⟩
      · by_cases hwne : w = []
        · subst hwne
          exact .inl ⟨[], by simp, by simp⟩
        · rw [List.reverse_append, endsIdentifier_append_of_ne_nil (by simpa using hvne)
            (fun c hc ↦ hv c (List.mem_reverse.mp hc)), endsIdentifier_append_of_ne_nil hwne hw]
            at hends
          rcases hends with hends | hends <;> cases hends
    · exact .inr ⟨s', rfl, rfl⟩
  · exact .inl ⟨t', hx, ht⟩

/-- A name stands before or after a character that is not part of identifiers. -/
theorem occurs_append_cons {x y : Text} {c : Char} (hn : IsVariable name)
    (hc : isIdentifier c = false) (h : x ++ c :: y = s ++ name ++ t) :
    (∃ t', x = s ++ name ++ t' ∧ t = t' ++ c :: y) ∨
      ∃ s', s = x ++ c :: s' ∧ y = s' ++ name ++ t := by
  have hends : endsIdentifier (c :: y) = true := by rw [endsIdentifier_cons, hc]; rfl
  rcases occurs_append hn (.inr hends) h with hleft | ⟨s', rfl, hy⟩
  · exact .inl hleft
  · cases s' with
    | nil =>
      obtain ⟨d, name, rfl⟩ := List.exists_cons_of_ne_nil hn.1
      obtain ⟨rfl, -⟩ := List.cons.inj hy
      have hd := hn.2 c List.mem_cons_self
      rw [hc] at hd
      cases hd
    | cons d s' =>
      obtain ⟨rfl, rfl⟩ := List.cons.inj hy
      exact .inr ⟨s', rfl, rfl⟩

/-- Nothing is eligible next to identifier characters. -/
theorem not_isEligible_beside (hs : ∀ c ∈ s, isIdentifier c = true)
    (ht : ∀ c ∈ t, isIdentifier c = true) (hne : s ≠ [] ∨ t ≠ []) (before after : Text) :
    ¬ IsEligible (before ++ s) (t ++ after) := by
  rintro ⟨hl, hr, -⟩
  rcases hne with hne | hne
  · rw [List.reverse_append, endsIdentifier_append_of_ne_nil (by simpa using hne)
      (fun c hc ↦ hs c (List.mem_reverse.mp hc))] at hl
    cases hl
  · rw [endsIdentifier_append_of_ne_nil hne ht] at hr
    cases hr

/-- Inside an identifier only the whole of it can be eligible. -/
theorem eq_of_isEligible_within {word : Text} (hword : ∀ c ∈ word, isIdentifier c = true)
    (h : word = s ++ name ++ t) (he : IsEligible (before ++ s) (t ++ after)) : word = name := by
  rw [h] at hword
  obtain ⟨hsn, ht⟩ := List.forall_mem_append.mp hword
  by_contra hne
  refine not_isEligible_beside (List.forall_mem_append.mp hsn).1 ht ?_ before after he
  by_contra hnil
  push Not at hnil
  obtain ⟨rfl, rfl⟩ := hnil
  exact hne (by simpa using h)

/-! ### Keys and shorthands -/

/-- After a key stands a colon, or the word of the import form with a space. -/
def EndsKey (after : Text) : Prop :=
  (trimStart after).head? = some ':' ∨ ['a', 's', ' '].isPrefixOf (trimStart after) = true

private theorem endsKey_colon (r : Text) : EndsKey (':' :: r) := by
  left
  rw [trimStart_cons (by decide)]
  rfl

private theorem endsKey_word (r : Text) : EndsKey (' ' :: 'a' :: 's' :: ' ' :: r) := by
  right
  have hblank : IsBlanks [' '] := by decide
  have htrim := hblank.trimStart_append ('a' :: 's' :: ' ' :: r)
  rw [trimStart_cons (by decide)] at htrim
  rw [List.singleton_append] at htrim
  rw [htrim]
  rfl

/-- An occurrence is a key when it stands in braces and what follows ends a key. -/
theorem occurrence_eq_key_iff (before after : Text) : occurrence before after = .key ↔
    enclosingOpener before = some '{' ∧ EndsKey after := by
  unfold occurrence EndsKey
  dsimp only
  split
  · next h => exact ⟨fun _ ↦ h, fun _ ↦ rfl⟩
  · next h =>
    refine ⟨fun hk ↦ ?_, fun hk ↦ absurd hk h⟩
    split at hk <;> cases hk

/-- A shorthand comes after a brace or a comma in braces. -/
theorem of_occurrence_eq_shorthand (h : occurrence before after = .shorthand) :
    enclosingOpener before = some '{' ∧
      ((trimStart before).head? = some '{' ∨ (trimStart before).head? = some ',') := by
  unfold occurrence at h
  dsimp only at h
  split at h
  · cases h
  · split at h
    · next hs => exact ⟨hs.1, hs.2.1⟩
    · cases h

/-- The name of a property and the new name of its variable. -/
def propertyForm (name : Text) : Text := name ++ ": _".toList ++ name

/-- The name of an import and the new name of its variable. -/
def importForm (name : Text) : Text := name ++ " as _".toList ++ name

/-- The property form, character by character around the name. -/
theorem propertyForm_eq (name : Text) : propertyForm name = name ++ ':' :: ' ' :: '_' :: name := by
  have joint : ": _".toList = [':', ' ', '_'] := by decide
  rw [propertyForm, joint, List.append_assoc]
  rfl

/-- The import form, character by character around the name. -/
theorem importForm_eq (name : Text) :
    importForm name = name ++ ' ' :: (['a', 's'] ++ ' ' :: '_' :: name) := by
  have joint : " as _".toList = [' ', 'a', 's', ' ', '_'] := by decide
  rw [importForm, joint, List.append_assoc]
  rfl

/-- What takes the place of an occurrence that is renamed. -/
theorem renamed?_eq_some_iff (o : Occurrence) : renamed? isImport name o = some replacement ↔
    o = .plain ∧ replacement = '_' :: name ∨
      o = .shorthand ∧ isImport = true ∧ replacement = importForm name ∨
      o = .shorthand ∧ isImport = false ∧ replacement = propertyForm name := by
  cases o with
  | plain => simp [renamed?, eq_comm]
  | shorthand => cases isImport <;> simp [renamed?, importForm, propertyForm, eq_comm]
  | key => simp [renamed?]

/-! ### The text in its place -/

/-- After an underscore a name is not eligible. -/
theorem not_isEligible_underscore (hn : IsVariable name)
    (h : '_' :: name = s ++ name ++ t) (before after : Text) :
    ¬ IsEligible (before ++ s) (t ++ after) := by
  intro he
  have hall : ∀ c ∈ '_' :: name, isIdentifier c = true :=
    List.forall_mem_cons.mpr ⟨by decide, hn.2⟩
  have hlength := congrArg List.length (eq_of_isEligible_within hall h he)
  simp at hlength

/-- An old name that is kept before a new one is a key. -/
theorem not_isEligible_kept {rest : Text}
    (hopen : enclosingOpener before.reverse = some '{') (hkey : EndsKey (rest ++ after))
    (h : name = s ++ name ++ t) : ¬ IsEligible (before ++ s) (t ++ rest ++ after) := by
  have hlength := congrArg List.length h
  simp only [List.length_append] at hlength
  obtain rfl : s = [] := List.eq_nil_of_length_eq_zero (by omega)
  obtain rfl : t = [] := List.eq_nil_of_length_eq_zero (by omega)
  rw [List.append_nil, List.nil_append]
  exact fun he ↦ he.not_key ((occurrence_eq_key_iff _ _).mpr ⟨hopen, hkey⟩)

/-- In the text that takes its place a name is not eligible, unless it is the word of the import
form. -/
theorem not_isEligible_renamed (hn : IsVariable name)
    (hr : renamed? isImport name (occurrence before.reverse after) = some replacement)
    (hword : ¬ (name = ['a', 's'] ∧ replacement = importForm name))
    (h : replacement = s ++ name ++ t) : ¬ IsEligible (before ++ s) (t ++ after) := by
  rcases (renamed?_eq_some_iff _).mp hr with ⟨-, rfl⟩ | ⟨ho, -, rfl⟩ | ⟨ho, -, rfl⟩
  · exact not_isEligible_underscore hn h before after
  · have hopen := (of_occurrence_eq_shorthand ho).1
    have hne : ['a', 's'] ≠ name := fun hname ↦ hword ⟨hname.symm, rfl⟩
    rw [importForm_eq] at h
    rcases occurs_append_cons hn (by decide) h with ⟨t', hx, rfl⟩ | ⟨s', rfl, hword⟩
    · exact not_isEligible_kept hopen (endsKey_word _) hx
    · rcases occurs_append_cons hn (by decide) hword with ⟨t', hx, rfl⟩ | ⟨s', rfl, hnew⟩
      · intro he
        have hwithin : IsEligible (before ++ name ++ [' '] ++ s')
            (t' ++ (' ' :: '_' :: name ++ after)) := by simpa using he
        have hall : ∀ c ∈ ['a', 's'], isIdentifier c = true :=
          List.all_eq_true.mp (by decide)
        exact hne (eq_of_isEligible_within hall hx hwithin)
      · have hnot := not_isEligible_underscore hn hnew (before ++ name ++ " as ".toList) after
        simpa using hnot
  · have hopen := (of_occurrence_eq_shorthand ho).1
    rw [propertyForm_eq] at h
    rcases occurs_append_cons hn (by decide) h with ⟨t', hx, rfl⟩ | ⟨s', rfl, hspace⟩
    · exact not_isEligible_kept hopen (endsKey_colon _) hx
    · rcases occurs_append_cons (x := []) hn (by decide) hspace with ⟨t', hx, -⟩ | ⟨s', rfl, hnew⟩
      · exact absurd hx (by simp [hn.1])
      · have hnot := not_isEligible_underscore hn hnew (before ++ name ++ [':', ' ']) after
        simpa using hnot

/-- A line is left alone exactly when it has no eligible occurrence of the name. Otherwise the first
one, and nothing else, makes way for the new name, with the old one before it where that is a
shorthand. In the text that takes its place the name is not eligible any more, unless it is the word
of the import form. -/
theorem addUnderscore?_first (line : Text) {name : Text} (hn : IsVariable name) :
    (addUnderscore? line name = none ↔ ∀ s t, line = s ++ name ++ t → ¬ IsEligible s t) ∧
      ∀ new, addUnderscore? line name = some new → ∃ before after replacement,
        IsFirst line name before after ∧ new = before ++ replacement ++ after ∧
        (occurrence before.reverse after = .plain ∧ replacement = '_' :: name ∨
          occurrence before.reverse after = .shorthand ∧
            (replacement = propertyForm name ∨ replacement = importForm name)) ∧
        (name ≠ "as".toList → ∀ s t, replacement = s ++ name ++ t →
          ¬ IsEligible (before ++ s) (t ++ after)) := by
  refine ⟨addUnderscore?_eq_none_iff hn, fun new h ↦ ?_⟩
  obtain ⟨before, after, replacement, hfirst, hr, hnew⟩ := exists_first_of_addUnderscore? hn h
  refine ⟨before, after, replacement, hfirst, hnew, ?_, fun hword s t hs ↦ ?_⟩
  · rcases (renamed?_eq_some_iff _).mp hr with hplain | ⟨ho, -, himport⟩ | ⟨ho, -, hproperty⟩
    · exact .inl hplain
    · exact .inr ⟨ho, .inr himport⟩
    · exact .inr ⟨ho, .inl hproperty⟩
  · exact not_isEligible_renamed hn hr (fun h ↦ hword h.1) hs

/-- A shorthand after a key of the same name and a longer name. -/
theorem addUnderscore?_first_shorthand :
    let line : Text := "const \x7b a: aa, a \x7d = b".toList
    let new : Text := "const \x7b a: aa, a: _a \x7d = b".toList
    IsVariable ['a'] ∧ addUnderscore? line ['a'] = some new ∧ ∃ before after replacement,
      IsFirst line ['a'] before after ∧ new = before ++ replacement ++ after ∧
      (occurrence before.reverse after = .plain ∧ replacement = ['_', 'a'] ∨
        occurrence before.reverse after = .shorthand ∧
          (replacement = propertyForm ['a'] ∨ replacement = importForm ['a'])) ∧
      (['a'] ≠ "as".toList → ∀ s t, replacement = s ++ ['a'] ++ t →
        ¬ IsEligible (before ++ s) (t ++ after)) := by
  intro line new
  have hn : IsVariable ['a'] := by decide
  have h : addUnderscore? line ['a'] = some new := by decide
  exact ⟨hn, h, (addUnderscore?_first line hn).2 new h⟩

end Spruce.Declaration
