import Spruce.Proofs.Declaration.Eligible
import Spruce.Proofs.Declaration.Nesting
import Spruce.Proofs.Text.Pieces

/-!
# Imports and patterns

A shorthand that is renamed keeps its old name, in the form of an import or in that of a property.
The form is chosen by the letters that begin the line, and not by the list that the shorthand stands
in: the text before the innermost open brace decides by its first letters
(`addUnderscore?_importForm_iff`). Import lists get the form of an import, and so does an object
pattern in a call that begins with these letters (`addUnderscore?_dynamicImport`).
-/

namespace Spruce.Declaration

open Text

variable {name line before after head t r : Text}

/-! ### Text before a brace -/

/-- What stands before the braces of an import list, blanks at its ends aside: the words that begin
an import, perhaps with a name and a comma after them. -/
def IsImportHead (t : Text) : Prop :=
  ∃ opening ∈ ["import".toList, "import type".toList], trim t = opening ∨
    ∃ gap first, trim t = opening ++ gap ++ first ++ [','] ∧ gap ≠ [] ∧ IsBlanks gap ∧
      IsVariable first

private theorem prefix_append_cons_iff {word : Text} {c : Char} (h : c ∉ word) (t r : Text) :
    word <+: t ++ c :: r ↔ word <+: t := by
  constructor
  · rintro ⟨rest, hrest⟩
    rcases List.append_eq_append_iff.mp hrest with ⟨w, rfl, hw⟩ | ⟨w, rfl, hw⟩
    · exact List.prefix_append word w
    · cases w with
      | nil => simp
      | cons d w =>
        obtain ⟨rfl, -⟩ := List.cons.inj hw
        simp at h
  · intro hp
    exact hp.trans (List.prefix_append t (c :: r))

private theorem trimStart_append_cons {c : Char} (hc : isBlank c = false) (t r : Text) :
    trimStart (t ++ c :: r) = trimStart t ++ c :: r := by
  rw [trimStart, List.dropWhile_append, List.dropWhile_cons_of_neg (by simp [hc]), trimStart]
  split
  · next h => rw [List.isEmpty_iff.mp h, List.nil_append]
  · rfl

/-- Whether a line begins with the letters of an import is seen before its first brace. -/
theorem isImportLine_iff (head r : Text) :
    isImportLine (head ++ '{' :: r) = true ↔ importWord <+: trimStart head := by
  have hnot : '{' ∉ importWord := by decide
  rw [isImportLine, List.isPrefixOf_iff_prefix, trimStart_append_cons (by decide),
    prefix_append_cons_iff hnot]

private theorem prefix_of_trimEnd (t : Text) : trimEnd t <+: t := by
  rw [← List.reverse_suffix, trimEnd, List.reverse_reverse]
  exact List.dropWhile_suffix _

/-- An import list stands on a line that begins with the letters of an import. -/
theorem IsImportHead.begins (h : IsImportHead t) : importWord <+: trimStart t := by
  obtain ⟨opening, ho, h⟩ := h
  have hword : ∀ opening ∈ ["import".toList, "import type".toList], importWord <+: opening := by
    decide
  have hopening : opening <+: trim t := by
    rcases h with h | ⟨gap, first, h, -⟩
    · exact h ▸ List.prefix_rfl
    · rw [h]
      simp
  exact ((hword opening ho).trans hopening).trans (prefix_of_trimEnd (trimStart t))

/-! ### The form of a shorthand -/

private theorem underscore_ne_importForm (name : Text) : '_' :: name ≠ importForm name := by
  intro h
  have hlength := congrArg List.length h
  simp only [importForm_eq, List.length_append, List.length_cons] at hlength
  omega

private theorem propertyForm_ne_importForm (name : Text) : propertyForm name ≠ importForm name := by
  intro h
  have hlength := congrArg List.length h
  simp only [importForm_eq, propertyForm_eq, List.length_append, List.length_cons] at hlength
  omega

/-- The form of an import takes the place of a shorthand exactly where the text before the innermost
open brace begins, blanks aside, with the letters of an import. So it does in every import list, and
elsewhere a shorthand gets the form of a property if its line does not begin with these letters. -/
theorem addUnderscore?_importForm_iff {line name new : Text} (hn : IsVariable name)
    (h : addUnderscore? line name = some new) :
    ∃ before after replacement, IsFirst line name before after ∧
      new = before ++ replacement ++ after ∧
      (replacement = importForm name ↔ occurrence before.reverse after = .shorthand ∧
        ∃ head, LastOpen before head '{' ∧ importWord <+: trimStart head) ∧
      (occurrence before.reverse after = .shorthand → ∃ head, LastOpen before head '{' ∧
        (IsImportHead head → replacement = importForm name) ∧
        (¬ importWord <+: trimStart head → replacement = propertyForm name)) := by
  obtain ⟨before, after, replacement, hfirst, hr, rfl⟩ := exists_first_of_addUnderscore? hn h
  have himport {head : Text} (hopen : LastOpen before head '{') :
      isImportLine line = true ↔ importWord <+: trimStart head := by
    obtain ⟨inner, rfl, -⟩ := hopen
    rw [hfirst.line_eq, List.append_assoc, List.append_assoc, List.cons_append, isImportLine_iff]
  have hopen (ho : occurrence before.reverse after = .shorthand) :
      ∃ head, LastOpen before head '{' :=
    (enclosingOpener_eq_some_iff before).mp (of_occurrence_eq_shorthand ho).1
  refine ⟨before, after, replacement, hfirst, rfl, ?_, fun ho ↦ ?_⟩
  · rcases (renamed?_eq_some_iff _).mp hr with ⟨ho, rfl⟩ | ⟨ho, hi, rfl⟩ | ⟨ho, hi, rfl⟩
    · simp [ho, underscore_ne_importForm]
    · obtain ⟨head, hhead⟩ := hopen ho
      exact ⟨fun _ ↦ ⟨ho, head, hhead, (himport hhead).mp hi⟩, fun _ ↦ rfl⟩
    · refine ⟨fun hform ↦ absurd hform (propertyForm_ne_importForm name), ?_⟩
      rintro ⟨-, head, hhead, hletters⟩
      rw [(himport hhead).mpr hletters] at hi
      cases hi
  · obtain ⟨head, hhead⟩ := hopen ho
    rw [ho] at hr
    refine ⟨head, hhead, fun hlist ↦ ?_, fun hletters ↦ ?_⟩
    · rw [(himport hhead).mpr hlist.begins] at hr
      exact (Option.some.inj hr).symm
    · rw [Bool.eq_false_iff.mpr (mt (himport hhead).mp hletters)] at hr
      exact (Option.some.inj hr).symm

/-- A name in the list of an import that has a default name. -/
theorem addUnderscore?_importForm_iff_default :
    let line : Text := "import x, \x7b a, b \x7d".toList
    let new : Text := "import x, \x7b a, b as _b \x7d".toList
    IsVariable ['b'] ∧ addUnderscore? line ['b'] = some new ∧ ∃ before after replacement,
      IsFirst line ['b'] before after ∧ new = before ++ replacement ++ after ∧
      (replacement = importForm ['b'] ↔ occurrence before.reverse after = .shorthand ∧
        ∃ head, LastOpen before head '{' ∧ importWord <+: trimStart head) ∧
      (occurrence before.reverse after = .shorthand → ∃ head, LastOpen before head '{' ∧
        (IsImportHead head → replacement = importForm ['b']) ∧
        (¬ importWord <+: trimStart head → replacement = propertyForm ['b'])) := by
  intro line new
  have hn : IsVariable ['b'] := by decide
  have h : addUnderscore? line ['b'] = some new := by decide
  exact ⟨hn, h, addUnderscore?_importForm_iff hn h⟩

/-- In a pattern after a dynamic import a shorthand gets the form of an import. -/
theorem addUnderscore?_dynamicImport :
    let before : Text := "import(x).then((\x7b ".toList
    let after : Text := " \x7d) => 0)".toList
    IsVariable ['a'] ∧
      addUnderscore? (before ++ ['a'] ++ after) ['a'] =
        some (before ++ importForm ['a'] ++ after) ∧
      occurrence before.reverse after = .shorthand ∧
      ∀ head, LastOpen before head '{' → ¬ IsImportHead head := by
  intro before after
  refine ⟨by decide, by decide, by decide, fun head hhead ↦ ?_⟩
  have hlast : LastOpen before "import(x).then((".toList '{' :=
    ⟨[' '], by decide, by decide, by decide⟩
  obtain ⟨rfl, -⟩ := hlast.unique hhead
  rintro ⟨opening, ho, h | ⟨gap, first, h, -⟩⟩
  · have hshort : ∀ opening ∈ ["import".toList, "import type".toList],
        trim "import(x).then((".toList ≠ opening := by decide
    exact hshort opening ho h
  · have hcomma := congrArg List.getLast? h
    rw [List.getLast?_concat] at hcomma
    exact absurd hcomma (by decide)

end Spruce.Declaration
