import Mathlib.Data.List.Basic
import Spruce.Declaration.Rename

/-!
# Where a variable is renamed

A rename puts a new text in place of one occurrence of the name and keeps what stands before and
after it (`eq_of_addUnderscore?`). It brings in nothing but an underscore and the joints between
the old name and the new one (`addUnderscore?_subset`), and leaves something.
-/

namespace Spruce.Declaration

open Text

/-- `new` is `before`, given in reverse, and `rest` with one occurrence of the name in `rest`
replaced. -/
def RenamesIn (isImport : Bool) (name before rest new : Text) : Prop :=
  ∃ between after replacement, rest = between ++ name ++ after ∧
    renamedBetween? isImport name (between.reverse ++ before) after = some replacement ∧
    new = before.reverse ++ between ++ replacement ++ after

private theorem RenamesIn.pass {isImport : Bool} {name before rest new : Text} {c : Char}
    (h : RenamesIn isImport name (c :: before) rest new) :
    RenamesIn isImport name before (c :: rest) new := by
  obtain ⟨between, after, replacement, hr, hb, hn⟩ := h
  exact ⟨c :: between, after, replacement, by simp [hr], by simpa using hb, by simpa using hn⟩

/-- A rename of the text that is still to be looked at replaces one occurrence of the name. -/
theorem renamesIn_of_renameFrom {isImport : Bool} {name before rest new : Text} {passed : Nat}
    (h : renameFrom isImport name passed before rest = some new) :
    RenamesIn isImport name before rest new := by
  fun_induction renameFrom isImport name passed before rest with
  | case1 => cases h
  | case2 before passed c r ih => exact (ih h).pass
  | case3 before c r hp ih => exact (ih h).pass
  | case4 before c r after hp replacement hr =>
    obtain rfl := Option.some.inj h
    exact ⟨[], after, replacement, (List.append_eq_of_isPrefixOf?_eq_some hp).symm, hr, by simp⟩
  | case5 before c r after hp hr ih => exact (ih h).pass

/-- A renamed line is the line with one occurrence of the name replaced. -/
theorem eq_of_addUnderscore? {line name new : Text} (h : addUnderscore? line name = some new) :
    name ≠ [] ∧ ∃ before after replacement, line = before ++ name ++ after ∧
      renamedBetween? (importWord.isPrefixOf (trimStart line)) name before.reverse after =
        some replacement ∧
      new = before ++ replacement ++ after := by
  unfold addUnderscore? at h
  split at h
  · cases h
  · next hn =>
    obtain ⟨before, after, replacement, hl, hr, rfl⟩ := renamesIn_of_renameFrom h
    refine ⟨by simpa using hn, before, after, replacement, hl, by simpa using hr, by simp⟩

/-- The characters that a rename can bring in. -/
def renameJoints : Text := ['_', ' ', ':', 'a', 's']

private theorem renamed?_subset {isImport : Bool} {name new : Text} {o : Occurrence}
    (h : renamed? isImport name o = some new) : new ⊆ name ++ renameJoints ∧ new ≠ [] := by
  have hi : " as _".toList = [' ', 'a', 's', ' ', '_'] := by decide
  have hp : ": _".toList = [':', ' ', '_'] := by decide
  cases o with
  | key => cases h
  | plain =>
    obtain rfl := Option.some.inj h
    simp [renameJoints]
  | shorthand =>
    rw [renamed?, hi, hp] at h
    split at h
    · obtain rfl := Option.some.inj h
      simp [renameJoints]
    · obtain rfl := Option.some.inj h
      simp [renameJoints]

/-- A renamed line is made of its own characters and those that a rename brings in. -/
theorem addUnderscore?_subset {line name new : Text} (h : addUnderscore? line name = some new) :
    new ⊆ line ++ renameJoints := by
  obtain ⟨-, before, after, replacement, rfl, hr, rfl⟩ := eq_of_addUnderscore? h
  unfold renamedBetween? at hr
  split at hr
  · have hs := (renamed?_subset hr).1
    intro c hc
    have := @hs c
    simp only [List.mem_append] at this hc ⊢
    grind
  · cases hr

/-- A renamed line is not empty. -/
theorem addUnderscore?_ne_nil {line name new : Text} (h : addUnderscore? line name = some new) :
    new ≠ [] := by
  obtain ⟨-, before, after, replacement, -, hr, rfl⟩ := eq_of_addUnderscore? h
  unfold renamedBetween? at hr
  split at hr
  · simp [(renamed?_subset hr).2]
  · cases hr

end Spruce.Declaration
