import Spruce.Cleanup.Run
import Spruce.Proofs.Declaration.Element
import Spruce.Proofs.Declaration.Underscore
import Spruce.Proofs.Source.Splice
import Spruce.Proofs.Text.Rows

/-!
# Treatments of one line

An edit of a source depends on one row only: it does there what it would do to a source of that row
alone (`Source.removeDeclaration?_eq`, `Source.addUnderscore?_eq`). What is done about a variable is
therefore a treatment of one row, which leaves nothing or one row of the same kind
(`replaces_treat`).
-/

namespace Spruce

open Text

namespace Source

/-- The source of a single row. -/
def alone (row : Text) : Source := ⟨⟨[]⟩, [row]⟩

variable {s : Source} {n : Nat} {row : Text}

private theorem row?_alone (row : Text) : (alone row).row? 1 = some row := rfl

private theorem splice_alone (row : Text) (rows : List Text) :
    ((alone row).splice 1 rows).rows = rows := by
  simp [splice, alone]

/-- Removing a declaration takes a row out, or cuts an element out of it. -/
theorem removeDeclaration?_eq (h : s.row? n = some row) (name : Text) :
    s.removeDeclaration? n name =
      if Declaration.isStandalone (lineContent row) name then some (.deletedLine, s.splice n [])
      else if Declaration.isDestructuring (lineContent row) then
        (Declaration.removeElement? (lineContent row) name).map fun new ↦
          (.removedElement, s.splice n [new ++ lineTerminator row])
      else none := by
  simp only [removeDeclaration?, line?_eq h, Option.bind_some, removeLine?_eq h,
    replaceLine?_eq h, Option.map_eq_bind, Function.comp_def]

/-- Renaming a variable renames it on a row. -/
theorem addUnderscore?_eq (h : s.row? n = some row) (name : Text) :
    s.addUnderscore? n name =
      (Declaration.addUnderscore? (lineContent row) name).map fun new ↦
        s.splice n [new ++ lineTerminator row] := by
  simp only [addUnderscore?, line?_eq h, Option.bind_some, replaceLine?_eq h,
    Option.map_eq_bind, Function.comp_def]

/-- Removing a declaration does to a row what it does to that row alone. -/
theorem removeDeclaration?_eq_alone (h : s.row? n = some row) (name : Text) :
    s.removeDeclaration? n name = ((alone row).removeDeclaration? 1 name).map
      fun (way, left) ↦ (way, s.splice n left.rows) := by
  rw [removeDeclaration?_eq h, removeDeclaration?_eq (row?_alone row)]
  split
  · simp [splice_alone]
  · split
    · simp [Function.comp_def, splice_alone]
    · rfl

/-- Renaming a variable does to a row what it does to that row alone. -/
theorem addUnderscore?_eq_alone (h : s.row? n = some row) (name : Text) :
    s.addUnderscore? n name =
      ((alone row).addUnderscore? 1 name).map fun left ↦ s.splice n left.rows := by
  rw [addUnderscore?_eq h, addUnderscore?_eq (row?_alone row)]
  simp [Function.comp_def, splice_alone]

private theorem rows_eq_nil_iff {name : Text} {way : Removal} {left : Source}
    (h : (alone row).removeDeclaration? 1 name = some (way, left)) :
    left.rows = [] ↔ way = .deletedLine := by
  rw [removeDeclaration?_eq (row?_alone row)] at h
  split at h
  · obtain ⟨rfl, rfl⟩ := Prod.mk.inj (Option.some.inj h)
    simp [splice_alone]
  · split at h
    · obtain ⟨new, -, h⟩ := Option.map_eq_some_iff.mp h
      obtain ⟨rfl, rfl⟩ := Prod.mk.inj h
      simp [splice_alone]
    · cases h

private theorem rows_ne_nil {name : Text} {left : Source}
    (h : (alone row).addUnderscore? 1 name = some left) : left.rows ≠ [] := by
  rw [addUnderscore?_eq (row?_alone row)] at h
  obtain ⟨new, -, rfl⟩ := Option.map_eq_some_iff.mp h
  simp [splice_alone]

end Source

namespace Cleanup

open Lint

/-- What is left of a row, and what was done about a variable on it. -/
structure Treatment where
  left : List Text
  action : Action
  remark : Option Remark
  deriving DecidableEq, Repr

/-- The deleted lines of a file after a treatment of a line that was not among them. -/
def Treatment.deleted (t : Treatment) (line : Nat) (deleted : List Nat) : List Nat :=
  if t.left = [] then line :: deleted else deleted

/-- What is done about the variable `name` on a row by itself: its declaration is removed where that
is safe, and renamed otherwise. -/
def treat (row name : Text) : Treatment :=
  let removal :=
    if Declaration.isSafeToRemove (lineContent row) name then
      (Source.alone row).removeDeclaration? 1 name
    else none
  match removal with
  | some (.deletedLine, left) => ⟨left.rows, .removed, some .deletedDeclaration⟩
  | some (.removedElement, left) => ⟨left.rows, .removed, some .removedElement⟩
  | none =>
    match (Source.alone row).addUnderscore? 1 name with
    | some left => ⟨left.rows, .prefixed, none⟩
    | none => ⟨[row], .skipped, some .nameNotFound⟩

/-- A treatment that does not remove the declaration renames the variable or leaves the row. -/
theorem treat_of_not_removed {row name : Text}
    (h : (if Declaration.isSafeToRemove (lineContent row) name then
      (Source.alone row).removeDeclaration? 1 name else none) = none) :
    (∃ new, Declaration.addUnderscore? (lineContent row) name = some new ∧
        treat row name = ⟨[new ++ lineTerminator row], .prefixed, none⟩) ∨
      treat row name = ⟨[row], .skipped, some .nameNotFound⟩ := by
  unfold treat
  rw [h, Source.addUnderscore?_eq (Source.row?_alone row)]
  cases Declaration.addUnderscore? (lineContent row) name with
  | none => exact .inr rfl
  | some new => exact .inl ⟨new, rfl, by simp [Source.splice_alone]⟩

/-- Where no line is deleted and no element cut out, the variable is renamed. -/
theorem treat_of_removeElement?_eq_none {row name new : Text}
    (hd : Declaration.isStandalone (lineContent row) name = false)
    (hr : Declaration.removeElement? (lineContent row) name = none)
    (hu : Declaration.addUnderscore? (lineContent row) name = some new) :
    treat row name = ⟨[new ++ lineTerminator row], .prefixed, none⟩ := by
  have hremoval : (if Declaration.isSafeToRemove (lineContent row) name then
      (Source.alone row).removeDeclaration? 1 name else none) = none := by
    rw [Source.removeDeclaration?_eq (Source.row?_alone row), hd, hr]
    simp
  unfold treat
  rw [hremoval, Source.addUnderscore?_eq (Source.row?_alone row), hu]
  simp [Source.splice_alone]

/-- A treatment deletes the row, cuts an element out of its content, renames the variable in its
content, or leaves it alone. -/
theorem treat_cases (row name : Text) :
    treat row name = ⟨[], .removed, some .deletedDeclaration⟩ ∨
      (∃ new, Declaration.removeElement? (lineContent row) name = some new ∧
        treat row name = ⟨[new ++ lineTerminator row], .removed, some .removedElement⟩) ∨
      (∃ new, Declaration.addUnderscore? (lineContent row) name = some new ∧
        treat row name = ⟨[new ++ lineTerminator row], .prefixed, none⟩) ∨
      treat row name = ⟨[row], .skipped, some .nameNotFound⟩ := by
  by_cases hs : Declaration.isSafeToRemove (lineContent row) name = true
  · have hr := Source.removeDeclaration?_eq (Source.row?_alone row) name
    by_cases hd : Declaration.isStandalone (lineContent row) name = true
    · rw [if_pos hd] at hr
      left
      simp [treat, hs, hr, Source.splice_alone]
    · rw [if_neg hd] at hr
      by_cases ho : Declaration.isDestructuring (lineContent row) = true
      · rw [if_pos ho] at hr
        cases he : Declaration.removeElement? (lineContent row) name with
        | none =>
          rw [he] at hr
          exact .inr (.inr (treat_of_not_removed (by rw [if_pos hs, hr]; rfl)))
        | some new =>
          rw [he] at hr
          exact .inr (.inl ⟨new, rfl, by simp [treat, hs, hr, Source.splice_alone]⟩)
      · rw [if_neg ho] at hr
        exact .inr (.inr (treat_of_not_removed (by rw [if_pos hs, hr])))
  · exact .inr (.inr (treat_of_not_removed (if_neg hs)))

/-- A treatment leaves nothing or one row, and a row that is skipped is left as it is. -/
theorem left_treat (row name : Text) :
    ((treat row name).left = [] ∨ ∃ new, (treat row name).left = [new]) ∧
      ((treat row name).action = .skipped → (treat row name).left = [row]) := by
  rcases treat_cases row name with ht | ⟨new, -, ht⟩ | ⟨new, -, ht⟩ | ht
  · rw [ht]
    exact ⟨.inl rfl, nofun⟩
  · rw [ht]
    exact ⟨.inr ⟨_, rfl⟩, nofun⟩
  · rw [ht]
    exact ⟨.inr ⟨_, rfl⟩, nofun⟩
  · rw [ht]
    exact ⟨.inr ⟨_, rfl⟩, fun _ ↦ rfl⟩

/-- A treatment says that it deletes the row exactly when it leaves nothing, and it never says that
there is no row. -/
theorem remark_treat (row name : Text) :
    ((treat row name).remark = some .deletedDeclaration ↔ (treat row name).left = []) ∧
      ∀ n, (treat row name).remark ≠ some (.pastEnd n) := by
  rcases treat_cases row name with ht | ⟨new, -, ht⟩ | ⟨new, -, ht⟩ | ht
  all_goals
    rw [ht]
    exact ⟨by simp, nofun⟩

/-- What a treatment leaves may stand in place of the row. -/
theorem replaces_treat {row : Text} (hn : '\n' ∉ row.dropLast) (hne : row ≠ []) (name : Text) :
    Replaces row (treat row name).left := by
  have hc := notMem_lineContent hn
  have hj : '\n' ∉ Declaration.joints := by decide
  have hr : '\n' ∉ Declaration.renameJoints := by decide
  rcases treat_cases row name with ht | ⟨new, h, ht⟩ | ⟨new, h, ht⟩ | ht
  · rw [ht]
    exact .dropped
  · rw [ht]
    refine .content row (Declaration.removeElement?_ne_nil h) fun hm ↦ ?_
    exact (List.mem_append.mp (Declaration.removeElement?_subset h hm)).elim hc hj
  · rw [ht]
    refine .content row (Declaration.addUnderscore?_ne_nil h) fun hm ↦ ?_
    exact (List.mem_append.mp (Declaration.addUnderscore?_subset h hm)).elim hc hr
  · rw [ht]
    exact .changed row hne hn id

/-! ### Handling by treatment -/

namespace Run

/-- The run after a treatment of the row of a line, and what it came to. -/
def carryOut (r : Run) (f : Finding) (n : Nat) (s : Source) (t : Treatment) : Run × Verdict :=
  let edited := r.edit f.file.components (s.splice n t.left) t.action t.remark
  if t.action = .skipped then (r, .ok (t.action, t.remark))
  else if t.left = [] then noteDeletion f.file.components f.line edited
  else edited

private theorem carryOut_renamed (r : Run) (f : Finding) (n : Nat) (s : Source) (row : Text) :
    (match ((Source.alone row).addUnderscore? 1 f.name).map fun left ↦ s.splice n left.rows with
      | some edited => r.edit f.file.components edited .prefixed none
      | none => (r, .ok (.skipped, some .nameNotFound))) =
    r.carryOut f n s (match (Source.alone row).addUnderscore? 1 f.name with
      | some left => ⟨left.rows, .prefixed, none⟩
      | none => ⟨[row], .skipped, some .nameNotFound⟩) := by
  cases hu : (Source.alone row).addUnderscore? 1 f.name with
  | none => rfl
  | some left =>
    have hl : left.rows ≠ [] := Source.rows_ne_nil hu
    simp [carryOut, hl]

/-- Handling a finding on a line carries out the treatment of its row. -/
theorem handleLine_eq {r : Run} {f : Finding} {n : Nat} {s : Source} {row : Text}
    (h : s.row? n = some row) :
    r.handleLine f n s (lineContent row) = r.carryOut f n s (treat row f.name) := by
  have hr := Source.removeDeclaration?_eq_alone h f.name
  have hu := Source.addUnderscore?_eq_alone h f.name
  unfold handleLine treat
  by_cases hs : Declaration.isSafeToRemove (lineContent row) f.name = true
  · simp only [if_pos hs, hr]
    cases ha : (Source.alone row).removeDeclaration? 1 f.name with
    | none =>
      simp only [Option.map_none, hu]
      exact carryOut_renamed r f n s row
    | some found =>
      obtain ⟨way, left⟩ := found
      have hl := Source.rows_eq_nil_iff ha
      cases way with
      | deletedLine => simp [carryOut, hl]
      | removedElement => simp [carryOut, hl]
  · simp only [if_neg hs, hu]
    exact carryOut_renamed r f n s row

end Run

end Cleanup

end Spruce
