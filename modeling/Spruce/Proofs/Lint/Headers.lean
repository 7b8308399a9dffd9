import Mathlib.Data.List.DropRight
import Mathlib.Data.List.Forall2
import Spruce.Proofs.Lint.Recognition
import Spruce.Proofs.Path.Join

/-!
# What a header names

A header counts for the place that it leads to from the directory of the linter and for nothing
else: not for the spelling of the path, nor for colours and blanks around it (`resolve_header`). So
the findings stay when headers are spelled anew, and the file of each of them has the one clean
spelling of the place that a header leads to (`findings_respelled`).
-/

namespace Spruce.Lint

open Text

variable {root : Path} {raw raw' t path : Text}

/-! ### Headers -/

/-- The place that a header leads to, for a linter that ran in `root`. -/
def destination (root : Path) (raw : Text) : Location :=
  Path.place (root.place []) ⟨trim (plain raw)⟩

/-- A line that is read as a header. -/
def IsHeader (raw : Text) : Prop := (header? (plain raw)).isSome = true

instance (raw : Text) : Decidable (IsHeader raw) :=
  inferInstanceAs (Decidable ((header? (plain raw)).isSome = true))

/-- The path on a header is the line without the blanks around it. -/
theorem trim_header (h : header? t = some path) : trim path = trim t := by
  cases t with
  | nil => cases h
  | cons c r =>
    rw [header?] at h
    split at h
    · cases h
    · next hc =>
      rw [Bool.not_eq_true] at hc
      rw [Option.ite_none_right_eq_some, Option.some.injEq] at h
      have hend : trimEnd (c :: r) = c :: trimEnd r := trimEnd_append_cons hc [] r
      rw [← h.2, trim, trim, hend, trimStart_cons hc, trimStart_cons hc, ← hend, trimEnd,
        trimEnd, List.reverse_reverse, List.dropWhile_idempotent]

/-- A line is a header exactly when its text without colours is one. -/
theorem Line.ofText_eq_header_iff :
    Line.ofText raw = .header path ↔ header? (plain raw) = some path := by
  rw [Line.ofText]
  cases header? (plain raw) with
  | none => cases warning? (plain raw) <;> simp
  | some other => simp

/-- A reader takes a header for the path of the place that it leads to. -/
theorem resolve_header (hroot : root.isAbsolute = true) (h : Line.ofText raw = .header path) :
    Path.resolve root path = Disk.pathOf (destination root raw) ∧
      ∀ n ∈ destination root raw, Path.IsName n := by
  have hresolve := Path.resolve_eq hroot path
  rw [trim_header (Line.ofText_eq_header_iff.mp h)] at hresolve
  exact hresolve

private theorem IsHeader.exists_path (h : IsHeader raw) :
    ∃ path, Line.ofText raw = .header path := by
  obtain ⟨path, hpath⟩ := Option.isSome_iff_exists.mp h
  exact ⟨path, Line.ofText_eq_header_iff.mpr hpath⟩

/-! ### Readers -/

private theorem Reader.findings_cons (r : Reader) (l : Line) (ls : List Line) :
    r.findings (l :: ls) = (r.next l).2.toList ++ (r.next l).1.findings ls := rfl

/-- No line takes a reader to another directory. -/
theorem Reader.root_next (r : Reader) (l : Line) : (r.next l).1.root = r.root := by
  cases l <;> rfl

/-- Lines that readers in one directory take in the same way give the same findings. -/
theorem Reader.findings_congr {ls ls' : List Line}
    (h : List.Forall₂ (fun l l' ↦ ∀ r : Reader, r.root = root → r.next l' = r.next l) ls ls')
    {r : Reader} (hr : r.root = root) : r.findings ls' = r.findings ls := by
  induction h generalizing r with
  | nil => rfl
  | cons hl _ ih =>
    rw [Reader.findings_cons, Reader.findings_cons, hl r hr, ih ((r.root_next _).trans hr)]

/-- The file of a finding is the file of the reader or a header on a line gives it. -/
theorem Reader.file_of_mem_findings {r : Reader} {ls : List Line} {f : Finding}
    (h : f ∈ r.findings ls) :
    r.file = some f.file ∨ ∃ path, Line.header path ∈ ls ∧ f.file = Path.resolve r.root path := by
  induction ls generalizing r with
  | nil => cases h
  | cons l ls ih =>
    rw [Reader.findings_cons] at h
    rcases List.mem_append.mp h with hf | hf
    · -- only a warning is a finding, and in the file of the reader
      cases l with
      | header path => cases hf
      | warning line column name =>
        obtain ⟨file, hfile, rfl⟩ := Option.map_eq_some_iff.mp (Option.mem_toList.mp hf)
        exact .inl hfile
      | other => cases hf
    · rcases ih hf with hfile | ⟨path, hpath, hfile⟩
      · cases l with
        | header path => exact .inr ⟨path, List.mem_cons_self, (Option.some.inj hfile).symm⟩
        | warning line column name => exact .inl hfile
        | other => exact .inl hfile
      · rw [r.root_next] at hfile
        exact .inr ⟨path, List.mem_cons_of_mem l hpath, hfile⟩

/-! ### Output -/

/-- A line and a line in its place that leads to the same place where it differs: both are headers
then. -/
def Respelled (root : Path) (raw raw' : Text) : Prop :=
  raw' = raw ∨ IsHeader raw ∧ IsHeader raw' ∧ destination root raw' = destination root raw

/-- A reader does not tell a line from its new spelling. -/
theorem Respelled.next_eq (h : Respelled root raw raw') (hroot : root.isAbsolute = true)
    {r : Reader} (hr : r.root = root) :
    r.next (Line.ofText raw') = r.next (Line.ofText raw) := by
  rcases h with rfl | ⟨hraw, hraw', hplace⟩
  · rfl
  · obtain ⟨path, hpath⟩ := hraw.exists_path
    obtain ⟨path', hpath'⟩ := hraw'.exists_path
    have hresolve : Path.resolve r.root path' = Path.resolve r.root path := by
      rw [hr, (resolve_header hroot hpath).1, (resolve_header hroot hpath').1, hplace]
    rw [hpath, hpath', Reader.next, Reader.next, hresolve]

/-- Headers that are spelled anew leave all findings as they are. The file of a finding is clean
and absolute, the path of the place that one of the headers leads to. -/
theorem findings_respelled (hroot : root.isAbsolute = true) {output other : Text}
    (h : List.Forall₂ (Respelled root) (lines output) (lines other)) :
    findings root other = findings root output ∧
      ∀ f ∈ findings root output, f.file.IsCleanAbsolute ∧
        ∃ raw ∈ lines output, IsHeader raw ∧ f.file = Disk.pathOf (destination root raw) ∧
          ∀ name ∈ destination root raw, Path.IsName name := by
  constructor
  · have hlines : List.Forall₂ (fun l l' ↦ ∀ r : Reader, r.root = root → r.next l' = r.next l)
        ((lines output).map Line.ofText) ((lines other).map Line.ofText) := by
      rw [List.forall₂_map_left_iff, List.forall₂_map_right_iff]
      apply h.imp
      intro raw raw' hraw r hr
      exact hraw.next_eq hroot hr
    exact Reader.findings_congr hlines rfl
  · intro f hf
    rcases Reader.file_of_mem_findings hf with hfile | ⟨path, hpath, hfile⟩
    · cases hfile
    · obtain ⟨raw, hraw, hread⟩ := List.mem_map.mp hpath
      obtain ⟨hresolve, hnames⟩ := resolve_header hroot hread
      have hheader : IsHeader raw :=
        Option.isSome_iff_exists.mpr ⟨path, Line.ofText_eq_header_iff.mp hread⟩
      rw [hfile, hresolve]
      exact ⟨Path.isCleanAbsolute_pathOf hnames, raw, hraw, hheader, rfl, hnames⟩

/-- A relative spelling, and an absolute one that climbs out of a directory, with blanks after
it. -/
theorem findings_respelled_climbing :
    let root : Path := ⟨"/p/lint".toList⟩
    let below : Text := "  3:5  warning  'x' is defined but never used
".toList
    let output : Text := ".//./a.ts
".toList ++ below
    let other : Text := "/p/lint/b/../../lint//a.ts 	
".toList ++ below
    root.isAbsolute = true ∧ List.Forall₂ (Respelled root) (lines output) (lines other) ∧
      findings root other = findings root output ∧
      findings root output = [⟨⟨"/p/lint/a.ts".toList⟩, 3, 5, ['x']⟩] := by
  intro root below output other
  have hroot : root.isAbsolute = true := by decide
  have hlines : List.Forall₂ (Respelled root) (lines output) (lines other) := by
    apply List.Forall₂.cons
    · exact .inr ⟨by decide, by decide, by decide⟩
    · exact .cons (.inl rfl) .nil
  exact ⟨hroot, hlines, (findings_respelled hroot hlines).1, by decide +kernel⟩

end Spruce.Lint
