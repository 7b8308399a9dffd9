import Mathlib.Data.Char
import Mathlib.Data.List.Lex
import Mathlib.Data.Prod.Lex
import Mathlib.Order.Nat
import Spruce.Selection

/-!
# The order of paths

Paths are ordered as lists of components, and components by their kind and then by their text. This
is a linear order on what paths are ordered by (`before_iff`), so files that are collected come in
the order of their paths, whatever the order in which they were met (`pairwise_collect`).
-/

namespace Spruce

/-- What components are ordered by: their kind, and the text of names. -/
def Component.key : Component → Lex (Nat × Text)
  | .name t => toLex (3, t)
  | c => toLex (c.rank, [])

private theorem Component.key_injective : Function.Injective Component.key := by
  intro a b h
  cases a <;> cases b <;> simp_all [Component.key, Component.rank]

private theorem Component.before_iff (a b : Component) : a.before b = true ↔ a.key < b.key := by
  cases a <;> cases b <;> simp [Component.before, Component.key, Component.rank, Prod.Lex.lt_iff]

namespace Path

private theorem componentsBefore_iff (as bs : List Component) :
    componentsBefore as bs = true ↔ as.map Component.key < bs.map Component.key := by
  induction as generalizing bs with
  | nil =>
    cases bs with
    | nil => simp [componentsBefore]
    | cons b bs => simp [componentsBefore]
  | cons a as ih =>
    cases bs with
    | nil => simp [componentsBefore]
    | cons b bs =>
      rw [componentsBefore, Bool.or_eq_true, Bool.and_eq_true, decide_eq_true_eq, ih,
        Component.before_iff, List.map_cons, List.map_cons, List.cons_lt_cons_iff,
        Component.key_injective.eq_iff]

/-- A path comes before another one when its components do. -/
theorem before_iff (p q : Path) :
    p.before q = true ↔ p.components.map Component.key < q.components.map Component.key :=
  componentsBefore_iff p.components q.components

/-- Of two paths with different components, one comes before the other one. -/
theorem before_of_not_before {p q : Path} (h : q.before p = false)
    (hne : p.components ≠ q.components) : p.before q = true := by
  rw [← Bool.not_eq_true, before_iff, not_lt] at h
  rw [before_iff]
  exact lt_of_le_of_ne h fun he ↦ hne (List.map_injective_iff.mpr Component.key_injective he)

/-- Paths neither of which comes before the other one have the same components. -/
theorem components_eq_of_not_before {p q : Path} (hpq : p.before q = false)
    (hqp : q.before p = false) : p.components = q.components := by
  by_contra hne
  rw [before_of_not_before hqp hne] at hpq
  cases hpq

end Path

namespace Selection

open Spruce.Path

/-- Selected files are in the order of their paths. -/
theorem pairwise_select (s : Selection) (walked : List Path) :
    (s.select walked).Pairwise fun p q ↦ q.before p = false := by
  have hle (p q : Path) : (!q.before p) = true ↔
      p.components.map Component.key ≤ q.components.map Component.key := by
    rw [Bool.not_eq_true', ← Bool.not_eq_true, Path.before_iff, not_lt]
  have htrans (p q r : Path) (hpq : (!q.before p) = true) (hqr : (!r.before q) = true) :
      (!r.before p) = true := (hle p r).mpr (((hle p q).mp hpq).trans ((hle q r).mp hqr))
  have htotal (p q : Path) : ((!q.before p) || !p.before q) = true := by
    rw [Bool.or_eq_true, hle, hle]
    exact le_total _ _
  exact (List.pairwise_mergeSort htrans htotal _).imp fun hpq ↦ by simpa using hpq

/-- Where components tell paths apart, the order in which files are met has no part in what is
selected. -/
theorem select_eq_of_perm (s : Selection) {walked others : List Path} (h : walked.Perm others)
    (hcomponents : ∀ p ∈ walked, ∀ q ∈ walked, p.components = q.components → p = q) :
    s.select walked = s.select others := by
  have hperm : (s.select walked).Perm (s.select others) :=
    (List.mergeSort_perm _ _).trans ((h.filter _).trans (List.mergeSort_perm _ _).symm)
  have hwalked : ∀ p ∈ s.select walked, p ∈ walked := fun p hp ↦
    List.mem_of_mem_filter ((List.mergeSort_perm _ _).subset hp)
  refine hperm.eq_of_pairwise (fun p q hp hq hpq hqp ↦ ?_) (s.pairwise_select walked)
    (s.pairwise_select others)
  exact hcomponents p (hwalked p hp) q (hwalked q (hperm.symm.subset hq))
    (components_eq_of_not_before hqp hpq)

end Selection

/-- Files are collected in the order of their paths. -/
theorem pairwise_collect {s : Selection} {d : Disk} {files : List Path}
    (h : s.collect d = .ok files) : files.Pairwise fun p q ↦ q.before p = false := by
  unfold Selection.collect at h
  cases hw : Ignore.walk d s.root with
  | error e =>
    rw [hw] at h
    cases h
  | ok walked =>
    rw [hw] at h
    obtain rfl := Except.ok.inj h
    exact s.pairwise_select walked

end Spruce
