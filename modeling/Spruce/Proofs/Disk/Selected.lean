import Spruce.Proofs.Disk.Below
import Spruce.Proofs.Path.Order

/-!
# What is collected

From any different paths below a directory, a selection takes those with one of the extensions and
without a marker in the names below the directory (`Selection.mem_select_of_areBelow`), strictly in
the order of components (`Selection.before_select_of_areBelow`). So in whatever order a walk yields
what is below a directory and not ignored, these are the files that are collected
(`collect_exact`). The markers are looked for with slashes in place of backslashes, so a backslash
in a name counts as a slash (`collect_backslash`).
-/

namespace Spruce

open Disk Ignore Spruce.Path

namespace Ignore

/-- The locations of the entries below a place that are not ignored. -/
def reached (d : Disk) (place : Location) : List Location :=
  (d.entries.filter (reaches d place)).map Prod.fst

/-- A walk yields what is below a directory and not ignored, each entry once and in any order,
without an error. The directory itself may come with it. What is ignored is told by the ignore files
in the directories (`isIgnored`); the laws of what is selected hold for any paths below the
directory (`Path.AreBelow`), by whatever rules they were left. -/
structure Yields (d : Disk) (root : Path) (place : Location) (yielded : List Path) : Prop where
  located : d.locate root = .ok (place, .directory)
  faultless : ∀ dir ∈ above place, faultsAt d dir = []
  once : (yielded.erase root).Perm ((reached d place).map (pathBelow root place))

end Ignore

/-- The files among what a walk yields that belong to a selection, in order. -/
def Selection.gather (s : Selection) (d : Disk) (yielded : List Path) : List Path :=
  s.select (yielded.filter d.isFile)

variable {d : Disk} {root p : Path} {place : Location} {yielded ps : List Path} {s : Selection}

namespace Path

/-- Different paths below a directory, whatever rules they were chosen by. -/
structure AreBelow (root : Path) (ps : List Path) : Prop where
  spelled : root.spelling ≠ []
  below : ∀ p ∈ ps, ∃ names, p.IsBelow root names
  nodup : ps.Nodup

/-- Components tell paths below a directory apart. -/
theorem AreBelow.eq_of_components (h : AreBelow root ps) {q : Path} (hp : p ∈ ps) (hq : q ∈ ps)
    (he : p.components = q.components) : p = q := by
  obtain ⟨names, hnames⟩ := h.below p hp
  obtain ⟨others, hothers⟩ := h.below q hq
  exact hnames.eq_of_components hothers h.spelled he

end Path

/-! ### Selecting among paths below a root -/

namespace Selection

/-- A file belongs to a selection when it has one of the extensions and none of the markers occurs
in its path relative to the root. -/
theorem selects_iff (s : Selection) (p : Path) : s.selects p = true ↔
    (∃ extension ∈ s.extensions, p.extension? = some extension) ∧
      ∀ marker ∈ s.markers, ¬ marker <:+: relativeSpelling s.root p := by
  rw [selects, Bool.and_eq_true, Bool.not_eq_true', ← Bool.not_eq_true, List.any_eq_true,
    Option.any_eq_true, and_comm]
  simp only [Text.holds_iff_isInfix, List.contains_iff_mem, not_exists, not_and]
  refine and_congr_left fun _ ↦ ?_
  exact ⟨fun ⟨e, he, hm⟩ ↦ ⟨e, hm, he⟩, fun ⟨e, hm, he⟩ ↦ ⟨e, he, hm⟩⟩

/-- What is selected are the paths that belong to the selection. -/
theorem mem_select (s : Selection) (ps : List Path) (p : Path) :
    p ∈ s.select ps ↔ p ∈ ps ∧ s.selects p = true := by
  rw [select, List.mem_mergeSort, List.mem_filter]

section Below

variable (h : AreBelow s.root ps)

include h

/-- What is selected are the paths with one of the extensions and without a marker in the names
below the root. -/
theorem mem_select_of_areBelow (p : Path) : p ∈ s.select ps ↔ p ∈ ps ∧
    (∃ extension ∈ s.extensions, p.extension? = some extension) ∧
      ∃ names, p.IsBelow s.root names ∧ ∀ marker ∈ s.markers, ¬ marker <:+: withSlashes names := by
  rw [mem_select, selects_iff]
  refine and_congr_right fun hp ↦ and_congr_right fun _ ↦ ?_
  constructor
  · intro hmarkers
    obtain ⟨names, hnames⟩ := h.below p hp
    rw [relativeSpelling_of_isBelow hnames h.spelled] at hmarkers
    exact ⟨names, hnames, hmarkers⟩
  · rintro ⟨names, hnames, hmarkers⟩
    rwa [relativeSpelling_of_isBelow hnames h.spelled]

/-- What is selected comes strictly in order. -/
theorem before_select_of_areBelow : (s.select ps).Pairwise fun p q ↦ p.before q = true := by
  have hnodup : (s.select ps).Nodup :=
    (List.mergeSort_perm _ _).nodup_iff.mpr (h.nodup.filter _)
  refine ((s.pairwise_select ps).and hnodup).imp_of_mem fun hp hq ⟨hnot, hne⟩ ↦ ?_
  refine before_of_not_before hnot fun he ↦ hne ?_
  exact h.eq_of_components ((mem_select s ps _).mp hp).1 ((mem_select s ps _).mp hq).1 he

/-- The order in which the paths are given has no part in what is selected. -/
theorem select_perm_of_areBelow {others : List Path} (hperm : ps.Perm others) :
    s.select ps = s.select others :=
  select_eq_of_perm s hperm fun _ hp _ hq ↦ h.eq_of_components hp hq

/-- Markers that occur in no path relative to the root take nothing away. -/
theorem select_append_markers {idle : List Text} (hidle : ∀ marker ∈ idle, ∀ p ∈ ps,
    ∀ names, p.IsBelow s.root names → ¬ marker <:+: withSlashes names) :
    { s with markers := idle ++ s.markers }.select ps = s.select ps := by
  rw [select, select]
  refine congrArg (List.mergeSort · _) (List.filter_congr fun p hp ↦ Bool.eq_iff_iff.mpr ?_)
  rw [selects_iff, selects_iff]
  refine and_congr_right fun _ ↦ ?_
  rw [List.forall_mem_append]
  refine and_iff_right fun marker hm ↦ ?_
  obtain ⟨names, hnames⟩ := h.below p hp
  rw [relativeSpelling_of_isBelow hnames h.spelled]
  exact hidle marker hm p hp names hnames

end Below

end Selection

/-! ### What a walk yields -/

namespace Ignore.Yields

private theorem filter_isFile_reached (hd : d.IsWhole)
    (hroot : d.locate root = .ok (place, .directory)) :
    ((reached d place).map (pathBelow root place)).filter d.isFile =
      (filesBelow d place).map (pathBelow root place) := by
  rw [reached, filesBelow_eq, List.filter_map, List.filter_map]
  congr 2
  refine List.filter_congr fun e he ↦ ?_
  obtain ⟨below, n⟩ := e
  obtain ⟨hmem, hreaches⟩ := List.mem_filter.mp he
  obtain ⟨names, hne, -, rfl⟩ := exists_names_of_reaches hd.toIsTree hmem hreaches
  rw [Function.comp_apply, Function.comp_apply, isFile, hd.locate_pathBelow hroot hmem hne]
  cases n <;> rfl

/-- The files among what a walk yields are those that are met. -/
theorem filter_isFile_perm (hd : d.IsWhole) (h : Yields d root place yielded) :
    (yielded.filter d.isFile).Perm ((filesBelow d place).map (pathBelow root place)) := by
  have hroot : d.isFile root = false := by rw [isFile, h.located]
  have hfilter : (yielded.filter d.isFile).Perm ((yielded.erase root).filter d.isFile) := by
    by_cases hmem : root ∈ yielded
    · have hcons := (List.perm_cons_erase hmem).filter d.isFile
      rwa [List.filter_cons_of_neg (by simp [hroot])] at hcons
    · rw [List.erase_of_not_mem hmem]
  rw [← filter_isFile_reached hd h.located]
  exact hfilter.trans (h.once.filter _)

/-- Where a walk yields anything, it meets the files below the root. -/
theorem walk_eq (h : Yields d root place yielded) :
    walk d root = .ok ((filesBelow d place).map (pathBelow root place)) := by
  rw [walk, h.located]
  dsimp only
  rw [List.flatMap_eq_nil_iff.mpr h.faultless]

/-- The files among what a walk yields are different paths below the root. -/
theorem areBelow (hd : d.IsWhole) (h : Yields d root place yielded) :
    AreBelow root (yielded.filter d.isFile) := by
  have hperm := h.filter_isFile_perm hd
  refine ⟨(follow_of_locate h.located).1, fun p hp ↦ ?_,
    hperm.nodup_iff.mpr (nodup_filesBelow hd.toIsTree root place)⟩
  obtain ⟨names, -, hnames, rfl⟩ := exists_names_of_mem_map hd.toIsTree (hperm.subset hp)
  exact ⟨names, hnames, by rw [pathBelow, List.drop_left]⟩

end Ignore.Yields

/-- What is collected is gathered from any walk. -/
theorem Selection.collect_eq_gather (hd : d.IsWhole) (hy : Yields d s.root place yielded) :
    s.collect d = .ok (s.gather d yielded) := by
  rw [collect, hy.walk_eq, gather, select_perm_of_areBelow (hy.areBelow hd)
    (hy.filter_isFile_perm hd)]
  rfl

/-- Collecting is exact. Whatever the order in which a walk yields what is below the root and not
ignored, the files that are collected come strictly in the order of components, and they are the
files that the walk yields with one of the extensions and without any of the markers in their path
relative to the root. Markers that occur in no such path take nothing away. -/
theorem collect_exact (hd : d.IsWhole) (hy : Yields d s.root place yielded) :
    ∃ files, s.collect d = .ok files ∧ files.Pairwise (fun p q ↦ p.before q = true) ∧
      (∀ p, p ∈ files ↔ p ∈ yielded ∧ d.isFile p = true ∧
        (∃ extension ∈ s.extensions, p.extension? = some extension) ∧
          ∃ names, p.IsBelow s.root names ∧ ∀ marker ∈ s.markers, ¬ marker <:+: withSlashes names) ∧
      (∀ others, Yields d s.root place others → s.gather d others = files) ∧
      ∀ idle : List Text, (∀ marker ∈ idle, ∀ p ∈ yielded, ∀ names, p.IsBelow s.root names →
        ¬ marker <:+: withSlashes names) →
          { s with markers := idle ++ s.markers }.collect d = .ok files := by
  have hbelow := hy.areBelow hd
  refine ⟨s.gather d yielded, Selection.collect_eq_gather hd hy,
    Selection.before_select_of_areBelow hbelow, fun p ↦ ?_, fun others hothers ↦ ?_,
    fun idle hidle ↦ ?_⟩
  · rw [Selection.gather, Selection.mem_select_of_areBelow hbelow, List.mem_filter, and_assoc]
  · have hsame := Selection.collect_eq_gather hd hothers
    rw [Selection.collect_eq_gather hd hy] at hsame
    exact (Except.ok.inj hsame).symm
  · have hsame : { s with markers := idle ++ s.markers }.collect d = _ :=
      Selection.collect_eq_gather hd hy
    rwa [Selection.gather, Selection.select_append_markers hbelow fun marker hm p hp ↦
      hidle marker hm p (List.mem_of_mem_filter hp)] at hsame

/-- Two files and a directory below a root whose own path holds the marker, in the order of
components and not of spellings. -/
theorem collect_exact_marked_root :
    let d : Disk :=
      ⟨[(["dist".toList], .directory),
        (["dist".toList, "b.ts".toList], .file ⟨#[]⟩ 420),
        (["dist".toList, "a.ts".toList], .file ⟨#[]⟩ 420),
        (["dist".toList, "a".toList], .directory),
        (["dist".toList, "a".toList, "c.ts".toList], .file ⟨#[]⟩ 420)], []⟩
    let s : Selection := ⟨⟨"/dist".toList⟩, ["ts".toList], ["dist/".toList, "b".toList]⟩
    let yielded : List Path := [⟨"/dist".toList⟩, ⟨"/dist/a.ts".toList⟩, ⟨"/dist/b.ts".toList⟩,
      ⟨"/dist/a".toList⟩, ⟨"/dist/a/c.ts".toList⟩]
    d.IsWhole ∧ Yields d s.root ["dist".toList] yielded ∧
      s.gather d yielded = [⟨"/dist/a/c.ts".toList⟩, ⟨"/dist/a.ts".toList⟩] ∧
      ∃ files, s.collect d = .ok files ∧ files.Pairwise (fun p q ↦ p.before q = true) ∧
        (∀ p, p ∈ files ↔ p ∈ yielded ∧ d.isFile p = true ∧
          (∃ extension ∈ s.extensions, p.extension? = some extension) ∧
            ∃ names, p.IsBelow s.root names ∧
              ∀ marker ∈ s.markers, ¬ marker <:+: withSlashes names) ∧
        (∀ others, Yields d s.root ["dist".toList] others → s.gather d others = files) ∧
        ∀ idle : List Text, (∀ marker ∈ idle, ∀ p ∈ yielded, ∀ names, p.IsBelow s.root names →
          ¬ marker <:+: withSlashes names) →
            { s with markers := idle ++ s.markers }.collect d = .ok files := by
  intro d s yielded
  have hd : d.IsWhole :=
    { nodup := by decide
      names := by simp [d, IsName]
      held := by simp [d, node?, List.lookup_cons]
      noNul := by simp [d] }
  have hy : Yields d s.root ["dist".toList] yielded := ⟨rfl, by decide, by decide⟩
  refine ⟨hd, hy, ?_, collect_exact hd hy⟩
  let inOrder : List Path :=
    [⟨"/dist/a/c.ts".toList⟩, ⟨"/dist/a.ts".toList⟩, ⟨"/dist/b.ts".toList⟩]
  have hperm : (yielded.filter d.isFile).Perm inOrder := by decide
  have hfiles : inOrder.filter s.selects =
      [⟨"/dist/a/c.ts".toList⟩, ⟨"/dist/a.ts".toList⟩] := by decide
  rw [Selection.gather, Selection.select_eq_of_perm s hperm (by decide), Selection.select, hfiles]
  exact List.mergeSort_of_pairwise (by decide)

/-- A name with a backslash is no directory and a file in it, but the file is left out as if it
were: the marker does not occur in its relative path as that stands. -/
theorem collect_backslash :
    let name : Text := "dist\\x.ts".toList
    let d : Disk := ⟨[([['p']], .directory), ([['p'], name], .file ⟨#[]⟩ 420)], []⟩
    let s : Selection := ⟨⟨"/p".toList⟩, ["ts".toList], ["dist/".toList]⟩
    let p : Path := ⟨"/p/".toList ++ name⟩
    d.IsWhole ∧ Yields d s.root [['p']] [s.root, p] ∧ d.isFile p = true ∧
      p.extension? = some "ts".toList ∧ p.IsBelow s.root [name] ∧
      (∀ marker ∈ s.markers, ¬ marker <:+: Text.joinWith ['/'] [name]) ∧
      s.collect d = .ok [] := by
  intro name d s p
  have hd : d.IsWhole :=
    { nodup := by decide
      names := by simp [d, name, IsName]
      held := by simp [d, node?, List.lookup_cons]
      noNul := by simp [d, name] }
  have hy : Yields d s.root [['p']] [s.root, p] := ⟨rfl, by decide, by decide⟩
  refine ⟨hd, hy, rfl, rfl, ⟨by simp [name, IsName], rfl⟩, by decide, ?_⟩
  have hfiles : ([s.root, p].filter d.isFile).filter s.selects = [] := by decide
  rw [Selection.collect_eq_gather hd hy, Selection.gather, Selection.select, hfiles,
    List.mergeSort_nil]

end Spruce
