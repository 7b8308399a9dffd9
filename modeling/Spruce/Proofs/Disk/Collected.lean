import Mathlib.Data.List.Nodup
import Spruce.Proofs.Disk.Replace
import Spruce.Selection

/-!
# Files that a walk meets

The files that a walk meets are among the entries that it reaches (`filesBelow_eq`), which are
below its place (`exists_names_of_reaches`). The files that are collected below a directory are
separate: they have names, and no two of their paths lead to one place (`separate_of_collect`). What
is done to one of them is not seen at the others.
-/

namespace Spruce

open Spruce.Path

namespace Disk

/-- A tree of files: no location stands twice among the entries, and what a location is made of
can name something within a directory. -/
structure IsTree (d : Disk) : Prop where
  nodup : (d.entries.map Prod.fst).Nodup
  names : ∀ e ∈ d.entries, ∀ name ∈ e.1, IsName name

/-- Two disks with the same nodes at the same places, and the same current directory. -/
def SameTree (d e : Disk) : Prop := d.current = e.current ∧ ∀ place, d.node? place = e.node? place

/-- Paths of files that have nothing to do with each other. -/
structure Separate (d : Disk) (files : List Path) : Prop where
  nodup : files.Nodup
  named : ∀ p ∈ files, ∃ name, p.fileName? = some name
  apart : ∀ p ∈ files, ∀ q ∈ files, ∀ place n m, d.locate p = .ok (place, n) →
    d.locate q = .ok (place, m) → p = q

end Disk

open Disk Ignore

/-- Whether a node is a directory. -/
def Node.isDirectory : Node → Bool
  | .directory => true
  | .file _ _ => false

/-- Whether an entry of a disk is below a place, and neither ignored nor inside a directory below
that place that is ignored. -/
def Ignore.reaches (d : Disk) (place : Location) (e : Location × Node) : Bool :=
  decide (place.length < e.1.length) && (place.isPrefixOf e.1 &&
    !isIgnored d e.1 e.2.isDirectory &&
      (above e.1).all fun dir ↦ dir.length ≤ place.length || !isIgnored d dir true)

variable {d : Disk} {root : Path} {place : Location}

/-- The path of a file below a directory has the pieces of the directory and the names below it. -/
theorem pieces_pathBelow {names : List Text} (root : Path) (place : Location)
    (hn : ∀ name ∈ names, IsName name) :
    (pathBelow root place (place ++ names)).pieces = root.pieces ++ names ∧
      (pathBelow root place (place ++ names)).isAbsolute = root.isAbsolute := by
  rw [pathBelow, List.drop_left]
  exact foldl_join (fun name hm ↦ ⟨(hn name hm).1, (hn name hm).2.1⟩) root

/-- The path of a file below a directory leads to the file, if it leads anywhere. -/
theorem place_of_pathBelow {names : List Text} {other : Location} {n m : Node}
    (hroot : d.locate root = .ok (place, n)) (hn : ∀ name ∈ names, IsName name)
    (h : d.locate (pathBelow root place (place ++ names)) = .ok (other, m)) :
    other = place ++ names := by
  have hfollow := (follow_of_locate hroot).2
  obtain ⟨hpieces, habsolute⟩ := pieces_pathBelow root place hn
  have hbelow := (follow_of_locate h).2
  rw [hpieces, habsolute] at hbelow
  obtain ⟨between, hfirst, hrest⟩ := exists_follow_of_append hbelow
  obtain rfl : place = between := Except.ok.inj (hfollow.symm.trans hfirst)
  exact eq_append_of_follow hn hrest

/-! ### What a walk meets -/

/-- What a walk reaches stands in the tree below its place. -/
theorem exists_names_of_reaches (hd : d.IsTree) {e : Location × Node} (he : e ∈ d.entries)
    (h : reaches d place e = true) :
    ∃ names, names ≠ [] ∧ (∀ name ∈ names, IsName name) ∧ e.1 = place ++ names := by
  rw [reaches, Bool.and_eq_true, decide_eq_true_eq, Bool.and_eq_true, Bool.and_eq_true,
    List.isPrefixOf_iff_prefix] at h
  obtain ⟨hlonger, ⟨⟨names, hnames⟩, -⟩, -⟩ := h
  rw [← hnames] at hlonger ⊢
  refine ⟨names, ?_, fun name hn ↦ hd.names e he name ?_, rfl⟩
  · rintro rfl
    simp at hlonger
  · rw [← hnames]
    exact List.mem_append_right _ hn

/-- The files that a walk meets are among what it reaches. -/
theorem filesBelow_eq (d : Disk) (place : Location) : filesBelow d place =
    ((d.entries.filter (reaches d place)).filter fun e ↦ !e.2.isDirectory).map Prod.fst := by
  rw [List.filter_filter, ← List.filterMap_eq_filter, List.map_filterMap, filesBelow]
  refine List.filterMap_congr fun ⟨below, n⟩ _ ↦ ?_
  cases n with
  | directory => rfl
  | file content mode =>
    have hmeets : reaches d place (below, .file content mode) =
        (decide (place.length < below.length) && meets d place below) := rfl
    simp only [Option.guard, Node.isDirectory, Bool.not_false, Bool.true_and, hmeets]
    split <;> rfl

private theorem exists_names_of_mem {below : Location} (hd : d.IsTree)
    (h : below ∈ filesBelow d place) :
    ∃ names, names ≠ [] ∧ (∀ name ∈ names, IsName name) ∧ below = place ++ names := by
  rw [filesBelow_eq] at h
  obtain ⟨e, he, rfl⟩ := List.mem_map.mp h
  obtain ⟨hmem, hreaches⟩ := List.mem_filter.mp (List.mem_of_mem_filter he)
  exact exists_names_of_reaches hd hmem hreaches

/-- The path of a file that a walk meets goes on from the root by the names below its place. -/
theorem exists_names_of_mem_map {p : Path} (hd : d.IsTree)
    (hp : p ∈ (filesBelow d place).map (pathBelow root place)) :
    ∃ names, names ≠ [] ∧ (∀ name ∈ names, IsName name) ∧
      p = pathBelow root place (place ++ names) := by
  obtain ⟨below, hbelow, rfl⟩ := List.mem_map.mp hp
  obtain ⟨names, hne, hnames, rfl⟩ := exists_names_of_mem hd hbelow
  exact ⟨names, hne, hnames, rfl⟩

private theorem filesBelow_sublist (d : Disk) (place : Location) :
    (filesBelow d place).Sublist (d.entries.map Prod.fst) := by
  rw [filesBelow_eq]
  exact (List.filter_sublist.trans List.filter_sublist).map _

/-- The paths of the files that a walk meets are different. -/
theorem nodup_filesBelow (hd : d.IsTree) (root : Path) (place : Location) :
    ((filesBelow d place).map (pathBelow root place)).Nodup := by
  refine List.Nodup.map_on (fun b hb c hc he ↦ ?_) ((filesBelow_sublist d place).nodup hd.nodup)
  obtain ⟨names, -, hnames, rfl⟩ := exists_names_of_mem hd hb
  obtain ⟨others, -, hothers, rfl⟩ := exists_names_of_mem hd hc
  have hpieces := congrArg Path.pieces he
  rw [(pieces_pathBelow root place hnames).1, (pieces_pathBelow root place hothers).1] at hpieces
  rw [List.append_cancel_left hpieces]

/-- The files that are collected below a directory are separate. -/
theorem separate_of_collect {s : Selection} {files : List Path} (hd : d.IsTree)
    (hroot : d.isDirectory s.root = true) (h : s.collect d = .ok files) : d.Separate files := by
  have hlocate : ∃ place, d.locate s.root = .ok (place, .directory) := by
    unfold isDirectory at hroot
    split at hroot
    · exact ⟨_, ‹_›⟩
    · cases hroot
  obtain ⟨place, hplace⟩ := hlocate
  have hperm : files.Perm
      (((filesBelow d place).map (pathBelow s.root place)).filter s.selects) := by
    rw [Selection.collect, walk, hplace] at h
    dsimp only at h
    split at h
    · rw [← Except.ok.inj h]
      exact List.mergeSort_perm _ _
    · cases h
  have hmet (p : Path) (hp : p ∈ files) :
      p ∈ (filesBelow d place).map (pathBelow s.root place) :=
    List.mem_of_mem_filter (hperm.subset hp)
  refine ⟨hperm.nodup_iff.mpr ((nodup_filesBelow hd s.root place).filter _), fun p hp ↦ ?_,
    fun p hp q hq other n m hlp hlq ↦ ?_⟩
  · obtain ⟨names, hnonempty, hnames, rfl⟩ := exists_names_of_mem_map hd (hmet p hp)
    obtain ⟨init, last, rfl⟩ := List.eq_nil_or_concat names |>.resolve_left hnonempty
    rw [List.concat_eq_append] at hnames ⊢
    have hpieces : (pathBelow s.root place (place ++ (init ++ [last]))).pieces =
        (s.root.pieces ++ init) ++ [last] := by
      rw [(pieces_pathBelow s.root place hnames).1, List.append_assoc]
    exact ⟨last, fileName?_of_pieces hpieces (hnames last (by simp))⟩
  · obtain ⟨names, -, hnames, rfl⟩ := exists_names_of_mem_map hd (hmet p hp)
    obtain ⟨others, -, hothers, rfl⟩ := exists_names_of_mem_map hd (hmet q hq)
    rw [← place_of_pathBelow hplace hnames hlp, place_of_pathBelow hplace hothers hlq]

end Spruce
