import Spruce.Proofs.Disk.Collected

/-!
# Paths below a directory

A path below a directory is the path of the directory with names after it. On a whole disk it leads
to what stands at these names (`IsWhole.locate_pathBelow`), and relative to the directory it is
spelled with the names alone (`relativeSpelling_of_isBelow`).
-/

namespace Spruce

open Spruce.Path

namespace Disk

/-- A tree of files as it is kept on a disk: what holds something is a directory, and there is no
NUL in a name. -/
structure IsWhole (d : Disk) : Prop extends d.IsTree where
  held : ∀ e ∈ d.entries, d.node? e.1.dropLast = some .directory
  noNul : ∀ e ∈ d.entries, ∀ name ∈ e.1, '\x00' ∉ name

end Disk

namespace Path

/-- A path is that of `root` with these names after it. -/
structure IsBelow (p root : Path) (names : List Text) : Prop where
  isName : ∀ name ∈ names, IsName name
  eq_foldl : p = names.foldl (fun q name ↦ q.join ⟨name⟩) root

/-- Names with slashes between them, and with slashes for the backslashes in them. -/
def withSlashes (names : List Text) : Text :=
  (Text.joinWith ['/'] names).map fun c ↦ if c = '\\' then '/' else c

variable {p root : Path} {names : List Text}

/-- A path below a directory has the components of the directory and then the names. -/
theorem IsBelow.components (h : p.IsBelow root names) (hroot : root.spelling ≠ []) :
    p.components = root.components ++ names.map .name := by
  rw [h.eq_foldl, components_foldl_join hroot h.isName]

/-- Below a directory, components tell paths apart. -/
theorem IsBelow.eq_of_components {q : Path} {others : List Text} (hp : p.IsBelow root names)
    (hq : q.IsBelow root others) (hroot : root.spelling ≠ [])
    (h : p.components = q.components) : p = q := by
  rw [hp.components hroot, hq.components hroot] at h
  have hnames : names = others :=
    List.map_injective_iff.mpr (fun _ _ he ↦ by cases he; rfl) (List.append_cancel_left h)
  rw [hp.eq_foldl, hq.eq_foldl, hnames]

/-- Relative to a directory, a path below it is spelled with the names below the directory. -/
theorem relativeSpelling_of_isBelow (h : p.IsBelow root names) (hroot : root.spelling ≠ []) :
    Selection.relativeSpelling root p = withSlashes names := by
  have hbelow : Selection.componentsBelow root p = some (names.map .name) := by
    rw [Selection.componentsBelow, h.components hroot]
    exact List.isPrefixOf?_eq_some_iff_append_eq.mpr rfl
  rw [Selection.relativeSpelling, hbelow]
  dsimp only
  rw [ofComponents_names h.isName, withSlashes]

/-- The spelling of a path below a directory ends in the last of the names, and what stands before
is taken from the directory, from the other names and from the slashes between them. -/
theorem spelling_foldl_join {init : List Text} {last : Text}
    (hn : ∀ name ∈ init ++ [last], IsName name) (root : Path) :
    ∃ front, ((init ++ [last]).foldl (fun q name ↦ q.join ⟨name⟩) root).spelling = front ++ last ∧
      ∀ c ∈ front, c ∈ root.spelling ∨ c = '/' ∨ ∃ name ∈ init, c ∈ name := by
  induction init generalizing root with
  | nil =>
    obtain ⟨front, heq, hfront⟩ := spelling_join root
      (isAbsolute_piece (hn last (by simp)).2.1)
    exact ⟨front, heq, fun c hc ↦ (hfront c hc).imp_right .inl⟩
  | cons name init ih =>
    obtain ⟨hname, hrest⟩ := List.forall_mem_cons.mp hn
    obtain ⟨front, heq, hfront⟩ := ih hrest (root.join ⟨name⟩)
    refine ⟨front, heq, fun c hc ↦ ?_⟩
    rcases hfront c hc with hroot | hslash | ⟨other, hmem, hother⟩
    · obtain ⟨before, hjoin, hbefore⟩ := spelling_join root (isAbsolute_piece hname.2.1)
      rw [hjoin, List.mem_append] at hroot
      rcases hroot with hc | hc
      · exact (hbefore c hc).imp_right .inl
      · exact .inr (.inr ⟨name, List.mem_cons_self, hc⟩)
    · exact .inr (.inl hslash)
    · exact .inr (.inr ⟨other, List.mem_cons_of_mem _ hmem, hother⟩)

end Path

namespace Disk

open Spruce.Ignore

variable {d : Disk} {root p : Path} {place : Location} {names : List Text} {n : Node}

private theorem notMem_nul_of_locate (h : d.locate p = .ok (place, n)) : '\x00' ∉ p.spelling := by
  intro hm
  rw [locate, List.contains_iff_mem.mpr hm, if_pos rfl] at h
  split at h <;> cases h

namespace IsWhole

/-- On a whole disk an entry stands at its place. -/
theorem node?_of_mem (hd : d.IsWhole) (h : (place, n) ∈ d.entries) (hne : place ≠ []) :
    d.node? place = some n := by
  obtain ⟨before, after, hsplit⟩ := List.append_of_mem h
  have hnodup := hd.nodup
  rw [hsplit, List.map_append, List.map_cons, List.nodup_append] at hnodup
  rw [node?, if_neg hne, List.lookup_eq_some_iff]
  refine ⟨before, after, hsplit, fun e he ↦ ?_⟩
  rw [bne_iff_ne]
  exact (hnodup.2.2 e.1 (List.mem_map_of_mem he) place List.mem_cons_self).symm

/-- From a place, the names of an entry below it lead to the entry. -/
theorem follow_names (hd : d.IsWhole) (h : (place ++ names, n) ∈ d.entries) :
    d.follow place names = .ok (place ++ names) := by
  induction names using List.reverseRecOn generalizing n with
  | nil => rw [List.append_nil, follow]
  | append_singleton init last ih =>
    have hlast := hd.names _ h last (by simp)
    have hdirectory : d.node? (place ++ init) = some .directory := by
      have hheld := hd.held _ h
      rwa [← List.append_assoc, List.dropLast_concat] at hheld
    have hinit : d.follow place init = .ok (place ++ init) := by
      by_cases hne : place ++ init = []
      · obtain ⟨rfl, rfl⟩ := List.append_eq_nil_iff.mp hne
        rfl
      · rw [node?, if_neg hne] at hdirectory
        obtain ⟨before, after, hsplit, -⟩ := List.lookup_eq_some_iff.mp hdirectory
        have hmem : (place ++ init, Node.directory) ∈ d.entries := by
          rw [hsplit]
          exact List.mem_append_right _ List.mem_cons_self
        exact ih hmem
    rw [follow_append, hinit]
    simp only [Except.bind, follow, hdirectory, if_neg hlast.2.2.1, if_neg hlast.2.2.2,
      List.append_assoc]

/-- The path of an entry below a directory leads to the entry. -/
theorem locate_pathBelow (hd : d.IsWhole) {m : Node} (hroot : d.locate root = .ok (place, m))
    (h : (place ++ names, n) ∈ d.entries) (hne : names ≠ []) :
    d.locate (pathBelow root place (place ++ names)) = .ok (place ++ names, n) := by
  obtain ⟨init, last, rfl⟩ := List.eq_nil_or_concat names |>.resolve_left hne
  rw [List.concat_eq_append] at h ⊢
  have hnames : ∀ name ∈ init ++ [last], IsName name := fun name hm ↦
    hd.names _ h name (List.mem_append_right _ hm)
  have hlast := hnames last (by simp)
  obtain ⟨hpieces, habsolute⟩ := pieces_pathBelow root place hnames
  obtain ⟨front, hspelling, hfront⟩ := spelling_foldl_join hnames root
  have hpath : (init ++ [last]).foldl (fun q name ↦ q.join ⟨name⟩) root =
      pathBelow root place (place ++ (init ++ [last])) := by
    rw [pathBelow, List.drop_left]
  rw [hpath] at hspelling
  have hnode := hd.node?_of_mem h (by simp)
  have hend : (front ++ last).getLast? ≠ some '/' := by
    rw [List.getLast?_append_of_ne_nil _ hlast.1]
    exact fun hc ↦ hlast.2.1 (List.mem_of_getLast? hc)
  have hnul : '\x00' ∉ front ++ last := by
    have hnames : ∀ name ∈ init ++ [last], '\x00' ∉ name := fun name hm ↦
      hd.noNul _ h name (List.mem_append_right _ hm)
    intro hm
    rcases List.mem_append.mp hm with hm | hm
    · rcases hfront _ hm with hc | hc | ⟨name, hmem, hc⟩
      · exact notMem_nul_of_locate hroot hc
      · cases hc
      · exact hnames name (List.mem_append_left _ hmem) hc
    · exact hnames last (by simp) hm
  rw [locate, hspelling, if_neg (by simp [hlast.1]), if_neg (by simpa using hnul), habsolute,
    hpieces, follow_append, (follow_of_locate hroot).2]
  simp only [Except.bind, hd.follow_names h, hnode]
  cases n with
  | directory => rfl
  | file content mode => exact if_neg hend

end IsWhole

end Disk

end Spruce
