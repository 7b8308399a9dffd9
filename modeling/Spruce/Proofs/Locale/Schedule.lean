import Spruce.Locale.Project
import Spruce.Proofs.Disk.Collected
import Spruce.Proofs.Locale.Rewriting
import Spruce.Proofs.Path.Order

/-!
# Locale files side by side

The update of a locale file looks at the file, and may then replace it; nothing else of the disk
counts or changes. So files that lead to different places can be updated in any order, and even side
by side, each looked at while others are being written: the reports and the tree are the same in
the end (`updateProject_isolated`). What carries this is that, at every moment, the disk differs
from the first one by exactly what the updates that are through have written (`Made`).
-/

namespace Spruce.Locale

open Spruce.Disk Json

/-- What an update has found out about a file: what is to be written, if anything, and what was
merged. -/
abbrev Revision := Except Fault (Option Text × Stats)

/-- The second half of an update: the report on a file that was looked at, and the disk once it has
been written. -/
def conclude (d : Disk) (mode : Mode) (p : Path) (found : Revision) : FileReport × Disk :=
  match found with
  | .error fault => (failure p fault, d)
  | .ok (none, stats) => (⟨p, p.stem, .unchanged, stats, none⟩, d)
  | .ok (some t, stats) =>
    if mode.dryRun then (⟨p, p.stem, .updated, stats, none⟩, d)
    else
      match d.save p (Text.encode t) with
      | .error fault => (failure p fault, d)
      | .ok d => (⟨p, p.stem, .updated, stats, none⟩, d)

/-- Updates under way on one disk: the files that have been looked at, with what was found out, the
reports on those that are through, the last one first, and the disk. -/
inductive SideBySide (patch : Patch) (mode : Mode) (d : Disk) :
    List (Path × Revision) → List FileReport → Disk → Prop
  | start : SideBySide patch mode d [] [] d
  | look {pending : List (Path × Revision)} {reports : List FileReport} {e : Disk} (p : Path)
    (h : SideBySide patch mode d pending reports e) :
    SideBySide patch mode d ((p, revise e patch mode.overwrite p) :: pending) reports e
  | finish (before after : List (Path × Revision)) {p : Path} {found : Revision}
    {reports : List FileReport} {e : Disk}
    (h : SideBySide patch mode d (before ++ (p, found) :: after) reports e) :
    SideBySide patch mode d (before ++ after) ((conclude e mode p found).1 :: reports)
      (conclude e mode p found).2

/-- Reports in the order of the files they are on. -/
def arrange (files : List Path) (reports : List FileReport) : List FileReport :=
  files.filterMap fun p => reports.find? fun report => report.path = p

variable {d e : Disk} {patch : Patch} {mode : Mode} {p q : Path} {files done : List Path}

/-! ### One update -/

private theorem updateFile_eq_conclude (d : Disk) (patch : Patch) (mode : Mode) (p : Path) :
    updateFile d patch mode p = conclude d mode p (revise d patch mode.overwrite p) := rfl

private theorem path_conclude (d : Disk) (mode : Mode) (p : Path) (found : Revision) :
    (conclude d mode p found).1.path = p := by
  unfold conclude
  split
  · rfl
  · rfl
  · split
    · rfl
    · split <;> rfl

/-- What an update finds out about a file depends on nothing but the file. -/
theorem revise_congr (overwrite : Bool) (h : e.locate p = d.locate p) :
    revise e patch overwrite p = revise d patch overwrite p := by
  unfold revise Disk.readText Disk.read
  rw [h]

/-- What the update of a file writes, if anything: where, and what stands there then. -/
def deed (d : Disk) (patch : Patch) (mode : Mode) (p : Path) : Option (Location × Node) :=
  match mode.dryRun, revise d patch mode.overwrite p, d.locate p with
  | false, .ok (some t, _), .ok (place, .file _ permissions) =>
    some (place, .file (Text.encode t) permissions)
  | _, _, _ => none

/-- What is done to a file is that its merged object is written at its place, under the old
permissions. -/
theorem deed_eq_some {place : Location} {n : Node} (h : deed d patch mode p = some (place, n)) :
    mode.dryRun = false ∧ ∃ t stats old permissions,
      revise d patch mode.overwrite p = .ok (some t, stats) ∧
      d.locate p = .ok (place, .file old permissions) ∧
      n = .file (Text.encode t) permissions := by
  unfold deed at h
  split at h
  · next hdry hr hl =>
    obtain ⟨rfl, rfl⟩ := Prod.mk.inj (Option.some.inj h)
    exact ⟨hdry, _, _, _, _, hr, hl, rfl⟩
  · cases h

/-- An update that has something to write, outside a dry run, replaces the file. -/
theorem conclude_written {t : Text} {stats : Stats} {name : Text} (hn : p.fileName? = some name)
    (hdry : mode.dryRun = false) (hr : revise d patch mode.overwrite p = .ok (some t, stats))
    (he : e.locate p = d.locate p) :
    ∃ place old permissions, d.locate p = .ok (place, .file old permissions) ∧
      deed d patch mode p = some (place, .file (Text.encode t) permissions) ∧
      conclude e mode p (.ok (some t, stats)) =
        (⟨p, p.stem, .updated, stats, none⟩,
          e.put place (.file (Text.encode t) permissions)) := by
  obtain ⟨_, _, ht, -⟩ := exists_of_revise hr
  obtain ⟨place, old, permissions, hl⟩ := exists_locate_of_readText ht
  refine ⟨place, old, permissions, hl, ?_, ?_⟩
  · unfold deed
    rw [hdry, hr, hl]
  · unfold conclude
    dsimp only
    rw [if_neg (by rw [hdry]; exact Bool.false_ne_true), Disk.save, write_eq_put (he.trans hl) hn]
    rfl

/-- An update that writes nothing leaves the disk as it is, wherever it is made. -/
theorem conclude_unwritten
    (h : mode.dryRun = true ∨ ∀ t stats, revise d patch mode.overwrite p ≠ .ok (some t, stats)) :
    deed d patch mode p = none ∧
      conclude e mode p (revise d patch mode.overwrite p) =
        ((updateFile d patch mode p).1, e) := by
  constructor
  · cases hd : deed d patch mode p with
    | none => rfl
    | some found =>
      obtain ⟨hdry, t, stats, old, permissions, hr, -⟩ := deed_eq_some (n := found.2) hd
      rcases h with h | h
      · rw [hdry] at h
        cases h
      · exact absurd hr (h t stats)
  · rw [updateFile_eq_conclude]
    unfold conclude
    split
    · rfl
    · rfl
    · next t stats hr =>
      have hdry := h.resolve_right fun h ↦ h t stats hr
      rw [if_pos hdry, if_pos hdry]

/-! ### What has been made of a disk -/

/-- The disk `e` is `d` once the updates of some files have been made, and nothing else. -/
structure Made (d : Disk) (patch : Patch) (mode : Mode) (done : List Path) (e : Disk) : Prop where
  current : e.current = d.current
  written : ∀ p ∈ done, ∀ place n, deed d patch mode p = some (place, n) → e.node? place = some n
  kept : ∀ place, (∀ p ∈ done, ∀ n, deed d patch mode p ≠ some (place, n)) →
    e.node? place = d.node? place
  locate : ∀ q, (∀ p ∈ done, ∀ place n m, deed d patch mode p = some (place, n) →
    d.locate q ≠ .ok (place, m)) → e.locate q = d.locate q

namespace Made

/-- Before any update nothing has been made of the disk. -/
theorem start : Made d patch mode [] d :=
  ⟨rfl, by simp, fun _ _ ↦ rfl, fun _ _ ↦ rfl⟩

/-- What has been made depends on which files are through, and not on their order. -/
theorem perm {others : List Path} (h : Made d patch mode done e) (hp : done.Perm others) :
    Made d patch mode others e :=
  ⟨h.current, fun p hm ↦ h.written p (hp.symm.subset hm),
    fun place hnone ↦ h.kept place fun p hm ↦ hnone p (hp.subset hm),
    fun q hnone ↦ h.locate q fun p hm ↦ hnone p (hp.subset hm)⟩

/-- There is one tree that the updates make. -/
theorem sameTree {f : Disk} (h : Made d patch mode done e) (hf : Made d patch mode done f) :
    e.SameTree f := by
  refine ⟨h.current.trans hf.current.symm, fun place ↦ ?_⟩
  by_cases hw : ∃ p ∈ done, ∃ n, deed d patch mode p = some (place, n)
  · obtain ⟨p, hmem, n, hd⟩ := hw
    rw [h.written p hmem place n hd, hf.written p hmem place n hd]
  · have hnone (p : Path) (hmem : p ∈ done) (n : Node) : deed d patch mode p ≠ some (place, n) :=
      fun hd ↦ hw ⟨p, hmem, n, hd⟩
    rw [h.kept place hnone, hf.kept place hnone]

/-- A file that is not through is where it was, and as it was. -/
theorem locate_eq (h : Made d patch mode done e) (hs : d.Separate files) (hdone : done ⊆ files)
    (hp : p ∈ files) (hnot : p ∉ done ∨ deed d patch mode p = none) : e.locate p = d.locate p := by
  refine h.locate p fun q hq place n m hd hl ↦ ?_
  obtain ⟨-, -, -, _, _, -, hlq, -⟩ := deed_eq_some hd
  obtain rfl := hs.apart p hp q (hdone hq) place m _ hl hlq
  rcases hnot with hnot | hnone
  · exact hnot hq
  · rw [hnone] at hd
    cases hd

private theorem skip (h : Made d patch mode done e) (hp : deed d patch mode p = none) :
    Made d patch mode (p :: done) e := by
  have hne (place : Location) (n : Node) : deed d patch mode p ≠ some (place, n) := by
    rw [hp]
    exact (Option.some_ne_none _).symm
  refine ⟨h.current, fun q hq place n hd ↦ ?_, fun place hnone ↦ h.kept place fun q hq ↦
    hnone q (List.mem_cons_of_mem p hq), fun q hnone ↦ h.locate q fun r hr ↦
    hnone r (List.mem_cons_of_mem p hr)⟩
  rcases List.mem_cons.mp hq with rfl | hq
  · exact absurd hd (hne place n)
  · exact h.written q hq place n hd

private theorem put {place : Location} {old content : ByteArray} {permissions newPermissions : Nat}
    (h : Made d patch mode done e) (hs : d.Separate files) (hdone : done ⊆ files) (hp : p ∈ files)
    (hnot : p ∉ done) (hl : e.locate p = .ok (place, .file old permissions))
    (hd : deed d patch mode p = some (place, .file content newPermissions)) :
    Made d patch mode (p :: done) (e.put place (.file content newPermissions)) := by
  have hfile : e.node? place = some (.file old permissions) := (locate_file_iff.mp hl).2.2.2.2
  have hplace : place ≠ [] := by
    rintro rfl
    cases hfile
  have hlp : d.locate p = .ok (place, .file old permissions) := by
    rw [← h.locate_eq hs hdone hp (.inl hnot), hl]
  refine ⟨h.current, fun q hq other n hq' ↦ ?_, fun other hnone ↦ ?_, fun q hnone ↦ ?_⟩
  · rw [node?_put e _ other hplace]
    rcases List.mem_cons.mp hq with rfl | hq
    · obtain ⟨rfl, rfl⟩ := Prod.mk.inj (Option.some.inj (hd.symm.trans hq'))
      rw [if_pos rfl]
    · -- Another file that is through stands elsewhere.
      obtain ⟨-, -, -, _, _, -, hlq, -⟩ := deed_eq_some hq'
      have hne : other ≠ place := by
        rintro rfl
        exact hnot (hs.apart p hp q (hdone hq) _ _ _ hlp hlq ▸ hq)
      rw [if_neg hne, h.written q hq other n hq']
  · have hne : other ≠ place := by
      rintro rfl
      exact hnone p List.mem_cons_self _ hd
    rw [node?_put e _ other hplace, if_neg hne]
    exact h.kept other fun q hq ↦ hnone q (List.mem_cons_of_mem p hq)
  · rw [locate_put hfile, h.locate q fun r hr ↦ hnone r (List.mem_cons_of_mem p hr)]
    cases hlq : d.locate q with
    | error error => rfl
    | ok found =>
      obtain ⟨other, n⟩ := found
      have hne : other ≠ place := by
        rintro rfl
        exact hnone p List.mem_cons_self _ _ n hd hlq
      simp only [Except.map, if_neg hne]

/-- One more update is made, with what was found out on the first disk. -/
theorem conclude (h : Made d patch mode done e) (hs : d.Separate files) (hdone : done ⊆ files)
    (hp : p ∈ files) (hnot : p ∉ done) :
    (conclude e mode p (revise d patch mode.overwrite p)).1 = (updateFile d patch mode p).1 ∧
      Made d patch mode (p :: done) (conclude e mode p (revise d patch mode.overwrite p)).2 := by
  by_cases hw : mode.dryRun = true ∨
      ∀ t stats, revise d patch mode.overwrite p ≠ .ok (some t, stats)
  · obtain ⟨hdeed, hconclude⟩ := conclude_unwritten (e := e) hw
    rw [hconclude]
    exact ⟨rfl, h.skip hdeed⟩
  · obtain ⟨hdry, hall⟩ := not_or.mp hw
    simp only [not_forall, ne_eq, not_not] at hall
    obtain ⟨t, stats, hr⟩ := hall
    have hwet : mode.dryRun = false := by simpa using hdry
    obtain ⟨name, hn⟩ := hs.named p hp
    have hle := h.locate_eq hs hdone hp (.inl hnot)
    obtain ⟨place, old, permissions, hl, hdeed, hmade⟩ := conclude_written hn hwet hr hle
    obtain ⟨_, _, _, -, -, hfirst⟩ := conclude_written (e := d) hn hwet hr rfl
    rw [updateFile_eq_conclude, hr, hmade, hfirst]
    exact ⟨rfl, h.put hs hdone hp hnot (hle.trans hl) hdeed⟩

end Made

/-! ### Updates side by side -/

/-- Whatever the order of looking and writing, every report is the one that the file gets on the
first disk, and what was found out about a file under way is what is found out there. -/
theorem SideBySide.made {pending : List (Path × Revision)} {reports : List FileReport}
    (h : SideBySide patch mode d pending reports e) (hs : d.Separate files)
    (hnodup : (pending.map Prod.fst ++ reports.map FileReport.path).Nodup)
    (hfiles : pending.map Prod.fst ++ reports.map FileReport.path ⊆ files) :
    (∀ x ∈ pending, x.2 = revise d patch mode.overwrite x.1) ∧
      (∀ report ∈ reports, report = (updateFile d patch mode report.path).1) ∧
      Made d patch mode (reports.map FileReport.path) e := by
  induction h with
  | start => exact ⟨by simp, by simp, .start⟩
  | @look pending reports e p h ih =>
    rw [List.map_cons, List.cons_append] at hnodup hfiles
    obtain ⟨hnot, hrest⟩ := List.nodup_cons.mp hnodup
    obtain ⟨hp, hsub⟩ := List.cons_subset.mp hfiles
    obtain ⟨hpending, hreports, hmade⟩ := ih hrest hsub
    refine ⟨fun x hx ↦ ?_, hreports, hmade⟩
    rcases List.mem_cons.mp hx with rfl | hx
    · refine revise_congr _ (hmade.locate_eq hs (fun q hq ↦ hsub ?_) hp (.inl fun hq ↦ hnot ?_))
      · exact List.mem_append_right _ hq
      · exact List.mem_append_right _ hq
    · exact hpending x hx
  | @finish before after p found reports e h ih =>
    rw [List.map_cons, path_conclude] at hnodup hfiles
    have hperm : ((before ++ after).map Prod.fst ++ p :: reports.map FileReport.path).Perm
        ((before ++ (p, found) :: after).map Prod.fst ++ reports.map FileReport.path) := by
      simp only [List.map_append, List.map_cons, List.append_assoc, List.cons_append]
      exact List.Perm.append_left _ List.perm_middle
    obtain ⟨hpending, hreports, hmade⟩ := ih (hperm.nodup_iff.mp hnodup)
      fun q hq ↦ hfiles (hperm.symm.subset hq)
    have hfound : found = revise d patch mode.overwrite p := hpending (p, found) (by simp)
    have hnot : p ∉ reports.map FileReport.path :=
      (List.nodup_cons.mp (List.nodup_append.mp hnodup).2.1).1
    obtain ⟨hreport, hnext⟩ := hmade.conclude hs
      (fun q hq ↦ hfiles (List.mem_append_right _ (List.mem_cons_of_mem p hq)))
      (hfiles (List.mem_append_right _ List.mem_cons_self)) hnot
    rw [← hfound] at hreport hnext
    refine ⟨fun x hx ↦ hpending x ?_, fun report hr ↦ ?_, ?_⟩
    · rcases List.mem_append.mp hx with hx | hx
      · exact List.mem_append_left _ hx
      · exact List.mem_append_right _ (List.mem_cons_of_mem _ hx)
    · rcases List.mem_cons.mp hr with rfl | hr
      · rw [path_conclude, hreport]
      · exact hreports report hr
    · rw [List.map_cons, path_conclude]
      exact hnext

/-- Updates one after another are updates side by side. -/
theorem SideBySide.updateFiles {reports : List FileReport}
    (h : SideBySide patch mode d [] reports e) (order : List Path) :
    SideBySide patch mode d [] ((updateFiles patch mode e order).1.reverse ++ reports)
      (updateFiles patch mode e order).2 := by
  induction order generalizing reports e with
  | nil => exact h
  | cons p order ih =>
    have hone : SideBySide patch mode d [] ((updateFile e patch mode p).1 :: reports)
        (updateFile e patch mode p).2 := .finish [] [] (.look p h)
    have hrest := ih hone
    rw [Locale.updateFiles]
    dsimp only
    rw [List.reverse_cons, List.append_assoc]
    exact hrest

/-- There is one report for each file, in the order of the files. -/
theorem map_path_updateFiles (patch : Patch) (mode : Mode) (d : Disk) (order : List Path) :
    (updateFiles patch mode d order).1.map FileReport.path = order := by
  induction order generalizing d with
  | nil => rfl
  | cons p order ih =>
    rw [updateFiles, List.map_cons, ih, updateFile_eq_conclude, path_conclude]

/-- Reports that depend on nothing but the files they are on are arranged by the files. -/
theorem arrange_eq_map {report : Path → FileReport} {reports : List FileReport}
    (hfiles : files ⊆ reports.map FileReport.path) (h : ∀ r ∈ reports, r = report r.path) :
    arrange files reports = files.map report := by
  unfold arrange
  induction files with
  | nil => rfl
  | cons p files ih =>
    obtain ⟨hp, hrest⟩ := List.cons_subset.mp hfiles
    obtain ⟨r, hr, hpath⟩ := List.mem_map.mp hp
    have hfind : (reports.find? fun report => report.path = p) = some (report p) := by
      cases hf : reports.find? fun report => report.path = p with
      | none => exact absurd (decide_eq_true hpath) (List.find?_eq_none.mp hf r hr)
      | some other =>
        have hother : other.path = p := by simpa using List.find?_some hf
        rw [h other (List.mem_of_find?_eq_some hf), hother]
    rw [List.filterMap_cons, hfind, List.map_cons, ih hrest]

/-- In whatever way files are updated side by side, in the end the reports are the ones that the
files get alone, and the disk is what the updates make of it. -/
theorem SideBySide.complete {reports : List FileReport}
    (h : SideBySide patch mode d [] reports e) (hs : d.Separate files)
    (hp : (reports.map FileReport.path).Perm files) :
    arrange files reports = files.map (fun p ↦ (updateFile d patch mode p).1) ∧
      Made d patch mode files e := by
  obtain ⟨-, hreports, hmade⟩ := h.made hs (hp.nodup_iff.mpr hs.nodup) hp.subset
  exact ⟨arrange_eq_map hp.symm.subset hreports, hmade.perm hp⟩

/-- So it is when they are updated one after another, in whatever order. -/
theorem updateFiles_complete (patch : Patch) (mode : Mode) {order : List Path}
    (hs : d.Separate files) (hp : order.Perm files) :
    (updateFiles patch mode d order).1 = order.map (fun p ↦ (updateFile d patch mode p).1) ∧
      arrange files (updateFiles patch mode d order).1 =
        files.map (fun p ↦ (updateFile d patch mode p).1) ∧
      Made d patch mode files (updateFiles patch mode d order).2 := by
  have hpath := map_path_updateFiles patch mode d order
  have hall : SideBySide patch mode d [] (updateFiles patch mode d order).1.reverse
      (updateFiles patch mode d order).2 := by
    have hstart : SideBySide patch mode d [] [] d := .start
    rw [← List.append_nil (Locale.updateFiles patch mode d order).1.reverse]
    exact hstart.updateFiles order
  have hreversed : ((updateFiles patch mode d order).1.reverse.map FileReport.path).Perm files := by
    rw [List.map_reverse, hpath]
    exact order.reverse_perm.trans hp
  obtain ⟨-, hreports, hmade⟩ := hall.made hs (hreversed.nodup_iff.mpr hs.nodup) hreversed.subset
  have hown (report : FileReport) (hr : report ∈ (updateFiles patch mode d order).1) :
      report = (updateFile d patch mode report.path).1 := hreports report (List.mem_reverse.mpr hr)
  refine ⟨?_, arrange_eq_map (by rw [hpath]; exact hp.symm.subset) hown, hmade.perm hreversed⟩
  calc (updateFiles patch mode d order).1
      = (updateFiles patch mode d order).1.map
          fun report ↦ (updateFile d patch mode report.path).1 := by
        rw [List.map_congr_left fun report hr ↦ (hown report hr).symm]
        exact (List.map_id' _).symm
    _ = ((updateFiles patch mode d order).1.map FileReport.path).map
          fun p ↦ (updateFile d patch mode p).1 := by rw [List.map_map]; rfl
    _ = order.map fun p ↦ (updateFile d patch mode p).1 := by rw [hpath]

/-! ### Dry runs and files left alone -/

/-- A dry run gives the report of a real one and leaves the disk alone. -/
theorem updateFile_dryRun {name : Text} (hn : p.fileName? = some name) (overwrite : Bool) :
    updateFile d patch ⟨overwrite, true⟩ p = ((updateFile d patch ⟨overwrite, false⟩ p).1, d) := by
  rw [updateFile_eq_conclude, updateFile_eq_conclude]
  dsimp only
  cases hr : revise d patch overwrite p with
  | error fault => rfl
  | ok found =>
    obtain ⟨written, stats⟩ := found
    cases written with
    | none => rfl
    | some t =>
      have hwet : (⟨overwrite, false⟩ : Mode).dryRun = false := rfl
      obtain ⟨_, _, _, -, -, hwritten⟩ := conclude_written (e := d) hn hwet hr rfl
      rw [hwritten]
      rfl

/-- A dry run reports of each file what a real update of it alone reports, and leaves the disk. -/
theorem updateFiles_dryRun (overwrite : Bool) (hn : ∀ p ∈ files, ∃ name, p.fileName? = some name) :
    updateFiles patch ⟨overwrite, true⟩ d files =
      (files.map fun p ↦ (updateFile d patch ⟨overwrite, false⟩ p).1, d) := by
  induction files with
  | nil => rfl
  | cons p files ih =>
    obtain ⟨name, hp⟩ := hn p List.mem_cons_self
    rw [updateFiles, updateFile_dryRun hp, ih fun q hq ↦ hn q (List.mem_cons_of_mem p hq)]
    rfl

/-- The reports on files do not tell a dry run from a real one. -/
theorem map_updateFile_mode (hn : ∀ p ∈ files, ∃ name, p.fileName? = some name)
    (overwrite dryRun : Bool) :
    files.map (fun p ↦ (updateFile d patch ⟨overwrite, dryRun⟩ p).1) =
      files.map fun p ↦ (updateFile d patch ⟨overwrite, false⟩ p).1 := by
  cases dryRun with
  | false => rfl
  | true =>
    refine List.map_congr_left fun p hp ↦ ?_
    obtain ⟨name, hname⟩ := hn p hp
    rw [updateFile_dryRun hname]

/-- What an update writes, it reports. -/
theorem status_of_deed {name : Text} (hn : p.fileName? = some name) {found : Location × Node}
    (h : deed d patch mode p = some found) : (updateFile d patch mode p).1.status = .updated := by
  obtain ⟨hdry, t, stats, _, _, hr, -⟩ := deed_eq_some (n := found.2) h
  obtain ⟨_, _, _, -, -, hwritten⟩ := conclude_written (e := d) hn hdry hr rfl
  rw [updateFile_eq_conclude, hr, hwritten]

/-! ### Files that do not depend on each other -/

/-- The reports and the disk after an update of files, told without an order of the files: each
file is looked at and written by itself. -/
structure Isolated (d : Disk) (patch : Patch) (mode : Mode) (files : List Path)
    (reports : List FileReport) (after : Disk) : Prop where
  paths : reports.map FileReport.path = files
  /-- The files may come in any order. -/
  reorder : ∀ order : List Path, order.Perm files →
    arrange files (updateFiles patch mode d order).1 = reports ∧
      (updateFiles patch mode d order).2.SameTree after
  /-- The files may be updated side by side. -/
  sideBySide : ∀ (found : List FileReport) (e : Disk), SideBySide patch mode d [] found e →
    (found.map FileReport.path).Perm files → arrange files found = reports ∧ e.SameTree after
  /-- What changes is a file that is reported as updated, outside a dry run. -/
  changed : ∀ place, after.node? place ≠ d.node? place → mode.dryRun = false ∧
    ∃ report ∈ reports, report.status = .updated ∧ ∃ n, d.locate report.path = .ok (place, n)
  kept : ∀ report ∈ reports, report.status ≠ .updated →
    after.locate report.path = d.locate report.path
  /-- A dry run gives the same reports and leaves the disk alone. -/
  dryRun : updateFiles patch ⟨mode.overwrite, true⟩ d files = (reports, d)

/-- Files that are separate are updated in isolation. -/
theorem isolated_updateFiles (patch : Patch) (mode : Mode) (hs : d.Separate files) :
    Isolated d patch mode files (updateFiles patch mode d files).1
      (updateFiles patch mode d files).2 := by
  obtain ⟨hreports, -, hmade⟩ := updateFiles_complete patch mode hs (.refl files)
  refine ⟨map_path_updateFiles patch mode d files, fun order hperm ↦ ?_,
    fun found e hside hperm ↦ ?_, fun place hchanged ↦ ?_, fun report hr hstatus ↦ ?_, ?_⟩
  · obtain ⟨-, harranged, hmadeOrder⟩ := updateFiles_complete patch mode hs hperm
    exact ⟨harranged.trans hreports.symm, hmadeOrder.sameTree hmade⟩
  · obtain ⟨harranged, hmadeSide⟩ := hside.complete hs hperm
    exact ⟨harranged.trans hreports.symm, hmadeSide.sameTree hmade⟩
  · have hdeed : ∃ p ∈ files, ∃ n, deed d patch mode p = some (place, n) := by
      by_contra hnone
      exact hchanged (hmade.kept place fun p hp n hd ↦ hnone ⟨p, hp, n, hd⟩)
    obtain ⟨p, hp, n, hdeed⟩ := hdeed
    obtain ⟨hdry, -, -, _, _, -, hl, -⟩ := deed_eq_some hdeed
    obtain ⟨name, hn⟩ := hs.named p hp
    refine ⟨hdry, _, hreports ▸ List.mem_map_of_mem hp, status_of_deed hn hdeed, ?_⟩
    rw [updateFile_eq_conclude, path_conclude]
    exact ⟨_, hl⟩
  · rw [hreports] at hr
    obtain ⟨p, hp, rfl⟩ := List.mem_map.mp hr
    obtain ⟨name, hn⟩ := hs.named p hp
    rw [updateFile_eq_conclude, path_conclude]
    refine hmade.locate_eq hs (fun _ hq ↦ hq) hp (.inr ?_)
    rw [← Option.not_isSome_iff_eq_none, Option.isSome_iff_exists]
    rintro ⟨written, hdeed⟩
    exact hstatus (status_of_deed hn hdeed)
  · rw [hreports, updateFiles_dryRun mode.overwrite hs.named]
    exact Prod.ext (map_updateFile_mode hs.named mode.overwrite mode.dryRun).symm rfl

/-! ### Projects -/

namespace Options

variable {o : Options} {root dir : Path}

/-- What an update of a project gives where nothing is missing. -/
theorem updateProject_eq (hroot : d.projectRoot o.root = .ok root)
    (hdir : { o with root := some root }.directory = .ok dir) (hd : d.isDirectory dir = true)
    (hpatch : Patch.load d o.patch = .ok patch) (hfiles : (localeFiles dir).collect d = .ok files)
    (hne : files ≠ []) :
    o.updateProject d =
      let run := updateFiles patch ⟨o.overwrite, o.dryRun⟩ d files
      .ok (⟨run.1, unmatched patch run.1, o.dryRun⟩, run.2) := by
  rw [updateProject, hroot]
  dsimp only
  rw [hdir]
  dsimp only
  rw [updateIn, if_pos hd, hpatch]
  dsimp only
  rw [updateDirectory, hfiles]
  cases files with
  | nil => exact absurd rfl hne
  | cons p files => rfl

/-- An update of a project that gives a result has found everything it needs. -/
theorem exists_of_updateProject {found : Summary × Disk} (h : o.updateProject d = .ok found) :
    ∃ root dir patch files, d.projectRoot o.root = .ok root ∧
      { o with root := some root }.directory = .ok dir ∧ d.isDirectory dir = true ∧
      Patch.load d o.patch = .ok patch ∧ (localeFiles dir).collect d = .ok files ∧ files ≠ [] := by
  unfold updateProject at h
  split at h
  · cases h
  · next root hroot =>
    split at h
    · cases h
    · next dir hdir =>
      unfold updateIn at h
      split at h
      · next hd =>
        split at h
        · cases h
        · next patch hpatch =>
          unfold updateDirectory at h
          split at h
          · cases h
          · cases h
          · next files hne hfiles =>
            exact ⟨root, dir, patch, files, hroot, hdir, hd, hpatch, hfiles, hne⟩
      · cases h

end Options

/-- Locale files are updated independently of each other: one after another in any order, or side by
side, with the same reports in the order of the paths and the same tree in the end. Only a file that
is reported as updated outside a dry run is changed, and a dry run gives the same reports. -/
theorem updateProject_isolated {o : Options} {summary : Summary} {after : Disk} (hd : d.IsTree)
    (h : o.updateProject d = .ok (summary, after)) :
    ∃ root dir patch files, d.projectRoot o.root = .ok root ∧
      { o with root := some root }.directory = .ok dir ∧ Patch.load d o.patch = .ok patch ∧
      (localeFiles dir).collect d = .ok files ∧ files.Pairwise (fun p q ↦ q.before p = false) ∧
      Isolated d patch ⟨o.overwrite, o.dryRun⟩ files summary.files after ∧
      { o with dryRun := true }.updateProject d = .ok ({ summary with dryRun := true }, d) := by
  obtain ⟨root, dir, patch, files, hroot, hdir, hisdir, hpatch, hfiles, hne⟩ :=
    Options.exists_of_updateProject h
  have hisolated := isolated_updateFiles patch ⟨o.overwrite, o.dryRun⟩
    (separate_of_collect hd hisdir hfiles)
  rw [Options.updateProject_eq hroot hdir hisdir hpatch hfiles hne] at h
  obtain ⟨rfl, rfl⟩ := Prod.mk.inj (Except.ok.inj h)
  refine ⟨root, dir, patch, files, hroot, hdir, hpatch, hfiles, pairwise_collect hfiles,
    hisolated, ?_⟩
  have hdry := Options.updateProject_eq (o := { o with dryRun := true }) hroot hdir hisdir hpatch
    hfiles hne
  rw [hdry]
  dsimp only
  rw [hisolated.dryRun]

/-- A patch that stands among the locale files itself, next to a file that is not JSON. -/
theorem updateProject_isolated_patch :
    let content : Text := "\x7b\"*\":\x7b\"a\":1\x7d\x7d".toList
    let d : Disk :=
      ⟨[([['l']], .directory),
        ([['l'], "en.json".toList], .file (Text.encode ['[']) 420),
        ([['l'], "p.json".toList], .file (Text.encode content) 420)], []⟩
    let o : Options := ⟨some ⟨['/']⟩, ⟨['l']⟩, ⟨"/l/p.json".toList⟩, true, false, false⟩
    d.IsTree ∧ ∃ summary after, o.updateProject d = .ok (summary, after) ∧
      summary.files.map FileReport.status = [.failed, .updated] ∧
      ∃ root dir patch files, d.projectRoot o.root = .ok root ∧
        { o with root := some root }.directory = .ok dir ∧ Patch.load d o.patch = .ok patch ∧
        (localeFiles dir).collect d = .ok files ∧ files.Pairwise (fun p q ↦ q.before p = false) ∧
        Isolated d patch ⟨o.overwrite, o.dryRun⟩ files summary.files after ∧
        { o with dryRun := true }.updateProject d = .ok ({ summary with dryRun := true }, d) := by
  intro content d o
  let patch : Patch := ⟨[(Patch.sharedName, [(['a'], .number (.whole 1))])]⟩
  let dir : Path := ⟨"/l".toList⟩
  let en : Path := ⟨"/l/en.json".toList⟩
  have hd : d.IsTree := ⟨by decide, by simp [d, Path.IsName]⟩
  have hisdir : d.isDirectory dir = true := rfl
  have htext : d.readText o.patch = .ok content :=
    readText_of_locate [['l'], "p.json".toList] 420 rfl
  have hpatch : Patch.load d o.patch = .ok patch := by
    rw [Patch.load, htext]
    rfl
  have hfiles : (localeFiles dir).collect d = .ok [en, o.patch] := by
    have hwalk : Ignore.walk d (localeFiles dir).root = .ok [en, o.patch] := rfl
    have hall : [en, o.patch].filter (localeFiles dir).selects = [en, o.patch] := by decide
    rw [Selection.collect, hwalk]
    refine congrArg Except.ok ?_
    rw [Selection.select, hall]
    exact List.mergeSort_of_pairwise (by decide)
  have hrun : o.updateProject d = _ :=
    Options.updateProject_eq rfl rfl hisdir hpatch hfiles (List.cons_ne_nil en _)
  refine ⟨hd, _, _, hrun, ?_, updateProject_isolated hd hrun⟩
  have hfailed : (updateFile d patch ⟨true, false⟩ en).1.status = .failed := by
    have ht : d.readText en = .ok ['['] :=
      readText_of_locate [['l'], "en.json".toList] 420 rfl
    have hsections : patch.sectionsFor en.stem = [[(['a'], .number (.whole 1))]] := rfl
    rw [updateFile, revise, hsections]
    dsimp only
    rw [ht]
    rfl
  have hupdated : (updateFile d patch ⟨true, false⟩ o.patch).1.status = .updated := by
    let own : Value := .object [(['a'], .number (.whole 1))]
    have hn : o.patch.fileName? = some "p.json".toList := rfl
    have hj : Json.read content = .ok (.object [(['*'], own)]) := rfl
    refine (status_eq_updated_iff hn htext hj).mpr ?_
    have hsections : patch.sectionsFor o.patch.stem = [[(['a'], .number (.whole 1))]] := rfl
    have hm : mergeAll true [(['*'], own)] [[(['a'], .number (.whole 1))]] =
        ([(['*'], own), (['a'], .number (.whole 1))], ⟨1, 0, 0⟩) := by
      simp [mergeAll, merge, mergeMembers, mergeMember, Members.get?_cons, Members.put,
        Value.leaves, Stats.add, Stats.zero]
    rw [mergedFor, hsections, hm]
    exact ⟨rfl, by decide⟩
  obtain ⟨hreports, -⟩ := updateFiles_complete patch ⟨true, false⟩
    (separate_of_collect hd hisdir hfiles) (.refl _)
  show (updateFiles patch ⟨true, false⟩ d [en, o.patch]).1.map FileReport.status = _
  rw [hreports, List.map_map]
  exact congrArg₂ _ hfailed (congrArg₂ _ hupdated rfl)

end Spruce.Locale
