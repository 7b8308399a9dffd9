import Spruce.Locale.Report
import Spruce.Proofs.Json.Outline
import Spruce.Proofs.Locale.Paths
import Spruce.Proofs.Locale.Rewriting

/-!
# Added keys are written

A merge that counts an added leaf has put something at a path that the target lacks
(`exists_lacks_of_added`), and no merge ever makes a path lacking that led somewhere
(`not_lacks_mergeValue`). So nothing was added where two merges in turn give back the outline of the
target (`added_eq_zero_of_sameOutline`), in particular where a file has the text already that it
would be written with. The number of added keys in a summary is that of the updated files
(`added_of_updated`).
-/

namespace Spruce.Locale

open Json Value

/-! ### Paths that are lacking -/

section Paths

variable {overwrite : Bool} {depth : Nat} {path : List Text} {x w v s o : Value} {target : Members}

private theorem lacks_cons {key : Text} (h : ∀ y ∈ target.get? key, y.Lacks path) :
    (Value.object target).Lacks (key :: path) := by
  refine ⟨?_, fun above habove ↦ ?_⟩
  · rw [at?_cons_object]
    cases hy : target.get? key with
    | none => rfl
    | some y => exact (h y hy).1
  · cases above with
    | nil => exact leaf?_nil_of_isObject rfl
    | cons k above =>
      obtain ⟨rfl, hbelow⟩ := List.cons_prefix_cons.mp habove
      rw [leaf?_cons_object]
      cases hy : target.get? k with
      | none => rfl
      | some y => exact (h y hy).2 above hbelow

private theorem Stats.added_add_pos (s t : Stats) :
    0 < (s.add t).added ↔ 0 < s.added ∨ 0 < t.added := by
  rw [Stats.add, Nat.add_pos_iff_pos_or_pos]

private theorem added_settle (overwrite : Bool) (x w : Value) :
    (settle overwrite x w).2.added = 0 := by
  rw [settle]
  split
  · rfl
  · split <;> rfl

/-- Where a leaf is counted as added, the merge leads somewhere along a path that was lacking. -/
theorem exists_lacks_of_added (hx : x.Fits depth) (hw : w.Fits depth)
    (h : 0 < (mergeValue overwrite x w).2.added) :
    ∃ path, x.Lacks path ∧ ((mergeValue overwrite x w).1.at? path).isSome = true := by
  refine merge_induction (motive := fun x w ↦ 0 < (mergeValue overwrite x w).2.added →
    ∃ path, x.Lacks path ∧ ((mergeValue overwrite x w).1.at? path).isSome = true) ?_ ?_ hx hw h
  · intro _ target patch _ hp ih h
    rw [mergeValue_objects] at h
    obtain ⟨k, w, hw, hadded⟩ := (counts_merge_iff (fun s ↦ 0 < s.added) (Nat.lt_irrefl 0)
      Stats.added_add_pos hp.nodup_keys target).mp h
    cases hv : target.get? k with
    | none =>
      refine ⟨[k], lacks_cons (by simp [hv]), ?_⟩
      rw [at?_mergeValue_cons overwrite hp.nodup_keys, hv, hw]
      rfl
    | some v =>
      rw [hv, mergeMember] at hadded
      obtain ⟨path, hlacks, hsome⟩ := ih k v w hv hw hadded
      refine ⟨k :: path, lacks_cons (by simpa [hv] using hlacks), ?_⟩
      rw [at?_mergeValue_cons overwrite hp.nodup_keys, hv, hw]
      exact hsome
  · intro _ x w _ _ hnot h
    rw [mergeValue_settle overwrite hnot, added_settle] at h
    cases h

/-- A merge makes no path lacking that led somewhere. -/
theorem not_lacks_mergeValue (hw : w.Fits depth) (h : x.at? path = some v) :
    ¬ (mergeValue overwrite x w).1.Lacks path := by
  induction path generalizing depth x w with
  | nil => exact fun hlacks ↦ nomatch hlacks.1
  | cons k path ih =>
    intro hlacks
    obtain ⟨target, y, rfl, hy, hyv⟩ := exists_of_at?_cons h
    by_cases hobject : w.isObject = true
    · obtain ⟨patch, rfl⟩ := exists_of_isObject hobject
      rw [mergeValue_objects] at hlacks
      obtain ⟨merged, hmerged, hbelow⟩ := hlacks.exists_object
      obtain rfl := Value.object.inj hmerged
      have hkey := get?_merge overwrite hw.nodup_keys target k
      rw [hy] at hkey
      cases hz : patch.get? k with
      | none =>
        rw [hz] at hkey
        have hnone := (hbelow y hkey).1
        rw [hyv] at hnone
        cases hnone
      | some z =>
        rw [hz] at hkey
        cases hw with
        | object _ hm => exact ih (hm _ (Members.mem_of_get? hz)) hyv (hbelow _ hkey)
    · -- the target stays, which leads somewhere, or the value takes its place, which is no object
      rw [mergeValue_settle overwrite fun hboth ↦ hobject hboth.2] at hlacks
      rcases settle_cases overwrite (.object target) w with he | he
      · rw [he, Lacks, h] at hlacks
        cases hlacks.1
      · rw [he] at hlacks
        obtain ⟨patch, rfl, -⟩ := hlacks.exists_object
        exact hobject rfl

/-- Where two merges in turn give back the outline of a value, nothing was added by either. -/
theorem added_eq_zero_of_sameOutline (hx : x.Fits depth) (hs : s.Fits depth) (ho : o.Fits depth)
    (h : (mergeTwo overwrite x s o).SameOutline x) :
    (mergeValue overwrite x s).2.added = 0 ∧
      (mergeValue overwrite (mergeValue overwrite x s).1 o).2.added = 0 := by
  constructor
  · by_contra hne
    obtain ⟨path, hlacks, hsome⟩ := exists_lacks_of_added hx hs (Nat.pos_of_ne_zero hne)
    obtain ⟨v, hv⟩ := Option.isSome_iff_exists.mp hsome
    exact not_lacks_mergeValue ho hv (h.lacks_iff.mpr hlacks)
  · by_contra hne
    obtain ⟨path, hlacks, hsome⟩ :=
      exists_lacks_of_added (fits_mergeValue overwrite hx hs) ho (Nat.pos_of_ne_zero hne)
    rw [← mergeTwo, h.isSome_at?] at hsome
    obtain ⟨v, hv⟩ := Option.isSome_iff_exists.mp hsome
    exact not_lacks_mergeValue hs hv hlacks

end Paths

/-! ### Files -/

section Files

variable {overwrite : Bool} {d : Disk} {patch : Patch} {mode : Mode} {p : Path} {target : Members}
  {stats : Stats}

/-- Where all sections together give back the outline of an object, they have added nothing. -/
theorem added_mergeAll_eq_zero (hp : patch.IsValid)
    (ht : (Value.object target).Fits depthLimit)
    (h : (Value.object (mergedFor patch overwrite p target)).SameOutline (.object target)) :
    (mergeAll overwrite target (patch.sectionsFor p.stem)).2.added = 0 := by
  obtain ⟨hshared, hown⟩ := hp.fits_part p.stem
  rw [mergedFor, object_mergeAll] at h
  have hadded := added_eq_zero_of_sameOutline ht hshared hown h
  rw [mergeValue_objects, mergeValue_objects] at hadded
  rw [mergeAll_sectionsFor]
  dsimp only
  rw [Stats.add, hadded.1, hadded.2]

/-- A file that nothing is written to has had nothing added. -/
theorem added_of_revise_none (hp : patch.IsValid)
    (h : revise d patch overwrite p = .ok (none, stats)) : stats.added = 0 := by
  have hall := h
  unfold revise at h
  split at h
  · rw [← (Prod.mk.inj (Except.ok.inj h)).2]
    rfl
  · split at h
    · cases h
    · next t ht =>
      unfold reviseText at h
      split at h
      · cases h
      · next target ho =>
        have hj := objectIn_eq_ok_iff.mp ho
        rw [revise_eq ht hj] at hall
        obtain ⟨hwritten, rfl⟩ := Prod.mk.inj (Except.ok.inj hall)
        split at hwritten
        · cases hwritten
        · next hnot =>
          rcases not_and_or.mp hnot with hchanged | hspelled
          · rw [Stats.changed, Bool.or_eq_true, not_or, decide_eq_true_eq] at hchanged
            exact Nat.eq_zero_of_not_pos hchanged.1
          · -- the text that would be written is the one that was read
            have hread : Json.read (render (mergedFor patch overwrite p target)) = _ :=
              (congrArg Json.read (not_not.mp hspelled)).trans hj
            exact added_mergeAll_eq_zero hp (fits_of_read hj)
              (sameOutline_of_read (fits_mergedFor hp hj) hread)

/-- A file that is left alone has had nothing added, and nothing is counted for one that failed. -/
theorem added_updateFile (hp : patch.IsValid) (d : Disk) (mode : Mode) (p : Path) :
    ((updateFile d patch mode p).1.status = .unchanged →
      (updateFile d patch mode p).1.stats.added = 0) ∧
    ((updateFile d patch mode p).1.status = .failed →
      (updateFile d patch mode p).1.stats = ⟨0, 0, 0⟩) := by
  unfold updateFile
  split
  · exact ⟨fun h ↦ Status.noConfusion h, fun _ ↦ rfl⟩
  · next stats hr => exact ⟨fun _ ↦ added_of_revise_none hp hr, fun h ↦ Status.noConfusion h⟩
  · split
    · exact ⟨fun h ↦ Status.noConfusion h, fun h ↦ Status.noConfusion h⟩
    · split
      · exact ⟨fun h ↦ Status.noConfusion h, fun _ ↦ rfl⟩
      · exact ⟨fun h ↦ Status.noConfusion h, fun h ↦ Status.noConfusion h⟩

/-! ### Summaries -/

/-- The number of leaves that were added in the updated files. -/
def Summary.addedToUpdated (s : Summary) : Nat :=
  { s with files := s.files.filter fun report ↦ report.status = Status.updated }.added

private theorem exists_of_mem_updateFiles {files : List Path} {report : FileReport}
    (h : report ∈ (updateFiles patch mode d files).1) :
    ∃ e p, report = (updateFile e patch mode p).1 := by
  induction files generalizing d with
  | nil => cases h
  | cons p files ih =>
    rw [updateFiles] at h
    rcases List.mem_cons.mp h with rfl | h
    · exact ⟨d, p, rfl⟩
    · exact ih h

/-- Where only updated files have had something added, all that was added was added to them. -/
theorem added_eq_addedToUpdated {s : Summary}
    (h : ∀ report ∈ s.files, report.status ≠ .updated → report.stats.added = 0) :
    s.added = s.addedToUpdated := by
  obtain ⟨files, unmatched, dryRun⟩ := s
  rw [Summary.addedToUpdated, Summary.added, Summary.added]
  dsimp only at h ⊢
  induction files with
  | nil => rfl
  | cons report files ih =>
    obtain ⟨hreport, hrest⟩ := List.forall_mem_cons.mp h
    rw [List.foldr_cons, ih hrest, List.filter_cons]
    by_cases hu : report.status = .updated
    · simp [hu]
    · simp [hu, hreport hu]

/-- What a report counts as added was added to an updated file: a file that is reported as unchanged
has had nothing added, for one that failed nothing at all is counted, and so the number of added
keys in the summary of an update is that of the updated files. -/
theorem added_of_updated (hp : patch.IsValid) (mode : Mode) :
    (∀ d p, ((updateFile d patch mode p).1.status = .unchanged →
        (updateFile d patch mode p).1.stats.added = 0) ∧
      ((updateFile d patch mode p).1.status = .failed →
        (updateFile d patch mode p).1.stats = ⟨0, 0, 0⟩)) ∧
    ∀ d dir summary after, updateDirectory d dir patch mode = .ok (summary, after) →
      summary.added = summary.addedToUpdated ∧
        ∀ colour, Text.Report.row ("  Keys added: ".toList ++
          Text.Report.number colour [.cyan] summary.addedToUpdated) <:+:
            summary.countReport colour := by
  refine ⟨fun d p ↦ added_updateFile hp d mode p, fun d dir summary after h ↦ ?_⟩
  have hadded : summary.added = summary.addedToUpdated := by
    unfold updateDirectory at h
    split at h
    · cases h
    · cases h
    · next files _ _ =>
      obtain ⟨rfl, -⟩ := Prod.mk.inj (Except.ok.inj h)
      refine added_eq_addedToUpdated fun report hr hstatus ↦ ?_
      obtain ⟨e, p, rfl⟩ := exists_of_mem_updateFiles hr
      obtain ⟨hunchanged, hfailed⟩ := added_updateFile hp e mode p
      cases hs : (updateFile e patch mode p).1.status with
      | updated => exact absurd hs hstatus
      | unchanged => exact hunchanged hs
      | failed => rw [hfailed hs]
  refine ⟨hadded, fun colour ↦ ?_⟩
  rw [Summary.countReport, hadded]
  exact ⟨_, _, rfl⟩

/-- Two sections that set a key to a value and back, in a file that is spelled as it would be
written: two replacements are counted, and nothing is added or written. -/
theorem added_of_updated_restored :
    let p : Path := ⟨"/en.json".toList⟩
    let target : Members := [(['a'], .number (.whole 1))]
    let d : Disk := ⟨[(["en.json".toList], .file (Text.encode (render target)) 420)], []⟩
    let patch : Patch :=
      ⟨[(Patch.sharedName, [(['a'], .number (.whole 2))]), ("en".toList, target)]⟩
    let mode : Mode := ⟨true, false⟩
    patch.IsValid ∧ (updateFile d patch mode p).1.status = .unchanged ∧
      (updateFile d patch mode p).1.stats = ⟨0, 2, 0⟩ ∧
      (∀ d p, ((updateFile d patch mode p).1.status = .unchanged →
          (updateFile d patch mode p).1.stats.added = 0) ∧
        ((updateFile d patch mode p).1.status = .failed →
          (updateFile d patch mode p).1.stats = ⟨0, 0, 0⟩)) ∧
      ∀ d dir summary after, updateDirectory d dir patch mode = .ok (summary, after) →
        summary.added = summary.addedToUpdated ∧
          ∀ colour, Text.Report.row ("  Keys added: ".toList ++
            Text.Report.number colour [.cyan] summary.addedToUpdated) <:+:
              summary.countReport colour := by
  intro p target d patch mode
  have hp : patch.IsValid :=
    ⟨"\x7b\"*\":\x7b\"a\":2\x7d,\"en\":\x7b\"a\":1\x7d\x7d".toList, rfl⟩
  have ht : d.readText p = .ok (render target) :=
    Disk.readText_of_locate ["en.json".toList] 420 rfl
  have hj : Json.read (render target) = .ok (.object target) := rfl
  have hm : mergeAll true target (patch.sectionsFor p.stem) = (target, ⟨0, 2, 0⟩) := by
    have hs : patch.sectionsFor p.stem = [[(['a'], .number (.whole 2))], target] := rfl
    rw [hs]
    simp [target, mergeAll, merge, mergeMembers, mergeMember, mergeValue, settle,
      Members.get?_cons, Members.put, Value.same, Number.same, Stats.add, Stats.zero]
  have hrevise : revise d patch mode.overwrite p = .ok (none, ⟨0, 2, 0⟩) := by
    rw [revise_eq ht hj, hm]
    dsimp only
    rw [if_neg fun h ↦ h.2 rfl]
  have hfile : (updateFile d patch mode p).1 = ⟨p, p.stem, .unchanged, ⟨0, 2, 0⟩, none⟩ := by
    rw [updateFile, hrevise]
  rw [hfile]
  exact ⟨hp, rfl, rfl, added_of_updated hp mode⟩

end Files

end Spruce.Locale
