import Spruce.Proofs.Disk.Replace
import Spruce.Proofs.Json.RoundTrip
import Spruce.Proofs.Locale.Sections

/-!
# Rewriting a locale file

A locale file that was rewritten is read again as the object that the sections make of the former
one (`read_updateFile`), so updating it once more writes nothing (`updateFile_again`). A file whose
object the sections together leave as it is stays untouched if it is already spelled as it would be
written, or if every section by itself leaves the object so (`updateFile_unchanged_iff`); otherwise
it is written (`updateFile_restored`).
-/

namespace Spruce.Locale

open Json

variable {d : Disk} {patch : Patch} {overwrite : Bool} {mode : Mode} {p : Path} {t : Text}
  {target : Members}

/-! ### What an update does to a file -/

/-- What the sections of a patch make of the object in a locale file. -/
def mergedFor (patch : Patch) (overwrite : Bool) (p : Path) (target : Members) : Members :=
  (mergeAll overwrite target (patch.sectionsFor p.stem)).1

/-- The object in a text is what the text is read as. -/
theorem objectIn_eq_ok_iff : objectIn p t = .ok target ↔ Json.read t = .ok (.object target) := by
  unfold objectIn
  cases hr : Json.read t with
  | error e => simp
  | ok v => cases v <;> simp

/-- A file is revised by its object, also when no section applies and it is not read. -/
theorem revise_eq (ht : d.readText p = .ok t) (hj : Json.read t = .ok (.object target)) :
    revise d patch overwrite p =
      let merged := mergeAll overwrite target (patch.sectionsFor p.stem)
      .ok (if merged.2.changed = true ∧ render merged.1 ≠ t then some (render merged.1) else none,
        merged.2) := by
  unfold revise
  split
  · next hnil =>
    rw [hnil]
    rfl
  · next sections hs =>
    rw [ht]
    dsimp only
    rw [reviseText, objectIn_eq_ok_iff.mpr hj]
    dsimp only
    split <;> rfl

/-- A file that is revised holds an object. -/
theorem exists_of_revise {written : Text} {stats : Stats}
    (h : revise d patch overwrite p = .ok (some written, stats)) :
    ∃ t target, d.readText p = .ok t ∧ Json.read t = .ok (.object target) ∧
      written = render (mergedFor patch overwrite p target) := by
  have hall := h
  unfold revise at h
  split at h
  · cases h
  · split at h
    · cases h
    · next t ht =>
      unfold reviseText at h
      split at h
      · cases h
      · next target ho =>
        have hj := objectIn_eq_ok_iff.mp ho
        refine ⟨t, target, ht, hj, ?_⟩
        rw [revise_eq ht hj] at hall
        have hw := (Prod.mk.inj (Except.ok.inj hall)).1
        split at hw
        · exact (Option.some.inj hw).symm
        · cases hw

/-- Only a file that was updated, and not in a dry run, is written. -/
theorem updateFile_eq_of_not_updated
    (h : mode.dryRun = true ∨ (updateFile d patch mode p).1.status ≠ .updated) :
    (updateFile d patch mode p).2 = d := by
  unfold updateFile at h ⊢
  split
  · rfl
  · rfl
  · next written stats hr =>
    rw [hr] at h
    dsimp only at h
    split
    · rfl
    · next hdry =>
      rw [if_neg hdry] at h
      split
      · rfl
      · next after hs =>
        rw [hs] at h
        exact absurd rfl (h.resolve_left hdry)

/-- A file that was updated held an object and now has the text of the merged one. -/
theorem exists_of_updated (h : (updateFile d patch ⟨overwrite, false⟩ p).1.status = .updated) :
    ∃ t target, d.readText p = .ok t ∧ Json.read t = .ok (.object target) ∧
      (updateFile d patch ⟨overwrite, false⟩ p).2.readText p =
        .ok (render (mergedFor patch overwrite p target)) := by
  unfold updateFile at h ⊢
  split at h
  · cases h
  · cases h
  · next written stats hr =>
    obtain ⟨t, target, ht, hj, rfl⟩ := exists_of_revise hr
    refine ⟨t, target, ht, hj, ?_⟩
    dsimp only at h ⊢
    rw [if_neg Bool.false_ne_true] at h ⊢
    unfold Disk.save at h ⊢
    cases hw : d.write p (Text.encode (render (mergedFor patch overwrite p target))) with
    | error e =>
      rw [hw] at h
      cases h
    | ok after => exact Disk.readText_of_write ht hw

/-- A file that holds an object, at a path that ends in a name, is updated exactly if the merge
counted a change and the text differs. -/
theorem status_eq_updated_iff {name : Text} (hn : p.fileName? = some name)
    (ht : d.readText p = .ok t) (hj : Json.read t = .ok (.object target)) :
    (updateFile d patch mode p).1.status = .updated ↔
      (mergeAll mode.overwrite target (patch.sectionsFor p.stem)).2.changed = true ∧
        render (mergedFor patch mode.overwrite p target) ≠ t := by
  obtain ⟨place, old, permissions, hl⟩ := Disk.exists_locate_of_readText ht
  unfold updateFile mergedFor
  rw [revise_eq ht hj]
  dsimp only
  by_cases hc : (mergeAll mode.overwrite target (patch.sectionsFor p.stem)).2.changed = true ∧
      render (mergeAll mode.overwrite target (patch.sectionsFor p.stem)).1 ≠ t
  · rw [if_pos hc]
    dsimp only
    split
    · simp [hc]
    · rw [Disk.save, Disk.write_eq_put hl hn]
      simpa [Except.mapError] using hc
  · rw [if_neg hc]
    simpa using hc

/-! ### Reading again -/

/-- The doubles in what an update makes of a file are read as they are written. -/
def DoublesReadBack (d : Disk) (patch : Patch) (overwrite : Bool) (p : Path) : Prop :=
  ∀ t target, d.readText p = .ok t → Json.read t = .ok (.object target) →
    ∀ x ∈ (Value.object (mergedFor patch overwrite p target)).doubles, (Number.double x).ReadsBack

/-- Where the merged object has no doubles, all of them read back. -/
theorem doublesReadBack_of_nil (ht : d.readText p = .ok t)
    (hj : Json.read t = .ok (.object target))
    (h : (Value.object (mergedFor patch overwrite p target)).doubles = []) :
    DoublesReadBack d patch overwrite p := by
  intro t' target' ht' hj' x hx
  obtain rfl : t = t' := Except.ok.inj (ht.symm.trans ht')
  obtain rfl : target = target' := Value.object.inj (Except.ok.inj (hj.symm.trans hj'))
  rw [h] at hx
  cases hx

/-- What is merged into an object that was read can be read. -/
theorem fits_mergedFor (hp : patch.IsValid) (hj : Json.read t = .ok (.object target)) :
    (Value.object (mergedFor patch overwrite p target)).Fits depthLimit :=
  fits_mergeAll (fits_of_read hj) fun _ hs ↦ hp.fits hs

/-- The text of a merged object is read as that object. -/
theorem read_render_mergedFor (hp : patch.IsValid) (hx : DoublesReadBack d patch overwrite p)
    (ht : d.readText p = .ok t) (hj : Json.read t = .ok (.object target)) :
    Json.read (render (mergedFor patch overwrite p target)) =
      .ok (.object (mergedFor patch overwrite p target)) :=
  read_pretty (fits_mergedFor hp hj) (hx t target ht hj)

/-- A locale file that was updated is read as the object that the sections of the patch, merged in
order, make of the former one. -/
theorem read_updateFile (hp : patch.IsValid)
    (hx : DoublesReadBack d patch overwrite p)
    (h : (updateFile d patch ⟨overwrite, false⟩ p).1.status = .updated) :
    ∃ t target written, d.readText p = .ok t ∧ Json.read t = .ok (.object target) ∧
      (updateFile d patch ⟨overwrite, false⟩ p).2.readText p = .ok written ∧
      Json.read written =
        .ok (.object (mergeAll overwrite target (patch.sectionsFor p.stem)).1) := by
  obtain ⟨t, target, ht, hj, hw⟩ := exists_of_updated h
  exact ⟨t, target, _, ht, hj, hw, read_render_mergedFor hp hx ht hj⟩

/-- A number that gives way to another one and then to an object, and a key that is new. -/
theorem read_updateFile_object :
    let p : Path := ⟨"/en.json".toList⟩
    let text : Text := "\x7b\"a\":1\x7d".toList
    let d : Disk := ⟨[(["en.json".toList], .file (Text.encode text) 420)], []⟩
    let shared : Members := [(['a'], .number (.whole 2)), (['c'], .string ['"'])]
    let own : Members := [(['a'], .object [(['b'], .array [.null])])]
    let patch : Patch := ⟨[(Patch.sharedName, shared), ("en".toList, own)]⟩
    patch.IsValid ∧ DoublesReadBack d patch true p ∧
      (updateFile d patch ⟨true, false⟩ p).1.status = .updated ∧
      ∃ t target written, d.readText p = .ok t ∧ Json.read t = .ok (.object target) ∧
        (updateFile d patch ⟨true, false⟩ p).2.readText p = .ok written ∧
        Json.read written = .ok (.object (mergeAll true target (patch.sectionsFor p.stem)).1) := by
  intro p text d shared own patch
  have hp : patch.IsValid :=
    ⟨"\x7b\"*\":\x7b\"a\":2,\"c\":\"\\\"\"\x7d,".toList ++
      "\"en\":\x7b\"a\":\x7b\"b\":[null]\x7d\x7d\x7d".toList, rfl⟩
  have ht : d.readText p = .ok text :=
    Disk.readText_of_locate ["en.json".toList] 420 rfl
  have hj : Json.read text = .ok (.object [(['a'], .number (.whole 1))]) := rfl
  have hs : patch.sectionsFor p.stem = [shared, own] := rfl
  have hm : mergeAll true [(['a'], .number (.whole 1))] [shared, own] =
      ([(['a'], .object [(['b'], .array [.null])]), (['c'], .string ['"'])], ⟨1, 2, 0⟩) := by
    simp [own, shared, mergeAll, merge, mergeMembers, mergeMember, mergeValue, settle,
      Members.get?_cons, Members.put, Value.same, Number.same, Value.leaves, Stats.add, Stats.zero]
  have hx : DoublesReadBack d patch true p := by
    refine doublesReadBack_of_nil ht hj ?_
    rw [mergedFor, hs, hm]
    rfl
  have hu : (updateFile d patch ⟨true, false⟩ p).1.status = .updated := by
    have hn : p.fileName? = some "en.json".toList := rfl
    refine (status_eq_updated_iff hn ht hj).mpr ?_
    rw [mergedFor, hs, hm]
    exact ⟨rfl, by decide⟩
  exact ⟨hp, hx, hu, read_updateFile hp hx hu⟩

/-- What a file holds once it was updated is not changed by another update. -/
theorem revise_again (hp : patch.IsValid) (hx : DoublesReadBack d patch overwrite p)
    (h : (updateFile d patch ⟨overwrite, false⟩ p).1.status = .updated) :
    ∃ stats, revise (updateFile d patch ⟨overwrite, false⟩ p).2 patch overwrite p =
      .ok (none, stats) := by
  obtain ⟨t, target, ht, hj, hw⟩ := exists_of_updated h
  have hagain : (mergeAll overwrite (mergedFor patch overwrite p target)
      (patch.sectionsFor p.stem)).1 = mergedFor patch overwrite p target :=
    mergeAll_mergeAll hp (fits_of_read hj)
  rw [revise_eq hw (read_render_mergedFor hp hx ht hj)]
  dsimp only
  rw [hagain, if_neg fun hboth ↦ hboth.2 rfl]
  exact ⟨_, rfl⟩

/-- Updating a locale file once more writes nothing: it reports the file as unchanged, or as failed
if it failed before. -/
theorem updateFile_again (hp : patch.IsValid) (hx : DoublesReadBack d patch overwrite p) :
    let first := updateFile d patch ⟨overwrite, false⟩ p
    let second := updateFile first.2 patch ⟨overwrite, false⟩ p
    second.2 = first.2 ∧
      second.1.status = if first.1.status = .failed then .failed else .unchanged := by
  intro first second
  by_cases hu : first.1.status = .updated
  · obtain ⟨stats, hr⟩ := revise_again hp hx hu
    have hsecond : second = (⟨p, p.stem, .unchanged, stats, none⟩, first.2) := by
      show updateFile first.2 patch ⟨overwrite, false⟩ p = _
      rw [updateFile, hr]
    rw [hsecond, hu]
    exact ⟨rfl, rfl⟩
  · have hd : first.2 = d := updateFile_eq_of_not_updated (.inr hu)
    have hsecond : second = first := by
      show updateFile first.2 patch ⟨overwrite, false⟩ p = _
      rw [hd]
    rw [hsecond]
    refine ⟨rfl, ?_⟩
    cases hs : first.1.status with
    | updated => exact absurd hs hu
    | unchanged => rfl
    | failed => rfl

/-- Two sections that replace each other's value at every run, a number and an object. -/
theorem updateFile_again_conflict :
    let p : Path := ⟨"/en.json".toList⟩
    let t : Text := "\x7b\"a\":1\x7d".toList
    let d : Disk := ⟨[(["en.json".toList], .file (Text.encode t) 420)], []⟩
    let own : Members := [(['a'], .object [(['b'], .null)])]
    let patch : Patch := ⟨[(Patch.sharedName, [(['a'], .number (.whole 2))]), ("en".toList, own)]⟩
    let first := updateFile d patch ⟨true, false⟩ p
    let second := updateFile first.2 patch ⟨true, false⟩ p
    patch.IsValid ∧ DoublesReadBack d patch true p ∧ first.1.status = .updated ∧
      second.2 = first.2 ∧
      second.1.status = if first.1.status = .failed then .failed else .unchanged := by
  intro p t d own patch first second
  have hp : patch.IsValid :=
    ⟨"\x7b\"*\":\x7b\"a\":2\x7d,\"en\":\x7b\"a\":\x7b\"b\":null\x7d\x7d\x7d".toList, rfl⟩
  have ht : d.readText p = .ok t :=
    Disk.readText_of_locate ["en.json".toList] 420 rfl
  have hj : Json.read t = .ok (.object [(['a'], .number (.whole 1))]) := rfl
  have hs : patch.sectionsFor p.stem = [[(['a'], .number (.whole 2))], own] := rfl
  have hm : mergeAll true [(['a'], .number (.whole 1))] [[(['a'], .number (.whole 2))], own] =
      (own, ⟨0, 2, 0⟩) := by
    simp [own, mergeAll, merge, mergeMembers, mergeMember, mergeValue, settle, Members.get?_cons,
      Members.put, Value.same, Number.same, Stats.add, Stats.zero]
  have hx : DoublesReadBack d patch true p := by
    refine doublesReadBack_of_nil ht hj ?_
    rw [mergedFor, hs, hm]
    rfl
  have hu : first.1.status = .updated := by
    have hn : p.fileName? = some "en.json".toList := rfl
    refine (status_eq_updated_iff hn ht hj).mpr ?_
    rw [mergedFor, hs, hm]
    exact ⟨rfl, by decide⟩
  exact ⟨hp, hx, hu, updateFile_again hp hx⟩

/-! ### Files left alone -/

private theorem status_eq_unchanged_iff {written : Option Text} {stats : Stats}
    (h : revise d patch mode.overwrite p = .ok (written, stats)) :
    (updateFile d patch mode p).1.status = .unchanged ↔ written = none := by
  unfold updateFile
  rw [h]
  cases written with
  | none => simp
  | some written =>
    dsimp only
    split
    · simp
    · split <;> simp [failure]

/-- A merge that gives back the object in a file counts no change if each section leaves the object
as it is by itself. -/
theorem status_eq_unchanged_iff_of_restored (hp : patch.IsValid) (ht : d.readText p = .ok t)
    (hj : Json.read t = .ok (.object target))
    (hm : (mergeAll mode.overwrite target (patch.sectionsFor p.stem)).1 = target) :
    (updateFile d patch mode p).1.status = .unchanged ↔
      t = render target ∨
        ∀ s ∈ patch.sectionsFor p.stem, (merge mode.overwrite target s).1 = target := by
  rw [status_eq_unchanged_iff (revise_eq ht hj), hm,
    ← changed_mergeAll_iff hp (fits_of_read hj) hm]
  by_cases hspelled : render target = t
  · simp [hspelled]
  · cases (mergeAll mode.overwrite target (patch.sectionsFor p.stem)).2.changed <;>
      simp [hspelled, Ne.symm hspelled]

private theorem updateFile_eq_of_unchanged
    (h : (updateFile d patch mode p).1.status = .unchanged) :
    (updateFile d patch mode p).2 = d := by
  refine updateFile_eq_of_not_updated (.inr fun hu ↦ ?_)
  rw [h] at hu
  cases hu

/-- Where the sections together leave the object in a file as it is, the file is left alone exactly
if it is spelled as it would be written, or if each section leaves the object so by itself. -/
theorem updateFile_unchanged_iff (hp : patch.IsValid) (ht : d.readText p = .ok t)
    (hj : Json.read t = .ok (.object target))
    (hm : (mergeAll mode.overwrite target (patch.sectionsFor p.stem)).1 = target) :
    ((updateFile d patch mode p).1.status = .unchanged ↔
      t = render target ∨
        ∀ s ∈ patch.sectionsFor p.stem, (merge mode.overwrite target s).1 = target) ∧
      ((updateFile d patch mode p).1.status = .unchanged → (updateFile d patch mode p).2 = d) :=
  ⟨status_eq_unchanged_iff_of_restored hp ht hj hm, updateFile_eq_of_unchanged⟩

/-- A patch of one section that the object agrees with, in a file that is spelled otherwise. -/
theorem updateFile_unchanged_iff_agreeing :
    let p : Path := ⟨"/en.json".toList⟩
    let t : Text := "\x7b\"a\":1\x7d".toList
    let d : Disk := ⟨[(["en.json".toList], .file (Text.encode t) 420)], []⟩
    let target : Members := [(['a'], .number (.whole 1))]
    let patch : Patch := ⟨[("en".toList, target)]⟩
    let mode : Mode := ⟨true, false⟩
    patch.IsValid ∧ d.readText p = .ok t ∧ Json.read t = .ok (.object target) ∧
      (mergeAll mode.overwrite target (patch.sectionsFor p.stem)).1 = target ∧
      ((updateFile d patch mode p).1.status = .unchanged ↔
        t = render target ∨
          ∀ s ∈ patch.sectionsFor p.stem, (merge mode.overwrite target s).1 = target) ∧
      ((updateFile d patch mode p).1.status = .unchanged →
        (updateFile d patch mode p).2 = d) := by
  intro p t d target patch mode
  have hp : patch.IsValid := ⟨"\x7b\"en\":\x7b\"a\":1\x7d\x7d".toList, rfl⟩
  have ht : d.readText p = .ok t :=
    Disk.readText_of_locate ["en.json".toList] 420 rfl
  have hj : Json.read t = .ok (.object target) := rfl
  have hs : patch.sectionsFor p.stem = [target] := rfl
  have hm : (mergeAll mode.overwrite target (patch.sectionsFor p.stem)).1 = target := by
    rw [hs]
    simp [target, mergeAll, merge, mergeMembers, mergeMember, mergeValue, settle,
      Members.get?_cons, Members.put, Value.same, Number.same]
  exact ⟨hp, ht, hj, hm, updateFile_unchanged_iff hp ht hj hm⟩

/-- Two sections that set a key to a value and back: the file is written although its object stays
the same, as it is not spelled the way it would be written. -/
theorem updateFile_restored :
    let p : Path := ⟨"/en.json".toList⟩
    let t : Text := "\x7b\"a\":1\x7d".toList
    let d : Disk := ⟨[(["en.json".toList], .file (Text.encode t) 420)], []⟩
    let target : Members := [(['a'], .number (.whole 1))]
    let patch : Patch :=
      ⟨[(Patch.sharedName, [(['a'], .number (.whole 2))]), ("en".toList, target)]⟩
    patch.IsValid ∧ d.readText p = .ok t ∧ Json.read t = .ok (.object target) ∧
      (mergeAll true target (patch.sectionsFor p.stem)).1 = target ∧
      (updateFile d patch ⟨true, false⟩ p).1.status = .updated ∧
      (updateFile d patch ⟨true, false⟩ p).2.readText p ≠ .ok t := by
  intro p t d target patch
  have hp : patch.IsValid :=
    ⟨"\x7b\"*\":\x7b\"a\":2\x7d,\"en\":\x7b\"a\":1\x7d\x7d".toList, rfl⟩
  have ht : d.readText p = .ok t :=
    Disk.readText_of_locate ["en.json".toList] 420 rfl
  have hj : Json.read t = .ok (.object target) := rfl
  have hm : mergeAll true target (patch.sectionsFor p.stem) = (target, ⟨0, 2, 0⟩) := by
    have hs : patch.sectionsFor p.stem = [[(['a'], .number (.whole 2))], target] := rfl
    rw [hs]
    simp [target, mergeAll, merge, mergeMembers, mergeMember, mergeValue, settle,
      Members.get?_cons, Members.put, Value.same, Number.same, Stats.add, Stats.zero]
  have hspelled : render target ≠ t := by decide
  have hu : (updateFile d patch ⟨true, false⟩ p).1.status = .updated := by
    have hn : p.fileName? = some "en.json".toList := rfl
    refine (status_eq_updated_iff hn ht hj).mpr ?_
    rw [mergedFor, hm]
    exact ⟨rfl, hspelled⟩
  refine ⟨hp, ht, hj, congrArg Prod.fst hm, hu, ?_⟩
  obtain ⟨t', target', ht', hj', hw⟩ := exists_of_updated hu
  obtain rfl : t = t' := Except.ok.inj (ht.symm.trans ht')
  obtain rfl : target = target' := Value.object.inj (Except.ok.inj (hj.symm.trans hj'))
  rw [hw, mergedFor, hm]
  exact fun h ↦ hspelled (Except.ok.inj h)

end Spruce.Locale
