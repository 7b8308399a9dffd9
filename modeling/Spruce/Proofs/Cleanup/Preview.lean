import Spruce.Proofs.Cleanup.Plan

/-!
# Previews

A dry run tells what the real run will do (`clean_dryRun`): both come to the same outcomes, the dry
run leaves the disk alone, and the real run writes what the dry run holds in memory. The two runs
are followed side by side: they may differ in disk and flag, in nothing else (`Run.Mirrors`).
-/

namespace Spruce.Cleanup

open Text Lint

/-- Recording an outcome does not look at the flag. -/
theorem Summary.record_setDryRun (s : Summary) (dryRun : Bool) (o : Outcome) :
    Summary.record { s with dryRun } o = { s.record o with dryRun } := by
  cases ha : o.action <;> simp [Summary.record, Summary.count, ha]

namespace Run

/-- What a run holds of a file: its source where it has one, otherwise what the disk has. -/
def contentAt (r : Run) (p : Path) : Except IoError ByteArray :=
  match r.sources.lookup p.components with
  | some s => .ok (encode s.contents)
  | none => r.disk.read p

/-- Two runs agree on everything but the disk and whether it is written. -/
structure Mirrors (preview r : Run) : Prop where
  met : preview.met = r.met
  ledger : preview.ledger = r.ledger
  sources : preview.sources = r.sources
  summary : { preview.summary with dryRun := r.summary.dryRun } = r.summary

namespace Mirrors

variable {preview r : Run} {d : Disk} {f : Finding}

/-- Runs that begin on one disk agree. -/
theorem start (d : Disk) : Mirrors (.start d true) (.start d false) := ⟨rfl, rfl, rfl, rfl⟩

/-- Runs that agree meet a finding alike. -/
theorem meet (h : Mirrors preview r) : Mirrors (preview.meet f) (r.meet f) :=
  ⟨congrArg (keyOf f :: ·) h.met, h.ledger, h.sources, h.summary⟩

/-- Runs that agree keep a source alike. -/
theorem keep (h : Mirrors preview r) (file : FileKey) (s : Source) :
    Mirrors (preview.keep file s) (r.keep file s) :=
  ⟨h.met, h.ledger, by simp only [Run.keep, h.sources], h.summary⟩

/-- Runs that agree are amended alike. -/
theorem amend (h : Mirrors preview r) (s : Source) (t : Treatment) (disk₁ disk₂ : Disk) :
    Mirrors (preview.amend f s t disk₁) (r.amend f s t disk₂) where
  met := h.met
  ledger := by simp only [Run.amend, h.ledger]
  sources := (h.keep f.file.components s).sources
  summary := h.summary

/-- Runs that agree record a verdict alike. -/
theorem conclude (h : Mirrors preview r) (verdict : Verdict) :
    Mirrors (conclude f (preview, verdict)) (Run.conclude f (r, verdict)) where
  met := h.met
  ledger := h.ledger
  sources := h.sources
  summary := by
    rw [dryRun_conclude]
    dsimp only [Run.conclude]
    rw [← Summary.record_setDryRun, h.summary]

/-- Runs that agree, from one disk, plan alike. -/
theorem planFor_eq (h : Mirrors preview r) (hp : preview.Faithful d) (hr : r.Faithful d)
    (hf : f.file.IsCleanAbsolute) : preview.planFor f = r.planFor f := by
  rw [hp.planFor_eq hf, hr.planFor_eq hf]
  simp only [planFor, sourceOf, h.ledger, h.sources]

/-- Runs that agree, from one disk, come to the same outcome of a finding. -/
theorem conclude_perform (h : Mirrors preview r) (hp : preview.Faithful d) (hr : r.Faithful d)
    (hf : f.file.IsCleanAbsolute) :
    Mirrors (Run.conclude f (preview.perform f (preview.planFor f)))
      (Run.conclude f (r.perform f (r.planFor f))) := by
  have hplan := h.planFor_eq hp hr hf
  cases hq : r.planFor f with
  | refuse verdict =>
    rw [hplan, hq]
    exact h.conclude verdict
  | leave s remark =>
    rw [hplan, hq]
    exact (h.keep f.file.components s).conclude _
  | change s n t =>
    obtain ⟨disk₁, hs₁, -⟩ := hp.exists_amend hf (hplan.trans hq)
    obtain ⟨disk₂, hs₂, -⟩ := hr.exists_amend hf hq
    rw [hplan, hq, perform_change (hplan.trans hq) hs₁, perform_change hq hs₂]
    exact (h.amend _ t disk₁ disk₂).conclude _

/-- Runs that agree, from one disk, agree after one more finding. -/
theorem step (h : Mirrors preview r) (hp : preview.Faithful d) (hr : r.Faithful d)
    (hf : f.file.IsCleanAbsolute) : Mirrors (preview.step f) (r.step f) := by
  have hi : preview.Ignores f ↔ r.Ignores f := by rw [Ignores, Ignores, h.met]
  by_cases hr' : r.Ignores f
  · rw [step_of_ignores hr', step_of_ignores (hi.mpr hr')]
    exact h
  · rw [step_of_not_ignores hr', step_of_not_ignores (mt hi.mp hr')]
    exact h.meet.conclude_perform hp.meet hr.meet hf

end Mirrors

end Run

/-- The dry run and the real run agree throughout. -/
theorem run_mirrors (d : Disk) {findings : List Finding}
    (h : ∀ f ∈ findings, f.file.IsCleanAbsolute) :
    Run.Mirrors (run d true findings) (run d false findings) := by
  have hruns : Run.Mirrors (run d true findings) (run d false findings) ∧
      (run d true findings).Faithful d ∧ (run d false findings).Faithful d := by
    refine List.foldl_rel (r := fun (preview r : Run) ↦ preview.Mirrors r ∧ preview.Faithful d ∧
      r.Faithful d) ⟨.start d, .start d true, .start d false⟩ ?_
    rintro f hf preview r ⟨hm, hp, hr⟩
    exact ⟨hm.step hp hr (h f hf), hp.step (h f hf), hr.step (h f hf)⟩
  exact hruns.1

/-- A dry run comes to the same counts and outcomes as the real run and leaves the disk alone; after
the real run every file is what the dry run holds of it. -/
theorem clean_dryRun (d : Disk) (findings : List Finding)
    (h : ∀ f ∈ findings, f.file.IsCleanAbsolute) :
    { (clean d true findings).1 with dryRun := false } = (clean d false findings).1 ∧
      (clean d true findings).2 = d ∧
      ∀ p : Path, p.IsCleanAbsolute →
        (clean d false findings).2.read p = (run d true findings).contentAt p := by
  have hm := run_mirrors d h
  have hp := run_faithful d true h
  have hr := run_faithful d false h
  have hdry := dryRun_run d true findings
  have hwet := dryRun_run d false findings
  refine ⟨?_, hp.dry hdry, fun p hclean ↦ ?_⟩
  · rw [clean, clean, ← hm.summary, hwet]
  · dsimp only [clean, Run.contentAt]
    rw [hm.sources, hp.dry hdry]
    cases hl : (run d false findings).sources.lookup p.components with
    | none => exact hr.unread hclean hl
    | some s => exact hr.wet hwet hclean hl

/-- One declaration of two on a line, and a name on a line that is not there. -/
theorem clean_dryRun_pattern :
    let p : Path := ⟨['/', 'a']⟩
    let d : Disk := ⟨[([['a']], .file (encode "const { b, c } = e\n".toList) 420)], []⟩
    let findings : List Finding := [⟨p, 1, 9, ['b']⟩, ⟨p, 7, 1, ['g']⟩]
    (∀ f ∈ findings, f.file.IsCleanAbsolute) ∧
      { (clean d true findings).1 with dryRun := false } = (clean d false findings).1 ∧
      (clean d true findings).2 = d ∧
      ∀ q : Path, q.IsCleanAbsolute →
        (clean d false findings).2.read q = (run d true findings).contentAt q := by
  intro p d findings
  have h : ∀ f ∈ findings, f.file.IsCleanAbsolute := by decide
  exact ⟨h, clean_dryRun d findings h⟩

end Spruce.Cleanup
