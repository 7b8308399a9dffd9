import Spruce.Proofs.Cleanup.Plan

/-!
# Cleaning up without memory

Sources are kept in memory for speed only. At every step of a real run a file is the text of its
source, and the text is cut into the rows that the source has; so a run that forgets its sources
before each finding, and reads the file anew, does the same (`clean_eq_rereading`). What carries
this is that no edit merges or splits rows (`Run.Rowed`).
-/

namespace Spruce

open Text

/-- The rows of a source are those of its contents. -/
theorem Source.ofText_contents {p : Path} {s : Source} (hp : s.path = p) (h : AreRows s.rows) :
    ofText p s.contents = s := by
  rw [ofText, contents, physicalLines_flatten h, ← hp]

/-- A source whose contents a file has is loaded from the file. -/
theorem Source.load_of_read {d : Disk} {p : Path} {s : Source}
    (h : d.read p = .ok (encode s.contents)) (hp : s.path = p) (hr : AreRows s.rows) :
    load d p = .ok s := by
  have ht : d.readText p = .ok s.contents := by
    rw [Disk.readText, h]
    dsimp only
    rw [decode?_encode]
  rw [load, ht]
  exact congrArg Except.ok (ofText_contents hp hr)

namespace Cleanup

open Lint

/-- A treatment of one row leaves the rows of a text. -/
theorem areRows_splice_treat {s : Source} {n : Nat} {row : Text} (h : AreRows s.rows)
    (hr : s.row? n = some row) (name : Text) :
    AreRows (s.splice n (treat row name).left).rows := by
  have hs := Source.rows_eq_of_row? hr
  have hmem : row ∈ s.rows := by
    rw [hs]
    exact List.mem_append_right _ List.mem_cons_self
  have hn := h.newlineLast row hmem
  have hne := h.nonempty row hmem
  rw [hs] at h
  exact h.replace (replaces_treat hn hne name)

namespace Run

/-- Every source in memory consists of the rows of a text. -/
def Rowed (r : Run) : Prop :=
  ∀ (p : Path) (s : Source), p.IsCleanAbsolute → r.sources.lookup p.components = some s →
    AreRows s.rows

namespace Rowed

variable {r : Run} {f : Finding}

/-- A run that begins has no source in memory. -/
theorem start (d : Disk) (dryRun : Bool) : (Run.start d dryRun).Rowed := by
  intro p s _ hl
  cases hl

/-- A source at hand consists of the rows of a text. -/
theorem of_sourceOf (h : r.Rowed) {p : Path} {s : Source} (hp : p.IsCleanAbsolute)
    (hs : r.sourceOf p.components p = .ok s) : AreRows s.rows := by
  rw [sourceOf] at hs
  split at hs
  · next known hl =>
    obtain rfl := Except.ok.inj hs
    exact h p known hp hl
  · obtain ⟨t, -, rfl⟩ := eq_ofText_of_load hs
    exact areRows_physicalLines t

/-- Keeping a source that consists of rows leaves every source so. -/
theorem keep (h : r.Rowed) {p : Path} {s : Source} (hp : p.IsCleanAbsolute)
    (hs : AreRows s.rows) : (r.keep p.components s).Rowed := by
  intro q known hq hl
  rcases known_of_keep hp hq hl with ⟨-, rfl⟩ | ⟨-, hl⟩
  · exact hs
  · exact h q known hq hl

/-- Carrying out the plan for a finding keeps the rows of every source. -/
theorem perform (h : r.Rowed) {d : Disk} (hr : r.Faithful d) (hf : f.file.IsCleanAbsolute) :
    (r.perform f (r.planFor f)).1.Rowed := by
  cases hplan : r.planFor f with
  | refuse verdict => exact h
  | leave s remark => exact h.keep hf (h.of_sourceOf hf (eq_of_plan_leave hplan).2.1)
  | change s n t =>
    obtain ⟨disk, hsaved, -⟩ := hr.exists_amend hf hplan
    obtain ⟨-, -, hs, row, hrow, rfl, -⟩ := eq_of_plan_change hplan
    rw [perform_change hplan hsaved]
    have hrows := areRows_splice_treat (h.of_sourceOf hf hs) hrow f.name
    exact h.keep (s := s.splice n (treat row f.name).left) hf hrows

/-- A step keeps the rows of every source. -/
theorem step (h : r.Rowed) {d : Disk} (hr : r.Faithful d) (hf : f.file.IsCleanAbsolute) :
    (r.step f).Rowed := by
  by_cases hi : r.Ignores f
  · rw [step_of_ignores hi]
    exact h
  · have hm : (r.meet f).Rowed := h
    rw [step_of_not_ignores hi]
    exact hm.perform hr.meet hf

end Rowed

/-- A real run over clean absolute paths whose sources and disk agree, row by row. -/
structure Coherent (r : Run) (d : Disk) : Prop where
  faithful : r.Faithful d
  rowed : r.Rowed
  wet : r.summary.dryRun = false

namespace Coherent

variable {r : Run} {d : Disk} {p : Path} {s : Source} {f : Finding}

/-- A step keeps sources and disk in agreement. -/
theorem step (h : r.Coherent d) (hf : f.file.IsCleanAbsolute) : (r.step f).Coherent d where
  faithful := h.faithful.step hf
  rowed := h.rowed.step h.faithful hf
  wet := (r.dryRun_step f).trans h.wet

/-- A file whose source is known would be loaded as that source. -/
theorem load_eq (h : r.Coherent d) (hp : p.IsCleanAbsolute)
    (hl : r.sources.lookup p.components = some s) : Source.load r.disk p = .ok s :=
  Source.load_of_read (h.faithful.wet h.wet hp hl) (h.faithful.path hp hl) (h.rowed p s hp hl)

end Coherent

end Run

/-- In a real run over clean absolute paths, sources and disk agree row by row. -/
theorem run_coherent (d : Disk) {findings : List Finding}
    (h : ∀ f ∈ findings, f.file.IsCleanAbsolute) : (run d false findings).Coherent d :=
  run_induction (motive := fun r ↦ r.Coherent d) ⟨.start d false, .start d false, rfl⟩
    fun _ hr f hf ↦ hr.step (h f hf)

namespace Run

/-! ### Runs without memory -/

/-- The run without any source in memory. -/
def forgetAll (r : Run) : Run := { r with sources := [] }

variable {r a : Run} {d : Disk} {f : Finding}

/-- A plan does not depend on what is in memory. -/
theorem planFor_forgetAll (h : r.Coherent d) (hf : f.file.IsCleanAbsolute) :
    r.forgetAll.planFor f = r.planFor f := by
  have hs : r.forgetAll.sourceOf f.file.components f.file =
      r.sourceOf f.file.components f.file := by
    unfold sourceOf
    cases hl : r.sources.lookup f.file.components with
    | none => rfl
    | some s => exact h.load_eq hf hl
  rw [planFor, planFor, hs]
  rfl

/-- What a finding comes to does not depend on what is in memory. -/
theorem forgetAll_conclude_perform (h : r.Coherent d) (hf : f.file.IsCleanAbsolute) :
    (conclude f (r.forgetAll.perform f (r.forgetAll.planFor f))).forgetAll =
      (conclude f (r.perform f (r.planFor f))).forgetAll := by
  have hplan := planFor_forgetAll h hf
  cases hq : r.planFor f with
  | refuse verdict =>
    rw [hplan, hq]
    rfl
  | leave s remark =>
    rw [hplan, hq]
    rfl
  | change s n t =>
    obtain ⟨disk, hsaved, -⟩ := h.faithful.exists_amend hf hq
    have hsaved' : r.forgetAll.saved (s.splice n t.left) = .ok disk := hsaved
    rw [hplan, hq, perform_change hq hsaved, perform_change (hplan.trans hq) hsaved']
    rfl

/-- A step does not depend on what is in memory. -/
theorem forgetAll_step (h : r.Coherent d) (hf : f.file.IsCleanAbsolute) :
    (r.forgetAll.step f).forgetAll = (r.step f).forgetAll := by
  by_cases hi : r.Ignores f
  · have hi' : r.forgetAll.Ignores f := hi
    rw [step_of_ignores hi, step_of_ignores hi']
    rfl
  · have hi' : ¬ r.forgetAll.Ignores f := hi
    have hm : (r.meet f).Coherent d := ⟨h.faithful.meet, h.rowed, h.wet⟩
    rw [step_of_not_ignores hi, step_of_not_ignores hi']
    exact forgetAll_conclude_perform hm hf

end Run

/-- The real run that forgets every source before each finding. -/
def rereading (d : Disk) (findings : List Finding) : Run :=
  findings.foldl (fun r f ↦ r.forgetAll.step f) (.start d false)

/-- A run without memory differs from the run in memory only. -/
theorem forgetAll_rereading (d : Disk) {findings : List Finding}
    (h : ∀ f ∈ findings, f.file.IsCleanAbsolute) :
    (rereading d findings).forgetAll = (run d false findings).forgetAll := by
  have hruns : (rereading d findings).forgetAll = (run d false findings).forgetAll ∧
      (run d false findings).Coherent d := by
    refine List.foldl_rel (r := fun (a r : Run) ↦ a.forgetAll = r.forgetAll ∧ r.Coherent d)
      ⟨rfl, .start d false, .start d false, rfl⟩ ?_
    rintro f hf a r ⟨ha, hr⟩
    rw [ha]
    exact ⟨Run.forgetAll_step hr (h f hf), hr.step (h f hf)⟩
  exact hruns.1

/-- At every step of a real run the file of a source has its contents, and cutting them into rows
gives the source back; and the run ends as the run without memory does. -/
theorem clean_eq_rereading (d : Disk) (findings : List Finding)
    (h : ∀ f ∈ findings, f.file.IsCleanAbsolute) :
    (∀ handled, handled <+: findings → ∀ (p : Path) (s : Source), p.IsCleanAbsolute →
      (run d false handled).sources.lookup p.components = some s →
        (run d false handled).disk.read p = .ok (encode s.contents) ∧
          Source.ofText p s.contents = s) ∧
      clean d false findings = ((rereading d findings).summary, (rereading d findings).disk) := by
  constructor
  · intro handled hpre p s hp hl
    have hc := run_coherent d fun f hf ↦ h f (hpre.subset hf)
    exact ⟨hc.faithful.wet hc.wet hp hl,
      Source.ofText_contents (hc.faithful.path hp hl) (hc.rowed p s hp hl)⟩
  · have hall := forgetAll_rereading d h
    have hsummary : (rereading d findings).summary = (run d false findings).summary :=
      (congrArg Run.summary hall :)
    have hdisk : (rereading d findings).disk = (run d false findings).disk :=
      (congrArg Run.disk hall :)
    rw [clean, hsummary, hdisk]

/-- A declaration that is deleted, and a later line that moves up before it is treated. -/
theorem clean_eq_rereading_deletion :
    let p : Path := ⟨['/', 'a']⟩
    let d : Disk := ⟨[([['a']], .file (encode "const b = 1\nconst [c, e] = g".toList) 420)], []⟩
    let findings : List Finding := [⟨p, 1, 7, ['b']⟩, ⟨p, 2, 8, ['c']⟩]
    (∀ f ∈ findings, f.file.IsCleanAbsolute) ∧
      (∀ handled, handled <+: findings → ∀ (q : Path) (s : Source), q.IsCleanAbsolute →
        (run d false handled).sources.lookup q.components = some s →
          (run d false handled).disk.read q = .ok (encode s.contents) ∧
            Source.ofText q s.contents = s) ∧
        clean d false findings =
          ((rereading d findings).summary, (rereading d findings).disk) := by
  intro p d findings
  have h : ∀ f ∈ findings, f.file.IsCleanAbsolute := by decide
  exact ⟨h, clean_eq_rereading d findings h⟩

end Cleanup

end Spruce
