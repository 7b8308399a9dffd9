import Spruce.Proofs.Cleanup.Plan

/-!
# Tallies

A finding counts when its name has no underscore in front and no finding before it has its key
(`counted`). A run takes no notice of the other findings (`Run.foldl_pending`) and leaves one
outcome for each that counts, in their order (`Run.subjects_foldl`); the counts of its summary are
those of the outcomes (`tallied_run`). So every variable is tallied once, and duplicates have no
effect (`clean_tally`).
-/

namespace Spruce.Cleanup

open Text Lint

/-! ### Findings that count -/

/-- The findings without those whose key an earlier one has. -/
def firstOfEach : List Finding → List Finding
  | [] => []
  | f :: findings => f :: (firstOfEach findings).filter fun g => keyOf g ≠ keyOf f

/-- The findings that count: of those without an underscore in front of the name, the first one of
each key. -/
def counted (findings : List Finding) : List Finding :=
  firstOfEach (findings.filter fun f => f.name.head? ≠ some '_')

/-- Every key is still there. -/
theorem mem_keys_firstOfEach (findings : List Finding) (key : FindingKey) :
    key ∈ (firstOfEach findings).map keyOf ↔ key ∈ findings.map keyOf := by
  induction findings with
  | nil => rfl
  | cons f findings ih =>
    have hrest : key ∈ ((firstOfEach findings).filter fun g => keyOf g ≠ keyOf f).map keyOf ↔
        key ≠ keyOf f ∧ key ∈ (firstOfEach findings).map keyOf := by
      simp only [List.mem_map, List.mem_filter, decide_eq_true_eq]
      constructor
      · rintro ⟨g, ⟨hg, hne⟩, rfl⟩
        exact ⟨hne, g, hg, rfl⟩
      · rintro ⟨hne, g, hg, rfl⟩
        exact ⟨g, ⟨hg, hne⟩, rfl⟩
    rw [firstOfEach, List.map_cons, List.map_cons, List.mem_cons, List.mem_cons, hrest, ih]
    by_cases hk : key = keyOf f <;> simp [hk]

/-- No key is there twice. -/
theorem nodup_keys_firstOfEach (findings : List Finding) :
    ((firstOfEach findings).map keyOf).Nodup := by
  induction findings with
  | nil => exact .nil
  | cons f findings ih =>
    rw [firstOfEach, List.map_cons, List.nodup_cons]
    constructor
    · simp
    · exact ih.sublist (List.filter_sublist.map keyOf)

/-- Findings that are told from the others by their keys may be picked out before or after. -/
theorem filter_firstOfEach (p : FindingKey → Bool) (findings : List Finding) :
    (firstOfEach findings).filter (fun f => p (keyOf f)) =
      firstOfEach (findings.filter fun f => p (keyOf f)) := by
  induction findings with
  | nil => rfl
  | cons f findings ih =>
    cases hp : p (keyOf f) with
    | true =>
      have hrest := List.filter_comm (fun g => p (keyOf g)) (fun g => keyOf g ≠ keyOf f)
        (firstOfEach findings)
      simp only [firstOfEach, List.filter_cons, hp, if_true, hrest, ih]
    | false =>
      have hne : ∀ g, (p (keyOf g) && decide (keyOf g ≠ keyOf f)) = p (keyOf g) := by
        intro g
        by_cases hg : keyOf g = keyOf f
        · rw [hg, hp, Bool.false_and]
        · simp [hg]
      simp only [firstOfEach, List.filter_cons, hp, Bool.false_eq_true, if_false,
        List.filter_filter, hne, ih]

/-! ### Outcomes -/

/-- What a finding is about, with the path as it was first spelled. -/
def subjectOf (f : Finding) : Path × Nat × Text := (f.file, f.line, f.name)

namespace Outcome

/-- What an outcome is about. -/
def subject (o : Outcome) : Path × Nat × Text := (o.file, o.line, o.name)

/-- The key of the finding that an outcome is about. -/
def key (o : Outcome) : FindingKey := (o.file.components, o.line, o.name)

end Outcome

/-- The counts are the numbers of outcomes with each action. -/
structure Summary.Tallied (s : Summary) : Prop where
  removed : s.removed = s.outcomes.countP fun o => o.action = .removed
  prefixed : s.prefixed = s.outcomes.countP fun o => o.action = .prefixed
  skipped : s.skipped = s.outcomes.countP fun o => o.action = .skipped

/-- A record adds its outcome at the end. -/
theorem Summary.outcomes_record (s : Summary) (o : Outcome) :
    (s.record o).outcomes = s.outcomes ++ [o] := by
  simp [record]

/-- An outcome that is recorded is counted. -/
theorem Summary.Tallied.record {s : Summary} (h : s.Tallied) (o : Outcome) :
    (s.record o).Tallied := by
  obtain ⟨hr, hp, hs⟩ := h
  constructor <;> cases ha : o.action <;> simp [Summary.record, Summary.count, *]

/-- The counts of a summary come to the number of its outcomes. -/
theorem Summary.Tallied.total_eq {s : Summary} (h : s.Tallied) : s.total = s.outcomes.length := by
  obtain ⟨hr, hp, hs⟩ := h
  rw [Summary.total, hr, hp, hs]
  induction s.outcomes with
  | nil => rfl
  | cons o outcomes ih =>
    cases ha : o.action <;> simp [ha] <;> omega

private theorem subject_outcomeOf (f : Finding) (v : Verdict) :
    (Run.outcomeOf f v).subject = subjectOf f := by
  obtain _ | ⟨action, remark⟩ := v <;> rfl

/-! ### Runs -/

namespace Run

variable {r : Run} {f : Finding}

/-- Whether findings of a key are still handled. -/
def takes (r : Run) (key : FindingKey) : Bool :=
  key.2.2.head? != some '_' && !r.met.contains key

/-- The findings that a run does not pass over. -/
def pending (r : Run) (findings : List Finding) : List Finding :=
  firstOfEach (findings.filter fun f => r.takes (keyOf f))

private theorem takes_iff (r : Run) (key : FindingKey) :
    r.takes key = true ↔ key.2.2.head? ≠ some '_' ∧ key ∉ r.met := by
  simp [takes]

private theorem takes_keyOf_iff (r : Run) (f : Finding) :
    r.takes (keyOf f) = true ↔ ¬ r.Ignores f := by
  rw [takes_iff, Ignores, not_or]
  rfl

/-- A finding that is not passed over leaves its key. -/
theorem met_step (h : ¬ r.Ignores f) : (r.step f).met = keyOf f :: r.met := by
  rw [step_of_not_ignores h]
  exact (frame_perform (r.meet f) f (r.planFor f)).1

/-- A finding that is not passed over leaves an outcome. -/
theorem exists_outcome (h : ¬ r.Ignores f) :
    ∃ v, (r.step f).summary = r.summary.record (outcomeOf f v) := by
  rw [step_of_not_ignores h]
  refine ⟨((r.meet f).perform f (r.planFor f)).2, ?_⟩
  rw [conclude, (frame_perform (r.meet f) f (r.planFor f)).2]
  rfl

private theorem pending_cons_of_ignores (h : r.Ignores f) (findings : List Finding) :
    r.pending (f :: findings) = r.pending findings := by
  have hf : ¬ r.takes (keyOf f) = true := by rwa [takes_keyOf_iff, not_not]
  simp only [pending, List.filter_cons, if_neg hf]

/-- After a finding that is not passed over, what is left to handle is left by its step. -/
theorem pending_cons (h : ¬ r.Ignores f) (findings : List Finding) :
    r.pending (f :: findings) = f :: (r.step f).pending findings := by
  have htakes (g : Finding) : (decide (keyOf g ≠ keyOf f) && r.takes (keyOf g)) =
      (r.step f).takes (keyOf g) := by
    apply Bool.eq_iff_iff.mpr
    simp only [takes_iff, met_step h, Bool.and_eq_true, decide_eq_true_eq, List.mem_cons, not_or]
    tauto
  have hrest := filter_firstOfEach (fun key => key ≠ keyOf f)
    (findings.filter fun g => r.takes (keyOf g))
  simp only [pending, List.filter_cons, (takes_keyOf_iff r f).mpr h, if_true, firstOfEach, hrest,
    List.filter_filter, htakes]

/-- The findings that a run passes over make no difference to it. -/
theorem foldl_pending (r : Run) (findings : List Finding) :
    (r.pending findings).foldl step r = findings.foldl step r := by
  induction findings generalizing r with
  | nil => rfl
  | cons f findings ih =>
    rw [List.foldl_cons]
    by_cases h : r.Ignores f
    · rw [pending_cons_of_ignores h, step_of_ignores h, ih]
    · rw [pending_cons h, List.foldl_cons, ih]

/-- A run has one outcome more for each finding that it does not pass over, in their order. -/
theorem subjects_foldl (r : Run) (findings : List Finding) :
    (findings.foldl step r).summary.outcomes.map Outcome.subject =
      r.summary.outcomes.map Outcome.subject ++ (r.pending findings).map subjectOf := by
  induction findings generalizing r with
  | nil => exact (List.append_nil _).symm
  | cons f findings ih =>
    rw [List.foldl_cons, ih]
    by_cases h : r.Ignores f
    · rw [pending_cons_of_ignores h, step_of_ignores h]
    · obtain ⟨v, hv⟩ := exists_outcome h
      rw [pending_cons h, hv, Summary.outcomes_record, List.map_append, List.map_cons, List.map_nil,
        subject_outcomeOf, List.append_assoc, List.singleton_append, List.map_cons]

/-- A step counts the outcome that it records. -/
theorem tallied_step (h : r.summary.Tallied) (f : Finding) : (r.step f).summary.Tallied := by
  by_cases hi : r.Ignores f
  · rwa [step_of_ignores hi]
  · obtain ⟨v, hv⟩ := exists_outcome hi
    rw [hv]
    exact h.record (outcomeOf f v)

private theorem pending_start (d : Disk) (dryRun : Bool) (findings : List Finding) :
    (start d dryRun).pending findings = counted findings := by
  have htakes (f : Finding) : (start d dryRun).takes (keyOf f) =
      decide (f.name.head? ≠ some '_') := by
    apply Bool.eq_iff_iff.mpr
    simp [takes_iff, start, keyOf]
  simp only [pending, htakes, counted]

end Run

/-- The counts of a run are those of its outcomes. -/
theorem tallied_run (d : Disk) (dryRun : Bool) (findings : List Finding) :
    (run d dryRun findings).summary.Tallied :=
  run_induction (motive := fun r ↦ r.summary.Tallied) ⟨rfl, rfl, rfl⟩
    fun _ hr f _ ↦ Run.tallied_step hr f

/-- A cleanup records one outcome for each variable on a line whose name has no underscore in front,
in the order in which they first come up; its counts are the numbers of outcomes with each action
and come to their number; and the findings that do not count make no difference to the summary and
to the disk. -/
theorem clean_tally (d : Disk) (dryRun : Bool) (findings : List Finding) :
    let s := (clean d dryRun findings).1
    clean d dryRun (counted findings) = clean d dryRun findings ∧
      s.outcomes.map Outcome.subject = (counted findings).map subjectOf ∧
      (s.outcomes.map Outcome.key).Nodup ∧
      (∀ key, key ∈ s.outcomes.map Outcome.key ↔
        ∃ f ∈ findings, f.name.head? ≠ some '_' ∧ keyOf f = key) ∧
      s.Tallied ∧ s.total = s.outcomes.length := by
  intro s
  have hs : s = (run d dryRun findings).summary := rfl
  have hsubjects : s.outcomes.map Outcome.subject = (counted findings).map subjectOf := by
    have h := (Run.start d dryRun).subjects_foldl findings
    rwa [Run.pending_start] at h
  have hkeys : s.outcomes.map Outcome.key = (counted findings).map keyOf := by
    have h := congrArg
      (List.map fun subject => (subject.1.components, subject.2.1, subject.2.2)) hsubjects
    rwa [List.map_map, List.map_map] at h
  have hrun : run d dryRun (counted findings) = run d dryRun findings := by
    have h := (Run.start d dryRun).foldl_pending findings
    rwa [Run.pending_start] at h
  have htallied : s.Tallied := tallied_run d dryRun findings
  refine ⟨?_, hsubjects, ?_, fun key ↦ ?_, htallied, htallied.total_eq⟩
  · rw [clean, clean, hrun]
  · rw [hkeys]
    exact nodup_keys_firstOfEach _
  · rw [hkeys, counted, mem_keys_firstOfEach]
    simp only [List.mem_map, List.mem_filter, decide_eq_true_eq, and_assoc]

end Spruce.Cleanup
