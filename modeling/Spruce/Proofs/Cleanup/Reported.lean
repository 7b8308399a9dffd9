import Spruce.Proofs.Cleanup.Deletions
import Spruce.Proofs.Cleanup.Order

/-!
# Reported line numbers

An outcome carries the number that the linter reported. One remark names a line, too: that it is
past the end of its file. The number there is not the reported one but the one that the ledger gives
in its place. Apart from that number, what is recorded for a line depends on the findings of that
line only (`clean_reported`): it is known from the first disk and from the rows that are left of the
line (`Run.Carries.reported_outcomeOf`).
-/

namespace Spruce.Cleanup

open Text Lint

/-! ### One line -/

/-- The remark with another number in it, where it names a line. -/
def Remark.reported (line : Nat) : Remark → Remark
  | .pastEnd _ => .pastEnd line
  | remark => remark

/-- A remark that names no other line is as it was. -/
theorem Remark.map_reported {line : Nat} {remark : Option Remark}
    (h : ∀ n, remark = some (.pastEnd n) → n = line) :
    remark.map (Remark.reported line) = remark := by
  cases remark with
  | none => rfl
  | some remark =>
    cases remark with
    | pastEnd n => rw [h n rfl, Option.map_some, reported]
    | _ => rfl

/-- The outcome with the number of its own line in its remark. -/
def Outcome.reported (o : Outcome) : Outcome :=
  { o with remark := o.remark.map (Remark.reported o.line) }

/-- What is recorded for a line of a file, with its own number in the remarks. -/
def Summary.reportedOn (s : Summary) (p : Path) (k : Nat) : List Outcome :=
  (s.outcomes.filter fun o ↦ o.file = p ∧ o.line = k).map Outcome.reported

private theorem Summary.reportedOn_record (s : Summary) (o : Outcome) (p : Path) (k : Nat) :
    (s.record o).reportedOn p k =
      s.reportedOn p k ++ if o.file = p ∧ o.line = k then [o.reported] else [] := by
  rw [reportedOn, outcomes_record]
  exact map_filter_concat Outcome.reported _ s.outcomes o

/-- What a finding comes to on the rows that are left of its line, for the disk `d` that the run
began with. -/
def verdictOn (d : Disk) (f : Finding) (left : List TaggedRow) : Verdict :=
  if !d.isFile f.file then .ok (.skipped, some .fileNotFound)
  else
    match Source.load d f.file with
    | .error fault => .error fault
    | .ok _ =>
      match left with
      | l :: _ => .ok ((treat l.row f.name).action, (treat l.row f.name).remark)
      | [] =>
        if f.line ∈ (tagged d f.file).map TaggedRow.number then
          .ok (.skipped, some .lineRemoved)
        else .ok (.skipped, some (.pastEnd f.line))

private theorem rowsOn_of_absent {rows : List TaggedRow} {k : Nat} (h : ∀ l ∈ rows, l.number ≠ k) :
    rowsOn rows k = [] :=
  List.filter_eq_nil_iff.mpr (by simpa using h)

namespace Run

variable {r : Run} {d : Disk} {rows : Path → List TaggedRow} {f : Finding} {s : Source}

/-- A source at hand has been loaded from the first disk. -/
theorem Faithful.exists_load (h : r.Faithful d) {p : Path} (hp : p.IsCleanAbsolute)
    (hs : r.sourceOf p.components p = .ok s) : ∃ loaded, Source.load d p = .ok loaded := by
  obtain ⟨-, ⟨t, ht⟩, -⟩ := h.of_sourceOf hp hs
  exact ⟨.ofText p t, by rw [Source.load, ht]⟩

/-- A source that is not at hand cannot be loaded from the first disk. -/
theorem Faithful.load_eq_error (h : r.Faithful d) {p : Path} (hp : p.IsCleanAbsolute)
    {fault : Fault} (hs : r.sourceOf p.components p = .error fault) :
    Source.load d p = .error fault := by
  rw [sourceOf] at hs
  split at hs
  · cases hs
  · next hl => rwa [← load_congr (h.unread hp hl)]

namespace Carries

/-- A file of which lines have been deleted was there, and could be read. -/
theorem exists_load_of_deleted (h : r.Carries d rows) {p : Path} (hp : p.IsCleanAbsolute) {k : Nat}
    (hk : r.ledger.currentLine? p.components k = none) :
    (∃ loaded, Source.load d p = .ok loaded) ∧ k ∈ (tagged d p).map TaggedRow.number := by
  have hbounds := (h.deleted hp).bounds k (Ledger.shifted?_eq_none.mp hk)
  refine ⟨?_, mem_numbers_tagged.mpr hbounds⟩
  cases ht : d.readText p with
  | ok t => exact ⟨.ofText p t, by rw [Source.load, ht]⟩
  | error e =>
    have hnone : tagged d p = [] := by rw [tagged, ht]
    rw [hnone, List.length_nil] at hbounds
    omega

/-- Where the ledger has a line, a source has the row that is left of the line; if none is left the
file never had such a line. -/
theorem rowsOn_of_currentLine? (h : r.Carries d rows) {p : Path} (hp : p.IsCleanAbsolute)
    (hs : s.rows = (rows p).map TaggedRow.row) {k n : Nat}
    (hn : r.ledger.currentLine? p.components k = some n) :
    (∃ l, rowsOn (rows p) k = [l] ∧ s.row? n = some l.row) ∨
      rowsOn (rows p) k = [] ∧ s.row? n = none ∧ k ∉ (tagged d p).map TaggedRow.number := by
  rcases h.split_of_currentLine? hp hs hn with ⟨above, l, below, hT, hl, -, hat⟩ | ⟨habsent, hat⟩
  · left
    obtain ⟨ha, hb⟩ := absent_of_nodup (hT ▸ h.nodup hp)
    refine ⟨l, ?_, hat⟩
    rw [hT, ← hl, rowsOn_append, rowsOn_cons, if_pos rfl, rowsOn_of_absent ha, rowsOn_of_absent hb,
      List.nil_append]
  · right
    exact ⟨rowsOn_of_absent habsent, hat, h.notMem_tagged hp hn habsent⟩

/-- Apart from the number in its remark, what is recorded for a finding is known from the first
disk and from the rows that are left of its line. -/
theorem reported_outcomeOf (h : r.Carries d rows) (hr : r.Faithful d)
    (hf : f.file.IsCleanAbsolute) :
    (outcomeOf f (r.perform f (r.planFor f)).2).reported =
      outcomeOf f (verdictOn d f (rowsOn (rows f.file) f.line)) := by
  have hisFile := hr.isFile_eq hf
  have htreat (row : Text) : (treat row f.name).remark.map (Remark.reported f.line) =
      (treat row f.name).remark :=
    Remark.map_reported fun n hn ↦ absurd hn ((remark_treat row f.name).2 n)
  cases hplan : r.planFor f with
  | refuse verdict =>
    rcases eq_of_plan_refuse hplan with ⟨hfile, rfl⟩ | ⟨hfile, hn, rfl⟩ | ⟨hfile, fault, hs, rfl⟩
    · rw [hisFile] at hfile
      simp only [verdictOn, hfile]
      rfl
    · rw [hisFile] at hfile
      obtain ⟨⟨loaded, hload⟩, hk⟩ := h.exists_load_of_deleted hf hn
      have hon := rowsOn_of_absent (h.absent_of_currentLine? hf hn)
      simp only [verdictOn, hfile, hload, hon, if_pos hk]
      rfl
    · rw [hisFile] at hfile
      simp only [verdictOn, hfile, hr.load_eq_error hf hs]
      rfl
  | leave s remark =>
    obtain ⟨hfile, hs, n, hn, hrow⟩ := eq_of_plan_leave hplan
    rw [hisFile] at hfile
    obtain ⟨loaded, hload⟩ := hr.exists_load hf hs
    rcases h.rowsOn_of_currentLine? hf (h.rows_eq hr hf hs) hn with ⟨l, hon, hat⟩ | ⟨hon, hat, hk⟩
    · rw [hat] at hrow
      obtain ⟨row, he, ha, rfl⟩ := hrow.resolve_left nofun
      obtain rfl := Option.some.inj he
      simp only [verdictOn, hfile, hload, hon, ha]
      exact congrArg (Outcome.mk f.file f.line f.name .skipped) (htreat l.row)
    · rw [hat] at hrow
      obtain ⟨-, rfl⟩ := hrow.resolve_right nofun
      simp only [verdictOn, hfile, hload, hon, if_neg hk]
      rfl
  | change s n t =>
    obtain ⟨disk, hsaved, -⟩ := hr.exists_amend hf hplan
    rw [perform_change hplan hsaved]
    obtain ⟨hfile, hn, hs, row, hrow, rfl, -⟩ := eq_of_plan_change hplan
    rw [hisFile] at hfile
    obtain ⟨loaded, hload⟩ := hr.exists_load hf hs
    rcases h.rowsOn_of_currentLine? hf (h.rows_eq hr hf hs) hn with ⟨l, hon, hat⟩ | ⟨-, hat, -⟩
    · obtain rfl := Option.some.inj (hrow.symm.trans hat)
      simp only [verdictOn, hfile, hload, hon]
      exact congrArg (Outcome.mk f.file f.line f.name _) (htreat l.row)
    · rw [hat] at hrow
      cases hrow

end Carries

/-! ### Two runs -/

variable {T T' : Tracking} {p : Path} {k : Nat}

/-- A finding of another line records nothing for a line. -/
theorem reportedOn_step_of_not (r : Run) (h : ¬ (f.file = p ∧ f.line = k)) :
    (r.step f).summary.reportedOn p k = r.summary.reportedOn p k := by
  by_cases hi : r.Ignores f
  · rw [step_of_ignores hi]
  · obtain ⟨v, hv⟩ := exists_outcome hi
    obtain ⟨hfile, hline⟩ := place_outcomeOf f v
    rw [hv, Summary.reportedOn_record, hfile, hline, if_neg h, List.append_nil]

/-- What a finding records for its line depends on that line only. -/
theorem reportedOn_step (ht : r.Tracks d T) (hr : r.Faithful d) (hf : f.file.IsCleanAbsolute) :
    (r.step f).summary.reportedOn f.file f.line =
      if T.Ignores f then r.summary.reportedOn f.file f.line
      else r.summary.reportedOn f.file f.line ++
        [outcomeOf f (verdictOn d f (T.onLine f.file f.line).1)] := by
  by_cases hi : r.Ignores f
  · rw [step_of_ignores hi, if_pos ((ht.ignores_iff hf).mp hi)]
  · have hreported := (ht.files.meet f).reported_outcomeOf hr.meet hf
    have hsummary := (frame_perform (r.meet f) f (r.planFor f)).2
    have hplace := place_outcomeOf f ((r.meet f).perform f (r.planFor f)).2
    rw [step_of_not_ignores hi, if_neg (mt (ht.ignores_iff hf).mpr hi), conclude, hsummary,
      Summary.reportedOn_record, if_pos hplace]
    exact congrArg (r.summary.reportedOn f.file f.line ++ [·]) hreported

/-- Two runs from one disk that stand alike on a line record the same for it, if the second one
goes on with the findings of that line only. -/
theorem reportedOn_foldl {findings : List Finding} (hf : ∀ f ∈ findings, f.file.IsCleanAbsolute)
    {r' : Run} (ht : r.Tracks d T) (hr : r.Faithful d) (ht' : r'.Tracks d T') (hr' : r'.Faithful d)
    (hline : T.onLine p k = T'.onLine p k)
    (h : r.summary.reportedOn p k = r'.summary.reportedOn p k) :
    (findings.foldl step r).summary.reportedOn p k =
      ((findingsOn p k findings).foldl step r').summary.reportedOn p k := by
  induction findings generalizing r r' T T' with
  | nil => exact h
  | cons f findings ih =>
    obtain ⟨hclean, hrest⟩ := List.forall_mem_cons.mp hf
    rw [findingsOn, List.foldl_cons]
    by_cases hon : f.file = p ∧ f.line = k
    · rw [List.filter_cons_of_pos (by simpa using hon), List.foldl_cons]
      obtain ⟨rfl, rfl⟩ := hon
      have hignores : T.Ignores f ↔ T'.Ignores f := by
        rw [Tracking.ignores_iff_onLine, Tracking.ignores_iff_onLine, hline]
      have hstep : (r.step f).summary.reportedOn f.file f.line =
          (r'.step f).summary.reportedOn f.file f.line := by
        rw [reportedOn_step ht hr hclean, reportedOn_step ht' hr' hclean, hline, h]
        simp only [hignores]
      exact ih hrest (ht.step hr hclean) (hr.step hclean) (ht'.step hr' hclean) (hr'.step hclean)
        (Tracking.onLine_step hline) hstep
    · rw [List.filter_cons_of_neg (by simpa using hon)]
      exact ih hrest (ht.step hr hclean) (hr.step hclean) ht' hr'
        ((Tracking.onLine_step_of_not hon).trans hline)
        ((reportedOn_step_of_not r hon).trans h)

end Run

/-- What is recorded is about findings. -/
theorem exists_finding_of_mem_outcomes {d : Disk} {dryRun : Bool} {findings : List Finding}
    {o : Outcome} (h : o ∈ (run d dryRun findings).summary.outcomes) :
    ∃ f ∈ findings, o.file = f.file ∧ o.line = f.line := by
  revert h
  refine run_induction (motive := fun r ↦ o ∈ r.summary.outcomes →
    ∃ f ∈ findings, o.file = f.file ∧ o.line = f.line) (fun h ↦ nomatch h) ?_
  intro r hr f hf h
  by_cases hi : r.Ignores f
  · rw [Run.step_of_ignores hi] at h
    exact hr h
  · obtain ⟨v, hv⟩ := Run.exists_outcome hi
    rw [hv, Summary.outcomes_record] at h
    rcases List.mem_append.mp h with h | h
    · exact hr h
    · obtain rfl := List.mem_singleton.mp h
      exact ⟨f, hf, Run.place_outcomeOf f v⟩

/-- Where all findings are about one line, everything that is recorded is, with its own number. -/
theorem reportedOn_findingsOn (d : Disk) (dryRun : Bool) (findings : List Finding) (p : Path)
    (k : Nat) : (run d dryRun (findingsOn p k findings)).summary.reportedOn p k =
      (run d dryRun (findingsOn p k findings)).summary.outcomes := by
  have hnotes := run_notes d dryRun (findingsOn p k findings)
  have hplace : ∀ o ∈ (run d dryRun (findingsOn p k findings)).summary.outcomes,
      o.file = p ∧ o.line = k := by
    intro o ho
    obtain ⟨f, hf, hfile, hline⟩ := exists_finding_of_mem_outcomes ho
    rw [hfile, hline]
    simpa using (List.mem_filter.mp hf).2
  have hreported : ∀ o ∈ (run d dryRun (findingsOn p k findings)).summary.outcomes,
      o.reported = o := by
    intro o ho
    obtain ⟨before, after, hsplit⟩ := List.append_of_mem ho
    have hremark : o.remark.map (Remark.reported o.line) = o.remark := by
      apply Remark.map_reported
      intro n hn
      have hnumber := hnotes.numbers ⟨after, by rw [hsplit, List.append_assoc]; rfl⟩ hn
      have hnone : before.countP (·.DeletesAbove o) = 0 := by
        apply List.countP_eq_zero.mpr
        intro o' ho'
        have hline := (hplace o' (by rw [hsplit]; exact List.mem_append_left _ ho')).2
        simp [Outcome.DeletesAbove, hline, (hplace o ho).2]
      omega
    rw [Outcome.reported, hremark]
  rw [Summary.reportedOn, List.filter_eq_self.mpr (by simpa using hplace)]
  exact (List.map_congr_left hreported).trans (List.map_id _)

/-- The number in the remark that a line is past the end of its file falls short of the reported one
by the number of lines above that have been deleted before in that file; so it is the reported one
only if there are none. Apart from that number, what is recorded for a line is what a cleanup with
the findings of that line alone records. -/
theorem clean_reported (d : Disk) (dryRun : Bool) (findings : List Finding) :
    (∀ before o n, before ++ [o] <+: (clean d dryRun findings).1.outcomes →
      o.remark = some (.pastEnd n) →
        n + before.countP (·.DeletesAbove o) = o.line ∧
          (n = o.line ↔ ∀ o' ∈ before, ¬ o'.DeletesAbove o)) ∧
    ((∀ f ∈ findings, f.file.IsCleanAbsolute) → ∀ p k,
      (clean d dryRun findings).1.reportedOn p k =
        (clean d dryRun (findingsOn p k findings)).1.outcomes) := by
  constructor
  · intro before o n hp hn
    have hnumber := (run_notes d dryRun findings).numbers hp hn
    have hnone : before.countP (·.DeletesAbove o) = 0 ↔ ∀ o' ∈ before, ¬ o'.DeletesAbove o := by
      rw [List.countP_eq_zero]
      simp only [decide_eq_true_eq]
    refine ⟨hnumber, ?_⟩
    rw [← hnone]
    omega
  · intro hf p k
    have hline := Run.reportedOn_foldl (p := p) (k := k) hf (.start d dryRun) (.start d dryRun)
      (.start d dryRun) (.start d dryRun) rfl rfl
    exact hline.trans (reportedOn_findingsOn d dryRun findings p k)

/-- A line that is deleted and one that was never there. -/
theorem clean_reported_deletion :
    let p : Path := ⟨['/', 'a']⟩
    let d : Disk := ⟨[([['a']], .file (encode "const b = 1\n".toList) 420)], []⟩
    let findings : List Finding := [⟨p, 1, 7, ['b']⟩, ⟨p, 2, 7, ['c']⟩]
    (∀ f ∈ findings, f.file.IsCleanAbsolute) ∧
      (∀ q k, (clean d false findings).1.reportedOn q k =
        (clean d false (findingsOn q k findings)).1.outcomes) ∧
      (clean d false (findingsOn p 2 findings)).1.outcomes =
        [⟨p, 2, ['c'], .skipped, some (.pastEnd 2)⟩] := by
  intro p d findings
  have h : ∀ f ∈ findings, f.file.IsCleanAbsolute := by decide
  exact ⟨h, (clean_reported d false findings).2 h, by decide +kernel⟩

/-- The line that was never there is line 2 for the linter, and line 1 for the remark on it. -/
theorem clean_pastEnd_shifted :
    let p : Path := ⟨['/', 'a']⟩
    let d : Disk := ⟨[([['a']], .file (encode "const b = 1\n".toList) 420)], []⟩
    (clean d false [⟨p, 1, 7, ['b']⟩, ⟨p, 2, 7, ['c']⟩]).1.outcomes =
        [⟨p, 1, ['b'], .removed, some .deletedDeclaration⟩,
          ⟨p, 2, ['c'], .skipped, some (.pastEnd 1)⟩] ∧
      (clean d false [⟨p, 2, 7, ['c']⟩]).1.outcomes =
        [⟨p, 2, ['c'], .skipped, some (.pastEnd 2)⟩] := by
  decide +kernel

end Spruce.Cleanup
