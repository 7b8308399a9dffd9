import Spruce.Proofs.Cleanup.Ledger
import Spruce.Proofs.Cleanup.Plan
import Spruce.Proofs.Cleanup.Tallies

/-!
# Deletions on record

The ledger of a run has exactly the lines that an outcome of the run says to be deleted, each once
(`Run.Notes`), on every disk and for every list of findings. A number that the ledger gave in place
of a reported one therefore falls short of it by the number of deletions above that were recorded
before.
-/

namespace Spruce.Cleanup

open Text Lint

/-! ### Deletions -/

/-- The lines of a file that outcomes say to be deleted. -/
def deletions (file : FileKey) (outcomes : List Outcome) : List Nat :=
  (outcomes.filter fun o ↦ o.remark = some .deletedDeclaration ∧ o.file.components = file).map
    Outcome.line

/-- An outcome says that a line above the line of another outcome has been deleted, in the same
file. -/
def Outcome.DeletesAbove (o' o : Outcome) : Prop :=
  o'.remark = some .deletedDeclaration ∧ o'.file.components = o.file.components ∧ o'.line < o.line

instance (o' o : Outcome) : Decidable (o'.DeletesAbove o) :=
  inferInstanceAs (Decidable (_ ∧ _ ∧ _))

private theorem countP_deletesAbove (outcomes : List Outcome) (o : Outcome) :
    outcomes.countP (·.DeletesAbove o) =
      ((deletions o.file.components outcomes).filter (· < o.line)).length := by
  rw [← List.countP_eq_length_filter, deletions, List.countP_map, List.countP_filter]
  apply List.countP_congr
  intro o' _
  rw [decide_eq_true_eq, Outcome.DeletesAbove]
  simp only [Function.comp_apply, Bool.and_eq_true, decide_eq_true_eq]
  tauto

/-- One more element is picked out at the end, or is not. -/
theorem map_filter_concat {α β : Type} (g : α → β) (P : α → Prop) [DecidablePred P]
    (xs : List α) (x : α) : ((xs ++ [x]).filter (P ·)).map g =
      (xs.filter (P ·)).map g ++ if P x then [g x] else [] := by
  rw [List.filter_append, List.map_append]
  split
  · next h => rw [List.filter_cons_of_pos (by simpa using h), List.filter_nil, List.map_singleton]
  · next h => rw [List.filter_cons_of_neg (by simpa using h), List.filter_nil, List.map_nil]

private theorem deletions_concat (file : FileKey) (outcomes : List Outcome) (o : Outcome) :
    deletions file (outcomes ++ [o]) = deletions file outcomes ++
      if o.remark = some .deletedDeclaration ∧ o.file.components = file then [o.line] else [] :=
  map_filter_concat Outcome.line _ outcomes o

/-! ### What a finding comes to -/

namespace Run

variable {r : Run} {f : Finding} {s : Source} {n : Nat} {t : Treatment}

/-- An outcome is about the file and the line of its finding. -/
theorem place_outcomeOf (f : Finding) (v : Verdict) :
    (outcomeOf f v).file = f.file ∧ (outcomeOf f v).line = f.line := by
  obtain _ | ⟨action, remark⟩ := v <;> exact ⟨rfl, rfl⟩

private theorem verdict_edit (r : Run) (file : FileKey) (s : Source) (action : Action)
    (remark : Option Remark) :
    (r.edit file s action remark).2 = .ok (action, remark) ∨
      ∃ fault, (r.edit file s action remark).2 = .error fault := by
  unfold edit
  split
  · exact .inl rfl
  · next fault _ => exact .inr ⟨fault, rfl⟩

/-- A change is recorded as it was called for, and then the ledger has its deletion, or it is
recorded as a fault. -/
theorem perform_change_cases (ha : t.action ≠ .skipped) :
    (r.perform f (.change s n t)).2 = .ok (t.action, t.remark) ∧
        (r.perform f (.change s n t)).1.ledger =
          (if t.left = [] then r.ledger.record f.file.components f.line else r.ledger) ∨
      (∃ fault, (r.perform f (.change s n t)).2 = .error fault) ∧
        (r.perform f (.change s n t)).1.ledger = r.ledger := by
  have hledger := (frame_edit (r.keep f.file.components s) f.file.components (s.splice n t.left)
    t.action t.remark).2.1
  have hverdict := verdict_edit (r.keep f.file.components s) f.file.components (s.splice n t.left)
    t.action t.remark
  rw [perform, carryOut, if_neg ha]
  generalize (r.keep f.file.components s).edit f.file.components (s.splice n t.left) t.action
    t.remark = edited at hledger hverdict
  obtain ⟨after, verdict⟩ := edited
  obtain rfl | ⟨fault, rfl⟩ := hverdict
  · left
    by_cases hl : t.left = []
    · rw [if_pos hl, if_pos hl]
      exact ⟨rfl, congrArg (Ledger.record · _ _) hledger⟩
    · rw [if_neg hl, if_neg hl]
      exact ⟨rfl, hledger⟩
  · right
    by_cases hl : t.left = []
    · rw [if_pos hl]
      exact ⟨⟨fault, rfl⟩, hledger⟩
    · rw [if_neg hl]
      exact ⟨⟨fault, rfl⟩, hledger⟩

/-- A finding leaves the remark on a deletion exactly when the ledger has one more, of a line that
it did not have before. -/
theorem ledger_perform (r : Run) (f : Finding) :
    let done := r.perform f (r.planFor f)
    (outcomeOf f done.2).remark = some .deletedDeclaration ∧
        f.line ∉ r.ledger.linesOf f.file.components ∧
        done.1.ledger = r.ledger.record f.file.components f.line ∨
      (outcomeOf f done.2).remark ≠ some .deletedDeclaration ∧ done.1.ledger = r.ledger := by
  cases hplan : r.planFor f with
  | refuse verdict =>
    right
    rcases eq_of_plan_refuse hplan with ⟨-, rfl⟩ | ⟨-, -, rfl⟩ | ⟨-, fault, -, rfl⟩
    · exact ⟨nofun, rfl⟩
    · exact ⟨nofun, rfl⟩
    · exact ⟨nofun, rfl⟩
  | leave s remark =>
    right
    obtain ⟨-, -, n, -, ⟨-, rfl⟩ | ⟨row, -, ha, rfl⟩⟩ := eq_of_plan_leave hplan
    · exact ⟨nofun, rfl⟩
    · refine ⟨fun hr ↦ ?_, rfl⟩
      have hl := (remark_treat row f.name).1.mp hr
      rw [(left_treat row f.name).2 ha] at hl
      cases hl
  | change s n t =>
    obtain ⟨-, hn, -, row, -, rfl, ha⟩ := eq_of_plan_change hplan
    rcases perform_change_cases (r := r) (f := f) (s := s) (n := n) ha with
      ⟨hv, hledger⟩ | ⟨⟨fault, hv⟩, hledger⟩
    · by_cases hl : (treat row f.name).left = []
      · left
        rw [if_pos hl] at hledger
        refine ⟨?_, Ledger.notMem_of_shifted? hn, hledger⟩
        rw [hv]
        exact (remark_treat row f.name).1.mpr hl
      · right
        rw [if_neg hl] at hledger
        refine ⟨?_, hledger⟩
        rw [hv]
        exact mt (remark_treat row f.name).1.mp hl
    · right
      rw [hv]
      exact ⟨nofun, hledger⟩

/-- The number in the remark that there is no line is where the ledger has the line. -/
theorem currentLine?_of_pastEnd
    (h : (outcomeOf f (r.perform f (r.planFor f)).2).remark = some (.pastEnd n)) :
    r.ledger.currentLine? f.file.components f.line = some n := by
  cases hplan : r.planFor f with
  | refuse verdict =>
    rw [hplan] at h
    rcases eq_of_plan_refuse hplan with ⟨-, rfl⟩ | ⟨-, -, rfl⟩ | ⟨-, fault, -, rfl⟩
    · cases h
    · cases h
    · cases h
  | leave s remark =>
    rw [hplan] at h
    obtain ⟨-, -, m, hm, ⟨-, rfl⟩ | ⟨row, -, -, rfl⟩⟩ := eq_of_plan_leave hplan
    · cases h
      exact hm
    · exact absurd h ((remark_treat row f.name).2 n)
  | change s m t =>
    obtain ⟨-, -, -, row, -, rfl, ha⟩ := eq_of_plan_change hplan
    rw [hplan] at h
    rcases perform_change_cases (r := r) (f := f) (s := s) (n := m) ha with
      ⟨hv, -⟩ | ⟨⟨fault, hv⟩, -⟩
    · rw [hv] at h
      exact absurd h ((remark_treat row f.name).2 n)
    · rw [hv] at h
      cases h

/-- The outcomes of a run account for its ledger, and the numbers of lines past the end for the
deletions before them. -/
structure Notes (r : Run) : Prop where
  /-- The ledger has the lines that outcomes say to be deleted. -/
  lines (file : FileKey) :
    (r.ledger.linesOf file).Perm (deletions file r.summary.outcomes)
  /-- No line is deleted twice. -/
  nodup (file : FileKey) : (r.ledger.linesOf file).Nodup
  /-- What a number of a line past the end lacks is the number of deletions above. -/
  numbers {before : List Outcome} {o : Outcome} {n : Nat} :
    before ++ [o] <+: r.summary.outcomes → o.remark = some (.pastEnd n) →
      n + before.countP (·.DeletesAbove o) = o.line

namespace Notes

/-- A run that begins has deleted nothing and written no outcome. -/
theorem start (d : Disk) (dryRun : Bool) : (Run.start d dryRun).Notes where
  lines _ := .nil
  nodup _ := .nil
  numbers h := absurd (List.prefix_nil.mp h) (by simp)

/-- The numbers are right after one more outcome, if the one in its remark is the number that the
ledger gave. -/
theorem numbers_concat (h : r.Notes) {o o' : Outcome} {before : List Outcome}
    (ho : ∀ n, o.remark = some (.pastEnd n) →
      r.ledger.currentLine? o.file.components o.line = some n)
    (hp : before ++ [o'] <+: r.summary.outcomes ++ [o]) (hn : o'.remark = some (.pastEnd n)) :
    n + before.countP (·.DeletesAbove o') = o'.line := by
  rcases List.prefix_concat_iff.mp hp with he | hp
  · obtain ⟨rfl, ho'⟩ := List.append_inj' he rfl
    obtain rfl := List.singleton_inj.mp ho'
    have hperm := (h.lines o'.file.components).filter (· < o'.line)
    rw [countP_deletesAbove, ← hperm.length_eq]
    exact Ledger.add_length_of_shifted? (h.nodup _) (ho n hn)
  · exact h.numbers hp hn

/-- The account is kept by what is recorded for a finding. -/
theorem conclude {done : Run × Verdict} (h : r.Notes) (hsummary : done.1.summary = r.summary)
    (hledger : (outcomeOf f done.2).remark = some .deletedDeclaration ∧
        f.line ∉ r.ledger.linesOf f.file.components ∧
        done.1.ledger = r.ledger.record f.file.components f.line ∨
      (outcomeOf f done.2).remark ≠ some .deletedDeclaration ∧ done.1.ledger = r.ledger)
    (hpast : ∀ n, (outcomeOf f done.2).remark = some (.pastEnd n) →
      r.ledger.currentLine? f.file.components f.line = some n) :
    (Run.conclude f done).Notes := by
  obtain ⟨hfile, hline⟩ := place_outcomeOf f done.2
  generalize ho : outcomeOf f done.2 = o at hledger hpast hfile hline
  rw [← hfile, ← hline] at hledger hpast
  have houtcomes : (Run.conclude f done).summary.outcomes = r.summary.outcomes ++ [o] := by
    rw [Run.conclude, hsummary, Summary.outcomes_record, ho]
  have hlines : (Run.conclude f done).ledger = done.1.ledger := rfl
  refine ⟨fun file ↦ ?_, fun file ↦ ?_, fun hp hn ↦ ?_⟩
  · rw [houtcomes, deletions_concat, hlines]
    rcases hledger with ⟨hr, -, hl⟩ | ⟨hr, hl⟩
    · rw [hl, Ledger.linesOf_record]
      by_cases he : file = o.file.components
      · rw [if_pos he, if_pos ⟨hr, he.symm⟩, ← he]
        exact ((h.lines file).cons o.line).trans (List.perm_append_singleton _ _).symm
      · rw [if_neg he, if_neg fun hd ↦ he hd.2.symm, List.append_nil]
        exact h.lines file
    · rw [hl, if_neg fun hd ↦ hr hd.1, List.append_nil]
      exact h.lines file
  · rw [hlines]
    rcases hledger with ⟨-, hm, hl⟩ | ⟨-, hl⟩
    · rw [hl, Ledger.linesOf_record]
      split
      · next he => exact List.nodup_cons.mpr ⟨he ▸ hm, he ▸ h.nodup file⟩
      · exact h.nodup file
    · rw [hl]
      exact h.nodup file
  · rw [houtcomes] at hp
    exact h.numbers_concat hpast hp hn

/-- A step keeps the account. -/
theorem step (h : r.Notes) (f : Finding) : (r.step f).Notes := by
  by_cases hi : r.Ignores f
  · rw [step_of_ignores hi]
    exact h
  · rw [step_of_not_ignores hi]
    have hmeet : (r.meet f).Notes := ⟨h.lines, h.nodup, h.numbers⟩
    exact hmeet.conclude (frame_perform (r.meet f) f (r.planFor f)).2 (ledger_perform (r.meet f) f)
      fun _ ↦ currentLine?_of_pastEnd

end Notes

end Run

/-- All along a run the outcomes account for the ledger. -/
theorem run_notes (d : Disk) (dryRun : Bool) (findings : List Finding) :
    (run d dryRun findings).Notes :=
  run_induction (motive := Run.Notes) (.start d dryRun) fun _ hr f _ ↦ hr.step f

end Spruce.Cleanup
