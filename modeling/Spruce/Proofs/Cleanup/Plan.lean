import Spruce.Proofs.Cleanup.Treatment
import Spruce.Proofs.Disk.Files

/-!
# Plans

What a finding calls for is decided by four things: whether its file is there, where its line
stands now, the source of the file, and the name (`plan`). Handling a finding is carrying out its
plan (`Run.handle_eq`). In a run over clean absolute paths every write succeeds, and the disk and
the sources in memory never disagree (`run_faithful`); so a plan depends on the first disk, the
ledger and the sources only (`Run.Faithful.planFor_eq`).
-/

namespace Spruce.Cleanup

open Text Lint

/-- What a finding calls for. -/
inductive Plan
  /-- Nothing is known of the line, and nothing changes. -/
  | refuse (verdict : Verdict)
  /-- The source has been read and stays as it is. -/
  | leave (s : Source) (remark : Option Remark)
  /-- The row of a line is treated. -/
  | change (s : Source) (n : Nat) (t : Treatment)

/-- What a finding of `name` calls for, given whether its file is there, where its line stands now
and the source of the file. -/
def plan (isFile : Bool) (line? : Option Nat) (source : Except Fault Source) (name : Text) : Plan :=
  if !isFile then .refuse (.ok (.skipped, some .fileNotFound))
  else
    match line? with
    | none => .refuse (.ok (.skipped, some .lineRemoved))
    | some n =>
      match source with
      | .error fault => .refuse (.error fault)
      | .ok s =>
        match s.row? n with
        | none => .leave s (some (.pastEnd n))
        | some row =>
          let t := treat row name
          if t.action = .skipped then .leave s t.remark else .change s n t

/-- A change is the treatment of a row that the source has. -/
theorem eq_of_plan_change {isFile : Bool} {line? : Option Nat} {source : Except Fault Source}
    {name : Text} {s : Source} {n : Nat} {t : Treatment}
    (h : plan isFile line? source name = .change s n t) :
    isFile = true ∧ line? = some n ∧ source = .ok s ∧
      ∃ row, s.row? n = some row ∧ t = treat row name ∧ t.action ≠ .skipped := by
  unfold plan at h
  split at h
  · cases h
  · next hf =>
    split at h
    · cases h
    · split at h
      · cases h
      · split at h
        · cases h
        · next row hr =>
          dsimp only at h
          split at h
          · cases h
          · next ha =>
            cases h
            exact ⟨by simpa using hf, rfl, rfl, row, hr, rfl, ha⟩

/-- A source is left as it is where the line is not there, or its treatment is to skip it. -/
theorem eq_of_plan_leave {isFile : Bool} {line? : Option Nat} {source : Except Fault Source}
    {name : Text} {s : Source} {remark : Option Remark}
    (h : plan isFile line? source name = .leave s remark) :
    isFile = true ∧ source = .ok s ∧ ∃ n, line? = some n ∧
      (s.row? n = none ∧ remark = some (.pastEnd n) ∨
        ∃ row, s.row? n = some row ∧ (treat row name).action = .skipped ∧
          remark = (treat row name).remark) := by
  unfold plan at h
  split at h
  · cases h
  · next hf =>
    split at h
    · cases h
    · next n =>
      split at h
      · cases h
      · split at h
        · next hr =>
          cases h
          exact ⟨by simpa using hf, rfl, n, rfl, .inl ⟨hr, rfl⟩⟩
        · next row hr =>
          dsimp only at h
          split at h
          · next ha =>
            cases h
            exact ⟨by simpa using hf, rfl, n, rfl, .inr ⟨row, hr, ha, rfl⟩⟩
          · cases h

/-- A finding is refused where its file is not there, its line has been deleted or its file cannot
be read, whichever comes first. -/
theorem eq_of_plan_refuse {isFile : Bool} {line? : Option Nat} {source : Except Fault Source}
    {name : Text} {verdict : Verdict} (h : plan isFile line? source name = .refuse verdict) :
    isFile ≠ true ∧ verdict = .ok (.skipped, some .fileNotFound) ∨
      isFile = true ∧ line? = none ∧ verdict = .ok (.skipped, some .lineRemoved) ∨
      isFile = true ∧ ∃ fault, source = .error fault ∧ verdict = .error fault := by
  unfold plan at h
  split at h
  · next hf =>
    cases h
    exact .inl ⟨by simpa using hf, rfl⟩
  · next hf =>
    have hf : isFile = true := by simpa using hf
    split at h
    · cases h
      exact .inr (.inl ⟨hf, rfl, rfl⟩)
    · split at h
      · next fault =>
        cases h
        exact .inr (.inr ⟨hf, fault, rfl, rfl⟩)
      · split at h
        · cases h
        · dsimp only at h
          split at h <;> cases h

namespace Run

/-- What a finding calls for in a run. -/
def planFor (r : Run) (f : Finding) : Plan :=
  plan (r.disk.isFile f.file) (r.ledger.currentLine? f.file.components f.line)
    (r.sourceOf f.file.components f.file) f.name

/-- The run after a plan has been carried out, and what it came to. -/
def perform (r : Run) (f : Finding) : Plan → Run × Verdict
  | .refuse verdict => (r, verdict)
  | .leave s remark => (r.keep f.file.components s, .ok (.skipped, remark))
  | .change s n t => (r.keep f.file.components s).carryOut f n s t

/-- Handling a finding is carrying out its plan. -/
theorem handle_eq (r : Run) (f : Finding) : r.handle f = r.perform f (r.planFor f) := by
  unfold handle planFor plan
  dsimp only
  split
  · rfl
  · cases r.ledger.currentLine? f.file.components f.line with
    | none => rfl
    | some n =>
      cases r.sourceOf f.file.components f.file with
      | error fault => rfl
      | ok s =>
        cases hr : s.row? n with
        | none => simp [Source.line?, hr, perform]
        | some row =>
          simp only [Source.line?_eq hr, handleLine_eq hr, hr]
          by_cases ha : (treat row f.name).action = .skipped
          · simp [perform, carryOut, ha]
          · simp only [if_neg ha, perform]

/-! ### Steps -/

/-- The run after a finding has been noted as met. -/
def meet (r : Run) (f : Finding) : Run := { r with met := keyOf f :: r.met }

/-- The run with the outcome of a finding. -/
def conclude (f : Finding) (done : Run × Verdict) : Run :=
  { done.1 with summary := done.1.summary.record (outcomeOf f done.2) }

/-- Whether a finding is passed over: its name begins with an underscore, or it has been met. -/
def Ignores (r : Run) (f : Finding) : Prop := f.name.head? = some '_' ∨ keyOf f ∈ r.met

/-- A finding that is ignored changes nothing. -/
theorem step_of_ignores {r : Run} {f : Finding} (h : r.Ignores f) : r.step f = r := by
  unfold step
  split
  · rfl
  · next hu => rw [if_pos (h.resolve_left hu)]

/-- A finding that is not ignored is met, its plan is carried out, and the outcome is written
down. -/
theorem step_of_not_ignores {r : Run} {f : Finding} (h : ¬ r.Ignores f) :
    r.step f = conclude f ((r.meet f).perform f (r.planFor f)) := by
  obtain ⟨hu, hm⟩ := not_or.mp h
  rw [step, if_neg hu, if_neg hm]
  exact congrArg (conclude f) (handle_eq (r.meet f) f)

/-- The outcome of a finding does not change whether a run is dry. -/
theorem dryRun_conclude (f : Finding) (done : Run × Verdict) :
    (conclude f done).summary.dryRun = done.1.summary.dryRun := by
  simp only [conclude, Summary.record, Summary.count]
  split <;> rfl

/-! ### Carrying out a change -/

private theorem keep_keep (r : Run) (file : FileKey) (s s' : Source) :
    (r.keep file s).keep file s' = r.keep file s' := by
  simp [keep, List.filter_filter]

/-- What is known of the files after a source has been kept. -/
theorem lookup_keep (r : Run) (file : FileKey) (s : Source) (other : FileKey) :
    (r.keep file s).sources.lookup other =
      if other = file then some s else r.sources.lookup other := by
  by_cases ho : other = file
  · simp [keep, ho]
  · have hb : (other == file) = false := by simpa using ho
    rw [if_neg ho, keep, List.lookup_cons, hb]
    dsimp only
    induction r.sources with
    | nil => rfl
    | cons entry entries ih =>
      obtain ⟨key, known⟩ := entry
      by_cases hk : key = file
      · have hne : (other == key) = false := by rw [hk]; exact hb
        rw [List.filter_cons_of_neg (by simpa using hk), ih, List.lookup_cons, hne]
      · rw [List.filter_cons_of_pos (by simpa using hk), List.lookup_cons, List.lookup_cons, ih]

/-- After a source of a file has been kept, it is known of that file and nothing new of others. -/
theorem known_of_keep {r : Run} {p q : Path} {s known : Source} (hp : p.IsCleanAbsolute)
    (hq : q.IsCleanAbsolute)
    (h : (r.keep p.components s).sources.lookup q.components = some known) :
    q = p ∧ known = s ∨ q ≠ p ∧ r.sources.lookup q.components = some known := by
  rw [lookup_keep] at h
  split at h
  · next he => exact .inl ⟨hq.eq_of_components hp he, (Option.some.inj h).symm⟩
  · next hne => exact .inr ⟨mt (congrArg Path.components) hne, h⟩

/-- After a source of a file has been kept, only other files are unknown, and they were before. -/
theorem unknown_of_keep {r : Run} {p q : Path} {s : Source}
    (h : (r.keep p.components s).sources.lookup q.components = none) :
    q ≠ p ∧ r.sources.lookup q.components = none := by
  rw [lookup_keep] at h
  split at h
  · cases h
  · next hne => exact ⟨mt (congrArg Path.components) hne, h⟩

/-- The disk once a source of a run has been saved, which a dry run does not do. -/
def saved (r : Run) (s : Source) : Except Fault Disk :=
  if r.summary.dryRun then .ok r.disk else s.save r.disk

/-- The run after a change that left a source and a disk. -/
def amend (r : Run) (f : Finding) (s : Source) (t : Treatment) (disk : Disk) : Run :=
  { r.keep f.file.components s with
    disk
    ledger := if t.left = [] then r.ledger.record f.file.components f.line else r.ledger }

/-- A change that is called for, and whose source can be saved, amends the run. -/
theorem perform_change {r : Run} {f : Finding} {s : Source} {n : Nat} {t : Treatment} {disk : Disk}
    (hplan : r.planFor f = .change s n t) (hs : r.saved (s.splice n t.left) = .ok disk) :
    r.perform f (.change s n t) =
      (r.amend f (s.splice n t.left) t disk, .ok (t.action, t.remark)) := by
  obtain ⟨-, -, -, row, -, -, ha⟩ := eq_of_plan_change hplan
  have he : (r.keep f.file.components s).edit f.file.components (s.splice n t.left) t.action
      t.remark =
      ({ r.keep f.file.components (s.splice n t.left) with disk }, .ok (t.action, t.remark)) := by
    have hk : (r.keep f.file.components s).summary = r.summary := rfl
    have hdisk : (r.keep f.file.components s).disk = r.disk := rfl
    unfold saved at hs
    rw [edit, commit, keep_keep, hk, hdisk]
    by_cases hd : r.summary.dryRun = true
    · rw [if_pos hd] at hs
      obtain rfl := Except.ok.inj hs
      rw [if_pos hd]
      rfl
    · rw [if_neg hd] at hs
      rw [if_neg hd, hs]
  rw [perform, carryOut, if_neg ha, he]
  by_cases hl : t.left = []
  · simp [hl, noteDeletion, amend, keep]
  · simp [hl, amend, keep]

/-- An edit touches neither the findings met nor the ledger nor the summary. -/
theorem frame_edit (r : Run) (file : FileKey) (s : Source) (action : Action)
    (remark : Option Remark) :
    (r.edit file s action remark).1.met = r.met ∧
      (r.edit file s action remark).1.ledger = r.ledger ∧
      (r.edit file s action remark).1.summary = r.summary := by
  have hcommit : (r.commit file s).1.met = r.met ∧ (r.commit file s).1.ledger = r.ledger ∧
      (r.commit file s).1.summary = r.summary := by
    unfold commit
    split
    · exact ⟨rfl, rfl, rfl⟩
    · split <;> exact ⟨rfl, rfl, rfl⟩
  rw [edit]
  split
  · next hc =>
    rw [hc] at hcommit
    exact hcommit
  · next hc =>
    rw [hc] at hcommit
    exact hcommit

private theorem frame_noteDeletion (file : FileKey) (line : Nat) (done : Run × Verdict) :
    (noteDeletion file line done).1.met = done.1.met ∧
      (noteDeletion file line done).1.summary = done.1.summary := by
  obtain ⟨r, _ | _⟩ := done <;> exact ⟨rfl, rfl⟩

/-- Carrying out a plan touches neither the findings met nor the summary. -/
theorem frame_perform (r : Run) (f : Finding) (pl : Plan) :
    (r.perform f pl).1.met = r.met ∧ (r.perform f pl).1.summary = r.summary := by
  cases pl with
  | refuse verdict => exact ⟨rfl, rfl⟩
  | leave s remark => exact ⟨rfl, rfl⟩
  | change s n t =>
    have he := frame_edit (r.keep f.file.components s) f.file.components (s.splice n t.left)
      t.action t.remark
    dsimp only [perform, carryOut]
    split
    · exact ⟨rfl, rfl⟩
    · split
      · rw [(frame_noteDeletion _ _ _).1, (frame_noteDeletion _ _ _).2]
        exact ⟨he.1, he.2.2⟩
      · exact ⟨he.1, he.2.2⟩

/-- A run stays dry, or not, as it was. -/
theorem dryRun_step (r : Run) (f : Finding) :
    (r.step f).summary.dryRun = r.summary.dryRun := by
  by_cases hi : r.Ignores f
  · rw [step_of_ignores hi]
  · rw [step_of_not_ignores hi, dryRun_conclude, (frame_perform _ _ _).2]
    rfl

/-! ### Disk and sources -/

/-- What a run makes of the files of the disk `d` that it began with. -/
structure Faithful (r : Run) (d : Disk) : Prop where
  /-- A source belongs to its path. -/
  path {p : Path} {s : Source} : p.IsCleanAbsolute → r.sources.lookup p.components = some s →
    s.path = p
  /-- A source has been read from a text file. -/
  text {p : Path} {s : Source} : p.IsCleanAbsolute → r.sources.lookup p.components = some s →
    ∃ t, d.readText p = .ok t
  /-- A file that is not known is as it was. -/
  unread {p : Path} : p.IsCleanAbsolute → r.sources.lookup p.components = none →
    r.disk.read p = d.read p
  /-- A dry run leaves the disk as it was. -/
  dry : r.summary.dryRun = true → r.disk = d
  /-- Outside a dry run, a file is as its source. -/
  wet {p : Path} {s : Source} : r.summary.dryRun = false → p.IsCleanAbsolute →
    r.sources.lookup p.components = some s → r.disk.read p = .ok (encode s.contents)

end Run

/-- A source that has been loaded is the text of its file. -/
theorem eq_ofText_of_load {d : Disk} {p : Path} {s : Source} (h : Source.load d p = .ok s) :
    ∃ t, d.readText p = .ok t ∧ s = .ofText p t := by
  unfold Source.load at h
  split at h
  · next t ht => exact ⟨t, ht, (Except.ok.inj h).symm⟩
  · cases h

/-- A text that has been read is encoded in its file. -/
theorem read_of_readText {d : Disk} {p : Path} {t : Text} (h : d.readText p = .ok t) :
    d.read p = .ok (encode t) := by
  unfold Disk.readText at h
  split at h
  · cases h
  · next bytes hb =>
    split at h
    · next t' ht =>
      obtain rfl := Except.ok.inj h
      rw [hb, encode_of_decode? ht]
    · cases h

/-- Loading depends on what is read only. -/
theorem load_congr {d e : Disk} {p : Path} (h : d.read p = e.read p) :
    Source.load d p = Source.load e p := by
  rw [Source.load, Source.load, Disk.readText, Disk.readText, h]

namespace Run.Faithful

variable {r : Run} {d : Disk} {p : Path} {s : Source}

/-- A run that begins has made nothing of the files yet. -/
theorem start (d : Disk) (dryRun : Bool) : (Run.start d dryRun).Faithful d where
  path _ h := by cases h
  text _ h := by cases h
  unread _ _ := rfl
  dry _ := rfl
  wet _ _ h := by cases h

/-- No file appears or disappears. -/
theorem isFile_eq (h : r.Faithful d) (hp : p.IsCleanAbsolute) :
    r.disk.isFile p = d.isFile p := by
  apply Bool.eq_iff_iff.mpr
  rw [Disk.isFile_iff_read, Disk.isFile_iff_read]
  cases hl : r.sources.lookup p.components with
  | none => rw [h.unread hp hl]
  | some s =>
    obtain ⟨t, ht⟩ := h.text hp hl
    have hd : d.read p = .ok (encode t) := read_of_readText ht
    cases hdry : r.summary.dryRun with
    | true => rw [h.dry hdry]
    | false => rw [h.wet hdry hp hl, hd]; simp

/-- What is known of a file does not depend on what has been written. -/
theorem sourceOf_eq (h : r.Faithful d) (hp : p.IsCleanAbsolute) :
    r.sourceOf p.components p = { r with disk := d }.sourceOf p.components p := by
  unfold sourceOf
  dsimp only
  split
  · rfl
  · next hl => exact load_congr (h.unread hp hl)

/-- The plan for a finding does not depend on what has been written. -/
theorem planFor_eq (h : r.Faithful d) {f : Finding} (hf : f.file.IsCleanAbsolute) :
    r.planFor f = { r with disk := d }.planFor f := by
  rw [planFor, planFor, h.isFile_eq hf, h.sourceOf_eq hf]

/-- A source at hand belongs to its path and to a text file, and is as the file where runs
write. -/
theorem of_sourceOf (h : r.Faithful d) (hp : p.IsCleanAbsolute)
    (hs : r.sourceOf p.components p = .ok s) :
    s.path = p ∧ (∃ t, d.readText p = .ok t) ∧
      (r.summary.dryRun = false → r.disk.read p = .ok (encode s.contents)) := by
  rw [sourceOf] at hs
  split at hs
  · next known hl =>
    obtain rfl := Except.ok.inj hs
    exact ⟨h.path hp hl, h.text hp hl, fun hw ↦ h.wet hw hp hl⟩
  · next hl =>
    obtain ⟨t, ht, rfl⟩ := eq_ofText_of_load hs
    have hr := read_of_readText ht
    refine ⟨rfl, ⟨t, ?_⟩, fun _ ↦ ?_⟩
    · rw [← ht, Disk.readText, Disk.readText, h.unread hp hl]
    · rw [hr, Source.contents_ofText]

/-- Keeping a source of a file and writing it keeps a run faithful. -/
theorem keep (h : r.Faithful d) (hp : p.IsCleanAbsolute) (hpath : s.path = p)
    (htext : ∃ t, d.readText p = .ok t) {disk : Disk} (ledger : Ledger)
    (hdry : r.summary.dryRun = true → disk = d)
    (hother : ∀ q : Path, q.IsCleanAbsolute → q ≠ p → disk.read q = r.disk.read q)
    (hwet : r.summary.dryRun = false → disk.read p = .ok (encode s.contents)) :
    Faithful { r.keep p.components s with disk, ledger } d where
  path hq hl := by
    rcases known_of_keep hp hq hl with ⟨rfl, rfl⟩ | ⟨-, hl⟩
    · exact hpath
    · exact h.path hq hl
  text hq hl := by
    rcases known_of_keep hp hq hl with ⟨rfl, -⟩ | ⟨-, hl⟩
    · exact htext
    · exact h.text hq hl
  unread {q} hq hl := by
    obtain ⟨hne, hl⟩ := unknown_of_keep hl
    exact (hother q hq hne).trans (h.unread hq hl)
  dry := hdry
  wet {q _} hw hq hl := by
    rcases known_of_keep hp hq hl with ⟨rfl, rfl⟩ | ⟨hne, hl⟩
    · exact hwet hw
    · rw [hother q hq hne, h.wet hw hq hl]

/-- An edited source of a file that is there can be saved, and nothing else changes. -/
theorem exists_saved (h : r.Faithful d) (hp : p.IsCleanAbsolute) (hf : r.disk.isFile p = true)
    (hpath : s.path = p) :
    ∃ disk, r.saved s = .ok disk ∧ (r.summary.dryRun = true → disk = d) ∧
      (∀ q : Path, q.IsCleanAbsolute → q ≠ p → disk.read q = r.disk.read q) ∧
      (r.summary.dryRun = false → disk.read p = .ok (encode s.contents)) := by
  cases hd : r.summary.dryRun with
  | true =>
    refine ⟨r.disk, ?_, fun _ ↦ h.dry hd, fun _ _ _ ↦ rfl, nofun⟩
    rw [saved, if_pos hd]
  | false =>
    obtain ⟨disk, hw, hr⟩ := Disk.exists_write hp hf (encode s.contents)
    refine ⟨disk, ?_, nofun, fun q hq hne ↦ ?_, fun _ ↦ ?_⟩
    · rw [saved, if_neg (by simp [hd]), Source.save, Disk.save, hpath, hw]
      rfl
    · rw [hr q hq, if_neg hne]
    · rw [hr p hp, if_pos rfl]

/-- The source of a change that is called for can be saved, and the run stays faithful. -/
theorem exists_amend (h : r.Faithful d) {f : Finding} (hf : f.file.IsCleanAbsolute) {n : Nat}
    {t : Treatment} (hplan : r.planFor f = .change s n t) :
    ∃ disk, r.saved (s.splice n t.left) = .ok disk ∧
      (r.amend f (s.splice n t.left) t disk).Faithful d := by
  obtain ⟨hfile, -, hs, row, -, -, -⟩ := eq_of_plan_change hplan
  obtain ⟨hpath, htext, -⟩ := h.of_sourceOf hf hs
  obtain ⟨disk, hsaved, hdry, hother, hwet⟩ :=
    h.exists_saved (s := s.splice n t.left) hf hfile hpath
  exact ⟨disk, hsaved, h.keep (s := s.splice n t.left) hf hpath htext _ hdry hother hwet⟩

/-- Carrying out the plan for a finding keeps a run faithful. -/
theorem perform (h : r.Faithful d) {f : Finding} (hf : f.file.IsCleanAbsolute) :
    (r.perform f (r.planFor f)).1.Faithful d := by
  cases hplan : r.planFor f with
  | refuse verdict => exact h
  | leave s remark =>
    obtain ⟨hpath, htext, hwet⟩ := h.of_sourceOf hf (eq_of_plan_leave hplan).2.1
    exact h.keep hf hpath htext r.ledger h.dry (fun _ _ _ ↦ rfl) hwet
  | change s n t =>
    obtain ⟨disk, hsaved, hafter⟩ := h.exists_amend hf hplan
    rw [perform_change hplan hsaved]
    exact hafter

/-- Noting a finding as met keeps a run faithful. -/
theorem meet (h : r.Faithful d) {f : Finding} : (r.meet f).Faithful d :=
  ⟨h.path, h.text, h.unread, h.dry, h.wet⟩

/-- The outcome of a finding keeps a run faithful. -/
theorem conclude {f : Finding} {done : Run × Verdict} (h : done.1.Faithful d) :
    (conclude f done).Faithful d where
  path := h.path
  text := h.text
  unread := h.unread
  dry hd := h.dry (by rwa [← dryRun_conclude f done])
  wet hw := h.wet (by rwa [← dryRun_conclude f done])

/-- A step keeps a run faithful. -/
theorem step (h : r.Faithful d) {f : Finding} (hf : f.file.IsCleanAbsolute) :
    (r.step f).Faithful d := by
  by_cases hi : r.Ignores f
  · rw [step_of_ignores hi]
    exact h
  · rw [step_of_not_ignores hi]
    exact (h.meet.perform hf).conclude

end Run.Faithful

/-- What holds at the start and is kept by every step holds of the whole run. -/
theorem run_induction {motive : Run → Prop} {d : Disk} {dryRun : Bool} {findings : List Finding}
    (start : motive (.start d dryRun))
    (step : ∀ r, motive r → ∀ f ∈ findings, motive (r.step f)) :
    motive (run d dryRun findings) := by
  rw [run]
  exact List.foldlRecOn findings Run.step start step

/-- A run is dry if it was asked to be. -/
theorem dryRun_run (d : Disk) (dryRun : Bool) (findings : List Finding) :
    (run d dryRun findings).summary.dryRun = dryRun :=
  run_induction (motive := fun r ↦ r.summary.dryRun = dryRun) rfl
    fun r hr f _ ↦ (r.dryRun_step f).trans hr

/-- In a run over clean absolute paths the disk and the sources agree. -/
theorem run_faithful (d : Disk) (dryRun : Bool) {findings : List Finding}
    (h : ∀ f ∈ findings, f.file.IsCleanAbsolute) : (run d dryRun findings).Faithful d :=
  run_induction (motive := fun r ↦ r.Faithful d) (.start d dryRun)
    fun _ hr f hf ↦ hr.step (h f hf)

end Spruce.Cleanup
