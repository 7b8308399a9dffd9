import Mathlib.Data.List.Nodup
import Spruce.Proofs.Cleanup.Ledger
import Spruce.Proofs.Cleanup.Plan
import Spruce.Proofs.Cleanup.Tracking

/-!
# Lines keep their identity

The ledger turns the number that a linter reported into a position in a source that has shrunk
since. It never takes one line for another: a cleanup does what the cleanup by tag does
(`clean_eq_track`). The two are tied together by `Run.Tracks`: the rows of a source are the tagged
rows, and the tags are the numbers that the ledger has not recorded.
-/

namespace Spruce.Cleanup

open Text Lint

/-- The action of a verdict. -/
def Verdict.action : Verdict → Action
  | .ok (action, _) => action
  | .error _ => .skipped

/-- What an outcome says was done is the action of the verdict. -/
theorem deed_outcomeOf (f : Finding) (v : Verdict) :
    (Run.outcomeOf f v).deed = ⟨f.file, f.line, f.name, v.action⟩ := by
  obtain _ | ⟨action, remark⟩ := v <;> rfl

namespace Run

/-- What a run that began with the disk `d` has of the files, as tagged rows. -/
structure Carries (r : Run) (d : Disk) (rows : Path → List TaggedRow) : Prop where
  /-- The ledger records lines of the file. -/
  deleted {p : Path} : p.IsCleanAbsolute →
    Ledger.AreLines (tagged d p).length (r.ledger.linesOf p.components)
  /-- The tags that are left are those that the ledger has not recorded. -/
  numbers {p : Path} : p.IsCleanAbsolute → (rows p).map TaggedRow.number =
    Ledger.present (tagged d p).length (r.ledger.linesOf p.components)
  /-- A file that is not known is as it was. -/
  unread {p : Path} : p.IsCleanAbsolute → r.sources.lookup p.components = none →
    rows p = tagged d p
  /-- A source consists of the tagged rows. -/
  known {p : Path} {s : Source} : p.IsCleanAbsolute →
    r.sources.lookup p.components = some s → s.rows = (rows p).map TaggedRow.row

namespace Carries

variable {r : Run} {d : Disk} {rows : Path → List TaggedRow} {p : Path} {s : Source} {f : Finding}

/-- A run that begins has the files as they stand on its disk. -/
theorem start (d : Disk) (dryRun : Bool) : (Run.start d dryRun).Carries d (tagged d) where
  deleted _ := .nil _
  numbers {p} _ := (map_number_tagged d p).trans (Ledger.present_nil _).symm
  unread _ _ := rfl
  known _ h := by cases h

/-- Tags differ. -/
theorem nodup (h : r.Carries d rows) (hp : p.IsCleanAbsolute) :
    ((rows p).map TaggedRow.number).Nodup := by
  rw [h.numbers hp]
  exact Ledger.nodup_present _ _

/-- The rows of a source at hand are the tagged rows. -/
theorem rows_eq (h : r.Carries d rows) (hr : r.Faithful d) (hp : p.IsCleanAbsolute)
    (hs : r.sourceOf p.components p = .ok s) : s.rows = (rows p).map TaggedRow.row := by
  rw [sourceOf] at hs
  split at hs
  · next known hl =>
    obtain rfl := Except.ok.inj hs
    exact h.known hp hl
  · next hl =>
    rw [load_congr (hr.unread hp hl)] at hs
    obtain ⟨t, ht, rfl⟩ := eq_ofText_of_load hs
    rw [h.unread hp hl, tagged, ht]
    exact (map_row_tagRows t).symm

/-- A file without a source at hand has no rows. -/
theorem rows_eq_nil (h : r.Carries d rows) (hr : r.Faithful d) (hp : p.IsCleanAbsolute)
    {fault : Fault} (hs : r.sourceOf p.components p = .error fault) : rows p = [] := by
  rw [sourceOf] at hs
  split at hs
  · cases hs
  · next hl =>
    rw [load_congr (hr.unread hp hl), Source.load] at hs
    rw [h.unread hp hl, tagged]
    cases ht : d.readText p with
    | ok t =>
      rw [ht] at hs
      cases hs
    | error e => rfl

/-- A file that is not there has no rows. -/
theorem rows_eq_nil_of_not_isFile (h : r.Carries d rows) (hr : r.Faithful d)
    (hp : p.IsCleanAbsolute) (hfile : r.disk.isFile p ≠ true) : rows p = [] := by
  have hread (t : Text) : d.readText p ≠ .ok t := by
    intro ht
    rw [hr.isFile_eq hp] at hfile
    exact hfile ((Disk.isFile_iff_read d p).mpr ⟨_, read_of_readText ht⟩)
  cases hl : r.sources.lookup p.components with
  | some s =>
    obtain ⟨t, ht⟩ := hr.text hp hl
    exact absurd ht (hread t)
  | none =>
    rw [h.unread hp hl, tagged]
    split
    · next t ht => exact absurd ht (hread t)
    · rfl

/-- No row has the tag of a deleted line. -/
theorem absent_of_currentLine? (h : r.Carries d rows) (hp : p.IsCleanAbsolute) {k : Nat}
    (hk : r.ledger.currentLine? p.components k = none) : ∀ l ∈ rows p, l.number ≠ k := by
  intro l hl he
  have hm : l.number ∈ (rows p).map TaggedRow.number := List.mem_map_of_mem hl
  rw [h.numbers hp, Ledger.mem_present, he] at hm
  exact hm.2 (Ledger.shifted?_eq_none.mp hk)

/-- A number that the ledger has a position for, and that no row has, is no line of the file. -/
theorem notMem_tagged (h : r.Carries d rows) (hp : p.IsCleanAbsolute) {k n : Nat}
    (hn : r.ledger.currentLine? p.components k = some n) (hk : ∀ l ∈ rows p, l.number ≠ k) :
    k ∉ (tagged d p).map TaggedRow.number := by
  intro hm
  have hpresent := Ledger.mem_present.mpr
    ⟨mem_numbers_tagged.mp hm, Ledger.notMem_of_shifted? hn⟩
  rw [← h.numbers hp] at hpresent
  obtain ⟨l, hl, he⟩ := List.mem_map.mp hpresent
  exact hk l hl he

/-- The position that the ledger gives a line is that of the row with its tag; where no row has the
tag, there is no line at the position. -/
theorem split_of_currentLine? (h : r.Carries d rows) (hp : p.IsCleanAbsolute)
    (hs : s.rows = (rows p).map TaggedRow.row) {k n : Nat}
    (hn : r.ledger.currentLine? p.components k = some n) :
    (∃ above l below, rows p = above ++ l :: below ∧ l.number = k ∧ above.length + 1 = n ∧
        s.row? n = some l.row) ∨
      (∀ l ∈ rows p, l.number ≠ k) ∧ s.row? n = none := by
  have hlen : (rows p).length =
      (Ledger.present (tagged d p).length (r.ledger.linesOf p.components)).length := by
    rw [← h.numbers hp, List.length_map]
  rcases Ledger.split_of_shifted? (h.deleted hp) hn with ⟨above, below, he, hl⟩ | ⟨hk, hout⟩
  · rw [← h.numbers hp] at he
    obtain ⟨above', rest, hrows, rfl, hrest⟩ := List.map_eq_append_iff.mp he
    obtain ⟨l, below', rfl, hnum, -⟩ := List.map_eq_cons_iff.mp hrest
    rw [List.length_map] at hl
    refine .inl ⟨above', l, below', hrows, hnum, hl, ?_⟩
    rw [← hl, Source.row?, hs, hrows, List.map_append, List.map_cons,
      List.getElem?_append_right (by simp)]
    simp
  · refine .inr ⟨fun l hl he ↦ hk ?_, ?_⟩
    · rw [← h.numbers hp, ← he]
      exact List.mem_map_of_mem hl
    · rw [← Option.not_isSome_iff_eq_none, Source.row?_isSome, Source.size, hs, List.length_map,
        hlen]
      omega

/-- The tags that are left after a row has been treated are those that are not recorded then. -/
theorem numbers_treatAt {above below : List TaggedRow} {l : TaggedRow} {n : Nat}
    {deleted : List Nat} (hd : Ledger.AreLines n deleted)
    (hn : (above ++ l :: below).map TaggedRow.number = Ledger.present n deleted) (name : Text) :
    Ledger.AreLines n ((treat l.row name).deleted l.number deleted) ∧
      (treatAt (above ++ l :: below) l.number name).map TaggedRow.number =
        Ledger.present n ((treat l.row name).deleted l.number deleted) := by
  have hnodup := hn ▸ Ledger.nodup_present n deleted
  rw [treatAt_split hnodup, Treatment.deleted]
  rcases (left_treat l.row name).1 with hl | ⟨new, hl⟩
  · rw [if_pos hl, hl]
    have hk : l.number ∈ Ledger.present n deleted := by
      rw [← hn, List.map_append, List.map_cons]
      exact List.mem_append_right _ List.mem_cons_self
    refine ⟨hd.cons hk, ?_⟩
    have habsent := absent_of_nodup hnodup
    rw [Ledger.present_cons, ← hn, List.map_nil, List.append_nil, List.map_append,
      List.map_append, List.map_cons, List.filter_append, List.filter_cons_of_neg (by simp),
      filter_number_of_absent habsent.1, filter_number_of_absent habsent.2]
  · rw [if_neg (by simp [hl]), hl]
    refine ⟨hd, ?_⟩
    rw [← hn]
    simp

/-- A finding is refused where no row has its tag. -/
theorem spared_of_refuse (h : r.Carries d rows) (hr : r.Faithful d) (hf : f.file.IsCleanAbsolute)
    {verdict : Verdict} (hplan : r.planFor f = .refuse verdict) :
    verdict.action = .skipped ∧ ∀ l ∈ rows f.file, l.number ≠ f.line := by
  rcases eq_of_plan_refuse hplan with ⟨hfile, rfl⟩ | ⟨-, hn, rfl⟩ | ⟨-, fault, hs, rfl⟩
  · rw [h.rows_eq_nil_of_not_isFile hr hf hfile]
    exact ⟨rfl, by simp⟩
  · exact ⟨rfl, h.absent_of_currentLine? hf hn⟩
  · rw [h.rows_eq_nil hr hf hs]
    exact ⟨rfl, by simp⟩

/-- A finding whose source is left as it is does nothing on its tag. -/
theorem spared_of_leave (h : r.Carries d rows) (hr : r.Faithful d) (hf : f.file.IsCleanAbsolute)
    {remark : Option Remark} (hplan : r.planFor f = .leave s remark) :
    s.rows = (rows f.file).map TaggedRow.row ∧
      treatAt (rows f.file) f.line f.name = rows f.file ∧
      actionAt (rows f.file) f.line f.name = .skipped := by
  obtain ⟨-, hs, n, hn, hrow⟩ := eq_of_plan_leave hplan
  have hrows := h.rows_eq hr hf hs
  refine ⟨hrows, ?_⟩
  rcases h.split_of_currentLine? hf hrows hn with ⟨above, l, below, hT, hl, -, hat⟩ | ⟨hl, -⟩
  · have hnodup := hT ▸ h.nodup hf
    rw [hat] at hrow
    obtain ⟨row, he, ha, -⟩ := hrow.resolve_left nofun
    obtain rfl := Option.some.inj he
    rw [hT, ← hl, treatAt_split hnodup, actionAt_split hnodup, (left_treat l.row f.name).2 ha]
    exact ⟨by simp, ha⟩
  · exact ⟨treatAt_of_absent hl f.name, actionAt_of_absent hl f.name⟩

/-- A change that is called for is made on the row with the tag of the finding. -/
theorem treated_of_change (h : r.Carries d rows) (hr : r.Faithful d) (hf : f.file.IsCleanAbsolute)
    {n : Nat} {t : Treatment} (hplan : r.planFor f = .change s n t) :
    (s.splice n t.left).rows = (treatAt (rows f.file) f.line f.name).map TaggedRow.row ∧
      actionAt (rows f.file) f.line f.name = t.action ∧
      Ledger.AreLines (tagged d f.file).length
        (t.deleted f.line (r.ledger.linesOf f.file.components)) ∧
      (treatAt (rows f.file) f.line f.name).map TaggedRow.number =
        Ledger.present (tagged d f.file).length
          (t.deleted f.line (r.ledger.linesOf f.file.components)) := by
  obtain ⟨-, hn, hs, row, hrow, rfl, -⟩ := eq_of_plan_change hplan
  have hrows := h.rows_eq hr hf hs
  rcases h.split_of_currentLine? hf hrows hn with ⟨above, l, below, hT, hl, hpos, hat⟩ | ⟨-, hno⟩
  · obtain rfl := Option.some.inj (hrow.symm.trans hat)
    have hnodup := hT ▸ h.nodup hf
    have hnumbers := hT ▸ h.numbers hf
    rw [hT, ← hl]
    refine ⟨?_, actionAt_split hnodup f.name, numbers_treatAt (h.deleted hf) hnumbers f.name⟩
    rw [hT, List.map_append, List.map_cons] at hrows
    rw [treatAt_split hnodup, Source.rows_splice hrows (by simpa using hpos)]
    simp [Function.comp_def]
  · rw [hno] at hrow
    cases hrow

/-- The ledger knows where a row stands in a source by the tag of the row. -/
theorem exists_position (h : r.Carries d rows) (hp : p.IsCleanAbsolute)
    (hs : s.rows = (rows p).map TaggedRow.row) {l : TaggedRow} (hl : l ∈ rows p) :
    ∃ n, r.ledger.currentLine? p.components l.number = some n ∧ s.row? n = some l.row := by
  cases hn : r.ledger.currentLine? p.components l.number with
  | none => exact absurd rfl (h.absent_of_currentLine? hp hn l hl)
  | some n =>
    rcases h.split_of_currentLine? hp hs hn with ⟨above, l', below, hr, hnum, -, hat⟩ | ⟨hno, -⟩
    · have hl' : l' ∈ rows p := by
        rw [hr]
        exact List.mem_append_right _ List.mem_cons_self
      have he : l' = l := List.inj_on_of_nodup_map (h.nodup hp) hl' hl hnum
      exact ⟨n, rfl, he ▸ hat⟩
    · exact absurd rfl (hno l hl)

/-- The ledger gives a line of a file the position of the row with its tag, and none where that row
has been deleted. -/
theorem currentLine?_eq (h : r.Carries d rows) (hp : p.IsCleanAbsolute) {l : TaggedRow}
    (hl : l ∈ tagged d p) : r.ledger.currentLine? p.components l.number =
      ((rows p).findIdx? fun l' ↦ l'.number = l.number).map (· + 1) := by
  cases hn : r.ledger.currentLine? p.components l.number with
  | none =>
    have habsent := h.absent_of_currentLine? hp hn
    rw [List.findIdx?_eq_none_iff.mpr (by simpa using habsent)]
    rfl
  | some n =>
    have hs : (⟨p, (rows p).map TaggedRow.row⟩ : Source).rows = (rows p).map TaggedRow.row := rfl
    rcases h.split_of_currentLine? hp hs hn with
      ⟨above, l', below, hr, hnum, hpos, -⟩ | ⟨hno, -⟩
    · have ha := (absent_of_nodup (hr ▸ h.nodup hp)).1
      have hnone : above.findIdx? (fun l' ↦ l'.number = l.number) = none :=
        List.findIdx?_eq_none_iff.mpr (by simpa [hnum] using ha)
      rw [hr, List.findIdx?_append, hnone, List.findIdx?_cons, if_pos (by simpa using hnum), ← hpos]
      simp
    · exact absurd (List.mem_map_of_mem hl) (h.notMem_tagged hp hn hno)

/-! ### Steps -/

/-- Noting a finding as met leaves the files. -/
theorem meet (h : r.Carries d rows) (f : Finding) : (r.meet f).Carries d rows :=
  ⟨h.deleted, h.numbers, h.unread, h.known⟩

/-- A run in which a source of a file has been kept has new tagged rows of that file. -/
theorem keep (h : r.Carries d rows) (hp : p.IsCleanAbsolute) (disk : Disk) {ledger : Ledger}
    {new : List TaggedRow} (hrows : s.rows = new.map TaggedRow.row)
    (hdeleted : Ledger.AreLines (tagged d p).length (ledger.linesOf p.components))
    (hnumbers : new.map TaggedRow.number =
      Ledger.present (tagged d p).length (ledger.linesOf p.components))
    (hother : ∀ q : Path, q.IsCleanAbsolute → q ≠ p →
      ledger.linesOf q.components = r.ledger.linesOf q.components) :
    Carries { r.keep p.components s with disk, ledger } d
      fun q ↦ if q = p then new else rows q where
  deleted {q} hq := by
    by_cases hqp : q = p
    · rw [hqp]
      exact hdeleted
    · dsimp only
      rw [hother q hq hqp]
      exact h.deleted hq
  numbers {q} hq := by
    by_cases hqp : q = p
    · rw [if_pos hqp, hqp]
      exact hnumbers
    · dsimp only
      rw [if_neg hqp, hother q hq hqp]
      exact h.numbers hq
  unread {q} hq hl := by
    obtain ⟨hne, hl⟩ := unknown_of_keep hl
    rw [if_neg hne]
    exact h.unread hq hl
  known {q _} hq hl := by
    rcases known_of_keep hp hq hl with ⟨rfl, rfl⟩ | ⟨hne, hl⟩
    · rw [if_pos rfl]
      exact hrows
    · rw [if_neg hne]
      exact h.known hq hl

/-- The lines that are recorded after a change. -/
theorem linesOf_amend (r : Run) (f : Finding) (s : Source) (t : Treatment) (disk : Disk)
    (file : FileKey) : (r.amend f s t disk).ledger.linesOf file =
      if file = f.file.components then t.deleted f.line (r.ledger.linesOf f.file.components)
      else r.ledger.linesOf file := by
  dsimp only [amend, Treatment.deleted]
  by_cases hl : t.left = []
  · rw [if_pos hl, if_pos hl, Ledger.linesOf_record]
  · rw [if_neg hl, if_neg hl]
    split
    · next hfile => rw [hfile]
    · rfl

/-- Carrying out the plan for a finding treats the row with its tag, and comes to the same. -/
theorem perform {T : Tracking} (h : r.Carries d T.rows) (hr : r.Faithful d)
    (hf : f.file.IsCleanAbsolute) :
    (r.perform f (r.planFor f)).1.Carries d (T.handle f).rows ∧
      (r.perform f (r.planFor f)).2.action = actionAt (T.rows f.file) f.line f.name := by
  cases hplan : r.planFor f with
  | refuse verdict =>
    obtain ⟨ha, habsent⟩ := h.spared_of_refuse hr hf hplan
    have hsame : (T.handle f).rows = T.rows := by
      funext q
      rw [Tracking.rows_handle]
      split
      · next hq => rw [treatAt_of_absent habsent, hq]
      · rfl
    rw [hsame, actionAt_of_absent habsent]
    exact ⟨h, ha⟩
  | leave s remark =>
    obtain ⟨hrows, hsame, ha⟩ := h.spared_of_leave hr hf hplan
    have hnumbers := h.numbers hf
    rw [← hsame] at hrows hnumbers
    exact ⟨h.keep hf r.disk hrows (h.deleted hf) hnumbers fun _ _ _ ↦ rfl, ha.symm⟩
  | change s n t =>
    obtain ⟨hrows, ha, hdeleted, hnumbers⟩ := h.treated_of_change hr hf hplan
    obtain ⟨disk, hsaved, -⟩ := hr.exists_amend hf hplan
    have hlines := linesOf_amend r f (s.splice n t.left) t disk
    have hat := hlines f.file.components
    rw [if_pos rfl] at hat
    rw [perform_change hplan hsaved]
    rw [← hat] at hdeleted hnumbers
    refine ⟨h.keep (s := s.splice n t.left) hf disk hrows hdeleted hnumbers fun q hq hne ↦ ?_,
      ha.symm⟩
    exact (hlines q.components).trans (if_neg (mt (hq.eq_of_components hf) hne))

end Carries

/-- A run stands where a cleanup by tag stands. -/
structure Tracks (r : Run) (d : Disk) (T : Tracking) : Prop where
  files : r.Carries d T.rows
  deeds : r.summary.outcomes.map Outcome.deed = T.deeds
  /-- A finding has been met when something has been done about it. -/
  met {f : Finding} : f.file.IsCleanAbsolute → (keyOf f ∈ r.met ↔
    ∃ deed ∈ T.deeds, deed.file = f.file ∧ deed.line = f.line ∧ deed.name = f.name)

namespace Tracks

variable {r : Run} {d : Disk} {T : Tracking} {f : Finding}

/-- A run and a cleanup by tag begin alike. -/
theorem start (d : Disk) (dryRun : Bool) : (Run.start d dryRun).Tracks d (.start d) where
  files := .start d dryRun
  deeds := rfl
  met _ := by simp [Run.start, Tracking.start]

/-- Both pass over the same findings. -/
theorem ignores_iff (h : r.Tracks d T) (hf : f.file.IsCleanAbsolute) :
    r.Ignores f ↔ T.Ignores f := by
  rw [Ignores, Tracking.Ignores, h.met hf]

/-- The verdict on a finding is recorded as what was done about it. -/
theorem conclude {done : Run × Verdict} (h : r.Tracks d T) (hf : f.file.IsCleanAbsolute)
    (hfiles : done.1.Carries d (T.handle f).rows) (hmet : done.1.met = keyOf f :: r.met)
    (hsummary : done.1.summary = r.summary)
    (haction : done.2.action = actionAt (T.rows f.file) f.line f.name) :
    (conclude f done).Tracks d (T.handle f) where
  files := ⟨hfiles.deleted, hfiles.numbers, hfiles.unread, hfiles.known⟩
  deeds := by
    have ho : (done.1.summary.record (outcomeOf f done.2)).outcomes =
      done.1.summary.outcomes ++ [outcomeOf f done.2] := rfl
    dsimp only [Run.conclude]
    rw [ho, hsummary, List.map_append, h.deeds, List.map_singleton, deed_outcomeOf, haction]
    rfl
  met {g} hg := by
    have hkey : keyOf g = keyOf f ↔ f.file = g.file ∧ f.line = g.line ∧ f.name = g.name := by
      rw [keyOf, keyOf, Prod.mk.injEq, Prod.mk.injEq, hg.components_inj hf, eq_comm,
        eq_comm (a := g.line), eq_comm (a := g.name)]
    have hmem : keyOf g ∈ (Run.conclude f done).met ↔ keyOf g = keyOf f ∨ keyOf g ∈ r.met := by
      rw [Run.conclude, hmet, List.mem_cons]
    rw [hmem, hkey, h.met hg, Tracking.handle, or_comm]
    simp only [List.mem_append, List.mem_singleton, or_and_right, exists_or, exists_eq_left]

/-- A step of the run is a step of the cleanup by tag. -/
theorem step (h : r.Tracks d T) (hr : r.Faithful d) (hf : f.file.IsCleanAbsolute) :
    (r.step f).Tracks d (T.step f) := by
  by_cases hi : r.Ignores f
  · rw [step_of_ignores hi, Tracking.step, if_pos ((h.ignores_iff hf).mp hi)]
    exact h
  · rw [step_of_not_ignores hi, Tracking.step, if_neg (mt (h.ignores_iff hf).mpr hi)]
    obtain ⟨hfiles, haction⟩ := (h.files.meet f).perform hr.meet hf
    exact h.conclude hf hfiles (frame_perform _ f _).1 (frame_perform _ f _).2 haction

end Tracks

end Run

/-- A run over clean absolute paths stands where the cleanup by tag stands. -/
theorem run_tracks (d : Disk) (dryRun : Bool) {findings : List Finding}
    (h : ∀ f ∈ findings, f.file.IsCleanAbsolute) :
    (run d dryRun findings).Tracks d (track d findings) := by
  have hruns : (run d dryRun findings).Tracks d (track d findings) ∧
      (run d dryRun findings).Faithful d := by
    refine List.foldl_rel (r := fun (r : Run) (T : Tracking) ↦ r.Tracks d T ∧ r.Faithful d)
      ⟨.start d dryRun, .start d dryRun⟩ ?_
    rintro f hf r T ⟨ht, hr⟩
    exact ⟨ht.step hr (h f hf), hr.step (h f hf)⟩
  exact hruns.1

/-- After a real run a file is as the cleanup by tag leaves it. -/
theorem Run.Tracks.read_eq {r : Run} {d : Disk} {T : Tracking} (h : r.Tracks d T)
    (hr : r.Faithful d) (hw : r.summary.dryRun = false) {p : Path} (hp : p.IsCleanAbsolute) :
    r.disk.read p = T.read d p := by
  rw [Tracking.read]
  cases hl : r.sources.lookup p.components with
  | some s =>
    obtain ⟨t, ht⟩ := hr.text hp hl
    rw [hr.wet hw hp hl, ht, Source.contents, h.files.known hp hl]
  | none =>
    rw [hr.unread hp hl]
    cases ht : d.readText p with
    | error e => rfl
    | ok t =>
      dsimp only
      rw [read_of_readText ht, h.files.unread hp hl, tagged, ht]
      dsimp only
      rw [map_row_tagRows, flatten_physicalLines]

/-- A real run leaves every file, and comes to the same actions, as the cleanup by tag. All along,
the rows of a source are the tagged rows; the ledger gives a line the position of the row with its
tag, if that row is left; and a line that no outcome names keeps its row. -/
theorem clean_eq_track (d : Disk) (findings : List Finding)
    (h : ∀ f ∈ findings, f.file.IsCleanAbsolute) :
    (∀ p : Path, p.IsCleanAbsolute →
      (clean d false findings).2.read p = (track d findings).read d p) ∧
    (clean d false findings).1.outcomes.map Outcome.deed = (track d findings).deeds ∧
    ∀ handled, handled <+: findings → ∀ (p : Path) (s : Source), p.IsCleanAbsolute →
      (run d false handled).sourceOf p.components p = .ok s →
        s.rows = ((track d handled).rows p).map TaggedRow.row ∧
        ∀ l ∈ tagged d p,
          (run d false handled).ledger.currentLine? p.components l.number =
            (((track d handled).rows p).findIdx? fun l' ↦ l'.number = l.number).map (· + 1) ∧
          ((∀ o ∈ (run d false handled).summary.outcomes, o.file = p → o.line ≠ l.number) →
            ∃ n, (run d false handled).ledger.currentLine? p.components l.number = some n ∧
              s.row? n = some l.row) := by
  have htracks := run_tracks d false h
  refine ⟨fun p hp ↦ ?_, htracks.deeds, fun handled hpre p s hp hs ↦ ?_⟩
  · exact htracks.read_eq (run_faithful d false h) (dryRun_run d false findings) hp
  · have hhandled : ∀ f ∈ handled, f.file.IsCleanAbsolute := fun f hf ↦ h f (hpre.subset hf)
    have ht := run_tracks d false hhandled
    have hrows := ht.files.rows_eq (run_faithful d false hhandled) hp hs
    refine ⟨hrows, fun l hl ↦ ⟨ht.files.currentLine?_eq hp hl, fun hno ↦ ?_⟩⟩
    refine ht.files.exists_position hp hrows (mem_rows_track d handled hl fun deed hd ↦ ?_)
    rw [← ht.deeds] at hd
    obtain ⟨o, ho, rfl⟩ := List.mem_map.mp hd
    exact hno o ho

/-- Lines 1 and 3 of a file, of which the first is deleted before the third moves up. -/
theorem clean_eq_track_shift :
    let p : Path := ⟨['/', 'a']⟩
    let d : Disk :=
      ⟨[([['a']], .file (encode "const b = 1\n\nconst [c, e] = g\n".toList) 420)], []⟩
    let findings : List Finding := [⟨p, 1, 7, ['b']⟩, ⟨p, 3, 8, ['c']⟩]
    (∀ f ∈ findings, f.file.IsCleanAbsolute) ∧
      (∀ q : Path, q.IsCleanAbsolute →
        (clean d false findings).2.read q = (track d findings).read d q) ∧
      (clean d false findings).1.outcomes.map Outcome.deed = (track d findings).deeds ∧
      ∀ handled, handled <+: findings → ∀ (q : Path) (s : Source), q.IsCleanAbsolute →
        (run d false handled).sourceOf q.components q = .ok s →
          s.rows = ((track d handled).rows q).map TaggedRow.row ∧
          ∀ l ∈ tagged d q,
            (run d false handled).ledger.currentLine? q.components l.number =
              (((track d handled).rows q).findIdx? fun l' ↦ l'.number = l.number).map (· + 1) ∧
            ((∀ o ∈ (run d false handled).summary.outcomes, o.file = q → o.line ≠ l.number) →
              ∃ n, (run d false handled).ledger.currentLine? q.components l.number = some n ∧
                s.row? n = some l.row) := by
  intro p d findings
  have h : ∀ f ∈ findings, f.file.IsCleanAbsolute := by decide
  exact ⟨h, clean_eq_track d findings h⟩

end Spruce.Cleanup
