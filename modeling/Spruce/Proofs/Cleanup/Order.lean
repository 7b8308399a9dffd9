import Spruce.Proofs.Cleanup.Identity

/-!
# The order of findings

What becomes of a line depends on the findings of that line only, and on their order
(`onLine_track`). Findings of different lines may come in any order: the files are left alike and
the same is done about each name (`clean_reorder`).
-/

namespace Spruce.Cleanup

open Text Lint

/-- The findings that name a line of a file, in order. -/
def findingsOn (p : Path) (k : Nat) (findings : List Finding) : List Finding :=
  findings.filter fun f ↦ f.file = p ∧ f.line = k

/-- The same findings in another order, in which the findings of each line come as before. -/
structure Reorders (findings others : List Finding) : Prop where
  perm : findings.Perm others
  onLine (p : Path) (k : Nat) : findingsOn p k findings = findingsOn p k others

/-- The action on the finding of a name on a line, if there was one. -/
def Summary.action? (s : Summary) (p : Path) (k : Nat) (name : Text) : Option Action :=
  (s.outcomes.find? fun o ↦ o.file = p ∧ o.line = k ∧ o.name = name).map Outcome.action

/-! ### One line -/

variable {rows rows' : List TaggedRow} {k : Nat}

/-- The rows with a tag. -/
def rowsOn (rows : List TaggedRow) (k : Nat) : List TaggedRow := rows.filter fun l ↦ l.number = k

/-- The rows with a tag are those above and those below. -/
theorem rowsOn_append (above below : List TaggedRow) (k : Nat) :
    rowsOn (above ++ below) k = rowsOn above k ++ rowsOn below k := List.filter_append ..

/-- A first row counts if it has the tag. -/
theorem rowsOn_cons (l : TaggedRow) (rows : List TaggedRow) (k : Nat) :
    rowsOn (l :: rows) k = if l.number = k then l :: rowsOn rows k else rowsOn rows k := by
  rw [rowsOn, List.filter_cons]
  simp only [decide_eq_true_eq]
  rfl

private theorem rowsOn_map_mk (texts : List Text) (j k : Nat) :
    rowsOn (texts.map (TaggedRow.mk j)) k = if j = k then texts.map (TaggedRow.mk j) else [] := by
  by_cases hj : j = k
  · rw [if_pos hj, rowsOn, List.filter_eq_self.mpr (by simp [hj])]
  · rw [if_neg hj, rowsOn, List.filter_eq_nil_iff.mpr (by simp [hj])]

/-- Treating the row with a tag does to the rows with that tag what it does to them alone. -/
theorem rowsOn_treatAt (rows : List TaggedRow) (k : Nat) (name : Text) :
    rowsOn (treatAt rows k name) k = treatAt (rowsOn rows k) k name := by
  induction rows with
  | nil => rfl
  | cons l rows ih =>
    rw [treatAt_cons, rowsOn_append, ih, rowsOn_cons]
    by_cases hk : l.number = k
    · rw [if_pos hk, if_pos hk, rowsOn_map_mk, if_pos rfl, treatAt_cons, if_pos hk]
    · rw [if_neg hk, if_neg hk, rowsOn_cons, if_neg hk]
      rfl

/-- Treating the row with a tag does nothing to the rows with another tag. -/
theorem rowsOn_treatAt_of_ne (rows : List TaggedRow) {j : Nat} (hj : j ≠ k) (name : Text) :
    rowsOn (treatAt rows j name) k = rowsOn rows k := by
  induction rows with
  | nil => rfl
  | cons l rows ih =>
    rw [treatAt_cons, rowsOn_append, ih]
    by_cases hl : l.number = j
    · rw [if_pos hl, rowsOn_map_mk, if_neg hj, rowsOn_cons, if_neg (hl ▸ hj)]
      rfl
    · rw [if_neg hl, ← rowsOn_append]
      rfl

/-- What is done on a tag is done on the rows with that tag. -/
theorem actionAt_rowsOn (rows : List TaggedRow) (k : Nat) (name : Text) :
    actionAt (rowsOn rows k) k name = actionAt rows k name := by
  rw [actionAt, actionAt, rowsOn, List.find?_filter]
  simp only [decide_eq_true_eq, and_self]

/-- Rows in the order of their tags are known from the rows with each tag. -/
theorem eq_of_rowsOn_eq (h : (rows.map TaggedRow.number).Pairwise (· < ·))
    (h' : (rows'.map TaggedRow.number).Pairwise (· < ·))
    (heq : ∀ k, rowsOn rows k = rowsOn rows' k) : rows = rows' := by
  have hmem (l : TaggedRow) : l ∈ rows ↔ l ∈ rows' := by
    have hon {rows : List TaggedRow} : l ∈ rowsOn rows l.number ↔ l ∈ rows := by
      simp [rowsOn]
    rw [← hon, heq, hon]
  rw [List.pairwise_map] at h h'
  have hne {l l' : TaggedRow} (hlt : l.number < l'.number) : l ≠ l' := by
    rintro rfl
    exact Nat.lt_irrefl _ hlt
  have hp : rows.Perm rows' :=
    (List.perm_ext_iff_of_nodup (h.imp hne) (h'.imp hne)).mpr hmem
  refine hp.eq_of_pairwise (fun l l' _ _ hlt hgt ↦ ?_) h h'
  exact absurd (Nat.lt_trans hlt hgt) (Nat.lt_irrefl _)

namespace Tracking

/-- What a cleanup by tag has on a line: the rows with its tag, and what was done about it. -/
def onLine (T : Tracking) (p : Path) (k : Nat) : List TaggedRow × List Deed :=
  (rowsOn (T.rows p) k, T.deeds.filter fun deed ↦ deed.file = p ∧ deed.line = k)

variable {T T' : Tracking} {p : Path} {f : Finding}

/-- Whether a finding is passed over depends on its line only. -/
theorem ignores_iff_onLine (T : Tracking) (f : Finding) : T.Ignores f ↔
    f.name.head? = some '_' ∨ ∃ deed ∈ (T.onLine f.file f.line).2, deed.name = f.name := by
  simp only [Ignores, onLine, List.mem_filter, decide_eq_true_eq, and_assoc]

/-- A finding of another line does nothing on a line. -/
theorem onLine_step_of_not (h : ¬ (f.file = p ∧ f.line = k)) :
    (T.step f).onLine p k = T.onLine p k := by
  rw [step]
  split
  · rfl
  · have hrows : rowsOn ((T.handle f).rows p) k = rowsOn (T.rows p) k := by
      rw [rows_handle]
      split
      · next hp =>
        rw [← hp]
        exact rowsOn_treatAt_of_ne _ (fun hk ↦ h ⟨hp.symm, hk⟩) f.name
      · rfl
    rw [onLine, hrows, handle, onLine, List.filter_append,
      List.filter_cons_of_neg (by simpa using h), List.filter_nil, List.append_nil]

/-- What a finding does on its line depends on that line only. -/
theorem onLine_step (h : T.onLine f.file f.line = T'.onLine f.file f.line) :
    (T.step f).onLine f.file f.line = (T'.step f).onLine f.file f.line := by
  have hi : T.Ignores f ↔ T'.Ignores f := by
    rw [ignores_iff_onLine, ignores_iff_onLine, h]
  obtain ⟨hrows, hdeeds⟩ := Prod.mk.inj h
  by_cases hT : T.Ignores f
  · rw [step, step, if_pos hT, if_pos (hi.mp hT), h]
  · rw [step, step, if_neg hT, if_neg (mt hi.mpr hT), onLine, onLine, rows_handle, rows_handle,
      if_pos rfl, if_pos rfl, rowsOn_treatAt, rowsOn_treatAt, hrows, handle, handle]
    dsimp only
    rw [List.filter_append, List.filter_append, hdeeds, ← actionAt_rowsOn, hrows, actionAt_rowsOn]

end Tracking

/-- What becomes of a line depends on the findings of that line only. -/
theorem onLine_track (d : Disk) (findings : List Finding) (p : Path) (k : Nat) :
    (track d findings).onLine p k = (track d (findingsOn p k findings)).onLine p k := by
  have hfold (T T' : Tracking) (h : T.onLine p k = T'.onLine p k) :
      (findings.foldl Tracking.step T).onLine p k =
        ((findingsOn p k findings).foldl Tracking.step T').onLine p k := by
    induction findings generalizing T T' with
    | nil => exact h
    | cons f findings ih =>
      rw [findingsOn, List.foldl_cons]
      by_cases hf : f.file = p ∧ f.line = k
      · rw [List.filter_cons_of_pos (by simpa using hf), List.foldl_cons]
        obtain ⟨rfl, rfl⟩ := hf
        exact ih _ _ (Tracking.onLine_step h)
      · rw [List.filter_cons_of_neg (by simpa using hf)]
        exact ih _ _ ((Tracking.onLine_step_of_not hf).trans h)
  exact hfold _ _ rfl

/-! ### All lines -/

/-- The action on a name is found among what was done about its line. -/
theorem Run.Tracks.action?_eq {r : Run} {d : Disk} {T : Tracking} (h : r.Tracks d T) (p : Path)
    (k : Nat) (name : Text) : r.summary.action? p k name =
      ((T.onLine p k).2.find? fun deed ↦ deed.name = name).map Deed.action := by
  rw [Summary.action?, Tracking.onLine, ← h.deeds, List.find?_filter, List.find?_map,
    Option.map_map]
  simp only [Function.comp_def, Outcome.deed, decide_eq_true_eq, and_assoc]
  rfl

/-- Findings of different lines may come in any order: every file is left with the same content,
and the same is done about each name. -/
theorem clean_reorder (d : Disk) (dryRun : Bool) (findings others : List Finding)
    (h : ∀ f ∈ findings, f.file.IsCleanAbsolute) (hr : Reorders findings others) :
    (∀ p : Path, p.IsCleanAbsolute →
      (clean d dryRun findings).2.read p = (clean d dryRun others).2.read p) ∧
    ∀ p k name, (clean d dryRun findings).1.action? p k name =
      (clean d dryRun others).1.action? p k name := by
  have h' : ∀ f ∈ others, f.file.IsCleanAbsolute := fun f hf ↦ h f (hr.perm.mem_iff.mpr hf)
  have ht := run_tracks d dryRun h
  have ht' := run_tracks d dryRun h'
  have hf := run_faithful d dryRun h
  have hf' := run_faithful d dryRun h'
  have honline (p : Path) (k : Nat) :
      (track d findings).onLine p k = (track d others).onLine p k := by
    rw [onLine_track, hr.onLine, ← onLine_track]
  have hrows (p : Path) (hp : p.IsCleanAbsolute) :
      (track d findings).rows p = (track d others).rows p := by
    refine eq_of_rowsOn_eq ?_ ?_ fun k ↦ congrArg Prod.fst (honline p k)
    · rw [ht.files.numbers hp]
      exact Ledger.pairwise_present _ _
    · rw [ht'.files.numbers hp]
      exact Ledger.pairwise_present _ _
  constructor
  · intro p hp
    dsimp only [clean]
    cases dryRun with
    | true => rw [hf.dry (dryRun_run d true findings), hf'.dry (dryRun_run d true others)]
    | false =>
      rw [ht.read_eq hf (dryRun_run d false findings) hp,
        ht'.read_eq hf' (dryRun_run d false others) hp, Tracking.read, Tracking.read, hrows p hp]
  · intro p k name
    dsimp only [clean]
    rw [ht.action?_eq, ht'.action?_eq, honline]

/-- Two lines that are deleted, from the top or from the bottom. -/
theorem clean_reorder_swap :
    let p : Path := ⟨['/', 'a']⟩
    let d : Disk := ⟨[([['a']], .file (encode "const b = 1\nconst c = 2\n".toList) 420)], []⟩
    let first : Finding := ⟨p, 1, 7, ['b']⟩
    let second : Finding := ⟨p, 2, 7, ['c']⟩
    (∀ f ∈ [first, second], f.file.IsCleanAbsolute) ∧
      Reorders [first, second] [second, first] ∧
      (∀ q : Path, q.IsCleanAbsolute →
        (clean d false [first, second]).2.read q = (clean d false [second, first]).2.read q) ∧
      ∀ q k name, (clean d false [first, second]).1.action? q k name =
        (clean d false [second, first]).1.action? q k name := by
  intro p d first second
  have h : ∀ f ∈ [first, second], f.file.IsCleanAbsolute := by decide
  have hr : Reorders [first, second] [second, first] := by
    refine ⟨.swap second first [], fun q k ↦ ?_⟩
    by_cases hk : k = 1
    · simp [findingsOn, List.filter_cons, first, second, hk]
    · simp [findingsOn, List.filter_cons, first, second, Ne.symm hk]
  exact ⟨h, hr, clean_reorder d false _ _ h hr⟩

end Spruce.Cleanup
