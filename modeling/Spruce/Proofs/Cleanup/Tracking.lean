import Spruce.Proofs.Cleanup.Treatment

/-!
# Cleanups by tag

A cleanup needs no ledger when every row carries the number that its line had at first: the line of
a finding is then the row with that tag, wherever it stands (`Tracking.handle`). There is no disk to
write and no position to compute, so this is the plain account of what a cleanup is to do.
-/

namespace Spruce.Cleanup

open Text Lint

/-- A row under the number that its line had at first. -/
structure TaggedRow where
  number : Nat
  row : Text
  deriving DecidableEq, Repr

/-- The rows of a text under their numbers. -/
def tagRows (t : Text) : List TaggedRow :=
  (physicalLines t).zipIdx 1 |>.map fun (row, n) ↦ ⟨n, row⟩

/-- The rows of a file under their numbers; a file that is no text has none. -/
def tagged (d : Disk) (p : Path) : List TaggedRow :=
  match d.readText p with
  | .ok t => tagRows t
  | .error _ => []

/-- What was done about a finding, whatever the remark. -/
structure Deed where
  file : Path
  line : Nat
  name : Text
  action : Action
  deriving DecidableEq, Repr

/-- What an outcome says was done. -/
def Outcome.deed (o : Outcome) : Deed := ⟨o.file, o.line, o.name, o.action⟩

/-- The tagged rows of every file, and what was done so far. -/
structure Tracking where
  rows : Path → List TaggedRow
  deeds : List Deed

/-- The rows after the row with a tag, and no other, has been treated. -/
def treatAt (rows : List TaggedRow) (k : Nat) (name : Text) : List TaggedRow :=
  rows.flatMap fun l ↦
    if l.number = k then (treat l.row name).left.map (TaggedRow.mk k) else [l]

/-- What is done about a name on the row with a tag. A row that never was, or has been deleted, is
skipped. -/
def actionAt (rows : List TaggedRow) (k : Nat) (name : Text) : Action :=
  match rows.find? fun l ↦ l.number = k with
  | none => .skipped
  | some l => (treat l.row name).action

namespace Tracking

/-- Every file is as it stands on a disk, and nothing has been done. -/
def start (d : Disk) : Tracking := ⟨tagged d, []⟩

/-- Whether a finding is passed over: its name begins with an underscore, or something has been
done about it. -/
def Ignores (T : Tracking) (f : Finding) : Prop :=
  f.name.head? = some '_' ∨
    ∃ deed ∈ T.deeds, deed.file = f.file ∧ deed.line = f.line ∧ deed.name = f.name

instance (T : Tracking) (f : Finding) : Decidable (T.Ignores f) :=
  inferInstanceAs (Decidable (_ ∨ _))

/-- The finding is handled on the row with its number. -/
def handle (T : Tracking) (f : Finding) : Tracking where
  rows p := if p = f.file then treatAt (T.rows f.file) f.line f.name else T.rows p
  deeds := T.deeds ++ [⟨f.file, f.line, f.name, actionAt (T.rows f.file) f.line f.name⟩]

/-- Handling a finding treats the row with its number in its file, and no row of another file. -/
theorem rows_handle (T : Tracking) (f : Finding) (p : Path) : (T.handle f).rows p =
    if p = f.file then treatAt (T.rows f.file) f.line f.name else T.rows p := rfl

/-- The cleanup after a finding. -/
def step (T : Tracking) (f : Finding) : Tracking := if T.Ignores f then T else T.handle f

/-- What a file of the first disk `d` has in the end: its rows one after another, or what it had if
it is no text. -/
def read (T : Tracking) (d : Disk) (p : Path) : Except IoError ByteArray :=
  match d.readText p with
  | .ok _ => .ok (encode ((T.rows p).map TaggedRow.row).flatten)
  | .error _ => d.read p

end Tracking

/-- The cleanup by tag of all findings. -/
def track (d : Disk) (findings : List Finding) : Tracking :=
  findings.foldl Tracking.step (.start d)

/-! ### Tags -/

/-- Without the tags, the rows of a text are its physical lines. -/
theorem map_row_tagRows (t : Text) : (tagRows t).map TaggedRow.row = physicalLines t := by
  rw [tagRows, List.map_map]
  exact List.zipIdx_map_fst 1 (physicalLines t)

private theorem map_number_tagRows (t : Text) :
    (tagRows t).map TaggedRow.number = List.range' 1 (tagRows t).length := by
  rw [tagRows, List.map_map, List.length_map, List.length_zipIdx]
  exact List.zipIdx_map_snd 1 (physicalLines t)

/-- The tags of a file are the numbers from 1 on. -/
theorem map_number_tagged (d : Disk) (p : Path) :
    (tagged d p).map TaggedRow.number = List.range' 1 (tagged d p).length := by
  unfold tagged
  split
  · exact map_number_tagRows _
  · rfl

/-- The numbers of the lines that a file has are its tags. -/
theorem mem_numbers_tagged {d : Disk} {p : Path} {k : Nat} :
    k ∈ (tagged d p).map TaggedRow.number ↔ 1 ≤ k ∧ k ≤ (tagged d p).length := by
  rw [map_number_tagged, List.mem_range'_1]
  omega

/-! ### Treating a tagged row -/

variable {rows above below : List TaggedRow} {l : TaggedRow} {k : Nat}

private theorem treatAt_append (above below : List TaggedRow) (k : Nat) (name : Text) :
    treatAt (above ++ below) k name = treatAt above k name ++ treatAt below k name := by
  rw [treatAt, List.flatMap_append]
  rfl

/-- The first row is treated if it has the tag, and the others are treated by themselves. -/
theorem treatAt_cons (l : TaggedRow) (rows : List TaggedRow) (k : Nat) (name : Text) :
    treatAt (l :: rows) k name =
      (if l.number = k then (treat l.row name).left.map (TaggedRow.mk k) else [l]) ++
        treatAt rows k name := by
  rw [treatAt, List.flatMap_cons]
  rfl

/-- Without a row of that tag, nothing changes. -/
theorem treatAt_of_absent (h : ∀ l ∈ rows, l.number ≠ k) (name : Text) :
    treatAt rows k name = rows := by
  induction rows with
  | nil => rfl
  | cons l rows ih =>
    rw [treatAt_cons, if_neg (h l List.mem_cons_self),
      ih fun l' hl' ↦ h l' (List.mem_cons_of_mem l hl')]
    rfl

/-- Without a row of that tag, nothing is done. -/
theorem actionAt_of_absent (h : ∀ l ∈ rows, l.number ≠ k) (name : Text) :
    actionAt rows k name = .skipped := by
  rw [actionAt, List.find?_eq_none.mpr (by simpa using h)]

/-- Without a row of that tag, there is no such tag to take out. -/
theorem filter_number_of_absent (h : ∀ l ∈ rows, l.number ≠ k) :
    (rows.map TaggedRow.number).filter (· ≠ k) = rows.map TaggedRow.number := by
  apply List.filter_eq_self.mpr
  intro j hj
  obtain ⟨l, hl, rfl⟩ := List.mem_map.mp hj
  simpa using h l hl

/-- Where tags differ, rows above and below a tagged row have other tags. -/
theorem absent_of_nodup (h : ((above ++ l :: below).map TaggedRow.number).Nodup) :
    (∀ l' ∈ above, l'.number ≠ l.number) ∧ ∀ l' ∈ below, l'.number ≠ l.number := by
  rw [List.map_append, List.map_cons, List.nodup_append] at h
  obtain ⟨-, hb, hd⟩ := h
  refine ⟨fun l' hl' ↦ hd _ (List.mem_map_of_mem hl') _ List.mem_cons_self, fun l' hl' he ↦ ?_⟩
  exact (List.nodup_cons.mp hb).1 (he ▸ List.mem_map_of_mem hl')

/-- Where tags differ, the row with a tag is replaced by what its treatment leaves. -/
theorem treatAt_split (h : ((above ++ l :: below).map TaggedRow.number).Nodup) (name : Text) :
    treatAt (above ++ l :: below) l.number name =
      above ++ (treat l.row name).left.map (TaggedRow.mk l.number) ++ below := by
  obtain ⟨ha, hb⟩ := absent_of_nodup h
  rw [treatAt_append, treatAt_cons, if_pos rfl, treatAt_of_absent ha, treatAt_of_absent hb,
    List.append_assoc]

/-- Where tags differ, what is done on a tag is done on its row. -/
theorem actionAt_split (h : ((above ++ l :: below).map TaggedRow.number).Nodup) (name : Text) :
    actionAt (above ++ l :: below) l.number name = (treat l.row name).action := by
  have ha := (absent_of_nodup h).1
  have hn : above.find? (fun l' ↦ l'.number = l.number) = none :=
    List.find?_eq_none.mpr (by simpa using ha)
  rw [actionAt, List.find?_append, hn, Option.none_or, List.find?_cons_of_pos (by simp)]

/-- A row with another tag stays. -/
theorem mem_treatAt_of_ne (hl : l ∈ rows) (hk : l.number ≠ k) (name : Text) :
    l ∈ treatAt rows k name :=
  List.mem_flatMap.mpr ⟨l, hl, by rw [if_neg hk]; exact List.mem_singleton_self l⟩

/-- A row stays as it was as long as nothing has been done on its line. -/
theorem mem_rows_track (d : Disk) (findings : List Finding) {p : Path} (hl : l ∈ tagged d p)
    (h : ∀ deed ∈ (track d findings).deeds, deed.file = p → deed.line ≠ l.number) :
    l ∈ (track d findings).rows p := by
  revert h
  refine List.foldlRecOn (motive := fun T : Tracking ↦
    (∀ deed ∈ T.deeds, deed.file = p → deed.line ≠ l.number) → l ∈ T.rows p)
    findings Tracking.step (fun _ ↦ hl) fun T ih f _ ↦ ?_
  rw [Tracking.step]
  split
  · exact ih
  · intro h
    have hstays := ih fun deed hd ↦ h deed (List.mem_append_left _ hd)
    by_cases hp : p = f.file
    · have hk := h _ (List.mem_append_right _ (List.mem_singleton_self _)) hp.symm
      rw [Tracking.rows_handle, if_pos hp]
      exact mem_treatAt_of_ne (hp ▸ hstays) (Ne.symm hk) f.name
    · rw [Tracking.rows_handle, if_neg hp]
      exact hstays

end Spruce.Cleanup
