import Spruce.Proofs.Cleanup.Identity

/-!
# Positions of lines

The ledger records different lines that a file had when the run began, and the source that the run
keeps of the file has lost just these (`Run.Carries.lineCount_eq`). So the position of a line is
found by taking off its number no more than the number is, no line that is left comes out at
position 0, and lines that are left keep their order (`run_positions`).
-/

namespace Spruce.Cleanup

open Text Lint

/-- The number of lines of a file; what is no text file has none. -/
def lineCount (d : Disk) (p : Path) : Nat :=
  match Source.load d p with
  | .ok s => s.size
  | .error _ => 0

private theorem length_tagged (d : Disk) (p : Path) : (tagged d p).length = lineCount d p := by
  unfold tagged lineCount Source.load
  cases d.readText p with
  | error e => rfl
  | ok t => exact (List.length_map _).symm.trans (congrArg List.length (map_row_tagRows t))

namespace Run.Carries

variable {r : Run} {d : Disk} {rows : Path → List TaggedRow} {p : Path} {s : Source}

/-- The lines on record are different lines of the file. -/
theorem areLines (h : r.Carries d rows) (hp : p.IsCleanAbsolute) :
    Ledger.AreLines (lineCount d p) (r.ledger.linesOf p.components) :=
  length_tagged d p ▸ h.deleted hp

/-- The tagged rows that are left and the lines on record are all lines of the file. -/
theorem length_rows_add (h : r.Carries d rows) (hp : p.IsCleanAbsolute) :
    (rows p).length + (r.ledger.linesOf p.components).length = lineCount d p := by
  have hall := Ledger.length_present_add_length (h.deleted hp)
  rwa [← h.numbers hp, List.length_map, length_tagged] at hall

/-- What a source lacks of the lines of its file is on record. -/
theorem lineCount_eq (h : r.Carries d rows) (hp : p.IsCleanAbsolute)
    (hs : r.sources.lookup p.components = some s) :
    lineCount d p = s.size + (r.ledger.linesOf p.components).length := by
  rw [Source.size, h.known hp hs, List.length_map]
  exact (h.length_rows_add hp).symm

/-- Nothing is on record of a file that has not been read. -/
theorem linesOf_eq_nil (h : r.Carries d rows) (hp : p.IsCleanAbsolute)
    (hs : r.sources.lookup p.components = none) : r.ledger.linesOf p.components = [] := by
  have hall := h.length_rows_add hp
  rw [h.unread hp hs, length_tagged] at hall
  exact List.length_eq_zero_iff.mp (by omega)

end Run.Carries

/-- All along a run over clean absolute paths, real or dry, the ledger records different lines that
a file had at first, and the source of the file has lost as many lines as are recorded. Where the
ledger takes the deleted lines above a line off its number, the difference is therefore exact; it is
at least 1 for a line that is left, and greater for a later line that is left. -/
theorem run_positions (d : Disk) (dryRun : Bool) (findings : List Finding)
    (h : ∀ f ∈ findings, f.file.IsCleanAbsolute) (p : Path) (hp : p.IsCleanAbsolute) :
    let r := run d dryRun findings
    let deleted := r.ledger.linesOf p.components
    Ledger.AreLines (lineCount d p) deleted ∧
      (∀ s, r.sources.lookup p.components = some s → lineCount d p = s.size + deleted.length) ∧
      (r.sources.lookup p.components = none → deleted = []) ∧
      (∀ k, (deleted.filter (· < k)).length ≤ k) ∧
      (∀ k, 1 ≤ k → k ∉ deleted → ∃ n, r.ledger.currentLine? p.components k = some n ∧ 1 ≤ n ∧
        n + (deleted.filter (· < k)).length = k) ∧
      ∀ k l m n, k < l → r.ledger.currentLine? p.components k = some m →
        r.ledger.currentLine? p.components l = some n → m < n := by
  intro r deleted
  have hfiles := (run_tracks d dryRun h).files
  have hlines := hfiles.areLines hp
  exact ⟨hlines, fun s hs ↦ hfiles.lineCount_eq hp hs, hfiles.linesOf_eq_nil hp,
    Ledger.length_above_le hlines.nodup, fun k hk hd ↦ Ledger.exists_shifted? hlines hk hd,
    fun k l m n hkl hm hn ↦ Ledger.shifted?_lt hlines.nodup hkl hm hn⟩

/-- Of three lines the first two are deleted, and the third one comes out at position 1. -/
theorem run_positions_shift :
    let p : Path := ⟨['/', 'a']⟩
    let d : Disk :=
      ⟨[([['a']], .file (encode "const b = 1\nconst c = 2\nconst [e] = g\n".toList) 420)], []⟩
    let findings : List Finding := [⟨p, 2, 7, ['c']⟩, ⟨p, 1, 7, ['b']⟩]
    let r := run d false findings
    let deleted := r.ledger.linesOf p.components
    (∀ f ∈ findings, f.file.IsCleanAbsolute) ∧ p.IsCleanAbsolute ∧ deleted = [1, 2] ∧
      lineCount d p = 3 ∧ Ledger.AreLines (lineCount d p) deleted ∧
      (∀ s, r.sources.lookup p.components = some s → lineCount d p = s.size + deleted.length) ∧
      (∀ k, (deleted.filter (· < k)).length ≤ k) ∧
      (∃ n, r.ledger.currentLine? p.components 3 = some n ∧ 1 ≤ n ∧
        n + (deleted.filter (· < 3)).length = 3) ∧
      ∀ k l m n, k < l → r.ledger.currentLine? p.components k = some m →
        r.ledger.currentLine? p.components l = some n → m < n := by
  intro p d findings r deleted
  have h : ∀ f ∈ findings, f.file.IsCleanAbsolute := by decide
  have hp : p.IsCleanAbsolute := by decide
  have hdeleted : deleted = [1, 2] := by decide +kernel
  obtain ⟨hlines, hknown, -, hle, hpos, hlt⟩ := run_positions d false findings h p hp
  have hleft : 3 ∉ deleted := by
    rw [hdeleted]
    decide
  exact ⟨h, hp, hdeleted, by decide +kernel, hlines, hknown, hle, hpos 3 (by decide) hleft, hlt⟩

end Spruce.Cleanup
