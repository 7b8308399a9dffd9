import Spruce.Proofs.Disk.Files
import Spruce.Proofs.Path.Parent

/-!
# Files at any paths

However the path of a file is spelled, writing to it replaces the file it leads to
(`write_of_locate`), which succeeds where the path ends in a name (`write_eq_put`), and what was
written is read back there (`readText_of_write`).
-/

namespace Spruce.Disk

open Spruce.Path

variable {d after : Disk} {p : Path} {place : Location} {old content : ByteArray} {mode : Nat}

/-! ### Ways through directories -/

/-- A step `.` leads from a directory to itself. -/
theorem follow_here {start other : Location} (h : d.follow start [['.']] = .ok other) :
    other = start ∧ d.node? start = some .directory := by
  simp only [follow] at h
  split at h
  · cases h
  · cases h
  · next hd => exact ⟨(Except.ok.inj h).symm, hd⟩

private theorem follow_replicate_here {start other : Location} {n : Nat}
    (h : d.follow start (List.replicate n ['.']) = .ok other) : other = start := by
  induction n generalizing start with
  | zero => exact (Except.ok.inj h).symm
  | succ n ih =>
    have hsplit : d.follow start ([['.']] ++ List.replicate n ['.']) = .ok other := h
    obtain ⟨between, hfirst, hrest⟩ := exists_follow_of_append hsplit
    rw [ih hrest, (follow_here hfirst).1]

/-- A step that is a name leads from a directory to a place in it. -/
theorem follow_name {start other : Location} {name : Text} (hn : IsName name)
    (h : d.follow start [name] = .ok other) :
    other = start ++ [name] ∧ d.node? start = some .directory := by
  simp only [follow, if_neg hn.2.2.1, if_neg hn.2.2.2] at h
  split at h
  · cases h
  · cases h
  · next hd => exact ⟨(Except.ok.inj h).symm, hd⟩

/-! ### Where a file is written -/

/-- What is located has a spelling, and the pieces of the path lead to it. -/
theorem follow_of_locate {n : Node} (h : d.locate p = .ok (place, n)) :
    p.spelling ≠ [] ∧ d.follow (if p.isAbsolute then [] else d.current) p.pieces = .ok place := by
  simp only [locate, List.isEmpty_iff] at h
  split at h
  · cases h
  · next hne =>
    split at h
    · cases h
    · split at h
      · cases h
      · next other hf =>
        refine ⟨hne, hf.trans ?_⟩
        split at h
        · cases h
        · rw [(Prod.mk.inj (Except.ok.inj h)).1]
        · split at h
          · cases h
          · rw [(Prod.mk.inj (Except.ok.inj h)).1]

/-- What `locate` finds out about a file. -/
theorem locate_file_iff : d.locate p = .ok (place, .file old mode) ↔
    p.spelling ≠ [] ∧ '\x00' ∉ p.spelling ∧ p.spelling.getLast? ≠ some '/' ∧
      d.follow (if p.isAbsolute then [] else d.current) p.pieces = .ok place ∧
      d.node? place = some (.file old mode) := by
  simp only [locate, List.isEmpty_iff, List.contains_iff_mem]
  split
  · next he => simp [he]
  · next he =>
    split
    · next hnul => simp [hnul]
    · next hnul =>
      split
      · next hf => simp [hf]
      · next other hf =>
        constructor
        · intro h
          split at h
          · cases h
          · cases h
          · next content m hd =>
            split at h
            · cases h
            · next hl =>
              obtain ⟨rfl, hn⟩ := Prod.mk.inj (Except.ok.inj h)
              exact ⟨he, hnul, hl, hf, hn ▸ hd⟩
        · rintro ⟨-, -, hl, hfollow, hd⟩
          obtain rfl : other = place := Except.ok.inj (hf.symm.trans hfollow)
          simp only [hd, if_neg hl]

private theorem locate_directory (hne : p.spelling ≠ []) (hnul : '\x00' ∉ p.spelling)
    (hf : d.follow (if p.isAbsolute then [] else d.current) p.pieces = .ok place)
    (hd : d.node? place = some .directory) : d.locate p = .ok (place, .directory) := by
  simp only [locate, List.isEmpty_iff, List.contains_iff_mem, if_neg hne, if_neg hnul, hf, hd]

private theorem locate_holder_alone {name : Text} (hn : IsName name)
    (hd : d.node? d.current = some .directory) :
    d.locate (holder ⟨name⟩) = .ok (d.current, .directory) := by
  have hpieces : pieces ⟨['.']⟩ = [['.']] := rfl
  have hpoint : Path.isAbsolute ⟨['.']⟩ = false := rfl
  rw [holder_name hn]
  refine locate_directory (List.cons_ne_nil _ _) (by decide) ?_ hd
  rw [hpieces, hpoint, if_neg Bool.false_ne_true]
  simp [follow, hd]

private theorem locate_holder_after {name t : Text} {above : Location} (hn : IsName name)
    (hnul : '\x00' ∉ t ++ '/' :: name)
    (hf : d.follow (if Path.isAbsolute ⟨t ++ '/' :: name⟩ then [] else d.current) (pieces ⟨t⟩) =
      .ok above)
    (hd : d.node? above = some .directory) :
    d.locate (holder ⟨t ++ '/' :: name⟩) = .ok (above, .directory) := by
  obtain ⟨n, htrail, ⟨rest, hprefix⟩, hne⟩ := exists_holder (t := t) hn
  have hspell : t ++ '/' :: name = (holder ⟨t ++ '/' :: name⟩).spelling ++ (rest ++ name) := by
    rw [← List.append_assoc, hprefix, List.append_assoc]
    rfl
  have habsolute : (holder ⟨t ++ '/' :: name⟩).isAbsolute =
      Path.isAbsolute ⟨t ++ '/' :: name⟩ := by
    have hfront := isAbsolute_append hne (rest ++ name)
    rw [← hspell] at hfront
    exact hfront.symm
  refine locate_directory hne (fun hm ↦ hnul ?_) ?_ hd
  · rw [hspell]
    exact List.mem_append_left _ hm
  · rw [htrail] at hf
    obtain ⟨between, hbetween, hrest⟩ := exists_follow_of_append hf
    rw [habsolute, follow_replicate_here hrest]
    exact hbetween

/-- The directory that holds a file is where the path of the file leads without its last name. -/
theorem locate_holder {name : Text} (h : d.locate p = .ok (place, .file old mode))
    (hn : p.fileName? = some name) :
    ∃ above, d.locate (holder p) = .ok (above, .directory) ∧ place = above ++ [name] := by
  obtain ⟨hne, hnul, hl, hfollow, hfile⟩ := locate_file_iff.mp h
  obtain ⟨spelling⟩ := p
  obtain ⟨front, last, rfl, hlast, hslash, hfront, hpieces⟩ := exists_last_piece hne hl
  rw [hpieces] at hfollow
  obtain ⟨above, habove, hstep⟩ := exists_follow_of_append hfollow
  have hhere : last ≠ ['.'] := by
    rintro rfl
    obtain ⟨rfl, hd⟩ := follow_here hstep
    rw [hd] at hfile
    cases hfile
  obtain ⟨rfl, hup⟩ := eq_of_fileName? hpieces hhere hn
  have hname : IsName name := ⟨hlast, hslash, hhere, hup⟩
  obtain ⟨rfl, hd⟩ := follow_name hname hstep
  refine ⟨above, ?_, rfl⟩
  rcases hfront with rfl | ⟨t, rfl⟩
  · rw [List.nil_append, isAbsolute_piece hname.2.1, pieces_nil] at habove
    obtain rfl : d.current = above := Except.ok.inj habove
    exact locate_holder_alone hname hd
  · have hs : t ++ ['/'] ++ name = t ++ '/' :: name := by simp
    rw [pieces_append_slash, pieces_nil, List.append_nil, hs] at habove
    rw [hs] at hnul ⊢
    exact locate_holder_after hname hnul habove hd

/-- A file whose path ends in a name can be replaced. -/
theorem write_eq_put {name : Text} (h : d.locate p = .ok (place, .file old mode))
    (hn : p.fileName? = some name) (content : ByteArray) :
    d.write p content = .ok (d.put place (.file content mode)) := by
  obtain ⟨above, ha, rfl⟩ := locate_holder h hn
  have hfile := (locate_file_iff.mp h).2.2.2.2
  have hm : d.modeFor p = mode := by rw [modeFor, h]
  rw [write, ha, hn]
  simp only [hfile, hm]

/-- Writing to the path of a file replaces the file. -/
theorem write_of_locate (h : d.locate p = .ok (place, .file old mode))
    (hw : d.write p content = .ok after) : after = d.put place (.file content mode) := by
  cases hn : p.fileName? with
  | some name => exact Except.ok.inj (hw.symm.trans (write_eq_put h hn content))
  | none =>
    rw [write, hn] at hw
    cases hh : d.locate (holder p) with
    | error e =>
      rw [hh] at hw
      cases hw
    | ok found =>
      obtain ⟨above, n⟩ := found
      rw [hh] at hw
      cases n <;> cases hw

/-- A text is read from a file. -/
theorem exists_locate_of_readText {t : Text} (h : d.readText p = .ok t) :
    ∃ place old mode, d.locate p = .ok (place, .file old mode) := by
  rw [readText, read] at h
  cases hl : d.locate p with
  | error e =>
    rw [hl] at h
    cases h
  | ok found =>
    obtain ⟨place, n⟩ := found
    cases n with
    | directory =>
      rw [hl] at h
      cases h
    | file old mode => exact ⟨place, old, mode, rfl⟩

/-- A file that holds the UTF-8 form of a text is read as that text. -/
theorem readText_of_locate {t : Text} (place : Location) (mode : Nat)
    (h : d.locate p = .ok (place, .file (Text.encode t) mode)) : d.readText p = .ok t := by
  rw [readText, read, h]
  simp only [Text.decode?_encode]

/-- What was written to the path of a file is read back there. -/
theorem readText_of_write {t former : Text} (h : d.readText p = .ok former)
    (hw : d.write p (Text.encode t) = .ok after) : after.readText p = .ok t := by
  obtain ⟨place, old, mode, hl⟩ := exists_locate_of_readText h
  have hfile := (locate_file_iff.mp hl).2.2.2.2
  refine readText_of_locate place mode ?_
  rw [write_of_locate hl hw, locate_put hfile, hl]
  simp only [Except.map, if_pos]

end Spruce.Disk
