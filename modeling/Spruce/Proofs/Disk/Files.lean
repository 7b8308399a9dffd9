import Spruce.Proofs.Path.Clean

/-!
# Files at clean absolute paths

A clean absolute path leads to the place that it spells (`place_of_locate`). Replacing a file that
is there succeeds, is read back at its path and is not seen at any other clean absolute path
(`exists_write`): at such paths, a disk is a map from paths to contents.
-/

namespace Spruce.Disk

open Spruce.Path

/-! ### Where a path leads -/

/-- Following names in turn leads to the place continued by the names. -/
theorem eq_append_of_follow {d : Disk} {place other : Location} {names : List Text}
    (hn : ∀ n ∈ names, IsName n) (h : d.follow place names = .ok other) :
    other = place ++ names := by
  induction names generalizing place with
  | nil => simpa [follow] using h.symm
  | cons n names ih =>
    have hname := hn n List.mem_cons_self
    simp only [follow, if_neg hname.2.2.1, if_neg hname.2.2.2] at h
    split at h
    · cases h
    · cases h
    · rw [ih (fun m hm ↦ hn m (List.mem_cons_of_mem n hm)) h, List.append_assoc]
      rfl

/-- A way goes on from where its first part ends. -/
theorem follow_append (d : Disk) (place : Location) (pieces rest : List Text) :
    d.follow place (pieces ++ rest) =
      (d.follow place pieces).bind fun between ↦ d.follow between rest := by
  induction pieces generalizing place with
  | nil => rfl
  | cons piece pieces ih =>
    rw [List.cons_append, follow, follow]
    split
    · rfl
    · rfl
    · split
      · exact ih place
      · split
        · exact ih place.dropLast
        · exact ih (place ++ [piece])

/-- A way leads through the place where its first part ends. -/
theorem exists_follow_of_append {d : Disk} {place other : Location} {pieces rest : List Text}
    (h : d.follow place (pieces ++ rest) = .ok other) :
    ∃ between, d.follow place pieces = .ok between ∧ d.follow between rest = .ok other := by
  rw [follow_append] at h
  cases hp : d.follow place pieces with
  | error e =>
    rw [hp] at h
    cases h
  | ok between =>
    rw [hp] at h
    exact ⟨between, rfl, h⟩

/-- The places before the last piece are all directories. -/
theorem follow_concat {d : Disk} {place other : Location} {pieces : List Text} {last : Text}
    (h : d.follow place (pieces ++ [last]) = .ok other) :
    ∃ above, d.follow place pieces = .ok above ∧ d.node? above = some .directory := by
  obtain ⟨above, hpieces, hlast⟩ := exists_follow_of_append h
  refine ⟨above, hpieces, ?_⟩
  simp only [follow] at hlast
  split at hlast
  · cases hlast
  · cases hlast
  · assumption

/-- The path of a place leads to that place, if it leads anywhere. -/
theorem place_of_locate {d : Disk} {names : List Text} {place : Location} {n : Node}
    (hn : ∀ n ∈ names, IsName n) (h : d.locate (pathOf names) = .ok (place, n)) :
    place = names ∧ d.node? names = some n := by
  simp only [locate, if_pos (isAbsolute_pathOf hn), pieces_pathOf hn] at h
  split at h
  · cases h
  · split at h
    · cases h
    · split at h
      · cases h
      · next other hf =>
        have ho : other = names := eq_append_of_follow hn hf
        subst ho
        split at h
        · cases h
        · next hd =>
          obtain ⟨rfl, rfl⟩ := Prod.mk.inj (Except.ok.inj h)
          exact ⟨rfl, hd⟩
        · next hd =>
          split at h
          · cases h
          · obtain ⟨rfl, rfl⟩ := Prod.mk.inj (Except.ok.inj h)
            exact ⟨rfl, hd⟩

/-- The path above the path of a file leads to a directory. -/
theorem locate_above {d : Disk} {names : List Text} {last : Text} {place : Location} {n : Node}
    (hn : ∀ n ∈ names ++ [last], IsName n)
    (h : d.locate (pathOf (names ++ [last])) = .ok (place, n)) :
    d.locate (pathOf names) = .ok (names, .directory) := by
  have hi : ∀ n ∈ names, IsName n := fun n hm ↦ hn n (List.mem_append_left _ hm)
  simp only [locate, if_pos (isAbsolute_pathOf hn), pieces_pathOf hn] at h
  simp only [locate, if_pos (isAbsolute_pathOf hi), pieces_pathOf hi]
  split at h
  · cases h
  · split at h
    · cases h
    · next hnul =>
      split at h
      · cases h
      · next other hf =>
        obtain ⟨above, ha, hd⟩ := follow_concat hf
        have he : above = names := eq_append_of_follow hi ha
        subst he
        have hnul' : (pathOf above).spelling.contains '\x00' = false := by
          rw [List.contains_eq_mem, decide_eq_false_iff_not]
          intro hm
          exact hnul (List.contains_iff_mem.mpr (spelling_subset_concat hn hm))
        have hempty : (pathOf above).spelling.isEmpty = false := by
          have ha := isAbsolute_pathOf hi
          cases hs : (pathOf above).spelling with
          | nil => simp [isAbsolute, hs] at ha
          | cons c r => rfl
        simp only [hempty, hnul', ha, hd]
        rfl

/-! ### Replacing a file -/

variable {d : Disk} {place : Location} {old : ByteArray} {mode : Nat}

/-- Replacing a file changes no way through the directories. -/
theorem follow_put (hf : d.node? place = some (.file old mode)) (content : ByteArray)
    (newMode : Nat) (start : Location) (pieces : List Text) :
    (d.put place (.file content newMode)).follow start pieces = d.follow start pieces := by
  have hp : place ≠ [] := by
    rintro rfl
    cases hf
  induction pieces generalizing start with
  | nil => rfl
  | cons piece pieces ih =>
    unfold follow
    rw [node?_put d _ start hp]
    by_cases hs : start = place
    · rw [if_pos hs, hs, hf]
    · rw [if_neg hs]
      split
      · rfl
      · rfl
      · simp only [ih]

/-- After a file has been replaced, every path leads where it did, and finds the new file where
the old one stood. -/
theorem locate_put (hf : d.node? place = some (.file old mode)) (content : ByteArray)
    (newMode : Nat) (q : Path) :
    (d.put place (.file content newMode)).locate q =
      (d.locate q).map fun (other, n) ↦
        (other, if other = place then .file content newMode else n) := by
  have hp : place ≠ [] := by
    rintro rfl
    cases hf
  have hc : (d.put place (.file content newMode)).current = d.current := rfl
  simp only [locate, follow_put hf, hc]
  split
  · rfl
  · split
    · rfl
    · split
      · rfl
      · next other _ =>
        rw [node?_put d _ other hp]
        by_cases ho : other = place
        · rw [if_pos ho, ho, hf]
          dsimp only
          split
          · rfl
          · simp [Except.map]
        · rw [if_neg ho]
          split
          · rfl
          · simp [Except.map, ho]
          · split
            · rfl
            · simp [Except.map, ho]

/-! ### Disks as maps from clean paths to contents -/

/-- A file stands where something can be read. -/
theorem isFile_iff_read (d : Disk) (p : Path) :
    d.isFile p = true ↔ ∃ content, d.read p = .ok content := by
  unfold isFile read
  cases hl : d.locate p with
  | error e => simp
  | ok found =>
    obtain ⟨place, n⟩ := found
    cases n <;> simp

/-- A file at a clean absolute path stands at a place below the root. -/
theorem exists_place_of_isFile {p : Path} (hp : p.IsCleanAbsolute) (h : d.isFile p = true) :
    ∃ names last content mode, (∀ n ∈ names ++ [last], IsName n) ∧
      p = pathOf (names ++ [last]) ∧
      d.locate p = .ok (names ++ [last], .file content mode) ∧
      d.node? (names ++ [last]) = some (.file content mode) := by
  obtain ⟨all, hn, rfl⟩ := hp.exists_names
  unfold isFile at h
  split at h
  · next place content mode hl =>
    obtain ⟨rfl, hnode⟩ := place_of_locate hn hl
    rcases List.eq_nil_or_concat place with rfl | ⟨names, last, hc⟩
    · cases hnode
    · rw [List.concat_eq_append] at hc
      subst hc
      exact ⟨names, last, content, mode, hn, rfl, hl, hnode⟩
  · cases h

/-- A file at a clean absolute path can be replaced. What is read at clean absolute paths
afterwards is the new content there, and elsewhere what was read before. -/
theorem exists_write {p : Path} (hp : p.IsCleanAbsolute) (h : d.isFile p = true)
    (content : ByteArray) :
    ∃ after, d.write p content = .ok after ∧
      ∀ q : Path, q.IsCleanAbsolute →
        after.read q = if q = p then .ok content else d.read q := by
  obtain ⟨names, last, old, mode, hn, rfl, hl, hf⟩ := exists_place_of_isFile hp h
  refine ⟨d.put (names ++ [last]) (.file content mode), ?_, ?_⟩
  · have hm : d.modeFor (pathOf (names ++ [last])) = mode := by rw [modeFor, hl]
    rw [write, holder_pathOf hn, locate_above hn hl, fileName?_pathOf hn]
    simp only [hf, hm]
  · intro q hq
    obtain ⟨qs, hqs, rfl⟩ := hq.exists_names
    have he : pathOf qs = pathOf (names ++ [last]) ↔ qs = names ++ [last] := by
      constructor
      · intro h
        have hs := congrArg Path.pieces h
        rwa [pieces_pathOf hqs, pieces_pathOf hn] at hs
      · exact congrArg pathOf
    rw [read, locate_put hf, read]
    cases hql : d.locate (pathOf qs) with
    | error e =>
      have hne : ¬ qs = names ++ [last] := by
        rintro rfl
        rw [hl] at hql
        cases hql
      rw [if_neg (mt he.mp hne)]
      rfl
    | ok found =>
      obtain ⟨place, n⟩ := found
      obtain ⟨rfl, -⟩ := place_of_locate hqs hql
      by_cases hx : place = names ++ [last]
      · simp only [Except.map, if_pos hx, if_pos (he.mpr hx)]
      · simp only [Except.map, if_neg hx, if_neg (mt he.mp hx)]

end Spruce.Disk
