import Mathlib.Data.List.Infix
import Spruce.Proofs.Path.Join

/-!
# Parents of any paths

However a path is spelled, what stands before its last name is spelled by what holds it, up to
trailing slashes and pieces `.` (`exists_holder`).
-/

namespace Spruce

namespace Path

/-! ### What stands before a name -/

private theorem dropTail_suffix (r : Text) : dropTail r <:+ r := by
  induction r using dropTail.induct with
  | case1 => exact List.suffix_refl _
  | case2 r h ih =>
    rw [dropTail.eq_2 _ h]
    exact ih.trans (List.suffix_cons _ _)
  | case3 r ih =>
    rw [dropTail]
    exact ih.trans (List.suffix_cons _ _)
  | case4 r hslash hslashes hpoint => rw [dropTail.eq_4 _ hslash hslashes hpoint]

private theorem dropTail_ne_nil {r : Text} (h : r ≠ []) : dropTail r ≠ [] := by
  induction r using dropTail.induct with
  | case1 => exact h
  | case2 r hne ih =>
    rw [dropTail.eq_2 _ hne]
    exact ih fun hr ↦ hne hr
  | case3 r ih =>
    rw [dropTail]
    exact ih (List.cons_ne_nil _ _)
  | case4 r hslash hslashes hpoint =>
    rw [dropTail.eq_4 _ hslash hslashes hpoint]
    exact h

private theorem pieces_dropTail (r : Text) :
    ∃ n, pieces ⟨r.reverse⟩ = pieces ⟨(dropTail r).reverse⟩ ++ List.replicate n ['.'] := by
  induction r using dropTail.induct with
  | case1 => exact ⟨0, by simp [dropTail]⟩
  | case2 r hne ih =>
    obtain ⟨n, hn⟩ := ih
    refine ⟨n, ?_⟩
    rw [dropTail.eq_2 _ hne, ← hn, List.reverse_cons, pieces_append_slash, pieces_nil,
      List.append_nil]
  | case3 r ih =>
    obtain ⟨n, hn⟩ := ih
    refine ⟨n + 1, ?_⟩
    have hpoint : pieces ⟨['.']⟩ = [['.']] := rfl
    rw [List.reverse_cons, pieces_append_slash, pieces_nil, List.append_nil] at hn
    rw [dropTail, List.reverse_cons, List.reverse_cons, List.append_assoc, List.singleton_append,
      pieces_append_slash, hn, hpoint, List.append_assoc, List.replicate_succ']
  | case4 r hslash hslashes hpoint =>
    rw [dropTail.eq_4 _ hslash hslashes hpoint]
    exact ⟨0, by simp⟩

private theorem parent?_of_spelling {name front : Text} (hn : IsName name)
    (hf : front = [] ∨ ∃ t, front = t ++ ['/']) :
    parent? ⟨front ++ name⟩ = some ⟨(dropTail front.reverse).reverse⟩ := by
  have hbody : dropTail (front ++ name).reverse = name.reverse ++ front.reverse := by
    rw [List.reverse_append, dropTail_name hn]
  have hinner : ∀ c ∈ name.reverse, decide (c ≠ '/') = true := by
    intro c hc
    rw [decide_eq_true_eq]
    rintro rfl
    exact hn.2.1 (List.mem_reverse.mp hc)
  have hfront : (name.reverse ++ front.reverse).dropWhile (· ≠ '/') = front.reverse := by
    rw [List.dropWhile_append_of_pos hinner]
    rcases hf with rfl | ⟨t, rfl⟩
    · rfl
    · simp
  have hne : ¬ (name.reverse ++ front.reverse = [] ∨ name.reverse ++ front.reverse = ['/']) := by
    cases hr : name.reverse with
    | nil => exact absurd (List.reverse_eq_nil_iff.mp hr) hn.1
    | cons c r =>
      have hc := hinner c (hr ▸ List.mem_cons_self)
      rw [decide_eq_true_eq] at hc
      simp [hc]
  rw [parent?]
  simp only [hbody, if_neg hne, hfront]

/-- A spelling that does not end in a slash ends in a piece. -/
theorem exists_last_piece {s : Text} (hne : s ≠ []) (hl : s.getLast? ≠ some '/') :
    ∃ front last, s = front ++ last ∧ last ≠ [] ∧ '/' ∉ last ∧
      (front = [] ∨ ∃ t, front = t ++ ['/']) ∧ pieces ⟨s⟩ = pieces ⟨front⟩ ++ [last] := by
  by_cases hs : '/' ∈ s
  · obtain ⟨last, front, hr, hnot⟩ := List.eq_append_cons_of_mem (List.mem_reverse.mpr hs)
    have hspell : s = front.reverse ++ '/' :: last.reverse := by
      simpa using congrArg List.reverse hr
    have hlast : last.reverse ≠ [] := by
      intro hnil
      rw [hspell, hnil] at hl
      simp at hl
    have hslash : '/' ∉ last.reverse := fun h ↦ hnot (List.mem_reverse.mp h)
    refine ⟨front.reverse ++ ['/'], last.reverse, by simp [hspell], hlast, hslash,
      .inr ⟨_, rfl⟩, ?_⟩
    rw [hspell, pieces_append_slash, pieces_append_slash, pieces_nil, List.append_nil,
      pieces_piece hlast hslash]
  · refine ⟨[], s, rfl, hne, hs, .inl rfl, ?_⟩
    rw [pieces_piece hne hs, pieces_nil, List.nil_append]

private theorem getLast?_components {p : Path} {init : List Text} {last : Text}
    (hp : p.pieces = init ++ [last]) (hl : last ≠ ['.']) :
    p.components.getLast? = Component.ofPiece? last := by
  obtain ⟨c, hc⟩ : ∃ c, Component.ofPiece? last = some c := by
    rw [Component.ofPiece?, if_neg hl]
    split
    · exact ⟨_, rfl⟩
    · exact ⟨_, rfl⟩
  have hend (front : List Component) (pieces : List Text) :
      (front ++ (pieces ++ [last]).filterMap Component.ofPiece?).getLast? = some c := by
    rw [List.filterMap_append, List.filterMap_cons_some hc, List.filterMap_nil, ← List.append_assoc]
    exact List.getLast?_concat
  rw [components, hp, hc]
  split
  · exact hend [.root] init
  · split
    · next rest he =>
      cases init with
      | nil => exact absurd (List.cons.inj he).1 hl
      | cons first init =>
        rw [← (List.cons.inj he).2]
        exact hend [.here] init
    · exact hend [] init

/-- The file name of a path is its last piece, if that is not `.` -/
theorem eq_of_fileName? {p : Path} {init : List Text} {last name : Text}
    (hp : p.pieces = init ++ [last]) (hl : last ≠ ['.']) (h : p.fileName? = some name) :
    name = last ∧ last ≠ ['.', '.'] := by
  rw [fileName?, getLast?_components hp hl, Component.ofPiece?, if_neg hl] at h
  split at h
  · next he =>
    split at he
    · cases he
    · next hup =>
      obtain rfl := Component.name.inj (Option.some.inj he)
      exact ⟨(Option.some.inj h).symm, hup⟩
  · cases h

/-- A path whose last piece is a name has it as its file name. -/
theorem fileName?_of_pieces {p : Path} {init : List Text} {last : Text}
    (hp : p.pieces = init ++ [last]) (hn : IsName last) : p.fileName? = some last := by
  rw [fileName?, getLast?_components hp hn.2.2.1, Component.ofPiece?, if_neg hn.2.2.1,
    if_neg hn.2.2.2]

/-- What holds a name, unless it stands alone, is spelled by what stands before it, up to pieces
`.` at the end. -/
theorem exists_holder {name t : Text} (hn : IsName name) :
    ∃ n, pieces ⟨t⟩ = (Disk.holder ⟨t ++ '/' :: name⟩).pieces ++ List.replicate n ['.'] ∧
      (Disk.holder ⟨t ++ '/' :: name⟩).spelling <+: t ++ ['/'] ∧
      (Disk.holder ⟨t ++ '/' :: name⟩).spelling ≠ [] := by
  have hs : t ++ '/' :: name = (t ++ ['/']) ++ name := by simp
  have hr : (t ++ ['/']).reverse ≠ [] := by simp
  have hparent := parent?_of_spelling hn (.inr ⟨t, rfl⟩)
  have hne := dropTail_ne_nil hr
  obtain ⟨n, hpieces⟩ := pieces_dropTail (t ++ ['/']).reverse
  have hholder : Disk.holder ⟨t ++ '/' :: name⟩ =
      ⟨(dropTail (t ++ ['/']).reverse).reverse⟩ := by
    rw [hs, Disk.holder, hparent]
    cases hd : (dropTail (t ++ ['/']).reverse).reverse with
    | nil => exact absurd (List.reverse_eq_nil_iff.mp hd) hne
    | cons c r => rfl
  rw [hholder]
  refine ⟨n, ?_, ?_, ?_⟩
  · rw [← hpieces, List.reverse_reverse, pieces_append_slash, pieces_nil, List.append_nil]
  · have h := List.reverse_prefix.mpr (dropTail_suffix (t ++ ['/']).reverse)
    rwa [List.reverse_reverse] at h
  · simpa using hne

/-- What holds a name that stands alone is `.` -/
theorem holder_name {name : Text} (hn : IsName name) : Disk.holder ⟨name⟩ = ⟨['.']⟩ := by
  have h := parent?_of_spelling hn (.inl rfl)
  rw [List.nil_append] at h
  rw [Disk.holder, h]
  rfl

end Path

end Spruce
