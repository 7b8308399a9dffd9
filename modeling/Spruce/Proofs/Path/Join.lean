import Spruce.Proofs.Path.Clean

/-!
# Joined paths

A relative path goes on from where the path before it has led, piece by piece (`pieces_join`), so
that the two lead where the second one leads from there (`place_join`). A path that is spelled
component by component has these components again (`place_ofComponents`).
-/

namespace Spruce.Path

/-! ### Pieces -/

/-- An empty path has no pieces. -/
theorem pieces_nil : pieces ⟨[]⟩ = [] := rfl

/-- A slash parts the pieces of a path. -/
theorem pieces_append_slash (t r : Text) :
    pieces ⟨t ++ '/' :: r⟩ = pieces ⟨t⟩ ++ pieces ⟨r⟩ := by
  rw [pieces, Text.split_append, List.filter_append]
  rfl

/-- Text without a slash is one piece. -/
theorem pieces_piece {piece : Text} (hne : piece ≠ []) (hs : '/' ∉ piece) :
    pieces ⟨piece⟩ = [piece] := by
  rw [pieces, Text.split_of_notMem hs]
  simp [hne]

/-- Whether a path is absolute is seen at its start. -/
theorem isAbsolute_append {s : Text} (hs : s ≠ []) (t : Text) :
    isAbsolute ⟨s ++ t⟩ = isAbsolute ⟨s⟩ := by
  cases s with
  | nil => exact absurd rfl hs
  | cons c s => rfl

/-- Text without a slash is a relative path. -/
theorem isAbsolute_piece {piece : Text} (hs : '/' ∉ piece) : isAbsolute ⟨piece⟩ = false := by
  cases piece with
  | nil => rfl
  | cons c r =>
    have hc : c ≠ '/' := fun hc ↦ hs (by simp [hc])
    simp [isAbsolute, hc]

/-- A relative path that is spelled at all has pieces. -/
theorem pieces_ne_nil {p : Path} (hs : p.spelling ≠ []) (hp : p.isAbsolute = false) :
    p.pieces ≠ [] := by
  obtain ⟨s⟩ := p
  cases s with
  | nil => exact absurd rfl hs
  | cons c r =>
    have hc : c ≠ '/' := by simpa [isAbsolute] using hp
    rw [pieces, Text.split, if_neg hc]
    split <;> simp

/-! ### Joining -/

/-- A relative path goes on from where the path before it has led. -/
theorem pieces_join (p : Path) {q : Path} (hq : q.isAbsolute = false) :
    (p.join q).pieces = p.pieces ++ q.pieces := by
  obtain ⟨s⟩ := p
  rw [join, if_neg (by simp [hq])]
  split
  · next hend =>
    rw [Bool.or_eq_true, List.isEmpty_iff, decide_eq_true_eq] at hend
    rcases hend with rfl | hl
    · rfl
    · obtain ⟨t, rfl⟩ := List.getLast?_eq_some_iff.mp hl
      rw [pieces_append_slash, pieces_nil, List.append_nil, List.append_assoc,
        List.singleton_append, pieces_append_slash]
  · rw [pieces_append_slash]

/-- A relative path after another one leads from where that one begins. -/
theorem isAbsolute_join (p : Path) {q : Path} (hq : q.isAbsolute = false) :
    (p.join q).isAbsolute = p.isAbsolute := by
  obtain ⟨s⟩ := p
  rw [join, if_neg (by simp [hq])]
  by_cases hs : s = []
  · subst hs
    exact hq
  · split
    · exact isAbsolute_append hs q.spelling
    · exact isAbsolute_append hs ('/' :: q.spelling)

/-- A relative path is spelled out after another one, with a slash between the two at most. -/
theorem spelling_join (p : Path) {q : Path} (hq : q.isAbsolute = false) :
    ∃ front, (p.join q).spelling = front ++ q.spelling ∧
      ∀ c ∈ front, c ∈ p.spelling ∨ c = '/' := by
  rw [join, if_neg (by simp [hq])]
  split
  · exact ⟨p.spelling, rfl, fun c hc ↦ .inl hc⟩
  · refine ⟨p.spelling ++ ['/'], by simp, fun c hc ↦ ?_⟩
    rw [List.mem_append, List.mem_singleton] at hc
    exact hc

/-- A path after an absolute one is absolute. -/
theorem isAbsolute_join_left {p : Path} (hp : p.isAbsolute = true) (q : Path) :
    (p.join q).isAbsolute = true := by
  by_cases hq : q.isAbsolute = true
  · rwa [join, if_pos hq]
  · rw [Bool.not_eq_true] at hq
    rw [isAbsolute_join p hq, hp]

/-- Pieces that are joined to a path one after another come after its own. -/
theorem foldl_join {pieces : List Text} (h : ∀ piece ∈ pieces, piece ≠ [] ∧ '/' ∉ piece)
    (p : Path) :
    (pieces.foldl (fun p piece ↦ p.join ⟨piece⟩) p).pieces = p.pieces ++ pieces ∧
      (pieces.foldl (fun p piece ↦ p.join ⟨piece⟩) p).isAbsolute = p.isAbsolute := by
  induction pieces generalizing p with
  | nil => exact ⟨(List.append_nil _).symm, rfl⟩
  | cons piece pieces ih =>
    obtain ⟨⟨hne, hs⟩, hrest⟩ := List.forall_mem_cons.mp h
    have hrelative := isAbsolute_piece hs
    obtain ⟨hpieces, habsolute⟩ := ih hrest (p.join ⟨piece⟩)
    constructor
    · rw [List.foldl_cons, hpieces, pieces_join p hrelative, pieces_piece hne hs,
        List.append_assoc, List.singleton_append]
    · rw [List.foldl_cons, habsolute, isAbsolute_join p hrelative]

/-- The components of a path and of names that are joined to it. -/
theorem components_foldl_join {names : List Text} {p : Path} (hp : p.spelling ≠ [])
    (hn : ∀ name ∈ names, IsName name) :
    (names.foldl (fun p name ↦ p.join ⟨name⟩) p).components =
      p.components ++ names.map .name := by
  obtain ⟨hpieces, habsolute⟩ := foldl_join (fun name hm ↦ ⟨(hn name hm).1, (hn name hm).2.1⟩) p
  rw [components, components, hpieces, habsolute]
  cases ha : p.isAbsolute with
  | true =>
    rw [if_pos rfl, if_pos rfl, List.filterMap_append, filterMap_ofPiece? hn]
    rfl
  | false =>
    rw [if_neg Bool.false_ne_true, if_neg Bool.false_ne_true]
    -- the first piece is one of the path before the names
    obtain ⟨piece, rest, hp⟩ := List.exists_cons_of_ne_nil (pieces_ne_nil hp ha)
    rw [hp, List.cons_append]
    by_cases hhere : piece = ['.']
    · subst hhere
      show Component.here :: (rest ++ names).filterMap Component.ofPiece? = _
      rw [List.filterMap_append, filterMap_ofPiece? hn]
      rfl
    · split
      · next he => exact absurd (List.cons.inj he).1 hhere
      · split
        · next he => exact absurd (List.cons.inj he).1 hhere
        · rw [← List.cons_append, List.filterMap_append, filterMap_ofPiece? hn]

/-! ### Places -/

/-- The place that a path leads to is known from its pieces: a piece `.` leads nowhere. -/
theorem place_eq (start : Location) (p : Path) : p.place start =
    (p.pieces.filterMap Component.ofPiece?).foldl lead (if p.isAbsolute then [] else start) := by
  rw [place, components]
  split
  · rfl
  · split
    · next rest hp =>
      rw [hp]
      rfl
    · rfl

/-- A path after another one leads where it leads from the place of that one. -/
theorem place_join (start : Location) (p q : Path) :
    (p.join q).place start = q.place (p.place start) := by
  by_cases hq : q.isAbsolute = true
  · rw [join, if_pos hq, place_eq, place_eq, if_pos hq, if_pos hq]
  · rw [Bool.not_eq_true] at hq
    rw [place_eq, pieces_join p hq, isAbsolute_join p hq, List.filterMap_append,
      List.foldl_append, ← place_eq, place_eq _ q, hq, if_neg Bool.false_ne_true]

/-- A text resolves to the path of a place, which it leads to from the place of the directory. -/
theorem resolve_eq {root : Path} (hroot : root.isAbsolute = true) (raw : Text) :
    resolve root raw = Disk.pathOf (place (root.place []) ⟨Text.trim raw⟩) ∧
      ∀ n ∈ place (root.place []) ⟨Text.trim raw⟩, IsName n := by
  have habsolute := isAbsolute_join_left hroot ⟨Text.trim raw⟩
  rw [← place_join]
  exact ⟨clean_of_isAbsolute habsolute [], isName_place habsolute []⟩

namespace IsInner

variable {c : Component}

/-- A component that can come after the root is spelled as a piece. -/
theorem text_spec (h : IsInner c) : c.text ≠ [] ∧ '/' ∉ c.text := by
  rcases h with rfl | ⟨t, ht, rfl⟩
  · exact ⟨List.cons_ne_nil _ _, by decide⟩
  · exact ⟨ht.1, ht.2.1⟩

/-- The piece that spells a component that can come after the root stands for it. -/
theorem ofPiece?_text (h : IsInner c) : Component.ofPiece? c.text = some c := by
  rcases h with rfl | ⟨t, ht, rfl⟩
  · rfl
  · simp [Component.ofPiece?, Component.text, ht.2.2.1, ht.2.2.2]

end IsInner

/-- A path that is spelled component by component, without a root, has the texts of the components
as its pieces and is relative. -/
theorem pieces_ofComponents {cs : List Component} (h : ∀ c ∈ cs, IsInner c) :
    (ofComponents cs).pieces = cs.map Component.text ∧ (ofComponents cs).isAbsolute = false := by
  have htexts : ∀ piece ∈ cs.map Component.text, piece ≠ [] ∧ '/' ∉ piece := by
    intro piece hp
    obtain ⟨c, hc, rfl⟩ := List.mem_map.mp hp
    exact (h c hc).text_spec
  have hjoin := foldl_join htexts ⟨[]⟩
  rw [List.foldl_map] at hjoin
  exact hjoin

/-- A path that is spelled component by component leads where the components lead. -/
theorem place_ofComponents {cs : List Component} (h : ∀ c ∈ cs, IsInner c) (start : Location) :
    (ofComponents cs).place start = cs.foldl lead start := by
  have hcs : (cs.map Component.text).filterMap Component.ofPiece? = cs := by
    rw [List.filterMap_map]
    induction cs with
    | nil => rfl
    | cons c cs ih =>
      obtain ⟨hhead, htail⟩ := List.forall_mem_cons.mp h
      have hc : (Component.ofPiece? ∘ Component.text) c = some c := hhead.ofPiece?_text
      rw [List.filterMap_cons_some hc, ih htail]
  obtain ⟨hpieces, hrelative⟩ := pieces_ofComponents h
  rw [place_eq, hpieces, hcs, hrelative, if_neg Bool.false_ne_true]

end Spruce.Path
