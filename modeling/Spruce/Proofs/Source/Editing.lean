import Spruce.Proofs.Source.Splice
import Spruce.Proofs.Text.Rows

/-!
# Sources as line editors

A source is an editor of the lines of its text (`lawful_edits`). Line `n` is what stands in the text
between the newline before it, the `n - 1`st one, and its own terminator (`Text.IsLine`); replacing
it changes its content only, removing it takes it out together with its terminator, and a number
that no line has is refused. This holds of the source that a text is, and after any edits whose new
lines are single lines: an edit keeps the rows of a source cut at their newlines (`Text.AreCut`).
-/

namespace Spruce

namespace Text

/-! ### Rows cut at newlines -/

/-- Rows that end where newlines stand. Unlike the physical lines of a text, the last one may be
empty. -/
structure AreCut (rows : List Text) : Prop where
  /-- A newline stands at the end of a row only. -/
  newlineLast : ∀ row ∈ rows, '\n' ∉ row.dropLast
  /-- A row that another one follows ends in a newline. -/
  terminated : rows.Pairwise fun row _ ↦ row.getLast? = some '\n'

private theorem AreRows.areCut {rows : List Text} (h : AreRows rows) : AreCut rows :=
  ⟨h.newlineLast, h.terminated⟩

namespace AreCut

variable {above below : List Text} {row : Text}

/-- Rows stay cut when one of them is taken out. -/
theorem remove (h : AreCut (above ++ row :: below)) : AreCut (above ++ below) := by
  have hs : (above ++ below).Sublist (above ++ row :: below) :=
    (List.Sublist.refl above).append (List.sublist_cons_self row below)
  exact ⟨fun r hr ↦ h.newlineLast r (hs.subset hr), h.terminated.sublist hs⟩

/-- Rows stay cut when one of them gets new content of a single line. -/
theorem replace (h : AreCut (above ++ row :: below)) {content : Text} (hc : '\n' ∉ content) :
    AreCut (above ++ (content ++ lineTerminator row) :: below) := by
  refine ⟨fun r hr ↦ ?_, terminated_replace h.terminated (getLast?_append_terminator content)⟩
  rcases List.mem_append.mp hr with hr | hr
  · exact h.newlineLast r (List.mem_append_left _ hr)
  · rcases List.mem_cons.mp hr with rfl | hr
    · exact notMem_dropLast_append_terminator row hc
    · exact h.newlineLast r (List.mem_append_right _ (List.mem_cons_of_mem row hr))

/-- Every row that another one follows is ended by its only newline. -/
theorem above_eq (h : AreCut (above ++ row :: below)) {r : Text} (hr : r ∈ above) :
    ∃ body, '\n' ∉ body ∧ r = body ++ ['\n'] := by
  have hend := (List.pairwise_append.mp h.terminated).2.2 r hr row List.mem_cons_self
  obtain ⟨body, rfl⟩ := List.getLast?_eq_some_iff.mp hend
  have hbody := h.newlineLast _ (List.mem_append_left _ hr)
  rw [List.dropLast_concat] at hbody
  exact ⟨body, hbody, rfl⟩

/-- Above a row there are as many newlines as rows. -/
theorem count_above (h : AreCut (above ++ row :: below)) :
    above.flatten.count '\n' = above.length := by
  have hone : ∀ r ∈ above, r.count '\n' = 1 := by
    intro r hr
    obtain ⟨body, hbody, rfl⟩ := h.above_eq hr
    rw [List.count_append, List.count_eq_zero_of_not_mem hbody]
    rfl
  rw [List.count_flatten, List.map_congr_left hone, List.map_const', List.sum_replicate_nat,
    Nat.mul_one]

/-- What stands above a row ends in a newline. -/
theorem getLast?_above (h : AreCut (above ++ row :: below)) :
    above.flatten = [] ∨ above.flatten.getLast? = some '\n' := by
  rcases List.eq_nil_or_concat above with rfl | ⟨init, r, hc⟩
  · exact .inl rfl
  · rw [List.concat_eq_append] at hc
    subst hc
    obtain ⟨body, -, rfl⟩ := h.above_eq (List.mem_append_right init List.mem_cons_self)
    right
    rw [List.flatten_append, List.flatten_cons, List.flatten_nil, List.append_nil,
      ← List.append_assoc, List.getLast?_concat]

/-- A row without terminator is the last one. -/
theorem below_eq_nil (h : AreCut (above ++ row :: below)) (ht : lineTerminator row = []) :
    below = [] := by
  rcases lineTerminator_cases row with ⟨-, hl⟩ | hc | hc
  · cases below with
    | nil => rfl
    | cons next below =>
      have hb := (List.pairwise_append.mp h.terminated).2.1
      exact absurd ((List.pairwise_cons.mp hb).1 next List.mem_cons_self) hl
  · rw [ht] at hc
    cases hc
  · rw [ht] at hc
    cases hc

end AreCut

/-! ### Lines of a text -/

/-- Line `n` of a text: what stands above it, its content and terminator, and what stands below. -/
structure IsLine (t : Text) (n : Nat) (above content terminator below : Text) : Prop where
  /-- Nothing else stands in the text. -/
  eq : t = above ++ content ++ terminator ++ below
  /-- There is a newline above for every line above. -/
  number : above.count '\n' + 1 = n
  /-- The line begins the text or follows a newline. -/
  begins : above = [] ∨ above.getLast? = some '\n'
  /-- The content is a single line. -/
  single : '\n' ∉ content
  /-- The terminator is a newline or a carriage return and a newline; only the last line may lack
  one. -/
  ends : terminator = ['\r', '\n'] ∨ terminator = ['\n'] ∧ content.getLast? ≠ some '\r' ∨
    terminator = [] ∧ below = []

/-- A row stands in the text that cut rows make up as the line with its number. -/
theorem AreCut.isLine {above below : List Text} {row : Text} (h : AreCut (above ++ row :: below)) :
    IsLine (above ++ row :: below).flatten (above.length + 1) above.flatten (lineContent row)
      (lineTerminator row) below.flatten where
  eq := by
    rw [List.append_assoc above.flatten, lineContent_append_lineTerminator, List.flatten_append,
      List.flatten_cons, List.append_assoc]
  number := by rw [h.count_above]
  begins := h.getLast?_above
  single := notMem_lineContent (h.newlineLast row (List.mem_append_right _ List.mem_cons_self))
  ends := by
    rcases lineTerminator_cases row with ⟨ht, -⟩ | ht | ht
    · exact .inr (.inr ⟨ht, by rw [h.below_eq_nil ht]; rfl⟩)
    · exact .inr (.inl ⟨ht, getLast?_lineContent ht⟩)
    · exact .inl ht

end Text

open Text

/-- An edit of one line of a source. -/
inductive Edit
  /-- The line gets new content. -/
  | replace (n : Nat) (content : Text)
  /-- The line is removed. -/
  | remove (n : Nat)
  deriving DecidableEq, Repr

/-- What an edit puts into a source is a single line. -/
def Edit.IsSingle : Edit → Prop
  | .replace _ content => '\n' ∉ content
  | .remove _ => True

instance : DecidablePred Edit.IsSingle
  | .replace _ content => inferInstanceAs (Decidable ('\n' ∉ content))
  | .remove _ => inferInstanceAs (Decidable True)

namespace Source

/-! ### Edits -/

/-- The source after an edit; it stays as it is if it does not have the line. -/
def edit (s : Source) : Edit → Source
  | .replace n content => (s.replaceLine? n content).getD s
  | .remove n => ((s.removeLine? n).map Prod.snd).getD s

variable {s : Source} {n : Nat} {row : Text}

/-- The rows of a source with a line are those above it, its own and those below it. -/
theorem exists_rows (h : s.row? n = some row) :
    ∃ above below, s.rows = above ++ row :: below ∧ above.length + 1 = n := by
  refine ⟨_, _, rows_eq_of_row? h, ?_⟩
  obtain ⟨h1, hn⟩ := (row?_isSome s n).mp (by rw [h]; rfl)
  rw [List.length_take]
  unfold size at hn
  omega

/-- An edit of a single line keeps rows cut. -/
theorem areCut_edit {e : Edit} (h : AreCut s.rows) (he : e.IsSingle) : AreCut (s.edit e).rows := by
  cases e with
  | replace n content =>
    cases hr : s.row? n with
    | none => simpa [edit, replaceLine?, hr] using h
    | some row =>
      obtain ⟨above, below, hrows, hn⟩ := exists_rows hr
      rw [edit, replaceLine?_eq hr, Option.getD_some, rows_splice hrows hn, List.append_assoc]
      exact (hrows ▸ h).replace he
  | remove n =>
    cases hr : s.row? n with
    | none => simpa [edit, removeLine?, hr] using h
    | some row =>
      obtain ⟨above, below, hrows, hn⟩ := exists_rows hr
      rw [edit, removeLine?_eq hr, Option.map_some, Option.getD_some, rows_splice hrows hn,
        List.append_nil]
      exact (hrows ▸ h).remove

/-- The rows of a text stay cut under edits of single lines. -/
theorem areCut_edits (path : Path) (t : Text) {edits : List Edit} (h : ∀ e ∈ edits, e.IsSingle) :
    AreCut (edits.foldl edit (ofText path t)).rows :=
  List.foldlRecOn (motive := fun s : Source ↦ AreCut s.rows) edits edit
    (areRows_physicalLines t).areCut fun _ hs e he ↦ areCut_edit hs (h e he)

/-! ### Other lines -/

/-- A line at another place is the same after a line has got new content. -/
theorem line?_replaceLine? {replaced : Source} {content : Text}
    (h : s.replaceLine? n content = some replaced) {m : Nat} (hm : m ≠ n) :
    replaced.line? m = s.line? m := by
  obtain ⟨row, hr, rfl⟩ := Option.map_eq_some_iff.mp h
  cases m with
  | zero => rfl
  | succ m =>
    have hn : 1 ≤ n := ((row?_isSome s n).mp (by rw [hr]; rfl)).1
    rw [line?, line?, row?, row?, List.getElem?_set_ne (by omega)]

/-- A line below a removed one moves up. -/
theorem line?_removeLine? {content : Text} {rest : Source}
    (h : s.removeLine? n = some (content, rest)) (m : Nat) :
    rest.line? m = s.line? (if m < n then m else m + 1) := by
  obtain ⟨row, hr, he⟩ := Option.map_eq_some_iff.mp h
  obtain ⟨rfl, rfl⟩ := Prod.mk.inj he
  have hn : 1 ≤ n := ((row?_isSome s n).mp (by rw [hr]; rfl)).1
  cases m with
  | zero =>
    rw [if_pos (by omega)]
    rfl
  | succ m =>
    rw [line?, row?, List.getElem?_eraseIdx]
    by_cases hmn : m + 1 < n
    · rw [if_pos hmn, if_pos (by omega)]
      rfl
    · rw [if_neg hmn, if_neg (by omega)]
      rfl

/-! ### The laws -/

/-- What an editor of lines does with line `n` of a source, of which the text is shown in parts. -/
structure EditsLine (s : Source) (n : Nat) (above content terminator below : Text) : Prop where
  /-- The line of the text is shown. -/
  placed : IsLine s.contents n above content terminator below
  shown : s.line? n = some content
  /-- Its own content changes nothing. -/
  kept : s.replaceLine? n content = some s
  /-- New content takes the place of the old content only, and is then shown. -/
  replaced (new : Text) (single : '\n' ∉ new) (whole : new.getLast? ≠ some '\r') :
    ∃ s' : Source, s.replaceLine? n new = some s' ∧ s'.line? n = some new ∧
      s'.contents = above ++ new ++ terminator ++ below ∧ s'.size = s.size ∧
      ∀ m, m ≠ n → s'.line? m = s.line? m
  /-- What is removed is shown for the last time; the line and its terminator are gone, and the
  lines below have moved up. -/
  removed : ∃ s' : Source, s.removeLine? n = some (content, s') ∧
    s'.contents = above ++ below ∧ s'.size + 1 = s.size ∧
    ∀ m, s'.line? m = s.line? (if m < n then m else m + 1)

/-- What an editor of lines does with the number of no line: there is nothing to show, and no edit
changes anything. -/
structure RefusesLine (s : Source) (n : Nat) : Prop where
  shown : s.line? n = none
  replaced (new : Text) : s.replaceLine? n new = none ∧ s.edit (.replace n new) = s
  removed : s.removeLine? n = none ∧ s.edit (.remove n) = s

/-- A source whose rows are cut edits every line that it has. -/
theorem editsLine (hcut : AreCut s.rows) (h : s.row? n = some row) :
    ∃ above below, s.EditsLine n above (lineContent row) (lineTerminator row) below := by
  obtain ⟨above, below, hrows, hn⟩ := exists_rows h
  have hsize : s.size = above.length + (below.length + 1) := by
    rw [size, hrows, List.length_append, List.length_cons]
  have hown : s.splice n [row] = s := by
    have he := rows_splice hrows hn [row]
    rw [List.append_assoc, List.singleton_append, ← hrows] at he
    exact congrArg (Source.mk s.path) he
  refine ⟨above.flatten, below.flatten, ?_, line?_eq h, ?_, fun new hsingle hwhole ↦ ?_, ?_⟩
  · rw [contents, hrows, ← hn]
    exact (hrows ▸ hcut).isLine
  · rw [replaceLine?_eq h, lineContent_append_lineTerminator, hown]
  · have hnew := rows_splice hrows hn [new ++ lineTerminator row]
    have hreplace := replaceLine?_eq h new
    refine ⟨_, hreplace, ?_, ?_, ?_, fun m hm ↦ line?_replaceLine? hreplace hm⟩
    · have hat : (s.splice n [new ++ lineTerminator row]).row? n =
          some (new ++ lineTerminator row) := by
        rw [← hn, row?, hn, hnew]
        simp
      rw [line?_eq hat]
      refine congrArg some (lineContent_append_terminator fun c hc hend ↦ ?_)
      rcases hend with rfl | rfl
      · exact absurd hc hwhole
      · exact absurd (List.mem_of_getLast? hc) hsingle
    · rw [contents, hnew]
      simp
    · rw [hsize, size, hnew]
      simp
  · have hnone := rows_splice hrows hn []
    have hremove := removeLine?_eq h
    refine ⟨_, hremove, ?_, ?_, line?_removeLine? hremove⟩
    · rw [contents, hnone]
      simp
    · rw [hsize, size, hnone]
      simp
      omega

/-- A number that no line has is refused. -/
theorem refusesLine (h : s.row? n = none) : s.RefusesLine n where
  shown := by simp [line?, h]
  replaced new := by simp [edit, replaceLine?, h]
  removed := by simp [edit, removeLine?, h]

/-- A text is the contents of its source, and the source is an editor of the lines of the text,
also after any edits whose new lines are single lines: it edits the lines numbered from 1 to its
size, and refuses every other number. -/
theorem lawful_edits (path : Path) (t : Text) (edits : List Edit) (h : ∀ e ∈ edits, e.IsSingle) :
    (ofText path t).contents = t ∧
      let s := edits.foldl edit (ofText path t)
      (∀ n, 1 ≤ n → n ≤ s.size →
        ∃ above content terminator below, s.EditsLine n above content terminator below) ∧
      ∀ n, n = 0 ∨ s.size < n → s.RefusesLine n := by
  refine ⟨contents_ofText path t, fun n h1 hn ↦ ?_, fun n hn ↦ ?_⟩
  · obtain ⟨row, hr⟩ := Option.isSome_iff_exists.mp ((row?_isSome _ n).mpr ⟨h1, hn⟩)
    obtain ⟨above, below, hedits⟩ := editsLine (areCut_edits path t h) hr
    exact ⟨above, _, _, below, hedits⟩
  · have hnone : ¬ ((edits.foldl edit (ofText path t)).row? n).isSome = true := by
      rw [row?_isSome]
      omega
    exact refusesLine (Option.not_isSome_iff_eq_none.mp hnone)

/-- A text whose lines end in three ways, and edits that empty its last line, remove one and refuse
one. -/
theorem lawful_edits_mixed :
    let path : Path := ⟨['a']⟩
    let t : Text := "a\r\nb\n\r\r\nc".toList
    let edits : List Edit := [.replace 4 [], .remove 2, .replace 9 ['x']]
    let s := edits.foldl edit (ofText path t)
    (∀ e ∈ edits, e.IsSingle) ∧ s.rows = [['a', '\r', '\n'], ['\r', '\r', '\n'], []] ∧
      (ofText path t).contents = t ∧
      (∀ n, 1 ≤ n → n ≤ s.size →
        ∃ above content terminator below, s.EditsLine n above content terminator below) ∧
      ∀ n, n = 0 ∨ s.size < n → s.RefusesLine n := by
  intro path t edits s
  have h : ∀ e ∈ edits, e.IsSingle := by decide
  exact ⟨h, by decide, lawful_edits path t edits h⟩

end Source

end Spruce
