import Spruce.Text.Lines
import Spruce.Text.Utf8

/-!
# Rows

What a list of texts must be like to be the physical lines of a text: no row is empty, a newline
stands at the end of a row only, and only the last row may lack one. Such rows are exactly those
that come back when their concatenation is cut up again (`physicalLines_flatten`). The condition
is kept when a row is dropped or replaced by one that ends alike (`AreRows.replace`).
-/

namespace Spruce.Text

/-- Text that UTF-8 decodes to is encoded by the same bytes. -/
theorem encode_of_decode? {bytes : ByteArray} {t : Text} (h : decode? bytes = some t) :
    encode t = bytes := by
  obtain ⟨chars, hc, rfl⟩ := Option.map_eq_some_iff.mp h
  have hs : bytes.utf8Decode?.isSome := by rw [hc]; rfl
  have hg : bytes.utf8Decode?.get hs = chars := Option.get_of_eq_some hs hc
  rw [← hg]
  exact ByteArray.utf8Encode_get_utf8Decode?

/-- Rows that are the physical lines of a text. -/
structure AreRows (rows : List Text) : Prop where
  /-- No row is empty. -/
  nonempty : ∀ row ∈ rows, row ≠ []
  /-- A newline stands at the end of a row only. -/
  newlineLast : ∀ row ∈ rows, '\n' ∉ row.dropLast
  /-- A row that another one follows ends in a newline. -/
  terminated : rows.Pairwise fun row _ ↦ row.getLast? = some '\n'

/-! ### Cutting a text into rows -/

private theorem physicalLines_newline (body : Text) (h : '\n' ∉ body) (r : Text) :
    physicalLines (body ++ '\n' :: r) = (body ++ ['\n']) :: physicalLines r := by
  induction body with
  | nil => simp [physicalLines]
  | cons c body ih =>
    obtain ⟨hc, hb⟩ := not_or.mp (mt List.mem_cons.mpr h)
    rw [List.cons_append, physicalLines, if_neg (Ne.symm hc), ih hb]
    rfl

private theorem physicalLines_open (row : Text) (hne : row ≠ []) (h : '\n' ∉ row) :
    physicalLines row = [row] := by
  induction row with
  | nil => exact absurd rfl hne
  | cons c r ih =>
    obtain ⟨hc, hr⟩ := not_or.mp (mt List.mem_cons.mpr h)
    rw [physicalLines, if_neg (Ne.symm hc)]
    cases r with
    | nil => rfl
    | cons d r => rw [ih (List.cons_ne_nil d r) hr]

/-- No rows are the lines of the empty text. -/
theorem AreRows.nil : AreRows [] := ⟨by simp, by simp, .nil⟩

/-- Without the first one, rows are still rows. -/
theorem AreRows.tail {row : Text} {rows : List Text} (h : AreRows (row :: rows)) : AreRows rows :=
  ⟨fun r hr ↦ h.nonempty r (List.mem_cons_of_mem row hr),
    fun r hr ↦ h.newlineLast r (List.mem_cons_of_mem row hr), h.terminated.tail⟩

private theorem dropLast_append_newline {row : Text} (h : row.getLast? = some '\n') :
    row.dropLast ++ ['\n'] = row := by
  obtain ⟨body, rfl⟩ := List.getLast?_eq_some_iff.mp h
  rw [List.dropLast_concat]

private theorem notMem_of_dropLast {row : Text} (h : '\n' ∉ row.dropLast)
    (hl : row.getLast? ≠ some '\n') : '\n' ∉ row := by
  rcases List.eq_nil_or_concat row with rfl | ⟨body, last, hc⟩
  · exact List.not_mem_nil
  · rw [List.concat_eq_append] at hc
    subst hc
    rw [List.dropLast_concat] at h
    rw [List.getLast?_concat] at hl
    simp only [List.mem_append, List.mem_singleton, not_or]
    exact ⟨h, fun he ↦ hl (congrArg some he.symm)⟩

/-- Rows come back when the text that they make up is cut up again. -/
theorem physicalLines_flatten {rows : List Text} (h : AreRows rows) :
    physicalLines rows.flatten = rows := by
  induction rows with
  | nil => rfl
  | cons row rows ih =>
    have hn := h.newlineLast row List.mem_cons_self
    rw [List.flatten_cons]
    by_cases hl : row.getLast? = some '\n'
    · rw [← dropLast_append_newline hl, List.append_assoc, List.singleton_append,
        physicalLines_newline _ hn, ih h.tail]
    · cases rows with
      | nil =>
        rw [List.flatten_nil, List.append_nil]
        exact physicalLines_open row (h.nonempty row List.mem_cons_self) (notMem_of_dropLast hn hl)
      | cons next rows =>
        exact absurd ((List.pairwise_cons.mp h.terminated).1 next List.mem_cons_self) hl

private theorem AreRows.cons_newline {rows : List Text} (h : AreRows rows) :
    AreRows (['\n'] :: rows) := by
  refine ⟨?_, ?_, ?_⟩
  · rintro row (_ | ⟨_, hr⟩)
    · simp
    · exact h.nonempty row hr
  · rintro row (_ | ⟨_, hr⟩)
    · simp
    · exact h.newlineLast row hr
  · exact List.pairwise_cons.mpr ⟨fun _ _ ↦ rfl, h.terminated⟩

private theorem AreRows.cons_char {c : Char} (hc : c ≠ '\n') {row : Text} {rows : List Text}
    (h : AreRows (row :: rows)) : AreRows ((c :: row) :: rows) := by
  have hne := h.nonempty row List.mem_cons_self
  have hn := h.newlineLast row List.mem_cons_self
  refine ⟨?_, ?_, ?_⟩
  · rintro r (_ | ⟨_, hr⟩)
    · simp
    · exact h.nonempty r (List.mem_cons_of_mem row hr)
  · rintro r (_ | ⟨_, hr⟩)
    · rw [List.dropLast_cons_of_ne_nil hne]
      exact List.not_mem_cons_of_ne_of_not_mem (Ne.symm hc) hn
    · exact h.newlineLast r (List.mem_cons_of_mem row hr)
  · refine List.pairwise_cons.mpr ⟨fun r hr ↦ ?_, h.terminated.tail⟩
    rw [List.getLast?_cons_of_ne_nil hne]
    exact (List.pairwise_cons.mp h.terminated).1 r hr

/-- The physical lines of a text are rows. -/
theorem areRows_physicalLines (t : Text) : AreRows (physicalLines t) := by
  induction t with
  | nil => exact .nil
  | cons c r ih =>
    unfold physicalLines
    split
    · next hc =>
      subst hc
      exact .cons_newline ih
    · next hc =>
      cases h : physicalLines r with
      | nil => exact ⟨by simp, by simp, by simp⟩
      | cons row rows =>
        rw [h] at ih
        exact .cons_char hc ih

/-- The rows of a text are its pieces between newlines, each with the newline after it; after the
last piece there is none, and if it is empty it is no row. -/
theorem exists_pieces (t : Text) : ∃ pieces last, split '\n' t = pieces ++ [last] ∧
    physicalLines t = pieces.map (· ++ ['\n']) ++ if last = [] then [] else [last] := by
  induction t with
  | nil => exact ⟨[], [], rfl, rfl⟩
  | cons c r ih =>
    obtain ⟨pieces, last, hs, hp⟩ := ih
    by_cases hc : c = '\n'
    · refine ⟨[] :: pieces, last, ?_, ?_⟩
      · rw [split, if_pos hc, hs, List.cons_append]
      · rw [physicalLines, if_pos hc, hp, hc]
        rfl
    · rw [split, if_neg hc, hs, physicalLines, if_neg hc, hp]
      cases pieces with
      | nil => by_cases hl : last = [] <;> exact ⟨[], c :: last, rfl, by simp [hl]⟩
      | cons piece pieces => exact ⟨(c :: piece) :: pieces, last, rfl, rfl⟩

/-! ### Changing one row -/

/-- The terminator of a row is missing exactly when the row does not end in a newline. -/
theorem lineTerminator_cases (row : Text) :
    (lineTerminator row = [] ∧ row.getLast? ≠ some '\n') ∨ lineTerminator row = ['\n'] ∨
      lineTerminator row = ['\r', '\n'] := by
  unfold lineTerminator splitTerminator
  split
  · exact .inr (.inr rfl)
  · exact .inr (.inl rfl)
  · next h =>
    refine .inl ⟨rfl, fun hl ↦ ?_⟩
    obtain ⟨body, rfl⟩ := List.getLast?_eq_some_iff.mp hl
    exact h body.reverse (by simp)

/-- The content of a row has no newline. -/
theorem notMem_lineContent {row : Text} (h : '\n' ∉ row.dropLast) : '\n' ∉ lineContent row := by
  have hs := lineContent_append_lineTerminator row
  rcases lineTerminator_cases row with ⟨ht, hl⟩ | ht | ht
  · rw [ht, List.append_nil] at hs
    rw [hs]
    exact notMem_of_dropLast h hl
  · rw [ht] at hs
    rw [← hs, List.dropLast_concat] at h
    exact h
  · rw [ht] at hs
    rw [← hs, List.append_cons, List.dropLast_concat] at h
    exact fun hm ↦ h (List.mem_append_left _ hm)

/-- The content of a line ended by a newline lacks at most a carriage return at its end. -/
theorem exists_lineContent_newline {t : Text} (ht : t.getLast? ≠ some '\r') (r : Text) :
    ∃ shown, shown <+: r ∧ lineContent (t ++ r ++ ['\n']) = t ++ shown := by
  have hs := lineContent_append_lineTerminator (t ++ r ++ ['\n'])
  rcases lineTerminator_cases (t ++ r ++ ['\n']) with ⟨-, hl⟩ | hterm | hterm
  · exact absurd List.getLast?_concat hl
  · rw [hterm] at hs
    exact ⟨r, List.prefix_rfl, List.append_cancel_right hs⟩
  · rw [hterm, List.append_cons] at hs
    have hr := List.append_cancel_right hs
    rcases List.eq_nil_or_concat r with rfl | ⟨shown, last, hc⟩
    · rw [List.append_nil] at hr
      exact absurd (hr ▸ List.getLast?_concat) ht
    · rw [List.concat_eq_append] at hc
      subst hc
      refine ⟨shown, List.prefix_append shown [last], ?_⟩
      rw [← List.append_assoc] at hr ⊢
      exact (List.append_inj' hr rfl).1

/-- The content of a line ended by a newline is what stands before it, if that does not end in a
carriage return. -/
theorem lineContent_newline {t : Text} (ht : t.getLast? ≠ some '\r') :
    lineContent (t ++ ['\n']) = t := by
  obtain ⟨shown, hp, hs⟩ := exists_lineContent_newline ht []
  rw [List.prefix_nil.mp hp, List.append_nil] at hs
  exact hs

/-- A carriage return before the newline of a row belongs to the terminator. -/
theorem getLast?_lineContent {row : Text} (h : lineTerminator row = ['\n']) :
    (lineContent row).getLast? ≠ some '\r' := by
  intro hlast
  obtain ⟨body, hbody⟩ := List.getLast?_eq_some_iff.mp hlast
  have hrow := lineContent_append_lineTerminator row
  rw [h] at hrow
  have hreturn : lineTerminator row = ['\r', '\n'] := by
    rw [← hrow, hbody]
    simp [lineTerminator, splitTerminator]
  rw [h] at hreturn
  cases hreturn

/-- Content is read back from before the terminator of a row, if it ends in a carriage return or a
newline only where the old content did. -/
theorem lineContent_append_terminator {row content : Text}
    (h : ∀ c ∈ content.getLast?, c = '\r' ∨ c = '\n' → c ∈ (lineContent row).getLast?) :
    lineContent (content ++ lineTerminator row) = content := by
  have hrow := lineContent_append_lineTerminator row
  rcases lineTerminator_cases row with ⟨ht, hl⟩ | ht | ht
  · rw [ht, List.append_nil] at hrow ⊢
    have hs := lineContent_append_lineTerminator content
    rcases lineTerminator_cases content with ⟨hc, -⟩ | hc | hc
    · rwa [hc, List.append_nil] at hs
    · have hlast : content.getLast? = some '\n' := by rw [← hs, hc, List.getLast?_concat]
      exact absurd (hrow ▸ h '\n' hlast (.inr rfl)) hl
    · have hlast : content.getLast? = some '\n' := by
        rw [← hs, hc, List.append_cons, List.getLast?_concat]
      exact absurd (hrow ▸ h '\n' hlast (.inr rfl)) hl
  · have hreturn := getLast?_lineContent ht
    rw [ht]
    exact lineContent_newline fun hlast ↦ hreturn (h '\r' hlast (.inl rfl))
  · rw [ht]
    simp [lineContent, splitTerminator]

/-- Content of one line and the terminator of a row have a newline at the end only. -/
theorem notMem_dropLast_append_terminator (row : Text) {content : Text} (h : '\n' ∉ content) :
    '\n' ∉ (content ++ lineTerminator row).dropLast := by
  rcases lineTerminator_cases row with ⟨ht, -⟩ | ht | ht
  · rw [ht, List.append_nil]
    exact fun hm ↦ h (List.dropLast_subset content hm)
  · rw [ht, List.dropLast_concat]
    exact h
  · rw [ht, List.append_cons, List.dropLast_concat]
    simp [h]

/-- The terminator of a row that ends in a newline does so, too. -/
theorem getLast?_append_terminator {row : Text} (content : Text)
    (h : row.getLast? = some '\n') :
    (content ++ lineTerminator row).getLast? = some '\n' := by
  rcases lineTerminator_cases row with ⟨-, hn⟩ | ht | ht
  · exact absurd h hn
  · rw [ht, List.getLast?_concat]
  · rw [ht, List.append_cons, List.getLast?_concat]

/-- Rows that others follow end in newlines also after one of them has been replaced by one that
ends in a newline if the old one did. -/
theorem terminated_replace {above below : List Text} {row new : Text}
    (h : (above ++ row :: below).Pairwise fun row _ ↦ row.getLast? = some '\n')
    (hnew : row.getLast? = some '\n' → new.getLast? = some '\n') :
    (above ++ new :: below).Pairwise fun row _ ↦ row.getLast? = some '\n' := by
  obtain ⟨ha, hb, hab⟩ := List.pairwise_append.mp h
  obtain ⟨hrow, hbelow⟩ := List.pairwise_cons.mp hb
  refine List.pairwise_append.mpr ⟨ha, List.pairwise_cons.mpr ⟨fun r hr ↦ hnew (hrow r hr), hbelow⟩,
    fun r hr _ _ ↦ hab r hr row List.mem_cons_self⟩

/-- What may stand in place of a row: nothing, or a row that ends in a newline if the old one
did. -/
inductive Replaces (row : Text) : List Text → Prop
  | dropped : Replaces row []
  | changed (new : Text) (nonempty : new ≠ []) (newlineLast : '\n' ∉ new.dropLast)
      (terminated : row.getLast? = some '\n' → new.getLast? = some '\n') : Replaces row [new]

/-- New content of one line, before the terminator of a row, may stand in place of the row. -/
theorem Replaces.content (row : Text) {content : Text} (hne : content ≠ [])
    (hn : '\n' ∉ content) : Replaces row [content ++ lineTerminator row] :=
  .changed _ (by simp [hne]) (notMem_dropLast_append_terminator row hn)
    (getLast?_append_terminator content)

/-- Rows stay rows when one of them is replaced. -/
theorem AreRows.replace {above below left : List Text} {row : Text}
    (h : AreRows (above ++ row :: below)) (hr : Replaces row left) :
    AreRows (above ++ left ++ below) := by
  obtain ⟨hne, hn, hp⟩ := h
  cases hr with
  | dropped =>
    rw [List.append_nil]
    have hs : (above ++ below).Sublist (above ++ row :: below) :=
      (List.Sublist.refl above).append (List.sublist_cons_self row below)
    exact ⟨fun r h ↦ hne r (hs.subset h), fun r h ↦ hn r (hs.subset h), hp.sublist hs⟩
  | changed new hnew hnl hterm =>
    have hmem : ∀ r ∈ above ++ [new] ++ below, r = new ∨ r ∈ above ++ row :: below := by
      intro r hr
      simp only [List.mem_append, List.mem_cons, List.not_mem_nil, or_false] at hr ⊢
      rcases hr with (h | h) | h
      · exact .inr (.inl h)
      · exact .inl h
      · exact .inr (.inr (.inr h))
    refine ⟨fun r h ↦ ?_, fun r h ↦ ?_, ?_⟩
    · rcases hmem r h with rfl | h
      · exact hnew
      · exact hne r h
    · rcases hmem r h with rfl | h
      · exact hnl
      · exact hn r h
    · rw [List.append_assoc, List.singleton_append]
      exact terminated_replace hp hterm

end Spruce.Text
