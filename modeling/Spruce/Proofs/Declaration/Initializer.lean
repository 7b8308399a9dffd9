import Spruce.Proofs.Cleanup.Treatment
import Spruce.Proofs.Declaration.Declarators

/-!
# Declarations without a value on their line

An initializer is blanks and then something on one line (`isInitializer_iff`), and that something
may be blank too. So the line of a declaration whose value stands further below is kept if it ends
in its `=` and deleted if a blank follows (`deletesLine_blank`): blanks at the end of a line turn a
refusal into a deletion exactly there (`deletesLine_append_iff`).
-/

namespace Spruce.Declaration

open Text

variable {line name typing init t blanks : Text}

/-! ### Initializers -/

/-- Nothing stands on the last line of a text. -/
def LastLineEmpty (t : Text) : Prop := ∀ c ∈ t.getLast?, c = '\n'

instance (t : Text) : Decidable (LastLineEmpty t) :=
  match h : t.getLast? with
  | none => isTrue (by simp [LastLineEmpty, h])
  | some c => decidable_of_iff (c = '\n') (by simp [LastLineEmpty, h])

/-- An initializer is blanks, and then something on one line. -/
theorem isInitializer_iff (t : Text) : isInitializer t = true ↔
    ∃ above last, t = above ++ last ∧ IsBlanks above ∧ last ≠ [] ∧ '\n' ∉ last := by
  rw [isInitializer]
  split
  · next hs =>
    have hn : '\n' ∉ t := splitLast_eq_none_iff.mp hs
    rw [Bool.not_eq_true', List.isEmpty_eq_false_iff]
    constructor
    · exact fun hne ↦ ⟨[], t, rfl, isBlanks_nil, hne, hn⟩
    · rintro ⟨above, last, rfl, -, hne, -⟩
      exact List.append_ne_nil_of_right_ne_nil above hne
  · next above last hs =>
    obtain ⟨rfl, hn⟩ := splitLast_eq_some_iff.mp hs
    rw [Bool.and_eq_true, Bool.not_eq_true', List.isEmpty_eq_false_iff, List.all_eq_true]
    constructor
    · rintro ⟨hb, hne⟩
      exact ⟨above ++ ['\n'], last, by simp,
        List.forall_mem_append.mpr ⟨hb, List.forall_mem_singleton.mpr (by decide)⟩, hne, hn⟩
    · rintro ⟨blanks, rest, hcut, hb, hne, hrest⟩
      -- The last newline stands among the blanks.
      rcases List.append_eq_append_iff.mp hcut with ⟨extra, rfl, hlast⟩ | ⟨extra, rfl, hlast⟩
      · obtain ⟨ha, ho⟩ := List.forall_mem_append.mp hb
        refine ⟨ha, ?_⟩
        cases extra with
        | nil => exact absurd (by rw [List.nil_append] at hlast; simp [← hlast]) hrest
        | cons d extra =>
          rw [(List.cons.inj hlast).2]
          exact List.append_ne_nil_of_right_ne_nil extra hne
      · exact absurd (by rw [hlast]; simp) hrest

/-- Something stands on the last line of an initializer. -/
theorem not_lastLineEmpty_of_isInitializer (h : isInitializer t = true) : ¬ LastLineEmpty t := by
  obtain ⟨above, last, rfl, -, hne, hlast⟩ := (isInitializer_iff t).mp h
  rw [LastLineEmpty, List.getLast?_append_of_ne_nil above hne]
  obtain ⟨body, c, rfl⟩ := (List.eq_nil_or_concat' last).resolve_left hne
  intro hc
  have hn : c = '\n' := hc c (by simp)
  simp [hn] at hlast

/-- Blanks are taken for an initializer exactly where some of them stand on the last line. -/
theorem isInitializer_blanks_iff (h : IsBlanks t) :
    isInitializer t = true ↔ ¬ LastLineEmpty t := by
  constructor
  · exact not_lastLineEmpty_of_isInitializer
  · intro hne
    simp only [LastLineEmpty, not_forall] at hne
    obtain ⟨c, hc, hn⟩ := hne
    obtain ⟨body, rfl⟩ := List.getLast?_eq_some_iff.mp hc
    refine (isInitializer_iff _).mpr ⟨body, [c], rfl, ?_, List.cons_ne_nil c [], ?_⟩
    · exact fun d hd ↦ h d (List.mem_append_left [c] hd)
    · simpa using Ne.symm hn

private theorem lastLineEmpty_append : LastLineEmpty (t ++ blanks) ↔
    LastLineEmpty blanks ∧ (blanks = [] → LastLineEmpty t) := by
  cases hb : blanks.getLast? with
  | none =>
    obtain rfl := List.getLast?_eq_none_iff.mp hb
    simp [LastLineEmpty]
  | some c =>
    have hne : blanks ≠ [] := by
      rintro rfl
      cases hb
    simp [LastLineEmpty, List.getLast?_append, hb, hne]

/-- Blanks at the end make an initializer exactly of blanks whose last line is empty. -/
theorem isInitializer_append_blanks_iff (hb : IsBlanks blanks) :
    isInitializer (t ++ blanks) = true ∧ ¬ isInitializer t = true ↔
      IsBlanks t ∧ LastLineEmpty t ∧ ¬ LastLineEmpty blanks := by
  by_cases ht : IsBlanks t
  · have hall : IsBlanks (t ++ blanks) := List.forall_mem_append.mpr ⟨ht, hb⟩
    rw [isInitializer_blanks_iff hall, isInitializer_blanks_iff ht, lastLineEmpty_append]
    by_cases hnil : blanks = []
    · subst hnil
      simp [LastLineEmpty]
    · simp [ht, hnil]
      tauto
  · simp only [ht, false_and, iff_false, not_and, not_not]
    intro h
    obtain ⟨above, last, hcut, ha, hne, hlast⟩ := (isInitializer_iff _).mp h
    rcases List.append_eq_append_iff.mp hcut with ⟨extra, rfl, -⟩ | ⟨extra, rfl, rfl⟩
    · exact absurd (List.forall_mem_append.mp ha).1 ht
    · refine (isInitializer_iff _).mpr ⟨above, extra, rfl, ha, ?_, ?_⟩
      · rintro rfl
        rw [List.append_nil] at ht
        exact ht ha
      · exact fun hm ↦ hlast (List.mem_append_left blanks hm)

/-! ### Lines that are deleted -/

/-- The whole line goes along with the declaration of `name`. -/
def DeletesLine (s : Source) (n : Nat) (name : Text) : Prop :=
  ∃ rest, s.removeDeclaration? n name = some (.deletedLine, rest)

/-- The line declares `name` without braces, and `init` follows the `=`. -/
def Opens (line name init : Text) : Prop :=
  '{' ∉ line ∧ '}' ∉ line ∧ ∃ typing, Declares line name typing init

/-- Something other than blanks follows the first `=` of the line. -/
def HasValue (line : Text) : Prop :=
  ∃ before init, splitFirst '=' line = some (before, init) ∧ ¬ IsBlanks init

/-- A line is deleted where it declares the variable alone. -/
theorem deletesLine_iff_isStandalone {s : Source} {n : Nat} (hl : s.line? n = some line) :
    DeletesLine s n name ↔ isStandalone line name = true := by
  obtain ⟨row, hrow, rfl⟩ := Option.map_eq_some_iff.mp hl
  rw [DeletesLine, Source.removeDeclaration?_eq hrow]
  split
  · next h => simp [h]
  · next h =>
    split <;> simp [h]

/-- A line is deleted where it opens with an initializer that no other declarator follows. -/
theorem deletesLine_iff_opens {s : Source} {n : Nat} (hl : s.line? n = some line)
    (hn : '=' ∉ name) : DeletesLine s n name ↔ ∃ init, Opens line name init ∧
      isInitializer init = true ∧ ¬ HasOuterComma isOpening isClosing init := by
  rw [deletesLine_iff_isStandalone hl, isStandalone_iff hn]
  constructor
  · rintro ⟨ho, hc, typing, init, hd, hi⟩
    exact ⟨init, ⟨ho, hc, typing, hd⟩, hi⟩
  · rintro ⟨init, ⟨ho, hc, typing, hd⟩, hi⟩
    exact ⟨ho, hc, typing, init, hd, hi⟩

/-- What follows the `=` of a declaration follows the first one of its line. -/
theorem Opens.splitFirst_eq (h : Opens line name init) (hn : '=' ∉ name) :
    ∃ before, splitFirst '=' line = some (before, init) := by
  obtain ⟨-, -, typing, hd⟩ := h
  exact hd.splitFirst_eq hn

/-- There is one initializer at most, for a name without `=`. -/
theorem Opens.unique {other : Text} (h : Opens line name init) (ho : Opens line name other)
    (hn : '=' ∉ name) : init = other := by
  obtain ⟨before, hs⟩ := h.splitFirst_eq hn
  obtain ⟨before', hs'⟩ := ho.splitFirst_eq hn
  exact (Prod.mk.inj (Option.some.inj (hs.symm.trans hs'))).2

/-- Blanks at the end of a line follow its `=`. -/
theorem opens_append_blanks_iff (hb : IsBlanks blanks) : Opens (line ++ blanks) name init ↔
    ∃ init', init = init' ++ blanks ∧ Opens line name init' := by
  have hopen : '{' ∉ blanks := hb.notMem (by decide)
  have hclose : '}' ∉ blanks := hb.notMem (by decide)
  simp only [Opens, List.mem_append, hopen, hclose, or_false]
  constructor
  · rintro ⟨ho, hc, typing, lead, word, gap, hcut, hd⟩
    obtain ⟨init', hline, hinit⟩ := exists_of_append_blanks hb (by decide) hcut
    exact ⟨init', hinit, ho, hc, typing, lead, word, gap, hline, hd⟩
  · rintro ⟨init', rfl, ho, hc, typing, lead, word, gap, rfl, hd⟩
    exact ⟨ho, hc, typing, lead, word, gap, by simp, hd⟩

private theorem not_hasOuterComma_blanks (h : IsBlanks t) :
    ¬ HasOuterComma isOpening isClosing t := by
  rintro ⟨before, after, rfl, -⟩
  have hcomma : ',' ∉ before ++ ',' :: after := h.notMem (by decide)
  exact hcomma (by simp)

private theorem hasOuterComma_append (h : HasOuterComma isOpening isClosing t) (r : Text) :
    HasOuterComma isOpening isClosing (t ++ r) := by
  obtain ⟨before, after, rfl, hs⟩ := h
  exact ⟨before, after ++ r, by simp, hs⟩

/-- A line whose first `=` nothing but blanks follow is deleted exactly if it declares the variable
without braces and some of these blanks stand on its last line; and blanks at its end get a line
deleted that was kept before exactly if it declares the variable without braces and its last line
ends in the `=` or is empty after it. -/
theorem deletesLine_append_iff {s s' : Source} {n n' : Nat} (hl : s.line? n = some line)
    (hl' : s'.line? n' = some (line ++ blanks)) (hb : IsBlanks blanks)
    (hn : ∀ c ∈ name, isIdentifier c = true) :
    (DeletesLine s n name ∧ ¬ HasValue line ↔
      ∃ init, Opens line name init ∧ IsBlanks init ∧ ¬ LastLineEmpty init) ∧
    (DeletesLine s' n' name ∧ ¬ DeletesLine s n name ↔
      ∃ init, Opens line name init ∧ IsBlanks init ∧ LastLineEmpty init ∧
        ¬ LastLineEmpty blanks) := by
  have hequals : '=' ∉ name := fun hm ↦ absurd (hn '=' hm) (by decide)
  rw [deletesLine_iff_opens hl hequals, deletesLine_iff_opens hl' hequals]
  constructor
  · constructor
    · rintro ⟨⟨init, ho, hi, -⟩, hno⟩
      obtain ⟨before, hs⟩ := ho.splitFirst_eq hequals
      exact ⟨init, ho, not_not.mp fun hblank ↦ hno ⟨before, init, hs, hblank⟩,
        not_lastLineEmpty_of_isInitializer hi⟩
    · rintro ⟨init, ho, hblank, hlast⟩
      refine ⟨⟨init, ho, (isInitializer_blanks_iff hblank).mpr hlast,
        not_hasOuterComma_blanks hblank⟩, ?_⟩
      rintro ⟨before, init', hs', hvalue⟩
      obtain ⟨before', hs⟩ := ho.splitFirst_eq hequals
      obtain ⟨-, rfl⟩ := Prod.mk.inj (Option.some.inj (hs.symm.trans hs'))
      exact hvalue hblank
  · simp only [opens_append_blanks_iff hb]
    constructor
    · rintro ⟨⟨_, ⟨init, rfl, ho⟩, hi, hcomma⟩, hkept⟩
      have hno : ¬ isInitializer init = true := fun hinit ↦
        hkept ⟨init, ho, hinit, fun h ↦ hcomma (hasOuterComma_append h blanks)⟩
      exact ⟨init, ho, (isInitializer_append_blanks_iff hb).mp ⟨hi, hno⟩⟩
    · rintro ⟨init, ho, h⟩
      obtain ⟨hi, hno⟩ := (isInitializer_append_blanks_iff hb).mpr h
      have hblank : IsBlanks (init ++ blanks) := List.forall_mem_append.mpr ⟨h.1, hb⟩
      refine ⟨⟨_, ⟨init, rfl, ho⟩, hi, not_hasOuterComma_blanks hblank⟩, ?_⟩
      rintro ⟨other, ho', hi', -⟩
      exact hno (ho.unique ho' hequals ▸ hi')

/-- A variable with an annotation, and a blank beyond ASCII after the `=`. -/
theorem deletesLine_append_iff_annotated :
    let line : Text := "let x: T =".toList
    let blanks : Text := ['\u00a0']
    let s : Source := ⟨⟨"a.ts".toList⟩, [line]⟩
    let s' : Source := ⟨⟨"a.ts".toList⟩, [line ++ blanks]⟩
    s.line? 1 = some line ∧ s'.line? 1 = some (line ++ blanks) ∧ IsBlanks blanks ∧
      (∀ c ∈ ['x'], isIdentifier c = true) ∧
      (DeletesLine s 1 ['x'] ∧ ¬ HasValue line ↔
        ∃ init, Opens line ['x'] init ∧ IsBlanks init ∧ ¬ LastLineEmpty init) ∧
      (DeletesLine s' 1 ['x'] ∧ ¬ DeletesLine s 1 ['x'] ↔
        ∃ init, Opens line ['x'] init ∧ IsBlanks init ∧ LastLineEmpty init ∧
          ¬ LastLineEmpty blanks) := by
  intro line blanks s s'
  have hl : s.line? 1 = some line := by decide
  have hl' : s'.line? 1 = some (line ++ blanks) := by decide
  have hb : IsBlanks blanks := by decide
  have hn : ∀ c ∈ ['x'], isIdentifier c = true := List.forall_mem_singleton.mpr (by decide)
  exact ⟨hl, hl', hb, hn, deletesLine_append_iff hl hl' hb hn⟩

/-- A blank after the `=` gets a line deleted whose value stands on the next line. -/
theorem deletesLine_blank :
    let line : Text := "const x =".toList
    let value : Text := "  compute()\n".toList
    let source (line : Text) : Source := ⟨⟨"a.ts".toList⟩, [line ++ ['\n'], value]⟩
    (∀ c ∈ ['x'], isIdentifier c = true) ∧
      (source line).line? 1 = some line ∧
      (source line).removeDeclaration? 1 ['x'] = none ∧
      (source (line ++ [' '])).line? 1 = some (line ++ [' ']) ∧
      (source (line ++ [' '])).removeDeclaration? 1 ['x'] =
        some (.deletedLine, ⟨⟨"a.ts".toList⟩, [value]⟩) ∧
      ¬ HasValue (line ++ [' ']) := by
  intro line value source
  have hn : ∀ c ∈ ['x'], isIdentifier c = true := List.forall_mem_singleton.mpr (by decide)
  have hsplit : splitFirst '=' (line ++ [' ']) = some ("const x ".toList, [' ']) := by decide
  have hblank : ¬ HasValue (line ++ [' ']) := by
    rintro ⟨before, init, hs, hvalue⟩
    obtain ⟨-, rfl⟩ := Prod.mk.inj (Option.some.inj (hsplit.symm.trans hs))
    exact hvalue (by decide)
  exact ⟨hn, by decide, by decide, by decide, by decide, hblank⟩

end Spruce.Declaration
