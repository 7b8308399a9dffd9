import Mathlib.Data.List.Basic
import Spruce.Cleanup.Edit
import Spruce.Proofs.Text.Pieces

/-!
# Lines that declare one variable

A line that is deleted declares its variable with an initializer, and no comma outside strings and
brackets goes on from the initializer to another declarator (`deletesLine_iff`). A string begins at
any quote here, also at one in a regular expression or in a comment.
The annotation of the variable is not looked at: it ends at the first `=`, so another declarator
without an initializer may stand in it and is deleted along (`deletesLine_second`).
-/

namespace Spruce.Declaration

open Text

/-! ### Commas between declarators -/

/-- Where a scan stands after one more character, with brackets that are opened and closed by
characters of two classes. -/
def Scan.next (opens closes : Char → Bool) : Scan → Char → Scan
  | .quoted quote escaped depth, c =>
    if escaped then .quoted quote false depth
    else if c = '\\' then .quoted quote true depth
    else if c = quote then .code depth
    else .quoted quote false depth
  | .code depth, c =>
    if isQuote c then .quoted c false depth
    else if opens c then .code (depth + 1)
    else if closes c then .code (depth - 1)
    else .code depth

/-- A comma of the text stands outside strings and outside brackets. What a quote opens counts as a
string, whatever the quote stands in. -/
def HasOuterComma (opens closes : Char → Bool) (t : Text) : Prop :=
  ∃ before after, t = before ++ ',' :: after ∧
    before.foldl (Scan.next opens closes) (.code 0) = .code 0

/-- Whether a character opens a bracket of a type, angle brackets among them. -/
def isTypeOpening (c : Char) : Bool := isOpening c || c == '<'

/-- Whether a character closes a bracket of a type, angle brackets among them. -/
def isTypeClosing (c : Char) : Bool := isClosing c || c == '>'

private theorem hasTopLevelComma_cons (s : Scan) (c : Char) (r : Text) :
    hasTopLevelComma s (c :: r) = true ↔
      s = .code 0 ∧ c = ',' ∨ hasTopLevelComma (s.next isOpening isClosing c) r = true := by
  have hq : isQuote ',' = false := by decide
  have ho : isOpening ',' = false := by decide
  have hc : isClosing ',' = false := by decide
  cases s with
  | quoted quote escaped depth =>
    rw [hasTopLevelComma, Scan.next]
    split
    · simp
    · split
      · simp
      · split <;> simp
  | code depth =>
    rw [hasTopLevelComma, Scan.next]
    split
    · next h =>
      have hne : c ≠ ',' := by rintro rfl; simp_all
      simp [hne]
    · split
      · next h =>
        have hne : c ≠ ',' := by rintro rfl; simp_all
        simp [hne]
      · split
        · next h =>
          have hne : c ≠ ',' := by rintro rfl; simp_all
          simp [hne]
        · split
          · next h => simp [h.1, h.2]
          · next h =>
            constructor
            · exact .inr
            · rintro (⟨hd, hcomma⟩ | hr)
              · exact absurd ⟨hcomma, Scan.code.inj hd⟩ h
              · exact hr

private theorem hasTopLevelComma_iff (s : Scan) (t : Text) :
    hasTopLevelComma s t = true ↔ ∃ before after, t = before ++ ',' :: after ∧
      before.foldl (Scan.next isOpening isClosing) s = .code 0 := by
  induction t generalizing s with
  | nil => simp [hasTopLevelComma]
  | cons c r ih =>
    rw [hasTopLevelComma_cons, ih]
    constructor
    · rintro (⟨rfl, rfl⟩ | ⟨before, after, rfl, h⟩)
      · exact ⟨[], r, rfl, rfl⟩
      · exact ⟨c :: before, after, rfl, h⟩
    · rintro ⟨before, after, ht, h⟩
      cases before with
      | nil =>
        obtain ⟨rfl, -⟩ := List.cons.inj ht
        exact .inl ⟨h, rfl⟩
      | cons d before =>
        obtain ⟨rfl, rfl⟩ := List.cons.inj ht
        exact .inr ⟨before, after, rfl, h⟩

/-- The scan for commas finds the commas outside strings and brackets. -/
theorem hasTopLevelComma_iff_hasOuterComma (t : Text) :
    hasTopLevelComma (.code 0) t = true ↔ HasOuterComma isOpening isClosing t :=
  hasTopLevelComma_iff (.code 0) t

/-! ### The parts of a declaration -/

/-- Blanks alone, or a type annotation after its colon, with the blanks around both. -/
def IsTyping (t : Text) : Prop :=
  '=' ∉ t ∧ (IsBlanks t ∨ ∃ type, type ≠ [] ∧ trimStart t = ':' :: type)

/-- The line begins with a declaration of `name`: after blanks the declaring word, then blanks, the
name, its annotation, an `=` and the rest. -/
def Declares (line name typing init : Text) : Prop :=
  ∃ lead word gap, line = lead ++ word ++ gap ++ name ++ typing ++ '=' :: init ∧
    IsBlanks lead ∧ word ∈ declarators ∧ IsBlanks gap ∧ gap ≠ [] ∧ IsTyping typing

private theorem notMem_blanks {t : Text} (h : IsBlanks t) : '=' ∉ t := h.notMem (by decide)

/-- An annotation ends at an `=` where, after blanks, the `=` stands itself or a colon and something
before the first `=`. -/
theorem exists_typing_iff {t init : Text} :
    (∃ typing, t = typing ++ '=' :: init ∧ IsTyping typing) ↔
      trimStart t = '=' :: init ∨ ∃ r, trimStart t = ':' :: r ∧
        r.takeWhile (· != '=') ≠ [] ∧ r.dropWhile (· != '=') = '=' :: init := by
  have hequals : isBlank '=' = false := by decide
  have hcolon : isBlank ':' = false := by decide
  constructor
  · rintro ⟨typing, rfl, hno, hb | ⟨type, hne, htype⟩⟩
    · rw [hb.trimStart_append, trimStart_cons hequals]
      exact .inl rfl
    · obtain ⟨lead, hl, htyping⟩ := exists_blanks typing
      rw [htype] at htyping
      rw [htyping, List.mem_append, List.mem_cons, not_or, not_or] at hno
      have hall := forall_bne_iff.mpr hno.2.2
      refine .inr ⟨type ++ '=' :: init, ?_, ?_, dropWhile_run_cons hall (by decide) init⟩
      · rw [htyping, List.append_assoc, hl.trimStart_append, List.cons_append,
          trimStart_cons hcolon]
      · rw [takeWhile_run_cons hall (by decide)]
        exact hne
  · obtain ⟨blanks, hb, ht⟩ := exists_blanks t
    rintro (hs | ⟨r, hs, hne, hd⟩)
    · rw [hs] at ht
      exact ⟨blanks, ht, notMem_blanks hb, .inl hb⟩
    · obtain ⟨hr, htype, -⟩ := takeWhile_dropWhile_iff.mp ⟨rfl, hd⟩
      refine ⟨blanks ++ ':' :: r.takeWhile (· != '='), ?_, ?_, .inr ⟨_, hne, ?_⟩⟩
      · rw [ht, hs, List.append_assoc, List.cons_append, ← hr]
      · have hno : '=' ∉ r.takeWhile (· != '=') := forall_bne_iff.mp htype
        simp [notMem_blanks hb, hno]
      · rw [hb.trimStart_append, trimStart_cons hcolon]

private theorem isInitialized_iff (t : Text) : isInitialized t = true ↔
    ∃ typing init, t = typing ++ '=' :: init ∧ IsTyping typing ∧
      isInitializer init = true := by
  constructor
  · intro h
    unfold isInitialized at h
    split at h
    · next init hs =>
      obtain ⟨typing, ht, ha⟩ := exists_typing_iff.mpr (.inl hs)
      exact ⟨typing, init, ht, ha, h⟩
    · next r hs =>
      rw [Bool.and_eq_true, Bool.not_eq_true', List.isEmpty_eq_false_iff] at h
      obtain ⟨hne, hi⟩ := h
      split at hi
      · next c init hd =>
        obtain ⟨rfl, -⟩ := dropWhile_bne_eq_cons_iff.mp hd
        obtain ⟨typing, ht, ha⟩ := exists_typing_iff.mpr (.inr ⟨r, hs, hne, hd⟩)
        exact ⟨typing, init, ht, ha, hi⟩
      · cases hi
    · cases h
  · rintro ⟨typing, init, ht, ha, hi⟩
    rcases exists_typing_iff.mp ⟨typing, ht, ha⟩ with hs | ⟨r, hs, hne, hd⟩
    · rw [isInitialized, hs]
      exact hi
    · rw [isInitialized, hs]
      simp only [hd, hi, Bool.and_true, Bool.not_eq_true', List.isEmpty_eq_false_iff]
      exact hne

private theorem declaresAfterBlanks_iff (name t : Text) : declaresAfterBlanks name t = true ↔
    ∃ gap rest, t = gap ++ name ++ rest ∧ IsBlanks gap ∧ gap ≠ [] ∧
      isInitialized rest = true := by
  induction t with
  | nil =>
    constructor
    · intro h
      cases h
    · rintro ⟨gap, rest, ht, -, hne, -⟩
      simp [hne] at ht
  | cons c r ih =>
    rw [declaresAfterBlanks, Bool.and_eq_true, Bool.or_eq_true, ih]
    constructor
    · rintro ⟨hc, h | ⟨gap, rest, rfl, hg, -, hi⟩⟩
      · split at h
        · next rest hp =>
          refine ⟨[c], rest, ?_, by simpa [IsBlanks] using hc, by simp, h⟩
          rw [← List.append_eq_of_isPrefixOf?_eq_some hp]
          rfl
        · cases h
      · exact ⟨c :: gap, rest, rfl, List.forall_mem_cons.mpr ⟨hc, hg⟩, by simp, hi⟩
    · rintro ⟨gap, rest, ht, hg, hne, hi⟩
      cases gap with
      | nil => exact absurd rfl hne
      | cons d gap =>
        rw [List.cons_append, List.cons_append] at ht
        obtain ⟨rfl, rfl⟩ := List.cons.inj ht
        obtain ⟨hd, hg⟩ := List.forall_mem_cons.mp hg
        refine ⟨hd, ?_⟩
        cases gap with
        | nil =>
          left
          have hp : name.isPrefixOf? (name ++ rest) = some rest :=
            List.isPrefixOf?_eq_some_iff_append_eq.mpr rfl
          rw [List.nil_append, hp]
          exact hi
        | cons e gap => exact .inr ⟨e :: gap, rest, rfl, hg, by simp, hi⟩

private theorem trimStart_declarator {word : Text} (h : word ∈ declarators) (r : Text) :
    trimStart (word ++ r) = word ++ r := by
  have hall : ∀ word ∈ declarators, word.head?.any (!isBlank ·) = true := by decide
  have hw := hall word h
  cases word with
  | nil => cases hw
  | cons c word => exact trimStart_cons (by simpa using hw) (word ++ r)

/-- A declaration is recognised exactly when the line has its parts. -/
theorem declares_iff (name line : Text) : declares name line = true ↔
    ∃ typing init, Declares line name typing init ∧ isInitializer init = true := by
  rw [declares, List.any_eq_true]
  constructor
  · rintro ⟨word, hw, h⟩
    split at h
    · next r hp =>
      obtain ⟨lead, hlead, hline⟩ := exists_blanks line
      obtain ⟨gap, rest, rfl, hg, hne, hi⟩ := (declaresAfterBlanks_iff name r).mp h
      obtain ⟨typing, init, rfl, ha, hinit⟩ := (isInitialized_iff rest).mp hi
      refine ⟨typing, init, ⟨lead, word, gap, ?_, hlead, hw, hg, hne, ha⟩, hinit⟩
      rw [← List.append_eq_of_isPrefixOf?_eq_some hp] at hline
      simpa using hline
    · cases h
  · rintro ⟨typing, init, ⟨lead, word, gap, rfl, hlead, hw, hg, hne, ha⟩, hinit⟩
    refine ⟨word, hw, ?_⟩
    have hi : isInitialized (typing ++ '=' :: init) = true :=
      (isInitialized_iff _).mpr ⟨typing, init, rfl, ha, hinit⟩
    have hd : declaresAfterBlanks name (gap ++ name ++ (typing ++ '=' :: init)) = true :=
      (declaresAfterBlanks_iff name _).mpr ⟨gap, _, rfl, hg, hne, hi⟩
    have hp : word.isPrefixOf? (trimStart (lead ++ word ++ gap ++ name ++ typing ++
        '=' :: init)) = some (gap ++ name ++ (typing ++ '=' :: init)) := by
      simp only [List.append_assoc]
      rw [hlead.trimStart_append, trimStart_declarator hw]
      exact List.isPrefixOf?_eq_some_iff_append_eq.mpr rfl
    rw [hp]
    exact hd

/-- The initializer of a declaration is what follows the first `=` of its line. -/
theorem Declares.splitFirst_eq {line name typing init : Text}
    (h : Declares line name typing init) (hn : '=' ∉ name) :
    ∃ before, splitFirst '=' line = some (before, init) := by
  obtain ⟨lead, word, gap, rfl, hlead, hw, hg, -, ha, -⟩ := h
  have hword : ∀ word ∈ declarators, '=' ∉ word := by decide
  refine ⟨_, splitFirst_eq_some_iff.mpr ⟨rfl, ?_⟩⟩
  simp [notMem_blanks hlead, hword word hw, notMem_blanks hg, hn, ha]

/-! ### Deleted lines -/

/-- A line declares one variable alone exactly when it has no braces and no comma goes on from the
initializer. -/
theorem isStandalone_iff {line name : Text} (hn : '=' ∉ name) : isStandalone line name = true ↔
    '{' ∉ line ∧ '}' ∉ line ∧ ∃ typing init, Declares line name typing init ∧
      isInitializer init = true ∧ ¬ HasOuterComma isOpening isClosing init := by
  have hseveral {typing init : Text} (h : Declares line name typing init) :
      declaresSeveral line = hasTopLevelComma (.code 0) init := by
    obtain ⟨before, hs⟩ := h.splitFirst_eq hn
    rw [declaresSeveral, hs]
  simp only [isStandalone, hasDeclarationShape, Bool.and_eq_true, Bool.not_eq_true',
    List.contains_eq_mem, decide_eq_false_iff_not, declares_iff]
  constructor
  · rintro ⟨⟨⟨ho, hc⟩, typing, init, hd, hi⟩, hs⟩
    refine ⟨ho, hc, typing, init, hd, hi, ?_⟩
    rw [← hasTopLevelComma_iff_hasOuterComma, ← hseveral hd, hs]
    exact Bool.false_ne_true
  · rintro ⟨ho, hc, typing, init, hd, hi, hno⟩
    refine ⟨⟨⟨ho, hc⟩, typing, init, hd, hi⟩, ?_⟩
    rw [← hasTopLevelComma_iff_hasOuterComma, ← hseveral hd] at hno
    simpa using hno

/-- A line of a source is deleted along with a variable exactly when it has no braces, declares the
variable with an initializer, and no comma outside strings and brackets goes on from that
initializer. The annotation is not looked at. -/
theorem deletesLine_iff {s : Source} {n : Nat} {line name : Text} (hl : s.line? n = some line)
    (hn : ∀ c ∈ name, isIdentifier c = true) :
    (∃ rest, s.removeDeclaration? n name = some (.deletedLine, rest)) ↔
      '{' ∉ line ∧ '}' ∉ line ∧ ∃ typing init, Declares line name typing init ∧
        isInitializer init = true ∧ ¬ HasOuterComma isOpening isClosing init := by
  have hequals : '=' ∉ name := fun hm ↦ absurd (hn '=' hm) (by decide)
  rw [← isStandalone_iff hequals, Source.removeDeclaration?, hl, Option.bind_some]
  constructor
  · rintro ⟨rest, h⟩
    split at h
    · next hs => exact hs
    · split at h
      · obtain ⟨updated, -, h⟩ := Option.bind_eq_some_iff.mp h
        obtain ⟨edited, -, h⟩ := Option.map_eq_some_iff.mp h
        cases h
      · cases h
  · intro hs
    obtain ⟨row, hrow, -⟩ := Option.map_eq_some_iff.mp hl
    rw [if_pos hs, Source.removeLine?, hrow]
    exact ⟨_, rfl⟩

/-- A variable with a type of two parameters and a call of two arguments. -/
theorem deletesLine_iff_generic :
    let line : Text := "let x: Map<A, B> = f(1, ',')".toList
    let s : Source := ⟨⟨"a.ts".toList⟩, [line]⟩
    s.line? 1 = some line ∧ (∀ c ∈ ['x'], isIdentifier c = true) ∧
      ((∃ rest, s.removeDeclaration? 1 ['x'] = some (.deletedLine, rest)) ↔
        '{' ∉ line ∧ '}' ∉ line ∧ ∃ typing init, Declares line ['x'] typing init ∧
          isInitializer init = true ∧ ¬ HasOuterComma isOpening isClosing init) := by
  intro line s
  have hl : s.line? 1 = some line := by decide
  have hn : ∀ c ∈ ['x'], isIdentifier c = true := List.forall_mem_singleton.mpr (by decide)
  exact ⟨hl, hn, deletesLine_iff hl hn⟩

/-- A second declarator in front of the first `=` is deleted along with the variable. -/
theorem deletesLine_second :
    let line : Text := "let x: T, y = 2".toList
    let s : Source := ⟨⟨"a.ts".toList⟩, [line]⟩
    (∀ c ∈ ['x'], isIdentifier c = true) ∧ s.line? 1 = some line ∧
      verdict line ['x'] = .safeToRemove ∧
      s.removeDeclaration? 1 ['x'] = some (.deletedLine, ⟨⟨"a.ts".toList⟩, []⟩) ∧
      Declares line ['x'] ": T, y ".toList " 2".toList ∧
      HasOuterComma isTypeOpening isTypeClosing ": T, y ".toList := by
  have hn : ∀ c ∈ ['x'], isIdentifier c = true := List.forall_mem_singleton.mpr (by decide)
  have htyping : IsTyping ": T, y ".toList := ⟨by decide, .inr ⟨" T, y ".toList, by decide, by rfl⟩⟩
  have hdeclares : Declares "let x: T, y = 2".toList ['x'] ": T, y ".toList " 2".toList :=
    ⟨[], "let".toList, [' '], by rfl, by decide, by decide, by decide, by decide, htyping⟩
  exact ⟨hn, by rfl, by decide, by decide, hdeclares, ": T".toList, " y ".toList, by decide⟩

end Spruce.Declaration
