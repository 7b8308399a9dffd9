import Spruce.Proofs.Declaration.Declarators

/-!
# Functions of several parameters

A function of several parameters is recognised by a list of parameters that has a comma and no
parentheses in it (`mentionsMultiParamFunction_iff`). A parameter with parentheses of its own, such
as a default that is a call, hides the list from the recogniser (`verdict_nested`): a line on which
an arrow follows a list of several parameters is safe to remove exactly if it declares the variable
alone, no other ground speaks against it, and all such lists on it are hidden in this way
(`verdict_arrowList_iff`).
-/

namespace Spruce.Declaration

open Text

variable {line name params t r : Text}

/-! ### Recognised signatures -/

/-- No parentheses. -/
def IsFlat (t : Text) : Prop := ∀ c ∈ t, isInsideParens c = true

instance (t : Text) : Decidable (IsFlat t) := List.decidableBAll (isInsideParens · = true) t

/-- An arrow follows, perhaps after a return type. -/
def LeadsToArrow (t : Text) : Prop :=
  ∃ typing rest, t = typing ++ '=' :: '>' :: rest ∧ IsTyping typing

/-- The text begins with parameters, at least two and none with parentheses, and leads to an
arrow. -/
def BeginsWithArrowFunction (t : Text) : Prop :=
  ∃ params after, t = '(' :: (params ++ ')' :: after) ∧ IsFlat params ∧ ',' ∈ params ∧
    LeadsToArrow after

/-- The text begins with the whole word `function` and with parameters that have a comma before the
first parenthesis that closes. -/
def BeginsWithFunction (t : Text) : Prop :=
  ∃ between params after, t = functionWord ++ between ++ '(' :: params ++ ',' :: after ∧
    (∀ c ∈ between.head?, isWord c = false) ∧ '(' ∉ between ∧ ')' ∉ params

/-- A function whose several parameters can be told stands somewhere on the line. -/
def HasSignature (line : Text) : Prop :=
  ∃ before rest, line = before ++ rest ∧ (BeginsWithArrowFunction rest ∨
    BeginsWithFunction rest ∧ ∀ c ∈ before.getLast?, isWord c = false)

private theorem startsArrow_iff : startsArrow t = true ↔ ∃ rest, t = '=' :: '>' :: rest := by
  rw [startsArrow, List.isPrefixOf_iff_prefix]
  exact exists_congr fun rest ↦ eq_comm

private theorem isWord_of_openParen : isWord '(' = false := by decide

private theorem leadsToArrow_iff : leadsToArrow t = true ↔ LeadsToArrow t := by
  constructor
  · intro h
    unfold leadsToArrow at h
    split at h
    · next r hs =>
      rw [Bool.and_eq_true, Bool.not_eq_true', List.isEmpty_eq_false_iff] at h
      obtain ⟨hne, harrow⟩ := h
      obtain ⟨rest, hd⟩ := startsArrow_iff.mp harrow
      obtain ⟨typing, ht⟩ := exists_typing_iff.mpr (.inr ⟨r, hs, hne, hd⟩)
      exact ⟨typing, rest, ht⟩
    · obtain ⟨rest, hs⟩ := startsArrow_iff.mp h
      obtain ⟨typing, ht⟩ := exists_typing_iff.mpr (.inl hs)
      exact ⟨typing, rest, ht⟩
  · rintro ⟨typing, rest, ht⟩
    rcases exists_typing_iff.mp ⟨typing, ht⟩ with hs | ⟨r, hs, hne, hd⟩
    · rw [leadsToArrow, hs]
      exact startsArrow_iff.mpr ⟨rest, rfl⟩
    · rw [leadsToArrow, hs]
      simp only [hd, Bool.and_eq_true, Bool.not_eq_true', List.isEmpty_eq_false_iff]
      exact ⟨hne, startsArrow_iff.mpr ⟨rest, rfl⟩⟩

private theorem startsArrowFunction_iff :
    startsArrowFunction t = true ↔ BeginsWithArrowFunction t := by
  constructor
  · intro h
    unfold startsArrowFunction at h
    split at h
    · next r =>
      split at h
      · next after hr =>
        obtain ⟨hcomma, harrow⟩ := Bool.and_eq_true_iff.mp h
        obtain ⟨hcut, hflat, -⟩ := takeWhile_dropWhile_iff.mp ⟨rfl, hr⟩
        exact ⟨_, after, congrArg _ hcut, hflat, List.contains_iff_mem.mp hcomma,
          leadsToArrow_iff.mp harrow⟩
      · cases h
    · cases h
  · rintro ⟨params, after, rfl, hflat, hcomma, harrow⟩
    have hclose : isInsideParens ')' = false := by decide
    simp only [startsArrowFunction, takeWhile_run_cons hflat hclose,
      dropWhile_run_cons hflat hclose, Bool.and_eq_true]
    exact ⟨List.contains_iff_mem.mpr hcomma, leadsToArrow_iff.mpr harrow⟩

private theorem startsFunction_iff : startsFunction t = true ↔ BeginsWithFunction t := by
  have hcomma : ',' ≠ ')' := by decide
  constructor
  · intro h
    unfold startsFunction at h
    split at h
    · cases h
    · next r hr =>
      rw [Bool.and_eq_true] at h
      obtain ⟨hhead, hlist⟩ := h
      split at hlist
      · next d parameters hd =>
        obtain ⟨rfl, between, rfl, hbetween⟩ := dropWhile_bne_eq_cons_iff.mp hd
        obtain ⟨params, after, rfl, hparams⟩ :=
          (mem_takeWhile_bne_iff hcomma).mp (List.contains_iff_mem.mp hlist)
        refine ⟨between, params, after, ?_, ?_, hbetween, hparams⟩
        · rw [← List.append_eq_of_isPrefixOf?_eq_some hr]
          simp
        · cases between with
          | nil => simp
          | cons e between => simpa using hhead
      · cases hlist
  · rintro ⟨between, params, after, rfl, hhead, hbetween, hparams⟩
    have hprefix : functionWord.isPrefixOf?
        (functionWord ++ between ++ '(' :: params ++ ',' :: after) =
          some (between ++ '(' :: (params ++ ',' :: after)) :=
      List.isPrefixOf?_eq_some_iff_append_eq.mpr (by simp)
    have hword : (between ++ '(' :: (params ++ ',' :: after)).head?.any isWord = false := by
      cases between with
      | nil => exact isWord_of_openParen
      | cons c between => exact hhead c rfl
    have hlist : (between ++ '(' :: (params ++ ',' :: after)).dropWhile (· != '(') =
        '(' :: (params ++ ',' :: after) := dropWhile_bne_eq_cons_iff.mpr ⟨rfl, _, rfl, hbetween⟩
    rw [startsFunction, hprefix]
    simp only [hword, hlist, Bool.not_false, Bool.true_and]
    exact List.contains_iff_mem.mpr
      ((mem_takeWhile_bne_iff hcomma).mpr ⟨params, after, rfl, hparams⟩)

/-- Where a signature begins in a text that a character stands before, perhaps one of a word. -/
theorem mentionsFunctionAfter_iff (inWord : Bool) (t : Text) :
    mentionsFunctionAfter inWord t = true ↔ ∃ before rest, t = before ++ rest ∧
      (BeginsWithArrowFunction rest ∨ BeginsWithFunction rest ∧
        (before.getLast?.map isWord).getD inWord = false) := by
  -- The text is read character by character, and `inWord` tells of the one read last.
  induction t generalizing inWord with
  | nil =>
    refine iff_of_false Bool.false_ne_true ?_
    rintro ⟨before, rest, ht, h⟩
    obtain ⟨-, rfl⟩ := List.append_eq_nil_iff.mp ht.symm
    rcases h with ⟨params, after, h, -⟩ | ⟨⟨between, params, after, h, -⟩, -⟩
    · cases h
    · exact List.cons_ne_nil _ _ h.symm
  | cons c r ih =>
    rw [mentionsFunctionAfter, Bool.or_eq_true, Bool.or_eq_true, Bool.and_eq_true,
      Bool.not_eq_true', startsArrowFunction_iff, startsFunction_iff, ih]
    constructor
    · rintro ((h | ⟨hword, h⟩) | ⟨before, rest, rfl, h⟩)
      · exact ⟨[], c :: r, rfl, .inl h⟩
      · exact ⟨[], c :: r, rfl, .inr ⟨h, hword⟩⟩
      · refine ⟨c :: before, rest, rfl, h.imp_right (And.imp_right fun hword ↦ ?_)⟩
        rw [List.getLast?_cons]
        simpa using hword
    · rintro ⟨before, rest, ht, h⟩
      cases before with
      | nil =>
        rw [List.nil_append] at ht
        subst ht
        exact .inl (h.imp_right And.symm)
      | cons d before =>
        obtain ⟨rfl, rfl⟩ := List.cons.inj ht
        refine .inr ⟨before, rest, rfl, h.imp_right (And.imp_right fun hword ↦ ?_)⟩
        rw [List.getLast?_cons] at hword
        simpa using hword

/-- A function of several parameters is recognised exactly where a signature stands. -/
theorem mentionsMultiParamFunction_iff :
    mentionsMultiParamFunction line = true ↔ HasSignature line := by
  rw [mentionsMultiParamFunction, mentionsFunctionAfter_iff, HasSignature]
  refine exists_congr fun before ↦ exists_congr fun rest ↦ and_congr_right fun _ ↦
    or_congr_right (and_congr_right fun _ ↦ ?_)
  cases before.getLast? <;> simp

/-! ### Lists of parameters -/

/-- Every closing parenthesis closes an open one, and none stays open. -/
inductive ParensBalanced : Text → Prop
  | nil : ParensBalanced []
  | char {c : Char} {t : Text} (hc : isInsideParens c = true) (ht : ParensBalanced t) :
      ParensBalanced (c :: t)
  | group {inner t : Text} (hi : ParensBalanced inner) (ht : ParensBalanced t) :
      ParensBalanced ('(' :: (inner ++ ')' :: t))

private theorem IsFlat.parensBalanced (h : IsFlat t) : ParensBalanced t := by
  induction t with
  | nil => exact .nil
  | cons c t ih =>
    obtain ⟨hc, ht⟩ := List.forall_mem_cons.mp h
    exact .char hc (ih ht)

/-- Two balanced texts in a row are balanced. -/
theorem ParensBalanced.append (ht : ParensBalanced t) (hr : ParensBalanced r) :
    ParensBalanced (t ++ r) := by
  induction ht with
  | nil => exact hr
  | char hc _ ih => exact .char hc ih
  | group hi _ _ ih =>
    rw [List.cons_append, List.append_assoc, List.cons_append]
    exact .group hi ih

/-- A pair of parentheses, and a balanced text in it. -/
def HasGroup (t : Text) : Prop :=
  ∃ left inner right, t = left ++ '(' :: (inner ++ ')' :: right) ∧ ParensBalanced inner

/-- A balanced text is flat or has a pair of parentheses. -/
theorem ParensBalanced.isFlat_or_hasGroup (h : ParensBalanced t) : IsFlat t ∨ HasGroup t := by
  induction h with
  | nil => exact .inl fun _ hc ↦ absurd hc List.not_mem_nil
  | char hc _ ih =>
    rcases ih with hflat | ⟨left, inner, right, rfl, hi⟩
    · exact .inl (List.forall_mem_cons.mpr ⟨hc, hflat⟩)
    · exact .inr ⟨_ :: left, inner, right, rfl, hi⟩
  | group hi _ _ _ => exact .inr ⟨[], _, _, rfl, hi⟩

/-- The parenthesised list `params` stands on the line, balanced and with a comma at its own level,
and after it an arrow, perhaps behind blanks. -/
def HasArrowList (line params : Text) : Prop :=
  ∃ before blanks after left right,
    line = before ++ '(' :: (params ++ ')' :: (blanks ++ '=' :: '>' :: after)) ∧ IsBlanks blanks ∧
      params = left ++ ',' :: right ∧ ParensBalanced left ∧ ParensBalanced right

/-- A list of several parameters without parentheses of its own is recognised. -/
theorem HasArrowList.hasSignature (h : HasArrowList line params) (hflat : IsFlat params) :
    HasSignature line := by
  obtain ⟨before, blanks, after, left, right, rfl, hb, rfl, -, -⟩ := h
  have harrow : LeadsToArrow (blanks ++ '=' :: '>' :: after) :=
    ⟨blanks, after, rfl, hb.notMem (by decide), .inl hb⟩
  exact ⟨before, _, rfl, .inl ⟨_, _, rfl, hflat, by simp, harrow⟩⟩

/-- The list before an arrow is balanced. -/
theorem HasArrowList.parensBalanced (h : HasArrowList line params) : ParensBalanced params := by
  obtain ⟨-, -, -, left, right, -, -, rfl, hl, hr⟩ := h
  have hcomma : isInsideParens ',' = true := by decide
  exact hl.append (.char hcomma hr)

/-- A list of parameters takes no object apart. -/
theorem HasArrowList.not_isDestructuring (h : HasArrowList line params) :
    isDestructuring line = false := by
  obtain ⟨before, blanks, after, -, -, rfl, -⟩ := h
  simp [isDestructuring]

/-! ### Verdicts -/

/-- Something other than a function of several parameters speaks against deleting the line: the
name has an underscore, or a hook, asynchronous work or a spread stands on the line. -/
def HasOtherGround (line name : Text) : Prop :=
  name.head? = some '_' ∨ mentionsHook line = true ∨ (∃ mark ∈ asyncMarks, mark <:+: line) ∨
    spreadMark <:+: line

/-- A line is safe to remove exactly if it declares the variable alone or takes an object apart, and
nothing speaks against it. -/
theorem verdict_eq_safeToRemove_iff : verdict line name = .safeToRemove ↔
    (isStandalone line name = true ∨ isDestructuring line = true) ∧ ¬ HasSignature line ∧
      ¬ HasOtherGround line name := by
  have hasync : (asyncMarks.any fun mark ↦ holds mark line) = true ↔
      ∃ mark ∈ asyncMarks, mark <:+: line := by
    simp only [List.any_eq_true, holds_iff_isInfix]
  -- The rule for several declarators only turns away lines that are of no safe shape anyway.
  have hseveral : (hasDeclarationShape line name && declaresSeveral line) = true →
      ¬ (isStandalone line name = true ∨ isDestructuring line = true) := by
    simp only [hasDeclarationShape, isStandalone, isDestructuring]
    grind
  rw [verdict, ← mentionsMultiParamFunction_iff, HasOtherGround, ← hasync, ← holds_iff_isInfix]
  rw [← Bool.or_eq_true] at hseveral ⊢
  grind

/-- A line on which an arrow follows a list of several parameters is safe to remove exactly if it
declares the variable alone, no signature is recognised on it and nothing else speaks against it;
and then a pair of parentheses stands in the list. -/
theorem verdict_arrowList_iff (h : HasArrowList line params) :
    (verdict line name = .safeToRemove ↔
      isStandalone line name = true ∧ ¬ HasSignature line ∧ ¬ HasOtherGround line name) ∧
    (verdict line name = .safeToRemove → HasGroup params) := by
  have hsafe : verdict line name = .safeToRemove ↔
      isStandalone line name = true ∧ ¬ HasSignature line ∧ ¬ HasOtherGround line name := by
    rw [verdict_eq_safeToRemove_iff, h.not_isDestructuring, or_iff_left Bool.false_ne_true]
  refine ⟨hsafe, fun hv ↦ ?_⟩
  obtain ⟨-, hno, -⟩ := hsafe.mp hv
  exact h.parensBalanced.isFlat_or_hasGroup.resolve_left fun hflat ↦ hno (h.hasSignature hflat)

/-- A parameter with the type of a function, and one after it. -/
theorem verdict_arrowList_iff_typed :
    let line : Text := "let g = (run: (x: T) => void, n) => n".toList
    let params : Text := "run: (x: T) => void, n".toList
    HasArrowList line params ∧
      (verdict line ['g'] = .safeToRemove ↔ isStandalone line ['g'] = true ∧ ¬ HasSignature line ∧
        ¬ HasOtherGround line ['g']) ∧
      (verdict line ['g'] = .safeToRemove → HasGroup params) := by
  intro line params
  have hrun : IsFlat "run: ".toList := by decide
  have htype : IsFlat "x: T".toList := by decide
  have hresult : IsFlat " => void".toList := by decide
  have hleft : ParensBalanced "run: (x: T) => void".toList :=
    hrun.parensBalanced.append (.group htype.parensBalanced hresult.parensBalanced)
  have hright : IsFlat " n".toList := by decide
  have h : HasArrowList line params :=
    ⟨"let g = ".toList, [' '], " n".toList, _, _, by rfl, by decide, by rfl, hleft,
      hright.parensBalanced⟩
  exact ⟨h, verdict_arrowList_iff h⟩

/-- A default that is a call hides the list it stands in. -/
theorem verdict_nested :
    let line : Text := "const f = (a, g = h()) =>".toList
    HasArrowList line "a, g = h()".toList ∧ verdict line ['f'] = .safeToRemove := by
  intro line
  have hleft : IsFlat ['a'] := by decide
  have hdefault : IsFlat " g = h".toList := by decide
  have hright : ParensBalanced " g = h()".toList :=
    hdefault.parensBalanced.append (.group .nil .nil)
  exact ⟨⟨"const f = ".toList, [' '], [], _, _, by rfl, by decide, by rfl, hleft.parensBalanced,
    hright⟩, by decide⟩

end Spruce.Declaration
