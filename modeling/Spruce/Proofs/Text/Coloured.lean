import Mathlib.Data.List.Forall2
import Spruce.Proofs.Text.Pieces
import Spruce.Text.Colour

/-!
# Coloured text

A terminal shows a text alike with colour sequences anywhere between its characters (`Coloured`).
A text is read from the left as sequences, which are left out, and characters that begin none, which
stay (`plain_induction`). So the plain form of a coloured text is the text itself
(`Coloured.plain_eq`), and the pieces between the newlines of a coloured text are the coloured
pieces of the text (`Coloured.split`).
-/

namespace Spruce.Text

variable {c : Char} {n : Nat} {s t r shown blanks : Text}

/-! ### Colour sequences -/

/-- A colour sequence: ESC, a bracket, digits and semicolons, `m`. -/
def IsColourSequence (s : Text) : Prop :=
  ∃ parameters, s = escapeChar :: '[' :: (parameters ++ ['m']) ∧
    ∀ c ∈ parameters, isColourParameter c = true

/-- A colour sequence begins the text. -/
def BeginsWithSequence (t : Text) : Prop := ∃ s r, IsColourSequence s ∧ t = s ++ r

private theorem newline_notMem_sequence (h : IsColourSequence s) : '\n' ∉ s := by
  obtain ⟨parameters, rfl, hp⟩ := h
  have hn : '\n' ∉ parameters := fun hm ↦ absurd (hp '\n' hm) (by decide)
  simp [hn, escapeChar]

private theorem getLast?_sequence (h : IsColourSequence s) : s.getLast? = some 'm' := by
  obtain ⟨parameters, rfl, -⟩ := h
  exact List.getLast?_append_of_ne_nil (escapeChar :: '[' :: parameters) (List.cons_ne_nil 'm' [])

private theorem colourLength?_append {parameters : Text}
    (h : ∀ c ∈ parameters, isColourParameter c = true) (r : Text) :
    colourLength? ('[' :: (parameters ++ 'm' :: r)) = some (parameters.length + 2) := by
  have hm : isColourParameter 'm' = false := by decide
  simp only [colourLength?, dropWhile_run_cons h hm, takeWhile_run_cons h hm]

private theorem exists_of_colourLength? (h : colourLength? t = some n) :
    ∃ s r, IsColourSequence (escapeChar :: s) ∧ t = s ++ r ∧ s.length = n := by
  unfold colourLength? at h
  split at h
  · next t =>
    split at h
    · next r hr =>
      refine ⟨'[' :: (t.takeWhile isColourParameter ++ ['m']), r,
        ⟨_, rfl, fun _ hc ↦ List.mem_takeWhile_imp hc⟩, ?_, ?_⟩
      · have ht := List.takeWhile_append_dropWhile (p := isColourParameter) (l := t)
        rw [hr] at ht
        simp [ht]
      · rw [← Option.some.inj h]
        simp
    · cases h
  · cases h

/-! ### Plain text -/

private theorem plainFrom_eq (n : Nat) (t : Text) : plainFrom n t = plain (t.drop n) := by
  induction t generalizing n with
  | nil => simp [plain, plainFrom]
  | cons c r ih =>
    cases n with
    | zero => rfl
    | succ n => exact ih n

/-- A colour sequence is left out. -/
theorem plain_sequence (h : IsColourSequence s) (r : Text) : plain (s ++ r) = plain r := by
  obtain ⟨parameters, rfl, hp⟩ := h
  have hlength := colourLength?_append hp r
  have hdrop : ('[' :: (parameters ++ 'm' :: r)).drop (parameters.length + 2) = r := by
    rw [List.drop_succ_cons, List.append_cons]
    exact List.drop_left' (by simp)
  calc plain (escapeChar :: '[' :: (parameters ++ ['m']) ++ r)
      = plainFrom 0 (escapeChar :: '[' :: (parameters ++ 'm' :: r)) := by simp [plain]
    _ = plainFrom (parameters.length + 2) ('[' :: (parameters ++ 'm' :: r)) := by
      simp only [plainFrom, if_true, hlength]
    _ = plain r := by rw [plainFrom_eq, hdrop]

/-- A character that begins no colour sequence stays. -/
theorem plain_char (h : ¬ BeginsWithSequence (c :: r)) : plain (c :: r) = c :: plain r := by
  rw [plain, plainFrom]
  split
  · next hc =>
    split
    · next n hn =>
      obtain ⟨s, rest, hs, rfl, -⟩ := exists_of_colourLength? hn
      exact absurd ⟨_, rest, hs, by rw [hc]; rfl⟩ h
    · rfl
  · rfl

private theorem not_beginsWithSequence (h : c ≠ escapeChar) (r : Text) :
    ¬ BeginsWithSequence (c :: r) := by
  rintro ⟨s, rest, ⟨parameters, rfl, -⟩, he⟩
  exact h (List.cons.inj he).1

/-- What holds of the empty text and is kept by a colour sequence, and by a character that begins
none, holds of every text. -/
theorem plain_induction {motive : Text → Prop} (nil : motive [])
    (sequence : ∀ s r, IsColourSequence s → motive r → motive (s ++ r))
    (char : ∀ c r, ¬ BeginsWithSequence (c :: r) → motive r → motive (c :: r)) (t : Text) :
    motive t := by
  induction h : t.length using Nat.strongRecOn generalizing t with
  | ind n ih =>
    by_cases hb : BeginsWithSequence t
    · obtain ⟨s, r, hs, rfl⟩ := hb
      have hlt : r.length < n := by
        obtain ⟨parameters, rfl, -⟩ := hs
        rw [← h, List.length_append, List.length_cons]
        omega
      exact sequence s r hs (ih r.length hlt r rfl)
    · cases t with
      | nil => exact nil
      | cons c r => exact char c r hb (ih r.length (by rw [← h]; exact Nat.lt_succ_self _) r rfl)

/-- Blanks after a text stay, and complete no colour sequence. -/
theorem plain_append_blanks (hb : IsBlanks blanks) (t : Text) :
    plain (t ++ blanks) = plain t ++ blanks := by
  induction t using plain_induction with
  | nil =>
    have hn : escapeChar ∉ blanks := hb.notMem (by decide)
    induction blanks with
    | nil => rfl
    | cons c blanks ih =>
      obtain ⟨hc, hn⟩ := not_or.mp (mt List.mem_cons.mpr hn)
      rw [List.nil_append, plain_char (not_beginsWithSequence (Ne.symm hc) blanks)]
      exact congrArg (c :: ·) (ih (List.forall_mem_cons.mp hb).2 hn)
  | sequence s r hs ih => rw [List.append_assoc, plain_sequence hs, plain_sequence hs, ih]
  | char c r hc ih =>
    have hno : ¬ BeginsWithSequence (c :: (r ++ blanks)) := by
      rintro ⟨s, rest, hs, he⟩
      -- A sequence ends in no blank, so it would end within the text.
      obtain ⟨body, hbody⟩ := List.getLast?_eq_some_iff.mp (getLast?_sequence hs)
      have hcut : c :: r ++ blanks = body ++ 'm' :: rest := by
        rw [List.cons_append, he, hbody, List.append_assoc, List.singleton_append]
      obtain ⟨r', hr, -⟩ := exists_of_append_blanks hb (by decide) hcut
      exact hc ⟨s, r', hs, by rw [hr, hbody, List.append_assoc, List.singleton_append]⟩
    rw [List.cons_append, plain_char hno, plain_char hc, ih, List.cons_append]

/-! ### Coloured text -/

/-- A text is shown with colour sequences between, before and after its characters. -/
inductive Coloured : Text → Text → Prop
  | nil : Coloured [] []
  | char (c : Char) {t shown : Text} (h : Coloured t shown) : Coloured (c :: t) (c :: shown)
  | sequence {s t shown : Text} (hs : IsColourSequence s) (h : Coloured t shown) :
    Coloured t (s ++ shown)

/-- A text without any sequence put in is a coloured form of itself. -/
theorem Coloured.refl (t : Text) : Coloured t t := by
  induction t with
  | nil => exact .nil
  | cons c t ih => exact .char c ih

/-- Coloured texts one after another are the coloured form of both. -/
theorem Coloured.append {t' shown' : Text} (h : Coloured t shown) (h' : Coloured t' shown') :
    Coloured (t ++ t') (shown ++ shown') := by
  induction h with
  | nil => exact h'
  | char c h ih => exact .char c ih
  | sequence hs h ih =>
    rw [List.append_assoc]
    exact .sequence hs ih

/-- The plain form of a coloured text is the text. -/
theorem Coloured.plain_eq (h : Coloured t shown) (ht : escapeChar ∉ t) : plain shown = t := by
  induction h with
  | nil => rfl
  | char c h ih =>
    obtain ⟨hc, ht⟩ := not_or.mp (mt List.mem_cons.mpr ht)
    rw [plain_char (not_beginsWithSequence (Ne.symm hc) _), ih ht]
  | sequence hs h ih => rw [plain_sequence hs, ih ht]

/-- Text without a separator comes before the first piece. -/
theorem split_append_of_notMem {sep : Char} {piece : Text} {pieces : List Text} (hs : sep ∉ s)
    (ht : split sep t = piece :: pieces) : split sep (s ++ t) = (s ++ piece) :: pieces := by
  induction s with
  | nil => exact ht
  | cons c s ih =>
    obtain ⟨hc, hs⟩ := not_or.mp (mt List.mem_cons.mpr hs)
    rw [List.cons_append, split, if_neg (Ne.symm hc), ih hs]
    rfl

/-- The pieces of a coloured text between newlines are the coloured pieces of the text. -/
theorem Coloured.split (h : Coloured t shown) :
    List.Forall₂ Coloured (split '\n' t) (split '\n' shown) := by
  induction h with
  | nil => exact .cons .nil .nil
  | @char c t shown h ih =>
    by_cases hc : c = '\n'
    · subst hc
      exact .cons .nil ih
    · have hn : '\n' ∉ [c] := by simpa using Ne.symm hc
      cases ht : Text.split '\n' t with
      | nil => exact absurd ht (split_ne_nil '\n' t)
      | cons piece pieces =>
        rw [ht] at ih
        obtain ⟨shownPiece, shownPieces, hp, hps, hu⟩ := List.forall₂_cons_left_iff.mp ih
        have hleft := split_append_of_notMem hn ht
        have hright := split_append_of_notMem hn hu
        rw [List.singleton_append] at hleft hright
        rw [hleft, hright]
        exact .cons (.char c hp) hps
  | @sequence s t shown hs h ih =>
    cases hu : Text.split '\n' shown with
    | nil => exact absurd hu (split_ne_nil '\n' shown)
    | cons shownPiece shownPieces =>
      rw [hu] at ih
      obtain ⟨piece, pieces, hp, hps, ht⟩ := List.forall₂_cons_right_iff.mp ih
      rw [split_append_of_notMem (newline_notMem_sequence hs) hu, ht]
      exact .cons (.sequence hs hp) hps

end Spruce.Text
