import Mathlib.Data.List.TakeWhile
import Spruce.Text.CharClass

/-!
# Runs of blanks and of digits

A run of characters of one class is taken off a text as a whole where another character follows
(`takeWhile_run`). Trimming passes over the blanks at the start of a text and nothing else
(`exists_blanks`, `IsBlanks.trimStart_append`). The decimal form of a number is a nonempty run of
digits, none of them blank, and a number of 64 bits is read back from it (`word64?_ofNat`).
-/

namespace Spruce.Text

/-! ### Runs -/

section Runs

variable {p : Char → Bool} {run rest : Text}

/-- A run of a class is all that is taken where no character of the class follows. -/
theorem takeWhile_run (hrun : ∀ c ∈ run, p c = true) (hrest : ∀ c ∈ rest.head?, p c = false) :
    (run ++ rest).takeWhile p = run := by
  rw [List.takeWhile_append_of_pos hrun]
  cases rest with
  | nil => rw [List.takeWhile_nil, List.append_nil]
  | cons c rest => rw [List.takeWhile_cons_of_neg (by simp [hrest c rfl]), List.append_nil]

/-- A run of a class is all that is dropped where no character of the class follows. -/
theorem dropWhile_run (hrun : ∀ c ∈ run, p c = true) (hrest : ∀ c ∈ rest.head?, p c = false) :
    (run ++ rest).dropWhile p = rest := by
  rw [List.dropWhile_append_of_pos hrun]
  cases rest with
  | nil => rfl
  | cons c rest => rw [List.dropWhile_cons_of_neg (by simp [hrest c rfl])]

/-- A run is taken up to the first character that is not of its class. -/
theorem takeWhile_run_cons (hrun : ∀ c ∈ run, p c = true) {c : Char} (hc : p c = false)
    (r : Text) : (run ++ c :: r).takeWhile p = run :=
  takeWhile_run hrun (by simpa using hc)

/-- A run is dropped up to the first character that is not of its class. -/
theorem dropWhile_run_cons (hrun : ∀ c ∈ run, p c = true) {c : Char} (hc : p c = false)
    (r : Text) : (run ++ c :: r).dropWhile p = c :: r :=
  dropWhile_run hrun (by simpa using hc)

/-- A text is cut where a class of characters ends. -/
theorem takeWhile_dropWhile_iff {t : Text} : t.takeWhile p = run ∧ t.dropWhile p = rest ↔
    t = run ++ rest ∧ (∀ c ∈ run, p c = true) ∧ ∀ c ∈ rest.head?, p c = false := by
  constructor
  · rintro ⟨rfl, rfl⟩
    refine ⟨List.takeWhile_append_dropWhile.symm, fun _ hc ↦ List.mem_takeWhile_imp hc,
      fun c hc ↦ ?_⟩
    have h := List.head?_dropWhile_not p t
    rw [Option.mem_def] at hc
    rw [hc] at h
    simpa using h
  · rintro ⟨rfl, hrun, hrest⟩
    exact ⟨takeWhile_run hrun hrest, dropWhile_run hrun hrest⟩

/-- Every character differs from one that does not occur. -/
theorem forall_bne_iff {c : Char} {t : Text} : (∀ d ∈ t, (d != c) = true) ↔ c ∉ t := by
  simp only [bne_iff_ne, ne_eq]
  exact ⟨fun h hm ↦ h c hm rfl, fun h d hd he ↦ h (he ▸ hd)⟩

/-- Dropping up to a character leaves a text that begins with the first one of its kind. -/
theorem dropWhile_bne_eq_cons_iff {c d : Char} {t r : Text} : t.dropWhile (· != c) = d :: r ↔
    d = c ∧ ∃ before, t = before ++ c :: r ∧ c ∉ before := by
  constructor
  · intro h
    obtain ⟨ht, hbefore, hd⟩ := takeWhile_dropWhile_iff.mp ⟨rfl, h⟩
    obtain rfl : d = c := by simpa using hd d rfl
    exact ⟨rfl, _, ht, forall_bne_iff.mp hbefore⟩
  · rintro ⟨rfl, before, rfl, hbefore⟩
    exact dropWhile_run_cons (forall_bne_iff.mpr hbefore) (bne_self_eq_false d) r

/-- A character stands before another one where the text can be cut at it. -/
theorem mem_takeWhile_bne_iff {c stop : Char} (h : c ≠ stop) {t : Text} :
    c ∈ t.takeWhile (· != stop) ↔ ∃ before after, t = before ++ c :: after ∧ stop ∉ before := by
  constructor
  · intro hm
    obtain ⟨before, after, hcut⟩ := List.append_of_mem hm
    obtain ⟨ht, hrun, -⟩ := takeWhile_dropWhile_iff.mp ⟨hcut, rfl⟩
    have hstop : stop ∉ before ++ c :: after := forall_bne_iff.mp hrun
    rw [List.append_assoc] at ht
    exact ⟨before, _, ht, fun hm ↦ hstop (List.mem_append_left _ hm)⟩
  · rintro ⟨before, after, rfl, hstop⟩
    rw [List.takeWhile_append_of_pos (forall_bne_iff.mpr hstop)]
    simp [h]

end Runs

/-! ### Blanks -/

/-- Blanks only. -/
def IsBlanks (t : Text) : Prop := ∀ c ∈ t, isBlank c = true

instance (t : Text) : Decidable (IsBlanks t) :=
  List.decidableBAll (isBlank · = true) t

/-- No characters are blanks. -/
theorem isBlanks_nil : IsBlanks [] := fun _ hc ↦ absurd hc List.not_mem_nil

/-- Blanks hold no other character. -/
theorem IsBlanks.notMem {t : Text} (h : IsBlanks t) {c : Char} (hc : isBlank c = false) :
    c ∉ t := by
  intro hm
  rw [h c hm] at hc
  exact Bool.noConfusion hc

/-- Blanks in front are trimmed away. -/
theorem IsBlanks.trimStart_append {blanks : Text} (h : IsBlanks blanks) (r : Text) :
    trimStart (blanks ++ r) = trimStart r :=
  List.dropWhile_append_of_pos h

/-- Of blanks trimming leaves nothing. -/
theorem IsBlanks.trimStart_eq_nil {t : Text} (h : IsBlanks t) : trimStart t = [] :=
  List.dropWhile_eq_nil_iff.mpr h

/-- Nothing is trimmed before a character that is no blank. -/
theorem trimStart_cons {c : Char} (h : isBlank c = false) (r : Text) :
    trimStart (c :: r) = c :: r :=
  List.dropWhile_cons_of_neg (by simp [h])

/-- A text that begins with no blank has nothing to trim at its start. -/
theorem trimStart_of_head? {t : Text} (h : ∀ c ∈ t.head?, isBlank c = false) :
    trimStart t = t := by
  cases t with
  | nil => rfl
  | cons c r => exact trimStart_cons (h c rfl) r

/-- A text is some blanks and what is left when it is trimmed. -/
theorem exists_blanks (t : Text) : ∃ blanks, IsBlanks blanks ∧ t = blanks ++ trimStart t :=
  ⟨t.takeWhile isBlank, fun _ hc ↦ List.mem_takeWhile_imp hc,
    (List.takeWhile_append_dropWhile).symm⟩

/-- A text that is not blank begins, after some blanks, with a character that is none. -/
theorem exists_of_not_blanks {t : Text} (h : ¬ IsBlanks t) :
    ∃ blanks c r, t = blanks ++ c :: r ∧ IsBlanks blanks ∧ isBlank c = false := by
  obtain ⟨blanks, hb, ht⟩ := exists_blanks t
  cases hr : trimStart t with
  | nil =>
    rw [hr, List.append_nil] at ht
    exact absurd (ht ▸ hb) h
  | cons c r =>
    have hc := List.head?_dropWhile_not isBlank t
    rw [← trimStart, hr] at hc
    exact ⟨blanks, c, r, hr ▸ ht, hb, hc⟩

/-- Where a text with blanks after it is cut behind a character that is no blank, the text is cut
there. -/
theorem exists_of_append_blanks {t s r blanks : Text} {c : Char} (hb : IsBlanks blanks)
    (hc : isBlank c = false) (h : t ++ blanks = s ++ c :: r) :
    ∃ r', t = s ++ c :: r' ∧ r = r' ++ blanks := by
  rcases List.append_eq_append_iff.mp h with ⟨extra, -, hblanks⟩ | ⟨extra, ht, hr⟩
  · exact absurd (by simp [hblanks]) (hb.notMem hc)
  · cases extra with
    | nil =>
      rw [List.nil_append] at hr
      exact absurd (by simp [← hr]) (hb.notMem hc)
    | cons d extra =>
      obtain ⟨rfl, rfl⟩ := List.cons.inj hr
      exact ⟨extra, ht, rfl⟩

/-- Trimming at the end does not pass a character that is no blank. -/
theorem trimEnd_append_cons {c : Char} (h : isBlank c = false) (s r : Text) :
    trimEnd (s ++ c :: r) = s ++ c :: trimEnd r := by
  have hs : trimEnd (s ++ [c]) = s ++ [c] := by
    simp [trimEnd, h]
  cases hr : r.reverse.dropWhile isBlank with
  | nil =>
    have hn : trimEnd r = [] := by simp [trimEnd, hr]
    have hb : ∀ d ∈ r.reverse, isBlank d = true := List.dropWhile_eq_nil_iff.mp hr
    rw [hn, ← hs, trimEnd, trimEnd, List.append_cons, List.reverse_append,
      List.dropWhile_append_of_pos hb]
  | cons d ds =>
    have ht : trimEnd r = (d :: ds).reverse := by rw [trimEnd, hr]
    rw [ht, trimEnd, List.append_cons, List.reverse_append, List.dropWhile_append, hr]
    simp

/-- A text that does not end in a blank has nothing to trim at its end. -/
theorem trimEnd_of_getLast? {t : Text} (h : ∀ c ∈ t.getLast?, isBlank c = false) :
    trimEnd t = t := by
  rcases List.eq_nil_or_concat t with rfl | ⟨body, last, hl⟩
  · rfl
  · rw [List.concat_eq_append] at hl
    subst hl
    exact trimEnd_append_cons (h last (by simp)) body []

/-! ### Numbers -/

private theorem digitChar_facts : ∀ d < 10, isDigit (Nat.digitChar d) = true ∧
    isBlank (Nat.digitChar d) = false ∧ digitValue? (Nat.digitChar d) = some d := by
  decide

private theorem exists_digitChar {n : Nat} {c : Char} (h : c ∈ ofNat n) :
    ∃ d < 10, c = Nat.digitChar d := by
  induction n using Nat.strongRecOn with
  | ind n ih =>
    rw [ofNat, Nat.toDigits_eq_if (by decide)] at h
    split at h
    · next hn => exact ⟨n, hn, List.mem_singleton.mp h⟩
    · rcases List.mem_append.mp h with h | h
      · exact ih (n / 10) (by omega) h
      · exact ⟨n % 10, by omega, List.mem_singleton.mp h⟩

/-- A number is written in digits. -/
theorem isDigit_of_mem_ofNat {n : Nat} {c : Char} (h : c ∈ ofNat n) : isDigit c = true := by
  obtain ⟨d, hd, rfl⟩ := exists_digitChar h
  exact (digitChar_facts d hd).1

/-- A number is written in decimal digits. -/
theorem isSome_digitValue?_of_mem_ofNat {n : Nat} {c : Char} (h : c ∈ ofNat n) :
    (digitValue? c).isSome = true := by
  obtain ⟨d, hd, rfl⟩ := exists_digitChar h
  rw [(digitChar_facts d hd).2.2]
  rfl

/-- A number is written without blanks. -/
theorem isBlank_of_mem_ofNat {n : Nat} {c : Char} (h : c ∈ ofNat n) : isBlank c = false := by
  obtain ⟨d, hd, rfl⟩ := exists_digitChar h
  exact (digitChar_facts d hd).2.1

/-- A number is written with at least one digit. -/
theorem ofNat_ne_nil (n : Nat) : ofNat n ≠ [] := by
  rw [ofNat, Nat.toDigits_eq_if (by decide)]
  split <;> simp

private theorem decimalFrom?_append (acc : Nat) (s t : Text) :
    decimalFrom? acc (s ++ t) = (decimalFrom? acc s).bind (decimalFrom? · t) := by
  induction s generalizing acc with
  | nil => rfl
  | cons c s ih =>
    rw [List.cons_append, decimalFrom?, decimalFrom?, Option.bind_assoc]
    exact Option.bind_congr fun d _ ↦ ih (10 * acc + d)

private theorem decimalFrom?_ofNat (n : Nat) : decimalFrom? 0 (ofNat n) = some n := by
  induction n using Nat.strongRecOn with
  | ind n ih =>
    rw [ofNat, Nat.toDigits_eq_if (by decide)]
    split
    · next hn => simp [decimalFrom?, (digitChar_facts n hn).2.2]
    · have hhead := ih (n / 10) (by omega)
      have hlast := (digitChar_facts (n % 10) (by omega)).2.2
      have hn : 10 * (n / 10) + n % 10 = n := by omega
      rw [ofNat] at hhead
      rw [decimalFrom?_append, hhead]
      simp [decimalFrom?, hlast, hn]

/-- A number of 64 bits is read as it is written. -/
theorem word64?_ofNat {n : Nat} (h : n < wordBound) : word64? (ofNat n) = some n := by
  rw [word64?, if_neg (by simpa using ofNat_ne_nil n), decimalFrom?_ofNat]
  simp [h]

end Spruce.Text
