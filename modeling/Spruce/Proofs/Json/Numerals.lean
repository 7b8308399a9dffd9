import Spruce.Proofs.Json.Numbers
import Spruce.Proofs.Text.Runs

/-!
# Numerals

A number is written in digits, perhaps with a sign, a fraction and an exponent (`isNumeral_text`).
Whatever number is read at the start of a numeral and of what follows it, the reader goes to the end
of the numeral and no further (`rest_of_readNumber`). This holds of doubles, too, of which it cannot
be said that they are read as they are written.
-/

namespace Spruce.Json

open Text

/-! ### What numbers look like -/

/-- A text of digits. -/
structure IsDigits (t : Text) : Prop where
  ne_nil : t ≠ []
  digit : ∀ c ∈ t, isDecimalDigit c = true

/-- An exponent with its sign, or nothing. -/
inductive IsExponent : Text → Prop
  | none : IsExponent []
  | some {sign : Char} {digits : Text} (hs : sign = '+' ∨ sign = '-') (hd : IsDigits digits) :
    IsExponent ('e' :: sign :: digits)

/-- What follows the digits in front: perhaps a fraction, and perhaps an exponent. -/
inductive IsScale : Text → Prop
  | exponent {t : Text} (h : IsExponent t) : IsScale t
  | fraction {digits t : Text} (hd : IsDigits digits) (h : IsExponent t) :
    IsScale ('.' :: (digits ++ t))

/-- A number without a sign as it is written. -/
def IsUnsigned (t : Text) : Prop :=
  ∃ digits scale, t = digits ++ scale ∧ IsDigits digits ∧ IsScale scale

/-- A number as it is written. -/
inductive IsNumeral : Text → Prop
  | plain {t : Text} (h : IsUnsigned t) : IsNumeral t
  | negative {t : Text} (h : IsUnsigned t) : IsNumeral ('-' :: t)

namespace IsDigits

variable {s t : Text}

/-- A number is written in digits. -/
theorem ofNat (n : Nat) : IsDigits (ofNat n) :=
  ⟨ofNat_ne_nil n, fun _ hc ↦ isSome_digitValue?_of_mem_ofNat hc⟩

/-- Zeros after some digits. -/
theorem append_zeros (n : Nat) (h : IsDigits t) : IsDigits (t ++ List.replicate n '0') := by
  refine ⟨fun hnil ↦ h.ne_nil (List.append_eq_nil_iff.mp hnil).1, fun c hc ↦ ?_⟩
  rcases List.mem_append.mp hc with hc | hc
  · exact h.digit c hc
  · rw [List.eq_of_mem_replicate hc]
    rfl

/-- Zeros before some digits. -/
theorem zeros_append (n : Nat) (h : IsDigits t) : IsDigits (List.replicate n '0' ++ t) := by
  refine ⟨fun hnil ↦ h.ne_nil (List.append_eq_nil_iff.mp hnil).2, fun c hc ↦ ?_⟩
  rcases List.mem_append.mp hc with hc | hc
  · rw [List.eq_of_mem_replicate hc]
    rfl
  · exact h.digit c hc

/-- A zero is a digit. -/
theorem zero : IsDigits ['0'] := ⟨List.cons_ne_nil _ _, List.forall_mem_singleton.mpr rfl⟩

end IsDigits

/-- Digits alone are an unsigned numeral. -/
theorem IsDigits.isUnsigned {t : Text} (h : IsDigits t) : IsUnsigned t :=
  ⟨t, [], (List.append_nil t).symm, h, .exponent .none⟩

private theorem isUnsigned_positional {digits : Text} (h : IsDigits digits) (exponent : Int) :
    IsUnsigned (Number.positional digits exponent) := by
  have hpoint {whole fraction : Text} (hw : IsDigits whole) (hf : IsDigits fraction) :
      IsUnsigned (whole ++ '.' :: fraction) := by
    have hscale : IsScale ('.' :: (fraction ++ [])) := .fraction hf .none
    rw [List.append_nil] at hscale
    exact ⟨whole, _, rfl, hw, hscale⟩
  cases exponent with
  | ofNat e =>
    have hwhole : IsDigits (digits.take (e + 1)) :=
      ⟨by simp [h.ne_nil], fun c hc ↦ h.digit c (List.mem_of_mem_take hc)⟩
    refine hpoint (hwhole.append_zeros _) ?_
    split
    · exact .zero
    · next hne =>
      exact ⟨by simpa using hne, fun c hc ↦ h.digit c (List.mem_of_mem_drop hc)⟩
  | negSucc e => exact hpoint .zero (h.zeros_append e)

private theorem isUnsigned_scientific {digits : Text} (h : IsDigits digits) (exponent : Int) :
    IsUnsigned (Number.scientific digits exponent) := by
  have hsign : (if 0 ≤ exponent then '+' else '-') = '+' ∨
      (if 0 ≤ exponent then '+' else '-') = '-' := by
    split
    · exact .inl rfl
    · exact .inr rfl
  have hexponent : IsExponent _ := .some hsign (.ofNat exponent.natAbs)
  match digits, h with
  | [], h => exact absurd rfl h.ne_nil
  | [first], h => exact ⟨[first], _, rfl, h, .exponent hexponent⟩
  | first :: d :: rest, h =>
    obtain ⟨hfirst, hrest⟩ := List.forall_mem_cons.mp h.digit
    refine ⟨[first], _, rfl, ⟨List.cons_ne_nil _ _, by simpa using hfirst⟩, ?_⟩
    exact .fraction ⟨List.cons_ne_nil d rest, hrest⟩ hexponent

private theorem isUnsigned_ofUnits (units : Nat) : IsUnsigned (Number.ofUnits units) := by
  unfold Number.ofUnits
  split
  · exact ⟨['0'], ['.', '0'], rfl, .zero, .fraction (t := []) .zero .none⟩
  · dsimp only
    split
    · exact isUnsigned_positional (.ofNat _) _
    · exact isUnsigned_scientific (.ofNat _) _

/-- A number is written as a numeral. -/
theorem isNumeral_text (n : Number) : IsNumeral n.text := by
  cases n with
  | whole i =>
    cases i with
    | ofNat m => exact .plain (IsDigits.ofNat m).isUnsigned
    | negSucc m => exact .negative (IsDigits.ofNat (m + 1)).isUnsigned
  | double x =>
    have hunits := isUnsigned_ofUnits x.units
    rw [Number.text]
    split
    · exact .negative hunits
    · exact .plain hunits

/-! ### Where a reader of numbers stops -/

section Stops

variable {rest digits t r : Text} {n : Number} {negative : Bool} {significand : Nat}
  {exponent : Int}

private theorem startsWithDigit_eq_false_iff :
    startsWithDigit t = false ↔ ∀ c ∈ t.head?, isDecimalDigit c = false := by
  cases t with
  | nil => simp [startsWithDigit]
  | cons c t => simp [startsWithDigit]

private theorem exists_digitsBelow (bound acc : Nat) (hd : ∀ c ∈ digits, isDecimalDigit c = true)
    (ht : startsWithDigit t = false) :
    ∃ value count left, digitsBelow bound acc (digits ++ t) = (value, count, left ++ t) ∧
      ∀ c ∈ left, isDecimalDigit c = true := by
  induction digits generalizing acc with
  | nil =>
    refine ⟨acc, 0, [], ?_, by simp⟩
    cases t with
    | nil => rfl
    | cons c t =>
      have hc : digitValue? c = none := by simpa [startsWithDigit, isDecimalDigit] using ht
      simp [digitsBelow, hc]
  | cons c digits ih =>
    obtain ⟨hc, hrest⟩ := List.forall_mem_cons.mp hd
    obtain ⟨d, hd'⟩ := Option.isSome_iff_exists.mp hc
    rw [List.cons_append, digitsBelow, hd']
    dsimp only
    split
    · obtain ⟨value, count, left, heq, hleft⟩ := ih (10 * acc + d) hrest
      exact ⟨value, count + 1, left, by rw [heq], hleft⟩
    · exact ⟨acc, 0, c :: digits, rfl, hd⟩

private theorem dropWhile_left (hd : ∀ c ∈ digits, isDecimalDigit c = true)
    (ht : startsWithDigit t = false) : (digits ++ t).dropWhile isDecimalDigit = t :=
  dropWhile_run hd (startsWithDigit_eq_false_iff.mp ht)

private theorem eq_nil_of_left (hd : ∀ c ∈ digits, isDecimalDigit c = true)
    (h : ¬ startsWithDigit (digits ++ t) = true) : digits = [] := by
  cases digits with
  | nil => rfl
  | cons c digits =>
    have hc := hd c List.mem_cons_self
    simp [startsWithDigit, hc] at h

private theorem rest_of_finish (h : finish negative significand exponent t = .ok (n, r)) :
    r = t := by
  delta finish at h
  cases hx : scaled? significand exponent with
  | none =>
    rw [hx] at h
    cases h
  | some x =>
    rw [hx] at h
    exact (Prod.mk.inj (Except.ok.inj h)).2.symm

private theorem rest_of_readExponent {sign : Char} (hs : sign = '+' ∨ sign = '-')
    (hd : IsDigits digits) (ht : startsWithDigit t = false)
    (h : readExponent negative significand exponent (sign :: (digits ++ t)) = .ok (n, r)) :
    r = t := by
  have hsign : exponentSign (sign :: (digits ++ t)) = (decide (sign = '-'), digits ++ t) := by
    rcases hs with rfl | rfl <;> rfl
  obtain ⟨value, count, left, heq, hleft⟩ := exists_digitsBelow exponentBound 0 hd.digit ht
  obtain ⟨c, digits, rfl⟩ := List.exists_cons_of_ne_nil hd.ne_nil
  rw [readExponent, hsign] at h
  rw [List.cons_append] at h heq
  dsimp only at h
  rw [if_pos (hd.digit c List.mem_cons_self), heq] at h
  dsimp only at h
  split at h
  · split at h
    · cases h
    · rw [dropWhile_left hleft ht] at h
      exact (Prod.mk.inj (Except.ok.inj h)).2.symm
  · next hnot =>
    rw [eq_nil_of_left hleft hnot] at h
    exact rest_of_finish h

section Rest

variable (hr : EndsNumber rest)

include hr

private theorem startsWithDigit_rest : startsWithDigit rest = false :=
  startsWithDigit_eq_false_iff.mpr fun c hc ↦ (hr c hc).1

private theorem startsWithDigit_exponent (ht : IsExponent t) :
    startsWithDigit (t ++ rest) = false := by
  cases ht with
  | none => exact startsWithDigit_rest hr
  | some hs hd => rfl

private theorem startsWithDigit_scale (ht : IsScale t) : startsWithDigit (t ++ rest) = false := by
  cases ht with
  | exponent ht => exact startsWithDigit_exponent hr ht
  | fraction hd ht => rfl

private theorem rest_of_readScale (ht : IsExponent t)
    (h : readScale negative significand exponent (t ++ rest) = .ok (n, r)) : r = rest := by
  cases ht with
  | none =>
    rw [List.nil_append, readScale.eq_3] at h
    · exact rest_of_finish h
    · rintro s rfl
      exact (hr 'e' rfl).2.2.1 rfl
    · rintro s rfl
      exact (hr 'E' rfl).2.2.2 rfl
  | some hs hd => exact rest_of_readExponent hs hd (startsWithDigit_rest hr) h

private theorem rest_of_readFraction (hd : IsDigits digits) (ht : IsExponent t)
    (h : readFraction negative significand exponent (digits ++ (t ++ rest)) = .ok (n, r)) :
    r = rest := by
  have hnext := startsWithDigit_exponent hr ht
  obtain ⟨value, count, left, heq, hleft⟩ :=
    exists_digitsBelow significandBound significand hd.digit hnext
  rw [readFraction, heq] at h
  dsimp only at h
  split at h
  · rw [dropWhile_left hleft hnext] at h
    exact rest_of_readScale hr ht h
  · next hnot =>
    rw [eq_nil_of_left hleft hnot] at h
    split at h
    · split at h <;> cases h
    · exact rest_of_readScale hr ht h

private theorem rest_of_readAfterWhole (ht : IsScale t)
    (h : readAfterWhole negative significand (t ++ rest) = .ok (n, r)) : r = rest := by
  cases ht with
  | fraction hd ht =>
    rw [List.cons_append, List.append_assoc] at h
    exact rest_of_readFraction hr hd ht h
  | exponent ht =>
    cases ht with
    | some hs hd => exact rest_of_readExponent hs hd (startsWithDigit_rest hr) h
    | none =>
      rw [List.nil_append, readAfterWhole.eq_4] at h
      · exact (Prod.mk.inj (Except.ok.inj h)).2.symm
      · rintro s rfl
        exact (hr '.' rfl).2.1 rfl
      · rintro s rfl
        exact (hr 'e' rfl).2.2.1 rfl
      · rintro s rfl
        exact (hr 'E' rfl).2.2.2 rfl

private theorem rest_of_readAfterLong (hd : ∀ c ∈ digits, isDecimalDigit c = true)
    (ht : IsScale t)
    (h : readAfterLong negative significand (digits ++ (t ++ rest)) = .ok (n, r)) : r = rest := by
  rw [readAfterLong, dropWhile_left hd (startsWithDigit_scale hr ht)] at h
  cases ht with
  | fraction hd ht =>
    rw [List.cons_append, List.append_assoc] at h
    exact rest_of_readFraction hr hd ht h
  | exponent ht =>
    split at h
    · next s hs =>
      cases ht with
      | none => exact absurd rfl (hr '.' (by rw [← List.nil_append rest, hs]; rfl)).2.1
      | some _ _ => cases hs
    · exact rest_of_readScale hr ht h

private theorem rest_of_readMagnitude (ht : IsUnsigned t)
    (h : readMagnitude negative (t ++ rest) = .ok (n, r)) : r = rest := by
  obtain ⟨digits, scale, rfl, hd, hs⟩ := ht
  have hnext := startsWithDigit_scale hr hs
  obtain ⟨value, count, left, heq, hleft⟩ := exists_digitsBelow significandBound 0 hd.digit hnext
  obtain ⟨c, digits, rfl⟩ := List.exists_cons_of_ne_nil hd.ne_nil
  obtain ⟨hc, hrest⟩ := List.forall_mem_cons.mp hd.digit
  rw [List.append_assoc] at h
  by_cases hz : c = '0'
  · subst hz
    rw [List.cons_append, readMagnitude] at h
    split at h
    · cases h
    · next hnot =>
      rw [eq_nil_of_left hrest hnot] at h
      exact rest_of_readAfterWhole hr hs h
  · rw [List.cons_append] at h heq
    rw [readMagnitude.eq_3 _ _ _ hz, if_pos hc, heq] at h
    dsimp only at h
    split at h
    · exact rest_of_readAfterLong hr hleft hs h
    · next hnot =>
      rw [eq_nil_of_left hleft hnot] at h
      exact rest_of_readAfterWhole hr hs h

/-- A number that is read at the start of a numeral and of something that does not continue it is
the numeral as a whole. -/
theorem rest_of_readNumber (ht : IsNumeral t) (h : readNumber (t ++ rest) = .ok (n, r)) :
    r = rest := by
  cases ht with
  | negative hu => exact rest_of_readMagnitude hr hu h
  | plain hu =>
    obtain ⟨digits, scale, rfl, hd, hs⟩ := id hu
    obtain ⟨c, digits, rfl⟩ := List.exists_cons_of_ne_nil hd.ne_nil
    rw [readNumber.eq_2] at h
    · exact rest_of_readMagnitude hr hu h
    · intro s he
      have hc := hd.digit c List.mem_cons_self
      rw [(List.cons.inj he).1] at hc
      cases hc

end Rest

/-- A numeral begins with a digit or a minus sign. -/
theorem IsNumeral.exists_head (h : IsNumeral t) :
    ∃ c s, t = c :: s ∧ (c = '-' ∨ isDecimalDigit c = true) := by
  cases h with
  | negative hu => exact ⟨'-', _, rfl, .inl rfl⟩
  | plain hu =>
    obtain ⟨digits, scale, rfl, hd, hs⟩ := hu
    obtain ⟨c, digits, rfl⟩ := List.exists_cons_of_ne_nil hd.ne_nil
    exact ⟨c, digits ++ scale, rfl, .inr (hd.digit c List.mem_cons_self)⟩

end Stops

end Spruce.Json
