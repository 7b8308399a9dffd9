import Mathlib.Algebra.Ring.Int.Defs
import Spruce.Json.NumberReader

/-!
# Numbers in a text

A number is read in a text as it is read alone, whatever follows that cannot continue it
(`readNumber_append`). Every number that is read is a double or has 64 bits
(`inRange_of_readNumber`), and whole numbers of 64 bits are read as they are written
(`readsBack_whole`). Of doubles this cannot be said: the reader does not always find the nearest
one.
-/

namespace Spruce.Json

open Text

/-- A text that does not continue a number. -/
def EndsNumber (t : Text) : Prop :=
  ∀ c ∈ t.head?, isDecimalDigit c = false ∧ c ≠ '.' ∧ c ≠ 'e' ∧ c ≠ 'E'

namespace Number

/-- A number is read as it is written. -/
def ReadsBack (n : Number) : Prop := readNumber n.text = .ok (n, [])

/-- A number that can be read: a double, or a whole number of 64 bits. -/
def InRange : Number → Prop
  | .whole n => -(2 ^ 63) ≤ n ∧ n < 2 ^ 64
  | .double _ => True

end Number

/-! ### What follows a number -/

section Following

variable {rest t r : Text} {n : Number} (hr : EndsNumber rest)

include hr

private theorem startsWithDigit_append (t : Text) :
    startsWithDigit (t ++ rest) = startsWithDigit t := by
  cases t with
  | cons c t => rfl
  | nil =>
    cases rest with
    | nil => rfl
    | cons c rest => simpa [startsWithDigit] using (hr c rfl).1

private theorem dropWhile_append (t : Text) :
    (t ++ rest).dropWhile isDecimalDigit = t.dropWhile isDecimalDigit ++ rest := by
  induction t with
  | cons c t ih =>
    rw [List.cons_append, List.dropWhile_cons, List.dropWhile_cons]
    split
    · exact ih
    · rfl
  | nil =>
    cases rest with
    | nil => rfl
    | cons c rest => simp [(hr c rfl).1]

private theorem takeWhile_append (t : Text) :
    (t ++ rest).takeWhile isDecimalDigit = t.takeWhile isDecimalDigit := by
  induction t with
  | cons c t ih => rw [List.cons_append, List.takeWhile_cons, List.takeWhile_cons, ih]
  | nil =>
    cases rest with
    | nil => rfl
    | cons c rest => simp [(hr c rfl).1]

private theorem digitsBelow_append (bound acc : Nat) (t : Text) :
    digitsBelow bound acc (t ++ rest) =
      ((digitsBelow bound acc t).1, (digitsBelow bound acc t).2.1,
        (digitsBelow bound acc t).2.2 ++ rest) := by
  induction t generalizing acc with
  | cons c t ih =>
    rw [List.cons_append, digitsBelow, digitsBelow]
    split
    · rfl
    · split
      · rw [ih]
      · rfl
  | nil =>
    cases rest with
    | nil => rfl
    | cons c rest =>
      have hc : digitValue? c = none := by
        simpa [isDecimalDigit] using (hr c rfl).1
      simp [digitsBelow, hc]

omit hr in
private theorem finish_append {negative : Bool} {significand : Nat} {exponent : Int}
    (h : finish negative significand exponent t = .ok (n, r)) :
    finish negative significand exponent (t ++ rest) = .ok (n, r ++ rest) := by
  delta finish at h ⊢
  cases hx : scaled? significand exponent with
  | none =>
    rw [hx] at h
    cases h
  | some x =>
    rw [hx] at h
    obtain ⟨rfl, rfl⟩ := Prod.mk.inj (Except.ok.inj h)
    rfl

omit hr in
private theorem exponentSign_append (c : Char) (t : Text) :
    exponentSign (c :: t ++ rest) =
      ((exponentSign (c :: t)).1, (exponentSign (c :: t)).2 ++ rest) := by
  unfold exponentSign
  split <;> simp_all

private theorem readExponent_append {negative : Bool} {significand : Nat} {exponent : Int}
    (h : readExponent negative significand exponent t = .ok (n, r)) :
    readExponent negative significand exponent (t ++ rest) = .ok (n, r ++ rest) := by
  cases t with
  | nil => cases h
  | cons c t =>
    unfold readExponent at h ⊢
    rw [exponentSign_append]
    generalize exponentSign (c :: t) = sign at h ⊢
    obtain ⟨down, digits⟩ := sign
    cases digits with
    | nil => cases h
    | cons d digits =>
      dsimp only [List.cons_append] at h ⊢
      split at h
      · next hd =>
        rw [if_pos hd, ← List.cons_append, digitsBelow_append hr]
        dsimp only
        rw [startsWithDigit_append hr, dropWhile_append hr]
        split at h
        · next hs =>
          rw [if_pos hs]
          split at h
          · cases h
          · next hz =>
            obtain ⟨rfl, rfl⟩ := Prod.mk.inj (Except.ok.inj h)
            rw [if_neg hz]
        · next hs =>
          rw [if_neg hs]
          exact finish_append h
      · cases h

private theorem readScale_append {negative : Bool} {significand : Nat} {exponent : Int}
    (h : readScale negative significand exponent t = .ok (n, r)) :
    readScale negative significand exponent (t ++ rest) = .ok (n, r ++ rest) := by
  unfold readScale at h
  split at h
  · exact readExponent_append hr h
  · exact readExponent_append hr h
  · next he hE =>
    rw [readScale.eq_3]
    · exact finish_append h
    · intro s hs
      cases t with
      | nil => exact (hr 'e' (by rw [← List.nil_append rest, hs]; rfl)).2.2.1 rfl
      | cons c t => exact he t (by rw [List.cons_append] at hs; rw [(List.cons.inj hs).1])
    · intro s hs
      cases t with
      | nil => exact (hr 'E' (by rw [← List.nil_append rest, hs]; rfl)).2.2.2 rfl
      | cons c t => exact hE t (by rw [List.cons_append] at hs; rw [(List.cons.inj hs).1])

private theorem readFraction_append {negative : Bool} {significand : Nat} {exponent : Int}
    (h : readFraction negative significand exponent t = .ok (n, r)) :
    readFraction negative significand exponent (t ++ rest) = .ok (n, r ++ rest) := by
  unfold readFraction at h ⊢
  rw [digitsBelow_append hr]
  dsimp only at h ⊢
  rw [startsWithDigit_append hr, dropWhile_append hr]
  split at h
  · next hs =>
    rw [if_pos hs]
    exact readScale_append hr h
  · next hs =>
    rw [if_neg hs]
    split at h
    · split at h <;> cases h
    · next hc =>
      rw [if_neg hc]
      exact readScale_append hr h

private theorem readAfterWhole_append {negative : Bool} {significand : Nat}
    (h : readAfterWhole negative significand t = .ok (n, r)) :
    readAfterWhole negative significand (t ++ rest) = .ok (n, r ++ rest) := by
  unfold readAfterWhole at h
  split at h
  · exact readFraction_append hr h
  · exact readExponent_append hr h
  · exact readExponent_append hr h
  · next hd he hE =>
    obtain ⟨rfl, rfl⟩ := Prod.mk.inj (Except.ok.inj h)
    cases t with
    | cons c t =>
      rw [readAfterWhole.eq_4]
      · intro s hs
        exact hd t (by rw [List.cons_append] at hs; rw [(List.cons.inj hs).1])
      · intro s hs
        exact he t (by rw [List.cons_append] at hs; rw [(List.cons.inj hs).1])
      · intro s hs
        exact hE t (by rw [List.cons_append] at hs; rw [(List.cons.inj hs).1])
    | nil =>
      rw [List.nil_append, readAfterWhole.eq_4]
      · rintro s rfl
        exact (hr '.' rfl).2.1 rfl
      · rintro s rfl
        exact (hr 'e' rfl).2.2.1 rfl
      · rintro s rfl
        exact (hr 'E' rfl).2.2.2 rfl

private theorem readAfterLong_append {negative : Bool} {significand : Nat}
    (h : readAfterLong negative significand t = .ok (n, r)) :
    readAfterLong negative significand (t ++ rest) = .ok (n, r ++ rest) := by
  unfold readAfterLong at h ⊢
  rw [takeWhile_append hr, dropWhile_append hr]
  generalize t.dropWhile isDecimalDigit = after at h ⊢
  dsimp only at h ⊢
  cases after with
  | nil =>
    split
    · next s hs => exact absurd rfl (hr '.' (by rw [← List.nil_append rest, hs]; rfl)).2.1
    · exact readScale_append hr h
  | cons c after =>
    by_cases hc : c = '.'
    · subst hc
      exact readFraction_append hr h
    · split at h
      · next s hs => exact absurd (List.cons.inj hs).1 hc
      · split
        · next s hs => exact absurd (List.cons.inj hs).1 hc
        · exact readScale_append hr h

private theorem readMagnitude_append {negative : Bool}
    (h : readMagnitude negative t = .ok (n, r)) :
    readMagnitude negative (t ++ rest) = .ok (n, r ++ rest) := by
  cases t with
  | nil => cases h
  | cons c t =>
    by_cases hc : c = '0'
    · subst hc
      rw [List.cons_append, readMagnitude, startsWithDigit_append hr]
      rw [readMagnitude] at h
      split at h
      · cases h
      · next hs =>
        rw [if_neg hs]
        exact readAfterWhole_append hr h
    · rw [readMagnitude.eq_3 _ _ _ hc] at h
      rw [List.cons_append, readMagnitude.eq_3 _ _ _ hc]
      split at h
      · next hd =>
        rw [if_pos hd, ← List.cons_append, digitsBelow_append hr]
        dsimp only at h ⊢
        rw [startsWithDigit_append hr]
        split at h
        · next hs =>
          rw [if_pos hs]
          exact readAfterLong_append hr h
        · next hs =>
          rw [if_neg hs]
          exact readAfterWhole_append hr h
      · cases h

/-- A number is read alike where something follows that does not continue it. -/
theorem readNumber_append (h : readNumber t = .ok (n, r)) :
    readNumber (t ++ rest) = .ok (n, r ++ rest) := by
  cases t with
  | nil => cases h
  | cons c t =>
    by_cases hc : c = '-'
    · subst hc
      exact readMagnitude_append hr h
    · have hne (u : Text) : ∀ s, c :: u = '-' :: s → False := fun s hs ↦ hc (List.cons.inj hs).1
      rw [readNumber.eq_2 _ (hne t)] at h
      rw [List.cons_append, readNumber.eq_2 _ (hne _), ← List.cons_append]
      exact readMagnitude_append hr h

end Following

/-! ### Numbers that are read -/

section Range

variable {t r : Text} {n : Number} {negative : Bool} {significand : Nat} {exponent : Int}

private theorem inRange_of_finish (h : finish negative significand exponent t = .ok (n, r)) :
    n.InRange := by
  delta finish at h
  cases hx : scaled? significand exponent with
  | none =>
    rw [hx] at h
    cases h
  | some x =>
    rw [hx] at h
    obtain ⟨rfl, -⟩ := Prod.mk.inj (Except.ok.inj h)
    trivial

private theorem inRange_of_readExponent
    (h : readExponent negative significand exponent t = .ok (n, r)) : n.InRange := by
  unfold readExponent at h
  dsimp only at h
  split at h
  · cases h
  · split at h
    · split at h
      · split at h
        · cases h
        · obtain ⟨rfl, -⟩ := Prod.mk.inj (Except.ok.inj h)
          trivial
      · exact inRange_of_finish h
    · cases h

private theorem inRange_of_readScale
    (h : readScale negative significand exponent t = .ok (n, r)) : n.InRange := by
  unfold readScale at h
  split at h
  · exact inRange_of_readExponent h
  · exact inRange_of_readExponent h
  · exact inRange_of_finish h

private theorem inRange_of_readFraction
    (h : readFraction negative significand exponent t = .ok (n, r)) : n.InRange := by
  unfold readFraction at h
  dsimp only at h
  split at h
  · exact inRange_of_readScale h
  · split at h
    · split at h <;> cases h
    · exact inRange_of_readScale h

private theorem inRange_wholeOrDouble (negative : Bool) {magnitude : Nat}
    (h : magnitude < significandBound) : (wholeOrDouble negative magnitude).InRange := by
  have hb : significandBound = 2 ^ 64 := rfl
  have hp : Nat.pow 2 63 = 2 ^ 63 := rfl
  unfold wholeOrDouble
  split
  · split
    · trivial
    · simp only [Number.InRange]
      omega
  · simp only [Number.InRange]
    omega

private theorem inRange_of_readAfterWhole (hs : significand < significandBound)
    (h : readAfterWhole negative significand t = .ok (n, r)) : n.InRange := by
  unfold readAfterWhole at h
  split at h
  · exact inRange_of_readFraction h
  · exact inRange_of_readExponent h
  · exact inRange_of_readExponent h
  · obtain ⟨rfl, -⟩ := Prod.mk.inj (Except.ok.inj h)
    exact inRange_wholeOrDouble negative hs

private theorem inRange_of_readAfterLong
    (h : readAfterLong negative significand t = .ok (n, r)) : n.InRange := by
  unfold readAfterLong at h
  dsimp only at h
  split at h
  · exact inRange_of_readFraction h
  · exact inRange_of_readScale h

private theorem digitsBelow_lt {bound acc : Nat} (h : acc < bound) (t : Text) :
    (digitsBelow bound acc t).1 < bound := by
  induction t generalizing acc with
  | nil => exact h
  | cons c t ih =>
    unfold digitsBelow
    split
    · exact h
    · split
      · next hd => exact ih hd
      · exact h

private theorem inRange_of_readMagnitude (h : readMagnitude negative t = .ok (n, r)) :
    n.InRange := by
  have hpos : 0 < significandBound := by decide
  unfold readMagnitude at h
  split at h
  · cases h
  · split at h
    · cases h
    · exact inRange_of_readAfterWhole hpos h
  · dsimp only at h
    split at h
    · split at h
      · exact inRange_of_readAfterLong h
      · exact inRange_of_readAfterWhole (digitsBelow_lt hpos _) h
    · cases h

/-- Every number that is read can be read. -/
theorem inRange_of_readNumber (h : readNumber t = .ok (n, r)) : n.InRange := by
  unfold readNumber at h
  split at h
  · exact inRange_of_readMagnitude h
  · exact inRange_of_readMagnitude h

end Range

/-! ### Whole numbers -/

private theorem digitValue?_digitChar : ∀ d < 10, digitValue? (Nat.digitChar d) = some d := by
  decide

private theorem digitsBelow_append_of_consumed {bound acc value count : Nat} {t : Text}
    (h : digitsBelow bound acc t = (value, count, [])) (s : Text) :
    digitsBelow bound acc (t ++ s) =
      ((digitsBelow bound value s).1, count + (digitsBelow bound value s).2.1,
        (digitsBelow bound value s).2.2) := by
  induction t generalizing acc count with
  | nil =>
    obtain ⟨rfl, hc⟩ := Prod.mk.inj h
    obtain ⟨rfl, -⟩ := Prod.mk.inj hc
    simp
  | cons c t ih =>
    rw [List.cons_append]
    rw [digitsBelow] at h ⊢
    cases hd : digitValue? c with
    | none => simp [hd] at h
    | some d =>
      simp only [hd] at h ⊢
      split at h
      · next hb =>
        rcases ht : digitsBelow bound (10 * acc + d) t with ⟨v, k, r⟩
        rw [ht] at h
        obtain ⟨rfl, hk⟩ := Prod.mk.inj h
        obtain ⟨rfl, rfl⟩ := Prod.mk.inj hk
        rw [if_pos hb, ih ht]
        simp only [Prod.mk.injEq, and_true, true_and]
        omega
      · simp at h

private theorem digitsBelow_ofNat {bound n : Nat} (h : n < bound) :
    ∃ count, digitsBelow bound 0 (ofNat n) = (n, count, []) := by
  induction n using Nat.strongRecOn with
  | ind n ih =>
    rw [ofNat, Nat.toDigits_eq_if (by decide)]
    split
    · next hn =>
      refine ⟨1, ?_⟩
      simp [digitsBelow, digitValue?_digitChar n hn, h]
    · next hn =>
      obtain ⟨count, hc⟩ := ih (n / 10) (by omega) (by omega)
      have hlast : 10 * (n / 10) + n % 10 = n := by omega
      refine ⟨count + 1, ?_⟩
      rw [ofNat] at hc
      rw [digitsBelow_append_of_consumed hc]
      simp [digitsBelow, digitValue?_digitChar (n % 10) (by omega), hlast, h]

private theorem exists_head_ofNat {n : Nat} (h : 0 < n) :
    ∃ c t, ofNat n = c :: t ∧ c ≠ '0' ∧ isDecimalDigit c = true := by
  induction n using Nat.strongRecOn with
  | ind n ih =>
    rw [ofNat, Nat.toDigits_eq_if (by decide)]
    split
    · next hn =>
      refine ⟨_, [], rfl, fun hz ↦ ?_, by simp [isDecimalDigit, digitValue?_digitChar n hn]⟩
      have := Nat.digitChar_eq_zero.mp hz
      omega
    · obtain ⟨c, t, ht, hc⟩ := ih (n / 10) (by omega) (by omega)
      rw [ofNat] at ht
      exact ⟨c, t ++ [(n % 10).digitChar], by rw [ht, List.cons_append], hc⟩

private theorem readMagnitude_ofNat (negative : Bool) {n : Nat} (h : n < significandBound) :
    readMagnitude negative (ofNat n) = .ok (wholeOrDouble negative n, []) := by
  rcases Nat.eq_zero_or_pos n with rfl | hpos
  · rfl
  · obtain ⟨c, t, ht, hz, hd⟩ := exists_head_ofNat hpos
    obtain ⟨count, hc⟩ := digitsBelow_ofNat h
    rw [ht] at hc ⊢
    rw [readMagnitude.eq_3 _ _ _ hz, if_pos hd, hc]
    rfl

/-- Whole numbers of 64 bits are read as they are written. -/
theorem readsBack_whole {n : Int} (h : (Number.whole n).InRange) : (Number.whole n).ReadsBack := by
  have hb : significandBound = 2 ^ 64 := rfl
  have hp : Nat.pow 2 63 = 2 ^ 63 := rfl
  obtain ⟨hlow, hhigh⟩ := h
  unfold Number.ReadsBack Number.text Number.ofInt
  cases n with
  | ofNat m =>
    have hm : m < significandBound := by
      have hcast : Int.ofNat m = m := rfl
      omega
    have hread : readNumber (ofNat m) = readMagnitude false (ofNat m) := by
      rcases Nat.eq_zero_or_pos m with rfl | hpos
      · rfl
      · obtain ⟨c, t, ht, -, hd⟩ := exists_head_ofNat hpos
        rw [ht]
        refine readNumber.eq_2 _ fun s hs ↦ ?_
        rw [(List.cons.inj hs).1] at hd
        cases hd
    exact hread.trans (readMagnitude_ofNat false hm)
  | negSucc m =>
    have hm : m + 1 < significandBound := by omega
    have hread := readMagnitude_ofNat true hm
    have hw : wholeOrDouble true (m + 1) = .whole (Int.negSucc m) := by
      rw [wholeOrDouble, if_pos rfl, if_neg (by omega)]
      rfl
    rw [hw] at hread
    exact hread

end Spruce.Json
