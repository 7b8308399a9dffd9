import Spruce.Proofs.Declaration.Element
import Spruce.Proofs.Text.CharClass

/-!
# The name between two delimiters

What stands between two delimiters of a pattern can bind a name: the name itself, perhaps after a
key, perhaps before a default (`Binds`). Only one name can be read out of a text in this way
(`Binds.name_eq`), so the element that begins at a delimiter is found exactly when the text up to
the next delimiter binds the name that is looked for (`exists_elementAt?`, `elementAt?_eq_none`).
-/

namespace Spruce.Declaration

open Text

variable {name t rest : Text} {opener stop : Char} {e : Element}

/-! ### Text between delimiters -/

/-- Text without commas and braces, as it stands between two delimiters of a pattern. -/
def Undelimited (t : Text) : Prop := ∀ c ∈ t, isDefaultChar c = true

instance (t : Text) : Decidable (Undelimited t) := List.decidableBAll (isDefaultChar · = true) t

/-- A text that can name a variable. -/
def IsVariable (name : Text) : Prop := name ≠ [] ∧ ∀ c ∈ name, isIdentifier c = true

instance (name : Text) : Decidable (IsVariable name) :=
  decidable_of_iff (name ≠ [] ∧ name.all isIdentifier = true) (by simp [IsVariable])

/-- The text binds `name`: the name stands in it, perhaps after a key and perhaps before a default,
with nothing but blanks around. -/
def Binds (name t : Text) : Prop :=
  ∃ lead key value tail, t = lead ++ (key ++ name ++ value ++ tail) ∧
    IsBlanks lead ∧ IsKey key ∧ IsDefault value ∧ IsBlanks tail

/-- A text has no delimiter when its two parts have none. -/
theorem undelimited_append {s t : Text} :
    Undelimited (s ++ t) ↔ Undelimited s ∧ Undelimited t :=
  List.forall_mem_append

/-- A text has no delimiter when its first character is none and the rest has none. -/
theorem undelimited_cons {c : Char} :
    Undelimited (c :: t) ↔ isDefaultChar c = true ∧ Undelimited t :=
  List.forall_mem_cons

/-- A delimiter does not occur in a text without delimiters. -/
theorem Undelimited.notMem (h : Undelimited t) {c : Char} (hc : isDefaultChar c = false) :
    c ∉ t := by
  intro hm
  rw [h c hm] at hc
  cases hc

/-- Characters of a class without commas and braces make up a text between delimiters. -/
theorem undelimited_of_class {p : Char → Bool} (h : ∀ c ∈ t, p c = true)
    (hp : [',', '{', '}'].any p = false) : Undelimited t := by
  intro c hc
  have hnot (d : Char) (hd : d ∈ [',', '{', '}']) : c ≠ d := by
    rintro rfl
    exact List.any_eq_false.mp hp c hd (h c hc)
  simp [isDefaultChar, hnot]

/-- Blanks are no delimiters. -/
theorem undelimited_blanks (h : IsBlanks t) : Undelimited t := undelimited_of_class h (by decide)

private theorem undelimited_key (h : IsKey t) : Undelimited t := by
  rcases h with rfl | ⟨first, word, gap, blanks, rfl, hfirst, hword, hgap, hblanks⟩
  · exact fun _ hc ↦ absurd hc List.not_mem_nil
  · have hw : Undelimited word := undelimited_of_class hword (by decide)
    have hf : Undelimited [first] :=
      undelimited_of_class (p := isKeyStart) (by simpa using hfirst) (by decide)
    simp only [undelimited_cons, undelimited_append]
    exact ⟨hf first List.mem_cons_self, hw, undelimited_blanks hgap, by decide,
      undelimited_blanks hblanks⟩

private theorem undelimited_default (h : IsDefault t) : Undelimited t := by
  rcases h with rfl | ⟨gap, value, rfl, hgap, -, hvalue⟩
  · exact fun _ hc ↦ absurd hc List.not_mem_nil
  · simp only [undelimited_append, undelimited_cons]
    exact ⟨undelimited_blanks hgap, by decide, hvalue⟩

/-- What binds a name has no comma and no brace in it. -/
theorem Binds.undelimited (h : Binds name t) (hn : IsVariable name) : Undelimited t := by
  obtain ⟨lead, key, value, tail, rfl, hlead, hkey, hvalue, htail⟩ := h
  have hname : Undelimited name := undelimited_of_class hn.2 (by decide)
  simp only [undelimited_append]
  exact ⟨undelimited_blanks hlead, ⟨⟨undelimited_key hkey, hname⟩, undelimited_default hvalue⟩,
    undelimited_blanks htail⟩

/-! ### The name that is bound -/

/-- The characters of names and of keys. -/
def isNameChar (c : Char) : Bool := isIdentifier c || isKeyPart c

/-- The name that a text binds, if it binds one: its first word, or the next one after a colon. -/
def boundName (t : Text) : Text :=
  match trimStart ((trimStart t).dropWhile isNameChar) with
  | ':' :: after => (trimStart after).takeWhile isNameChar
  | _ => (trimStart t).takeWhile isNameChar

private theorem isNameChar_of_isBlank {c : Char} (h : isBlank c = true) :
    isNameChar c = false := by
  have hdollar : c ≠ '$' := by
    rintro rfl
    exact absurd h (by decide)
  simp [isNameChar, isKeyPart, isIdentifier_of_isBlank h, isWord_of_isBlank h, hdollar]

private theorem isBlank_of_isNameChar {c : Char} (h : isNameChar c = true) :
    isBlank c = false := by
  by_contra hb
  rw [isNameChar_of_isBlank (Bool.not_eq_false _ ▸ hb)] at h
  cases h

/-- What begins a key may also go on in it. -/
theorem isKeyPart_of_isKeyStart {c : Char} (h : isKeyStart c = true) : isKeyPart c = true := by
  simp only [isKeyStart, Bool.or_eq_true, beq_iff_eq] at h
  rcases h with (hl | rfl) | rfl
  · rw [isKeyPart, isWord_of_ascii (by rw [hl, Bool.true_or]), Bool.true_or]
  · decide
  · decide

private theorem head_after_gap {gap : Text} (hgap : IsBlanks gap) {c : Char}
    (hc : isNameChar c = false) (r : Text) :
    ∀ d ∈ (gap ++ c :: r).head?, isNameChar d = false := by
  intro d hd
  cases gap with
  | nil =>
    obtain rfl : c = d := Option.some.inj hd
    exact hc
  | cons b gap =>
    obtain rfl : b = d := Option.some.inj hd
    exact isNameChar_of_isBlank (hgap b List.mem_cons_self)

private theorem head_after_name {value tail : Text} (hvalue : IsDefault value)
    (htail : IsBlanks tail) : ∀ c ∈ (value ++ tail).head?, isNameChar c = false := by
  rcases hvalue with rfl | ⟨gap, v, rfl, hgap, -, -⟩
  · intro c hc
    exact isNameChar_of_isBlank (htail c (List.mem_of_head? hc))
  · rw [List.append_assoc, List.cons_append]
    exact head_after_gap hgap (by decide) _

private theorem trimStart_after_name {value tail : Text} (hvalue : IsDefault value)
    (htail : IsBlanks tail) (after : Text) : trimStart (value ++ tail) ≠ ':' :: after := by
  rcases hvalue with rfl | ⟨gap, v, rfl, hgap, -, -⟩
  · rw [List.nil_append, htail.trimStart_eq_nil]
    intro h
    cases h
  · rw [List.append_assoc, hgap.trimStart_append, List.cons_append, trimStart_cons (by decide)]
    intro h
    exact absurd (List.cons.inj h).1 (by decide)

private theorem trimStart_name {name : Text} (hn : IsVariable name) (r : Text) :
    trimStart (name ++ r) = name ++ r := by
  obtain ⟨hne, hall⟩ := hn
  cases name with
  | nil => exact absurd rfl hne
  | cons c name =>
    refine trimStart_cons (isBlank_of_isNameChar ?_) _
    rw [isNameChar, hall c List.mem_cons_self, Bool.true_or]

private theorem boundName_eq (h : Binds name t) (hn : IsVariable name) : boundName t = name := by
  obtain ⟨lead, key, value, tail, rfl, hlead, hkey, hvalue, htail⟩ := h
  have hname : ∀ c ∈ name, isNameChar c = true := fun c hc ↦ by
    rw [isNameChar, hn.2 c hc, Bool.true_or]
  have hhead := head_after_name hvalue htail
  have hlast : trimStart (name ++ value ++ tail) = name ++ (value ++ tail) := by
    rw [List.append_assoc, trimStart_name hn]
  rcases hkey with rfl | ⟨first, word, gap, blanks, rfl, hfirst, hword, hgap, hblanks⟩
  · have hstart : trimStart (lead ++ ([] ++ name ++ value ++ tail)) = name ++ (value ++ tail) := by
      rw [hlead.trimStart_append, List.nil_append, hlast]
    unfold boundName
    rw [hstart, dropWhile_run hname hhead, takeWhile_run hname hhead]
    split
    · next after ha => exact absurd ha (trimStart_after_name hvalue htail after)
    · rfl
  · let rest := name ++ (value ++ tail)
    have hrun : ∀ c ∈ first :: word, isNameChar c = true := by
      intro c hc
      rcases List.mem_cons.mp hc with rfl | hc
      · rw [isNameChar, isKeyPart_of_isKeyStart hfirst, Bool.or_true]
      · rw [isNameChar, hword c hc, Bool.or_true]
    have hstop := head_after_gap (c := ':') hgap (by decide) (blanks ++ rest)
    have hstart : trimStart (lead ++ (first :: (word ++ (gap ++ ':' :: blanks)) ++ name ++ value ++
        tail)) = first :: word ++ (gap ++ ':' :: (blanks ++ rest)) := by
      rw [hlead.trimStart_append]
      simp only [List.append_assoc, List.cons_append]
      exact trimStart_cons (isBlank_of_isNameChar (hrun first List.mem_cons_self)) _
    unfold boundName
    rw [hstart, dropWhile_run hrun hstop, hgap.trimStart_append, trimStart_cons (by decide)]
    change (trimStart (blanks ++ rest)).takeWhile isNameChar = name
    rw [hblanks.trimStart_append, trimStart_name hn, takeWhile_run hname hhead]

/-- A text binds one name at most. -/
theorem Binds.name_eq {other : Text} (h : Binds name t) (ho : Binds other t)
    (hn : IsVariable name) (hother : IsVariable other) : name = other := by
  rw [← boundName_eq h hn, boundName_eq ho hother]

/-- What binds a name is not blank. -/
theorem Binds.not_blank (h : Binds name t) (hn : IsVariable name) : ¬ IsBlanks t := by
  obtain ⟨lead, key, value, tail, rfl, -⟩ := h
  intro hb
  obtain ⟨c, hc⟩ := List.exists_mem_of_ne_nil name hn.1
  have hblank := hb c (by simp [hc])
  have hname := hn.2 c hc
  rw [isIdentifier_of_isBlank hblank] at hname
  cases hname

/-! ### The element at a delimiter -/

/-- The element begins after `head`, which ends in its first delimiter, and ends at the delimiter
`stop`, after which `rest` follows. -/
structure Element.Reaches (e : Element) (head : Text) (stop : Char) (rest : Text) : Prop where
  head : e.before ++ [e.opener] = head
  lead : IsBlanks e.lead
  closing : e.closing.IsEnd
  delimiter : e.closing.delimiter = stop
  rest : e.closing.after ++ e.closing.rest = rest

/-- Texts that end at their first delimiter are the same where the whole text is. -/
theorem undelimited_inj {s t r r' : Text} {c d : Char} (hs : Undelimited s)
    (ht : Undelimited t) (hc : isDefaultChar c = false) (hd : isDefaultChar d = false)
    (h : s ++ c :: r = t ++ d :: r') : s = t ∧ c = d ∧ r = r' := by
  have hcut := congrArg (List.takeWhile isDefaultChar) h
  rw [takeWhile_run_cons hs hc, takeWhile_run_cons ht hd] at hcut
  subst hcut
  obtain ⟨rfl, rfl⟩ := List.cons.inj (List.append_cancel_left h)
  exact ⟨rfl, rfl, rfl⟩

/-- An element is found where the text up to the next delimiter binds the name. -/
theorem reaches_of_elementAt? (ht : Undelimited t) (hs : isDefaultChar stop = false)
    (hn : IsVariable name) (h : elementAt? name (opener :: (t ++ stop :: rest)) = some e) :
    Binds name t ∧ e.Reaches [opener] stop rest := by
  obtain ⟨hbefore, key, value, hspells⟩ := exists_spells_of_elementAt? h
  have hline := hspells.line_eq
  rw [hbefore, List.nil_append] at hline
  obtain ⟨hopener, hline⟩ := List.cons.inj hline
  have hbinds : Binds name (e.lead ++ (key ++ name ++ value ++ e.closing.tail)) :=
    ⟨_, _, _, _, rfl, hspells.lead, hspells.key, hspells.value, hspells.closing.tail⟩
  have hdelimiter : isDefaultChar e.closing.delimiter = false := by
    rcases hspells.closing.delimiter with hd | hd <;> rw [hd] <;> decide
  have hsplit : t ++ stop :: rest = (e.lead ++ (key ++ name ++ value ++ e.closing.tail)) ++
      e.closing.delimiter :: (e.closing.after ++ e.closing.rest) := by
    rw [hline, Closing.text]
    simp
  obtain ⟨rfl, rfl, rfl⟩ := undelimited_inj ht (hbinds.undelimited hn) hs hdelimiter hsplit
  exact ⟨hbinds, by rw [hbefore, hopener]; rfl, hspells.lead, hspells.closing, rfl, rfl⟩

/-- No element is found where the text up to the next delimiter does not bind the name. -/
theorem elementAt?_eq_none (ht : Undelimited t) (hs : isDefaultChar stop = false)
    (hn : IsVariable name) (hnot : ¬ Binds name t) :
    elementAt? name (opener :: (t ++ stop :: rest)) = none := by
  cases h : elementAt? name (opener :: (t ++ stop :: rest)) with
  | none => rfl
  | some e => exact absurd (reaches_of_elementAt? ht hs hn h).1 hnot

/-! ### Finding what is bound -/

private theorem isSome_orElse {α : Type} (o o' : Option α) :
    (o <|> o').isSome = (o.isSome || o'.isSome) := by
  cases o <;> simp

section Finding

variable {value tail : Text} (hvalue : IsDefault value) (htail : IsBlanks tail)
  (hs : stop = ',' ∨ stop = '}')

include htail hs

private theorem isSome_closing? (rest : Text) :
    (closing? (tail ++ stop :: rest)).isSome = true := by
  have hblank : isBlank stop = false := by
    rcases hs with rfl | rfl <;> decide
  rw [closing?, dropWhile_run_cons htail hblank]
  simp [hs]

include hvalue

private theorem isSome_closingAfterName? (name rest : Text) :
    (closingAfterName? name (name ++ (value ++ (tail ++ stop :: rest)))).isSome = true := by
  have hname : name.isPrefixOf? (name ++ (value ++ (tail ++ stop :: rest))) =
      some (value ++ (tail ++ stop :: rest)) := List.isPrefixOf?_eq_some_iff_append_eq.mpr rfl
  simp only [closingAfterName?, hname, isSome_orElse, Bool.or_eq_true]
  rcases hvalue with rfl | ⟨gap, v, rfl, hgap, hne, hv⟩
  · exact .inr (isSome_closing? htail hs rest)
  · left
    rw [closingAfterDefault?, List.append_assoc, List.cons_append,
      dropWhile_run_cons hgap (by decide)]
    -- No blank need be passed over, as the default may begin with blanks.
    refine List.findSome?_isSome_iff.mpr ⟨([], v ++ (tail ++ stop :: rest)), ?_, ?_⟩
    · have hnone : ∀ c ∈ ([] : Text), isBlank c = true := by simp
      exact mem_splitsDown hnone _
    · refine List.findSome?_isSome_iff.mpr ⟨(v, tail ++ stop :: rest), ?_, ?_⟩
      · exact mem_splitsUp hne hv _
      · exact isSome_closing? htail hs rest

private theorem isSome_closingAfterKey? {first : Char} {word gap blanks : Text}
    (hfirst : isKeyStart first = true) (hword : ∀ c ∈ word, isKeyPart c = true)
    (hgap : IsBlanks gap) (hblanks : IsBlanks blanks) (name rest : Text) :
    (closingAfterKey? name (first :: (word ++ (gap ++ ':' :: (blanks ++
      (name ++ (value ++ (tail ++ stop :: rest)))))))).isSome = true := by
  have hstop (r : Text) : ∀ c ∈ (gap ++ ':' :: r).head?, isKeyPart c = false := fun c hc ↦
    (Bool.or_eq_false_iff.mp (head_after_gap hgap (c := ':') (by decide) r c hc)).2
  rw [closingAfterKey?, if_pos hfirst, dropWhile_run hword (hstop _),
    dropWhile_run_cons hgap (by decide)]
  exact List.findSome?_isSome_iff.mpr
    ⟨_, mem_splitsDown hblanks _, isSome_closingAfterName? hvalue htail hs name rest⟩

end Finding

/-- The element that binds the name up to the next delimiter is found. -/
theorem exists_elementAt? (ho : opener = '{' ∨ opener = ',') (hs : stop = ',' ∨ stop = '}')
    (hn : IsVariable name) (h : Binds name t) (rest : Text) :
    ∃ e, elementAt? name (opener :: (t ++ stop :: rest)) = some e ∧
      e.Reaches [opener] stop rest := by
  have hstop : isDefaultChar stop = false := by
    rcases hs with rfl | rfl <;> decide
  have hfound : (elementAt? name (opener :: (t ++ stop :: rest))).isSome = true := by
    obtain ⟨lead, key, value, tail, rfl, hlead, hkey, hvalue, htail⟩ := h
    rw [elementAt?, if_pos ho, List.append_assoc]
    refine List.findSome?_isSome_iff.mpr ⟨_, mem_splitsDown hlead _, ?_⟩
    rw [Option.isSome_map, isSome_orElse, Bool.or_eq_true]
    simp only [List.append_assoc]
    rcases hkey with rfl | ⟨first, word, gap, blanks, rfl, hfirst, hword, hgap, hblanks⟩
    · exact .inr (isSome_closingAfterName? hvalue htail hs name rest)
    · left
      simp only [List.cons_append, List.append_assoc]
      exact isSome_closingAfterKey? hvalue htail hs hfirst hword hgap hblanks name rest
  obtain ⟨e, he⟩ := Option.isSome_iff_exists.mp hfound
  exact ⟨e, he, (reaches_of_elementAt? (h.undelimited hn) hstop hn he).2⟩

end Spruce.Declaration
