import Spruce.Proofs.Declaration.Removal

/-!
# Flat patterns

A flat pattern is a list of entries in braces: names, each perhaps with a key before it and a
default after it, with spaces and tabs around them and perhaps a comma at the end. Removing a name
takes its entry out of the list and leaves the others in their order (`removeElement?_flat`). The
commas after the pattern are joined as well, so that what stands there stays as it is exactly when
none of them is doubled or next to a brace (`removeElement?_after_iff`).
-/

namespace Spruce.Declaration

open Text

variable {name before after inner : Text}

/-! ### Entries -/

/-- Spaces and tabs only. -/
def IsSpaces (t : Text) : Prop := ∀ c ∈ t, isSpaceOrTab c = true

instance (t : Text) : Decidable (IsSpaces t) := List.decidableBAll (isSpaceOrTab · = true) t

/-- Whether a text is made of ASCII letters and digits, underscores and dollar signs, and does not
begin with a digit. -/
def isPlainName : Text → Bool
  | [] => false
  | c :: r => isKeyStart c && r.all fun d => isKeyStart d || isAsciiDigit d

/-- A key, and the spaces before and after its colon. -/
structure Key where
  word : Text
  gap : Text
  spaces : Text
  word_plain : isPlainName word = true
  gap_spaces : IsSpaces gap
  spaces_spaces : IsSpaces spaces

/-- A name in a flat pattern, with the spaces before and after it, its key, and what stands after
its equals sign. -/
structure Entry where
  lead : Text
  key : Option Key
  name : Text
  gap : Text
  default : Option Text
  lead_spaces : IsSpaces lead
  name_plain : isPlainName name = true
  gap_spaces : IsSpaces gap
  default_plain : ∀ value ∈ default, Undelimited value ∧ ¬ IsBlanks value

/-- The text of a key with its colon. -/
def Key.text (k : Key) : Text := k.word ++ (k.gap ++ ':' :: k.spaces)

/-- The text of an entry. -/
def Entry.text (e : Entry) : Text :=
  e.lead ++ (e.key.elim [] Key.text ++ e.name ++ (e.gap ++ e.default.elim [] ('=' :: ·)))

/-- The text of a flat pattern between its braces. The ending is what stands after a comma at the
end of the list. -/
def listText (entries : List Entry) (ending : Option Text) : Text :=
  joinWith [','] (entries.map Entry.text ++ ending.toList)

/-- A comma stands at the end of the text, blanks aside. -/
def EndsInComma (t : Text) : Prop := ∃ s blanks, t = s ++ ',' :: blanks ∧ IsBlanks blanks

private theorem IsSpaces.isBlanks {t : Text} (h : IsSpaces t) : IsBlanks t := fun c hc ↦
  isBlank_of_isSpaceOrTab (h c hc)

private theorem exists_of_isPlainName {t : Text} (h : isPlainName t = true) :
    ∃ c r, t = c :: r ∧ isKeyStart c = true ∧
      ∀ d ∈ r, (isKeyStart d || isAsciiDigit d) = true := by
  cases t with
  | nil => cases h
  | cons c r =>
    obtain ⟨hc, hr⟩ := Bool.and_eq_true_iff.mp h
    exact ⟨c, r, rfl, hc, List.all_eq_true.mp hr⟩

private theorem isIdentifier_of_plain {c : Char} (h : (isKeyStart c || isAsciiDigit c) = true) :
    isIdentifier c = true := by
  simp only [isKeyStart, Bool.or_eq_true, beq_iff_eq] at h
  rcases h with ((hl | rfl) | rfl) | hd
  · exact isIdentifier_of_ascii (by rw [hl, Bool.true_or])
  · decide
  · decide
  · exact isIdentifier_of_ascii (by rw [hd, Bool.or_true])

private theorem isKeyPart_of_plain {c : Char} (h : (isKeyStart c || isAsciiDigit c) = true) :
    isKeyPart c = true := by
  rcases Bool.or_eq_true_iff.mp h with hl | hd
  · exact isKeyPart_of_isKeyStart hl
  · rw [isKeyPart, isWord_of_ascii (by rw [hd, Bool.or_true]), Bool.true_or]

/-- The name of an entry can name a variable. -/
theorem Entry.isVariable (e : Entry) : IsVariable e.name := by
  obtain ⟨c, r, hname, hc, hr⟩ := exists_of_isPlainName e.name_plain
  rw [hname]
  refine ⟨List.cons_ne_nil c r, List.forall_mem_cons.mpr ⟨?_, fun d hd ↦ ?_⟩⟩
  · exact isIdentifier_of_plain (by rw [hc, Bool.true_or])
  · exact isIdentifier_of_plain (hr d hd)

private theorem Key.isKey (k : Key) : IsKey k.text := by
  obtain ⟨c, r, hword, hc, hr⟩ := exists_of_isPlainName k.word_plain
  refine .inr ⟨c, r, k.gap, k.spaces, ?_, hc, fun d hd ↦ isKeyPart_of_plain (hr d hd),
    k.gap_spaces.isBlanks, k.spaces_spaces.isBlanks⟩
  rw [Key.text, hword, List.cons_append]

/-- An entry binds its name. -/
theorem Entry.binds (e : Entry) : Binds e.name e.text := by
  have hlead := e.lead_spaces.isBlanks
  have hgap := e.gap_spaces.isBlanks
  have hkey : IsKey (e.key.elim [] Key.text) := by
    cases e.key with
    | none => exact .inl rfl
    | some k => exact k.isKey
  have hdefault := e.default_plain
  cases hd : e.default with
  | none =>
    refine ⟨e.lead, _, [], e.gap, ?_, hlead, hkey, .inl rfl, hgap⟩
    rw [Entry.text, hd, Option.elim_none, List.append_nil, List.append_nil]
  | some value =>
    obtain ⟨hplain, hvalue⟩ := hdefault value hd
    have hne : value ≠ [] := by
      rintro rfl
      exact hvalue isBlanks_nil
    refine ⟨e.lead, _, e.gap ++ '=' :: value, [], ?_, hlead, hkey,
      .inr ⟨e.gap, value, rfl, hgap, hne, hplain⟩, isBlanks_nil⟩
    rw [Entry.text, hd, Option.elim_some, List.append_nil]

/-- An entry binds no other name: not its key, not a part of its name, and nothing in its
default. -/
theorem Entry.binds_iff (e : Entry) (hn : IsVariable name) : Binds name e.text ↔ e.name = name := by
  constructor
  · intro h
    exact e.binds.name_eq h e.isVariable hn
  · rintro rfl
    exact e.binds

/-- An entry is an item of its list. -/
theorem Entry.isItem (e : Entry) : IsItem e.text :=
  ⟨e.binds.undelimited e.isVariable, e.binds.not_blank e.isVariable⟩

/-! ### Braces around a list -/

private theorem holdsPair_braces (hbefore : Undelimited before) (hafter : Undelimited after)
    (hopening : '{' ∉ inner) (hclosing : '}' ∉ inner) :
    holdsPair '{' '}' (before ++ '{' :: (inner ++ '}' :: after)) = true ↔ IsBlanks inner := by
  have hrest : holdsPair '{' '}' (inner ++ '}' :: after) = false := by
    have hopen : '{' ∉ after := hafter.notMem (by decide)
    exact holdsPair_of_notMem (by simp [hopening, hopen])
  rw [holdsPair_append (hbefore.notMem (by decide)), holdsPair, hrest]
  constructor
  · intro h
    by_contra hb
    obtain ⟨blanks, c, r, rfl, hblanks, hc⟩ := exists_of_not_blanks hb
    have hne : c ≠ '}' := by
      rintro rfl
      simp at hclosing
    rw [List.append_assoc, List.cons_append, pairLength?_blanks hblanks hc, if_neg hne] at h
    cases h
  · intro hb
    rw [pairLength?_blanks hb (by decide), if_pos rfl]
    rfl

private theorem holdsPair_joinWith {w : Text} {ws : List Text} {pad : Text}
    (hbefore : Undelimited before) (hafter : Undelimited after)
    (hws : ∀ t ∈ w :: ws, Undelimited t) (hw : ¬ IsBlanks w) (hpad : IsBlanks pad) :
    holdsPair '{' '}'
      (before ++ '{' :: ((joinWith [','] (w :: ws) ++ pad) ++ '}' :: after)) = false := by
  have hbrace {c : Char} (hc : isDefaultChar c = false) (hne : c ≠ ',') :
      c ∉ joinWith [','] (w :: ws) ++ pad := by
    intro hm
    rcases List.mem_append.mp hm with hm | hm
    · rcases mem_joinWith hm with rfl | ⟨t, ht, hm⟩
      · exact hne rfl
      · exact (hws t ht).notMem hc hm
    · exact (undelimited_blanks hpad).notMem hc hm
  rw [← Bool.not_eq_true, holdsPair_braces hbefore hafter (hbrace (by decide) (by decide))
    (hbrace (by decide) (by decide)), joinWith_cons, List.append_assoc]
  intro hb
  exact hw fun c hc ↦ hb c (List.mem_append_left _ hc)

private theorem split_items {items : List Text} {pad : Text} (hne : items ≠ [])
    (hitems : ∀ t ∈ items, IsItem t) (hpad : IsBlanks pad) :
    (split ',' (joinWith [','] items ++ pad)).map trim = items.map trim := by
  rcases List.eq_nil_or_concat items with rfl | ⟨ws, w, hw⟩
  · exact absurd rfl hne
  · rw [List.concat_eq_append] at hw
    subst hw
    have hcomma : ∀ t ∈ ws ++ [w ++ pad], ',' ∉ t := by
      obtain ⟨hws, hw⟩ := List.forall_mem_append.mp hitems
      refine List.forall_mem_append.mpr ⟨fun t ht ↦ (hws t ht).1.notMem (by decide), ?_⟩
      intro t ht
      obtain rfl := List.mem_singleton.mp ht
      have hplain : Undelimited (w ++ pad) :=
        undelimited_append.mpr ⟨(hw w List.mem_cons_self).1, undelimited_blanks hpad⟩
      exact hplain.notMem (by decide)
    rw [joinWith_append, split_joinWith (by simp) hcomma, List.map_append, List.map_append,
      List.map_singleton, List.map_singleton, trim_append_blanks hpad]

private theorem not_endsInComma {items : List Text} (hitems : ∀ t ∈ items, IsItem t)
    (h : (split ',' inner).map trim = items.map trim) : ¬ EndsInComma inner := by
  rintro ⟨s, blanks, rfl, hb⟩
  have hm : trim blanks ∈ items.map trim := by
    rw [← h, split_append, split_of_notMem ((undelimited_blanks hb).notMem (by decide))]
    simp
  obtain ⟨t, ht, htrim⟩ := List.mem_map.mp hm
  exact (hitems t ht).2 (trim_eq_nil_iff.mp (htrim.trans (trim_eq_nil_iff.mpr hb)))

private theorem undelimited_pieces (entries : List Entry) {ending : Option Text}
    (hending : ∀ spaces ∈ ending, IsSpaces spaces) :
    ∀ t ∈ entries.map Entry.text ++ ending.toList, Undelimited t := by
  refine List.forall_mem_append.mpr ⟨fun t ht ↦ ?_, fun t ht ↦ ?_⟩
  · obtain ⟨e, -, rfl⟩ := List.mem_map.mp ht
    exact e.isItem.1
  · exact undelimited_blanks (hending t (Option.mem_toList.mp ht)).isBlanks

/-- The pieces of a list are its entries and what stands after a comma at its end. -/
theorem split_listText {entries : List Entry} {ending : Option Text}
    (hending : ∀ spaces ∈ ending, IsSpaces spaces) (hne : entries ≠ []) :
    split ',' (listText entries ending) = entries.map Entry.text ++ ending.toList :=
  split_joinWith (by simp [hne]) fun t ht ↦
    (undelimited_pieces entries hending t ht).notMem (by decide)

private theorem holdsPair_listText {entries : List Entry} {ending : Option Text}
    (hbefore : Undelimited before) (hafter : Undelimited after)
    (hending : ∀ spaces ∈ ending, IsSpaces spaces) (hne : entries ≠ []) :
    holdsPair '{' '}' (before ++ '{' :: (listText entries ending ++ '}' :: after)) = false := by
  cases entries with
  | nil => exact absurd rfl hne
  | cons e es =>
    have hpieces := undelimited_pieces (e :: es) hending
    rw [List.map_cons, List.cons_append] at hpieces
    have hfull := holdsPair_joinWith hbefore hafter hpieces e.isItem.2 isBlanks_nil
    rwa [List.append_nil] at hfull

/-! ### Removing an entry -/

section Removing

variable {entries : List Entry} {ending : Option Text} (hbefore : Undelimited before)
  (hname : IsVariable name) (hending : ∀ spaces ∈ ending, IsSpaces spaces)

private theorem exists_first (h : ∃ e ∈ entries, e.name = name) :
    ∃ left e right, entries = left ++ e :: right ∧ e.name = name ∧ ∀ l ∈ left, l.name ≠ name := by
  obtain ⟨e, he⟩ : ∃ e, entries.find? (·.name = name) = some e := by
    rw [← Option.isSome_iff_exists, List.find?_isSome]
    simpa using h
  obtain ⟨hname, left, right, hsplit, hleft⟩ := List.find?_eq_some_iff_append.mp he
  exact ⟨left, e, right, hsplit, by simpa using hname, by simpa using hleft⟩

include hbefore hname hending

/-- The removal of an entry, for any text after the pattern. -/
theorem removeElement?_entry {e : Entry} (he : e.name = name) (left right : List Entry)
    (hleft : ∀ l ∈ left, l.name ≠ name) (after : Text) :
    let line := before ++ '{' :: (listText (left ++ e :: right) ending ++ '}' :: after)
    left ++ right = [] ∧ removeElement? line name = none ∨
      ∃ list pad, list.map trim = (left ++ right).map (fun e ↦ trim e.text) ∧
        (∀ t ∈ list, IsItem t) ∧ IsBlanks pad ∧
        let new := before ++ '{' :: ((joinWith [','] list ++ pad) ++ '}' :: joinCommas after)
        removeElement? line name =
          if new = line ∨ (holdsPair '{' '}' new ∧ !holdsPair '{' '}' line) then none
          else some new := by
  have hl : ∀ t ∈ left.map Entry.text, IsItem t ∧ ¬ Binds name t := by
    intro t ht
    obtain ⟨l, hm, rfl⟩ := List.mem_map.mp ht
    exact ⟨l.isItem, mt (l.binds_iff hname).mp (hleft l hm)⟩
  have hr : ∀ t ∈ right.map Entry.text, IsItem t := by
    intro t ht
    obtain ⟨r, -, rfl⟩ := List.mem_map.mp ht
    exact r.isItem
  have hblanks : ∀ b ∈ ending, IsBlanks b := fun b hb ↦ (hending b hb).isBlanks
  have hremoved := removeElement?_eq hbefore hname hl ((e.binds_iff hname).mpr he) hr hblanks after
  simpa [listText, Function.comp_def] using hremoved

variable (hafter : Undelimited after)

include hafter

/-- A sole entry is not removed. -/
theorem removeElement?_sole {e : Entry} (he : e.name = name) :
    removeElement? (before ++ '{' :: (listText [e] ending ++ '}' :: after)) name = none := by
  rcases removeElement?_entry hbefore hname hending he [] [] (by simp) after with
    ⟨-, hnone⟩ | ⟨list, pad, hlist, -, hpad, hremoved⟩
  · exact hnone
  · obtain rfl : list = [] := List.map_eq_nil_iff.mp hlist
    have hplain : Undelimited pad := undelimited_blanks hpad
    have hempty : holdsPair '{' '}' (before ++ '{' :: (pad ++ '}' :: after)) = true :=
      (holdsPair_braces hbefore hafter (hplain.notMem (by decide))
        (hplain.notMem (by decide))).mpr hpad
    have hfull := holdsPair_listText hbefore hafter hending (List.cons_ne_nil e [])
    rw [hafter.joinCommas_eq] at hremoved
    exact hremoved.trans (if_pos (.inr ⟨hempty, by rw [List.nil_append, hfull]; rfl⟩))

/-- A name that no entry binds is not removed. -/
theorem removeElement?_absent (habsent : ∀ e ∈ entries, e.name ≠ name) :
    removeElement? (before ++ '{' :: (listText entries ending ++ '}' :: after)) name = none := by
  have hpieces : ∀ t ∈ entries.map Entry.text ++ ending.toList,
      Undelimited t ∧ ¬ Binds name t := by
    refine List.forall_mem_append.mpr ⟨fun t ht ↦ ?_, fun t ht ↦ ?_⟩
    · obtain ⟨e, he, rfl⟩ := List.mem_map.mp ht
      exact ⟨e.isItem.1, mt (e.binds_iff hname).mp (habsent e he)⟩
    · have hb := (hending t (Option.mem_toList.mp ht)).isBlanks
      exact ⟨undelimited_blanks hb, fun h ↦ h.not_blank hname hb⟩
  have hnone : element? name ('{' :: (listText entries ending ++ '}' :: after)) = none := by
    rw [listText]
    cases hp : entries.map Entry.text ++ ending.toList with
    | nil =>
      have hempty : ∀ t ∈ ([[]] : List Text), Undelimited t ∧ ¬ Binds name t := by
        intro t ht
        obtain rfl := List.mem_singleton.mp ht
        exact ⟨undelimited_blanks isBlanks_nil, fun h ↦ h.not_blank hname isBlanks_nil⟩
      exact element?_following_eq_none hname hempty hafter
    | cons t ts =>
      rw [hp] at hpieces
      rw [joinWith_cons, List.append_assoc]
      exact element?_following_eq_none hname hpieces hafter
  rw [removeElement?, element?_append hbefore, hnone]
  rfl

/-- An entry among others is removed, and they are what is left. -/
theorem removeElement?_others {e : Entry} (he : e.name = name) {left right : List Entry}
    (hleft : ∀ l ∈ left, l.name ≠ name) (hne : left ++ right ≠ []) :
    ∃ inner, removeElement?
        (before ++ '{' :: (listText (left ++ e :: right) ending ++ '}' :: after)) name =
          some (before ++ '{' :: (inner ++ '}' :: after)) ∧
      (split ',' inner).map trim = (left ++ right).map (fun e ↦ trim e.text) ∧
      ¬ EndsInComma inner := by
  rcases removeElement?_entry hbefore hname hending he left right hleft after with
    ⟨hnil, -⟩ | ⟨list, pad, hlist, hitem, hpad, hremoved⟩
  · exact absurd hnil hne
  · have hlength : list.length = (left ++ right).length := by simpa using congrArg List.length hlist
    have hlist_ne : list ≠ [] := by
      rintro rfl
      exact hne (List.eq_nil_of_length_eq_zero hlength.symm)
    have hsplit := split_items hlist_ne hitem hpad
    refine ⟨joinWith [','] list ++ pad, ?_, hsplit.trans hlist, not_endsInComma hitem hsplit⟩
    rw [hafter.joinCommas_eq] at hremoved
    refine hremoved.trans (if_neg ?_)
    rintro (hsame | ⟨hempty, -⟩)
    · have hinner : joinWith [','] list ++ pad = listText (left ++ e :: right) ending :=
        List.append_cancel_right (List.cons.inj (List.append_cancel_left hsame)).2
      have hpieces := congrArg List.length hsplit
      rw [hinner, List.length_map, List.length_map, split_listText hending (by simp)] at hpieces
      simp only [List.length_append, List.length_map, List.length_cons] at hpieces hlength
      omega
    · cases list with
      | nil => exact hlist_ne rfl
      | cons w ws =>
        have hfull := holdsPair_joinWith hbefore hafter (fun t ht ↦ (hitem t ht).1)
          (hitem w List.mem_cons_self).2 hpad
        rw [hfull] at hempty
        cases hempty

end Removing

variable {entries : List Entry} {ending : Option Text}

private theorem filter_distinct {left right : List Entry} {e : Entry}
    (h : ((left ++ e :: right).map Entry.name).Nodup) :
    (left ++ e :: right).filter (·.name ≠ e.name) = left ++ right := by
  rw [List.map_append, List.map_cons] at h
  obtain ⟨-, hcons, hapart⟩ := List.nodup_append.mp h
  have hleft : left.filter (·.name ≠ e.name) = left := by
    refine List.filter_eq_self.mpr fun l hl ↦ decide_eq_true ?_
    exact hapart l.name (List.mem_map_of_mem hl) e.name List.mem_cons_self
  have hright : right.filter (·.name ≠ e.name) = right := by
    refine List.filter_eq_self.mpr fun r hr ↦ decide_eq_true fun hsame ↦ ?_
    exact (List.nodup_cons.mp hcons).1 (List.mem_map.mpr ⟨r, hr, hsame⟩)
  rw [List.filter_append, List.filter_cons_of_neg (by simp), hleft, hright]

/-- In a flat pattern with a name that it binds beside others, the entry of this name is removed
and no other one; the list that is left does not end in a comma. A name that it binds alone or not
at all is not removed. -/
theorem removeElement?_flat (hbefore : Undelimited before) (hafter : Undelimited after)
    (hname : IsVariable name) (hending : ∀ spaces ∈ ending, IsSpaces spaces)
    (hdistinct : (entries.map Entry.name).Nodup) :
    let line := before ++ '{' :: (listText entries ending ++ '}' :: after)
    ((∃ e ∈ entries, e.name = name) ∧ entries.length ≠ 1 →
      ∃ inner, removeElement? line name = some (before ++ '{' :: (inner ++ '}' :: after)) ∧
        (split ',' inner).map trim =
          (entries.filter (·.name ≠ name)).map (fun e ↦ trim e.text) ∧
        ¬ EndsInComma inner) ∧
    (¬ ((∃ e ∈ entries, e.name = name) ∧ entries.length ≠ 1) →
      removeElement? line name = none) := by
  by_cases hbound : ∃ e ∈ entries, e.name = name
  · obtain ⟨left, e, right, rfl, he, hleft⟩ := exists_first hbound
    have hkept := filter_distinct hdistinct
    rw [he] at hkept
    constructor
    · rintro ⟨-, hlength⟩
      have hne : left ++ right ≠ [] := by
        intro hnil
        obtain ⟨rfl, rfl⟩ := List.append_eq_nil_iff.mp hnil
        exact hlength rfl
      rw [hkept]
      exact removeElement?_others hbefore hname hending hafter he hleft hne
    · intro hnot
      have hlength : (left ++ e :: right).length = 1 := by
        by_contra hlength
        exact hnot ⟨hbound, hlength⟩
      have hnil : left = [] ∧ right = [] := by
        rw [List.length_append, List.length_cons] at hlength
        exact ⟨List.eq_nil_of_length_eq_zero (by omega), List.eq_nil_of_length_eq_zero (by omega)⟩
      obtain ⟨rfl, rfl⟩ := hnil
      exact removeElement?_sole hbefore hname hending hafter he
  · constructor
    · rintro ⟨hex, -⟩
      exact absurd hex hbound
    · intro
      exact removeElement?_absent hbefore hname hending hafter fun e he hn ↦ hbound ⟨e, he, hn⟩

/-- From a list of three with a comma at its end, a name with a key and a default. -/
theorem removeElement?_flat_three :
    let a : Entry := ⟨[' '], none, ['a'], [], none, by decide, by decide, by decide, by decide⟩
    let c : Entry := ⟨[' '], some ⟨['b'], [], [' '], by decide, by decide, by decide⟩, ['c'], [' '],
      some [' ', '1'], by decide, by decide, by decide, by decide⟩
    let d : Entry := ⟨[' '], none, ['d'], [], none, by decide, by decide, by decide, by decide⟩
    let line : Text := "const \x7b a, b: c = 1, d, \x7d = obj".toList
    line = "const ".toList ++ '{' :: (listText [a, c, d] (some [' ']) ++ '}' :: " = obj".toList) ∧
      Undelimited "const ".toList ∧ Undelimited " = obj".toList ∧ IsVariable ['c'] ∧
      (∀ spaces ∈ some [' '], IsSpaces spaces) ∧ ([a, c, d].map Entry.name).Nodup ∧
      ∃ inner, removeElement? line ['c'] =
          some ("const ".toList ++ '{' :: (inner ++ '}' :: " = obj".toList)) ∧
        (split ',' inner).map trim = [['a'], ['d']] ∧ ¬ EndsInComma inner := by
  intro a c d line
  have hline : line =
      "const ".toList ++ '{' :: (listText [a, c, d] (some [' ']) ++ '}' :: " = obj".toList) := by
    decide
  have hbefore : Undelimited "const ".toList := by decide
  have hafter : Undelimited " = obj".toList := by decide
  have hname : IsVariable ['c'] := by decide
  have hending : ∀ spaces ∈ some [' '], IsSpaces spaces := by decide
  have hdistinct : ([a, c, d].map Entry.name).Nodup := by decide
  obtain ⟨inner, hremoved, hpieces, hcomma⟩ :=
    (removeElement?_flat hbefore hafter hname hending hdistinct).1 (by decide)
  refine ⟨hline, hbefore, hafter, hname, hending, hdistinct, inner, ?_, ?_, hcomma⟩
  · rw [hline]
    exact hremoved
  · rw [hpieces]
    decide

private theorem count_joinCommas (t : Text) : (joinCommas t).count '}' = t.count '}' := by
  have hbracket : isBracket '}' = true := by decide
  rw [← List.count_filter hbracket, ← List.count_filter hbracket (l := t)]
  exact congrArg (List.count '}') (brackets_joinCommas t)

/-- Where an entry is removed from a flat pattern, everything up to its opening brace stays as it
is. What stands after its closing brace stays as it is exactly when no comma in it is doubled or
next to a brace. -/
theorem removeElement?_after_iff {new : Text} (hbefore : Undelimited before)
    (hname : IsVariable name) (hending : ∀ spaces ∈ ending, IsSpaces spaces)
    (hbound : ∃ e ∈ entries, e.name = name)
    (h : removeElement? (before ++ '{' :: (listText entries ending ++ '}' :: after)) name =
      some new) :
    (∃ inner, new = before ++ '{' :: (inner ++ '}' :: joinCommas after)) ∧
      ('}' :: after <:+ new ↔ holdsPair ',' ',' after = false ∧
        holdsPair '{' ',' after = false ∧ holdsPair ',' '}' after = false) := by
  obtain ⟨left, e, right, rfl, he, hleft⟩ := exists_first hbound
  obtain ⟨inner, rfl⟩ : ∃ inner, new = before ++ '{' :: (inner ++ '}' :: joinCommas after) := by
    rcases removeElement?_entry hbefore hname hending he left right hleft after with
      ⟨-, hnone⟩ | ⟨list, pad, -, -, -, hremoved⟩
    · rw [h] at hnone
      cases hnone
    · rw [h] at hremoved
      dsimp only at hremoved
      split at hremoved
      · cases hremoved
      · exact ⟨_, Option.some.inj hremoved⟩
  refine ⟨⟨inner, rfl⟩, ?_⟩
  rw [← joinCommas_eq_self_iff]
  have hsuffix : '}' :: joinCommas after <:+ before ++ '{' :: (inner ++ '}' :: joinCommas after) :=
    ⟨before ++ '{' :: inner, by simp⟩
  constructor
  · intro hkept
    -- One suffix is a part of the other, and both have the closing braces of the text after the
    -- pattern and one more.
    have hcount := count_joinCommas after
    rcases List.suffix_or_suffix_of_suffix hkept hsuffix with hs | hs
    · rcases List.suffix_cons_iff.mp hs with hs | hs
      · exact (List.cons.inj hs).2.symm
      · have hle := hs.sublist.count_le '}'
        rw [List.count_cons_self] at hle
        omega
    · rcases List.suffix_cons_iff.mp hs with hs | hs
      · exact (List.cons.inj hs).2
      · have hle := hs.sublist.count_le '}'
        rw [List.count_cons_self] at hle
        omega
  · intro hjoined
    rw [hjoined] at hsuffix ⊢
    exact hsuffix

/-- A pattern of two before an object in braces. -/
theorem removeElement?_after_iff_object :
    let a : Entry := ⟨[' '], none, ['a'], [], none, by decide, by decide, by decide, by decide⟩
    let b : Entry := ⟨[' '], none, ['b'], [' '], none, by decide, by decide, by decide, by decide⟩
    let after : Text := " = \x7b x, y \x7d".toList
    let new : Text := "const \x7b b \x7d = \x7b x, y \x7d".toList
    Undelimited "const ".toList ∧ IsVariable ['a'] ∧ (∃ e ∈ [a, b], e.name = ['a']) ∧
      removeElement? ("const ".toList ++ '{' :: (listText [a, b] none ++ '}' :: after)) ['a'] =
        some new ∧
      (∃ inner, new = "const ".toList ++ '{' :: (inner ++ '}' :: joinCommas after)) ∧
      '}' :: after <:+ new := by
  intro a b after new
  have hbefore : Undelimited "const ".toList := by decide
  have hname : IsVariable ['a'] := by decide
  have hending : ∀ spaces ∈ (none : Option Text), IsSpaces spaces := by decide
  have hbound : ∃ e ∈ [a, b], e.name = ['a'] := ⟨a, List.mem_cons_self, rfl⟩
  have h : removeElement? ("const ".toList ++ '{' :: (listText [a, b] none ++ '}' :: after)) ['a'] =
      some new := by decide
  obtain ⟨hnew, hiff⟩ := removeElement?_after_iff hbefore hname hending hbound h
  exact ⟨hbefore, hname, hbound, h, hnew, hiff.mpr (by decide)⟩

/-- In an array after the pattern the comma of a missing item is lost, and the array has an item
less. -/
theorem removeElement?_sparse :
    let a : Entry := ⟨[' '], none, ['a'], [], none, by decide, by decide, by decide, by decide⟩
    let b : Entry := ⟨[' '], none, ['b'], [' '], none, by decide, by decide, by decide, by decide⟩
    let after : Text := " = [1,,2]".toList
    let new : Text := "const \x7b b \x7d = [1,2]".toList
    Undelimited "const ".toList ∧ IsVariable ['a'] ∧ (∃ e ∈ [a, b], e.name = ['a']) ∧
      removeElement? ("const ".toList ++ '{' :: (listText [a, b] none ++ '}' :: after)) ['a'] =
        some new ∧
      ¬ '}' :: after <:+ new :=
  ⟨by decide, by decide, ⟨_, List.mem_cons_self, rfl⟩, by decide, by decide⟩

end Spruce.Declaration
