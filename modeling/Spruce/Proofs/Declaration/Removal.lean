import Spruce.Proofs.Declaration.Joining

/-!
# Removing a piece of a list in braces

Commas cut what stands in a pair of braces into pieces. The first piece that binds the name is
found (`exists_element?_leading`), and the cut takes this piece with one of the commas next to it
and leaves the others as they are, blanks around them aside (`exists_cut?`). With the commas
joined, the items of the list that are left stand in the braces as before (`removeElement?_eq`).
-/

namespace Spruce.Declaration

open Text

variable {name before after head t p r rest : Text} {left right : List Text}
  {opener stop : Char} {e : Element}

/-! ### Finding a piece -/

/-- The element with more text before it. -/
def Element.shift (head : Text) (e : Element) : Element := { e with before := head ++ e.before }

private theorem Element.Reaches.shift {inner : Text} (h : e.Reaches inner stop rest) (head : Text) :
    (e.shift head).Reaches (head ++ inner) stop rest where
  head := by rw [← h.head, ← List.append_assoc]; rfl
  lead := h.lead
  closing := h.closing
  delimiter := h.delimiter
  rest := h.rest

private theorem element?_cons (h : elementAt? name (opener :: r) = none) :
    element? name (opener :: r) = (element? name r).map (Element.shift [opener]) := by
  rw [element?, h]
  rfl

/-- No element begins in text without commas and braces. -/
theorem element?_append (h : Undelimited head) (r : Text) :
    element? name (head ++ r) = (element? name r).map (Element.shift head) := by
  induction head with
  | nil => exact (congrFun Option.map_id (element? name r)).symm
  | cons c head ih =>
    obtain ⟨hc, hhead⟩ := undelimited_cons.mp h
    have hnone : elementAt? name (c :: (head ++ r)) = none := by
      rw [elementAt?, if_neg]
      rintro (rfl | rfl) <;> cases hc
    rw [List.cons_append, element?_cons hnone, ih hhead, Option.map_map]
    rfl

/-- A piece that does not bind the name is passed over. -/
theorem element?_piece (ht : Undelimited t) (hs : isDefaultChar stop = false)
    (hn : IsVariable name) (hnot : ¬ Binds name t) :
    element? name (opener :: (t ++ stop :: rest)) =
      (element? name (stop :: rest)).map (Element.shift (opener :: t)) := by
  rw [element?_cons (elementAt?_eq_none ht hs hn hnot), element?_append ht, Option.map_map]
  rfl

/-- The first piece that binds the name is found. -/
theorem exists_element?_leading (ho : opener = '{' ∨ opener = ',') (hs : stop = ',' ∨ stop = '}')
    (hn : IsVariable name) (hleft : ∀ t ∈ left, Undelimited t ∧ ¬ Binds name t)
    (hp : Binds name p) (rest : Text) :
    ∃ e, element? name (opener :: (leading ',' left ++ (p ++ stop :: rest))) = some e ∧
      e.Reaches (opener :: leading ',' left) stop rest := by
  induction left generalizing opener with
  | nil =>
    obtain ⟨e, he, hreaches⟩ := exists_elementAt? ho hs hn hp rest
    refine ⟨e, ?_, hreaches⟩
    rw [leading, List.flatMap_nil, List.nil_append, element?, he]
    rfl
  | cons u us ih =>
    obtain ⟨⟨hu, hnot⟩, hus⟩ := List.forall_mem_cons.mp hleft
    obtain ⟨e, he, hreaches⟩ := ih (.inr rfl) hus
    refine ⟨e.shift (opener :: u), ?_, ?_⟩
    · rw [leading_cons, List.append_assoc, List.cons_append, element?_piece hu (by decide) hn hnot,
        he, Option.map_some]
    · rw [leading_cons]
      exact hreaches.shift (opener :: u)

/-- Where no piece binds the name there is no element. -/
theorem element?_following_eq_none {ts : List Text} (hn : IsVariable name)
    (hts : ∀ u ∈ t :: ts, Undelimited u ∧ ¬ Binds name u) (hafter : Undelimited after) :
    element? name (opener :: (t ++ (following ',' ts ++ '}' :: after))) = none := by
  induction ts generalizing t opener with
  | nil =>
    obtain ⟨ht, hnot⟩ := hts t List.mem_cons_self
    have hnone : element? name ('}' :: after) = none := by
      have hempty : elementAt? name ('}' :: after) = none := by rw [elementAt?, if_neg (by decide)]
      rw [element?_cons hempty, ← List.append_nil after, element?_append hafter]
      rfl
    rw [following, List.flatMap_nil, List.nil_append, element?_piece ht (by decide) hn hnot, hnone]
    rfl
  | cons u us ih =>
    obtain ⟨⟨ht, hnot⟩, hus⟩ := List.forall_mem_cons.mp hts
    rw [following_cons, List.cons_append, List.append_assoc, element?_piece ht (by decide) hn hnot,
      ih hus]
    rfl

/-! ### Cutting a piece -/

private theorem Element.Reaches.eq_before {c : Char} (h : e.Reaches (head ++ [c]) stop rest) :
    e.before = head ∧ e.opener = c := by
  obtain ⟨hbefore, hopener⟩ := List.append_inj' h.head rfl
  exact ⟨hbefore, (List.cons.inj hopener).1⟩

private theorem Element.Reaches.cut?_sole (h : e.Reaches (head ++ ['{']) '}' rest) :
    e.cut? = none := by
  rw [Element.cut?, if_pos h.eq_before.2, if_pos h.delimiter]

private theorem Element.Reaches.cut?_first (h : e.Reaches (head ++ ['{']) ',' rest) :
    e.cut? = some (head ++ '{' :: (e.lead ++ e.closing.rest)) := by
  rw [Element.cut?, if_pos h.eq_before.2, if_neg (by rw [h.delimiter]; decide), h.eq_before.1]
  simp

private theorem Element.Reaches.cut?_inner (h : e.Reaches (head ++ [',']) ',' rest) :
    e.cut? = some (head ++ ',' :: rest) := by
  rw [Element.cut?, if_neg (by rw [h.eq_before.2]; decide), if_pos h.delimiter, h.eq_before.1,
    ← h.rest]
  simp

private theorem Element.Reaches.cut?_last (h : e.Reaches (head ++ [',']) '}' rest) :
    e.cut? = some (head ++ (e.closing.tail ++ '}' :: rest)) := by
  rw [Element.cut?, if_neg (by rw [h.eq_before.2]; decide), if_neg (by rw [h.delimiter]; decide),
    h.eq_before.1, ← h.rest]
  simp

/-- Spaces and tabs are blanks. -/
theorem isBlank_of_isSpaceOrTab {c : Char} (h : isSpaceOrTab c = true) : isBlank c = true := by
  simp only [isSpaceOrTab, Bool.or_eq_true, beq_iff_eq] at h
  rcases h with rfl | rfl <;> decide

private theorem Element.Reaches.eq_rest {q : Text} {stop' : Char}
    (h : e.Reaches head stop (q ++ stop' :: rest)) (hs : isBlank stop' = false) :
    ∃ q', q = e.closing.after ++ q' ∧ e.closing.rest = q' ++ stop' :: rest := by
  rcases List.append_eq_append_iff.mp h.rest with ⟨q', hq, hrest⟩ | ⟨more, hafter, hrest⟩
  · exact ⟨q', hq, hrest⟩
  · cases more with
    | nil => exact ⟨[], by simpa using hafter.symm, hrest.symm⟩
    | cons c more =>
      obtain ⟨rfl, -⟩ := List.cons.inj hrest
      have hblank := isBlank_of_isSpaceOrTab (h.closing.after stop' (by simp [hafter]))
      rw [hs] at hblank
      cases hblank

/-- The cut leaves these pieces in the braces, with blanks around them perhaps changed. -/
def Element.Leaves (e : Element) (before : Text) (pieces : List Text) (after : Text) : Prop :=
  ∃ kept, e.cut? = some (before ++ '{' :: (joinWith [','] kept ++ '}' :: after)) ∧
    kept.map trim = pieces.map trim ∧ ∀ t ∈ kept, Undelimited t

section Leaves

variable {l q : Text} {ls qs : List Text}

/-- A first piece goes with the comma after it, and the piece after that comes up to the brace. -/
theorem Element.Reaches.leaves_first
    (h : e.Reaches (before ++ ['{']) ',' (q ++ (following ',' qs ++ '}' :: after)))
    (hqs : ∀ t ∈ q :: qs, Undelimited t) : e.Leaves before (q :: qs) after := by
  obtain ⟨q', rfl, hrest⟩ : ∃ q', q = e.closing.after ++ q' ∧
      e.closing.rest = q' ++ (following ',' qs ++ '}' :: after) := by
    cases qs with
    | nil => exact h.eq_rest (by decide)
    | cons u us => exact h.eq_rest (by decide)
  obtain ⟨hq, hqs⟩ := List.forall_mem_cons.mp hqs
  have hspaces : IsBlanks e.closing.after := fun c hc ↦
    isBlank_of_isSpaceOrTab (h.closing.after c hc)
  refine ⟨(e.lead ++ q') :: qs, ?_, ?_, List.forall_mem_cons.mpr ⟨?_, hqs⟩⟩
  · rw [h.cut?_first, hrest, joinWith_cons]
    simp only [List.append_assoc]
  · rw [List.map_cons, List.map_cons, trim_blanks_append h.lead, trim_blanks_append hspaces]
  · exact undelimited_append.mpr ⟨undelimited_blanks h.lead, (undelimited_append.mp hq).2⟩

/-- An inner piece goes with the comma before it. -/
theorem Element.Reaches.leaves_inner
    (h : e.Reaches (before ++ '{' :: leading ',' (ls ++ [l])) ','
      (q ++ (following ',' qs ++ '}' :: after)))
    (hpieces : ∀ t ∈ ls ++ l :: q :: qs, Undelimited t) :
    e.Leaves before (ls ++ l :: q :: qs) after := by
  have hhead : before ++ '{' :: leading ',' (ls ++ [l]) =
      before ++ '{' :: (leading ',' ls ++ l) ++ [','] := by simp [leading]
  rw [hhead] at h
  refine ⟨ls ++ l :: q :: qs, ?_, rfl, hpieces⟩
  rw [h.cut?_inner, joinWith_append_cons, following_cons]
  simp

/-- A last piece goes with the comma before it. -/
theorem Element.Reaches.leaves_last
    (h : e.Reaches (before ++ '{' :: leading ',' (ls ++ [l])) '}' after)
    (hpieces : ∀ t ∈ ls ++ [l], Undelimited t) : e.Leaves before (ls ++ [l]) after := by
  have hhead : before ++ '{' :: leading ',' (ls ++ [l]) =
      before ++ '{' :: (leading ',' ls ++ l) ++ [','] := by simp [leading]
  rw [hhead] at h
  obtain ⟨hls, hl⟩ := List.forall_mem_append.mp hpieces
  have htail : Undelimited (l ++ e.closing.tail) :=
    undelimited_append.mpr ⟨hl l List.mem_cons_self, undelimited_blanks h.closing.tail⟩
  refine ⟨ls ++ [l ++ e.closing.tail], ?_, ?_, ?_⟩
  · rw [h.cut?_last, joinWith_append_cons]
    simp [following]
  · rw [List.map_append, List.map_append, List.map_singleton, List.map_singleton,
      trim_append_blanks h.closing.tail]
  · exact List.forall_mem_append.mpr ⟨hls, by simpa using htail⟩

end Leaves

/-- The first piece that binds the name is found, and cut out with one of the commas next to it. A
sole piece is not cut out. -/
theorem exists_cut? (hbefore : Undelimited before) (hn : IsVariable name)
    (hleft : ∀ t ∈ left, Undelimited t ∧ ¬ Binds name t) (hp : Binds name p)
    (hright : ∀ t ∈ right, Undelimited t) (after : Text) :
    ∃ e, element? name
        (before ++ '{' :: (joinWith [','] (left ++ p :: right) ++ '}' :: after)) = some e ∧
      (left ++ right = [] ∧ e.cut? = none ∨
        left ++ right ≠ [] ∧ e.Leaves before (left ++ right) after) := by
  have found (stop : Char) (hs : stop = ',' ∨ stop = '}') (rest : Text) :
      ∃ e, element? name (before ++ '{' :: (leading ',' left ++ (p ++ stop :: rest))) = some e ∧
        e.Reaches (before ++ '{' :: leading ',' left) stop rest := by
    obtain ⟨e, he, hreaches⟩ := exists_element?_leading (.inl rfl) hs hn hleft hp rest
    refine ⟨e.shift before, ?_, hreaches.shift before⟩
    rw [element?_append hbefore, he, Option.map_some]
  have hleft : ∀ t ∈ left, Undelimited t := fun t ht ↦ (hleft t ht).1
  rw [joinWith_append_cons]
  cases right with
  | nil =>
    obtain ⟨e, he, hreaches⟩ := found '}' (.inr rfl) after
    refine ⟨e, by simpa [following] using he, ?_⟩
    rcases List.eq_nil_or_concat left with rfl | ⟨ls, l, hl⟩
    · exact .inl ⟨rfl, hreaches.cut?_sole⟩
    · rw [List.concat_eq_append] at hl
      subst hl
      refine .inr ⟨by simp, ?_⟩
      rw [List.append_nil]
      exact hreaches.leaves_last hleft
  | cons q qs =>
    obtain ⟨e, he, hreaches⟩ := found ',' (.inl rfl) (q ++ (following ',' qs ++ '}' :: after))
    refine ⟨e, by simpa [following_cons] using he, .inr ⟨by simp, ?_⟩⟩
    rcases List.eq_nil_or_concat left with rfl | ⟨ls, l, hl⟩
    · exact hreaches.leaves_first hright
    · rw [List.concat_eq_append] at hl
      subst hl
      have hpieces : ∀ t ∈ ls ++ [l] ++ q :: qs, Undelimited t :=
        List.forall_mem_append.mpr ⟨hleft, hright⟩
      rw [List.append_assoc, List.singleton_append] at hpieces ⊢
      exact hreaches.leaves_inner hpieces

/-! ### The line that is left -/

/-- Pieces that are items, and perhaps blanks at their end, leave the items in the braces. -/
theorem exists_joinCommas {items kept : List Text} {ending : Option Text}
    (hbefore : Undelimited before) (hitems : ∀ t ∈ items, IsItem t)
    (hending : ∀ b ∈ ending, IsBlanks b)
    (hkept : kept.map trim = (items ++ ending.toList).map trim)
    (hundelimited : ∀ t ∈ kept, Undelimited t) (after : Text) :
    ∃ list pad, joinCommas (before ++ '{' :: (joinWith [','] kept ++ '}' :: after)) =
        before ++ '{' :: ((joinWith [','] list ++ pad) ++ '}' :: joinCommas after) ∧
      list.map trim = items.map trim ∧ (∀ t ∈ list, IsItem t) ∧ IsBlanks pad := by
  rw [List.map_append] at hkept
  obtain ⟨list, ends, rfl, hlist, hends⟩ := List.map_eq_append_iff.mp hkept
  have hitem : ∀ t ∈ list, IsItem t := by
    intro t ht
    refine ⟨hundelimited t (List.mem_append_left ends ht), fun hb ↦ ?_⟩
    have hm : trim t ∈ items.map trim := hlist ▸ List.mem_map_of_mem ht
    obtain ⟨u, hu, htrim⟩ := List.mem_map.mp hm
    exact (hitems u hu).2 (trim_eq_nil_iff.mp (htrim.trans (trim_eq_nil_iff.mpr hb)))
  cases ending with
  | none =>
    obtain rfl : ends = [] := List.map_eq_nil_iff.mp hends
    refine ⟨list, [], ?_, hlist, hitem, isBlanks_nil⟩
    rw [List.append_nil, List.append_nil]
    cases list with
    | nil => exact joinCommas_blanks hbefore isBlanks_nil after
    | cons w ws =>
      obtain ⟨hw, hws⟩ := List.forall_mem_cons.mp hitem
      rw [joinWith_cons, List.append_assoc, List.append_assoc]
      exact joinCommas_list hbefore hw hws after
  | some b =>
    obtain ⟨blanks, rfl, htrim⟩ := List.map_eq_singleton_iff.mp hends
    have hb : IsBlanks blanks :=
      trim_eq_nil_iff.mp (htrim.trans (trim_eq_nil_iff.mpr (hending b rfl)))
    cases list with
    | nil =>
      refine ⟨[], blanks, ?_, hlist, hitem, hb⟩
      simpa [joinWith] using joinCommas_blanks hbefore hb after
    | cons w ws =>
      obtain ⟨hw, hws⟩ := List.forall_mem_cons.mp hitem
      refine ⟨w :: ws, [' '], ?_, hlist, hitem, by decide⟩
      have hopen := joinCommas_list_open hbefore hw hws hb after
      rw [List.cons_append, joinWith_cons, joinWith_cons]
      simpa [following] using hopen

/-- Where a piece binds the name, its removal leaves the items before and after it in the braces and
joins the commas after the braces, unless that changes nothing or empties the braces. A piece that
stands alone is not removed. -/
theorem removeElement?_eq {ending : Option Text} (hbefore : Undelimited before)
    (hn : IsVariable name) (hleft : ∀ t ∈ left, IsItem t ∧ ¬ Binds name t) (hp : Binds name p)
    (hright : ∀ t ∈ right, IsItem t) (hending : ∀ b ∈ ending, IsBlanks b) (after : Text) :
    let line := before ++
      '{' :: (joinWith [','] (left ++ p :: (right ++ ending.toList)) ++ '}' :: after)
    left ++ right = [] ∧ removeElement? line name = none ∨
      ∃ list pad, list.map trim = (left ++ right).map trim ∧ (∀ t ∈ list, IsItem t) ∧ IsBlanks pad ∧
        let new := before ++ '{' :: ((joinWith [','] list ++ pad) ++ '}' :: joinCommas after)
        removeElement? line name =
          if new = line ∨ (holdsPair '{' '}' new ∧ !holdsPair '{' '}' line) then none
          else some new := by
  intro line
  have hundelimited : ∀ t ∈ right ++ ending.toList, Undelimited t := by
    refine List.forall_mem_append.mpr ⟨fun t ht ↦ (hright t ht).1, fun t ht ↦ ?_⟩
    exact undelimited_blanks (hending t (Option.mem_toList.mp ht))
  obtain ⟨e, he, hcut⟩ := exists_cut? hbefore hn (fun t ht ↦ ⟨(hleft t ht).1.1, (hleft t ht).2⟩) hp
    hundelimited after
  rcases hcut with ⟨hnil, hcut⟩ | ⟨-, kept, hcut, hkept, hplain⟩
  · refine .inl ⟨?_, ?_⟩
    · simp_all
    · rw [removeElement?, he, Option.bind_some, hcut, Option.bind_none]
  · have hitems : ∀ t ∈ left ++ right, IsItem t :=
      List.forall_mem_append.mpr ⟨fun t ht ↦ (hleft t ht).1, hright⟩
    rw [← List.append_assoc] at hkept
    obtain ⟨list, pad, hjoined, hlist, hitem, hpad⟩ :=
      exists_joinCommas hbefore hitems hending hkept hplain after
    refine .inr ⟨list, pad, hlist, hitem, hpad, ?_⟩
    intro new
    rw [removeElement?, he, Option.bind_some, hcut, Option.bind_some, hjoined]

end Spruce.Declaration
