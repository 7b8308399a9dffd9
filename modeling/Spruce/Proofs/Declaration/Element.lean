import Mathlib.Data.List.Basic
import Mathlib.Data.Option.Basic
import Spruce.Declaration.Pattern
import Spruce.Proofs.Text.Runs

/-!
# Where an element stands on its line

An element that is found splits the line into what stands before it, its delimiters with the blanks
that belong to them, a key, the name, a default, and the rest (`exists_spells_of_element?`). A cut
and the joining of commas bring in nothing but commas, braces and spaces, and leave something
(`removeElement?_subset`, `removeElement?_ne_nil`).
-/

namespace Spruce.Declaration

open Text

/-! ### Splits -/

/-- A split from the longest start down cuts the text in two, after a run of the class. -/
theorem of_mem_splitsDown {p : Char → Bool} {t run rest : Text}
    (h : (run, rest) ∈ splitsDown p t) : run ++ rest = t ∧ ∀ c ∈ run, p c = true := by
  induction t generalizing run with
  | nil =>
    obtain ⟨rfl, rfl⟩ := Prod.mk.inj (List.mem_singleton.mp h)
    simp
  | cons c r ih =>
    simp only [splitsDown] at h
    split at h
    · next hc =>
      rcases List.mem_append.mp h with h | h
      · obtain ⟨⟨inner, rest'⟩, hm, he⟩ := List.mem_map.mp h
        obtain ⟨rfl, rfl⟩ := Prod.mk.inj he
        obtain ⟨ht, hall⟩ := ih hm
        exact ⟨congrArg (c :: ·) ht, List.forall_mem_cons.mpr ⟨hc, hall⟩⟩
      · obtain ⟨rfl, rfl⟩ := Prod.mk.inj (List.mem_singleton.mp h)
        simp
    · obtain ⟨rfl, rfl⟩ := Prod.mk.inj (List.mem_singleton.mp h)
      simp

/-- Every run of the class at the start of a text is split off from the longest start down. -/
theorem mem_splitsDown {p : Char → Bool} {run : Text} (h : ∀ c ∈ run, p c = true) (rest : Text) :
    (run, rest) ∈ splitsDown p (run ++ rest) := by
  induction run with
  | nil =>
    cases rest with
    | nil => exact List.mem_singleton_self _
    | cons c r =>
      rw [List.nil_append, splitsDown]
      split <;> simp
  | cons c run ih =>
    obtain ⟨hc, hrun⟩ := List.forall_mem_cons.mp h
    rw [List.cons_append, splitsDown, if_pos hc]
    exact List.mem_append_left _ (List.mem_map.mpr ⟨(run, rest), ih hrun, rfl⟩)

/-- A split from the shortest start up cuts the text in two, after a nonempty run of the class. -/
theorem of_mem_splitsUp {p : Char → Bool} {t run rest : Text} (h : (run, rest) ∈ splitsUp p t) :
    run ++ rest = t ∧ run ≠ [] ∧ ∀ c ∈ run, p c = true := by
  induction t generalizing run with
  | nil => cases h
  | cons c r ih =>
    simp only [splitsUp] at h
    split at h
    · next hc =>
      rcases List.mem_cons.mp h with h | h
      · obtain ⟨rfl, rfl⟩ := Prod.mk.inj h
        simpa using hc
      · obtain ⟨⟨inner, rest'⟩, hm, he⟩ := List.mem_map.mp h
        obtain ⟨rfl, rfl⟩ := Prod.mk.inj he
        obtain ⟨ht, -, hall⟩ := ih hm
        exact ⟨congrArg (c :: ·) ht, List.cons_ne_nil c inner,
          List.forall_mem_cons.mpr ⟨hc, hall⟩⟩
    · cases h

/-- Every nonempty run of the class at the start of a text is split off from the shortest start
up. -/
theorem mem_splitsUp {p : Char → Bool} {run : Text} (hne : run ≠ []) (h : ∀ c ∈ run, p c = true)
    (rest : Text) : (run, rest) ∈ splitsUp p (run ++ rest) := by
  induction run with
  | nil => exact absurd rfl hne
  | cons c run ih =>
    obtain ⟨hc, hrun⟩ := List.forall_mem_cons.mp h
    rw [List.cons_append, splitsUp, if_pos hc]
    cases run with
    | nil => exact List.mem_cons_self
    | cons d run =>
      have hm := ih (List.cons_ne_nil d run) hrun
      exact List.mem_cons_of_mem _ (List.mem_map.mpr ⟨(d :: run, rest), hm, rfl⟩)

/-! ### The parts of an element -/

/-- A default value with its equals sign and the blanks around it, or nothing. -/
def IsDefault (t : Text) : Prop :=
  t = [] ∨ ∃ gap value, t = gap ++ '=' :: value ∧ IsBlanks gap ∧ value ≠ [] ∧
    ∀ c ∈ value, isDefaultChar c = true

/-- A key with its colon and the blanks around it, or nothing. -/
def IsKey (t : Text) : Prop :=
  t = [] ∨ ∃ first word gap blanks, t = first :: (word ++ (gap ++ ':' :: blanks)) ∧
    isKeyStart first = true ∧ (∀ c ∈ word, isKeyPart c = true) ∧ IsBlanks gap ∧ IsBlanks blanks

/-- The end of an element with all that follows it. -/
def Closing.text (e : Closing) : Text := e.tail ++ e.delimiter :: (e.after ++ e.rest)

/-- The end of an element is a comma or a closing brace, after blanks and before spaces and
tabs. -/
structure Closing.IsEnd (e : Closing) : Prop where
  tail : IsBlanks e.tail
  delimiter : e.delimiter = ',' ∨ e.delimiter = '}'
  after : ∀ c ∈ e.after, isSpaceOrTab c = true

private theorem isBlanks_takeWhile (t : Text) : IsBlanks (t.takeWhile isBlank) :=
  fun _ hc ↦ List.mem_takeWhile_imp hc

private theorem eq_takeWhile_append (p : Char → Bool) {t r : Text} (h : t.dropWhile p = r) :
    t = t.takeWhile p ++ r := by
  rw [← h, List.takeWhile_append_dropWhile]

private theorem isDefaultChar_of_isBlank {c : Char} (h : isBlank c = true) :
    isDefaultChar c = true := by
  have comma : isBlank ',' = false := by decide
  have opening : isBlank '{' = false := by decide
  have closing : isBlank '}' = false := by decide
  simp only [isDefaultChar, Bool.and_eq_true, bne_iff_ne]
  refine ⟨⟨?_, ?_⟩, ?_⟩ <;> rintro rfl <;> simp_all

private theorem eq_text_of_closing? {t : Text} {e : Closing} (h : closing? t = some e) :
    t = e.text ∧ e.IsEnd := by
  unfold closing? at h
  split at h
  · next c r hr =>
    split at h
    · next hc =>
      obtain rfl := Option.some.inj h
      constructor
      · rw [Closing.text, List.takeWhile_append_dropWhile]
        exact eq_takeWhile_append isBlank hr
      · exact ⟨isBlanks_takeWhile t, hc, fun _ hm ↦ List.mem_takeWhile_imp hm⟩
    · cases h
  · cases h

private theorem exists_text_of_closingAfterDefault? {t : Text} {e : Closing}
    (h : closingAfterDefault? t = some e) :
    ∃ value, t = value ++ e.text ∧ IsDefault value ∧ e.IsEnd := by
  unfold closingAfterDefault? at h
  split at h
  · next r hr =>
    obtain ⟨⟨blanks, value⟩, hv, h⟩ := List.exists_of_findSome?_eq_some h
    obtain ⟨⟨run, rest⟩, hu, h⟩ := List.exists_of_findSome?_eq_some h
    obtain ⟨hsplit, hblanks⟩ := of_mem_splitsDown hv
    obtain ⟨hrun, hne, hall⟩ := of_mem_splitsUp hu
    obtain ⟨htext, hend⟩ := eq_text_of_closing? h
    refine ⟨t.takeWhile isBlank ++ '=' :: (blanks ++ run), ?_, .inr ?_, hend⟩
    · calc t = t.takeWhile isBlank ++ '=' :: r := eq_takeWhile_append isBlank hr
        _ = t.takeWhile isBlank ++ '=' :: (blanks ++ (run ++ e.text)) := by
          rw [← hsplit, ← hrun, htext]
        _ = _ := by simp
    · refine ⟨_, _, rfl, isBlanks_takeWhile t, by simp [hne], fun c hc ↦ ?_⟩
      rcases List.mem_append.mp hc with hc | hc
      · exact isDefaultChar_of_isBlank (hblanks c hc)
      · exact hall c hc
  · cases h

private theorem exists_text_of_closingAfterName? {name t : Text} {e : Closing}
    (h : closingAfterName? name t = some e) :
    ∃ value, t = name ++ value ++ e.text ∧ IsDefault value ∧ e.IsEnd := by
  unfold closingAfterName? at h
  split at h
  · next r hr =>
    rw [← List.append_eq_of_isPrefixOf?_eq_some hr]
    rcases (Option.orElse_eq_some _ _ _).mp h with h | ⟨-, h⟩
    · obtain ⟨value, rfl, hv⟩ := exists_text_of_closingAfterDefault? h
      exact ⟨value, by rw [List.append_assoc], hv⟩
    · obtain ⟨rfl, hend⟩ := eq_text_of_closing? h
      exact ⟨[], by rw [List.append_nil], .inl rfl, hend⟩
  · cases h

private theorem exists_text_of_closingAfterKey? {name t : Text} {e : Closing}
    (h : closingAfterKey? name t = some e) :
    ∃ key value, t = key ++ name ++ value ++ e.text ∧ IsKey key ∧ IsDefault value ∧ e.IsEnd := by
  unfold closingAfterKey? at h
  split at h
  · cases h
  · next c r =>
    split at h
    · next hc =>
      split at h
      · next after ha =>
        obtain ⟨⟨blanks, rest⟩, hs, h⟩ := List.exists_of_findSome?_eq_some h
        obtain ⟨value, hv, hparts⟩ := exists_text_of_closingAfterName? h
        obtain ⟨hsplit, hblanks⟩ := of_mem_splitsDown hs
        let word := r.takeWhile isKeyPart
        let gap := (r.dropWhile isKeyPart).takeWhile isBlank
        refine ⟨c :: (word ++ (gap ++ ':' :: blanks)), value, ?_, .inr ?_, hparts⟩
        · calc c :: r = c :: (word ++ r.dropWhile isKeyPart) := by
                rw [← eq_takeWhile_append isKeyPart rfl]
            _ = c :: (word ++ (gap ++ ':' :: after)) := by rw [← eq_takeWhile_append isBlank ha]
            _ = c :: (word ++ (gap ++ ':' :: (blanks ++ (name ++ value ++ e.text)))) := by
              rw [← hv, hsplit]
            _ = _ := by simp
        · exact ⟨c, word, gap, blanks, rfl, hc, fun _ hm ↦ List.mem_takeWhile_imp hm,
            isBlanks_takeWhile _, hblanks⟩
      · cases h
    · cases h

/-! ### Elements -/

/-- An element and a line that it is found on: what stands before its first delimiter, that
delimiter with the blanks after it, a key, the name, a default, and its end. -/
structure Element.Spells (e : Element) (name key value line : Text) : Prop where
  line_eq : line = e.before ++ e.opener :: (e.lead ++ (key ++ name ++ value ++ e.closing.text))
  opener : e.opener = '{' ∨ e.opener = ','
  lead : IsBlanks e.lead
  key : IsKey key
  value : IsDefault value
  closing : e.closing.IsEnd

/-- The element whose first delimiter starts a text is spelled out by the text. -/
theorem exists_spells_of_elementAt? {name t : Text} {e : Element}
    (h : elementAt? name t = some e) :
    e.before = [] ∧ ∃ key value, e.Spells name key value t := by
  unfold elementAt? at h
  split at h
  · cases h
  · next c r =>
    split at h
    · next hc =>
      obtain ⟨⟨lead, rest⟩, hs, h⟩ := List.exists_of_findSome?_eq_some h
      obtain ⟨closing, hclosing, rfl⟩ := Option.map_eq_some_iff.mp h
      obtain ⟨rfl, hlead⟩ := of_mem_splitsDown hs
      refine ⟨rfl, ?_⟩
      rcases (Option.orElse_eq_some _ _ _).mp hclosing with h | ⟨-, h⟩
      · obtain ⟨key, value, rfl, hk, hv, hend⟩ := exists_text_of_closingAfterKey? h
        exact ⟨key, value, rfl, hc, hlead, hk, hv, hend⟩
      · obtain ⟨value, rfl, hv, hend⟩ := exists_text_of_closingAfterName? h
        exact ⟨[], value, by simp, hc, hlead, .inl rfl, hv, hend⟩
    · cases h

/-- An element, with what stands around it, makes up its line. -/
theorem exists_spells_of_element? {name line : Text} {e : Element}
    (h : element? name line = some e) : ∃ key value, e.Spells name key value line := by
  induction line generalizing e with
  | nil => cases h
  | cons c r ih =>
    rcases (Option.orElse_eq_some _ _ _).mp h with h | ⟨-, h⟩
    · exact (exists_spells_of_elementAt? h).2
    · obtain ⟨inner, hi, rfl⟩ := Option.map_eq_some_iff.mp h
      obtain ⟨key, value, hs⟩ := ih hi
      exact ⟨key, value, congrArg (c :: ·) hs.line_eq, hs.opener, hs.lead, hs.key, hs.value,
        hs.closing⟩

/-! ### Cuts -/

/-- The characters that a cut can bring in. -/
def joints : Text := [',', '{', '}', ' ']

/-- A cut line is made of its own characters and of joints. -/
theorem cut?_subset {name line cut : Text} {e : Element} (h : element? name line = some e)
    (hc : e.cut? = some cut) : cut ⊆ line ++ joints := by
  obtain ⟨key, value, hs⟩ := exists_spells_of_element? h
  rw [hs.line_eq]
  intro c hm
  simp only [Element.cut?] at hc
  split at hc
  · split at hc
    · cases hc
    · obtain rfl := Option.some.inj hc
      simp only [Closing.text, joints, List.mem_append, List.mem_cons] at hm ⊢
      grind
  · split at hc <;> obtain rfl := Option.some.inj hc
    · simp only [Closing.text, joints, List.mem_append, List.mem_cons] at hm ⊢
      grind
    · simp only [Closing.text, joints, List.mem_append, List.mem_cons] at hm ⊢
      grind

/-- A cut leaves something of the line. -/
theorem cut?_ne_nil {cut : Text} {e : Element} (h : e.cut? = some cut) : cut ≠ [] := by
  simp only [Element.cut?] at h
  split at h
  · split at h
    · cases h
    · obtain rfl := Option.some.inj h
      simp
  · split at h <;> obtain rfl := Option.some.inj h <;> simp

/-! ### Joining commas -/

private theorem replacePairFrom_subset (first last : Char) (new : Text) (passed : Nat)
    (t : Text) : replacePairFrom first last new passed t ⊆ t ++ new := by
  fun_induction replacePairFrom first last new passed t with
  | case1 => simp
  | case2 passed c r ih => grind
  | case3 r length hl ih => grind
  | case4 r hl ih => grind
  | case5 c r hc ih => grind

private theorem replacePair_subset (first last : Char) {new t line : Text} (hn : new ⊆ joints)
    (ht : t ⊆ line ++ joints) : replacePair first last new t ⊆ line ++ joints := by
  intro c hc
  rcases List.mem_append.mp (replacePairFrom_subset first last new 0 t hc) with h | h
  · exact ht h
  · exact List.mem_append_right line (hn h)

private theorem replacePair_ne_nil {first last : Char} {new t : Text} (hn : new ≠ [])
    (ht : t ≠ []) : replacePair first last new t ≠ [] := by
  cases t with
  | nil => exact absurd rfl ht
  | cons c r =>
    rw [replacePair, replacePairFrom]
    split
    · split
      · simp [hn]
      · simp
    · simp

/-- Joining commas brings in joints only. -/
theorem joinCommas_subset {t line : Text} (h : t ⊆ line ++ joints) :
    joinCommas t ⊆ line ++ joints := by
  have comma : [','] ⊆ joints := by decide
  have opening : ['{', ' '] ⊆ joints := by decide
  have closing : [' ', '}'] ⊆ joints := by decide
  exact replacePair_subset ',' '}' closing
    (replacePair_subset '{' ',' opening (replacePair_subset ',' ',' comma h))

/-- Joining commas leaves something. -/
theorem joinCommas_ne_nil {t : Text} (h : t ≠ []) : joinCommas t ≠ [] :=
  replacePair_ne_nil (by simp) (replacePair_ne_nil (by simp) (replacePair_ne_nil (by simp) h))

/-! ### Removal -/

/-- A line without an element is a cut with its commas joined; it differs from the line, and has an
empty pair of braces only if the line has one. -/
theorem exists_cut_of_removeElement? {line name new : Text}
    (h : removeElement? line name = some new) :
    ∃ e cut, element? name line = some e ∧ e.cut? = some cut ∧ new = joinCommas cut ∧
      new ≠ line ∧ (holdsPair '{' '}' new = true → holdsPair '{' '}' line = true) := by
  obtain ⟨e, he, h⟩ := Option.bind_eq_some_iff.mp h
  obtain ⟨cut, hc, h⟩ := Option.bind_eq_some_iff.mp h
  dsimp only at h
  split at h
  · cases h
  · next hkept =>
    obtain rfl := Option.some.inj h
    simp only [not_or, not_and, Bool.not_eq_true', Bool.not_eq_false] at hkept
    exact ⟨e, cut, he, hc, rfl, hkept⟩

/-- The line without an element is made of its own characters and of joints. -/
theorem removeElement?_subset {line name new : Text} (h : removeElement? line name = some new) :
    new ⊆ line ++ joints := by
  obtain ⟨e, cut, he, hc, rfl, -⟩ := exists_cut_of_removeElement? h
  exact joinCommas_subset (cut?_subset he hc)

/-- Something is left of a line without an element. -/
theorem removeElement?_ne_nil {line name new : Text} (h : removeElement? line name = some new) :
    new ≠ [] := by
  obtain ⟨e, cut, -, hc, rfl, -⟩ := exists_cut_of_removeElement? h
  exact joinCommas_ne_nil (cut?_ne_nil hc)

end Spruce.Declaration
