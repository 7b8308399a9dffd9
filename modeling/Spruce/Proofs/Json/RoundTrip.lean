import Mathlib.Data.List.Forall2
import Spruce.Json.Printer
import Spruce.Proofs.Json.Fits
import Spruce.Proofs.Json.Numerals

/-!
# Reading what was written

What is read where a value was written is the value up to its doubles, brackets, keys, escapes and
whole numbers included: any relation between values that respects brackets holds between the two
once it holds for doubles (`gives_prettyAt`). So a value is read as it was written if the doubles in
it are (`read_pretty`), which has to be assumed of them.
-/

namespace Spruce.Json

open Text

/-! ### Strings -/

private theorem hexValue?_hexDigit : ∀ n < 16, hexValue? (hexDigit n) = some n := by
  decide

private theorem readHexFour_control {n : Nat} (h : n < 256) (rest : Text) :
    readHexFour ('0' :: '0' :: hexDigit (n / 16) :: hexDigit (n % 16) :: rest) = .ok (n, rest) := by
  have hone (c : Char) : 1 ≤ c.utf8Size := c.utf8Size_pos
  have hcount :
      ¬ byteCount ('0' :: '0' :: hexDigit (n / 16) :: hexDigit (n % 16) :: rest) < 4 := by
    simp only [byteCount, List.foldr_cons]
    have := hone '0'
    have := hone (hexDigit (n / 16))
    have := hone (hexDigit (n % 16))
    omega
  have hzero : hexValue? '0' = some 0 := rfl
  have hfour :
      hexFour? ('0' :: '0' :: hexDigit (n / 16) :: hexDigit (n % 16) :: rest) = some n := by
    simp only [hexFour?, hzero, hexValue?_hexDigit (n / 16) (by omega),
      hexValue?_hexDigit (n % 16) (by omega), Option.bind_eq_bind, Option.bind_some,
      Option.some.injEq]
    omega
  rw [readHexFour, if_neg hcount, hfour]
  rfl

private theorem readEscape_control {c : Char} (h : c < ' ') (t : Text) :
    readEscape ('u' :: '0' :: '0' :: hexDigit (c.toNat / 16) :: hexDigit (c.toNat % 16) :: t) =
      .ok (c, t) := by
  have hc : c.toNat < 32 := h
  have hfour := readHexFour_control (n := c.toNat) (by omega) t
  have htrailing : isTrailing c.toNat = false := by simp [isTrailing]; omega
  have hleading : isLeading c.toNat = false := by simp [isLeading]; omega
  rw [readEscape, if_pos rfl, readUnicode, hfour]
  simp only [htrailing, hleading, Char.ofNat_toNat, Bool.false_eq_true, if_false]

private theorem readStringFrom_passed (passed t : Text) :
    readStringFrom passed.length (passed ++ t) = readStringFrom 0 t := by
  induction passed with
  | nil => rfl
  | cons c passed ih => exact ih

private theorem readStringFrom_backslash {c : Char} {t : Text} (escape : Text)
    (h : readEscape (escape ++ t) = .ok (c, t)) :
    readStringFrom 0 ('\\' :: escape ++ t) =
      (readStringFrom 0 t).map fun (s, rest) ↦ (c :: s, rest) := by
  have hpassed : (escape ++ t).length - t.length = escape.length := by simp
  have hquote : ¬ '\\' = '"' := by decide
  rw [List.cons_append, readStringFrom, if_neg hquote, if_pos rfl, h]
  simp only [hpassed, readStringFrom_passed]

private theorem readStringFrom_escapeChar (c : Char) (t : Text) :
    readStringFrom 0 (escapeChar c ++ t) =
      (readStringFrom 0 t).map fun (s, rest) ↦ (c :: s, rest) := by
  by_cases hquote : c = '"'
  · subst hquote
    exact readStringFrom_backslash ['"'] rfl
  by_cases hslash : c = '\\'
  · subst hslash
    exact readStringFrom_backslash ['\\'] rfl
  by_cases hb : c = '\x08'
  · subst hb
    exact readStringFrom_backslash ['b'] rfl
  by_cases hf : c = '\x0c'
  · subst hf
    exact readStringFrom_backslash ['f'] rfl
  by_cases hn : c = '\n'
  · subst hn
    exact readStringFrom_backslash ['n'] rfl
  by_cases hr : c = '\r'
  · subst hr
    exact readStringFrom_backslash ['r'] rfl
  by_cases ht : c = '\t'
  · subst ht
    exact readStringFrom_backslash ['t'] rfl
  rw [escapeChar, if_neg hquote, if_neg hslash, if_neg hb, if_neg hf, if_neg hn, if_neg hr,
    if_neg ht]
  by_cases hc : c < ' '
  · rw [if_pos hc]
    exact readStringFrom_backslash _ (readEscape_control hc t)
  · rw [if_neg hc, List.singleton_append, readStringFrom, if_neg hquote, if_neg hslash, if_neg hc]

/-- A string is read as it was escaped. -/
theorem readString_escape (t rest : Text) :
    readString (t.flatMap escapeChar ++ '"' :: rest) = .ok (t, rest) := by
  rw [readString]
  induction t with
  | nil => rfl
  | cons c t ih =>
    rw [List.flatMap_cons, List.append_assoc, readStringFrom_escapeChar, ih]
    rfl

/-! ### Blanks -/

private theorem skipJsonBlanks_cons {c : Char} (h : isJsonBlank c = false) (t : Text) :
    skipJsonBlanks (c :: t) = c :: t := by
  rw [skipJsonBlanks, List.dropWhile_cons, h]
  rfl

private theorem skipJsonBlanks_blank {c : Char} (h : isJsonBlank c = true) (t : Text) :
    skipJsonBlanks (c :: t) = skipJsonBlanks t := by
  rw [skipJsonBlanks, List.dropWhile_cons, if_pos h]
  rfl

private theorem skipJsonBlanks_newLine (depth : Nat) (t : Text) :
    skipJsonBlanks (Value.newLine depth ++ t) = skipJsonBlanks t := by
  rw [Value.newLine, List.cons_append, skipJsonBlanks_blank rfl]
  induction 2 * depth with
  | zero => rfl
  | succ n ih => rw [List.replicate_succ, List.cons_append, skipJsonBlanks_blank rfl, ih]

/-! ### Readings -/

/-- A reading stops before `rest` and gives something with a property; or it fails, where it may. -/
def Gives {α : Type} (mayFail : Prop) (P : α → Prop) (rest : Text) : Reading α → Prop
  | .ok (x, r) => P x ∧ r = rest
  | .error _ => mayFail

namespace Gives

variable {α β : Type} {mayFail : Prop} {P : α → Prop} {Q : β → Prop} {rest r : Text}
  {reading : Reading α} {x : α}

private theorem of_eq_ok (h : reading = .ok (x, rest)) (hx : P x) :
    Gives mayFail P rest reading := by
  rw [h]
  exact ⟨hx, rfl⟩

/-- A reading that succeeds gives what it promises, and stops where it promises. -/
theorem of_ok (h : Gives mayFail P rest reading) (he : reading = .ok (x, r)) : P x ∧ r = rest := by
  rw [he] at h
  exact h

private theorem eq_ok (h : Gives False (x = ·) rest reading) : reading = .ok (x, rest) := by
  cases reading with
  | error e => exact h.elim
  | ok found =>
    obtain ⟨rfl, rfl⟩ := h
    rfl

/-- What a reading gives may be mapped. -/
theorem map (h : Gives mayFail P rest reading) {f : α → β} (hf : ∀ x, P x → Q (f x)) :
    Gives mayFail Q rest (reading.map fun (x, r) ↦ (f x, r)) := by
  cases reading with
  | error e => exact h
  | ok found => exact ⟨hf _ h.1, h.2⟩

end Gives

/-! ### Items between brackets -/

/-- A text that begins like a value: with neither a blank nor a closing bracket. -/
def Opens (t : Text) : Prop :=
  ∃ c s, t = c :: s ∧ isJsonBlank c = false ∧ c ≠ ']' ∧ c ≠ '}'

section Items

variable {α : Type} {b : Bracket} {item : Text → Reading α} {print : α → Text} {mayFail : Prop}
  {R : α → α → Prop} {xs : List α}

/-- Where an item was printed a related one is read, before anything that does not continue a
number. -/
def Reads (item : Text → Reading α) (print : α → Text) (mayFail : Prop)
    (R : α → α → Prop) (x : α) : Prop :=
  Opens (print x) ∧ ∀ rest, EndsNumber rest → Gives mayFail (R x) rest (item (print x ++ rest))

/-- Items that are not the first, each after a comma and on a line of its own. -/
def following (print : α → Text) (depth : Nat) (xs : List α) : Text :=
  xs.flatMap fun x ↦ ',' :: (Value.newLine depth ++ print x)

private theorem length_le_following (print : α → Text) (depth : Nat) (xs : List α) :
    xs.length ≤ (following print depth xs).length := by
  induction xs with
  | nil => exact Nat.le_refl 0
  | cons x xs ih =>
    rw [following] at ih ⊢
    rw [List.flatMap_cons, List.length_append, List.length_cons, List.length_cons]
    omega

private theorem endsNumber_following (print : α → Text) (xs : List α) (depth n : Nat) (t : Text) :
    EndsNumber (following print depth xs ++ (Value.newLine n ++ t)) := by
  intro c hc
  cases xs with
  | nil =>
    obtain rfl : '\n' = c := Option.some.inj hc
    decide
  | cons x xs =>
    obtain rfl : ',' = c := Option.some.inj hc
    decide

private theorem gives_following (hb : b.close = ']' ∨ b.close = '}')
    (hx : ∀ x ∈ xs, Reads item print mayFail R x) {bound : Nat} (h : xs.length < bound)
    (depth n : Nat) (rest : Text) :
    Gives mayFail (List.Forall₂ R xs) rest (readMore b item bound
      (following print depth xs ++ (Value.newLine n ++ b.close :: rest))) := by
  have hclose : isJsonBlank b.close = false := by rcases hb with h | h <;> rw [h] <;> rfl
  have hcomma : ',' ≠ b.close := by rcases hb with h | h <;> rw [h] <;> decide
  induction xs generalizing bound with
  | nil =>
    obtain ⟨bound, rfl⟩ := Nat.exists_eq_succ_of_ne_zero (Nat.ne_of_gt h)
    rw [following, List.flatMap_nil, List.nil_append, readMore, skipJsonBlanks_newLine,
      skipJsonBlanks_cons hclose]
    simp only [if_true]
    exact ⟨.nil, rfl⟩
  | cons x xs ih =>
    obtain ⟨bound, rfl⟩ := Nat.exists_eq_succ_of_ne_zero (Nat.ne_of_gt (Nat.zero_lt_of_lt h))
    obtain ⟨⟨c, s, hs, hblank, hbracket, hbrace⟩, hread⟩ := hx x List.mem_cons_self
    have hopen : c ≠ b.close := by rcases hb with h | h <;> rw [h] <;> assumption
    have hmore := ih (fun y hy ↦ hx y (List.mem_cons_of_mem x hy)) (Nat.lt_of_succ_lt_succ h)
    have hitem := hread _ (endsNumber_following print xs depth n (b.close :: rest))
    have hcons : following print depth (x :: xs) =
        ',' :: (Value.newLine depth ++ (print x ++ following print depth xs)) := by
      simp [following]
    rw [hcons, List.cons_append, List.append_assoc, List.append_assoc, readMore,
      skipJsonBlanks_cons (by rfl)]
    dsimp only
    rw [if_neg hcomma, if_pos rfl, skipJsonBlanks_newLine]
    rw [hs, List.cons_append] at hitem ⊢
    rw [skipJsonBlanks_cons hblank]
    dsimp only
    rw [if_neg hopen]
    split
    · next e he =>
      rw [he] at hitem
      exact hitem
    · next y after he =>
      obtain ⟨hy, rfl⟩ := hitem.of_ok he
      exact hmore.map fun ys hys ↦ .cons hy hys

private theorem gives_items (hb : b.close = ']' ∨ b.close = '}') {x : α}
    (hx : ∀ y ∈ x :: xs, Reads item print mayFail R y) (depth n : Nat) (rest : Text) :
    Gives mayFail (List.Forall₂ R (x :: xs)) rest
      (readItems b item (Value.newLine depth ++ (print x ++
        (following print depth xs ++ (Value.newLine n ++ b.close :: rest))))) := by
  obtain ⟨⟨c, s, hs, hblank, hbracket, hbrace⟩, hread⟩ := hx x List.mem_cons_self
  have hopen : c ≠ b.close := by rcases hb with h | h <;> rw [h] <;> assumption
  have hbound : xs.length <
      (following print depth xs ++ (Value.newLine n ++ b.close :: rest)).length + 1 := by
    have := length_le_following print depth xs
    rw [List.length_append]
    omega
  have hmore := gives_following hb (fun y hy ↦ hx y (List.mem_cons_of_mem x hy)) hbound depth n
    rest
  have hitem := hread _ (endsNumber_following print xs depth n (b.close :: rest))
  rw [hs, List.cons_append] at hitem
  rw [readItems, skipJsonBlanks_newLine, hs, List.cons_append, skipJsonBlanks_cons hblank]
  dsimp only
  rw [if_neg hopen]
  split
  · next e he =>
    rw [he] at hitem
    exact hitem
  · next y after he =>
    obtain ⟨hy, rfl⟩ := hitem.of_ok he
    exact hmore.map fun ys hys ↦ .cons hy hys

end Items

/-! ### Values -/

namespace Value

mutual

/-- The doubles in a value. -/
def doubles : Value → List Double
  | .number (.double x) => [x]
  | .array items => itemDoubles items
  | .object members => memberDoubles members
  | _ => []

/-- The doubles in the items of an array. -/
def itemDoubles : List Value → List Double
  | [] => []
  | v :: rest => doubles v ++ itemDoubles rest

/-- The doubles in the members of an object. -/
def memberDoubles : List (Text × Value) → List Double
  | [] => []
  | (_, v) :: rest => doubles v ++ memberDoubles rest

end

variable {x : Double}

private theorem mem_itemDoubles {items : List Value} {v : Value} (hv : v ∈ items)
    (hx : x ∈ v.doubles) : x ∈ itemDoubles items := by
  induction items with
  | nil => cases hv
  | cons w rest ih =>
    rw [itemDoubles, List.mem_append]
    rcases List.mem_cons.mp hv with rfl | hv
    · exact .inl hx
    · exact .inr (ih hv)

private theorem mem_memberDoubles {members : List (Text × Value)} {m : Text × Value}
    (hm : m ∈ members) (hx : x ∈ m.2.doubles) : x ∈ memberDoubles members := by
  induction members with
  | nil => cases hm
  | cons other rest ih =>
    rw [memberDoubles, List.mem_append]
    rcases List.mem_cons.mp hm with rfl | hm
    · exact .inl hx
    · exact .inr (ih hm)

/-- A member on a line of its own, without the line break before it. -/
def printMember (depth : Nat) (m : Text × Value) : Text :=
  quote m.1 ++ ':' :: ' ' :: prettyAt depth m.2

private theorem prettyItems_cons (depth : Nat) (v : Value) (rest : List Value) :
    prettyItems depth (v :: rest) =
      newLine depth ++ (prettyAt depth v ++ following (prettyAt depth) depth rest) := by
  induction rest generalizing v with
  | nil => simp [prettyItems, following]
  | cons w rest ih => rw [prettyItems, ih]; simp [following]

private theorem prettyMembers_cons (depth : Nat) (m : Text × Value) (rest : List (Text × Value)) :
    prettyMembers depth (m :: rest) =
      newLine depth ++ (printMember depth m ++ following (printMember depth) depth rest) := by
  induction rest generalizing m with
  | nil => simp [prettyMembers, following, printMember]
  | cons other rest ih => rw [prettyMembers, ih]; simp [following, printMember]

/-- What begins like a value, but not with a bracket, is not nested. -/
theorem readValue_eq_readScalar (depth : Nat) {c : Char} (hb : isJsonBlank c = false)
    (harray : c ≠ '[') (hobject : c ≠ '{') (t : Text) :
    readValue depth (c :: t) = readScalar c t := by
  rw [readValue.eq_def, skipJsonBlanks_cons hb]
  split
  · next h => cases h
  · next h => exact absurd (List.cons.inj h).1 harray
  · next h => exact absurd (List.cons.inj h).1 hobject
  · next h =>
    obtain ⟨rfl, rfl⟩ := List.cons.inj h
    rfl

private theorem notMem_of_head_number {c : Char} (h : c = '-' ∨ isDecimalDigit c = true) :
    c ∉ [' ', '\n', '\t', '\r', '[', ']', '{', '}', 'n', 't', 'f', '"'] := by
  rcases h with rfl | h
  · decide
  · intro hm
    have hall : [' ', '\n', '\t', '\r', '[', ']', '{', '}', 'n', 't', 'f', '"'].all
        (fun d ↦ !isDecimalDigit d) = true := rfl
    have hc := List.all_eq_true.mp hall c hm
    rw [h] at hc
    cases hc

/-- A value begins like a value when it is written. -/
theorem opens_prettyAt (v : Value) (n : Nat) : Opens (prettyAt n v) := by
  cases v with
  | null => exact ⟨'n', _, rfl, by decide⟩
  | bool b =>
    cases b with
    | true => exact ⟨'t', _, rfl, by decide⟩
    | false => exact ⟨'f', _, rfl, by decide⟩
  | number k =>
    obtain ⟨c, s, hs, hc⟩ := (isNumeral_text k).exists_head
    have hnot := notMem_of_head_number hc
    simp only [List.mem_cons, List.not_mem_nil, or_false, not_or] at hnot
    rw [prettyAt]
    exact ⟨c, s, hs, by simp [isJsonBlank, hnot], by simp [hnot], by simp [hnot]⟩
  | string t => exact ⟨'"', _, rfl, by decide⟩
  | array items => cases items <;> exact ⟨'[', _, rfl, by decide⟩
  | object members => cases members <;> exact ⟨'{', _, rfl, by decide⟩

private theorem readValue_quote (depth : Nat) (t rest : Text) :
    readValue depth (quote t ++ rest) = .ok (.string t, rest) := by
  have ht : quote t ++ rest = '"' :: (t.flatMap escapeChar ++ '"' :: rest) := by simp [quote]
  rw [ht, readValue_eq_readScalar depth rfl (by decide) (by decide)]
  have hs : readScalar '"' (t.flatMap escapeChar ++ '"' :: rest) =
      (readString (t.flatMap escapeChar ++ '"' :: rest)).map
        fun (s, rest) ↦ (Value.string s, rest) := rfl
  rw [hs, readString_escape]
  rfl

/-- A relation between values that holds between two arrays or objects when it holds between what
they have in them. -/
structure Respects (R : Value → Value → Prop) : Prop where
  refl : ∀ v, R v v
  array : ∀ items others, List.Forall₂ R items others → R (.array items) (.array others)
  object : ∀ members others : Members,
    List.Forall₂ (fun m o ↦ m.1 = o.1 ∧ R m.2 o.2) members others →
      R (.object members) (.object others)

/-- Where a number was written a related one is read. -/
def ReadsAs (mayFail : Prop) (R : Value → Value → Prop) (k : Number) : Prop :=
  ∀ rest, EndsNumber rest →
    Gives mayFail (fun m ↦ R (.number k) (.number m)) rest (readNumber (k.text ++ rest))

section Related

variable {mayFail : Prop} {R : Value → Value → Prop} {depth n : Nat} {t rest : Text}

/-- A number that reads back is read as itself. -/
theorem readsAs_of_readsBack (hR : Respects R) {k : Number} (h : k.ReadsBack) :
    ReadsAs mayFail R k := fun _ hr ↦
  .of_eq_ok (readNumber_append hr h) (hR.refl _)

private theorem readsAs_of_doubles (hR : Respects R) {k : Number} (hk : k.InRange)
    (hx : ∀ x ∈ (Value.number k).doubles, ReadsAs mayFail R (.double x)) : ReadsAs mayFail R k := by
  cases k with
  | whole i => exact readsAs_of_readsBack hR (readsBack_whole hk)
  | double x => exact hx x (by simp [doubles])

private theorem gives_number {k : Number} (hk : ReadsAs mayFail R k) (hr : EndsNumber rest) :
    Gives mayFail (R (.number k)) rest (readValue depth (k.text ++ rest)) := by
  have hread := hk rest hr
  obtain ⟨c, s, hs, hc⟩ := (isNumeral_text k).exists_head
  have hnot := notMem_of_head_number hc
  simp only [List.mem_cons, List.not_mem_nil, or_false, not_or] at hnot
  obtain ⟨hspace, hline, htab, hreturn, harray, -, hobject, -, hnull, htrue, hfalse, hquote⟩ := hnot
  have hblank : isJsonBlank c = false := by simp [isJsonBlank, hspace, hline, htab, hreturn]
  rw [hs, List.cons_append] at hread ⊢
  rw [readValue_eq_readScalar depth hblank harray hobject, readScalar, if_neg hnull, if_neg htrue,
    if_neg hfalse, if_neg hquote, if_pos hc]
  exact hread.map fun _ hm ↦ hm

private theorem gives_member {m : Text × Value}
    (h : Gives mayFail (R m.2) rest (readValue depth (prettyAt n m.2 ++ rest))) :
    Gives mayFail (fun o ↦ m.1 = o.1 ∧ R m.2 o.2) rest
      (readMember (readValue depth) (printMember n m ++ rest)) := by
  have hm : printMember n m ++ rest =
      '"' :: (m.1.flatMap escapeChar ++ '"' :: ':' :: ' ' :: (prettyAt n m.2 ++ rest)) := by
    simp [printMember, quote]
  have hblank : readValue depth (' ' :: (prettyAt n m.2 ++ rest)) =
      readValue depth (prettyAt n m.2 ++ rest) := by
    rw [readValue.eq_def, readValue.eq_def depth (prettyAt n m.2 ++ rest)]
    rfl
  rw [hm, readMember, readString_escape]
  simp only [readMemberValue, skipJsonBlanks_cons (c := ':') rfl, hblank]
  exact h.map fun _ hv ↦ ⟨rfl, hv⟩

private theorem gives_array (hR : Respects R) {items : List Value}
    (h : Gives mayFail (List.Forall₂ R items) rest
      (readItems arrayBracket (readValue depth) t)) :
    Gives mayFail (R (.array items)) rest (readValue (depth + 1) ('[' :: t)) := by
  have hv : readValue (depth + 1) ('[' :: t) =
      (readItems arrayBracket (readValue depth) t).map
        fun found ↦ (.array found.1, found.2) := rfl
  rw [hv]
  exact h.map fun others ho ↦ hR.array items others ho

private theorem gives_object (hR : Respects R) {members : Members} (hk : members.keys.Nodup)
    (h : Gives mayFail (List.Forall₂ (fun m o ↦ m.1 = o.1 ∧ R m.2 o.2) members) rest
      (readItems objectBracket (readMember (readValue depth)) t)) :
    Gives mayFail (R (.object members)) rest (readValue (depth + 1) ('{' :: t)) := by
  have hv : readValue (depth + 1) ('{' :: t) =
      (readItems objectBracket (readMember (readValue depth)) t).map
        fun found ↦ (.object (collectMembers found.1), found.2) := rfl
  rw [hv]
  refine h.map (f := fun written ↦ Value.object (collectMembers written)) fun others ho ↦ ?_
  -- the keys are read as they were written, so they are still distinct
  have hkeys : Members.keys members = Members.keys others :=
    List.forall₂_eq_eq_eq ▸ List.forall₂_map_left_iff.mpr
      (List.forall₂_map_right_iff.mpr (ho.imp fun _ _ hm ↦ hm.1))
  rw [Members.collectMembers_of_nodup (hkeys ▸ hk)]
  exact hR.object members others ho

/-- Where a value that fits was written, before anything that does not continue a number, a value
is read that is related to it, if what is read for the doubles in it is related to them. -/
theorem gives_prettyAt (hR : Respects R) {v : Value} (h : v.Fits depth)
    (hx : ∀ x ∈ v.doubles, ReadsAs mayFail R (.double x)) (n : Nat) (hr : EndsNumber rest) :
    Gives mayFail (R v) rest (readValue depth (prettyAt n v ++ rest)) := by
  induction h generalizing n rest with
  | null depth =>
    exact .of_eq_ok (readValue_eq_readScalar depth rfl (by decide) (by decide) _) (hR.refl _)
  | bool depth b =>
    refine .of_eq_ok ?_ (hR.refl _)
    cases b with
    | true => exact readValue_eq_readScalar depth rfl (by decide) (by decide) _
    | false => exact readValue_eq_readScalar depth rfl (by decide) (by decide) _
  | @number depth k hk =>
    rw [prettyAt]
    exact gives_number (readsAs_of_doubles hR hk hx) hr
  | string depth t =>
    rw [prettyAt]
    exact .of_eq_ok (readValue_quote depth t rest) (hR.refl _)
  | @array depth items hi ih =>
    have hitem (v : Value) (hv : v ∈ items) :
        Reads (readValue depth) (prettyAt (n + 1)) mayFail R v :=
      ⟨opens_prettyAt v _, fun _ hr ↦ ih v hv (fun x hm ↦ hx x (mem_itemDoubles hv hm)) _ hr⟩
    cases items with
    | nil => exact ⟨hR.refl _, rfl⟩
    | cons v items =>
      have hitems := gives_items (b := arrayBracket) (.inl rfl) hitem (n + 1) n rest
      have htext : prettyAt n (.array (v :: items)) ++ rest =
          '[' :: (newLine (n + 1) ++ (prettyAt (n + 1) v ++
            (following (prettyAt (n + 1)) (n + 1) items ++ (newLine n ++ ']' :: rest)))) := by
        rw [prettyAt, prettyItems_cons]
        simp
      rw [htext]
      exact gives_array hR hitems
  | @object depth members hk hm ih =>
    have hitem (m : Text × Value) (hmem : m ∈ members) :
        Reads (readMember (readValue depth)) (printMember (n + 1)) mayFail
          (fun m o ↦ m.1 = o.1 ∧ R m.2 o.2) m :=
      ⟨⟨'"', _, rfl, by decide⟩, fun _ hr ↦ gives_member
        (ih m hmem (fun x hx' ↦ hx x (mem_memberDoubles hmem hx')) _ hr)⟩
    cases members with
    | nil => exact ⟨hR.refl _, rfl⟩
    | cons m members =>
      have hitems := gives_items (b := objectBracket) (.inr rfl) hitem (n + 1) n rest
      have htext : prettyAt n (.object (m :: members)) ++ rest =
          '{' :: (newLine (n + 1) ++ (printMember (n + 1) m ++
            (following (printMember (n + 1)) (n + 1) members ++ (newLine n ++ '}' :: rest)))) := by
        rw [prettyAt, prettyMembers_cons]
        simp
      rw [htext]
      exact gives_object hR hk hitems

end Related

/-- Arrays and objects are equal when what they have in them is. -/
theorem respects_eq : Respects Eq where
  refl _ := rfl
  array _ _ h := congrArg Value.array (List.forall₂_eq_eq_eq ▸ h)
  object _ _ h := congrArg Value.object
    (List.forall₂_eq_eq_eq ▸ h.imp fun _ _ hm ↦ Prod.ext hm.1 hm.2)

end Value

variable {mayFail : Prop} {R : Value → Value → Prop} {v : Value}

/-- Where a value that fits was written as a document, a related value is read. -/
theorem gives_pretty (hR : Value.Respects R) (h : v.Fits depthLimit)
    (hx : ∀ x ∈ v.doubles, Value.ReadsAs mayFail R (.double x)) :
    Gives mayFail (R v) ['\n'] (readValue depthLimit (v.pretty ++ ['\n'])) := by
  refine Value.gives_prettyAt hR h hx 0 fun c hc ↦ ?_
  obtain rfl : '\n' = c := Option.some.inj hc
  decide

/-- A value that fits is read as it was written, if the doubles in it are. -/
theorem read_pretty (h : v.Fits depthLimit)
    (hx : ∀ x ∈ v.doubles, (Number.double x).ReadsBack) : read (v.pretty ++ ['\n']) = .ok v := by
  have hv : Gives False (v = ·) ['\n'] _ := gives_pretty Value.respects_eq h fun x hm ↦
    Value.readsAs_of_readsBack Value.respects_eq (hx x hm)
  rw [read, readDocument, hv.eq_ok]
  rfl

end Spruce.Json
