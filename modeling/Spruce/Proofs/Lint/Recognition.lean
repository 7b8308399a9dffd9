import Spruce.Lint.Output
import Spruce.Proofs.Path.Clean
import Spruce.Proofs.Text.Runs

/-!
# How a line of output is told

A line that begins with a blank is no header, so an indented line is a warning or nothing
(`Line.ofText_indented`). What a position is followed by decides between these
(`warningStart?_position`): the word for a warning and a quoted name are read whatever the name
looks like, and the word for an error stops the reading whatever comes after it. A line that
begins with a slash is a header and names itself.
-/

namespace Spruce

namespace Text

/-- Text without an ESC has no colour sequence to lose. -/
theorem plain_append_of_notMem {t : Text} (h : escapeChar ∉ t) (r : Text) :
    plain (t ++ r) = t ++ plain r := by
  induction t with
  | nil => rfl
  | cons c t ih =>
    obtain ⟨hc, ht⟩ := not_or.mp (mt List.mem_cons.mpr h)
    have hstep : plain (c :: (t ++ r)) = c :: plain (t ++ r) := if_neg (Ne.symm hc)
    rw [List.cons_append, hstep, ih ht, List.cons_append]

/-- Text without an escape character is plain already. -/
theorem plain_of_notMem {t : Text} (h : escapeChar ∉ t) : plain t = t := by
  have hnil : plain [] = [] := rfl
  have hp := plain_append_of_notMem h []
  rwa [List.append_nil, hnil, List.append_nil] at hp

end Text

namespace Path

/-- A clean absolute path that no blank follows names itself, wherever the linter ran. -/
theorem IsCleanAbsolute.resolve_spelling {p : Path} (hp : p.IsCleanAbsolute)
    (hl : ∀ c ∈ p.spelling.getLast?, Text.isBlank c = false) (root : Path) :
    resolve root p.spelling = p := by
  have hstart : Text.trimStart p.spelling = p.spelling := by
    obtain ⟨r, hr⟩ := List.head?_eq_some_iff.mp (of_decide_eq_true hp.1)
    rw [hr]
    exact Text.trimStart_cons (by decide) r
  have htrim : Text.trim p.spelling = p.spelling := by
    rw [Text.trim, hstart, Text.trimEnd_of_getLast? hl]
  have hjoin : root.join p = p := if_pos hp.1
  rw [resolve, htrim, hjoin, hp.2]

end Path

namespace Lint

open Text

/-! ### Pieces of a warning -/

private theorem digits?_append {run : Text} (hne : run ≠ []) (hrun : ∀ c ∈ run, isDigit c = true)
    {c : Char} (hc : isDigit c = false) (r : Text) :
    digits? (run ++ c :: r) = some (run, c :: r) := by
  rw [digits?, takeWhile_run_cons hrun hc, dropWhile_run_cons hrun hc]
  cases run with
  | nil => exact absurd rfl hne
  | cons d ds => rfl

/-- A name between quotes is read, and the reading stops behind the second quote. -/
theorem quotedName?_append {name : Text} (hne : name ≠ [])
    (hname : ∀ c ∈ name, isNameQuote c = false) {q q' : Char} (hq : isNameQuote q = true)
    (hq' : isNameQuote q' = true) (r : Text) :
    quotedName? (q :: (name ++ q' :: r)) = some (name, r) := by
  have hpos : ∀ c ∈ name, (!isNameQuote c) = true := fun c hc ↦ by rw [hname c hc, Bool.not_false]
  have hstop : (!isNameQuote q') = false := by rw [hq', Bool.not_true]
  rw [quotedName?, if_pos hq, takeWhile_run_cons hpos hstop, dropWhile_run_cons hpos hstop]
  cases name with
  | nil => exact absurd rfl hne
  | cons d ds => rfl

/-- A position as the linter writes it. -/
def position (line column : Nat) : Text := ofNat line ++ ':' :: ofNat column

/-- A position is written in digits, apart from the colon. -/
theorem notMem_position {c : Char} (hd : isDigit c = false) (hc : c ≠ ':') (line column : Nat) :
    c ∉ position line column := by
  have hn : ∀ n, c ∉ ofNat n := by
    intro n hm
    rw [isDigit_of_mem_ofNat hm] at hd
    exact Bool.noConfusion hd
  simp [position, hn, hc]

/-- After the indentation and a position, what follows the position is read on. -/
theorem warningStart?_position {indent : Text} (hi : IsBlanks indent) (line column : Nat)
    {c : Char} (hc : isDigit c = false) (r : Text) :
    warningStart? (indent ++ position line column ++ c :: r) =
      (skipBlanks? (c :: r)).bind fun afterColumn =>
        (warningWord.isPrefixOf? afterColumn).bind fun afterWord =>
          (skipBlanks? afterWord).bind fun message =>
            (quotedName? message).bind fun (name, rest) =>
              some (ofNat line, ofNat column, name, rest) := by
  have hstart : trimStart (indent ++ position line column ++ c :: r) =
      ofNat line ++ ':' :: (ofNat column ++ c :: r) := by
    rw [List.append_assoc, hi.trimStart_append, position, List.append_assoc, List.cons_append]
    cases hl : ofNat line with
    | nil => exact absurd hl (ofNat_ne_nil line)
    | cons d ds => exact trimStart_cons (isBlank_of_mem_ofNat (hl ▸ List.mem_cons_self)) _
  have hline : digits? (ofNat line ++ ':' :: (ofNat column ++ c :: r)) =
      some (ofNat line, ':' :: (ofNat column ++ c :: r)) :=
    digits?_append (ofNat_ne_nil line) (fun _ ↦ isDigit_of_mem_ofNat) (by decide) _
  have hcolon : [':'].isPrefixOf? (':' :: (ofNat column ++ c :: r)) =
      some (ofNat column ++ c :: r) := rfl
  have hcolumn : digits? (ofNat column ++ c :: r) = some (ofNat column, c :: r) :=
    digits?_append (ofNat_ne_nil column) (fun _ ↦ isDigit_of_mem_ofNat) hc r
  rw [warningStart?, hstart, hline]
  simp only [Option.bind_eq_bind, Option.bind_some, hcolon, hcolumn]

private theorem warning?_of_start {t line column name rest : Text}
    (h : warningStart? t = some (line, column, name, rest))
    (hphrase : (unusedPhrases.any fun phrase => holds phrase rest) = true) :
    warning? t = (word64? line).bind fun line =>
      (word64? column).bind fun column => some (line, column, name) := by
  have hguard : (guard ((unusedPhrases.any fun phrase => holds phrase rest) = true) :
      Option Unit) = some () := if_pos hphrase
  have hread : warning? t =
      (guard ((unusedPhrases.any fun phrase => holds phrase rest) = true) : Option Unit).bind
        fun _ => (word64? line).bind fun line =>
          (word64? column).bind fun column => some (line, column, name) := by
    rw [warning?, h]
    rfl
  rw [hread, hguard, Option.bind_some]

/-- A position, the word for a warning and a quoted name, followed by one of the phrases, are a
warning about that name. -/
theorem warning?_unused {indent : Text} (hi : IsBlanks indent) {line column : Nat}
    (hline : line < wordBound) (hcolumn : column < wordBound) {name : Text} (hne : name ≠ [])
    (hname : ∀ c ∈ name, isNameQuote c = false) :
    warning? (indent ++ position line column ++ ("  warning  \x27".toList ++
      (name ++ "\x27 is defined but never used".toList))) = some (line, column, name) := by
  have hquoted : quotedName? ('\x27' :: (name ++ "\x27 is defined but never used".toList)) =
      some (name, " is defined but never used".toList) :=
    quotedName?_append hne hname rfl rfl _
  have hstart : warningStart? (indent ++ position line column ++ ("  warning  \x27".toList ++
      (name ++ "\x27 is defined but never used".toList))) =
      some (ofNat line, ofNat column, name, " is defined but never used".toList) := by
    refine (warningStart?_position hi line column (by decide) _).trans ?_
    exact congrArg (Option.bind · _) hquoted
  rw [warning?_of_start hstart (by decide), word64?_ofNat hline, word64?_ofNat hcolumn]
  rfl

/-- Nothing after a position and the word for an error makes a warning. -/
theorem warning?_error {indent : Text} (hi : IsBlanks indent) (line column : Nat)
    (message : Text) :
    warning? (indent ++ position line column ++ ("  error  ".toList ++ message)) = none := by
  have hstart : warningStart? (indent ++ position line column ++
      ("  error  ".toList ++ message)) = none :=
    warningStart?_position hi line column (by decide) _
  rw [warning?, hstart]
  rfl

/-! ### Lines -/

/-- A path from the root, with no blank after it, is a header. -/
theorem header?_of_isAbsolute {p : Path} (hp : p.isAbsolute = true)
    (hl : ∀ c ∈ p.spelling.getLast?, isBlank c = false) :
    header? p.spelling = some p.spelling := by
  obtain ⟨r, hr⟩ := List.head?_eq_some_iff.mp (of_decide_eq_true hp)
  have htrim : trimEnd p.spelling = p.spelling := trimEnd_of_getLast? hl
  rw [hr] at htrim ⊢
  have hpath : startsAsPath ('/' :: r) = true := by simp [startsAsPath]
  rw [header?, if_neg (by decide), htrim]
  simp only [hpath, Bool.true_or, if_true]

/-- An indented line is a warning or nothing. -/
theorem Line.ofText_indented {raw indent r : Text} (hplain : plain raw = indent ++ r)
    (hne : indent ≠ []) (hi : IsBlanks indent) :
    Line.ofText raw = (warning? (indent ++ r)).elim .other
      fun (line, column, name) => .warning line column name := by
  have hheader : header? (indent ++ r) = none := by
    cases indent with
    | nil => exact absurd rfl hne
    | cons c indent => exact if_pos (hi c List.mem_cons_self)
  simp only [Line.ofText, hplain, hheader]
  cases warning? (indent ++ r) <;> rfl

/-- A cross, a blank and a text that is not blank say nothing. -/
theorem Line.ofText_cross {raw s r : Text} {c : Char} (hc : isBlank c = false)
    (hplain : plain raw = '✖' :: ' ' :: (s ++ c :: r)) : Line.ofText raw = .other := by
  have htrim : trimEnd ('✖' :: ' ' :: (s ++ c :: r)) = '✖' :: ' ' :: (s ++ c :: trimEnd r) :=
    trimEnd_append_cons hc ('✖' :: ' ' :: s) r
  have hpath : startsAsPath ('✖' :: ' ' :: (s ++ c :: trimEnd r)) = false := rfl
  have hname : isSourceName ('✖' :: ' ' :: (s ++ c :: trimEnd r)) = false := rfl
  have hheader : header? ('✖' :: ' ' :: (s ++ c :: r)) = none := by
    rw [header?, if_neg (by decide), htrim]
    simp only [hpath, hname, Bool.or_self, Bool.false_eq_true, if_false]
  have hwarning : warning? ('✖' :: ' ' :: (s ++ c :: r)) = none := rfl
  simp only [Line.ofText, hplain, hheader, hwarning]

/-- Blanks say nothing. -/
theorem Line.ofText_blanks {t : Text} (h : IsBlanks t) (he : escapeChar ∉ t) :
    Line.ofText t = .other := by
  have hwarning : warning? t = none := by
    rw [warning?, warningStart?, h.trimStart_eq_nil]
    rfl
  cases t with
  | nil => rfl
  | cons c r =>
    have hplain : plain (c :: r) = (c :: r) ++ [] := by rw [plain_of_notMem he, List.append_nil]
    rw [Line.ofText_indented hplain (List.cons_ne_nil c r) h, List.append_nil, hwarning,
      Option.elim_none]

end Lint

end Spruce
