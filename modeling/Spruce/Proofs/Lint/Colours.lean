import Spruce.Proofs.Lint.Stylish
import Spruce.Proofs.Lint.Warnings

/-!
# Output in colour

What a reader finds in an output depends on the pieces between its newlines only: a carriage return
before a newline is a blank at the end of its piece, and the empty piece after the last newline says
nothing (`findings_eq_pieces`). The pieces of a coloured output are coloured one by one, so colours
make no difference, wherever they stand (`findings_coloured`).
-/

namespace Spruce.Lint

open Text

/-! ### Pieces between newlines -/

private theorem exists_blanks_lineContent (piece : Text) :
    ∃ blanks, IsBlanks blanks ∧ piece = lineContent (piece ++ ['\n']) ++ blanks := by
  have hs := lineContent_append_lineTerminator (piece ++ ['\n'])
  rcases lineTerminator_cases (piece ++ ['\n']) with ⟨-, hl⟩ | hterm | hterm
  · exact absurd List.getLast?_concat hl
  · rw [hterm] at hs
    exact ⟨[], isBlanks_nil, by rw [List.append_nil, List.append_cancel_right hs]⟩
  · rw [hterm, List.append_cons] at hs
    exact ⟨['\r'], by decide, (List.append_cancel_right hs).symm⟩

/-- A row says what its piece says. -/
theorem ofText_lineContent (piece : Text) :
    Line.ofText (lineContent (piece ++ ['\n'])) = Line.ofText piece := by
  obtain ⟨blanks, hb, hpiece⟩ := exists_blanks_lineContent piece
  rw [← Line.ofText_append_blanks hb, ← hpiece]

private theorem lineContent_of_notMem {t : Text} (h : '\n' ∉ t) : lineContent t = t := by
  have hs := lineContent_append_lineTerminator t
  rcases lineTerminator_cases t with ⟨hterm, -⟩ | hterm | hterm
  · rwa [hterm, List.append_nil] at hs
  · exact absurd (by rw [← hs, hterm]; simp) h
  · exact absurd (by rw [← hs, hterm]; simp) h

/-- A line that says nothing may be left out at the end. -/
theorem findings_append_other (r : Reader) (ls : List Line) :
    r.findings (ls ++ [.other]) = r.findings ls := by
  rw [← Reader.findings_filter, List.filter_append, ← Reader.findings_filter r ls]
  simp

/-- The findings in an output are those in its pieces between newlines. -/
theorem findings_eq_pieces (root : Path) (output : Text) :
    findings root output =
      Reader.findings ⟨root, none⟩ ((split '\n' output).map Line.ofText) := by
  obtain ⟨pieces, last, hsplit, hrows⟩ := exists_pieces output
  have hpieces : (pieces.map (· ++ ['\n'])).map (Line.ofText ∘ lineContent) =
      pieces.map Line.ofText := by
    rw [List.map_map]
    exact List.map_congr_left fun piece _ ↦ ofText_lineContent piece
  have hlast : lineContent last = last :=
    lineContent_of_notMem (notMem_of_mem_split (t := output) (by simp [hsplit]))
  rw [findings, lines, List.map_map, hrows, hsplit, List.map_append, List.map_append, hpieces]
  split
  · next hl =>
    have hnil : Line.ofText [] = .other := rfl
    rw [hl, List.map_nil, List.append_nil, List.map_singleton, hnil, findings_append_other]
  · rw [List.map_singleton, List.map_singleton, Function.comp_apply, hlast]

/-! ### Colours -/

/-- Coloured text says what the text says. -/
theorem Line.ofText_coloured {t shown : Text} (h : Coloured t shown) (ht : escapeChar ∉ t) :
    Line.ofText shown = Line.ofText t := by
  simp only [Line.ofText, h.plain_eq ht, plain_of_notMem ht]

private theorem map_ofText_coloured {pieces shown : List Text}
    (h : List.Forall₂ Coloured pieces shown) (hplain : ∀ piece ∈ pieces, escapeChar ∉ piece) :
    shown.map Line.ofText = pieces.map Line.ofText := by
  induction h with
  | nil => rfl
  | cons hpiece _ ih =>
    obtain ⟨hhead, htail⟩ := List.forall_mem_cons.mp hplain
    rw [List.map_cons, List.map_cons, Line.ofText_coloured hpiece hhead, ih htail]

/-- Colour sequences between the characters of an output, before them and after them make no
difference to the findings in it. -/
theorem findings_coloured (root : Path) {output shown : Text} (h : Coloured output shown)
    (hplain : escapeChar ∉ output) : findings root shown = findings root output := by
  have hpieces : (split '\n' shown).map Line.ofText = (split '\n' output).map Line.ofText :=
    map_ofText_coloured h.split fun piece hm he ↦ hplain (subset_of_mem_split hm he)
  rw [findings_eq_pieces, findings_eq_pieces, hpieces]

/-- Colours within a path, a number, a word and a name, and between a carriage return and its
newline. -/
theorem findings_coloured_within :
    let red : Text := "\x1b[1;31m".toList
    let off : Text := "\x1b[m".toList
    let output : Text := "/a.ts\r\n 17:3 warning \x27xy\x27 no-unused-vars\n".toList
    let shown : Text := red ++ "/a".toList ++ off ++ ".ts\r".toList ++ off ++ "\n 1".toList ++
      red ++ "7:3 war".toList ++ red ++ off ++ "ning \x27x".toList ++ off ++
      "y\x27 no-unused-vars\n".toList ++ off
    Coloured output shown ∧ escapeChar ∉ output ∧
      findings ⟨['/']⟩ shown = [⟨⟨"/a.ts".toList⟩, 17, 3, "xy".toList⟩] := by
  intro red off output shown
  have hred : Coloured [] red :=
    .sequence ⟨"1;31".toList, by rfl, List.all_eq_true.mp (by decide)⟩ .nil
  have hoff : Coloured [] off := .sequence ⟨[], by rfl, List.forall_mem_nil _⟩ .nil
  have hcoloured : Coloured output shown :=
    ((((((((((((hred.append (.refl "/a".toList)).append hoff).append (.refl ".ts\r".toList)).append
      hoff).append (.refl "\n 1".toList)).append hred).append (.refl "7:3 war".toList)).append
      hred).append hoff).append (.refl "ning \x27x".toList)).append hoff).append
      (.refl "y\x27 no-unused-vars\n".toList)).append hoff
  have hplain : escapeChar ∉ output := by decide
  exact ⟨hcoloured, hplain, (findings_coloured ⟨['/']⟩ hcoloured hplain).trans (by decide +kernel)⟩

end Spruce.Lint
