import Mathlib.Data.List.Basic
import Spruce.Proofs.Lint.Recognition
import Spruce.Proofs.Text.Rows

/-!
# Reading what a linter prints

The stylish form of a linter's output is a header for each file and an indented line for each of
its findings, with blank lines, errors and a count of problems between them (`Row`). Every row is
recognised for what it is (`Row.ofText_text`), so the findings that are read from a transcript are
those of its blocks, each in the file of its own header (`findings_transcript`).
-/

namespace Spruce.Lint

open Text

/-! ### The stylish form -/

/-- A file as a header can name it: by a clean path on one line that ends in no blank. -/
structure Heading where
  path : Path
  clean : path.IsCleanAbsolute
  oneLine : '\n' ∉ path.spelling
  uncoloured : escapeChar ∉ path.spelling
  closed : ∀ c ∈ path.spelling.getLast?, isBlank c = false

/-- An unused variable as a line below a header can report it. -/
structure Entry where
  line : Nat
  column : Nat
  name : Text
  line_lt : line < wordBound
  column_lt : column < wordBound
  name_ne_nil : name ≠ []
  unquoted : ∀ c ∈ name, isNameQuote c = false
  oneLine : '\n' ∉ name
  uncoloured : escapeChar ∉ name

/-- What the line of an entry says. -/
def Entry.warning (e : Entry) : Line := .warning e.line e.column e.name

/-- The finding of an entry in a file. -/
def Entry.finding (file : Path) (e : Entry) : Finding := ⟨file, e.line, e.column, e.name⟩

/-- A file and the unused variables in it. -/
structure Block where
  heading : Heading
  entries : List Entry

/-- The blanks before an indented line. -/
structure Indent where
  text : Text
  ne_nil : text ≠ []
  blank : IsBlanks text
  oneLine : '\n' ∉ text

/-- Text on one line. -/
abbrev OneLine := { t : Text // '\n' ∉ t }

/-- A row of a transcript. Only the first two kinds say something about unused variables. -/
inductive Row
  | heading (heading : Heading)
  | entry (indent : Indent) (entry : Entry)
  | blank (t : OneLine) (blank : IsBlanks t.val)
  | error (indent : Indent) (line column : Nat) (message : OneLine)
  | count (problems : Nat) (details : OneLine)

/-- A row as it is printed. -/
def Row.text : Row → Text
  | .heading h => h.path.spelling
  | .entry indent e =>
    indent.text ++ position e.line e.column ++ ("  warning  \x27".toList ++
      (e.name ++ "\x27 is defined but never used".toList))
  | .blank t _ => t.val
  | .error indent line column message =>
    indent.text ++ position line column ++ ("  error  ".toList ++ message.val)
  | .count problems details =>
    "✖ ".toList ++ (ofNat problems ++ (" problem".toList ++ details.val))

/-- What a row says. -/
def Row.line : Row → Line
  | .heading h => .header h.path.spelling
  | .entry _ e => e.warning
  | .blank _ _ | .error _ _ _ _ | .count _ _ => .other

/-- Rows as they are printed, one below the other. -/
def transcript (rows : List Row) : Text := rows.flatMap fun row => row.text ++ ['\n']

/-- What the rows of a block say. -/
def Block.lines (b : Block) : List Line :=
  .header b.heading.path.spelling :: b.entries.map Entry.warning

/-- The findings of a block. -/
def Block.findings (b : Block) : List Finding := b.entries.map (Entry.finding b.heading.path)

/-! ### One row -/

private theorem Indent.uncoloured (indent : Indent) : escapeChar ∉ indent.text :=
  indent.blank.notMem (by decide)

private theorem newline_notMem_position (line column : Nat) : '\n' ∉ position line column :=
  notMem_position (by decide) (by decide) line column

private theorem uncoloured_position (line column : Nat) : escapeChar ∉ position line column :=
  notMem_position (by decide) (by decide) line column

/-- A row is printed on one line. -/
theorem Row.newline_notMem_text (row : Row) : '\n' ∉ row.text := by
  cases row with
  | heading h => exact h.oneLine
  | entry indent e =>
    simp [Row.text, indent.oneLine, newline_notMem_position, e.oneLine]
  | blank t _ => exact t.property
  | error indent line column message =>
    simp [Row.text, indent.oneLine, newline_notMem_position, message.property]
  | count problems details =>
    have hn : '\n' ∉ ofNat problems := fun hm ↦ absurd (isDigit_of_mem_ofNat hm) (by decide)
    simp [Row.text, hn, details.property]

private theorem ofText_heading (h : Heading) :
    Line.ofText h.path.spelling = .header h.path.spelling := by
  have hheader := header?_of_isAbsolute h.clean.1 h.closed
  simp only [Line.ofText, plain_of_notMem h.uncoloured, hheader]

private theorem ofText_entry (indent : Indent) (e : Entry) :
    Line.ofText (Row.entry indent e).text = e.warning := by
  have hplain : plain (Row.entry indent e).text = (Row.entry indent e).text := by
    apply plain_of_notMem
    simp only [Row.text, List.mem_append, not_or]
    exact ⟨⟨indent.uncoloured, uncoloured_position _ _⟩, by decide, e.uncoloured, by decide⟩
  have hwarning := warning?_unused indent.blank e.line_lt e.column_lt e.name_ne_nil e.unquoted
  rw [Row.text, List.append_assoc] at hplain
  rw [List.append_assoc] at hwarning
  rw [Row.text, List.append_assoc, Line.ofText_indented hplain indent.ne_nil indent.blank,
    hwarning, Option.elim_some, Entry.warning]

private theorem ofText_error (indent : Indent) (line column : Nat) (message : Text) :
    Line.ofText (indent.text ++ position line column ++ "  error  ".toList ++ message) =
      .other := by
  have hplain : plain (indent.text ++ position line column ++ "  error  ".toList ++ message) =
      indent.text ++ (position line column ++ ("  error  ".toList ++ plain message)) := by
    rw [plain_append_of_notMem]
    · simp only [List.append_assoc]
    · simp only [List.mem_append, not_or]
      exact ⟨⟨indent.uncoloured, uncoloured_position _ _⟩, by decide⟩
  have hwarning := warning?_error indent.blank line column (plain message)
  rw [List.append_assoc] at hwarning
  rw [Line.ofText_indented hplain indent.ne_nil indent.blank, hwarning, Option.elim_none]

private theorem ofText_count (problems : Nat) (details : Text) :
    Line.ofText ("✖ ".toList ++ ofNat problems ++ " problem".toList ++ details) = .other := by
  have hn : escapeChar ∉ ofNat problems := fun hm ↦ absurd (isDigit_of_mem_ofNat hm) (by decide)
  have hplain : plain ("✖ ".toList ++ ofNat problems ++ " problem".toList ++ details) =
      '✖' :: ' ' :: ((ofNat problems ++ [' ']) ++ 'p' :: ("roblem".toList ++ plain details)) := by
    rw [plain_append_of_notMem]
    · simp
    · simp only [List.mem_append, not_or]
      exact ⟨⟨by decide, hn⟩, by decide⟩
  exact Line.ofText_cross (by decide) hplain

private theorem getLast?_append_ne_return (t : Text) {w : Text} (hne : w ≠ []) (hw : '\r' ∉ w) :
    (t ++ w).getLast? ≠ some '\r' := by
  rw [List.getLast?_append_of_ne_nil t hne]
  exact fun hl ↦ hw (List.mem_of_getLast? hl)

/-- A row is read as what it says. -/
theorem Row.ofText_text (row : Row) :
    Line.ofText (lineContent (row.text ++ ['\n'])) = row.line := by
  cases row with
  | heading h =>
    have hl : h.path.spelling.getLast? ≠ some '\r' := fun hl ↦
      absurd (h.closed '\r' hl) (by decide)
    rw [Row.text, lineContent_newline hl, ofText_heading, Row.line]
  | entry indent e =>
    have hl : (Row.entry indent e).text.getLast? ≠ some '\r' := by
      rw [Row.text, ← List.append_assoc, ← List.append_assoc]
      exact getLast?_append_ne_return _ (by decide) (by decide)
    rw [lineContent_newline hl, ofText_entry, Row.line]
  | blank t ht =>
    obtain ⟨shown, hp, hs⟩ := exists_lineContent_newline (show [].getLast? ≠ some '\r' by simp)
      t.val
    have hblank : IsBlanks shown := fun c hc ↦ ht c (hp.subset hc)
    rw [List.nil_append, List.nil_append] at hs
    rw [Row.text, hs, Line.ofText_blanks hblank (hblank.notMem (by decide)), Row.line]
  | error indent line column message =>
    have hl := getLast?_append_ne_return (indent.text ++ position line column)
      (show "  error  ".toList ≠ [] by decide) (by decide)
    obtain ⟨shown, -, hs⟩ := exists_lineContent_newline hl message.val
    rw [Row.text, ← List.append_assoc, hs, ofText_error, Row.line]
  | count problems details =>
    have hl := getLast?_append_ne_return ("✖ ".toList ++ ofNat problems)
      (show " problem".toList ≠ [] by decide) (by decide)
    obtain ⟨shown, -, hs⟩ := exists_lineContent_newline hl details.val
    rw [Row.text, ← List.append_assoc, ← List.append_assoc, hs, ofText_count, Row.line]

/-! ### A whole transcript -/

/-- The lines of a transcript are those of its rows. -/
theorem lines_transcript (rows : List Row) :
    lines (transcript rows) = rows.map fun row => lineContent (row.text ++ ['\n']) := by
  have hrows : AreRows (rows.map fun row => row.text ++ ['\n']) := by
    constructor
    · simp
    · intro printed hp
      obtain ⟨row, -, rfl⟩ := List.mem_map.mp hp
      rw [List.dropLast_concat]
      exact row.newline_notMem_text
    · rw [List.pairwise_map]
      exact List.pairwise_of_forall fun _ _ ↦ List.getLast?_concat
  rw [lines, transcript, List.flatMap, physicalLines_flatten hrows, List.map_map]
  rfl

/-- What says nothing does not count. -/
theorem Reader.findings_filter (r : Reader) (ls : List Line) :
    r.findings (ls.filter (· ≠ .other)) = r.findings ls := by
  induction ls generalizing r with
  | nil => rfl
  | cons l ls ih =>
    by_cases h : l = .other
    · subst h
      exact ih r
    · rw [List.filter_cons_of_pos (by simpa using h)]
      simp only [Reader.findings, ih]

/-- Below a header every entry is a finding in the file of that header. -/
theorem Reader.findings_entries (root file : Path) (entries : List Entry) (rest : List Line) :
    Reader.findings ⟨root, some file⟩ (entries.map Entry.warning ++ rest) =
      entries.map (Entry.finding file) ++ Reader.findings ⟨root, some file⟩ rest := by
  induction entries with
  | nil => rfl
  | cons e entries ih =>
    simp only [List.map_cons, List.cons_append, Entry.warning, Reader.findings, Reader.next,
      Option.map_some, Option.toList_some, List.nil_append, ih, Entry.finding]

/-- The blocks are read one after another, whatever file was named before them. -/
theorem Reader.findings_blocks (r : Reader) (blocks : List Block) :
    r.findings (blocks.flatMap Block.lines) = blocks.flatMap Block.findings := by
  induction blocks generalizing r with
  | nil => rfl
  | cons b blocks ih =>
    have hpath : Path.resolve r.root b.heading.path.spelling = b.heading.path :=
      b.heading.clean.resolve_spelling b.heading.closed r.root
    simp only [List.flatMap_cons, Block.lines, List.cons_append, Reader.findings, Reader.next,
      hpath, Option.toList_none, List.nil_append, Reader.findings_entries, ih, Block.findings]

/-- The findings read from a transcript, whose rows say what the blocks do in the order of the
blocks, are the entries of the blocks, each in the file of its own block. -/
theorem findings_transcript (root : Path) {blocks : List Block} {rows : List Row}
    (h : (rows.map Row.line).filter (· ≠ .other) = blocks.flatMap Block.lines) :
    findings root (transcript rows) = blocks.flatMap Block.findings := by
  have hread : (lines (transcript rows)).map Line.ofText = rows.map Row.line := by
    rw [lines_transcript, List.map_map]
    exact List.map_congr_left fun row _ ↦ row.ofText_text
  rw [findings, hread, ← Reader.findings_filter, h, Reader.findings_blocks]

/-- A file whose path looks like a warning, with a variable whose name looks like an error. -/
def lookalike : Block where
  heading :=
    ⟨⟨"/a/7:1  warning.ts".toList⟩, by decide, by decide, by decide, fun c hc ↦ by cases hc; rfl⟩
  entries :=
    [⟨3, 10, "4:1  error".toList, by decide, by decide, by decide, by simp [isNameQuote], by decide,
      by decide⟩]

/-- The rows of `lookalike` among others. -/
def lookalikeRows : List Row :=
  .heading lookalike.heading ::
    .error ⟨[' ', ' '], by decide, by decide, by decide⟩ 2 5
      ⟨"\x27y\x27 is defined but never used\r".toList, by decide⟩ ::
    .blank ⟨[], by decide⟩ (by decide) ::
    (lookalike.entries.map <| .entry ⟨['\t'], by decide, by decide, by decide⟩) ++
    [.count 2 ⟨"s (1 error, 1 warning)".toList, by decide⟩]

/-- A path that looks like a warning and a name that looks like an error, with rows of noise
between. -/
theorem findings_transcript_lookalike :
    transcript lookalikeRows = "/a/7:1  warning.ts\n".toList ++
        "  2:5  error  \x27y\x27 is defined but never used\r\n\n".toList ++
        "\t3:10  warning  \x274:1  error\x27 is defined but never used\n".toList ++
        "✖ 2 problems (1 error, 1 warning)\n".toList ∧
      (lookalikeRows.map Row.line).filter (· ≠ .other) = [lookalike].flatMap Block.lines ∧
      findings ⟨"/srv".toList⟩ (transcript lookalikeRows) =
        [⟨⟨"/a/7:1  warning.ts".toList⟩, 3, 10, "4:1  error".toList⟩] := by
  have hsays : (lookalikeRows.map Row.line).filter (· ≠ .other) =
      [lookalike].flatMap Block.lines := by decide
  exact ⟨by decide +kernel, hsays, findings_transcript ⟨"/srv".toList⟩ hsays⟩

end Spruce.Lint
