import Spruce.Cleanup.Outcome
import Spruce.Json.Printer
import Spruce.Path.Relative
import Spruce.Text.Report

/-!
# Reports on a cleanup

A cleanup is reported either as lines for a reader, one for each outcome and then the counts, or as
JSON.
-/

namespace Spruce.Cleanup

open Text Text.Report

/-- The place of an outcome, as it is shown in the directory `current`. -/
def Outcome.place (current : Path) (o : Outcome) : Text :=
  Path.shown current o.file ++ ':' :: ofNat o.line

/-- The wording of the remark on a skipped finding. -/
def Outcome.reason (o : Outcome) : Text := (o.remark.map Remark.text).getD "no change".toList

/-- The line for an outcome. -/
def Outcome.report (colour : Bool) (current : Path) (o : Outcome) : Text :=
  let quoted := '\x27' :: o.name ++ ['\x27']
  match o.action with
  | .removed =>
    row ("  ".toList ++ paint colour [.green] check ++ " Removed: ".toList ++
      paint colour [.blue] (o.place current) ++ " - ".toList ++ quoted)
  | .prefixed =>
    row ("  ".toList ++ paint colour [.yellow] arrow ++ " Prefixed: ".toList ++
      paint colour [.blue] (o.place current) ++ " - ".toList ++ quoted ++ " → '_".toList ++
      o.name ++ ['\x27'])
  | .skipped =>
    row ("  ".toList ++ paint colour [.dimmed] dot ++ " Skipped: ".toList ++
      paint colour [.dimmed] (o.place current) ++ " - ".toList ++ quoted ++ " (".toList ++
      paint colour [.dimmed] o.reason ++ [')'])

namespace Summary

/-- The lines for the outcomes. -/
def outcomeReport (colour : Bool) (current : Path) (s : Summary) : Text :=
  s.outcomes.flatMap (Outcome.report colour current)

/-- What a summary ends with when something was changed. -/
def changeReport (colour : Bool) (s : Summary) : Text :=
  let renames :=
    if 0 < s.prefixed then
      row ('\n' :: paint colour [.bold, .yellow] warningSign ++ ' ' :: ofNat s.prefixed ++
        " variables prefixed with _ (safer than removal)".toList) ++
      row "   These can be reviewed and removed manually if needed".toList
    else []
  row ('\n' :: paint colour [.bold, .green] check ++ " Cleaned up ".toList ++
    ofNat (s.removed + s.prefixed) ++ " unused variables".toList) ++
  row "   Run the linter again to verify results".toList ++ renames

/-- The counts, and what they come to. -/
def countReport (colour : Bool) (s : Summary) : Text :=
  title colour s.dryRun ++
  row ("  Removed:  ".toList ++ number colour [.bold, .green] s.removed ++
    " (safe standalone declarations)".toList) ++
  row ("  Prefixed: ".toList ++ number colour [.bold, .yellow] s.prefixed ++
    " (complex cases requiring underscore)".toList) ++
  row ("  Skipped:  ".toList ++ number colour [.dimmed] s.skipped ++
    " (couldn't process)".toList) ++
  row ("  Total:    ".toList ++ number colour [.cyan] s.total) ++
  (if 0 < s.removed + s.prefixed then s.changeReport colour
   else row ('\n' :: paint colour [.bold, .green] check ++ " No changes needed".toList))

end Summary

/-! ### JSON -/

/-- The word for an action. -/
def Action.word : Action → Text
  | .removed => "removed".toList
  | .prefixed => "prefixed".toList
  | .skipped => "skipped".toList

/-- An outcome as JSON; it has no detail where there is no remark. -/
def Outcome.json (o : Outcome) : Json.Value :=
  .object <|
    [("file".toList, .string o.file.spelling), ("line".toList, .ofNat o.line),
      ("name".toList, .string o.name), ("action".toList, .string o.action.word)] ++
    (o.remark.map fun remark => ("detail".toList, Json.Value.string remark.text)).toList

/-- A summary as JSON. -/
def Summary.json (s : Summary) : Json.Value :=
  .object
    [("removed".toList, .ofNat s.removed), ("prefixed".toList, .ofNat s.prefixed),
      ("skipped".toList, .ofNat s.skipped), ("dry_run".toList, .bool s.dryRun),
      ("outcomes".toList, .array (s.outcomes.map Outcome.json))]

/-- A summary as the text of a JSON document. -/
def Summary.jsonReport (s : Summary) : Text := row s.json.pretty

end Spruce.Cleanup
