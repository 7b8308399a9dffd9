import Spruce.Locale.Update
import Spruce.Path.Relative
import Spruce.Text.Report

/-!
# Reports on an update

An update is reported either as lines for a reader, one for each locale file and then the counts,
or as JSON.
-/

namespace Spruce.Locale

open Text Text.Report

/-- The line for a locale file. -/
def FileReport.report (colour : Bool) (current : Path) (f : FileReport) : Text :=
  let shown := Path.shown current f.path
  let locale := " (".toList ++ f.locale ++ ") - ".toList
  match f.status with
  | .updated =>
    row ("  ".toList ++ paint colour [.green] check ++ ' ' :: paint colour [.blue] shown ++
      locale ++ number colour [.green] f.stats.added ++ " added, ".toList ++
      number colour [.yellow] f.stats.overwritten ++ " overwritten".toList)
  | .unchanged =>
    row ("  ".toList ++ paint colour [.dimmed] dot ++ ' ' :: paint colour [.dimmed] shown ++
      locale ++ "unchanged".toList)
  | .failed =>
    row ("  ".toList ++ paint colour [.red] cross ++ ' ' :: paint colour [.red] shown ++ locale ++
      f.error.getD "unknown error".toList)

namespace Summary

/-- The line for a locale of the patch that has no file. -/
def unmatchedReport (colour : Bool) (locale : Text) : Text :=
  row ("  ".toList ++ paint colour [.yellow] warningSign ++ " No locale file for '".toList ++
    locale ++ ['\x27'])

/-- The lines for the files, and for the locales without one. -/
def fileReport (colour : Bool) (current : Path) (s : Summary) : Text :=
  s.files.flatMap (FileReport.report colour current) ++
    s.unmatched.flatMap (unmatchedReport colour)

/-- What the counts come to. -/
def conclusion (colour : Bool) (s : Summary) : Text :=
  if 0 < s.count .failed then
    row ('\n' :: paint colour [.bold, .red] cross ++ ' ' :: ofNat (s.count .failed) ++
      " locale files could not be updated".toList)
  else if 0 < s.count .updated then
    row ('\n' :: paint colour [.bold, .green] check ++ " Updated ".toList ++
      ofNat (s.count .updated) ++ " locale files".toList)
  else
    row ('\n' :: paint colour [.bold, .green] check ++
      " Locale files already up to date".toList)

/-- The counts, and what they come to. -/
def countReport (colour : Bool) (s : Summary) : Text :=
  title colour s.dryRun ++
  row ("  Updated:   ".toList ++ number colour [.bold, .green] (s.count .updated)) ++
  row ("  Unchanged: ".toList ++ number colour [.dimmed] (s.count .unchanged)) ++
  row ("  Failed:    ".toList ++ number colour [.red] (s.count .failed)) ++
  row ("  Keys added: ".toList ++ number colour [.cyan] s.added) ++
  s.conclusion colour

end Summary

/-! ### JSON -/

/-- The word for a status. -/
def Status.word : Status → Text
  | .updated => "updated".toList
  | .unchanged => "unchanged".toList
  | .failed => "failed".toList

/-- The counts of a merge as JSON. -/
def Stats.json (s : Stats) : Json.Value :=
  .object
    [("added".toList, .ofNat s.added), ("overwritten".toList, .ofNat s.overwritten),
      ("kept".toList, .ofNat s.kept)]

/-- The report on a locale file as JSON; it has no error where nothing went wrong. -/
def FileReport.json (f : FileReport) : Json.Value :=
  .object <|
    [("path".toList, .string f.path.spelling), ("locale".toList, .string f.locale),
      ("status".toList, .string f.status.word), ("stats".toList, f.stats.json)] ++
    (f.error.map fun wording => ("error".toList, Json.Value.string wording)).toList

/-- A summary as JSON. -/
def Summary.json (s : Summary) : Json.Value :=
  .object
    [("files".toList, .array (s.files.map FileReport.json)),
      ("unmatched_locales".toList, .array (s.unmatched.map .string)),
      ("dry_run".toList, .bool s.dryRun)]

/-- A summary as the text of a JSON document. -/
def Summary.jsonReport (s : Summary) : Text := row s.json.pretty

end Spruce.Locale
