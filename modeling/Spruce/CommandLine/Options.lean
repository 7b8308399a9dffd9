import Spruce.Cleanup.Project
import Spruce.CommandLine.Arguments
import Spruce.Locale.Project

/-!
# The options of both tools
-/

namespace Spruce

open CommandLine

namespace Cleanup.Options

/-- The parameters of a cleanup. -/
def parameters : List Parameter :=
  [⟨"root".toList, .path, false⟩, ⟨"lint-command".toList, .text, false⟩,
    ⟨"input".toList, .path, false⟩, ⟨"timeout-secs".toList, .number, false⟩,
    ⟨"dry-run".toList, .flag, false⟩, ⟨"json".toList, .flag, false⟩]

/-- The options of a cleanup that arguments spell. -/
def ofArguments (arguments : List Text) : Except UsageError Options :=
  (readArguments parameters arguments).map fun g =>
    { root := (g.value? "root").map Path.mk
      lintCommand := (g.value? "lint-command").getD defaultLintCommand
      input := (g.value? "input").map Path.mk
      timeoutSeconds := (g.value? "timeout-secs").bind numberValue?
      dryRun := g.has "dry-run"
      json := g.has "json" }

end Cleanup.Options

namespace Locale.Options

/-- The parameters of an update. -/
def parameters : List Parameter :=
  [⟨"root".toList, .path, false⟩, ⟨"dir".toList, .path, false⟩, ⟨"patch".toList, .path, true⟩,
    ⟨"overwrite".toList, .flag, false⟩, ⟨"dry-run".toList, .flag, false⟩,
    ⟨"json".toList, .flag, false⟩]

/-- The options of an update that arguments spell. -/
def ofArguments (arguments : List Text) : Except UsageError Options :=
  (readArguments parameters arguments).map fun g =>
    { root := (g.value? "root").map Path.mk
      dir := ((g.value? "dir").map Path.mk).getD defaultDirectory
      patch := ⟨(g.value? "patch").getD []⟩
      overwrite := g.has "overwrite"
      dryRun := g.has "dry-run"
      json := g.has "json" }

end Locale.Options

end Spruce
