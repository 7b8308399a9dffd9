import Spruce.Locale.Update
import Spruce.Root

/-!
# Updating the locale files of a project

The locale files stand in one directory, named relative to the root of the project.
-/

namespace Spruce.Locale

/-- How the locale files of a project are updated. -/
structure Options where
  root : Option Path
  dir : Path
  patch : Path
  overwrite : Bool
  dryRun : Bool
  json : Bool
  deriving DecidableEq, Repr

namespace Options

/-- The directory of the locale files unless another one is given. -/
def defaultDirectory : Path := .ofString "i18n/locales"

/-- The directory of the locale files, once the root is known or not needed. -/
def directory (o : Options) : Except Fault Path :=
  if o.dir.isAbsolute then .ok o.dir
  else
    match o.root with
    | some root => .ok (root.join o.dir)
    | none => .error (.of .rootUnknown)

/-- The summary of the update of the locale files in a directory, and the disk after it. -/
def updateIn (o : Options) (d : Disk) (dir : Path) : Except Fault (Summary × Disk) :=
  if d.isDirectory dir then
    match Patch.load d o.patch with
    | .error fault => .error fault
    | .ok patch => updateDirectory d dir patch ⟨o.overwrite, o.dryRun⟩
  else .error (.of (.noLocaleDirectory dir))

/-- The summary of the update of the locale files of a project, and the disk after it. -/
def updateProject (o : Options) (d : Disk) : Except Fault (Summary × Disk) :=
  match d.projectRoot o.root with
  | .error fault => .error fault
  | .ok root =>
    match { o with root := some root }.directory with
    | .error fault => .error fault
    | .ok dir => o.updateIn d dir

end Options

end Spruce.Locale
