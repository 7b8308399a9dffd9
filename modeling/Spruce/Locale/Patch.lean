import Spruce.Fault
import Spruce.Json.Reader

/-!
# Patches

A patch is a JSON object with a section of keys to merge for each locale. One section, under a name
of its own, is for all locales and goes before the locale's own section.
-/

namespace Spruce.Locale

open Json

/-- The sections of a patch by locale; each is an object. -/
structure Patch where
  sections : List (Text × Members)
  deriving Repr

namespace Patch

/-- The name of the section for all locales. -/
def sharedName : Text := ['*']

/-- The sections that some members are, if all of them are objects. -/
def sectionsOf : Members → Except Cause (List (Text × Members))
  | [] => .ok []
  | (name, .object members) :: rest => (sectionsOf rest).map fun others => (name, members) :: others
  | (name, _) :: _ => .error (.sectionNotObject name)

/-- The patch that a JSON value is. -/
def ofValue : Value → Except Cause Patch
  | .object members => (sectionsOf members).map Patch.mk
  | _ => .error .patchNotObject

/-- The patch that a text is. -/
def ofText (t : Text) : Except Cause Patch :=
  match Json.read t with
  | .error e => .error (.json e)
  | .ok v => ofValue v

/-- The patch in the file at a path. -/
def load (d : Disk) (p : Path) : Except Fault Patch :=
  match d.readText p with
  | .error e => .error ⟨[.readPatch p], .io e⟩
  | .ok t => (ofText t).mapError fun cause => ⟨[.checkPatch p], cause⟩

/-- The section with a name. -/
def section? (patch : Patch) (name : Text) : Option Members := patch.sections.lookup name

/-- The sections that apply to a locale, in the order in which they are merged. -/
def sectionsFor (patch : Patch) (locale : Text) : List Members :=
  (patch.section? sharedName).toList ++ (patch.section? locale).toList

/-- The locales that have sections of their own. -/
def locales (patch : Patch) : List Text :=
  (patch.sections.map Prod.fst).filter (· ≠ sharedName)

end Patch

end Spruce.Locale
