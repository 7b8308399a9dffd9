import Spruce.Path.Basic

/-!
# Clean paths and paths relative to a directory

Cleaning is lexical: `.` disappears and `..` takes back the name before it, without a look at any
file. A relative path climbs out of the base up to the components shared with the target and
descends from there.
-/

namespace Spruce.Path

/-- One component onto a reversed list of clean components. Above the root there is nothing to
climb to. -/
def cleanStep (out : List Component) : Component → List Component
  | .here => out
  | .up =>
    match out with
    | .root :: _ => out
    | .name _ :: rest => rest
    | _ => .up :: out
  | c => c :: out

/-- The components of a path once `.` and `..` are resolved lexically. -/
def cleanComponents (p : Path) : List Component := (p.components.foldl cleanStep []).reverse

/-- The clean spelling of a path; a path with nothing left is `.`. -/
def clean (p : Path) : Path :=
  match p.cleanComponents with
  | [] => ⟨['.']⟩
  | cs => ofComponents cs

/-- The clean path that `raw` names for a program running in `root`. Blanks around it do not
count. -/
def resolve (root : Path) (raw : Text) : Path := clean (root.join ⟨Text.trim raw⟩)

/-- The number of components that two lists have in common at the front. -/
def sharedLength : List Component → List Component → Nat
  | a :: as, b :: bs => if a = b then sharedLength as bs + 1 else 0
  | _, _ => 0

/-- Whether a component leads downwards or upwards in a relative path. -/
def isStep : Component → Bool
  | .up | .name _ => true
  | _ => false

/-- The path that leads from the directory `base` to `target`; there is none when they do not begin
at the same place. -/
def relativeTo? (target base : Path) : Option Path :=
  let ts := target.components
  let bs := base.components
  let shared := sharedLength ts bs
  if shared = 0 ∧ ts.head? ≠ bs.head? then none
  else
    let climb := (bs.drop shared).map fun _ => Component.up
    let descend := (ts.drop shared).filter isStep
    match climb ++ descend with
    | [] => some ⟨['.']⟩
    | cs => some (ofComponents cs)

/-- How a path is shown to someone in the directory `current`: relative where that is possible. -/
def shown (current p : Path) : Text := ((relativeTo? p current).getD p).spelling

end Spruce.Path
