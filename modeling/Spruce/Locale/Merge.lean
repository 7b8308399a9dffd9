import Spruce.Json.Basic

/-!
# Merging

A patch is merged into an object key by key. Keys that the object lacks go to its end, in the order
of the patch; where both sides hold objects these are merged in turn. Where they differ otherwise,
the value stays, or gives way if overwriting is wanted.
-/

namespace Spruce.Locale

open Json

/-- The number of leaves that a merge added, replaced, and left although they differed. -/
structure Stats where
  added : Nat
  overwritten : Nat
  kept : Nat
  deriving DecidableEq, Repr

namespace Stats

/-- Nothing was merged. -/
def zero : Stats := ⟨0, 0, 0⟩

/-- The counts of two merges together. -/
def add (s t : Stats) : Stats :=
  ⟨s.added + t.added, s.overwritten + t.overwritten, s.kept + t.kept⟩

/-- Whether anything was added or replaced. -/
def changed (s : Stats) : Bool := 0 < s.added || 0 < s.overwritten

end Stats

/-- What becomes of a value that a patch has another value for, when they are not both objects. -/
def settle (overwrite : Bool) (existing incoming : Value) : Value × Stats :=
  if existing.same incoming then (existing, .zero)
  else if overwrite then (incoming, ⟨0, 1, 0⟩)
  else (existing, ⟨0, 0, 1⟩)

mutual

/-- What becomes of a value that a patch has a value for. -/
def mergeValue (overwrite : Bool) (existing : Value) : Value → Value × Stats
  | .object patch =>
    match existing with
    | .object target =>
      let (merged, stats) := mergeMembers overwrite target patch
      (.object merged, stats)
    | _ => settle overwrite existing (.object patch)
  | incoming => settle overwrite existing incoming

/-- What a key holds once a patch has a value for it, from what it held before, if anything. -/
def mergeMember (overwrite : Bool) (existing : Option Value) (incoming : Value) : Value × Stats :=
  match existing with
  | none => (incoming, ⟨incoming.leaves, 0, 0⟩)
  | some existing => mergeValue overwrite existing incoming

/-- The members of an object with those of a patch merged into them one after another. -/
def mergeMembers (overwrite : Bool) (target : Members) : List (Text × Value) → Members × Stats
  | [] => (target, .zero)
  | (key, incoming) :: rest =>
    let step := mergeMember overwrite (target.get? key) incoming
    let others := mergeMembers overwrite (target.put key step.1) rest
    (others.1, step.2.add others.2)

end

/-- The members of an object with the members of a patch merged into them. -/
def merge (overwrite : Bool) (target patch : Members) : Members × Stats :=
  mergeMembers overwrite target patch

end Spruce.Locale
