import Spruce.Proofs.Json.Leaves
import Spruce.Proofs.Json.RoundTrip

/-!
# Outlines of values

Two values have the same outline when the same paths of keys lead somewhere in both, and to objects
in both or in neither. A value that is read where another one was written has the outline of that
one (`sameOutline_of_read`), whatever has become of the doubles.
-/

namespace Spruce.Json.Value

variable {v w : Value} {path : List Text}

/-- The same paths lead somewhere in both values, and to objects in both or in neither. -/
def SameOutline (v w : Value) : Prop :=
  ∀ path, (v.at? path).map isObject = (w.at? path).map isObject

private theorem leaf?_eq_none_iff :
    v.leaf? path = none ↔ (v.at? path).map isObject ≠ some false := by
  rw [leaf?]
  cases v.at? path <;> simp

namespace SameOutline

/-- Values with the same outline have the same paths. -/
theorem isSome_at? (h : v.SameOutline w) (path : List Text) :
    (v.at? path).isSome = (w.at? path).isSome := by
  have hpath := congrArg Option.isSome (h path)
  rwa [Option.isSome_map, Option.isSome_map] at hpath

/-- Values with the same outline lack the same paths. -/
theorem lacks_iff (h : v.SameOutline w) : v.Lacks path ↔ w.Lacks path := by
  have hat : v.at? path = none ↔ w.at? path = none := by
    rw [← Option.not_isSome_iff_eq_none, ← Option.not_isSome_iff_eq_none, h.isSome_at?]
  simp only [Lacks, hat, leaf?_eq_none_iff, h _]

end SameOutline

/-- Values that are no objects have the same outline. -/
theorem sameOutline_of_not_isObject (hv : v.isObject = false) (hw : w.isObject = false) :
    v.SameOutline w := by
  have hnone {x : Value} (hx : x.isObject = false) : x.members? = none := by
    cases x with
    | object members => cases hx
    | _ => rfl
  intro path
  cases path with
  | nil => exact congrArg some (hv.trans hw.symm)
  | cons key path => rw [at?, at?, hnone hv, hnone hw]

private theorem map_at?_members {members others : Members}
    (h : List.Forall₂ (fun m o ↦ m.1 = o.1 ∧ SameOutline m.2 o.2) members others) (key : Text)
    (path : List Text) :
    ((members.get? key).bind (at? path)).map isObject =
      ((others.get? key).bind (at? path)).map isObject := by
  induction h with
  | nil => rfl
  | @cons m o rest more hm _ ih =>
    obtain ⟨k, v⟩ := m
    obtain ⟨k', w⟩ := o
    obtain ⟨rfl, hv⟩ := hm
    rw [Members.get?_cons, Members.get?_cons]
    split
    · exact hv path
    · exact ih

/-- Arrays and objects have the same outline when what they have in them does. -/
theorem respects_sameOutline : Respects SameOutline where
  refl _ _ := rfl
  array _ _ _ := sameOutline_of_not_isObject rfl rfl
  object members others h path := by
    cases path with
    | nil => rfl
    | cons key path => exact map_at?_members h key path

/-- Where a number was written another number is read, if any. -/
theorem readsAs_sameOutline (k : Number) : ReadsAs True SameOutline k := by
  intro rest hr
  cases hread : readNumber (k.text ++ rest) with
  | error e => trivial
  | ok found =>
    exact ⟨sameOutline_of_not_isObject rfl rfl, rest_of_readNumber hr (isNumeral_text k) hread⟩

/-- Where a value that fits was written, a value with its outline is read. -/
theorem sameOutline_of_read (h : v.Fits depthLimit) (hr : read (v.pretty ++ ['\n']) = .ok w) :
    v.SameOutline w := by
  obtain ⟨rest, hread⟩ := exists_readValue_of_read hr
  exact ((gives_pretty respects_sameOutline h fun x _ ↦ readsAs_sameOutline _).of_ok hread).1

end Spruce.Json.Value
