import Mathlib.Data.List.Infix
import Spruce.Proofs.Json.Same

/-!
# Leaves of values

A path of keys leads through objects to a value, and to a leaf if that value is not an object. A
value has leaves exactly when some path leads to one (`leaves_pos_iff`). Values that are the same
have the same leaves (`sameLeaves_of_same`); the converse fails, as an object without leaves adds
nothing to those of the object around it.
-/

namespace Spruce.Json.Value

variable {depth : Nat} {v w : Value} {key : Text} {path : List Text} {members others : Members}

/-! ### Paths -/

/-- The value that a path of keys leads to. -/
def at? : List Text → Value → Option Value
  | [], v => some v
  | key :: path, v => (v.members?.bind (Members.get? key)).bind (at? path)

/-- The value that a path of keys leads to, if it is not an object. -/
def leaf? (path : List Text) (v : Value) : Option Value := (v.at? path).filter (!·.isObject)

/-- A path leads nowhere in a value, and what it fails at is an object that lacks its next key. -/
def Lacks (v : Value) (path : List Text) : Prop :=
  v.at? path = none ∧ ∀ above, above <+: path → v.leaf? above = none

instance (v : Value) (path : List Text) : Decidable (v.Lacks path) :=
  decidable_of_iff ((v.at? path).isNone = true ∧
    ∀ above ∈ path.inits, (v.leaf? above).isNone = true) (by simp [Lacks])

/-- A path into an object goes on from the value of its first key. -/
theorem at?_cons_object (key : Text) (path : List Text) (members : Members) :
    (Value.object members).at? (key :: path) = (members.get? key).bind (at? path) := rfl

/-- Only objects lead on. -/
theorem exists_of_at?_cons (h : v.at? (key :: path) = some w) :
    ∃ (members : Members) (x : Value), v = .object members ∧ members.get? key = some x ∧
      x.at? path = some w := by
  cases v with
  | object members =>
    rw [at?_cons_object, Option.bind_eq_some_iff] at h
    obtain ⟨x, hx, h⟩ := h
    exact ⟨members, x, rfl, hx, h⟩
  | _ => cases h

/-- What a path leads to can be read if the whole value can. -/
theorem Fits.of_at? (h : v.Fits depth) (hat : v.at? path = some w) : ∃ below, w.Fits below := by
  induction path generalizing depth v with
  | nil => exact ⟨depth, Option.some.inj hat ▸ h⟩
  | cons key path ih =>
    obtain ⟨members, x, rfl, hx, hw⟩ := exists_of_at?_cons hat
    cases h with
    | object _ hm => exact ih (hm _ (Members.mem_of_get? hx)) hw

/-- A leaf is a value at a path that is no object. -/
theorem leaf?_eq_some_iff : v.leaf? path = some w ↔ v.at? path = some w ∧ w.isObject = false := by
  rw [leaf?, Option.filter_eq_some_iff, Bool.not_eq_true']

/-- An object is no leaf itself. -/
theorem leaf?_nil_of_isObject (h : v.isObject = true) : v.leaf? [] = none := by
  simp [leaf?, at?, h]

/-- What is no object is a leaf itself. -/
theorem leaf?_nil_of_not_isObject (h : ¬ v.isObject = true) : v.leaf? [] = some v := by
  simp [leaf?, at?, h]

/-- The leaves of an object are those of the values of its keys. -/
theorem leaf?_cons_object (key : Text) (path : List Text) (members : Members) :
    (Value.object members).leaf? (key :: path) = (members.get? key).bind (leaf? path) := by
  rw [leaf?, at?, members?, Option.bind_some]
  cases members.get? key <;> rfl

private theorem leaf?_cons_of_not_isObject (h : ¬ v.isObject = true) (key : Text)
    (path : List Text) : v.leaf? (key :: path) = none := by
  have hm : v.members? = none := by
    cases v with
    | object members => exact absurd rfl h
    | _ => rfl
  simp [leaf?, at?, hm]

/-- What lacks a path is an object, and lacks the rest of the path below its first key. -/
theorem Lacks.exists_object (h : v.Lacks (key :: path)) :
    ∃ members : Members, v = .object members ∧
      ∀ x, members.get? key = some x → x.Lacks path := by
  obtain ⟨hnone, habove⟩ := h
  have hobject : v.isObject = true := by
    by_contra hv
    have hroot := habove [] (List.nil_prefix)
    rw [leaf?_nil_of_not_isObject hv] at hroot
    cases hroot
  obtain ⟨members, rfl⟩ := exists_of_isObject hobject
  refine ⟨members, rfl, fun x hx ↦ ⟨?_, fun above ha ↦ ?_⟩⟩
  · rwa [at?_cons_object, hx] at hnone
  · have hbelow := habove (key :: above) (List.cons_prefix_cons.mpr ⟨rfl, ha⟩)
    rwa [leaf?_cons_object, hx] at hbelow

/-! ### Counting leaves -/

private theorem memberLeaves_pos_iff (members : Members) :
    0 < memberLeaves members ↔ ∃ m ∈ members, 0 < m.2.leaves := by
  induction members with
  | nil => simp [memberLeaves]
  | cons m rest ih =>
    obtain ⟨key, v⟩ := m
    rw [memberLeaves, Nat.add_pos_iff_pos_or_pos, ih, List.exists_mem_cons_iff]

private theorem leaves_of_not_isObject (h : ¬ v.isObject = true) : v.leaves = 1 := by
  cases v with
  | object members => exact absurd rfl h
  | _ => rfl

/-- A value has leaves exactly when some path leads to one. -/
theorem leaves_pos_iff (h : v.Fits depth) : 0 < v.leaves ↔ ∃ path, v.leaf? path ≠ none := by
  have scalar {v : Value} (hv : ¬ v.isObject = true) :
      0 < v.leaves ↔ ∃ path, v.leaf? path ≠ none := by
    have hleaf : ∃ path, v.leaf? path ≠ none := ⟨[], by simp [leaf?_nil_of_not_isObject hv]⟩
    simp [leaves_of_not_isObject hv, hleaf]
  induction h with
  | @object depth members hk _ ih =>
    rw [leaves, memberLeaves_pos_iff]
    constructor
    · rintro ⟨m, hm, hpos⟩
      obtain ⟨path, hpath⟩ := (ih m hm).mp hpos
      refine ⟨m.1 :: path, ?_⟩
      rw [leaf?_cons_object, Members.get?_of_mem hk hm]
      exact hpath
    · rintro ⟨path, hpath⟩
      cases path with
      | nil => exact absurd (leaf?_nil_of_isObject rfl) hpath
      | cons key path =>
        rw [leaf?_cons_object] at hpath
        cases hg : members.get? key with
        | none => simp [hg] at hpath
        | some v =>
          have hm := Members.mem_of_get? hg
          rw [hg] at hpath
          exact ⟨(key, v), hm, (ih _ hm).mpr ⟨path, hpath⟩⟩
  | _ => exact scalar Bool.false_ne_true

/-! ### Values with the same leaves -/

/-- Every path leads to a leaf in both values or in neither, and the two leaves are the same. -/
def SameLeaves (v w : Value) : Prop :=
  ∀ path, Option.Rel (fun a b ↦ a.same b = true) (v.leaf? path) (w.leaf? path)

private theorem rel_of_same_scalar (hv : ¬ v.isObject = true) (h : v.same w = true)
    (path : List Text) :
    Option.Rel (fun a b ↦ a.same b = true) (v.leaf? path) (w.leaf? path) := by
  have hw : ¬ w.isObject = true := by rwa [← isObject_eq_of_same h]
  cases path with
  | nil =>
    rw [leaf?_nil_of_not_isObject hv, leaf?_nil_of_not_isObject hw]
    exact .some h
  | cons key path =>
    rw [leaf?_cons_of_not_isObject hv, leaf?_cons_of_not_isObject hw]
    exact .none

/-- A key that one of two objects that are the same has is a key of the other one. -/
theorem get?_eq_none_of_same (hv : (Value.object members).Fits depth)
    (hw : (Value.object others).Fits depth)
    (h : (Value.object members).same (.object others) = true)
    (hg : members.get? key = none) : others.get? key = none := by
  have hs := same_symm hv hw h
  rw [same, Bool.and_eq_true, sameMembers_iff] at hs
  cases ho : others.get? key with
  | none => rfl
  | some w =>
    obtain ⟨v, hv, -⟩ := hs.2 _ (Members.mem_of_get? ho)
    rw [hg] at hv
    cases hv

/-- Values that are the same have the same leaves. -/
theorem sameLeaves_of_same (hv : v.Fits depth) (hw : w.Fits depth) (h : v.same w = true) :
    v.SameLeaves w := by
  intro path
  induction path generalizing depth v w with
  | nil =>
    by_cases ho : v.isObject = true
    · have ho' : w.isObject = true := by rwa [← isObject_eq_of_same h]
      rw [leaf?_nil_of_isObject ho, leaf?_nil_of_isObject ho']
      exact .none
    · exact rel_of_same_scalar ho h []
  | cons key path ih =>
    by_cases ho : v.isObject = true
    · obtain ⟨members, rfl⟩ := exists_of_isObject ho
      obtain ⟨others, rfl⟩ := exists_of_isObject ((isObject_eq_of_same h).symm.trans ho)
      rw [leaf?_cons_object, leaf?_cons_object]
      cases hg : members.get? key with
      | none =>
        rw [get?_eq_none_of_same hv hw h hg]
        exact .none
      | some a =>
        have hs := h
        rw [same, Bool.and_eq_true, sameMembers_iff] at hs
        obtain ⟨b, hb, hab⟩ := hs.2 _ (Members.mem_of_get? hg)
        rw [hb]
        cases hv with
        | object _ hm =>
          exact ih (hm _ (Members.mem_of_get? hg)) (hw.of_get? hb) hab
    · exact rel_of_same_scalar ho h (key :: path)

/-- A value has the same leaves as itself. -/
theorem SameLeaves.refl (h : v.Fits depth) : v.SameLeaves v :=
  sameLeaves_of_same h h (same_refl h)

/-! ### Values without empty objects -/

/-- No object in the value is empty, those in arrays aside. -/
inductive Filled : Value → Prop
  | leaf {v : Value} (h : v.isObject = false) : Filled v
  | object {members : Members} (nonempty : members ≠ []) (h : ∀ m ∈ members, Filled m.2) :
    Filled (.object members)

/-- A value without empty objects has a leaf. -/
theorem Filled.leaves_pos (h : v.Filled) : 0 < v.leaves := by
  induction h with
  | leaf h => simp [leaves_of_not_isObject (Bool.eq_false_iff.mp h)]
  | @object members hne _ ih =>
    obtain ⟨m, hm⟩ := List.exists_mem_of_ne_nil members hne
    rw [leaves, memberLeaves_pos_iff]
    exact ⟨m, hm, ih m hm⟩

end Spruce.Json.Value
