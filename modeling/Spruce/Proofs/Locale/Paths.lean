import Spruce.Proofs.Json.Leaves
import Spruce.Proofs.Locale.Idempotence

/-!
# What a merge gives along a path

A path of keys is followed through the target and the patch at once. As long as both lead to
objects the merge does, too, and leads to these two merged (`at?_mergeValue_objects`); from where
one of them lacks a key on, it leads where the other one does (`at?_mergeValue_of_lacks_left`,
`at?_mergeValue_of_lacks_right`). So a merge that does not overwrite extends the target
(`merge_extends`), and of one that does the patch is the part that counts and the target fills the
rest (`merge_prevails`).
-/

namespace Spruce.Locale

open Json Value

variable {overwrite : Bool} {depth : Nat} {path : List Text} {x w u v : Value}
  {target patch old added : Members}

/-! ### Along a path -/

/-- Below its first key, a merge of objects is what becomes of that key. -/
theorem at?_mergeValue_cons (overwrite : Bool) (hn : patch.keys.Nodup)
    (target : Members) (k : Text) (path : List Text) :
    (mergeValue overwrite (.object target) (.object patch)).1.at? (k :: path) =
      (mergeAt overwrite (target.get? k) (patch.get? k)).bind (at? path) := by
  rw [mergeValue_objects, at?_cons_object, get?_merge overwrite hn]

/-- Where both sides lead to objects, the merge leads to these two merged. -/
theorem at?_mergeValue_objects (overwrite : Bool) (hw : w.Fits depth)
    (hold : x.at? path = some (.object old)) (hadded : w.at? path = some (.object added)) :
    (mergeValue overwrite x w).1.at? path = some (.object (merge overwrite old added).1) ∧
      added.keys.Nodup := by
  induction path generalizing depth x w with
  | nil =>
    obtain rfl := Option.some.inj hold
    obtain rfl := Option.some.inj hadded
    exact ⟨by rw [mergeValue_objects]; rfl, hw.nodup_keys⟩
  | cons k path ih =>
    obtain ⟨target, y, rfl, hy, hold⟩ := exists_of_at?_cons hold
    obtain ⟨patch, z, rfl, hz, hadded⟩ := exists_of_at?_cons hadded
    rw [at?_mergeValue_cons overwrite hw.nodup_keys, hy, hz]
    cases hw with
    | object _ hm => exact ih (hm _ (Members.mem_of_get? hz)) hold hadded

/-- Where the target lacks a path of the patch, the merge leads where the patch does. -/
theorem at?_mergeValue_of_lacks_left (overwrite : Bool) (hw : w.Fits depth) (hx : x.Lacks path)
    (h : w.at? path = some u) : (mergeValue overwrite x w).1.at? path = some u := by
  induction path generalizing depth x w with
  | nil => cases hx.1
  | cons k path ih =>
    obtain ⟨target, rfl, hbelow⟩ := hx.exists_object
    obtain ⟨patch, z, rfl, hz, hu⟩ := exists_of_at?_cons h
    rw [at?_mergeValue_cons overwrite hw.nodup_keys, hz]
    cases hy : target.get? k with
    | none => exact hu
    | some y =>
      cases hw with
      | object _ hm => exact ih (hm _ (Members.mem_of_get? hz)) (hbelow y hy) hu

/-- Where the patch lacks a path of the target, the merge leads where the target does. -/
theorem at?_mergeValue_of_lacks_right (overwrite : Bool) (hw : w.Fits depth) (hl : w.Lacks path)
    (h : x.at? path = some v) : (mergeValue overwrite x w).1.at? path = some v := by
  induction path generalizing depth x w with
  | nil => cases hl.1
  | cons k path ih =>
    obtain ⟨patch, rfl, hbelow⟩ := hl.exists_object
    obtain ⟨target, y, rfl, hy, hv⟩ := exists_of_at?_cons h
    rw [at?_mergeValue_cons overwrite hw.nodup_keys, hy]
    cases hz : patch.get? k with
    | none => exact hv
    | some z =>
      cases hw with
      | object _ hm => exact ih (hm _ (Members.mem_of_get? hz)) (hbelow z hz) hv

/-! ### Without overwriting -/

/-- Without overwriting, what a path of the target leads to stays, unless it is an object and the
patch has one there, too. -/
theorem at?_mergeValue_keep (hw : w.Fits depth) (h : x.at? path = some v)
    (hnot : ∀ added, ¬ (v.isObject = true ∧ w.at? path = some (.object added))) :
    (mergeValue false x w).1.at? path = some v := by
  induction path generalizing depth x w with
  | nil =>
    obtain rfl := Option.some.inj h
    refine congrArg some (mergeValue_keep fun hboth ↦ ?_)
    obtain ⟨added, rfl⟩ := exists_of_isObject hboth.2
    exact hnot added ⟨hboth.1, rfl⟩
  | cons k path ih =>
    by_cases hobject : w.isObject = true
    · obtain ⟨patch, rfl⟩ := exists_of_isObject hobject
      obtain ⟨target, y, rfl, hy, hv⟩ := exists_of_at?_cons h
      rw [at?_mergeValue_cons false hw.nodup_keys, hy]
      cases hz : patch.get? k with
      | none => exact hv
      | some z =>
        rw [at?_cons_object, hz] at hnot
        cases hw with
        | object _ hm => exact ih (hm _ (Members.mem_of_get? hz)) hv hnot
    · rw [mergeValue_keep (hobject ·.2), h]

/-- The members of the object that a path leads to; none, where it leads to no object. -/
def membersAt (path : List Text) (v : Value) : Members := ((v.at? path).bind members?).getD []

/-- Without overwriting, an object of the target keeps its keys in order, and those that only the
patch has at the same path follow. -/
theorem exists_keys_keep (hw : w.Fits depth) (h : x.at? path = some (.object old)) :
    ∃ new : Members, (mergeValue false x w).1.at? path = some (.object new) ∧
      new.keys = old.keys ++ (membersAt path w).keys.filter (· ∉ old.keys) := by
  by_cases hobject : ∃ added : Members, w.at? path = some (.object added)
  · obtain ⟨added, hadded⟩ := hobject
    obtain ⟨hmerged, hn⟩ := at?_mergeValue_objects false hw h hadded
    refine ⟨_, hmerged, ?_⟩
    rw [keys_merge hn, membersAt, hadded]
    rfl
  · have hnone : membersAt path w = [] := by
      unfold membersAt
      cases hat : w.at? path with
      | none => rfl
      | some z =>
        cases z with
        | object added => exact absurd ⟨added, hat⟩ hobject
        | _ => rfl
    refine ⟨old, at?_mergeValue_keep hw h fun added hb ↦ hobject ⟨added, hb.2⟩, ?_⟩
    rw [hnone]
    exact (List.append_nil _).symm

/-- A merge that does not overwrite extends the target. Every value that is no object stays where it
was; every object stays one, with its keys in order before those that only the patch has there; and
what the target lacks is what the patch has. -/
theorem merge_extends (target : Members) (hp : (Value.object patch).Fits depth) :
    let merged : Value := .object (merge false target patch).1
    (∀ path v, (Value.object target).leaf? path = some v → merged.at? path = some v) ∧
      (∀ (path : List Text) (old : Members), (Value.object target).at? path = some (.object old) →
        ∃ new : Members, merged.at? path = some (.object new) ∧
          new.keys = old.keys ++ (membersAt path (.object patch)).keys.filter (· ∉ old.keys)) ∧
      ∀ path u, (Value.object patch).at? path = some u → (Value.object target).Lacks path →
        merged.at? path = some u := by
  intro merged
  have hmerged : merged = (mergeValue false (.object target) (.object patch)).1 := by
    rw [mergeValue_objects]
  rw [hmerged]
  refine ⟨fun path v hv ↦ ?_, fun path old hold ↦ exists_keys_keep hp hold,
    fun path u hu hl ↦ at?_mergeValue_of_lacks_left false hp hl hu⟩
  obtain ⟨hat, hleaf⟩ := leaf?_eq_some_iff.mp hv
  exact at?_mergeValue_keep hp hat fun added hb ↦ by simp [hleaf] at hb

private theorem fits_nested : (Value.object
    [(['a'], .object [(['b'], .bool false), (['d'], .array [])])]).Fits 3 := by
  refine .object (by decide) fun m hm ↦ ?_
  obtain rfl := List.mem_singleton.mp hm
  refine .object (by decide) fun m hm ↦ ?_
  rcases List.mem_cons.mp hm with rfl | hm
  · exact .bool _ _
  · obtain rfl := List.mem_singleton.mp hm
    exact .array (by simp)

/-- A patch with another value for a key, and a key that is new. -/
theorem merge_extends_nested :
    let target : Members := [(['a'], .object [(['c'], .null), (['b'], .null)])]
    let patch : Members := [(['a'], .object [(['b'], .bool false), (['d'], .array [])])]
    let merged : Value := .object (merge false target patch).1
    (Value.object patch).Fits 3 ∧ (Value.object target).Lacks [['a'], ['d']] ∧
      merged.at? [['a'], ['b']] = some .null ∧
      (∃ new : Members, merged.at? [['a']] = some (.object new) ∧
        new.keys = [['c'], ['b'], ['d']]) ∧
      merged.at? [['a'], ['d']] = some (.array []) := by
  intro target patch merged
  obtain ⟨leaves, objects, added⟩ := merge_extends target fits_nested
  have hl : (Value.object target).Lacks [['a'], ['d']] := by decide
  exact ⟨fits_nested, hl, leaves _ _ rfl, objects [['a']] [(['c'], .null), (['b'], .null)] rfl,
    added _ _ rfl hl⟩

/-! ### With overwriting -/

/-- With overwriting, a path that leads to a value in the patch that is no object leads to the same
value after the merge. -/
theorem exists_same_mergeValue (hw : w.Fits depth) (h : w.leaf? path = some u) :
    ∃ v, (mergeValue true x w).1.at? path = some v ∧ v.same u = true := by
  obtain ⟨hat, hleaf⟩ := leaf?_eq_some_iff.mp h
  clear h
  have hself : u.same u = true := by
    obtain ⟨below, hu⟩ := hw.of_at? hat
    exact same_refl hu
  induction path generalizing depth x w with
  | nil =>
    obtain rfl := Option.some.inj hat
    refine ⟨_, rfl, ?_⟩
    rw [mergeValue_settle true (by simp [hleaf]), settle]
    split
    · assumption
    · exact hself
  | cons k path ih =>
    by_cases hobject : x.isObject = true
    · obtain ⟨target, rfl⟩ := exists_of_isObject hobject
      obtain ⟨patch, z, rfl, hz, hu⟩ := exists_of_at?_cons hat
      rw [at?_mergeValue_cons true hw.nodup_keys, hz]
      cases hy : target.get? k with
      | none => exact ⟨u, hu, hself⟩
      | some y =>
        cases hw with
        | object _ hm => exact ih (hm _ (Members.mem_of_get? hz)) hu
    · have hw : w.isObject = true := by
        obtain ⟨patch, _, rfl, -⟩ := exists_of_at?_cons hat
        rfl
      rw [mergeValue_replace (by simp [hobject, hw])]
      exact ⟨u, hat, hself⟩

/-- Of a merge that overwrites, the patch is the part that counts. Every value of the patch that is
no object has its like at the same path; what the patch lacks, and no such value of it stands above,
is as it was; and an object on both sides keeps its keys in order before those that only the patch
has there. -/
theorem merge_prevails (target : Members) (hp : (Value.object patch).Fits depth) :
    let merged : Value := .object (merge true target patch).1
    (∀ path u, (Value.object patch).leaf? path = some u →
        ∃ v, merged.at? path = some v ∧ v.same u = true) ∧
      (∀ path v, (Value.object target).leaf? path = some v → (Value.object patch).Lacks path →
        merged.at? path = some v) ∧
      ∀ (path : List Text) (old added : Members),
        (Value.object target).at? path = some (.object old) →
        (Value.object patch).at? path = some (.object added) →
        ∃ new : Members, merged.at? path = some (.object new) ∧
          new.keys = old.keys ++ added.keys.filter (· ∉ old.keys) := by
  intro merged
  have hmerged : merged = (mergeValue true (.object target) (.object patch)).1 := by
    rw [mergeValue_objects]
  rw [hmerged]
  refine ⟨fun path u hu ↦ exists_same_mergeValue hp hu, fun path v hv hl ↦ ?_,
    fun path old added hold hadded ↦ ?_⟩
  · exact at?_mergeValue_of_lacks_right true hp hl (leaf?_eq_some_iff.mp hv).1
  · obtain ⟨hnew, hn⟩ := at?_mergeValue_objects true hp hold hadded
    exact ⟨_, hnew, keys_merge hn old⟩

/-- A patch with another value for a key, no value for a second one, and a key that is new. -/
theorem merge_prevails_nested :
    let target : Members := [(['a'], .object [(['c'], .null), (['b'], .null)])]
    let patch : Members := [(['a'], .object [(['b'], .bool false), (['d'], .array [])])]
    let merged : Value := .object (merge true target patch).1
    (Value.object patch).Fits 3 ∧ (Value.object patch).Lacks [['a'], ['c']] ∧
      (∃ v, merged.at? [['a'], ['b']] = some v ∧ v.same (.bool false) = true) ∧
      merged.at? [['a'], ['c']] = some .null ∧
      ∃ new : Members, merged.at? [['a']] = some (.object new) ∧
        new.keys = [['c'], ['b'], ['d']] := by
  intro target patch merged
  obtain ⟨leaves, others, objects⟩ := merge_prevails target fits_nested
  have hl : (Value.object patch).Lacks [['a'], ['c']] := by decide
  exact ⟨fits_nested, hl, leaves _ _ rfl, others _ _ rfl hl,
    objects [['a']] [(['c'], .null), (['b'], .null)]
      [(['b'], .bool false), (['d'], .array [])] rfl rfl⟩

end Spruce.Locale
