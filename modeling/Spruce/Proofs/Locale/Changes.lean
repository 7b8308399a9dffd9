import Spruce.Proofs.Json.Leaves
import Spruce.Proofs.Locale.Sections

/-!
# When a merge changes something

A merge counts leaves, and has changed something exactly when the object has other leaves than
before (`changed_merge_iff_differs`). Whatever it counts makes the object another one, and where no
object in the patch is empty nothing else does. An empty object that the patch adds is not counted
(`merge_empty_object`), so it is lost where nothing is written for want of a change.
-/

namespace Spruce.Locale

open Json Value

variable {overwrite : Bool} {depth : Nat} {target patch : Members} {x w : Value}

/-! ### At one key -/

/-- The leaves below a key, from what the key holds. -/
abbrev leavesBelow (v : Option Value) (path : List Text) : Option Value :=
  v.bind (leaf? path)

/-- The leaves below a key are others than before. -/
def DiffersBelow (before after : Option Value) : Prop :=
  ∃ path, ¬ Option.Rel (fun a b ↦ a.same b = true) (leavesBelow before path)
    (leavesBelow after path)

private theorem differsBelow_none_iff (hw : w.Fits depth) :
    DiffersBelow none (some w) ↔ 0 < w.leaves := by
  rw [leaves_pos_iff hw]
  refine exists_congr fun path ↦ ?_
  change ¬ Option.Rel _ none (w.leaf? path) ↔ _
  cases w.leaf? path <;> simp

private theorem differsBelow_some_iff (v w : Value) :
    DiffersBelow (some v) (some w) ↔ ¬ v.SameLeaves w :=
  not_forall.symm

private theorem not_differsBelow_self {v : Option Value} (h : ∀ w ∈ v, w.Fits depth) :
    ¬ DiffersBelow v v := by
  rintro ⟨path, hpath⟩
  cases v with
  | none => exact hpath .none
  | some w => exact hpath (SameLeaves.refl (h w rfl) path)

/-- Two objects have the same leaves unless those below some key differ. -/
theorem not_sameLeaves_object_iff (before after : Members) :
    ¬ (Value.object before).SameLeaves (.object after) ↔
      ∃ k, DiffersBelow (before.get? k) (after.get? k) := by
  constructor
  · intro h
    obtain ⟨path, hpath⟩ := not_forall.mp h
    cases path with
    | nil =>
      rw [leaf?_nil_of_isObject rfl, leaf?_nil_of_isObject rfl] at hpath
      exact absurd .none hpath
    | cons k path =>
      rw [leaf?_cons_object, leaf?_cons_object] at hpath
      exact ⟨k, path, hpath⟩
  · rintro ⟨k, path, hpath⟩ h
    have hk := h (k :: path)
    rw [leaf?_cons_object, leaf?_cons_object] at hk
    exact hpath hk

/-! ### Values -/

private theorem not_sameLeaves_of_not_same (hnot : ¬ (x.isObject = true ∧ w.isObject = true))
    (h : ¬ x.same w = true) : ¬ x.SameLeaves w := by
  intro hs
  have hroot := hs []
  by_cases hx : x.isObject = true
  · have hw : ¬ w.isObject = true := fun hw ↦ hnot ⟨hx, hw⟩
    rw [leaf?_nil_of_isObject hx, leaf?_nil_of_not_isObject hw] at hroot
    cases hroot
  · rw [leaf?_nil_of_not_isObject hx] at hroot
    by_cases hw : w.isObject = true
    · rw [leaf?_nil_of_isObject hw] at hroot
      cases hroot
    · rw [leaf?_nil_of_not_isObject hw] at hroot
      cases hroot with
      | some hs => exact h hs

private theorem changed_settle_iff (hx : x.Fits depth)
    (hnot : ¬ (x.isObject = true ∧ w.isObject = true)) :
    (settle overwrite x w).2.changed = true ↔ ¬ x.SameLeaves (settle overwrite x w).1 := by
  rw [settle]
  split
  · exact iff_of_false Bool.false_ne_true (not_not_intro (.refl hx))
  · next hdiffer =>
    split
    · exact iff_of_true rfl (not_sameLeaves_of_not_same hnot hdiffer)
    · exact iff_of_false Bool.false_ne_true (not_not_intro (.refl hx))

/-- What a merge counts at a key are the leaves that it changes below that key. -/
theorem changed_mergeMember_iff {existing : Option Value} (hw : w.Fits depth)
    (h : ∀ x ∈ existing, ((mergeValue overwrite x w).2.changed = true ↔
      ¬ x.SameLeaves (mergeValue overwrite x w).1)) :
    (mergeMember overwrite existing w).2.changed = true ↔
      DiffersBelow existing (mergeAt overwrite existing (some w)) := by
  cases existing with
  | none =>
    rw [mergeAt, differsBelow_none_iff hw, mergeMember]
    simp [Stats.changed]
  | some x =>
    rw [mergeAt, differsBelow_some_iff, mergeMember]
    exact h x rfl

/-- A merge of objects counts a change exactly when the leaves below some key are others. -/
theorem changed_objects_iff (ht : (Value.object target).Fits (depth + 1))
    (hp : (Value.object patch).Fits (depth + 1))
    (h : ∀ k x w, target.get? k = some x → patch.get? k = some w →
      ((mergeValue overwrite x w).2.changed = true ↔
        ¬ x.SameLeaves (mergeValue overwrite x w).1)) :
    (merge overwrite target patch).2.changed = true ↔
      ¬ (Value.object target).SameLeaves (.object (merge overwrite target patch).1) := by
  rw [changed_merge_iff hp.nodup_keys, not_sameLeaves_object_iff]
  refine exists_congr fun k ↦ ?_
  rw [get?_merge overwrite hp.nodup_keys]
  cases hw : patch.get? k with
  | none =>
    rw [mergeAt_none]
    simp [not_differsBelow_self fun x hx ↦ ht.of_get? hx]
  | some w =>
    rw [← changed_mergeMember_iff (hp.of_get? hw) fun x hx ↦ h k x w hx hw]
    simp

/-- A merge counts a change exactly when it leaves other leaves than before. -/
theorem changed_mergeValue_iff (overwrite : Bool) (hx : x.Fits depth) (hw : w.Fits depth) :
    (mergeValue overwrite x w).2.changed = true ↔ ¬ x.SameLeaves (mergeValue overwrite x w).1 := by
  refine merge_induction (motive := fun x w ↦ (mergeValue overwrite x w).2.changed = true ↔
    ¬ x.SameLeaves (mergeValue overwrite x w).1) ?_ ?_ hx hw
  · intro depth target patch ht hp ih
    rw [mergeValue_objects]
    exact changed_objects_iff ht hp ih
  · intro depth x w hx _ hnot
    rw [mergeValue_settle overwrite hnot]
    exact changed_settle_iff hx hnot

/-! ### Merges that count no change -/

private theorem settle_of_unchanged (h : (settle overwrite x w).2.changed = false) :
    (settle overwrite x w).1 = x := by
  rw [settle] at h ⊢
  split
  · rfl
  · next hdiffer =>
    rw [if_neg hdiffer] at h
    split
    · next hover =>
      rw [if_pos hover] at h
      cases h
    · rfl

/-- A merge of objects that counts no change counts none at any key of the patch. -/
theorem unchanged_mergeMember (hp : (Value.object patch).Fits depth)
    (h : (mergeValue overwrite (.object target) (.object patch)).2.changed = false) {k : Text}
    (hw : patch.get? k = some w) :
    (mergeMember overwrite (target.get? k) w).2.changed = false := by
  rw [mergeValue_objects, ← Bool.not_eq_true, changed_merge_iff hp.nodup_keys] at h
  exact Bool.eq_false_iff.mpr fun hc ↦ h ⟨k, w, hw, hc⟩

private theorem leaves_of_unchanged (h : (mergeMember overwrite none w).2.changed = false) :
    ¬ 0 < w.leaves := by
  rw [mergeMember] at h
  simpa [Stats.changed] using h

/-- Where no object in a patch is empty, a merge that counts no change makes none. -/
theorem mergeValue_eq_of_unchanged (hx : x.Fits depth) (hw : w.Fits depth) (hf : w.Filled)
    (h : (mergeValue overwrite x w).2.changed = false) : (mergeValue overwrite x w).1 = x := by
  refine merge_induction (motive := fun x w ↦ w.Filled →
    (mergeValue overwrite x w).2.changed = false → (mergeValue overwrite x w).1 = x)
    ?_ ?_ hx hw hf h
  · intro depth target patch ht hp ih hf h
    have hmember {k w} := unchanged_mergeMember (k := k) (w := w) hp h
    rw [mergeValue_objects]
    refine congrArg Value.object ((merge_eq_self_iff ht.nodup_keys hp.nodup_keys).mpr ?_)
    intro k w hw
    have hfill : w.Filled := by
      cases hf with
      | leaf hleaf => cases hleaf
      | object _ hall => exact hall _ (Members.mem_of_get? hw)
    have hk := hmember hw
    cases hv : target.get? k with
    | none =>
      rw [hv] at hk
      exact absurd hfill.leaves_pos (leaves_of_unchanged hk)
    | some x =>
      rw [hv, mergeMember] at hk
      exact congrArg some (ih k x w hv hw hfill hk)
  · intro depth x w _ _ hnot _ h
    rw [mergeValue_settle overwrite hnot] at h ⊢
    exact settle_of_unchanged h

/-! ### Objects -/

/-- A merge counts a change exactly when it leaves the object with other leaves than before, and the
object is then another one. Where no object in the patch is empty, every change counts. -/
theorem changed_merge_iff_differs (overwrite : Bool) (ht : (Value.object target).Fits depth)
    (hp : (Value.object patch).Fits depth) :
    ((merge overwrite target patch).2.changed = true ↔
        ¬ (Value.object target).SameLeaves (.object (merge overwrite target patch).1)) ∧
      ((merge overwrite target patch).2.changed = true →
        (Value.object target).same (.object (merge overwrite target patch).1) = false) ∧
      ((∀ m ∈ patch, m.2.Filled) → ((merge overwrite target patch).2.changed = true ↔
        (Value.object target).same (.object (merge overwrite target patch).1) = false)) := by
  have hleaves := changed_mergeValue_iff overwrite ht hp
  rw [mergeValue_objects] at hleaves
  have hdiffers (hc : (merge overwrite target patch).2.changed = true) :
      (Value.object target).same (.object (merge overwrite target patch).1) = false := by
    refine Bool.eq_false_iff.mpr fun hs ↦ hleaves.mp hc ?_
    exact sameLeaves_of_same ht (fits_merge ht hp) hs
  refine ⟨hleaves, hdiffers, fun hf ↦ ⟨hdiffers, fun hs ↦ ?_⟩⟩
  by_contra hc
  have heq : (merge overwrite target patch).1 = target := by
    cases patch with
    | nil => rw [merge_nil]
    | cons m rest =>
      have hfilled : (Value.object (m :: rest)).Filled := .object (List.cons_ne_nil m rest) hf
      have hsame := mergeValue_eq_of_unchanged ht hp hfilled
        (by rw [mergeValue_objects]; exact Bool.eq_false_iff.mpr hc)
      rw [mergeValue_objects] at hsame
      exact Value.object.inj hsame
  rw [heq, same_refl ht] at hs
  cases hs

/-- A patch that replaces a value, adds one and leaves one. -/
theorem changed_merge_iff_differs_nested :
    let target : Members := [(['a'], .object [(['b'], .null)]), (['c'], .bool true)]
    let patch : Members := [(['a'], .object [(['b'], .bool false), (['d'], .array [])])]
    (Value.object target).Fits 3 ∧ (Value.object patch).Fits 3 ∧
      ((merge true target patch).2.changed = true ↔
        ¬ (Value.object target).SameLeaves (.object (merge true target patch).1)) ∧
      ((merge true target patch).2.changed = true →
        (Value.object target).same (.object (merge true target patch).1) = false) ∧
      ((∀ m ∈ patch, m.2.Filled) → ((merge true target patch).2.changed = true ↔
        (Value.object target).same (.object (merge true target patch).1) = false)) := by
  intro target patch
  have ht : (Value.object target).Fits 3 := by
    refine .object (by decide) fun m hm ↦ ?_
    rcases List.mem_cons.mp hm with rfl | hm
    · refine .object (by decide) fun m hm ↦ ?_
      obtain rfl := List.mem_singleton.mp hm
      exact .null _
    · obtain rfl := List.mem_singleton.mp hm
      exact .bool _ _
  have hp : (Value.object patch).Fits 3 := by
    refine .object (by decide) fun m hm ↦ ?_
    obtain rfl := List.mem_singleton.mp hm
    refine .object (by decide) fun m hm ↦ ?_
    rcases List.mem_cons.mp hm with rfl | hm
    · exact .bool _ _
    · obtain rfl := List.mem_singleton.mp hm
      exact .array (by simp)
  exact ⟨ht, hp, changed_merge_iff_differs true ht hp⟩

/-- An empty object that a patch adds is there after the merge, and no change is counted. -/
theorem merge_empty_object :
    let patch : Members := [(['a'], .object [])]
    merge false [] patch = (patch, .zero) ∧ Stats.zero.changed = false ∧
      (Value.object []).same (.object patch) = false := by
  intro patch
  refine ⟨?_, rfl, by simp [patch, same]⟩
  simp [patch, merge, mergeMembers, mergeMember, Members.put, leaves, memberLeaves, Stats.add,
    Stats.zero]

end Spruce.Locale
