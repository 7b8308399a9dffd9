import Spruce.Locale.Merge
import Spruce.Proofs.Json.Same

/-!
# What a merge gives

A merge is known key by key (`get?_merge`) and appends the keys that the target lacks
(`keys_merge`). It leaves the target as it is exactly when every value of the patch does so at its
key (`merge_eq_self_iff`), and it changed something exactly when one of them did
(`changed_merge_iff`). What is merged from values that can be read can be read (`fits_mergeValue`):
merging objects nests them no deeper than the deeper one.
-/

namespace Spruce.Locale

open Json

variable {overwrite : Bool} {depth : Nat} {target patch : Members} {x w : Value}

/-! ### Keys -/

/-- What a key holds after a merge, from what the target and the patch have for it. -/
def mergeAt (overwrite : Bool) : Option Value → Option Value → Option Value
  | existing, none => existing
  | none, some incoming => some incoming
  | some existing, some incoming => some (mergeValue overwrite existing incoming).1

/-- A key that the patch does not have keeps its value. -/
theorem mergeAt_none (overwrite : Bool) (existing : Option Value) :
    mergeAt overwrite existing none = existing := by
  cases existing <;> rfl

private theorem some_mergeMember (overwrite : Bool) (existing : Option Value) (incoming : Value) :
    some (mergeMember overwrite existing incoming).1 =
      mergeAt overwrite existing (some incoming) := by
  cases existing <;> rw [mergeMember, mergeAt]

/-- A merge is known key by key. -/
theorem get?_merge (overwrite : Bool) (hn : patch.keys.Nodup) (target : Members) (k : Text) :
    (merge overwrite target patch).1.get? k =
      mergeAt overwrite (target.get? k) (patch.get? k) := by
  unfold merge
  induction patch generalizing target with
  | nil =>
    rw [mergeMembers]
    rfl
  | cons m rest ih =>
    obtain ⟨key, incoming⟩ := m
    obtain ⟨hkey, hrest⟩ := List.nodup_cons.mp hn
    rw [mergeMembers, ih hrest, Members.get?_put, Members.get?_cons]
    by_cases hk : k = key
    · have hnone : Members.get? k rest = none := Members.get?_eq_none_iff.mpr (hk ▸ hkey)
      rw [if_pos hk, if_pos hk, hnone, ← hk]
      exact some_mergeMember overwrite _ incoming
    · rw [if_neg hk, if_neg hk]

/-- The keys of the target come first, and then those that only the patch has. -/
theorem keys_merge (hn : patch.keys.Nodup) (target : Members) :
    (merge overwrite target patch).1.keys =
      target.keys ++ patch.keys.filter (· ∉ target.keys) := by
  unfold merge
  induction patch generalizing target with
  | nil => simp [mergeMembers, Members.keys]
  | cons m rest ih =>
    obtain ⟨key, incoming⟩ := m
    obtain ⟨hkey, hrest⟩ := List.nodup_cons.mp hn
    have hcons : Members.keys ((key, incoming) :: rest) = key :: Members.keys rest := rfl
    rw [mergeMembers, ih hrest, Members.keys_put, hcons, List.filter_cons]
    by_cases hk : key ∈ target.keys
    · simp [hk]
    · have hlater : (Members.keys rest).filter (· ∉ target.keys ++ [key]) =
          (Members.keys rest).filter (· ∉ target.keys) := by
        refine List.filter_congr fun other ho ↦ ?_
        have hne : other ≠ key := by
          rintro rfl
          exact hkey ho
        simp [hne]
      rw [if_neg hk, if_pos (by simpa using hk), hlater, List.append_assoc]
      rfl

/-- A merged object has the keys of both sides. -/
theorem mem_keys_merge (hn : patch.keys.Nodup) {k : Text} :
    k ∈ (merge overwrite target patch).1.keys ↔ k ∈ target.keys ∨ k ∈ patch.keys := by
  rw [keys_merge hn, List.mem_append, List.mem_filter, decide_eq_true_eq]
  by_cases hk : k ∈ target.keys <;> simp [hk]

/-- Where the target has all keys of the patch, a merge adds none. -/
theorem keys_merge_of_subset (overwrite : Bool) (hn : patch.keys.Nodup)
    (h : patch.keys ⊆ target.keys) : (merge overwrite target patch).1.keys = target.keys := by
  rw [keys_merge hn, List.filter_eq_nil_iff.mpr fun k hk ↦ by simpa using h hk, List.append_nil]

/-- The target is left as it is exactly when every value of the patch leaves its key as it is. -/
theorem merge_eq_self_iff (ht : target.keys.Nodup) (hn : patch.keys.Nodup) :
    (merge overwrite target patch).1 = target ↔
      ∀ k w, patch.get? k = some w →
        mergeAt overwrite (target.get? k) (some w) = target.get? k := by
  constructor
  · intro h k w hw
    have hk := get?_merge overwrite hn target k
    rw [h, hw] at hk
    exact hk.symm
  · intro h
    have hsub : patch.keys ⊆ target.keys := by
      intro k hk
      obtain ⟨w, hw⟩ := Members.exists_get?_iff.mpr hk
      refine Members.exists_get?_iff.mp (Option.ne_none_iff_exists'.mp fun hnone ↦ ?_)
      have hk := h k w hw
      rw [hnone] at hk
      cases hk
    have hkeys := keys_merge_of_subset overwrite hn hsub
    refine Members.eq_of_get? hkeys (hkeys ▸ ht) fun k _ ↦ ?_
    rw [get?_merge _ hn]
    cases hw : patch.get? k with
    | none => exact mergeAt_none overwrite _
    | some w => exact h k w hw

/-- A merge keeps keys distinct. -/
theorem nodup_keys_merge (overwrite : Bool) (ht : target.keys.Nodup) (hn : patch.keys.Nodup) :
    (merge overwrite target patch).1.keys.Nodup := by
  rw [keys_merge hn]
  refine List.nodup_append.mpr ⟨ht, hn.filter _, fun k hk other ho ↦ ?_⟩
  rintro rfl
  exact absurd hk (by simpa using (List.mem_filter.mp ho).2)

/-- An empty patch changes nothing. -/
theorem merge_nil (overwrite : Bool) (target : Members) :
    merge overwrite target [] = (target, .zero) := by
  rw [merge, mergeMembers]

/-! ### Values -/

/-- Two objects are merged member by member. -/
theorem mergeValue_objects (overwrite : Bool) (target patch : Members) :
    mergeValue overwrite (.object target) (.object patch) =
      (.object (merge overwrite target patch).1, (merge overwrite target patch).2) := by
  rw [mergeValue, merge]

/-- Values that are not both objects are settled. -/
theorem mergeValue_settle (overwrite : Bool) (h : ¬ (x.isObject = true ∧ w.isObject = true)) :
    mergeValue overwrite x w = settle overwrite x w := by
  cases w with
  | object patch =>
    cases x with
    | object target => exact absurd ⟨rfl, rfl⟩ h
    | _ => rw [mergeValue]; exact fun _ hx ↦ Value.noConfusion hx
  | _ => rw [mergeValue]; exact fun _ hx ↦ Value.noConfusion hx

/-- What can be read is merged by one rule for objects and another one for the rest. -/
theorem merge_induction {motive : Value → Value → Prop}
    (objects : ∀ (depth : Nat) (target patch : Members), (Value.object target).Fits (depth + 1) →
      (Value.object patch).Fits (depth + 1) →
      (∀ k x w, target.get? k = some x → patch.get? k = some w → motive x w) →
      motive (.object target) (.object patch))
    (others : ∀ (depth : Nat) (x w : Value), x.Fits depth → w.Fits depth →
      ¬ (x.isObject = true ∧ w.isObject = true) → motive x w)
    (hx : x.Fits depth) (hw : w.Fits depth) : motive x w := by
  induction depth generalizing x w with
  | zero =>
    refine others 0 x w hx hw fun h ↦ ?_
    cases hx <;> cases h.1
  | succ depth ih =>
    by_cases h : x.isObject = true ∧ w.isObject = true
    · obtain ⟨target, rfl⟩ := Value.exists_of_isObject h.1
      obtain ⟨patch, rfl⟩ := Value.exists_of_isObject h.2
      exact objects depth target patch hx hw fun k y v hy hv ↦ ih (hx.of_get? hy) (hw.of_get? hv)
    · exact others _ x w hx hw h

/-- Settling gives one of the two values. -/
theorem settle_cases (overwrite : Bool) (x w : Value) :
    (settle overwrite x w).1 = x ∨ (settle overwrite x w).1 = w := by
  rw [settle]
  split
  · exact .inl rfl
  · split
    · exact .inr rfl
    · exact .inl rfl

/-- Merging nests values no deeper than either side does. -/
theorem fits_mergeValue (overwrite : Bool) (hx : x.Fits depth) (hw : w.Fits depth) :
    (mergeValue overwrite x w).1.Fits depth := by
  refine merge_induction
    (motive := fun x w ↦ ∀ d, x.Fits d → w.Fits d → (mergeValue overwrite x w).1.Fits d)
    ?_ ?_ hx hw depth hx hw
  · intro _ target patch ht hp ih d hx hw
    have hn := hp.nodup_keys
    rw [mergeValue_objects]
    obtain - | - | - | - | - | ⟨-, htarget⟩ := hx
    have hmerged := nodup_keys_merge overwrite ht.nodup_keys hn
    refine .object hmerged fun m hm ↦ ?_
    have hg := Members.get?_of_mem hmerged hm
    rw [get?_merge _ hn] at hg
    cases hp : patch.get? m.1 with
    | none =>
      rw [hp] at hg
      exact htarget _ (Members.mem_of_get? hg)
    | some v =>
      rw [hp] at hg
      have hv := hw.of_get? hp
      cases htk : target.get? m.1 with
      | none =>
        rw [htk] at hg
        exact Option.some.inj hg ▸ hv
      | some y =>
        rw [htk] at hg
        exact Option.some.inj hg ▸ ih _ y v htk hp _ (htarget _ (Members.mem_of_get? htk)) hv
  · intro _ x w _ _ h d hx hw
    rw [mergeValue_settle overwrite h]
    rcases settle_cases overwrite x w with he | he
    · rwa [he]
    · rwa [he]

/-- Merging a patch into an object nests it no deeper than either is nested. -/
theorem fits_merge (ht : (Value.object target).Fits depth) (hp : (Value.object patch).Fits depth) :
    (Value.object (merge overwrite target patch).1).Fits depth := by
  have h := fits_mergeValue overwrite ht hp
  rwa [mergeValue_objects] at h

/-! ### What is counted -/

/-- Two counts together report a change when one of them does. -/
theorem Stats.changed_add (s t : Stats) : (s.add t).changed = (s.changed || t.changed) := by
  rw [Bool.eq_iff_iff]
  simp only [Stats.changed, Stats.add, Bool.or_eq_true, decide_eq_true_eq,
    Nat.add_pos_iff_pos_or_pos]
  exact or_or_or_comm

/-- The counts of a merge are the sum of what is counted at the keys of the patch, each from what
the target has there. -/
theorem counts_merge (hn : patch.keys.Nodup) (target : Members) :
    (merge overwrite target patch).2 = patch.foldr
      (fun m s ↦ (mergeMember overwrite (target.get? m.1) m.2).2.add s) .zero := by
  unfold merge
  induction patch generalizing target with
  | nil =>
    rw [mergeMembers]
    rfl
  | cons m rest ih =>
    obtain ⟨key, incoming⟩ := m
    obtain ⟨hkey, hrest⟩ := List.nodup_cons.mp hn
    rw [mergeMembers, List.foldr_cons, ih hrest]
    refine congrArg (Stats.add _) (List.foldr_ext _ _ _ fun m hm s ↦ ?_)
    -- what was put before is at a key that does not come again
    have hne : m.1 ≠ key := by
      rintro rfl
      exact hkey (List.mem_map.mpr ⟨m, hm, rfl⟩)
    rw [Members.get?_put, if_neg hne]

/-- Something that is counted in a sum exactly if it is in one of the two is counted in a merge
exactly if it is at a key of the patch. -/
theorem counts_merge_iff (P : Stats → Prop) (hzero : ¬ P .zero)
    (hadd : ∀ s t, P (s.add t) ↔ P s ∨ P t) (hn : patch.keys.Nodup) (target : Members) :
    P (merge overwrite target patch).2 ↔
      ∃ k w, patch.get? k = some w ∧ P (mergeMember overwrite (target.get? k) w).2 := by
  have hmember : P (merge overwrite target patch).2 ↔
      ∃ m ∈ patch, P (mergeMember overwrite (target.get? m.1) m.2).2 := by
    rw [counts_merge hn]
    clear hn
    induction patch with
    | nil => simpa using hzero
    | cons m rest ih => rw [List.foldr_cons, hadd, ih, List.exists_mem_cons_iff]
  rw [hmember]
  constructor
  · rintro ⟨⟨k, w⟩, hm, h⟩
    exact ⟨k, w, Members.get?_of_mem hn hm, h⟩
  · rintro ⟨k, w, hw, h⟩
    exact ⟨(k, w), Members.mem_of_get? hw, h⟩

/-- A merge changed something exactly when a value of the patch changed something at its key. -/
theorem changed_merge_iff (hn : patch.keys.Nodup) (target : Members) :
    (merge overwrite target patch).2.changed = true ↔
      ∃ k w, patch.get? k = some w ∧
        (mergeMember overwrite (target.get? k) w).2.changed = true :=
  counts_merge_iff (fun s ↦ s.changed = true) (by decide)
    (fun s t ↦ by rw [Stats.changed_add, Bool.or_eq_true]) hn target

/-- A merge that gives what was there has changed nothing. -/
theorem changed_mergeValue_of_eq (overwrite : Bool) (hx : x.Fits depth) (hw : w.Fits depth)
    (h : (mergeValue overwrite x w).1 = x) : (mergeValue overwrite x w).2.changed = false := by
  refine merge_induction (motive := fun x w ↦ (mergeValue overwrite x w).1 = x →
    (mergeValue overwrite x w).2.changed = false) ?_ ?_ hx hw h
  · intro _ target patch ht hp ih h
    rw [mergeValue_objects] at h ⊢
    have hsame := (merge_eq_self_iff ht.nodup_keys hp.nodup_keys).mp (Value.object.inj h)
    rw [← Bool.not_eq_true, changed_merge_iff hp.nodup_keys]
    rintro ⟨k, w, hw, hc⟩
    have hk := hsame k w hw
    cases hv : target.get? k with
    | none =>
      rw [hv] at hk
      cases hk
    | some v =>
      rw [hv] at hk hc
      rw [mergeMember, ih k v w hv hw (Option.some.inj hk)] at hc
      cases hc
  · intro d x w hx _ hnot h
    rw [mergeValue_settle overwrite hnot] at h ⊢
    unfold settle at h ⊢
    split at h
    · next hs =>
      rw [if_pos hs]
      rfl
    · next hs =>
      rw [if_neg hs]
      split at h
      · have he : w = x := h
        exact absurd (Value.same_refl hx) (he ▸ hs)
      · next ho =>
        rw [if_neg ho]
        rfl

/-- A merge that leaves an object as it is has changed nothing. -/
theorem changed_merge_of_eq (ht : (Value.object target).Fits depth)
    (hp : (Value.object patch).Fits depth) (h : (merge overwrite target patch).1 = target) :
    (merge overwrite target patch).2.changed = false := by
  have hv := changed_mergeValue_of_eq overwrite ht hp
  rw [mergeValue_objects] at hv
  exact hv (congrArg Value.object h)

end Spruce.Locale
