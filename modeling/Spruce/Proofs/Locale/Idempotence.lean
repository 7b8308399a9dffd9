import Spruce.Proofs.Locale.Merge

/-!
# Merging again

Merging a patch once more changes nothing (`mergeValue_again`), and neither does merging two
patches in turn once more (`mergeTwo_mergeTwo`), although each of the two may undo what the other
one did: the second run passes through other values and ends where the first one did. Where two
patches in turn give back what was there, the first one has changed nothing or counted a
replacement (`mergeValue_eq_of_restored`).
-/

namespace Spruce.Locale

open Json

variable {overwrite : Bool} {depth : Nat} {x s o w : Value}

/-! ### One patch -/

/-- Without overwriting, a value stays unless both sides are objects. -/
theorem mergeValue_keep (h : ¬ (x.isObject = true ∧ w.isObject = true)) :
    (mergeValue false x w).1 = x := by
  rw [mergeValue_settle false h, settle]
  split <;> rfl

/-- With overwriting, an object gives way to another value, and another value to an object. -/
theorem mergeValue_replace (h : x.isObject ≠ w.isObject) : (mergeValue true x w).1 = w := by
  have hboth : ¬ (x.isObject = true ∧ w.isObject = true) := fun hb ↦ h (hb.1.trans hb.2.symm)
  rw [mergeValue_settle true hboth, settle, if_neg fun hs ↦ h (Value.isObject_eq_of_same hs),
    if_pos rfl]

/-- With overwriting, what was merged decides whether there is an object. -/
theorem isObject_mergeValue (x w : Value) : (mergeValue true x w).1.isObject = w.isObject := by
  by_cases h : x.isObject = w.isObject
  · by_cases hboth : x.isObject = true ∧ w.isObject = true
    · obtain ⟨target, rfl⟩ := Value.exists_of_isObject hboth.1
      obtain ⟨patch, rfl⟩ := Value.exists_of_isObject hboth.2
      rw [mergeValue_objects]
      rfl
    · rw [mergeValue_settle true hboth]
      rcases settle_cases true x w with he | he
      · rw [he, h]
      · rw [he]
  · rw [mergeValue_replace h]

/-- Merging a value into itself changes nothing. -/
theorem mergeValue_self (h : w.Fits depth) : (mergeValue overwrite w w).1 = w := by
  refine merge_induction (motive := fun x w ↦ x = w → (mergeValue overwrite x w).1 = x)
    ?_ ?_ h h rfl
  · rintro _ target _ ht - ih ⟨⟩
    rw [mergeValue_objects]
    refine congrArg Value.object ((merge_eq_self_iff ht.nodup_keys ht.nodup_keys).mpr ?_)
    intro k w hw
    rw [hw]
    exact congrArg some (ih k w w hw hw rfl)
  · rintro d x _ hx - hnot ⟨⟩
    rw [mergeValue_settle overwrite hnot, settle, if_pos (Value.same_refl hx)]

/-- Merging a value once more changes nothing. -/
theorem mergeValue_again (overwrite : Bool) (hx : x.Fits depth) (hw : w.Fits depth) :
    (mergeValue overwrite (mergeValue overwrite x w).1 w).1 = (mergeValue overwrite x w).1 := by
  refine merge_induction (motive := fun x w ↦
    (mergeValue overwrite (mergeValue overwrite x w).1 w).1 = (mergeValue overwrite x w).1)
    ?_ ?_ hx hw
  · intro d target patch ht hp ih
    have hn := hp.nodup_keys
    rw [mergeValue_objects, mergeValue_objects]
    refine congrArg Value.object
      ((merge_eq_self_iff (nodup_keys_merge _ ht.nodup_keys hn) hn).mpr ?_)
    intro k w hw
    rw [get?_merge _ hn, hw]
    cases hv : target.get? k with
    | none => exact congrArg some (mergeValue_self (hp.of_get? hw))
    | some v => exact congrArg some (ih k v w hv hw)
  · intro d x w hx hw hnot
    rcases settle_cases overwrite x w with he | he
    · rw [← mergeValue_settle overwrite hnot] at he
      rw [he, he]
    · rw [← mergeValue_settle overwrite hnot] at he
      rw [he, mergeValue_self hw]

/-! ### Two patches in turn -/

/-- What a value becomes under two patches in turn. -/
def mergeTwo (overwrite : Bool) (x s o : Value) : Value :=
  (mergeValue overwrite (mergeValue overwrite x s).1 o).1

/-- What two patches in turn settle at every key of objects within a depth is settled at the keys
that not all sides have, too. -/
theorem mergeAt_mergeAt {t s o : Option Value}
    (ht : ∀ v ∈ t, v.Fits depth) (hs : ∀ v ∈ s, v.Fits depth) (ho : ∀ v ∈ o, v.Fits depth)
    (ih : ∀ x s o : Value, x.Fits depth → s.Fits depth → o.Fits depth →
      mergeTwo overwrite (mergeTwo overwrite x s o) s o = mergeTwo overwrite x s o) :
    mergeAt overwrite (mergeAt overwrite (mergeAt overwrite (mergeAt overwrite t s) o) s) o =
      mergeAt overwrite (mergeAt overwrite t s) o := by
  have once (w : Value) (hw : w.Fits depth) : mergeAt overwrite (mergeAt overwrite t (some w))
      (some w) = mergeAt overwrite t (some w) := by
    cases t with
    | none => exact congrArg some (mergeValue_self hw)
    | some x => exact congrArg some (mergeValue_again _ (ht x rfl) hw)
  cases s with
  | none =>
    rw [mergeAt_none, mergeAt_none]
    cases o with
    | none => rw [mergeAt_none, mergeAt_none]
    | some o => exact once o (ho o rfl)
  | some s =>
    have hfit := hs s rfl
    cases o with
    | none =>
      rw [mergeAt_none, mergeAt_none]
      exact once s hfit
    | some o =>
      cases t with
      | none =>
        -- A key that the target lacks holds what it would, had the target the first patch there.
        have h := ih s s o hfit hfit (ho o rfl)
        unfold mergeTwo at h
        rw [mergeValue_self hfit] at h
        exact congrArg some h
      | some x => exact congrArg some (ih x s o (ht x rfl) hfit (ho o rfl))

private theorem mergeTwo_objects {target first second : Members}
    (ht : (Value.object target).Fits (depth + 1)) (hs : (Value.object first).Fits (depth + 1))
    (ho : (Value.object second).Fits (depth + 1))
    (ih : ∀ x s o : Value, x.Fits depth → s.Fits depth → o.Fits depth →
      mergeTwo overwrite (mergeTwo overwrite x s o) s o = mergeTwo overwrite x s o) :
    mergeTwo overwrite (mergeTwo overwrite (.object target) (.object first) (.object second))
        (.object first) (.object second) =
      mergeTwo overwrite (.object target) (.object first) (.object second) := by
  have hns := hs.nodup_keys
  have hno := ho.nodup_keys
  unfold mergeTwo
  simp only [mergeValue_objects]
  have hkeys (t : Members) : first.keys ⊆ t.keys → second.keys ⊆ t.keys →
      (merge overwrite (merge overwrite t first).1 second).1.keys = t.keys := by
    intro hfirst hsecond
    have h := keys_merge_of_subset overwrite hns hfirst
    rw [keys_merge_of_subset _ hno (h ▸ hsecond), h]
  have hk := hkeys (merge overwrite (merge overwrite target first).1 second).1
    (fun _ h ↦ (mem_keys_merge hno).mpr (.inl ((mem_keys_merge hns).mpr (.inr h))))
    (fun _ h ↦ (mem_keys_merge hno).mpr (.inr h))
  have hnodup := nodup_keys_merge overwrite
    (nodup_keys_merge overwrite ht.nodup_keys hns) hno
  refine congrArg Value.object (Members.eq_of_get? hk (hk ▸ hnodup) fun k _ ↦ ?_)
  simp only [get?_merge _ hns, get?_merge _ hno]
  exact mergeAt_mergeAt (fun _ h ↦ ht.of_get? h) (fun _ h ↦ hs.of_get? h)
    (fun _ h ↦ ho.of_get? h) ih

/-- With overwriting, the values of two patches that are not objects settle each other. -/
theorem mergeTwo_replaced (hx : x.Fits depth) (hs : s.Fits depth) (ho : o.Fits depth)
    (hsnot : ¬ s.isObject = true) (honot : ¬ o.isObject = true) :
    mergeTwo true (mergeTwo true x s o) s o = mergeTwo true x s o := by
  have replace (z : Value) : (mergeValue true z o).1 = if z.same o = true then z else o := by
    rw [mergeValue_settle true (honot ·.2), settle]
    split <;> rfl
  have hagain := mergeValue_again true hx hs
  unfold mergeTwo
  generalize (mergeValue true x s).1 = z at hagain ⊢
  rw [replace z]
  split
  · next hz => rw [hagain, replace, if_pos hz]
  · -- The second value prevails, and it does so over the first one, too.
    by_cases hsame : o.same s = true
    · have hkept : (mergeValue true o s).1 = o := by
        rw [mergeValue_settle true (hsnot ·.2), settle, if_pos hsame]
      rw [hkept, mergeValue_self ho]
    · have hgone : (mergeValue true o s).1 = s := by
        rw [mergeValue_settle true (hsnot ·.2), settle, if_neg hsame, if_pos rfl]
      rw [hgone, replace, if_neg fun h ↦ hsame (Value.same_symm hs ho h)]

/-- Only where all three values are objects is there anything to show within them. -/
theorem mergeTwo_of_objects (hx : x.Fits depth) (hs : s.Fits depth) (ho : o.Fits depth)
    (objects : ∀ y : Value, y.Fits depth → y.isObject = true → s.isObject = true →
      o.isObject = true → mergeTwo overwrite (mergeTwo overwrite y s o) s o =
        mergeTwo overwrite y s o) :
    mergeTwo overwrite (mergeTwo overwrite x s o) s o = mergeTwo overwrite x s o := by
  by_cases hsobj : s.isObject = true
  · by_cases hoobj : o.isObject = true
    · by_cases hxobj : x.isObject = true
      · exact objects x hx hxobj hsobj hoobj
      · cases overwrite with
        | false =>
          have keep (w : Value) : (mergeValue false x w).1 = x := mergeValue_keep (hxobj ·.1)
          simp only [mergeTwo, keep]
        | true =>
          have h := objects s hs hsobj hsobj hoobj
          have hreplace : (mergeValue true x s).1 = s :=
            mergeValue_replace (by simp [hxobj, hsobj])
          unfold mergeTwo at h ⊢
          rw [mergeValue_self hs] at h
          rw [hreplace, h]
    · cases overwrite with
      | false =>
        have keep (z : Value) : (mergeValue false z o).1 = z := mergeValue_keep (hoobj ·.2)
        simp only [mergeTwo, keep]
        exact mergeValue_again _ hx hs
      | true =>
        have replace (z : Value) : (mergeValue true (mergeValue true z s).1 o).1 = o :=
          mergeValue_replace (by simp [isObject_mergeValue, hsobj, hoobj])
        simp only [mergeTwo, replace]
  · by_cases hoobj : o.isObject = true
    · cases overwrite with
      | false =>
        have keep (z : Value) : (mergeValue false z s).1 = z := mergeValue_keep (hsobj ·.2)
        simp only [mergeTwo, keep]
        exact mergeValue_again _ hx ho
      | true =>
        have replace (z : Value) : (mergeValue true (mergeValue true z s).1 o).1 = o :=
          mergeValue_replace (by simp [isObject_mergeValue, hsobj, hoobj])
        simp only [mergeTwo, replace]
    · cases overwrite with
      | false =>
        have keepFirst (z : Value) : (mergeValue false z s).1 = z := mergeValue_keep (hsobj ·.2)
        have keepSecond (z : Value) : (mergeValue false z o).1 = z := mergeValue_keep (hoobj ·.2)
        simp only [mergeTwo, keepFirst, keepSecond]
      | true => exact mergeTwo_replaced hx hs ho hsobj hoobj

/-- Two patches in turn settle a value, and merging both once more changes nothing. -/
theorem mergeTwo_mergeTwo (hx : x.Fits depth) (hs : s.Fits depth) (ho : o.Fits depth) :
    mergeTwo overwrite (mergeTwo overwrite x s o) s o = mergeTwo overwrite x s o := by
  induction depth generalizing x s o with
  | zero =>
    refine mergeTwo_of_objects hx hs ho fun y hy hobj _ _ ↦ ?_
    cases hy <;> cases hobj
  | succ depth ih =>
    refine mergeTwo_of_objects hx hs ho fun y hy hyobj hsobj hoobj ↦ ?_
    obtain ⟨target, rfl⟩ := Value.exists_of_isObject hyobj
    obtain ⟨first, rfl⟩ := Value.exists_of_isObject hsobj
    obtain ⟨second, rfl⟩ := Value.exists_of_isObject hoobj
    exact mergeTwo_objects hy hs ho fun _ _ _ hx hs ho ↦ ih hx hs ho

/-! ### Two patches that give back what was there -/

/-- Where a second patch gives back what was there, a first one changed nothing unless it
replaced something. -/
theorem mergeValue_eq_of_restored (overwrite : Bool) (hx : x.Fits depth) (hs : s.Fits depth)
    (ho : o.Fits depth)
    (hc : overwrite = true → (mergeValue overwrite x s).2.changed = false)
    (h : mergeTwo overwrite x s o = x) : (mergeValue overwrite x s).1 = x := by
  refine merge_induction (motive := fun x s ↦ ∀ (d : Nat) (o : Value), o.Fits d →
    (overwrite = true → (mergeValue overwrite x s).2.changed = false) →
    mergeTwo overwrite x s o = x → (mergeValue overwrite x s).1 = x) ?_ ?_ hx hs depth o ho hc h
  · intro _ target first ht hs ih d o ho hc h
    have hns := hs.nodup_keys
    by_cases hobj : o.isObject = true
    · obtain ⟨second, rfl⟩ := Value.exists_of_isObject hobj
      have hno := ho.nodup_keys
      unfold mergeTwo at h
      rw [mergeValue_objects] at hc h ⊢
      rw [mergeValue_objects] at h
      refine congrArg Value.object ((merge_eq_self_iff ht.nodup_keys hns).mpr fun k w hw ↦ ?_)
      have hk := congrArg (Members.get? k) (Value.object.inj h)
      rw [get?_merge _ hno, get?_merge _ hns, hw] at hk
      cases hv : target.get? k with
      | none =>
        rw [hv] at hk
        cases hu : second.get? k <;> rw [hu] at hk <;> cases hk
      | some v =>
        have hcount (hover : overwrite = true) :
            (mergeValue overwrite v w).2.changed = false := by
          have hnone := hc hover
          rw [← Bool.not_eq_true, changed_merge_iff hns] at hnone
          rw [← Bool.not_eq_true]
          intro hchanged
          refine hnone ⟨k, w, hw, ?_⟩
          rwa [hv, mergeMember]
        refine congrArg some ?_
        rw [hv] at hk
        cases hu : second.get? k with
        | none =>
          rw [hu, mergeAt_none] at hk
          exact Option.some.inj hk
        | some u =>
          rw [hu] at hk
          obtain - | - | - | - | - | ⟨-, hsecond⟩ := ho
          exact ih k v w hv hw _ u (hsecond _ (Members.mem_of_get? hu)) hcount
            (Option.some.inj hk)
    · cases overwrite with
      | false =>
        rw [mergeTwo, mergeValue_keep (hobj ·.2)] at h
        exact h
      | true =>
        have hgone : mergeTwo true (.object target) (.object first) o = o :=
          mergeValue_replace (by rw [isObject_mergeValue]; exact fun he ↦ hobj he.symm)
        rw [hgone] at h
        exact absurd (h ▸ rfl) hobj
  · intro _ x s _ _ hnot d o ho hc h
    rw [mergeValue_settle overwrite hnot] at hc ⊢
    unfold settle at hc ⊢
    split
    · rfl
    · next hdiffer =>
      split
      · next hover =>
        have hnone := hc hover
        rw [if_neg hdiffer, if_pos hover] at hnone
        cases hnone
      · rfl

/-- Where a second patch gives back an object, a first one left it as it was unless it replaced
something. -/
theorem merge_eq_of_restored {target first second : Members}
    (ht : (Value.object target).Fits depth) (hs : (Value.object first).Fits depth)
    (ho : (Value.object second).Fits depth)
    (hc : overwrite = true → (merge overwrite target first).2.changed = false)
    (h : (merge overwrite (merge overwrite target first).1 second).1 = target) :
    (merge overwrite target first).1 = target := by
  have hv := mergeValue_eq_of_restored overwrite ht hs ho
  rw [mergeTwo, mergeValue_objects, mergeValue_objects] at hv
  exact Value.object.inj (hv hc (congrArg Value.object h))

end Spruce.Locale
