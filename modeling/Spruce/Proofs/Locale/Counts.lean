import Spruce.Proofs.Locale.Idempotence

/-!
# What a merge counts

The counts of a merge are the sums over the keys of the patch, so a law that respects sums holds
for objects once it holds for what is at their keys (`counts_merge_of_members`). Merging a value
into itself counts nothing, and merging a patch once more counts only what is kept again
(`counts_mergeValue_again`). Without overwriting the leaves grow by the number of the added ones
(`accounts`), which holds step by step, whatever the keys are.
-/

namespace Spruce.Locale

open Json

variable {overwrite : Bool} {depth : Nat} {target other patch : Members} {x w : Value}

/-! ### Once more -/

/-- What is counted when the merge that counted `s` is made once more. -/
def Stats.again (overwrite : Bool) (s : Stats) : Stats := ⟨0, 0, if overwrite then 0 else s.kept⟩

private theorem Stats.again_zero (overwrite : Bool) : Stats.zero.again overwrite = .zero := by
  cases overwrite <;> rfl

private theorem Stats.again_add (overwrite : Bool) (s t : Stats) :
    (s.add t).again overwrite = (s.again overwrite).add (t.again overwrite) := by
  cases overwrite <;> rfl

/-- A law that respects sums gives the counts of one merge from those of another one once it does so
at every key of the patch. -/
theorem counts_merge_of_members (law : Stats → Stats) (hzero : law .zero = .zero)
    (hadd : ∀ s t, law (s.add t) = (law s).add (law t)) (hn : patch.keys.Nodup)
    (target other : Members) (h : ∀ k w, patch.get? k = some w →
      (mergeMember overwrite (other.get? k) w).2 =
        law (mergeMember overwrite (target.get? k) w).2) :
    (merge overwrite other patch).2 = law (merge overwrite target patch).2 := by
  rw [counts_merge hn, counts_merge hn]
  calc patch.foldr (fun m s ↦ (mergeMember overwrite (other.get? m.1) m.2).2.add s) .zero
    _ = patch.foldr (fun m s ↦ (law (mergeMember overwrite (target.get? m.1) m.2).2).add s)
        (law .zero) := by
      rw [hzero]
      refine List.foldr_ext _ _ _ fun m hm s ↦ ?_
      rw [h m.1 m.2 (Members.get?_of_mem hn hm)]
    _ = law (patch.foldr (fun m s ↦ (mergeMember overwrite (target.get? m.1) m.2).2.add s)
        .zero) := List.foldr_hom law fun _ _ ↦ (hadd _ _).symm

/-- Merging a value into itself counts nothing. -/
theorem counts_mergeValue_self (h : w.Fits depth) : (mergeValue overwrite w w).2 = .zero := by
  refine merge_induction (motive := fun x w ↦ x = w → (mergeValue overwrite x w).2 = .zero)
    ?_ ?_ h h rfl
  · rintro _ target _ ht - ih ⟨⟩
    rw [mergeValue_objects]
    refine counts_merge_of_members (fun _ ↦ .zero) rfl (fun _ _ ↦ rfl) ht.nodup_keys target target
      fun k w hw ↦ ?_
    rw [hw, mergeMember]
    exact ih k w w hw hw rfl
  · rintro d x _ hx - hnot ⟨⟩
    rw [mergeValue_settle overwrite hnot, settle, if_pos (Value.same_refl hx)]

/-- Merging a value once more counts only what is left again. -/
theorem counts_mergeValue_again (overwrite : Bool) (hx : x.Fits depth) (hw : w.Fits depth) :
    (mergeValue overwrite (mergeValue overwrite x w).1 w).2 =
      (mergeValue overwrite x w).2.again overwrite := by
  refine merge_induction (motive := fun x w ↦
    (mergeValue overwrite (mergeValue overwrite x w).1 w).2 =
      (mergeValue overwrite x w).2.again overwrite) ?_ ?_ hx hw
  · intro d target patch _ hp ih
    have hn := hp.nodup_keys
    rw [mergeValue_objects, mergeValue_objects]
    refine counts_merge_of_members (Stats.again overwrite) (Stats.again_zero overwrite)
      (Stats.again_add overwrite) hn target _ fun k w hw ↦ ?_
    rw [get?_merge _ hn, hw]
    cases hv : target.get? k with
    | none =>
      have hself : (mergeValue overwrite w w).2 = .zero := counts_mergeValue_self (hp.of_get? hw)
      rw [mergeAt, mergeMember, mergeMember, hself]
      cases overwrite <;> rfl
    | some v =>
      rw [mergeAt, mergeMember, mergeMember]
      exact ih k v w hv hw
  · intro d x w _ hw hnot
    by_cases hs : x.same w = true
    · have hfirst : mergeValue overwrite x w = (x, .zero) := by
        rw [mergeValue_settle overwrite hnot, settle, if_pos hs]
      simp only [hfirst, Stats.again_zero]
    · cases overwrite with
      | false =>
        have hfirst : mergeValue false x w = (x, ⟨0, 0, 1⟩) := by
          rw [mergeValue_settle false hnot, settle, if_neg hs, if_neg Bool.false_ne_true]
        simp only [hfirst]
        rfl
      | true =>
        have hfirst : mergeValue true x w = (w, ⟨0, 1, 0⟩) := by
          rw [mergeValue_settle true hnot, settle, if_neg hs, if_pos rfl]
        simp only [hfirst, counts_mergeValue_self hw]
        rfl

/-! ### Leaves -/

/-- The number of leaves at a key, of which there are none without a value. -/
def leavesAt (existing : Option Value) : Nat := existing.elim 0 Value.leaves

/-- Putting a value at a key trades the leaves there for those of the value. -/
theorem memberLeaves_put (key : Text) (v : Value) (members : Members) :
    Value.memberLeaves (members.put key v) + leavesAt (members.get? key) =
      Value.memberLeaves members + v.leaves := by
  induction members with
  | nil => simp [Members.put, Value.memberLeaves, leavesAt]
  | cons m rest ih =>
    obtain ⟨k, old⟩ := m
    rw [Members.put, Members.get?_cons]
    by_cases hk : k = key
    · rw [if_pos hk, if_pos hk.symm, Value.memberLeaves, Value.memberLeaves, leavesAt,
        Option.elim_some]
      omega
    · rw [if_neg hk, if_neg (Ne.symm hk), Value.memberLeaves, Value.memberLeaves]
      omega

/-- What was counted agrees with the number of leaves before and after: without overwriting the
leaves grow by the added ones and none is replaced, and with overwriting none is kept. -/
structure Stats.Accounts (overwrite : Bool) (before after : Nat) (s : Stats) : Prop where
  grown : overwrite = false → after = before + s.added
  untouched : overwrite = false → s.overwritten = 0
  prevailed : overwrite = true → s.kept = 0

namespace Stats.Accounts

variable {before between after : Nat} {s t : Stats}

/-- Where nothing is counted, the leaves stay as many. -/
theorem zero (leaves : Nat) : Accounts overwrite leaves leaves .zero :=
  ⟨fun _ ↦ rfl, fun _ ↦ rfl, fun _ ↦ rfl⟩

/-- Two counts in a row add up. -/
theorem add (hs : Accounts overwrite before between s) (ht : Accounts overwrite between after t) :
    Accounts overwrite before after (s.add t) where
  grown h := by rw [ht.grown h, hs.grown h, Stats.add, Nat.add_assoc]
  untouched h := by rw [Stats.add, hs.untouched h, ht.untouched h]
  prevailed h := by rw [Stats.add, hs.prevailed h, ht.prevailed h]

/-- What is counted at a key is counted for the object around it. -/
theorem put {target : Members} {key : Text} {v : Value}
    (h : Accounts overwrite (leavesAt (target.get? key)) v.leaves s) :
    Accounts overwrite (Value.memberLeaves target) (Value.memberLeaves (target.put key v)) s where
  grown hover := by
    have hgrown := h.grown hover
    have hput := memberLeaves_put key v target
    omega
  untouched := h.untouched
  prevailed := h.prevailed

/-- Settling two values counts what it does to the leaves. -/
theorem settle (overwrite : Bool) (x w : Value) :
    Accounts overwrite x.leaves (settle overwrite x w).1.leaves (settle overwrite x w).2 := by
  rw [Locale.settle]
  split
  · exact zero x.leaves
  · cases overwrite with
    | false => exact ⟨fun _ ↦ rfl, fun _ ↦ rfl, fun h ↦ absurd h Bool.false_ne_true⟩
    | true => exact ⟨fun h ↦ absurd h.symm Bool.false_ne_true,
        fun h ↦ absurd h.symm Bool.false_ne_true, fun _ ↦ rfl⟩

end Stats.Accounts

/-- Every part of a merge counts what it does to the leaves. -/
theorem accounts (overwrite : Bool) :
    (∀ x w, Stats.Accounts overwrite x.leaves (mergeValue overwrite x w).1.leaves
      (mergeValue overwrite x w).2) ∧
    (∀ target patch, Stats.Accounts overwrite (Value.memberLeaves target)
      (Value.memberLeaves (mergeMembers overwrite target patch).1)
      (mergeMembers overwrite target patch).2) ∧
    (∀ existing w, Stats.Accounts overwrite (leavesAt existing)
      (mergeMember overwrite existing w).1.leaves (mergeMember overwrite existing w).2) := by
  apply mergeValue.mutual_induct overwrite
  case case1 =>
    intro patch target _ _ _ ih
    rw [mergeValue_objects, Value.leaves, Value.leaves, merge]
    exact ih
  case case2 =>
    intro x patch hx
    have hnot : ¬ (x.isObject = true ∧ (Value.object patch).isObject = true) := by
      intro h
      obtain ⟨target, ht⟩ := Value.exists_of_isObject h.1
      exact hx target ht
    rw [mergeValue_settle overwrite hnot]
    exact .settle overwrite x _
  case case3 =>
    intro x w hw
    have hnot : ¬ (x.isObject = true ∧ w.isObject = true) := by
      intro h
      obtain ⟨patch, hp⟩ := Value.exists_of_isObject h.2
      exact hw patch hp
    rw [mergeValue_settle overwrite hnot]
    exact .settle overwrite x w
  case case4 =>
    intro target
    rw [mergeMembers]
    exact .zero _
  case case5 =>
    intro target key w rest step ihKey ihRest
    rw [mergeMembers]
    exact ihKey.put.add ihRest
  case case6 =>
    intro w
    rw [mergeMember]
    exact ⟨fun _ ↦ (Nat.zero_add _).symm, fun _ ↦ rfl, fun _ ↦ rfl⟩
  case case7 =>
    intro w x ih
    rw [mergeMember]
    exact ih

/-- A second merge of a patch changes nothing, and it counts nothing but what is kept again, with
overwriting not even that. Without overwriting the first merge replaces nothing and the leaves grow
by as many as it counts as added; with overwriting it keeps nothing. -/
theorem merge_settled (overwrite : Bool) (ht : (Value.object target).Fits depth)
    (hp : (Value.object patch).Fits depth) :
    let once := merge overwrite target patch
    let twice := merge overwrite once.1 patch
    twice.1 = once.1 ∧ twice.2 = ⟨0, 0, if overwrite then 0 else once.2.kept⟩ ∧
      (overwrite = false → once.2.overwritten = 0 ∧
        (Value.object once.1).leaves = (Value.object target).leaves + once.2.added) ∧
      (overwrite = true → once.2.kept = 0) := by
  intro once twice
  have hagain := mergeValue_again overwrite ht hp
  have hcounts := counts_mergeValue_again overwrite ht hp
  have haccounts := (accounts overwrite).1 (.object target) (.object patch)
  rw [mergeValue_objects, mergeValue_objects] at hagain hcounts
  rw [mergeValue_objects] at haccounts
  refine ⟨Value.object.inj hagain, hcounts, fun h ↦ ?_, haccounts.prevailed⟩
  exact ⟨haccounts.untouched h, haccounts.grown h⟩

/-- A patch with another value for a key within an object, with an object for a value that is none,
and with an object for a new key. -/
theorem merge_settled_conflict :
    let target : Members := [(['a'], .object [(['b'], .null), (['c'], .null)]), (['d'], .null)]
    let patch : Members := [(['a'], .object [(['c'], .bool false), (['b'], .null)]),
      (['d'], .object [(['b'], .null)]), (['e'], .object [(['b'], .array [])])]
    (Value.object target).Fits 3 ∧ (Value.object patch).Fits 3 ∧
      (merge false target patch).2 = ⟨1, 0, 2⟩ ∧ (merge true target patch).2 = ⟨1, 2, 0⟩ ∧
      ∀ overwrite,
        let once := merge overwrite target patch
        let twice := merge overwrite once.1 patch
        twice.1 = once.1 ∧ twice.2 = ⟨0, 0, if overwrite then 0 else once.2.kept⟩ ∧
          (overwrite = false → once.2.overwritten = 0 ∧
            (Value.object once.1).leaves = (Value.object target).leaves + once.2.added) ∧
          (overwrite = true → once.2.kept = 0) := by
  intro target patch
  have ht : (Value.object target).Fits 3 := by
    refine .object (by decide) (List.forall_mem_cons.mpr ⟨.object (by decide) ?_, ?_⟩)
    · exact List.forall_mem_cons.mpr ⟨.null _, List.forall_mem_singleton.mpr (.null _)⟩
    · exact List.forall_mem_singleton.mpr (.null _)
  have hp : (Value.object patch).Fits 3 := by
    refine .object (by decide) (List.forall_mem_cons.mpr ⟨.object (by decide) ?_,
      List.forall_mem_cons.mpr ⟨.object (by decide) ?_, List.forall_mem_singleton.mpr
        (.object (by decide) ?_)⟩⟩)
    · exact List.forall_mem_cons.mpr ⟨.bool _ _, List.forall_mem_singleton.mpr (.null _)⟩
    · exact List.forall_mem_singleton.mpr (.null _)
    · exact List.forall_mem_singleton.mpr (.array (List.forall_mem_nil _))
  have hcounts (overwrite : Bool) : (merge overwrite target patch).2 =
      ⟨1, if overwrite then 2 else 0, if overwrite then 0 else 2⟩ := by
    cases overwrite <;>
      simp [target, patch, merge, mergeMembers, mergeMember, mergeValue, settle, Members.get?_cons,
        Members.put, Value.same, Value.leaves, Value.memberLeaves, Stats.add, Stats.zero]
  exact ⟨ht, hp, hcounts false, hcounts true, fun overwrite ↦ merge_settled overwrite ht hp⟩

end Spruce.Locale
