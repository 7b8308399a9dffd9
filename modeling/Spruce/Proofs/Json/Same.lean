import Mathlib.Data.List.Perm.Subperm
import Spruce.Proofs.Json.Fits

/-!
# Values that are the same

Among values that can be read, being the same is reflexive (`same_refl`) and symmetric
(`same_symm`). Objects have distinct keys there, so that equally many members on both sides and a
counterpart for each one on the left leave no member on the right without one.
-/

namespace Spruce.Json.Value

variable {depth : Nat} {v a b : Value} {as bs : Members}

/-- An object has members. -/
theorem exists_of_isObject (h : v.isObject = true) :
    ∃ members : Members, v = .object members := by
  cases v with
  | object members => exact ⟨members, rfl⟩
  | _ => cases h

/-- No object is the same as a value of another kind. -/
theorem isObject_eq_of_same (h : a.same b = true) : a.isObject = b.isObject := by
  cases a <;> cases b <;> first | rfl | cases h

/-- The left members are the same as right ones when each of them is found there. -/
theorem sameMembers_iff : sameMembers as bs = true ↔
    ∀ m ∈ as, ∃ w, bs.get? m.1 = some w ∧ m.2.same w = true := by
  induction as with
  | nil => simp [sameMembers]
  | cons m rest ih =>
    obtain ⟨key, v⟩ := m
    rw [sameMembers, List.forall_mem_cons]
    cases hg : bs.get? key with
    | none => simp
    | some w => simp [ih]

private theorem sameItems_refl {items : List Value} (h : ∀ v ∈ items, v.same v = true) :
    sameItems items items = true := by
  induction items with
  | nil => rfl
  | cons v rest ih =>
    rw [sameItems, h v List.mem_cons_self, Bool.true_and]
    exact ih fun w hw ↦ h w (List.mem_cons_of_mem v hw)

/-- Every value that can be read is the same as itself. -/
theorem same_refl (h : v.Fits depth) : v.same v = true := by
  induction h with
  | null depth => rfl
  | bool depth b => simp [same]
  | @number depth n hn =>
    cases n with
    | whole n => simp [same, Number.same]
    | double x => simp [same, Number.same, Double.same]
  | string depth t => simp [same]
  | array _ ih =>
    rw [same]
    exact sameItems_refl ih
  | @object depth members hk _ ih =>
    rw [same, decide_eq_true rfl, Bool.true_and, sameMembers_iff]
    exact fun m hm ↦ ⟨m.2, Members.get?_of_mem hk hm, ih m hm⟩

private theorem keys_subset (hn : as.keys.Nodup) (hl : as.length = bs.length)
    (h : ∀ m ∈ as, ∃ w, bs.get? m.1 = some w ∧ m.2.same w = true) : bs.keys ⊆ as.keys := by
  have hsub : as.keys ⊆ bs.keys := by
    intro key hkey
    obtain ⟨m, hm, rfl⟩ := List.mem_map.mp hkey
    obtain ⟨w, hw, -⟩ := h m hm
    exact Members.exists_get?_iff.mp ⟨w, hw⟩
  have hlen : bs.keys.length ≤ as.keys.length := by simp [Members.keys, hl]
  exact ((hn.subperm hsub).perm_of_length_le hlen).symm.subset

private theorem sameItems_symm {as bs : List Value}
    (ih : ∀ v ∈ as, ∀ w ∈ bs, v.same w = true → w.same v = true)
    (h : sameItems as bs = true) : sameItems bs as = true := by
  induction as generalizing bs with
  | nil =>
    cases bs with
    | nil => rfl
    | cons w bs => cases h
  | cons v as iha =>
    cases bs with
    | nil => cases h
    | cons w bs =>
      rw [sameItems, Bool.and_eq_true] at h ⊢
      refine ⟨ih v List.mem_cons_self w List.mem_cons_self h.1, iha ?_ h.2⟩
      exact fun x hx y hy ↦ ih x (List.mem_cons_of_mem v hx) y (List.mem_cons_of_mem w hy)

private theorem number_same_symm {n k : Number} (h : n.same k = true) : k.same n = true := by
  cases n with
  | whole i =>
    cases k with
    | whole j =>
      simp only [Number.same, decide_eq_true_eq] at h ⊢
      exact h.symm
    | double y => cases h
  | double x =>
    cases k with
    | whole j => cases h
    | double y =>
      simp only [Number.same, Double.same, Bool.and_eq_true, Bool.or_eq_true,
        decide_eq_true_eq] at h ⊢
      obtain ⟨hu, hs⟩ := h
      exact ⟨hu.symm, hs.imp Eq.symm hu.symm.trans⟩

/-- Of values that can be read, one is the same as another if this is the same as it. -/
theorem same_symm (ha : a.Fits depth) (hb : b.Fits depth) (h : a.same b = true) :
    b.same a = true := by
  induction ha generalizing b with
  | null depth => cases b <;> first | rfl | cases h
  | bool depth x =>
    cases b with
    | bool y =>
      simp only [same, decide_eq_true_eq] at h ⊢
      exact h.symm
    | _ => cases h
  | @number depth n _ =>
    cases b with
    | number k =>
      rw [same] at h ⊢
      exact number_same_symm h
    | _ => cases h
  | string depth t =>
    cases b with
    | string s =>
      simp only [same, decide_eq_true_eq] at h ⊢
      exact h.symm
    | _ => cases h
  | @array depth items hi ih =>
    cases hb with
    | @array _ others ho =>
      rw [same] at h ⊢
      exact sameItems_symm (fun v hv w hw ↦ ih v hv (ho w hw)) h
    | _ => cases h
  | @object depth members hk _ ih =>
    cases hb with
    | @object _ others ho hm =>
      rw [same, Bool.and_eq_true, decide_eq_true_eq, sameMembers_iff] at h ⊢
      obtain ⟨hl, hall⟩ := h
      refine ⟨hl.symm, fun m hmem ↦ ?_⟩
      have hkey : m.1 ∈ members.keys := keys_subset hk hl hall (List.mem_map_of_mem hmem)
      obtain ⟨v, hv⟩ := Members.exists_get?_iff.mpr hkey
      have hmv := Members.mem_of_get? hv
      obtain ⟨w, hw, hs⟩ := hall _ hmv
      have hwm : w = m.2 := Option.some.inj (hw.symm.trans (Members.get?_of_mem ho hmem))
      exact ⟨v, hv, ih _ hmv (hm m hmem) (hwm ▸ hs)⟩
    | _ => cases h

end Spruce.Json.Value
