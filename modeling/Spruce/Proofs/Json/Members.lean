import Spruce.Json.Basic
import Spruce.Json.Reader

/-!
# Members of objects

The members of an object are looked up by key. `put` is seen at its own key and nowhere else
(`get?_put`) and adds a key at the end or none (`keys_put`). Members with distinct keys are known
from the order of their keys and from what is looked up (`eq_of_get?`); those that a reader collects
have distinct keys (`nodup_keys_collectMembers`).
-/

namespace Spruce.Json.Members

variable {members others : Members} {key k : Text} {v w : Value}

/-! ### Looking up -/

/-- Nothing is found where there are no members. -/
@[simp]
theorem get?_nil (k : Text) : get? k [] = none := by
  rw [get?, List.lookup_nil]

/-- The first member is found at its key, and others are looked for behind it. -/
theorem get?_cons (key k : Text) (v : Value) (rest : Members) :
    get? k ((key, v) :: rest) = if k = key then some v else rest.get? k := by
  rw [get?, List.lookup_cons]
  by_cases h : k = key
  · simp [h]
  · have hb : (k == key) = false := by simpa using h
    rw [hb, if_neg h]
    rfl

/-- What is looked up is a member. -/
theorem mem_of_get? (h : members.get? k = some v) : (k, v) ∈ members := by
  obtain ⟨before, after, rfl, -⟩ := List.lookup_eq_some_iff.mp h
  exact List.mem_append_right before List.mem_cons_self

/-- Nothing is found exactly when no member has the key. -/
theorem get?_eq_none_iff : members.get? k = none ↔ k ∉ members.keys := by
  induction members with
  | nil => simp [keys]
  | cons m rest ih =>
    obtain ⟨key, v⟩ := m
    rw [get?_cons]
    by_cases h : k = key
    · simp [h, keys]
    · simpa [h, keys] using ih

/-- Something is found exactly when a member has the key. -/
theorem exists_get?_iff : (∃ v, members.get? k = some v) ↔ k ∈ members.keys := by
  rw [← Option.isSome_iff_exists, ← Option.ne_none_iff_isSome, ne_eq, get?_eq_none_iff,
    Decidable.not_not]

/-- Where keys are distinct, every member is the one that is looked up. -/
theorem get?_of_mem (hn : members.keys.Nodup) (h : (k, v) ∈ members) :
    members.get? k = some v := by
  induction members with
  | nil => cases h
  | cons m rest ih =>
    obtain ⟨key, old⟩ := m
    obtain ⟨hk, hr⟩ := List.nodup_cons.mp hn
    rw [get?_cons]
    rcases List.mem_cons.mp h with he | hm
    · obtain ⟨rfl, rfl⟩ := Prod.mk.inj he
      rw [if_pos rfl]
    · have hne : k ≠ key := by
        rintro rfl
        exact hk (List.mem_map.mpr ⟨_, hm, rfl⟩)
      rw [if_neg hne, ih hr hm]

/-- Members with distinct keys are known from the order of their keys and from what is looked
up. -/
theorem eq_of_get? (hk : members.keys = others.keys) (hn : members.keys.Nodup)
    (h : ∀ k ∈ members.keys, members.get? k = others.get? k) : members = others := by
  induction members generalizing others with
  | nil =>
    cases others with
    | nil => rfl
    | cons m rest => cases hk
  | cons m rest ih =>
    cases others with
    | nil => cases hk
    | cons m' rest' =>
      obtain ⟨key, v⟩ := m
      obtain ⟨key', v'⟩ := m'
      obtain ⟨rfl, hrest⟩ := List.cons.inj hk
      obtain ⟨hnot, hnodup⟩ := List.nodup_cons.mp hn
      have hv : some v = some v' := by
        have := h key List.mem_cons_self
        rwa [get?_cons, get?_cons, if_pos rfl, if_pos rfl] at this
      have hothers : rest = rest' := by
        refine ih hrest hnodup fun k hm ↦ ?_
        have hne : k ≠ key := by
          rintro rfl
          exact hnot hm
        have := h k (List.mem_cons_of_mem key hm)
        rwa [get?_cons, get?_cons, if_neg hne, if_neg hne] at this
      rw [Option.some.inj hv, hothers]

/-! ### Putting -/

/-- A value is seen at the key where it was put, and the others are as before. -/
theorem get?_put (key k : Text) (v : Value) (members : Members) :
    (members.put key v).get? k = if k = key then some v else members.get? k := by
  induction members with
  | nil => rw [put, get?_cons]
  | cons m rest ih =>
    obtain ⟨other, old⟩ := m
    rw [put]
    by_cases ho : other = key
    · subst ho
      rw [if_pos rfl, get?_cons, get?_cons]
      by_cases hk : k = other <;> simp [hk]
    · rw [if_neg ho, get?_cons, get?_cons, ih]
      by_cases hk : k = other
      · subst hk
        simp [ho]
      · simp [hk]

/-- A key that is there keeps its place, and another one comes last. -/
theorem keys_put (key : Text) (v : Value) (members : Members) :
    (members.put key v).keys =
      if key ∈ members.keys then members.keys else members.keys ++ [key] := by
  induction members with
  | nil => simp [put, keys]
  | cons m rest ih =>
    obtain ⟨other, old⟩ := m
    rw [put]
    by_cases ho : other = key
    · simp [ho, keys]
    · rw [if_neg ho]
      have hcons (w : Value) (l : Members) : keys ((other, w) :: l) = other :: keys l := rfl
      rw [hcons, hcons, ih]
      by_cases hk : key ∈ keys rest <;> simp [hk, Ne.symm ho]

/-- Putting keeps keys distinct. -/
theorem nodup_keys_put (hn : members.keys.Nodup) (key : Text) (v : Value) :
    (members.put key v).keys.Nodup := by
  rw [keys_put]
  split
  · exact hn
  · next hk =>
    refine List.nodup_append.mpr ⟨hn, by simp, fun other ho last hl ↦ ?_⟩
    rw [List.mem_singleton.mp hl]
    rintro rfl
    exact hk ho

/-- What is put, and what was there, is all there is. -/
theorem mem_of_mem_put {m : Text × Value} (h : m ∈ members.put key v) :
    m.2 = v ∨ m ∈ members := by
  induction members with
  | nil =>
    rw [put, List.mem_singleton] at h
    exact .inl (congrArg Prod.snd h)
  | cons other rest ih =>
    rw [put] at h
    split at h
    · rcases List.mem_cons.mp h with rfl | hm
      · exact .inl rfl
      · exact .inr (List.mem_cons_of_mem _ hm)
    · rcases List.mem_cons.mp h with rfl | hm
      · exact .inr List.mem_cons_self
      · exact (ih hm).imp id (List.mem_cons_of_mem _)

/-! ### Collecting -/

private theorem nodup_keys_foldl_put (written : List (Text × Value)) (hn : members.keys.Nodup) :
    (written.foldl (fun members m ↦ members.put m.1 m.2) members).keys.Nodup := by
  induction written generalizing members with
  | nil => exact hn
  | cons m rest ih => exact ih (nodup_keys_put hn m.1 m.2)

/-- Members that are collected have distinct keys. -/
theorem nodup_keys_collectMembers (written : List (Text × Value)) :
    (collectMembers written).keys.Nodup :=
  nodup_keys_foldl_put written List.nodup_nil

private theorem snd_of_mem_foldl_put {P : Value → Prop} (written : List (Text × Value))
    (hw : ∀ m ∈ written, P m.2) (hm : ∀ m ∈ members, P m.2) :
    ∀ m ∈ written.foldl (fun members m ↦ members.put m.1 m.2) members, P m.2 := by
  induction written generalizing members with
  | nil => exact hm
  | cons first rest ih =>
    refine ih (fun m hr ↦ hw m (List.mem_cons_of_mem first hr)) fun m hp ↦ ?_
    rcases mem_of_mem_put hp with he | ho
    · exact he ▸ hw first List.mem_cons_self
    · exact hm m ho

/-- What holds of every written value holds of every collected one. -/
theorem snd_of_mem_collectMembers {P : Value → Prop} {written : List (Text × Value)}
    (h : ∀ m ∈ written, P m.2) : ∀ m ∈ collectMembers written, P m.2 :=
  snd_of_mem_foldl_put written h fun _ hm ↦ absurd hm List.not_mem_nil

private theorem put_append (hk : key ∉ members.keys) :
    members.put key v = members ++ [(key, v)] := by
  induction members with
  | nil => rfl
  | cons m rest ih =>
    obtain ⟨other, old⟩ := m
    obtain ⟨hne, hr⟩ := not_or.mp (mt List.mem_cons.mpr hk)
    rw [put, if_neg (Ne.symm hne), ih hr]
    rfl

private theorem foldl_put_append (written : List (Text × Value))
    (hn : (members ++ written).keys.Nodup) :
    written.foldl (fun members m ↦ members.put m.1 m.2) members = members ++ written := by
  induction written generalizing members with
  | nil => simp
  | cons m rest ih =>
    obtain ⟨key, v⟩ := m
    have hk : key ∉ members.keys := by
      intro hm
      rw [keys, List.map_append] at hn
      exact (List.nodup_append.mp hn).2.2 key hm key List.mem_cons_self rfl
    have hs : members ++ (key, v) :: rest = (members ++ [(key, v)]) ++ rest := by simp
    rw [hs] at hn ⊢
    rw [List.foldl_cons, put_append hk, ih hn]

/-- Members with distinct keys are collected as they were written. -/
theorem collectMembers_of_nodup (hn : members.keys.Nodup) : collectMembers members = members :=
  foldl_put_append members hn

end Spruce.Json.Members
