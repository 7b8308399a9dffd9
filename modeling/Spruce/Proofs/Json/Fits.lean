import Spruce.Proofs.Json.Members
import Spruce.Proofs.Json.Numbers

/-!
# Values that can be read

What a reader gives has brackets nested no deeper than the reader goes, distinct keys in every
object, and numbers that can be read (`fits_of_readValue`).
-/

namespace Spruce.Json

/-- A value that can be read: brackets are nested at most so deep, the keys of every object are
distinct, and whole numbers have 64 bits. -/
inductive Value.Fits : Nat → Value → Prop
  | null (depth : Nat) : Fits depth .null
  | bool (depth : Nat) (b : Bool) : Fits depth (.bool b)
  | number (depth : Nat) {n : Number} (h : n.InRange) : Fits depth (.number n)
  | string (depth : Nat) (t : Text) : Fits depth (.string t)
  | array {depth : Nat} {items : List Value} (h : ∀ v ∈ items, Fits depth v) :
    Fits (depth + 1) (.array items)
  | object {depth : Nat} {members : Members} (keys : members.keys.Nodup)
    (h : ∀ m ∈ members, Fits depth m.2) : Fits (depth + 1) (.object members)

namespace Value.Fits

variable {depth : Nat} {v : Value} {members : Members}

/-- A value fits where there is more room. -/
theorem succ (h : v.Fits depth) : v.Fits (depth + 1) := by
  induction h with
  | null depth => exact .null _
  | bool depth b => exact .bool _ b
  | number depth hn => exact .number _ hn
  | string depth t => exact .string _ t
  | array _ ih => exact .array ih
  | object hk _ ih => exact .object hk ih

/-- The keys of an object that fits are distinct. -/
theorem nodup_keys (h : (Value.object members).Fits depth) : members.keys.Nodup := by
  cases h with
  | object hk _ => exact hk

/-- What an object holds fits within it. -/
theorem of_get? {k : Text} (h : (Value.object members).Fits (depth + 1))
    (hg : members.get? k = some v) : v.Fits depth := by
  cases h with
  | object _ hm => exact hm (k, v) (Members.mem_of_get? hg)

end Value.Fits

/-! ### Readers -/

/-- A result that was mapped comes from a result. -/
theorem exists_of_map_eq_ok {ε α β : Type} {f : α → β} {e : Except ε α} {y : β}
    (h : e.map f = .ok y) : ∃ x, e = .ok x ∧ f x = y := by
  cases e with
  | error e => cases h
  | ok x => exact ⟨x, rfl, Except.ok.inj h⟩

section Items

variable {α : Type} {b : Bracket} {item : Text → Reading α} {P : α → Prop}

private theorem forall_of_readMore (hitem : ∀ t x rest, item t = .ok (x, rest) → P x)
    {bound : Nat} {t rest : Text} {xs : List α} (h : readMore b item bound t = .ok (xs, rest)) :
    ∀ x ∈ xs, P x := by
  induction bound generalizing t xs with
  | zero => cases h
  | succ bound ih =>
    unfold readMore at h
    split at h
    · cases h
    · split at h
      · obtain ⟨rfl, -⟩ := Prod.mk.inj (Except.ok.inj h)
        simp
      · split at h
        · split at h
          · cases h
          · split at h
            · cases h
            · split at h
              · cases h
              · next x after hx =>
                obtain ⟨⟨ys, last⟩, hmore, he⟩ := exists_of_map_eq_ok h
                obtain ⟨rfl, rfl⟩ := Prod.mk.inj he
                intro y hy
                rcases List.mem_cons.mp hy with rfl | hy
                · exact hitem _ _ _ hx
                · exact ih hmore y hy
        · cases h

/-- What holds of every item that is read holds of all items between two brackets. -/
theorem forall_of_readItems (hitem : ∀ t x rest, item t = .ok (x, rest) → P x)
    {t rest : Text} {xs : List α} (h : readItems b item t = .ok (xs, rest)) : ∀ x ∈ xs, P x := by
  unfold readItems at h
  split at h
  · cases h
  · split at h
    · obtain ⟨rfl, -⟩ := Prod.mk.inj (Except.ok.inj h)
      simp
    · split at h
      · cases h
      · next x after hx =>
        obtain ⟨⟨ys, last⟩, hmore, he⟩ := exists_of_map_eq_ok h
        obtain ⟨rfl, -⟩ := Prod.mk.inj he
        intro y hy
        rcases List.mem_cons.mp hy with rfl | hy
        · exact hitem _ _ _ hx
        · exact forall_of_readMore hitem hmore y hy

end Items

private theorem eq_of_readWord {v w : Value} {word t rest : Text}
    (h : readWord v word t = .ok (w, rest)) : w = v := by
  induction word generalizing t with
  | nil => exact (Prod.mk.inj (Except.ok.inj h)).1.symm
  | cons c word ih =>
    cases t with
    | nil => cases h
    | cons d t =>
      unfold readWord at h
      split at h
      · exact ih h
      · cases h

private theorem fits_of_readScalar {c : Char} {t rest : Text} {v : Value} (depth : Nat)
    (h : readScalar c t = .ok (v, rest)) : v.Fits depth := by
  unfold readScalar at h
  split at h
  · rw [eq_of_readWord h]
    exact .null depth
  · split at h
    · rw [eq_of_readWord h]
      exact .bool depth true
    · split at h
      · rw [eq_of_readWord h]
        exact .bool depth false
      · split at h
        · obtain ⟨⟨s, after⟩, -, he⟩ := exists_of_map_eq_ok h
          obtain ⟨rfl, -⟩ := Prod.mk.inj he
          exact .string depth s
        · split at h
          · obtain ⟨⟨n, after⟩, hn, he⟩ := exists_of_map_eq_ok h
            obtain ⟨rfl, -⟩ := Prod.mk.inj he
            exact .number depth (inRange_of_readNumber hn)
          · cases h

private theorem snd_of_readMember {P : Value → Prop} {value : Text → Reading Value}
    (hvalue : ∀ t v rest, value t = .ok (v, rest) → P v) {t rest : Text} {m : Text × Value}
    (h : readMember value t = .ok (m, rest)) : P m.2 := by
  unfold readMember at h
  split at h
  · split at h
    · cases h
    · obtain ⟨⟨v, after⟩, hv, he⟩ := exists_of_map_eq_ok h
      obtain ⟨rfl, -⟩ := Prod.mk.inj he
      unfold readMemberValue at hv
      split at hv
      · cases hv
      · exact hvalue _ _ _ hv
      · cases hv
  · cases h

/-- What is read fits the depth to which the reader goes. -/
theorem fits_of_readValue {depth : Nat} {t rest : Text} {v : Value}
    (h : readValue depth t = .ok (v, rest)) : v.Fits depth := by
  induction depth generalizing t v rest with
  | zero =>
    unfold readValue at h
    split at h
    · cases h
    · cases h
    · cases h
    · exact fits_of_readScalar 0 h
  | succ depth ih =>
    unfold readValue at h
    split at h
    · cases h
    · obtain ⟨⟨items, after⟩, hi, he⟩ := exists_of_map_eq_ok h
      obtain ⟨rfl, -⟩ := Prod.mk.inj he
      exact .array (forall_of_readItems (fun _ _ _ hx ↦ ih hx) hi)
    · obtain ⟨⟨written, after⟩, hw, he⟩ := exists_of_map_eq_ok h
      obtain ⟨rfl, -⟩ := Prod.mk.inj he
      refine .object (Members.nodup_keys_collectMembers written)
        (Members.snd_of_mem_collectMembers ?_)
      exact forall_of_readItems (P := fun m ↦ m.2.Fits depth)
        (fun _ _ _ hm ↦ snd_of_readMember (fun _ _ _ hx ↦ ih hx) hm) hw
    · exact fits_of_readScalar _ h

/-- What a whole text is was read at its start. -/
theorem exists_readValue_of_read {t : Text} {v : Value} (h : read t = .ok v) :
    ∃ rest, readValue depthLimit t = .ok (v, rest) := by
  have hd : readDocument t = .ok v := by
    unfold read at h
    cases hd : readDocument t with
    | error s =>
      rw [hd] at h
      cases h
    | ok w =>
      rw [hd] at h
      obtain rfl := Except.ok.inj h
      rfl
  unfold readDocument at hd
  split at hd
  · cases hd
  · next w rest hw =>
    split at hd
    · obtain rfl := Except.ok.inj hd
      exact ⟨rest, hw⟩
    · cases hd

/-- A value that is read from a whole text fits. -/
theorem fits_of_read {t : Text} {v : Value} (h : read t = .ok v) : v.Fits depthLimit := by
  obtain ⟨rest, hv⟩ := exists_readValue_of_read h
  exact fits_of_readValue hv

end Spruce.Json
