import Spruce.Locale.Update
import Spruce.Proofs.Locale.Idempotence

/-!
# Merging the sections of a patch

The sections of a patch that was read can be read as values (`Patch.IsValid.fits`), at most two of
them apply to a locale, and merging them all is settled after one run (`mergeAll_mergeAll`). What
counts as a change is exactly a section that changes the object by itself, wherever all of them
together leave it as it was (`changed_mergeAll_iff`).
-/

namespace Spruce.Locale

open Json

variable {overwrite : Bool} {depth : Nat} {target : Members}

/-! ### Patches that were read -/

namespace Patch

/-- A patch that some text is. -/
def IsValid (patch : Patch) : Prop := ∃ t, ofText t = .ok patch

private theorem mem_of_sectionsOf {members : Members} {sections : List (Text × Members)}
    (h : sectionsOf members = .ok sections) {name : Text} {s : Members}
    (hs : (name, s) ∈ sections) : (name, Value.object s) ∈ members := by
  induction members generalizing sections with
  | nil =>
    rw [sectionsOf] at h
    rw [← Except.ok.inj h] at hs
    cases hs
  | cons m rest ih =>
    unfold sectionsOf at h
    split at h
    · next he => cases he
    · next key held others he =>
      obtain ⟨rfl, rfl⟩ := List.cons.inj he
      obtain ⟨found, hfound, rfl⟩ := exists_of_map_eq_ok h
      rcases List.mem_cons.mp hs with heq | hs
      · obtain ⟨rfl, rfl⟩ := Prod.mk.inj heq
        exact List.mem_cons_self
      · exact List.mem_cons_of_mem _ (ih hfound hs)
    · cases h

variable {patch : Patch}

private theorem mem_sections_of_section? {name : Text} {s : Members}
    (h : patch.section? name = some s) : (name, s) ∈ patch.sections := by
  obtain ⟨before, after, hs, -⟩ := List.lookup_eq_some_iff.mp h
  rw [hs]
  exact List.mem_append_right before List.mem_cons_self

/-- The sections that apply to a locale can be read as values. -/
theorem IsValid.fits (h : patch.IsValid) {locale : Text} {s : Members}
    (hs : s ∈ patch.sectionsFor locale) : (Value.object s).Fits depthLimit := by
  obtain ⟨t, ht⟩ := h
  unfold ofText at ht
  split at ht
  · cases ht
  · next v hread =>
    unfold ofValue at ht
    split at ht
    · next members =>
      obtain ⟨sections, hsections, rfl⟩ := exists_of_map_eq_ok ht
      have hmem : ∃ name, (name, s) ∈ sections := by
        rcases List.mem_append.mp hs with hs | hs
        · exact ⟨_, mem_sections_of_section? (Option.mem_toList.mp hs)⟩
        · exact ⟨_, mem_sections_of_section? (Option.mem_toList.mp hs)⟩
      obtain ⟨name, hname⟩ := hmem
      obtain - | - | - | - | - | ⟨-, hfit⟩ := fits_of_read hread
      exact (hfit _ (mem_of_sectionsOf hsections hname)).succ
    · cases ht

/-- The members of a section; none if there is no such section. -/
def part (patch : Patch) (name : Text) : Members := (patch.section? name).getD []

private theorem forall_sectionsFor_iff (patch : Patch) (locale : Text) {P : Members → Prop}
    (hnil : P []) :
    (∀ s ∈ patch.sectionsFor locale, P s) ↔ P (patch.part sharedName) ∧ P (patch.part locale) := by
  unfold sectionsFor part
  cases patch.section? sharedName <;> cases patch.section? locale <;> simp [hnil]

/-- The sections of a valid patch are not nested too deeply. -/
theorem IsValid.fits_part (h : patch.IsValid) (locale : Text) :
    (Value.object (patch.part sharedName)).Fits depthLimit ∧
      (Value.object (patch.part locale)).Fits depthLimit := by
  have hnil : (Value.object []).Fits (126 + 1) := .object List.nodup_nil (by simp)
  exact (forall_sectionsFor_iff patch locale hnil).mp fun _ hs ↦ h.fits hs

end Patch

/-! ### All sections -/

variable {patch : Patch} {locale : Text}

/-- Merging all sections nests the object no deeper than they do. -/
theorem fits_mergeAll {sections : List Members} (ht : (Value.object target).Fits depth)
    (hs : ∀ s ∈ sections, (Value.object s).Fits depth) :
    (Value.object (mergeAll overwrite target sections).1).Fits depth := by
  induction sections generalizing target with
  | nil => exact ht
  | cons s rest ih =>
    exact ih (fits_merge ht (hs s List.mem_cons_self)) fun r hr ↦ hs r (List.mem_cons_of_mem s hr)

/-- The section for all locales is merged first, and then the one for the locale. -/
theorem mergeAll_sectionsFor (overwrite : Bool) (target : Members) (patch : Patch)
    (locale : Text) :
    mergeAll overwrite target (patch.sectionsFor locale) =
      let first := merge overwrite target (patch.part Patch.sharedName)
      let second := merge overwrite first.1 (patch.part locale)
      (second.1, first.2.add second.2) := by
  unfold Patch.sectionsFor Patch.part
  cases patch.section? Patch.sharedName <;> cases patch.section? locale <;>
    simp [mergeAll, merge_nil, Stats.add, Stats.zero]

/-- Merging the sections for a locale is merging the shared part and then the part of the locale. -/
theorem object_mergeAll (overwrite : Bool) (target : Members) (patch : Patch)
    (locale : Text) :
    Value.object (mergeAll overwrite target (patch.sectionsFor locale)).1 =
      mergeTwo overwrite (.object target) (.object (patch.part Patch.sharedName))
        (.object (patch.part locale)) := by
  rw [mergeAll_sectionsFor, mergeTwo, mergeValue_objects, mergeValue_objects]

/-- What the sections of a patch settle stays settled. -/
theorem mergeAll_mergeAll (hp : patch.IsValid) (ht : (Value.object target).Fits depthLimit) :
    (mergeAll overwrite (mergeAll overwrite target (patch.sectionsFor locale)).1
        (patch.sectionsFor locale)).1 =
      (mergeAll overwrite target (patch.sectionsFor locale)).1 := by
  obtain ⟨hshared, hown⟩ := hp.fits_part locale
  refine Value.object.inj ?_
  rw [object_mergeAll, object_mergeAll]
  exact mergeTwo_mergeTwo ht hshared hown

/-- Where the sections together leave an object as it was, they do so one by one unless the first
one replaced something. -/
theorem part_eq_of_mergeAll_eq (hp : patch.IsValid)
    (ht : (Value.object target).Fits depthLimit)
    (h : (mergeAll overwrite target (patch.sectionsFor locale)).1 = target)
    (hc : overwrite = true →
      (merge overwrite target (patch.part Patch.sharedName)).2.changed = false) :
    (merge overwrite target (patch.part Patch.sharedName)).1 = target ∧
      (merge overwrite target (patch.part locale)).1 = target := by
  obtain ⟨hshared, hown⟩ := hp.fits_part locale
  rw [mergeAll_sectionsFor] at h
  have hfirst := merge_eq_of_restored ht hshared hown hc h
  dsimp only at h
  rw [hfirst] at h
  exact ⟨hfirst, h⟩

/-- Where the sections together leave an object as it was, no change is counted exactly if each of
them leaves it so by itself. -/
theorem changed_mergeAll_iff (hp : patch.IsValid) (ht : (Value.object target).Fits depthLimit)
    (h : (mergeAll overwrite target (patch.sectionsFor locale)).1 = target) :
    (mergeAll overwrite target (patch.sectionsFor locale)).2.changed = false ↔
      ∀ s ∈ patch.sectionsFor locale, (merge overwrite target s).1 = target := by
  obtain ⟨hshared, hown⟩ := hp.fits_part locale
  have hnil : (merge overwrite target []).1 = target := by rw [merge_nil]
  rw [patch.forall_sectionsFor_iff locale (P := fun s ↦ (merge overwrite target s).1 = target) hnil]
  constructor
  · intro hc
    rw [mergeAll_sectionsFor] at hc
    dsimp only at hc
    rw [Stats.changed_add, Bool.or_eq_false_iff] at hc
    exact part_eq_of_mergeAll_eq hp ht h fun _ ↦ hc.1
  · rintro ⟨hfirst, hsecond⟩
    rw [mergeAll_sectionsFor]
    dsimp only
    rw [Stats.changed_add, hfirst, changed_merge_of_eq ht hshared hfirst,
      changed_merge_of_eq ht hown hsecond]
    rfl

end Spruce.Locale
