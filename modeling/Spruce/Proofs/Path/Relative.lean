import Spruce.Proofs.Path.Join

/-!
# Relative paths lead back

Below the root, the way from one list of components to another one climbs out of what the two do
not have in common and descends from there (`foldl_lead_way`). A path made relative to a clean
directory is spelled after that way, so it leads from the directory to where the path leads
(`relativeTo?_leads`), even where the path itself climbs.
-/

namespace Spruce.Path

variable {as bs cs : List Component} {target base : Path}

/-! ### Ways -/

private theorem take_sharedLength (as bs : List Component) :
    as.take (sharedLength as bs) = bs.take (sharedLength as bs) := by
  induction as generalizing bs with
  | nil => simp [sharedLength]
  | cons a as ih =>
    cases bs with
    | nil => simp [sharedLength]
    | cons b bs =>
      rw [sharedLength]
      split
      · next hab => rw [hab, List.take_succ_cons, List.take_succ_cons, ih]
      · rfl

/-- The components that lead from `bs` to `as`: out of what the two do not have in common, and on
from there. -/
def way (as bs : List Component) : List Component :=
  ((bs.drop (sharedLength as bs)).map fun _ ↦ .up) ++ as.drop (sharedLength as bs)

/-- As many steps upwards as there are names lead out of them. -/
theorem foldl_lead_climb (hc : ∀ c ∈ cs, ∃ t, c = .name t) (place : Location) :
    (cs.map fun _ ↦ Component.up).foldl lead (cs.foldl lead place) = place := by
  rw [List.map_const']
  induction cs generalizing place with
  | nil => rfl
  | cons c cs ih =>
    obtain ⟨⟨t, rfl⟩, htail⟩ := List.forall_mem_cons.mp hc
    -- the last step upwards undoes the first name
    have hrest := ih htail (place ++ [t])
    rw [List.length_cons, List.replicate_succ', List.foldl_append]
    exact (congrArg List.dropLast hrest).trans List.dropLast_concat

/-- The way from names to other components leads from the place of the names to the place of the
components. -/
theorem foldl_lead_way (hb : ∀ b ∈ bs, ∃ t, b = .name t) (place : Location) :
    (way as bs).foldl lead (bs.foldl lead place) = as.foldl lead place := by
  have hshared := take_sharedLength as bs
  generalize hn : sharedLength as bs = n at hshared
  have hbase : bs.foldl lead place = (bs.drop n).foldl lead ((as.take n).foldl lead place) := by
    rw [hshared, ← List.foldl_append, List.take_append_drop]
  have hdrop : ∀ b ∈ bs.drop n, ∃ t, b = .name t := fun b h ↦ hb b (List.mem_of_mem_drop h)
  rw [way, hn, List.foldl_append, hbase, foldl_lead_climb hdrop, ← List.foldl_append,
    List.take_append_drop]

/-- Only from a list of components to itself there is no way to go. -/
theorem way_eq_nil_iff : way as bs = [] ↔ as = bs := by
  constructor
  · intro h
    obtain ⟨hclimb, hdescend⟩ := List.append_eq_nil_iff.mp h
    have hshared := take_sharedLength as bs
    rw [← List.take_append_drop (sharedLength as bs) as, hdescend, hshared,
      ← List.map_eq_nil_iff.mp hclimb, List.take_append_drop]
  · rintro rfl
    have hlength : sharedLength as as = as.length := by
      induction as with
      | nil => rfl
      | cons a as ih => rw [sharedLength, if_pos rfl, ih, List.length_cons]
    rw [way, hlength, List.drop_length]
    rfl

private theorem isInner_of_mem_way (ha : ∀ a ∈ as, IsInner a) (bs : List Component) :
    ∀ c ∈ way as bs, IsInner c := by
  intro c hc
  rcases List.mem_append.mp hc with hc | hc
  · obtain ⟨b, -, rfl⟩ := List.mem_map.mp hc
    exact .inl rfl
  · exact ha c (List.mem_of_mem_drop hc)

/-! ### Relative paths -/

/-- The relative path that is spelled after a way; where there is no way to go it is `.`. -/
def ofWay (cs : List Component) : Path := if cs = [] then ⟨['.']⟩ else ofComponents cs

/-- A way of inner components is a relative path. -/
theorem isAbsolute_ofWay (h : ∀ c ∈ cs, IsInner c) : (ofWay cs).isAbsolute = false := by
  rw [ofWay]
  split
  · rfl
  · exact (pieces_ofComponents h).2

/-- The path of a way leads where the way leads. -/
theorem place_ofWay (h : ∀ c ∈ cs, IsInner c) (start : Location) :
    (ofWay cs).place start = cs.foldl lead start := by
  rw [ofWay]
  split
  · next hnil =>
    rw [hnil]
    rfl
  · exact place_ofComponents h start

/-- No component but `.` itself is spelled `.`, so only the empty way is. -/
theorem ofWay_eq_here_iff (h : ∀ c ∈ cs, IsInner c) : ofWay cs = ⟨['.']⟩ ↔ cs = [] := by
  constructor
  · intro he
    by_contra hne
    rw [ofWay, if_neg hne] at he
    have hpieces := (pieces_ofComponents h).1
    rw [he] at hpieces
    obtain ⟨c, rest, rfl, htext, -⟩ := List.map_eq_cons_iff.mp hpieces.symm
    have hc := (h c List.mem_cons_self).ofPiece?_text
    rw [htext] at hc
    cases hc
  · rintro rfl
    rfl

/-- Between absolute paths there is always a relative path, and it is spelled after the way below
the root. -/
theorem relativeTo?_eq (ha : ∀ a ∈ as, IsInner a)
    (htarget : target.components = .root :: as) (hbase : base.components = .root :: bs) :
    target.relativeTo? base = some (ofWay (way as bs)) := by
  have hshared : sharedLength (.root :: as) (.root :: bs) = sharedLength as bs + 1 := if_pos rfl
  have hdescend : (as.drop (sharedLength as bs)).filter isStep =
      as.drop (sharedLength as bs) := by
    apply List.filter_eq_self.mpr
    intro c hc
    rcases ha c (List.mem_of_mem_drop hc) with rfl | ⟨t, -, rfl⟩
    · rfl
    · rfl
  rw [relativeTo?]
  simp only [htarget, hbase, hshared, List.drop_succ_cons, hdescend]
  rw [if_neg (by simp), ofWay, ← way]
  split
  · next hnil => rw [if_pos hnil]
  · next hne => rw [if_neg fun hnil ↦ hne hnil]

/-- A path made relative to a clean directory leads from there to where the path leads: joined to
the directory and cleaned it is the path, cleaned. It is `.` exactly for the components of the
directory itself, and it is never absolute. -/
theorem relativeTo?_leads (ht : target.isAbsolute = true) (hb : base.IsCleanAbsolute) :
    ∃ rel, target.relativeTo? base = some rel ∧ (base.join rel).clean = target.clean ∧
      (rel = ⟨['.']⟩ ↔ target.components = base.components) ∧ rel.isAbsolute = false := by
  obtain ⟨names, hn, rfl⟩ := hb.exists_names
  have hinner : ∀ c ∈ target.pieces.filterMap Component.ofPiece?, IsInner c :=
    fun _ ↦ target.isInner_of_mem_pieces
  have htarget : target.components = .root :: target.pieces.filterMap Component.ofPiece? :=
    if_pos ht
  have hbase := components_pathOf hn
  have hway := isInner_of_mem_way hinner (names.map .name)
  have hrelative := isAbsolute_ofWay hway
  refine ⟨_, relativeTo?_eq hinner htarget hbase, ?_, ?_, hrelative⟩
  · have habsolute := (isAbsolute_join (Disk.pathOf names) hrelative).trans hb.1
    have hnames : ∀ b ∈ names.map Component.name, ∃ t, b = .name t := by
      intro b hm
      obtain ⟨t, -, rfl⟩ := List.mem_map.mp hm
      exact ⟨t, rfl⟩
    rw [clean_of_isAbsolute habsolute [], clean_of_isAbsolute ht [], place_join, place_ofWay hway,
      place, place, hbase, htarget]
    exact congrArg Disk.pathOf (foldl_lead_way hnames [])
  · rw [ofWay_eq_here_iff hway, way_eq_nil_iff, htarget, hbase, List.cons.injEq]
    exact (and_iff_right rfl).symm

/-- A target that climbs out of a name that it shares with the directory. -/
theorem relativeTo?_leads_climbing :
    let target : Path := ⟨"/p/../q/./x".toList⟩
    let base : Path := ⟨"/p/a".toList⟩
    target.isAbsolute = true ∧ base.IsCleanAbsolute ∧
      target.relativeTo? base = some ⟨"../../q/x".toList⟩ ∧
      ∃ rel, target.relativeTo? base = some rel ∧ (base.join rel).clean = target.clean ∧
        (rel = ⟨['.']⟩ ↔ target.components = base.components) ∧ rel.isAbsolute = false := by
  intro target base
  have ht : target.isAbsolute = true := by decide
  have hb : base.IsCleanAbsolute := by decide
  exact ⟨ht, hb, by decide, relativeTo?_leads ht hb⟩

end Spruce.Path
