import Spruce.Disk.Basic
import Spruce.Path.Relative
import Spruce.Proofs.Text.Pieces

/-!
# Clean absolute paths

A path that is absolute and that cleaning leaves alone is one slash before each of its names
(`exists_names`), so it has one spelling for its components (`eq_of_components`). The root apart,
its parent drops the last name (`holder_pathOf`).
-/

namespace Spruce

namespace Path

/-- A text that can name something within a directory. -/
def IsName (t : Text) : Prop := t ≠ [] ∧ '/' ∉ t ∧ t ≠ ['.'] ∧ t ≠ ['.', '.']

/-- An absolute path without `.`, `..`, empty pieces and a trailing slash. -/
def IsCleanAbsolute (p : Path) : Prop := p.isAbsolute = true ∧ p.clean = p

instance (p : Path) : Decidable p.IsCleanAbsolute :=
  inferInstanceAs (Decidable (p.isAbsolute = true ∧ p.clean = p))

/-! ### Spelling -/

/-- The names with a slash before each. -/
def slashed (names : List Text) : Text := names.flatMap ('/' :: ·)

private theorem join_name {spelling name : Text} (hs : spelling ≠ [])
    (hl : spelling.getLast? ≠ some '/') (hn : IsName name) :
    join ⟨spelling⟩ ⟨name⟩ = ⟨spelling ++ '/' :: name⟩ := by
  cases name with
  | nil => exact absurd rfl hn.1
  | cons c r =>
    have hc : c ≠ '/' := fun h ↦ hn.2.1 (by simp [h])
    simp [join, isAbsolute, hc, hl, hs]

private theorem getLast?_append_name (spelling : Text) {name : Text} (hn : IsName name) :
    (spelling ++ '/' :: name).getLast? ≠ some '/' := by
  rw [List.getLast?_append]
  cases name with
  | nil => exact absurd rfl hn.1
  | cons c r =>
    rw [List.getLast?_cons_cons, List.getLast?_eq_some_getLast (List.cons_ne_nil c r)]
    intro h
    have hm := List.getLast_mem (List.cons_ne_nil c r)
    simp only [Option.some_or, Option.some.injEq] at h
    exact hn.2.1 (h ▸ hm)

private theorem foldl_join_names (names : List Text) (hn : ∀ n ∈ names, IsName n)
    (spelling : Text) (hs : spelling ≠ []) (hl : spelling.getLast? ≠ some '/') :
    (names.map Component.name).foldl (fun p c ↦ p.join ⟨c.text⟩) ⟨spelling⟩ =
      (⟨spelling ++ slashed names⟩ : Path) := by
  induction names generalizing spelling with
  | nil => simp [slashed]
  | cons n names ih =>
    have h := hn n List.mem_cons_self
    rw [List.map_cons, List.foldl_cons, Component.text, join_name hs hl h,
      ih (fun m hm ↦ hn m (List.mem_cons_of_mem n hm)) _ (by simp) (getLast?_append_name _ h)]
    simp [slashed]

/-- A path that is spelled name by name has slashes between the names. -/
theorem ofComponents_names {names : List Text} (hn : ∀ n ∈ names, IsName n) :
    ofComponents (names.map .name) = ⟨Text.joinWith ['/'] names⟩ := by
  cases names with
  | nil => rfl
  | cons name names =>
    obtain ⟨hname, hnames⟩ := List.forall_mem_cons.mp hn
    have hrelative : isAbsolute ⟨name⟩ = false := by
      rw [isAbsolute, decide_eq_false_iff_not]
      exact fun hc ↦ hname.2.1 (List.mem_of_mem_head? hc)
    have hfirst : join ⟨[]⟩ ⟨name⟩ = ⟨name⟩ := by
      rw [join, hrelative]
      rfl
    have hlast : name.getLast? ≠ some '/' := fun hc ↦ hname.2.1 (List.mem_of_getLast? hc)
    rw [ofComponents, List.map_cons, List.foldl_cons, Component.text, hfirst,
      foldl_join_names names hnames name hname.1 hlast, Text.joinWith_cons]
    rfl

/-- The path of a place other than the root has a slash before each name. -/
theorem pathOf_cons {name : Text} {names : List Text} (hn : ∀ n ∈ name :: names, IsName n) :
    Disk.pathOf (name :: names) = ⟨slashed (name :: names)⟩ := by
  have h := hn name List.mem_cons_self
  cases name with
  | nil => exact absurd rfl h.1
  | cons c r =>
    have hc : c ≠ '/' := fun hc ↦ h.2.1 (by simp [hc])
    have first : join (join ⟨[]⟩ ⟨['/']⟩) ⟨c :: r⟩ = ⟨[] ++ '/' :: c :: r⟩ := by
      simp [join, isAbsolute, hc]
    rw [Disk.pathOf, ofComponents, List.foldl_cons, List.map_cons, List.foldl_cons,
      Component.text, Component.text, first,
      foldl_join_names names (fun m hm ↦ hn m (List.mem_cons_of_mem _ hm)) _ (by simp)
        (getLast?_append_name [] h)]
    simp [slashed]

private theorem pathOf_of_ne_nil {names : List Text} (hn : ∀ n ∈ names, IsName n)
    (h : names ≠ []) : Disk.pathOf names = ⟨slashed names⟩ := by
  cases names with
  | nil => exact absurd rfl h
  | cons n names => exact pathOf_cons hn

/-- The path of any place begins with a slash. -/
theorem isAbsolute_pathOf {names : List Text} (hn : ∀ n ∈ names, IsName n) :
    (Disk.pathOf names).isAbsolute = true := by
  cases names with
  | nil => rfl
  | cons n names => rw [pathOf_cons hn]; simp [isAbsolute, slashed]

/-- The path of a place is spelled on from the path above it. -/
theorem spelling_subset_concat {names : List Text} {last : Text}
    (hn : ∀ n ∈ names ++ [last], IsName n) :
    (Disk.pathOf names).spelling ⊆ (Disk.pathOf (names ++ [last])).spelling := by
  rw [pathOf_of_ne_nil hn (by simp)]
  cases names with
  | nil => simp [Disk.pathOf, ofComponents, join, isAbsolute, Component.text, slashed]
  | cons n names =>
    rw [pathOf_cons fun m hm ↦ hn m (List.mem_append_left _ hm)]
    simp only [slashed, List.flatMap_append]
    exact List.subset_append_left _ _

/-- The pieces of the path of a place are the names of the place. -/
theorem pieces_pathOf {names : List Text} (hn : ∀ n ∈ names, IsName n) :
    (Disk.pathOf names).pieces = names := by
  cases names with
  | nil => rfl
  | cons n names =>
    have hs : Text.split '/' (slashed (n :: names)) = [] :: n :: names :=
      Text.split_append_following List.not_mem_nil fun m hm ↦ (hn m hm).2.1
    rw [pathOf_cons hn, pieces, hs, List.filter_cons_of_neg (by simp), List.filter_eq_self]
    intro m hm
    simpa using (hn m hm).1

/-- Names are components as they stand. -/
theorem filterMap_ofPiece? {names : List Text} (hn : ∀ n ∈ names, IsName n) :
    names.filterMap Component.ofPiece? = names.map Component.name := by
  induction names with
  | nil => rfl
  | cons n names ih =>
    have h := hn n List.mem_cons_self
    have hp : Component.ofPiece? n = some (.name n) := by
      simp [Component.ofPiece?, h.2.2.1, h.2.2.2]
    rw [List.filterMap_cons_some hp, ih fun m hm ↦ hn m (List.mem_cons_of_mem n hm)]
    rfl

/-- The components of the path of a place are the root and the names of the place. -/
theorem components_pathOf {names : List Text} (hn : ∀ n ∈ names, IsName n) :
    (Disk.pathOf names).components = .root :: names.map .name := by
  rw [components, if_pos (isAbsolute_pathOf hn), pieces_pathOf hn, filterMap_ofPiece? hn]

/-! ### Cleaning -/

/-- The place that a component leads to from a place: a name leads into it and `..` out of it.
Nothing is above the root. -/
def lead (place : Location) : Component → Location
  | .root => []
  | .here => place
  | .up => place.dropLast
  | .name t => place ++ [t]

/-- The place that a path leads to from a place, without a look at any disk. -/
def place (start : Location) (p : Path) : Location := p.components.foldl lead start

/-- A component that can come after the root. -/
def IsInner (c : Component) : Prop := c = .up ∨ ∃ t, IsName t ∧ c = .name t

private theorem isInner_of_ofPiece? {piece : Text} {c : Component} (h : piece ≠ [])
    (hs : '/' ∉ piece) (hc : Component.ofPiece? piece = some c) : IsInner c := by
  simp only [Component.ofPiece?] at hc
  split at hc
  · cases hc
  · next hd =>
    split at hc
    · exact .inl (Option.some.inj hc).symm
    · next hdd => exact .inr ⟨piece, ⟨h, hs, hd, hdd⟩, (Option.some.inj hc).symm⟩

/-- What the pieces of a path stand for can come after the root. -/
theorem isInner_of_mem_pieces (p : Path) {c : Component}
    (hc : c ∈ p.pieces.filterMap Component.ofPiece?) : IsInner c := by
  obtain ⟨piece, hp, he⟩ := List.mem_filterMap.mp hc
  obtain ⟨hm, hne⟩ := List.mem_filter.mp hp
  exact isInner_of_ofPiece? (by simpa using hne) (Text.notMem_of_mem_split hm) he

/-- Names lead to places with names. -/
theorem isName_foldl_lead {cs : List Component} (hc : ∀ c ∈ cs, IsInner c) {place : Location}
    (hp : ∀ n ∈ place, IsName n) : ∀ n ∈ cs.foldl lead place, IsName n := by
  induction cs generalizing place with
  | nil => exact hp
  | cons c cs ih =>
    obtain ⟨hhead, htail⟩ := List.forall_mem_cons.mp hc
    apply ih htail
    intro n hn
    rcases hhead with rfl | ⟨t, ht, rfl⟩
    · exact hp n (List.dropLast_subset place hn)
    · rcases List.mem_append.mp hn with hn | hn
      · exact hp n hn
      · rwa [List.mem_singleton.mp hn]

-- Below the root the stack is the place that the components have led to: `..` takes a name off, or
-- is dropped at the root.
private theorem foldl_cleanStep {cs : List Component} (hc : ∀ c ∈ cs, IsInner c)
    (place : Location) : cs.foldl cleanStep ((place.map .name).reverse ++ [.root]) =
      ((cs.foldl lead place).map .name).reverse ++ [.root] := by
  induction cs generalizing place with
  | nil => rfl
  | cons c cs ih =>
    obtain ⟨hhead, htail⟩ := List.forall_mem_cons.mp hc
    have hstep : cleanStep ((place.map .name).reverse ++ [.root]) c =
        ((lead place c).map .name).reverse ++ [.root] := by
      rcases hhead with rfl | ⟨t, -, rfl⟩
      · rcases List.eq_nil_or_concat place with rfl | ⟨init, last, rfl⟩
        · rfl
        · simp [lead, cleanStep]
      · simp [lead, cleanStep]
    rw [List.foldl_cons, List.foldl_cons, hstep, ih htail]

/-- The place that an absolute path leads to has names, wherever one starts. -/
theorem isName_place {p : Path} (h : p.isAbsolute = true) (start : Location) :
    ∀ n ∈ p.place start, IsName n := by
  rw [place, components, if_pos h, List.foldl_cons]
  exact isName_foldl_lead (fun _ ↦ p.isInner_of_mem_pieces) (List.forall_mem_nil _)

/-- A clean absolute path is spelled after the place that it leads to. -/
theorem clean_of_isAbsolute {p : Path} (h : p.isAbsolute = true) (start : Location) :
    p.clean = Disk.pathOf (p.place start) := by
  have hroot : p.components.foldl cleanStep [] =
      ((p.place start).map .name).reverse ++ [.root] := by
    rw [place, components, if_pos h]
    exact foldl_cleanStep (fun _ ↦ p.isInner_of_mem_pieces) []
  rw [clean, cleanComponents, hroot, List.reverse_append, List.reverse_reverse]
  rfl

/-- Names lead into one another. -/
theorem foldl_lead_names (names : List Text) (start : Location) :
    (names.map Component.name).foldl lead start = start ++ names := by
  induction names generalizing start with
  | nil => exact (List.append_nil start).symm
  | cons n names ih =>
    rw [List.map_cons, List.foldl_cons, ih, lead, List.append_assoc, List.singleton_append]

/-- The path of a place is clean. -/
theorem isCleanAbsolute_pathOf {names : List Text} (hn : ∀ n ∈ names, IsName n) :
    (Disk.pathOf names).IsCleanAbsolute := by
  have habsolute := isAbsolute_pathOf hn
  have hplace : (Disk.pathOf names).place [] = names := by
    rw [place, components_pathOf hn, List.foldl_cons]
    exact foldl_lead_names names []
  have hclean := clean_of_isAbsolute habsolute []
  rw [hplace] at hclean
  exact ⟨habsolute, hclean⟩

namespace IsCleanAbsolute

/-- A clean absolute path is the path of a place. -/
theorem exists_names {p : Path} (h : p.IsCleanAbsolute) :
    ∃ names, (∀ n ∈ names, IsName n) ∧ p = Disk.pathOf names := by
  refine ⟨p.place [], isName_place h.1 [], ?_⟩
  rw [← clean_of_isAbsolute h.1, h.2]

/-- A clean absolute path has one spelling only. -/
theorem eq_of_components {p q : Path} (hp : p.IsCleanAbsolute) (hq : q.IsCleanAbsolute)
    (h : p.components = q.components) : p = q := by
  obtain ⟨ps, hps, rfl⟩ := hp.exists_names
  obtain ⟨qs, hqs, rfl⟩ := hq.exists_names
  rw [components_pathOf hps, components_pathOf hqs] at h
  have hm := (List.cons.inj h).2
  rw [List.map_inj_right fun _ _ he ↦ Component.name.inj he] at hm
  rw [hm]

/-- Clean absolute paths differ exactly when their components do. -/
theorem components_inj {p q : Path} (hp : p.IsCleanAbsolute) (hq : q.IsCleanAbsolute) :
    p.components = q.components ↔ p = q :=
  ⟨hp.eq_of_components hq, fun h ↦ congrArg components h⟩

end IsCleanAbsolute

/-! ### Last name and parent -/

/-- The file name of the path of a place is the last name of the place. -/
theorem fileName?_pathOf {names : List Text} {last : Text}
    (hn : ∀ n ∈ names ++ [last], IsName n) :
    (Disk.pathOf (names ++ [last])).fileName? = some last := by
  have hl : (Disk.pathOf (names ++ [last])).components.getLast? = some (.name last) := by
    rw [components_pathOf hn, List.map_append, ← List.cons_append]
    exact List.getLast?_concat
  rw [fileName?, hl]

/-- A name at the end stays. -/
theorem dropTail_name {name : Text} (hn : IsName name) (r : Text) :
    dropTail (name.reverse ++ r) = name.reverse ++ r := by
  have hs : '/' ∉ name.reverse := fun h ↦ hn.2.1 (List.mem_reverse.mp h)
  cases hr : name.reverse with
  | nil => exact absurd (List.reverse_eq_nil_iff.mp hr) hn.1
  | cons c cs =>
    rw [hr] at hs
    obtain ⟨hc, hcs⟩ := not_or.mp (mt List.mem_cons.mpr hs)
    cases cs with
    | nil =>
      have hdot : c ≠ '.' := by
        rintro rfl
        exact hn.2.2.1 (by simpa using congrArg List.reverse hr)
      exact dropTail.eq_4 _ (by simp [Ne.symm hc]) (by simp [Ne.symm hc]) (by simp [hdot])
    | cons d ds =>
      have hd : d ≠ '/' := fun hd ↦ hcs (by simp [hd])
      exact dropTail.eq_4 _ (by simp) (by simp [Ne.symm hc]) (by simp [hd])

private theorem reverse_slashed_append (names : List Text) (last : Text) :
    (slashed (names ++ [last])).reverse = last.reverse ++ '/' :: (slashed names).reverse := by
  simp [slashed]

private theorem dropTail_slashed {names : List Text} (hn : ∀ n ∈ names, IsName n) :
    dropTail ('/' :: (slashed names).reverse) = (Disk.pathOf names).spelling.reverse := by
  rcases List.eq_nil_or_concat names with rfl | ⟨init, last, hc⟩
  · rfl
  · rw [List.concat_eq_append] at hc
    subst hc
    rw [pathOf_of_ne_nil hn (by simp), reverse_slashed_append]
    have hl : IsName last := hn last (by simp)
    have hne : last.reverse ++ '/' :: (slashed init).reverse ≠ [] := by simp
    rw [dropTail.eq_2 _ (by simp [hne]), dropTail_name hl]

/-- The directory that holds a place is the place without its last name. -/
theorem holder_pathOf {names : List Text} {last : Text}
    (hn : ∀ n ∈ names ++ [last], IsName n) :
    Disk.holder (Disk.pathOf (names ++ [last])) = Disk.pathOf names := by
  have hl : IsName last := hn last (by simp)
  have hi : ∀ n ∈ names, IsName n := fun n hm ↦ hn n (List.mem_append_left _ hm)
  have hs : '/' ∉ last.reverse := fun h ↦ hl.2.1 (List.mem_reverse.mp h)
  have hbody : dropTail (Disk.pathOf (names ++ [last])).spelling.reverse =
      last.reverse ++ '/' :: (slashed names).reverse := by
    rw [pathOf_of_ne_nil hn (by simp), reverse_slashed_append, dropTail_name hl]
  have hne : ¬ (last.reverse ++ '/' :: (slashed names).reverse = [] ∨
      last.reverse ++ '/' :: (slashed names).reverse = ['/']) := by
    rintro (h | h)
    · simp at h
    · have hm := congrArg List.length h
      have hp := List.length_pos_iff.mpr hl.1
      simp only [List.length_append, List.length_reverse, List.length_cons, List.length_nil] at hm
      omega
  have hd : (last.reverse ++ '/' :: (slashed names).reverse).dropWhile (· ≠ '/') =
      '/' :: (slashed names).reverse := by
    refine Text.dropWhile_run_cons (fun c hc ↦ decide_eq_true ?_) (by decide) _
    rintro rfl
    exact hs hc
  have hp : (Disk.pathOf (names ++ [last])).parent? = some (Disk.pathOf names) := by
    rw [parent?]
    simp only [hbody, if_neg hne, hd, dropTail_slashed hi, List.reverse_reverse]
  cases hc : Disk.pathOf names with
  | mk spelling =>
    cases spelling with
    | nil =>
      have ha := isAbsolute_pathOf hi
      rw [hc] at ha
      cases ha
    | cons c r => rw [Disk.holder, hp, hc]

end Path

end Spruce
