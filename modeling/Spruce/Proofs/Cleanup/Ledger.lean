import Mathlib.Data.List.Basic
import Mathlib.Data.List.Perm.Subperm
import Spruce.Cleanup.Ledger

/-!
# What the ledger knows

The lines that are left of a file are those whose numbers have not been recorded (`present`). The
number that the ledger gives a line is its position among them (`split_of_shifted?`): the deleted
lines above it, and only they, have moved it up. A number that no line has is given a position that
no line that is left has.
-/

namespace Spruce.Cleanup.Ledger

/-- The lines of the first `n` that have not been deleted, by number. -/
def present (n : Nat) (deleted : List Nat) : List Nat := (List.range' 1 n).filter (· ∉ deleted)

/-- Numbers of different lines of the first `n`. -/
structure AreLines (n : Nat) (deleted : List Nat) : Prop where
  nodup : deleted.Nodup
  bounds : ∀ k ∈ deleted, 1 ≤ k ∧ k ≤ n

variable {n k m : Nat} {deleted : List Nat}

/-- No numbers are lines of any file. -/
theorem AreLines.nil (n : Nat) : AreLines n [] := ⟨.nil, by simp⟩

/-- A number is present when it is one of the first `n` and has not been deleted. -/
theorem mem_present : k ∈ present n deleted ↔ (1 ≤ k ∧ k ≤ n) ∧ k ∉ deleted := by
  rw [present, List.mem_filter, List.mem_range'_1, decide_eq_true_eq]
  refine and_congr_left fun _ ↦ ?_
  omega

/-- Lines that are left come in order. -/
theorem pairwise_present (n : Nat) (deleted : List Nat) :
    (present n deleted).Pairwise (· < ·) :=
  List.Pairwise.filter _ List.pairwise_lt_range'

/-- No number is present twice. -/
theorem nodup_present (n : Nat) (deleted : List Nat) : (present n deleted).Nodup :=
  (pairwise_present n deleted).imp Nat.ne_of_lt

/-- Where nothing has been deleted, all lines are present. -/
theorem present_nil (n : Nat) : present n [] = List.range' 1 n := by
  simp [present]

/-- One more deletion takes its line out. -/
theorem present_cons (n k : Nat) (deleted : List Nat) :
    present n (k :: deleted) = (present n deleted).filter (· ≠ k) := by
  rw [present, present, List.filter_filter]
  refine List.filter_congr fun j _ ↦ ?_
  simp [not_or]

/-- Another number of a line that is left may be recorded. -/
theorem AreLines.cons (h : AreLines n deleted) (hk : k ∈ present n deleted) :
    AreLines n (k :: deleted) := by
  obtain ⟨hb, hd⟩ := mem_present.mp hk
  refine ⟨List.nodup_cons.mpr ⟨hd, h.nodup⟩, fun j hj ↦ ?_⟩
  rcases List.mem_cons.mp hj with rfl | hj
  · exact hb
  · exact h.bounds j hj

/-- Of the first `m` lines, those that are left and those that are deleted are `m` in all. -/
theorem length_present_add (h : AreLines n deleted) (m : Nat) :
    (present m deleted).length + (deleted.filter (· < m + 1)).length = m := by
  have hp : (deleted.filter (· < m + 1)).Perm ((List.range' 1 m).filter (· ∈ deleted)) := by
    refine (List.perm_ext_iff_of_nodup (h.nodup.filter _) ((List.nodup_range' ..).filter _)).mpr ?_
    intro j
    rw [List.mem_filter, List.mem_filter, List.mem_range'_1, decide_eq_true_eq,
      decide_eq_true_eq]
    constructor
    · rintro ⟨hj, hlt⟩
      have := (h.bounds j hj).1
      exact ⟨by omega, hj⟩
    · rintro ⟨hb, hj⟩
      exact ⟨hj, by omega⟩
  have hs := List.length_eq_length_filter_add (l := List.range' 1 m) (· ∈ deleted)
  rw [List.length_range'] at hs
  rw [hp.length_eq, present]
  simp only [decide_not]
  omega

/-- A line that is left stands below the lines that are left of those before it. -/
theorem present_split (hk : k ∈ present n deleted) :
    ∃ below, present n deleted = present (k - 1) deleted ++ k :: below := by
  obtain ⟨⟨h1, hn⟩, hd⟩ := mem_present.mp hk
  refine ⟨(List.range' (k + 1) (n - k)).filter (· ∉ deleted), ?_⟩
  have hr : List.range' 1 n = List.range' 1 (k - 1) ++ k :: List.range' (k + 1) (n - k) := by
    have hs := @List.range'_append 1 (k - 1) (n - k + 1) 1
    rw [show k - 1 + (n - k + 1) = n by omega, List.range'_succ,
      show 1 + 1 * (k - 1) = k by omega] at hs
    exact hs.symm
  rw [present, hr, List.filter_append, List.filter_cons_of_pos (by simpa using hd)]
  rfl

/-- The lines that are left and those that are deleted are all lines. -/
theorem length_present_add_length (h : AreLines n deleted) :
    (present n deleted).length + deleted.length = n := by
  have hl := length_present_add h n
  have hall : deleted.filter (· < n + 1) = deleted := by
    apply List.filter_eq_self.mpr
    intro j hj
    have hj := (h.bounds j hj).2
    simp only [decide_eq_true_eq]
    omega
  rwa [hall] at hl

/-- A number beyond the last line is given a position beyond the lines that are left. -/
theorem length_present_lt (h : AreLines n deleted) (hk : n < k) :
    (present n deleted).length < k - (deleted.filter (· < k)).length := by
  have hl := length_present_add_length h
  have hle := List.length_filter_le (fun j ↦ decide (j < k)) deleted
  omega

/-- The ledger gives a line that is left its position among the lines that are left. -/
theorem split_of_shifted? (h : AreLines n deleted) (hs : shifted? deleted k = some m) :
    (∃ above below, present n deleted = above ++ k :: below ∧ above.length + 1 = m) ∨
      k ∉ present n deleted ∧ (m = 0 ∨ (present n deleted).length < m) := by
  rw [shifted?] at hs
  split at hs
  · cases hs
  · next hd =>
    have hm := Option.some.inj hs
    by_cases hk : k ∈ present n deleted
    · left
      obtain ⟨below, hb⟩ := present_split hk
      have h1 := (mem_present.mp hk).1.1
      have hl := length_present_add h (k - 1)
      rw [Nat.sub_add_cancel h1] at hl
      exact ⟨_, below, hb, by omega⟩
    · right
      refine ⟨hk, ?_⟩
      -- without a line of its own, `k` is 0 or beyond the last line
      by_cases h1 : 1 ≤ k
      · have hkn : n < k := by
          apply Nat.lt_of_not_le
          intro hle
          exact hk (mem_present.mpr ⟨⟨h1, hle⟩, hd⟩)
        have hlt := length_present_lt h hkn
        omega
      · omega

/-- Two of the lines above line 6 have been deleted. -/
example : shifted? [5, 9, 2] 6 = some 4 := by decide

/-- A line has been deleted exactly when the ledger does not know where it stands. -/
theorem shifted?_eq_none : shifted? deleted k = none ↔ k ∈ deleted := by
  rw [shifted?]
  split <;> simp [*]

/-- A line that the ledger has a position for has not been deleted. -/
theorem notMem_of_shifted? (h : shifted? deleted k = some m) : k ∉ deleted := by
  intro hd
  rw [shifted?_eq_none.mpr hd] at h
  cases h

/-- No more lines are deleted above a number than there are numbers below it. -/
theorem length_above_le (hd : deleted.Nodup) (k : Nat) : (deleted.filter (· < k)).length ≤ k := by
  have hsub : deleted.filter (· < k) ⊆ List.range k := by
    intro j hj
    simpa using (List.mem_filter.mp hj).2
  have hle := (List.Nodup.subperm (hd.filter _) hsub).length_le
  rwa [List.length_range] at hle

/-- Between two numbers, of which the lower one is not deleted, there are at most as many deleted
lines as numbers. -/
theorem length_above_lt_add (hd : deleted.Nodup) (hk : k ∉ deleted) (hkm : k < m) :
    (deleted.filter (· < m)).length < (deleted.filter (· < k)).length + (m - k) := by
  have hsub : deleted.filter (· < m) ⊆
      deleted.filter (· < k) ++ List.range' (k + 1) (m - k - 1) := by
    intro j hj
    obtain ⟨hj, hlt⟩ := List.mem_filter.mp hj
    rw [decide_eq_true_eq] at hlt
    have hne : j ≠ k := fun he ↦ hk (he ▸ hj)
    rw [List.mem_append, List.mem_filter, List.mem_range'_1, decide_eq_true_eq]
    by_cases hjk : j < k
    · exact .inl ⟨hj, hjk⟩
    · exact .inr (by omega)
  have hle := (List.Nodup.subperm (hd.filter _) hsub).length_le
  rw [List.length_append, List.length_range'] at hle
  omega

/-- As no line has the number 0, fewer lines are deleted above a line than its number says. -/
theorem length_above_lt (h : AreLines n deleted) (hk : 1 ≤ k) :
    (deleted.filter (· < k)).length < k := by
  have hzero : 0 ∉ deleted := fun hd ↦ absurd (h.bounds 0 hd).1 (by decide)
  have hlt := length_above_lt_add h.nodup hzero hk
  have hnone : deleted.filter (· < 0) = [] := by simp
  rw [hnone] at hlt
  simpa using hlt

/-- What the ledger takes off a number is how many of the deleted lines are above. -/
theorem add_length_of_shifted? (hd : deleted.Nodup) (h : shifted? deleted k = some m) :
    m + (deleted.filter (· < k)).length = k := by
  have hle := length_above_le hd k
  rw [shifted?] at h
  split at h
  · cases h
  · have hm := Option.some.inj h
    omega

/-- A line that is left has a position, which is at least 1. -/
theorem exists_shifted? (h : AreLines n deleted) (hk : 1 ≤ k) (hd : k ∉ deleted) :
    ∃ m, shifted? deleted k = some m ∧ 1 ≤ m ∧ m + (deleted.filter (· < k)).length = k := by
  have habove := length_above_lt h hk
  exact ⟨k - (deleted.filter (· < k)).length, if_neg hd, by omega, by omega⟩

/-- Lines that are left keep their order. -/
theorem shifted?_lt (hd : deleted.Nodup) {l o : Nat} (hkl : k < l)
    (hk : shifted? deleted k = some m) (hl : shifted? deleted l = some o) : m < o := by
  have hbetween := length_above_lt_add hd (notMem_of_shifted? hk) hkl
  have hk := add_length_of_shifted? hd hk
  have hl := add_length_of_shifted? hd hl
  omega

/-- The lines that are recorded for a file after one more deletion. -/
theorem linesOf_record (ledger : Ledger) (file other : FileKey) (line : Nat) :
    (ledger.record file line).linesOf other =
      if other = file then line :: ledger.linesOf file else ledger.linesOf other := by
  by_cases h : other = file
  · rw [if_pos h, h, record, linesOf, List.filter_cons_of_pos (by simp)]
    rfl
  · rw [if_neg h, record, linesOf, List.filter_cons_of_neg (by simpa using Ne.symm h)]
    rfl

end Spruce.Cleanup.Ledger
