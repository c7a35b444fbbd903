import Mathlib.Data.List.Basic
import Mathlib.Data.List.Nodup

/-!
# An append-only list cut into slices

Slice `i` of a list, at width `w`, holds the positions from `i * w` up to but not
including `(i + 1) * w`.  `sliceFrom w i start xs` are the members of slice `i`
that stand at position `start` or later, so that `sliceFrom w i 0` is the whole
slice.

Appending to the list never moves an element: every slice keeps what it has and
gains exactly the members from the old length on (`slice_append`).
-/

namespace RoqWhitebit.General

variable {α : Type*}

/-- The members of slice `i` at positions `start` and later. -/
def sliceFrom (w i start : Nat) (xs : List α) : List α :=
  (xs.take ((i + 1) * w)).drop (max (i * w) start)

/-- Slice `i`. -/
def slice (w i : Nat) (xs : List α) : List α := sliceFrom w i 0 xs

/-- The number of non-empty slices of a list of length `n`. -/
def sliceCount (w n : Nat) : Nat := (n + w - 1) / w

theorem slice_eq (w i : Nat) (xs : List α) :
    slice w i xs = (xs.take ((i + 1) * w)).drop (i * w) := by
  simp [slice, sliceFrom]

theorem mem_sliceFrom_iff {w i start : Nat} {xs : List α} {x : α} :
    x ∈ sliceFrom w i start xs ↔
      ∃ j, i * w ≤ j ∧ j < (i + 1) * w ∧ start ≤ j ∧ xs[j]? = some x := by
  unfold sliceFrom
  rw [List.mem_iff_getElem?]
  constructor
  · rintro ⟨n, hn⟩
    rw [List.getElem?_drop, List.getElem?_take] at hn
    split at hn
    · rename_i hLt
      exact ⟨max (i * w) start + n, by omega, hLt, by omega, hn⟩
    · cases hn
  · rintro ⟨j, hLow, hHigh, hStart, hj⟩
    refine ⟨j - max (i * w) start, ?_⟩
    rw [List.getElem?_drop, List.getElem?_take,
      show max (i * w) start + (j - max (i * w) start) = j by omega, if_pos hHigh, hj]

theorem mem_slice_iff {w i : Nat} {xs : List α} {x : α} :
    x ∈ slice w i xs ↔ ∃ j, i * w ≤ j ∧ j < (i + 1) * w ∧ xs[j]? = some x := by
  unfold slice
  rw [mem_sliceFrom_iff]
  simp

theorem mem_of_mem_slice {w i : Nat} {xs : List α} {x : α} (h : x ∈ slice w i xs) :
    x ∈ xs := by
  obtain ⟨j, _, _, hj⟩ := mem_slice_iff.mp h
  exact List.mem_of_getElem? hj

/-- No slice holds more than its width. -/
theorem length_slice_le (w i : Nat) (xs : List α) : (slice w i xs).length ≤ w := by
  rw [slice_eq, List.length_drop, List.length_take, Nat.succ_mul]
  omega

theorem slice_nodup {w i : Nat} {xs : List α} (h : xs.Nodup) : (slice w i xs).Nodup := by
  rw [slice_eq]
  exact (h.sublist (List.take_sublist ..)).sublist (List.drop_sublist ..)

/-- The non-empty slices are the first ones. -/
theorem slice_eq_nil_iff {w i : Nat} (xs : List α) (hw : 0 < w) :
    slice w i xs = [] ↔ xs.length ≤ i * w := by
  rw [slice_eq, List.drop_eq_nil_iff, List.length_take]
  have hStep : (i + 1) * w = i * w + w := Nat.succ_mul i w
  omega

theorem lt_sliceCount_iff {w n i : Nat} (hw : 0 < w) :
    i < sliceCount w n ↔ i * w < n := by
  unfold sliceCount
  rw [Nat.lt_iff_add_one_le, Nat.le_div_iff_mul_le hw, Nat.succ_mul]
  omega

theorem slice_ne_nil_iff {w i : Nat} (xs : List α) (hw : 0 < w) :
    slice w i xs ≠ [] ↔ i < sliceCount w xs.length := by
  rw [Ne, slice_eq_nil_iff xs hw, lt_sliceCount_iff hw]
  omega

/-- Every element has its slice. -/
theorem exists_mem_slice {w : Nat} {xs : List α} {x : α} (hw : 0 < w) (hx : x ∈ xs) :
    ∃ i, i < sliceCount w xs.length ∧ x ∈ slice w i xs := by
  obtain ⟨j, hj⟩ := List.mem_iff_getElem?.mp hx
  have hLt : j < xs.length := (List.getElem?_eq_some_iff.mp hj).1
  have hLow : j / w * w ≤ j := Nat.div_mul_le_self j w
  have hHigh : j < (j / w + 1) * w := by
    rw [Nat.mul_comm]
    exact Nat.lt_mul_div_succ j hw
  refine ⟨j / w, ?_, mem_slice_iff.mpr ⟨j, hLow, hHigh, hj⟩⟩
  rw [lt_sliceCount_iff hw]
  omega

/-- In a list without repetitions an element has one slice only. -/
theorem slice_index_unique {w i k : Nat} {xs : List α} {x : α} (h : xs.Nodup)
    (hi : x ∈ slice w i xs) (hk : x ∈ slice w k xs) : i = k := by
  obtain ⟨j, hLow, hHigh, hj⟩ := mem_slice_iff.mp hi
  obtain ⟨j', hLow', hHigh', hj'⟩ := mem_slice_iff.mp hk
  have hLt : j < xs.length := (List.getElem?_eq_some_iff.mp hj).1
  obtain rfl : j = j' := (List.getElem?_inj hLt h).mp (hj.trans hj'.symm)
  rcases Nat.lt_trichotomy i k with hLess | hSame | hMore
  · have hStep : (i + 1) * w ≤ k * w := Nat.mul_le_mul_right w hLess
    omega
  · exact hSame
  · have hStep : (k + 1) * w ≤ i * w := Nat.mul_le_mul_right w hMore
    omega

/-- A slice of a longer list, cut at the old length. -/
theorem slice_append (w i : Nat) (xs ys : List α) :
    slice w i (xs ++ ys) = slice w i xs ++ sliceFrom w i xs.length (xs ++ ys) := by
  rw [slice_eq, slice_eq, sliceFrom, List.take_append, List.drop_append,
    List.drop_append, List.length_take]
  have hOld : (xs.take ((i + 1) * w)).drop (max (i * w) xs.length) = [] := by
    rw [List.drop_eq_nil_iff, List.length_take]
    omega
  rw [hOld, List.nil_append]
  congr 1
  rcases Nat.le_total ((i + 1) * w) xs.length with hShort | hLong
  · rw [Nat.sub_eq_zero_of_le hShort]
    simp
  · congr 1
    have hStep : (i + 1) * w = i * w + w := Nat.succ_mul i w
    omega

/-- A slice that is not empty gains nothing by an append only if nothing is appended
or it is full. -/
theorem sliceFrom_append_eq_nil_iff {w i : Nat} {xs : List α} (ys : List α)
    (hSlice : slice w i xs ≠ []) :
    sliceFrom w i xs.length (xs ++ ys) = [] ↔ ys = [] ∨ (slice w i xs).length = w := by
  have hStep : (i + 1) * w = i * w + w := Nat.succ_mul i w
  have hLength : (slice w i xs).length = min ((i + 1) * w) xs.length - i * w := by
    rw [slice_eq, List.length_drop, List.length_take]
  have hPos : 0 < (slice w i xs).length := List.length_pos_of_ne_nil hSlice
  rw [sliceFrom, List.drop_eq_nil_iff, List.length_take, List.length_append,
    ← List.length_eq_zero_iff]
  omega

end RoqWhitebit.General
