import Mathlib.Algebra.Order.Floor.Ring
import Mathlib.Algebra.Order.Floor.Semiring
import Mathlib.Tactic.Linarith

/-!
# Rounding towards zero

`truncate` is what a cast from an exact quantity to a coarser integral count
does: it drops the fraction, whatever the sign.  On either side of zero it is a
floor or a ceiling, and the two pieces fit together: `truncate` is monotone, and
it is bounded by an integer exactly where a strict or a weak inequality on the
exact quantity says so.
-/

namespace RoqWhitebit.General

variable {α : Type*} [CommRing α] [LinearOrder α] [FloorRing α]

/-- The integer part, rounded towards zero. -/
def truncate (x : α) : ℤ := if 0 ≤ x then ⌊x⌋ else ⌈x⌉

theorem truncate_of_nonneg {x : α} (h : 0 ≤ x) : truncate x = ⌊x⌋ := if_pos h

theorem truncate_of_neg {x : α} (h : x < 0) : truncate x = ⌈x⌉ :=
  if_neg (not_le.mpr h)

variable [IsStrictOrderedRing α]

@[simp] theorem truncate_intCast (n : ℤ) : truncate (n : α) = n := by
  unfold truncate
  split
  · exact Int.floor_intCast n
  · exact Int.ceil_intCast n

/-- A positive lower bound of the truncation is one of the exact quantity. -/
theorem le_truncate_iff_of_pos {n : ℤ} (hn : 0 < n) (x : α) :
    n ≤ truncate x ↔ (n : α) ≤ x := by
  have hn' : (0 : α) < n := Int.cast_pos.mpr hn
  rcases le_or_gt 0 x with hx | hx
  · rw [truncate_of_nonneg hx, Int.le_floor]
  · rw [truncate_of_neg hx]
    have hCeil : ⌈x⌉ ≤ 0 := Int.ceil_le.mpr (by rw [Int.cast_zero]; exact hx.le)
    exact iff_of_false (by omega) (not_le.mpr (lt_trans hx hn'))

/-- A lower bound that is not positive has one unit to spare. -/
theorem le_truncate_iff_of_nonpos {n : ℤ} (hn : n ≤ 0) (x : α) :
    n ≤ truncate x ↔ (n : α) - 1 < x := by
  have hn' : (n : α) ≤ 0 := Int.cast_nonpos.mpr hn
  rcases le_or_gt 0 x with hx | hx
  · rw [truncate_of_nonneg hx]
    have hFloor : 0 ≤ ⌊x⌋ := Int.floor_nonneg.mpr hx
    exact iff_of_true (by omega) (by linarith)
  · rw [truncate_of_neg hx, ← Int.sub_one_lt_iff, Int.lt_ceil, Int.cast_sub,
      Int.cast_one]

/-- Rounding towards zero is symmetric. -/
theorem truncate_neg (x : α) : truncate (-x) = -truncate x := by
  rcases lt_trichotomy x 0 with hx | hx | hx
  · rw [truncate_of_neg hx, truncate_of_nonneg (by linarith), Int.floor_neg]
  · subst hx
    simp [truncate]
  · rw [truncate_of_neg (by linarith), truncate_of_nonneg hx.le, Int.ceil_neg]

theorem truncate_le_iff_of_nonneg {n : ℤ} (hn : 0 ≤ n) (x : α) :
    truncate x ≤ n ↔ x < (n : α) + 1 := by
  have h := le_truncate_iff_of_nonpos (neg_nonpos.mpr hn) (-x)
  rw [truncate_neg, Int.cast_neg, neg_le_neg_iff] at h
  rw [h]
  constructor <;> intro hLt <;> linarith

theorem truncate_mono {x y : α} (h : x ≤ y) : truncate x ≤ truncate y := by
  rcases lt_or_ge 0 (truncate x) with hPos | hNonpos
  · have hx := (le_truncate_iff_of_pos hPos x).mp le_rfl
    exact (le_truncate_iff_of_pos hPos y).mpr (le_trans hx h)
  · have hx := (le_truncate_iff_of_nonpos hNonpos x).mp le_rfl
    exact (le_truncate_iff_of_nonpos hNonpos y).mpr (lt_of_lt_of_le hx h)

end RoqWhitebit.General
