import Mathlib.Algebra.Ring.Nat
import Mathlib.Data.List.Basic
import Mathlib.Data.List.Nodup

/-!
# Blocks of consecutive identifiers

A counter of 64 bits that is incremented before each use hands out a block: the
identifiers after its start.  Zero is among them exactly if the counter wraps, and as
long as it does not, the block is an interval, so that two blocks can be compared by
their ends.
-/

namespace RoqWhitebit.General

/-- The first identifiers after `base`. -/
def block (base : UInt64) : Nat → List UInt64
  | 0 => []
  | n + 1 => (base + 1) :: block (base + 1) n

@[simp] theorem length_block (base : UInt64) (n : Nat) : (block base n).length = n := by
  induction n generalizing base with
  | zero => rfl
  | succ n ih => rw [block, List.length_cons, ih]

/-- A block goes on where its first part ends. -/
theorem block_add (base : UInt64) (m n : Nat) :
    block base (m + n) = block base m ++ block (base + UInt64.ofNat m) n := by
  induction m generalizing base with
  | zero =>
      rw [Nat.zero_add]
      show block base n = block (base + 0) n
      rw [UInt64.add_zero]
  | succ m ih =>
      have hNext : base + 1 + UInt64.ofNat m = base + UInt64.ofNat (m + 1) := by
        rw [Nat.add_comm m 1, UInt64.ofNat_add, UInt64.add_assoc]
        rfl
      rw [Nat.add_right_comm, block, ih, block, List.cons_append, hNext]

/-- The successor, short of the end. -/
theorem toNat_add_one (base : UInt64) (h : base.toNat + 1 < 2 ^ 64) :
    (base + 1).toNat = base.toNat + 1 := by
  rw [UInt64.toNat_add]
  exact Nat.mod_eq_of_lt h

/-- A block that does not wrap is an interval. -/
theorem toNat_block {base : UInt64} {n : Nat} (h : base.toNat + n < 2 ^ 64) :
    (block base n).map UInt64.toNat = List.range' (base.toNat + 1) n := by
  induction n generalizing base with
  | zero => rfl
  | succ n ih =>
      have hNext := toNat_add_one base (by omega)
      rw [block, List.map_cons, ih (by omega), hNext, List.range'_succ]

theorem toNat_injective : Function.Injective UInt64.toNat := fun _ _ => UInt64.toNat.inj

section Intervals

variable {base base' : UInt64} {m n : Nat}

theorem mem_block_iff (h : base.toNat + n < 2 ^ 64) {x : UInt64} :
    x ∈ block base n ↔ base.toNat < x.toNat ∧ x.toNat ≤ base.toNat + n := by
  rw [← List.mem_map_of_injective toNat_injective, toNat_block h, List.mem_range'_1]
  omega

theorem block_nodup (h : base.toNat + n < 2 ^ 64) : (block base n).Nodup := by
  apply List.Nodup.of_map UInt64.toNat
  rw [toNat_block h]
  exact List.nodup_range'

/-- A block has a zero just when its counter wraps. -/
theorem zero_notMem_block_iff : 0 ∉ block base n ↔ base.toNat + n < 2 ^ 64 := by
  constructor
  · intro hZero
    induction n generalizing base with
    | zero => exact base.toNat_lt
    | succ n ih =>
        rw [block, List.mem_cons, not_or] at hZero
        have hBound : base.toNat + 1 < 2 ^ 64 := by
          by_contra hEnd
          apply hZero.1
          apply UInt64.toNat.inj
          have hLast := base.toNat_lt
          have hMax : base.toNat = 2 ^ 64 - 1 := by omega
          rw [UInt64.toNat_add, hMax]
          rfl
        have hRest := ih hZero.2
        rw [toNat_add_one base hBound] at hRest
        omega
  · intro h hZero
    have hLow := ((mem_block_iff h).mp hZero).1
    exact absurd hLow (Nat.not_lt_zero _)

/-- Two blocks have nothing in common just when the later one is empty or starts where
the earlier one has ended. -/
theorem disjoint_block_iff (h : base.toNat + m < 2 ^ 64) (h' : base'.toNat + n < 2 ^ 64)
    (hLe : base.toNat ≤ base'.toNat) :
    List.Disjoint (block base m) (block base' n) ↔ n = 0 ∨ base.toNat + m ≤ base'.toNat := by
  rw [List.disjoint_left]
  constructor
  · intro hDisjoint
    by_contra hMeet
    have hNext := toNat_add_one base' (by omega)
    apply hDisjoint (a := base' + 1)
    · rw [mem_block_iff h, hNext]
      omega
    · rw [mem_block_iff h', hNext]
      omega
  · intro hApart x hx hx'
    rw [mem_block_iff h] at hx
    rw [mem_block_iff h'] at hx'
    omega

end Intervals

end RoqWhitebit.General
