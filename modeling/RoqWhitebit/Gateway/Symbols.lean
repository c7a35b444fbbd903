import RoqWhitebit.General.Slices

/-!
# The shared list of symbols

`core::Symbols` is an append-only list cut into slices of positive width.  Its
call operator appends and reports the number of non-empty slices together with
the length before the append; `get_slice` reads the end of one slice.
-/

namespace RoqWhitebit.Gateway

open RoqWhitebit.General

/-- `roq::Symbol` -/
abbrev Symbol := String

/-- `core::Symbols` -/
structure Symbols where
  /-- `settings.ws.max_subscriptions_per_stream` -/
  maxSubscriptions : Nat
  positive : 0 < maxSubscriptions
  names : List Symbol := []

namespace Symbols

/-- The number of non-empty slices. -/
def size (s : Symbols) : Nat := sliceCount s.maxSubscriptions s.names.length

/-- `core::Symbols::get_slice` -/
def getSlice (s : Symbols) (index startFrom : Nat) : List Symbol :=
  sliceFrom s.maxSubscriptions index startFrom s.names

/-- The list after `core::Symbols::operator()`. -/
def append (new : List Symbol) (s : Symbols) : Symbols :=
  { s with names := s.names ++ new }

/-- `core::Symbols::operator()`: the list afterwards, and the pair it returns. -/
def add (s : Symbols) (new : List Symbol) : Symbols × Nat × Nat :=
  (s.append new, (s.append new).size, s.names.length)

@[simp] theorem append_names (new : List Symbol) (s : Symbols) :
    (s.append new).names = s.names ++ new := rfl

@[simp] theorem append_maxSubscriptions (new : List Symbol) (s : Symbols) :
    (s.append new).maxSubscriptions = s.maxSubscriptions := rfl

/-- Every slice keeps what it has and gains what `get_slice` returns from the old
length on. -/
theorem getSlice_append (s : Symbols) (new : List Symbol) (index : Nat) :
    (s.append new).getSlice index 0 =
      s.getSlice index 0 ++ (s.append new).getSlice index s.names.length :=
  slice_append s.maxSubscriptions index s.names new

/-- Nothing is at the end of the list. -/
theorem getSlice_length (s : Symbols) (index : Nat) : s.getSlice index s.names.length = [] := by
  have hSame : s.append [] = s := by
    unfold append
    rw [List.append_nil]
  have hAppend := s.getSlice_append [] index
  rw [hSame] at hAppend
  exact List.self_eq_append_right.mp hAppend

/-- What a slice gains is nothing if nothing is appended or the slice is full. -/
theorem getSlice_append_eq_nil_iff {s : Symbols} {index : Nat} (new : List Symbol)
    (hSlice : s.getSlice index 0 ≠ []) :
    (s.append new).getSlice index s.names.length = [] ↔
      new = [] ∨ (s.getSlice index 0).length = s.maxSubscriptions :=
  sliceFrom_append_eq_nil_iff new hSlice

theorem getSlice_ne_nil_iff (s : Symbols) (index : Nat) :
    s.getSlice index 0 ≠ [] ↔ index < s.size :=
  slice_ne_nil_iff s.names s.positive

theorem mem_names_of_mem_getSlice {s : Symbols} {index : Nat} {name : Symbol}
    (h : name ∈ s.getSlice index 0) : name ∈ s.names :=
  mem_of_mem_slice h

theorem exists_mem_getSlice {s : Symbols} {name : Symbol} (h : name ∈ s.names) :
    ∃ index, index < s.size ∧ name ∈ s.getSlice index 0 :=
  exists_mem_slice s.positive h

theorem size_le_append_size (s : Symbols) (new : List Symbol) :
    s.size ≤ (s.append new).size := by
  unfold size sliceCount
  apply Nat.div_le_div_right
  rw [append_maxSubscriptions, append_names, List.length_append]
  omega

end Symbols

end RoqWhitebit.Gateway
