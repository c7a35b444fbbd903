import Mathlib.Algebra.Ring.Int.Defs
import Mathlib.Data.Rat.Init

/-!
# What the gateway takes from `roq-utils`

The functions of `roq-utils` are not part of the repository, so they are parameters of
everything built on them.  What the gateway relies on is a field next to the function:
`utils::update` stores the value and compares, `utils::safe_cast` throws below zero.
Nothing is said about the hash, the number parsers and `utils::from_double`; the results
that need more name it.

`Utils.standard` is one instance: the 64-bit FNV-1a hash, plain decimal numerals and
exact durations.
-/

namespace RoqWhitebit

/-- The functions of `roq-utils` the gateway calls. -/
structure Utils where
  /-- `utils::detail::ascii_to_lower` -/
  asciiToLower : Char → Char
  /-- `utils::hash::FNV::compute` -/
  fnv : String → UInt64
  /-- `utils::charconv::from_chars<int32_t>`; `none` where it throws -/
  fromCharsInt32 : String → Option Int
  /-- `utils::charconv::from_chars<int64_t>`; `none` where it throws -/
  fromCharsInt64 : String → Option Int
  /-- `utils::charconv::from_chars<std::chrono::microseconds>` with
  `Format::DATETIME`; `none` where it throws -/
  fromCharsDatetime : String → Option Int
  /-- `utils::from_double`: a duration in seconds -/
  fromDouble : ℚ → ℚ
  /-- `utils::update(result, value)`: what is stored, and the flag it returns -/
  update : Int → Int → Int × Bool
  update_eq : ∀ result value, update result value = (value, result != value)
  /-- `utils::safe_cast` to an unsigned integer; `none` where it throws -/
  safeCast : Int64 → Option UInt64
  safeCast_of_nonneg : ∀ n, 0 ≤ n → safeCast n = some n.toUInt64
  safeCast_of_neg : ∀ n, n < 0 → safeCast n = none

namespace Utils

/-- The 64-bit FNV-1a hash of an ASCII text. -/
def fnv1a (text : String) : UInt64 :=
  text.toList.foldl
    (fun hash c => (hash ^^^ c.toNat.toUInt64) * 0x100000001b3)
    0xcbf29ce484222325

/-- The value of a run of decimal digits after `acc`. -/
def digits (acc : Nat) : List Char → Option Nat
  | [] => some acc
  | c :: cs => if c.isDigit then digits (10 * acc + (c.toNat - 48)) cs else none

/-- A decimal numeral with an optional minus sign. -/
def numeral : List Char → Option Int
  | [] => none
  | '-' :: c :: cs => (digits 0 (c :: cs)).map fun n => -(n : Int)
  | c :: cs => (digits 0 (c :: cs)).map fun n => (n : Int)

/-- A numeral that fits into a signed integer of the given width. -/
def fromChars (width : Nat) (text : String) : Option Int :=
  (numeral text.toList).filter fun n =>
    decide (-2 ^ (width - 1) ≤ n ∧ n < 2 ^ (width - 1))

/-- FNV-1a, decimal numerals and exact durations; no text is a date. -/
def standard : Utils where
  asciiToLower := Char.toLower
  fnv := fnv1a
  fromCharsInt32 := fromChars 32
  fromCharsInt64 := fromChars 64
  fromCharsDatetime := fun _ => none
  fromDouble := fun seconds => seconds
  update := fun result value => (value, result != value)
  update_eq := fun _ _ => rfl
  safeCast := fun n => if n < 0 then none else some n.toUInt64
  safeCast_of_nonneg := fun _ h => if_neg (Int64.not_lt.mpr h)
  safeCast_of_neg := fun _ h => if_pos h

example : standard.fromCharsInt32 "-17" = some (-17) := by decide

end Utils

end RoqWhitebit
