import Mathlib.Data.Rat.Floor
import Mathlib.Tactic.Linarith
import Mathlib.Tactic.NormNum
import RoqWhitebit.Exceptions
import RoqWhitebit.General.Truncation
import RoqWhitebit.Protocol.Json.Value
import RoqWhitebit.Utils

/-!
# Wire timestamps

Every timestamp of the protocol is declared `std/microseconds` in its schema and
decoded by one specialization of `update`.  The exchange sends seconds, mostly
with a fraction, and the `double` alternative converts them.  The `int64_t`
alternative takes the number as it is, as a count of microseconds: a timestamp
on a whole second decodes to a moment a million times closer to the epoch.

The results are about a `utils::from_double` that is the duration of so many seconds,
exactly (`ExactDuration`).
-/

namespace RoqWhitebit.Protocol.Json

open RoqWhitebit.General

/-- `std::chrono::duration_cast<std::chrono::microseconds>` of a duration in
seconds. -/
def durationCast (duration : ℚ) : Int := truncate (1000000 * duration)

/-- `update(std::chrono::microseconds &, core::json::Value const &)`: the count
of microseconds it stores. -/
def update (u : Utils) : Value → Except Exception Int
  | .null => .ok 0
  | .bool _ => .error (.other "std::bad_cast")
  | .int64 value => .ok value
  | .double value => .ok (durationCast (u.fromDouble value))
  | .string value =>
      match u.fromCharsDatetime value with
      | none => .error (.other "from_chars")
      | some count => .ok count
  | .object _ => .error (.other "std::bad_cast")
  | .array _ => .error (.other "std::bad_cast")

/-- `utils::from_double` is the duration of so many seconds. -/
def ExactDuration (u : Utils) : Prop := ∀ x, u.fromDouble x = x

/-- The timestamps of the web-socket messages. -/
inductive WireTimestamp where
  /-- `DepthUpdateParamsItemData.timestamp` -/
  | depthTimestamp
  /-- `DepthUpdateParamsItemData.event_time` -/
  | depthEventTime
  /-- `BookTickerUpdateParamsItem.transaction_time` -/
  | bookTickerTransactionTime
  /-- `BookTickerUpdateParamsItem.message_time` -/
  | bookTickerMessageTime
  /-- `TradesUpdateParamsItemItem.time` -/
  | tradeTime
  deriving DecidableEq, Repr

/-- The generated decoders read each of them by the same `update`. -/
def WireTimestamp.decode (u : Utils) : WireTimestamp → Value → Except Exception Int
  | .depthTimestamp => update u
  | .depthEventTime => update u
  | .bookTickerTransactionTime => update u
  | .bookTickerMessageTime => update u
  | .tradeTime => update u

theorem decode_eq_update (u : Utils) (field : WireTimestamp) :
    field.decode u = update u := by
  cases field <;> rfl

/-- Both values decode, and the first one to no later moment. -/
def DecodesInOrder (u : Utils) (field : WireTimestamp) (a b : Value) : Prop :=
  ∃ i j, field.decode u a = .ok i ∧ field.decode u b = .ok j ∧ i ≤ j

/-- Both spellings of a whole number of seconds decode to it. -/
def DecodesWholeSecond (u : Utils) (field : WireTimestamp) (n : Int) : Prop :=
  field.decode u (.int64 n) = .ok (1000000 * n) ∧
    field.decode u (.double n) = .ok (1000000 * n)

/-- Two numbers `a ≤ b` whose spellings do not get into each other's way: both
are spelled alike, or the one without a fraction is on the far side of zero, or
so close to it that the other one is not passed by its count of seconds taken as
microseconds. -/
def SpelledInOrder : Value → Value → Prop
  | .int64 n, .double y => 0 ≤ n ∨ (n : ℚ) - 1 < 1000000 * y
  | .double x, .int64 n => n ≤ 0 ∨ 1000000 * x < (n : ℚ) + 1
  | _, _ => True

/-! ## The two alternatives -/

theorem decode_int64 (u : Utils) (field : WireTimestamp) (n : Int) :
    field.decode u (.int64 n) = .ok n := by
  rw [decode_eq_update]
  rfl

theorem decode_double {u : Utils} (hExact : ExactDuration u) (field : WireTimestamp) (x : ℚ) :
    field.decode u (.double x) = .ok (truncate (1000000 * x)) := by
  rw [decode_eq_update]
  show Except.ok (durationCast (u.fromDouble x)) = _
  rw [hExact x]
  rfl

theorem decodesInOrder_iff {u : Utils} {field : WireTimestamp} {a b : Value}
    {i j : Int} (ha : field.decode u a = .ok i) (hb : field.decode u b = .ok j) :
    DecodesInOrder u field a b ↔ i ≤ j := by
  constructor
  · rintro ⟨i', j', hi, hj, hLe⟩
    rw [ha] at hi
    rw [hb] at hj
    cases hi
    cases hj
    exact hLe
  · intro hLe
    exact ⟨i, j, ha, hb, hLe⟩

/-- A count of seconds taken as microseconds, then a number of seconds. -/
theorem int_le_truncate_iff {n : Int} {y : ℚ} (h : (n : ℚ) ≤ y) :
    n ≤ truncate (1000000 * y) ↔ 0 ≤ n ∨ (n : ℚ) - 1 < 1000000 * y := by
  rcases lt_or_ge n 0 with hNeg | hNonneg
  · rw [le_truncate_iff_of_nonpos hNeg.le]
    exact ⟨Or.inr, fun h => h.resolve_left (not_le.mpr hNeg)⟩
  · refine iff_of_true ?_ (Or.inl hNonneg)
    have hn : (0 : ℚ) ≤ n := Int.cast_nonneg hNonneg
    rw [← truncate_intCast (α := ℚ) n]
    exact truncate_mono (by linarith)

/-- A number of seconds, then a count of seconds taken as microseconds. -/
theorem truncate_le_int_iff {n : Int} {x : ℚ} (h : x ≤ (n : ℚ)) :
    truncate (1000000 * x) ≤ n ↔ n ≤ 0 ∨ 1000000 * x < (n : ℚ) + 1 := by
  rcases lt_or_ge 0 n with hPos | hNonpos
  · rw [truncate_le_iff_of_nonneg hPos.le]
    exact ⟨Or.inr, fun h => h.resolve_left (not_le.mpr hPos)⟩
  · refine iff_of_true ?_ (Or.inl hNonpos)
    have hn : (n : ℚ) ≤ 0 := Int.cast_nonpos.mpr hNonpos
    rw [← truncate_intCast (α := ℚ) n]
    exact truncate_mono (by linarith)

/-- For numbers `x ≤ y`, the decoded moments are in order exactly if the
spellings are. -/
theorem decodes_in_order_iff {u : Utils} (hExact : ExactDuration u) (field : WireTimestamp)
    {a b : Value} {x y : ℚ} (ha : a.number = some x) (hb : b.number = some y) (hLe : x ≤ y) :
    DecodesInOrder u field a b ↔ SpelledInOrder a b := by
  cases a with
  | int64 n =>
      obtain rfl : (n : ℚ) = x := Option.some.inj ha
      cases b with
      | int64 m =>
          obtain rfl : (m : ℚ) = y := Option.some.inj hb
          rw [decodesInOrder_iff (decode_int64 u field n) (decode_int64 u field m)]
          exact iff_of_true (Int.cast_le.mp hLe) trivial
      | double q =>
          obtain rfl : q = y := Option.some.inj hb
          rw [decodesInOrder_iff (decode_int64 u field n) (decode_double hExact field q)]
          exact int_le_truncate_iff hLe
      | _ => cases hb
  | double p =>
      obtain rfl : p = x := Option.some.inj ha
      cases b with
      | int64 m =>
          obtain rfl : (m : ℚ) = y := Option.some.inj hb
          rw [decodesInOrder_iff (decode_double hExact field p) (decode_int64 u field m)]
          exact truncate_le_int_iff hLe
      | double q =>
          obtain rfl : q = y := Option.some.inj hb
          rw [decodesInOrder_iff (decode_double hExact field p) (decode_double hExact field q)]
          exact iff_of_true (truncate_mono (by linarith)) trivial
      | _ => cases hb
  | _ => cases ha

theorem decodes_whole_second_iff {u : Utils} (hExact : ExactDuration u)
    (field : WireTimestamp) (n : Int) :
    DecodesWholeSecond u field n ↔ n = 0 := by
  have hDouble : truncate (1000000 * (n : ℚ)) = 1000000 * n := by
    rw [show (1000000 * (n : ℚ)) = ((1000000 * n : Int) : ℚ) by push_cast; rfl,
      truncate_intCast]
  rw [DecodesWholeSecond, decode_int64, decode_double hExact, hDouble]
  constructor
  · rintro ⟨hInt, _⟩
    have hEq : n = 1000000 * n := Except.ok.inj hInt
    omega
  · rintro rfl
    exact ⟨rfl, rfl⟩

/--
**Timestamp decoding.**  For every wire timestamp: two numbers in order decode
to moments in order exactly if their spellings are in order, and a whole number
of seconds decodes to the right moment in both spellings exactly if it is zero.
-/
theorem timestamps_decode_iff (u : Utils) (hExact : ExactDuration u) (field : WireTimestamp) :
    (∀ (a b : Value) (x y : ℚ), a.number = some x → b.number = some y → x ≤ y →
      (DecodesInOrder u field a b ↔ SpelledInOrder a b)) ∧
    ∀ n : Int, DecodesWholeSecond u field n ↔ n = 0 :=
  ⟨fun _ _ _ _ ha hb hLe => decodes_in_order_iff hExact field ha hb hLe,
    decodes_whole_second_iff hExact field⟩

theorem exactDuration_standard : ExactDuration .standard := fun _ => rfl

/-- Half a second before a whole one, both spelled with a fraction. -/
theorem timestamps_decode_iff_fractions :
    (DecodesInOrder .standard .tradeTime (.double (1785727719.5)) (.double 1785727720) ↔
      SpelledInOrder (.double (1785727719.5)) (.double 1785727720)) ∧
    (DecodesWholeSecond .standard .tradeTime 1785727720 ↔ (1785727720 : Int) = 0) :=
  ⟨(timestamps_decode_iff .standard exactDuration_standard .tradeTime).1 _ _ 1785727719.5
      1785727720 rfl rfl (by norm_num),
    (timestamps_decode_iff .standard exactDuration_standard .tradeTime).2 1785727720⟩

/-- A trade half a second before a whole one decodes to a later moment than a
trade on the whole second. -/
theorem whole_second_decodes_too_early :
    ¬∀ (u : Utils) (field : WireTimestamp) (a b : Value) (x y : ℚ), ExactDuration u →
      a.number = some x → b.number = some y → x ≤ y →
      |1000000 * x| < 2 ^ 63 → |1000000 * y| < 2 ^ 63 →
      DecodesInOrder u field a b := by
  intro h
  have hOrder := h .standard .tradeTime (.double 1785727719.5) (.int64 1785727720)
    1785727719.5 1785727720 exactDuration_standard rfl (by simp [Value.number]) (by norm_num)
    (by norm_num) (by norm_num)
  have hSpelled := (decodes_in_order_iff exactDuration_standard .tradeTime
    (a := .double 1785727719.5) (b := .int64 1785727720) rfl rfl (by norm_num)).mp hOrder
  norm_num [SpelledInOrder] at hSpelled

end RoqWhitebit.Protocol.Json
