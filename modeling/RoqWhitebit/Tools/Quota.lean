import Mathlib.Order.Lattice
import RoqWhitebit.Tools.ThrottleCounts

/-!
# The quota behind the throttle

What the throttle is for needs three values only: the number of requests left
(`limitStatus`), the time at which the quota is refilled (`resetTimestamp`) and
the time until which requests are held back.  `Quota` keeps just these, and its
step function says in one line per event what happens to them, with a rounding of the
counts: `id` for the exact throttle, `wrap` for the one of the machine.  `quota_stepIn`
connects it to the handlers of the enabled throttle, so that the results about
runs never unfold a handler.
-/

namespace RoqWhitebit.Tools

open RoqWhitebit.General

/-- The three values that decide whether requests are held back. -/
structure Quota where
  limitStatus : Int
  resetTimestamp : Int
  suspendUntil : Int
  deriving DecidableEq, Repr

/-- What the throttle knows about the quota. -/
def Throttle.quota (t : Throttle) : Quota :=
  ⟨t.params.limitStatus, t.params.limitResetTimestamp, t.suspendUntil⟩

@[simp] theorem quota_limitStatus (t : Throttle) :
    t.quota.limitStatus = t.params.limitStatus := rfl

@[simp] theorem quota_resetTimestamp (t : Throttle) :
    t.quota.resetTimestamp = t.params.limitResetTimestamp := rfl

@[simp] theorem quota_suspendUntil (t : Throttle) :
    t.quota.suspendUntil = t.suspendUntil := rfl

/-- Until when an exhausted quota with reset timestamp `r` holds requests back:
the reset itself, or the default back-off where the reset has passed. -/
def deadline (round : Int → Int) (now nowUtc r : Int) : Int :=
  if nowUtc < round (milliseconds r) then
    round (now + round (round (milliseconds r) - nowUtc))
  else round (now + defaultBackoff)

/-- With the clocks in range a deadline lies ahead on the machine, too. -/
theorem now_lt_deadline64 {now nowUtc : Int} (hNow : 0 ≤ now) (hLe : now ≤ nowUtc)
    (hUtc : nowUtc < 2 ^ 62) (r : Int) : now < deadline wrap now nowUtc r := by
  have hTimestamp : InRange (wrap (milliseconds r)) := inRange_wrap _
  unfold deadline
  split
  · next hAhead =>
      have hPeriod : InRange (wrap (milliseconds r) - nowUtc) := by
        unfold InRange at *
        omega
      rw [wrap_of_inRange hPeriod]
      have hUntil : InRange (now + (wrap (milliseconds r) - nowUtc)) := by
        unfold InRange at *
        omega
      rw [wrap_of_inRange hUntil]
      omega
  · have hBackoff : defaultBackoff = 5000000000 := by decide
    have hUntil : InRange (now + defaultBackoff) := by
      unfold InRange
      omega
    rw [wrap_of_inRange hUntil]
    omega

namespace Quota

/-- The quota is exhausted, and it is known when it is refilled. -/
def Exhausted (limitStatus resetTimestamp : Int) : Prop :=
  limitStatus ≤ 0 ∧ resetTimestamp ≠ 0

instance (limitStatus resetTimestamp : Int) :
    Decidable (Exhausted limitStatus resetTimestamp) := by
  unfold Exhausted
  infer_instance

/-- The suspension after the three values have been looked at. -/
def recompute (round : Int → Int) (now nowUtc : Int) (q : Quota) : Quota :=
  { q with
    suspendUntil :=
      if Exhausted q.limitStatus q.resetTimestamp then
        max q.suspendUntil (deadline round now nowUtc q.resetTimestamp)
      else 0 }

theorem recompute_exhausted {round : Int → Int} {now nowUtc : Int} {q : Quota}
    (h : Exhausted q.limitStatus q.resetTimestamp) :
    q.recompute round now nowUtc =
      { q with
        suspendUntil :=
          max q.suspendUntil (deadline round now nowUtc q.resetTimestamp) } := by
  rw [recompute, if_pos h]

theorem recompute_not_exhausted {round : Int → Int} {now nowUtc : Int} {q : Quota}
    (h : ¬Exhausted q.limitStatus q.resetTimestamp) :
    q.recompute round now nowUtc = { q with suspendUntil := 0 } := by
  rw [recompute, if_neg h]

/-- A new limit status; a value seen before changes nothing. -/
def setStatus (round : Int → Int) (now nowUtc v : Int) (q : Quota) : Quota :=
  if q.limitStatus = v then q
  else ({ q with limitStatus := v }).recompute round now nowUtc

/-- A new reset timestamp; a value seen before changes nothing. -/
def setReset (round : Int → Int) (now nowUtc v : Int) (q : Quota) : Quota :=
  if q.resetTimestamp = v then q
  else ({ q with resetTimestamp := v }).recompute round now nowUtc

section NewValues

variable {round : Int → Int} {now nowUtc v : Int} {q : Quota}

theorem setStatus_same (h : q.limitStatus = v) : q.setStatus round now nowUtc v = q :=
  if_pos h

theorem setReset_same (h : q.resetTimestamp = v) : q.setReset round now nowUtc v = q :=
  if_pos h

theorem suspendUntil_setStatus_exhausted (hNew : q.limitStatus ≠ v)
    (hEx : Exhausted v q.resetTimestamp) :
    (q.setStatus round now nowUtc v).suspendUntil =
      max q.suspendUntil (deadline round now nowUtc q.resetTimestamp) := by
  rw [setStatus, if_neg hNew, recompute_exhausted hEx]

theorem suspendUntil_setStatus_cleared (hNew : q.limitStatus ≠ v)
    (hNot : ¬Exhausted v q.resetTimestamp) :
    (q.setStatus round now nowUtc v).suspendUntil = 0 := by
  rw [setStatus, if_neg hNew, recompute_not_exhausted hNot]

theorem suspendUntil_setReset_exhausted (hNew : q.resetTimestamp ≠ v)
    (hEx : Exhausted q.limitStatus v) :
    (q.setReset round now nowUtc v).suspendUntil =
      max q.suspendUntil (deadline round now nowUtc v) := by
  rw [setReset, if_neg hNew, recompute_exhausted hEx]

theorem suspendUntil_setReset_cleared (hNew : q.resetTimestamp ≠ v)
    (hNot : ¬Exhausted q.limitStatus v) :
    (q.setReset round now nowUtc v).suspendUntil = 0 := by
  rw [setReset, if_neg hNew, recompute_not_exhausted hNot]

@[simp] theorem setStatus_limitStatus : (q.setStatus round now nowUtc v).limitStatus = v := by
  unfold setStatus
  split
  · assumption
  · rfl

@[simp] theorem setStatus_resetTimestamp :
    (q.setStatus round now nowUtc v).resetTimestamp = q.resetTimestamp := by
  unfold setStatus
  split <;> rfl

@[simp] theorem setReset_resetTimestamp :
    (q.setReset round now nowUtc v).resetTimestamp = v := by
  unfold setReset
  split
  · assumption
  · rfl

@[simp] theorem setReset_limitStatus :
    (q.setReset round now nowUtc v).limitStatus = q.limitStatus := by
  unfold setReset
  split <;> rfl

end NewValues

/-- The value a header gives to the quota, if it is one of the two that matter
and parses. -/
inductive Reading where
  | status (v : Int)
  | reset (v : Int)
  | nothing
  deriving DecidableEq, Repr

def reading (u : Utils) (name value : String) : Reading :=
  match parseHeader u name with
  | .xBapiLimitStatus => (u.fromCharsInt32 value).elim .nothing .status
  | .xBapiLimitResetTimestamp => (u.fromCharsInt64 value).elim .nothing .reset
  | _ => .nothing

/-- A header, by what it reads. -/
def read (round : Int → Int) (now nowUtc : Int) (q : Quota) : Reading → Quota
  | .status v => q.setStatus round now nowUtc v
  | .reset v => q.setReset round now nowUtc v
  | .nothing => q

/-- The end of a response. -/
def finish (round : Int → Int) (status : Status) (now : Int) (q : Quota) : Quota :=
  match status with
  | .forbidden =>
      { q with suspendUntil := max q.suspendUntil (round (now + blockedBackoff)) }
  | .tooManyRequests =>
      if q.suspendUntil = 0 then { q with suspendUntil := round (now + defaultBackoff) }
      else q
  | .other _ => q

def step (round : Int → Int) (u : Utils) (q : Quota) : Event → Quota
  | .messageBegin _ => q
  | .messageHeader name value now nowUtc => q.read round now nowUtc (reading u name value)
  | .messageEnd status now => q.finish round status now

end Quota

/-! ## The throttle keeps the quota -/

section Simulation

variable (round : Int → Int)

theorem quota_updateSuspendUntilIn (now nowUtc : Int) (t : Throttle)
    (hEnabled : t.enabled = true) :
    (t.updateSuspendUntilIn round now nowUtc).1.quota =
      t.quota.recompute round now nowUtc := by
  simp only [Throttle.updateSuspendUntilIn, hEnabled, Bool.not_true,
    Bool.false_eq_true, if_false]
  by_cases hEx : Quota.Exhausted t.params.limitStatus t.params.limitResetTimestamp
  · have hKeep : ¬(t.params.limitStatus > 0 ∨ t.params.limitResetTimestamp = 0) := by
      obtain ⟨hStatus, hReset⟩ := hEx
      omega
    rw [Quota.recompute_exhausted hEx, if_neg hKeep,
      quota_resetTimestamp, deadline]
    split <;> rfl
  · have hClear : t.params.limitStatus > 0 ∨ t.params.limitResetTimestamp = 0 := by
      unfold Quota.Exhausted at hEx
      omega
    rw [Quota.recompute_not_exhausted hEx, if_pos hClear]
    rfl

theorem quota_messageHeaderIn (u : Utils) (name value : String) (now nowUtc : Int)
    (t : Throttle) (hEnabled : t.enabled = true) :
    (t.messageHeaderIn round u name value now nowUtc).1.quota =
      t.quota.read round now nowUtc (Quota.reading u name value) := by
  unfold Throttle.messageHeaderIn Quota.reading
  cases parseHeader u name with
  | unknown => rfl
  | xBapiLimit => cases u.fromCharsInt32 value <;> rfl
  | xBapiLimitStatus =>
      cases u.fromCharsInt32 value with
      | none => rfl
      | some v =>
          simp only [u.update_eq, bne_iff_ne, Option.elim_some, Quota.read, Quota.setStatus]
          by_cases hSame : t.params.limitStatus = v
          · subst hSame
            simp
          · simp only [ne_eq, hSame, not_false_eq_true, if_true, quota_limitStatus,
              if_false]
            exact quota_updateSuspendUntilIn round now nowUtc _ hEnabled
  | xBapiLimitResetTimestamp =>
      cases u.fromCharsInt64 value with
      | none => rfl
      | some v =>
          simp only [u.update_eq, bne_iff_ne, Option.elim_some, Quota.read, Quota.setReset]
          by_cases hSame : t.params.limitResetTimestamp = v
          · subst hSame
            simp
          · simp only [ne_eq, hSame, not_false_eq_true, if_true,
              quota_resetTimestamp, if_false]
            exact quota_updateSuspendUntilIn round now nowUtc _ hEnabled

theorem quota_messageEndIn (status : Status) (now : Int) (t : Throttle)
    (hEnabled : t.enabled = true) :
    (t.messageEndIn round status now).1.quota = t.quota.finish round status now := by
  unfold Throttle.messageEndIn Quota.finish
  simp only [hEnabled, Bool.not_true, Bool.false_eq_true, if_false]
  cases status with
  | forbidden => rfl
  | tooManyRequests =>
      by_cases hZero : t.suspendUntil = 0
      · simp only [hZero, quota_suspendUntil, if_true]
        rfl
      · simp only [hZero, quota_suspendUntil, if_false]
  | other code => rfl

/-- **Simulation**: one event of the enabled throttle is one event of its quota, whatever
the rounding. -/
theorem quota_stepIn (u : Utils) (t : Throttle) (e : Event) (hEnabled : t.enabled = true) :
    (t.stepIn round u e).1.quota = t.quota.step round u e := by
  cases e with
  | messageBegin now => rfl
  | messageHeader name value now nowUtc =>
      exact quota_messageHeaderIn round u name value now nowUtc t hEnabled
  | messageEnd status now => exact quota_messageEndIn round status now t hEnabled

end Simulation

/-- The exact throttle. -/
theorem quota_step (u : Utils) (t : Throttle) (e : Event) (hEnabled : t.enabled = true) :
    (t.step u e).quota = t.quota.step id u e := by
  rw [← stepIn_id]
  exact quota_stepIn id u t e hEnabled

/-- On the machine, too. -/
theorem quota_run64 (u : Utils) (t : Throttle) (es : List Event)
    (hEnabled : t.enabled = true) :
    (run (Throttle.step64 u) t es).quota = run (Quota.step wrap u) t.quota es := by
  induction es generalizing t with
  | nil => rfl
  | cons e es ih =>
      have hStep : (t.step64 u e).quota = t.quota.step wrap u e :=
        quota_stepIn wrap u t e hEnabled
      rw [run_cons, run_cons, ← hStep]
      exact ih (t.step64 u e) (by rw [step64_enabled]; exact hEnabled)

end RoqWhitebit.Tools
