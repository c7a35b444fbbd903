import Mathlib.Algebra.Ring.Nat
import RoqWhitebit.Tools.Throttle

/-!
# The throttle in 64 bits

The handlers of the throttle compute with signed 64-bit counts of nanoseconds, and the
reset timestamp is multiplied by a million before it is compared with a clock.  Here
the handlers are run with a rounding of every count they compute: with `id` these are
the handlers of `Throttle` (`stepIn_id`), with `wrap` those of the machine (`step64`).

A rounding touches the suspension only: the header values are stored as they are.
-/

namespace RoqWhitebit.Tools

open RoqWhitebit.General

/-! ## Counts of 64 bits -/

/-- A 64-bit signed count: past one end it goes on at the other. -/
def wrap (n : Int) : Int := n.bmod (2 ^ 64)

def InRange (n : Int) : Prop := -2 ^ 63 ≤ n ∧ n < 2 ^ 63

instance (n : Int) : Decidable (InRange n) := by
  unfold InRange
  infer_instance

theorem wrap_of_inRange {n : Int} (h : InRange n) : wrap n = n := by
  unfold InRange at h
  unfold wrap
  rw [Int.bmod_def]
  split <;> omega

theorem inRange_wrap (n : Int) : InRange (wrap n) := by
  unfold InRange wrap
  rw [Int.bmod_def]
  split <;> omega

/-! ## The handlers, with the counts they compute -/

section Handlers

variable (round : Int → Int)

/-- The lambda `update_suspend_until`, and the counts on its way. -/
def Throttle.updateSuspendUntilIn (now nowUtc : Int) (t : Throttle) : Throttle × List Int :=
  if !t.enabled then (t, [])
  else if t.params.limitStatus > 0 ∨ t.params.limitResetTimestamp = 0 then
    ({ t with suspendUntil := 0 }, [])
  else
    let timestamp := round (milliseconds t.params.limitResetTimestamp)
    if nowUtc < timestamp then
      let period := round (timestamp - nowUtc)
      let suspendUntil := round (now + period)
      ({ t with suspendUntil := max t.suspendUntil suspendUntil },
        [timestamp, period, suspendUntil])
    else
      let suspendUntil := round (now + defaultBackoff)
      ({ t with suspendUntil := max t.suspendUntil suspendUntil }, [timestamp, suspendUntil])

/-- `operator()(Trace<web::rest::MessageHeader>)`, and the counts on its way. -/
def Throttle.messageHeaderIn (u : Utils) (name value : String) (now nowUtc : Int)
    (t : Throttle) : Throttle × List Int :=
  match parseHeader u name with
  | .unknown => (t, [])
  | .xBapiLimit =>
      match u.fromCharsInt32 value with
      | none => (t, [])
      | some v =>
          ({ t with params := { t.params with limit := (u.update t.params.limit v).1 } }, [])
  | .xBapiLimitStatus =>
      match u.fromCharsInt32 value with
      | none => (t, [])
      | some v =>
          let (limitStatus, changed) := u.update t.params.limitStatus v
          let t' := { t with params := { t.params with limitStatus := limitStatus } }
          if changed then t'.updateSuspendUntilIn round now nowUtc else (t', [])
  | .xBapiLimitResetTimestamp =>
      match u.fromCharsInt64 value with
      | none => (t, [])
      | some v =>
          let (limitResetTimestamp, changed) :=
            u.update t.params.limitResetTimestamp v
          let t' := { t with
            params := { t.params with limitResetTimestamp := limitResetTimestamp } }
          if changed then t'.updateSuspendUntilIn round now nowUtc else (t', [])

/-- `operator()(Trace<web::rest::MessageEnd>)`, and the counts on its way. -/
def Throttle.messageEndIn (status : Status) (now : Int) (t : Throttle) :
    Throttle × List Int :=
  if !t.enabled then (t, [])
  else
    match status with
    | .forbidden =>
        let suspendUntil := round (now + blockedBackoff)
        ({ t with suspendUntil := max t.suspendUntil suspendUntil }, [suspendUntil])
    | .tooManyRequests =>
        if t.suspendUntil = 0 then
          let suspendUntil := round (now + defaultBackoff)
          ({ t with suspendUntil := suspendUntil }, [suspendUntil])
        else (t, [])
    | .other _ => (t, [])

/-- One event, and the counts on its way. -/
def Throttle.stepIn (u : Utils) (t : Throttle) : Event → Throttle × List Int
  | .messageBegin _ => (t, [])
  | .messageHeader name value now nowUtc => t.messageHeaderIn round u name value now nowUtc
  | .messageEnd status now => t.messageEndIn round status now

end Handlers

/-- One event on the machine. -/
def Throttle.step64 (u : Utils) (t : Throttle) (e : Event) : Throttle :=
  (t.stepIn wrap u e).1

/-- One event on the machine, and the system time at which it is handled. -/
def Clocked.step64 (u : Utils) (c : Clocked) (e : Event) : Clocked :=
  ⟨c.throttle.step64 u e, e.now⟩

/-- The clock readings of an event. -/
def ClocksInRange : Event → Prop
  | .messageHeader _ _ now nowUtc => 0 ≤ now ∧ now ≤ nowUtc ∧ nowUtc < 2 ^ 62
  | .messageBegin now => 0 ≤ now ∧ now < 2 ^ 62
  | .messageEnd _ now => 0 ≤ now ∧ now < 2 ^ 62

instance (e : Event) : Decidable (ClocksInRange e) := by
  cases e <;> unfold ClocksInRange <;> infer_instance

/-! ## What a rounding leaves alone -/

@[simp] theorem updateSuspendUntilIn_id (now nowUtc : Int) (t : Throttle) :
    (t.updateSuspendUntilIn id now nowUtc).1 = t.updateSuspendUntil now nowUtc := by
  unfold Throttle.updateSuspendUntilIn Throttle.updateSuspendUntil
  simp only [id_eq]
  split_ifs <;> rfl

@[simp] theorem updateSuspendUntilIn_enabled (round : Int → Int) (now nowUtc : Int)
    (t : Throttle) : (t.updateSuspendUntilIn round now nowUtc).1.enabled = t.enabled := by
  unfold Throttle.updateSuspendUntilIn
  simp only
  split_ifs <;> rfl

@[simp] theorem updateSuspendUntilIn_params (round : Int → Int) (now nowUtc : Int)
    (t : Throttle) : (t.updateSuspendUntilIn round now nowUtc).1.params = t.params := by
  unfold Throttle.updateSuspendUntilIn
  simp only
  split_ifs <;> rfl

/-- Without rounding a header is handled as the exact handler does. -/
theorem messageHeaderIn_id (u : Utils) (name value : String) (now nowUtc : Int)
    (t : Throttle) :
    (t.messageHeaderIn id u name value now nowUtc).1 =
      t.messageHeader u name value now nowUtc := by
  unfold Throttle.messageHeaderIn Throttle.messageHeader
  cases parseHeader u name with
  | unknown => rfl
  | xBapiLimit => cases u.fromCharsInt32 value <;> rfl
  | xBapiLimitStatus =>
      cases u.fromCharsInt32 value with
      | none => rfl
      | some v =>
          simp only [u.update_eq]
          split_ifs
          · exact updateSuspendUntilIn_id now nowUtc _
          · rfl
  | xBapiLimitResetTimestamp =>
      cases u.fromCharsInt64 value with
      | none => rfl
      | some v =>
          simp only [u.update_eq]
          split_ifs
          · exact updateSuspendUntilIn_id now nowUtc _
          · rfl

theorem messageEndIn_id (status : Status) (now : Int) (t : Throttle) :
    (t.messageEndIn id status now).1 = t.messageEnd status now := by
  unfold Throttle.messageEndIn Throttle.messageEnd
  cases status with
  | forbidden =>
      simp only [id_eq]
      split_ifs <;> rfl
  | tooManyRequests =>
      simp only [id_eq]
      split_ifs <;> rfl
  | other code =>
      simp only
      split_ifs <;> rfl

/-- Without rounding the events are those of the exact handlers. -/
theorem stepIn_id (u : Utils) (t : Throttle) (e : Event) :
    (t.stepIn id u e).1 = t.step u e := by
  cases e with
  | messageBegin now => rfl
  | messageHeader name value now nowUtc => exact messageHeaderIn_id u name value now nowUtc t
  | messageEnd status now => exact messageEndIn_id status now t

theorem messageEndIn_enabled_params (round : Int → Int) (status : Status) (now : Int)
    (t : Throttle) :
    (t.messageEndIn round status now).1.enabled = t.enabled ∧
      (t.messageEndIn round status now).1.params = t.params := by
  unfold Throttle.messageEndIn
  cases status with
  | forbidden =>
      simp only
      split_ifs <;> exact ⟨rfl, rfl⟩
  | tooManyRequests =>
      simp only
      split_ifs <;> exact ⟨rfl, rfl⟩
  | other code =>
      simp only
      split_ifs <;> exact ⟨rfl, rfl⟩

/-- Whatever the rounding, an event leaves the same header values. -/
theorem stepIn_params (round : Int → Int) (u : Utils) (t : Throttle) (e : Event) :
    (t.stepIn round u e).1.params = (t.step u e).params := by
  cases e with
  | messageBegin now => rfl
  | messageHeader name value now nowUtc =>
      show (t.messageHeaderIn round u name value now nowUtc).1.params =
        (t.messageHeader u name value now nowUtc).params
      unfold Throttle.messageHeaderIn Throttle.messageHeader
      cases parseHeader u name with
      | unknown => rfl
      | xBapiLimit => cases u.fromCharsInt32 value <;> rfl
      | xBapiLimitStatus =>
          cases u.fromCharsInt32 value with
          | none => rfl
          | some v =>
              simp only [u.update_eq]
              split_ifs <;> simp
      | xBapiLimitResetTimestamp =>
          cases u.fromCharsInt64 value with
          | none => rfl
          | some v =>
              simp only [u.update_eq]
              split_ifs <;> simp
  | messageEnd status now =>
      rw [← stepIn_id]
      exact (messageEndIn_enabled_params round status now t).2.trans
        (messageEndIn_enabled_params id status now t).2.symm

theorem stepIn_enabled (round : Int → Int) (u : Utils) (t : Throttle) (e : Event) :
    (t.stepIn round u e).1.enabled = t.enabled := by
  cases e with
  | messageBegin now => rfl
  | messageHeader name value now nowUtc =>
      show (t.messageHeaderIn round u name value now nowUtc).1.enabled = t.enabled
      unfold Throttle.messageHeaderIn
      cases parseHeader u name with
      | unknown => rfl
      | xBapiLimit => cases u.fromCharsInt32 value <;> rfl
      | xBapiLimitStatus =>
          cases u.fromCharsInt32 value with
          | none => rfl
          | some v =>
              simp only [u.update_eq]
              split_ifs <;> simp
      | xBapiLimitResetTimestamp =>
          cases u.fromCharsInt64 value with
          | none => rfl
          | some v =>
              simp only [u.update_eq]
              split_ifs <;> simp
  | messageEnd status now => exact (messageEndIn_enabled_params round status now t).1

theorem step64_enabled (u : Utils) (t : Throttle) (e : Event) :
    (t.step64 u e).enabled = t.enabled := stepIn_enabled wrap u t e

theorem run64_enabled (u : Utils) (t : Throttle) (hEnabled : t.enabled = true)
    (es : List Event) : (run (Throttle.step64 u) t es).enabled = true := by
  apply run_invariant (Throttle.step64 u) (I := fun t => t.enabled = true) hEnabled
  intro s e hs
  rw [step64_enabled]
  exact hs

end RoqWhitebit.Tools
