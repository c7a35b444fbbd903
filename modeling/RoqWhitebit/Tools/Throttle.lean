import Mathlib.Tactic.SplitIfs
import RoqWhitebit.General.Runs
import RoqWhitebit.Utils

/-!
# The request throttle

`tools::Throttle` watches the responses of the exchange and tells the web client
until when requests are to be held back.  It remembers the three `X-Bapi-*`
header values it saw last and one point in time, `suspend_until_`, which three
handlers write by three different rules:

* a rate-limit header whose value changed recomputes it — to zero, or to the
  maximum of the old value and a new deadline;
* the end of a `403` response raises it to at least ten minutes from now;
* the end of a `429` response sets it to five seconds from now, but only when it
  is zero.

Durations and clock readings are exact counts of nanoseconds.
-/

namespace RoqWhitebit.Tools

open RoqWhitebit.General

/-- `web::http::Status`, as far as the throttle looks at it. -/
inductive Status where
  | forbidden
  | tooManyRequests
  | other (code : Nat)
  deriving DecidableEq, Repr

/-- Nanoseconds in so many milliseconds. -/
def milliseconds (count : Int) : Int := 1000000 * count

/-- Nanoseconds in so many seconds. -/
def seconds (count : Int) : Int := 1000000000 * count

/-- `DEFAULT_BACKOFF = 5s` -/
def defaultBackoff : Int := seconds 5

/-- `BLOCKED_BACKOFF = 10min` -/
def blockedBackoff : Int := seconds 600

/-! ## Headers -/

/-- The rate-limit headers, and all the others. -/
inductive Header where
  | unknown
  | xBapiLimit
  | xBapiLimitStatus
  | xBapiLimitResetTimestamp
  deriving DecidableEq, Repr

/-- `lower` over a text. -/
def lower (u : Utils) (text : String) : String :=
  String.ofList (text.toList.map u.asciiToLower)

/-- The header a name stands for: the hash of the name in lower case decides. -/
def parseHeader (u : Utils) (text : String) : Header :=
  let key := u.fnv (lower u text)
  if key = u.fnv "x-bapi-limit" then .xBapiLimit
  else if key = u.fnv "x-bapi-limit-status" then .xBapiLimitStatus
  else if key = u.fnv "x-bapi-limit-reset-timestamp" then
    .xBapiLimitResetTimestamp
  else .unknown

example : ["X-Bapi-Limit", "X-Bapi-Limit-Status", "X-Bapi-Limit-Reset-Timestamp",
      "Date"].map (parseHeader .standard) =
    [.xBapiLimit, .xBapiLimitStatus, .xBapiLimitResetTimestamp, .unknown] := by
  decide

/-! ## The state and its handlers -/

/-- `Throttle::Params`: the header values seen last. -/
structure Params where
  limit : Int := 0
  limitStatus : Int := 0
  /-- in milliseconds -/
  limitResetTimestamp : Int := 0
  deriving DecidableEq, Repr

structure Throttle where
  enabled : Bool
  params : Params := {}
  /-- zero: not suspended -/
  suspendUntil : Int := 0
  deriving DecidableEq, Repr

/-- The constructor: `settings.experimental.enable_rate_limit` is all it reads. -/
def Throttle.create (enableRateLimit : Bool) : Throttle := { enabled := enableRateLimit }

/-- The lambda `update_suspend_until`, with the two clock readings it takes. -/
def Throttle.updateSuspendUntil (now nowUtc : Int) (t : Throttle) : Throttle :=
  if !t.enabled then t
  else if t.params.limitStatus > 0 ∨ t.params.limitResetTimestamp = 0 then
    { t with suspendUntil := 0 }
  else
    let timestamp := milliseconds t.params.limitResetTimestamp
    if nowUtc < timestamp then
      let period := timestamp - nowUtc
      { t with suspendUntil := max t.suspendUntil (now + period) }
    else
      { t with suspendUntil := max t.suspendUntil (now + defaultBackoff) }

/-- `operator()(Trace<web::rest::MessageHeader>)`.  A value that does not parse
throws out of the handler before anything is stored. -/
def Throttle.messageHeader (u : Utils) (name value : String) (now nowUtc : Int)
    (t : Throttle) : Throttle :=
  match parseHeader u name with
  | .unknown => t
  | .xBapiLimit =>
      match u.fromCharsInt32 value with
      | none => t
      | some v =>
          { t with params := { t.params with limit := (u.update t.params.limit v).1 } }
  | .xBapiLimitStatus =>
      match u.fromCharsInt32 value with
      | none => t
      | some v =>
          let (limitStatus, changed) := u.update t.params.limitStatus v
          let t' := { t with params := { t.params with limitStatus := limitStatus } }
          if changed then t'.updateSuspendUntil now nowUtc else t'
  | .xBapiLimitResetTimestamp =>
      match u.fromCharsInt64 value with
      | none => t
      | some v =>
          let (limitResetTimestamp, changed) :=
            u.update t.params.limitResetTimestamp v
          let t' := { t with
            params := { t.params with limitResetTimestamp := limitResetTimestamp } }
          if changed then t'.updateSuspendUntil now nowUtc else t'

/-- `operator()(Trace<web::rest::MessageEnd>)` -/
def Throttle.messageEnd (status : Status) (now : Int) (t : Throttle) : Throttle :=
  if !t.enabled then t
  else
    match status with
    | .forbidden =>
        { t with suspendUntil := max t.suspendUntil (now + blockedBackoff) }
    | .tooManyRequests =>
        if t.suspendUntil = 0 then { t with suspendUntil := now + defaultBackoff }
        else t
    | .other _ => t

/-! ## Events -/

/-- What the web client reports, with the clock readings of that moment. -/
inductive Event where
  | messageBegin (now : Int)
  | messageHeader (name value : String) (now nowUtc : Int)
  | messageEnd (status : Status) (now : Int)
  deriving DecidableEq, Repr

/-- The system time at which an event is handled. -/
def Event.now : Event → Int
  | .messageBegin now => now
  | .messageHeader _ _ now _ => now
  | .messageEnd _ now => now

/-- One event.  The handler of `MessageBegin` is empty. -/
def Throttle.step (u : Utils) (t : Throttle) : Event → Throttle
  | .messageBegin _ => t
  | .messageHeader name value now nowUtc => t.messageHeader u name value now nowUtc
  | .messageEnd status now => t.messageEnd status now

/-- A throttle together with the system time of the event it handled last. -/
structure Clocked where
  throttle : Throttle
  now : Int
  deriving DecidableEq, Repr

def Clocked.step (u : Utils) (c : Clocked) (e : Event) : Clocked :=
  ⟨c.throttle.step u e, e.now⟩

/-- The enabled throttle before its first event. -/
def Clocked.start : Clocked := ⟨.create true, 0⟩

/-- System times are positive and never go back. -/
def WellTimed (c : Clocked) (e : Event) : Prop := 0 < e.now ∧ c.now ≤ e.now

instance (c : Clocked) (e : Event) : Decidable (WellTimed c e) := by
  unfold WellTimed
  infer_instance

/-! ## What the handlers leave alone -/

@[simp] theorem updateSuspendUntil_enabled (now nowUtc : Int) (t : Throttle) :
    (t.updateSuspendUntil now nowUtc).enabled = t.enabled := by
  unfold Throttle.updateSuspendUntil
  simp only
  split_ifs <;> rfl

@[simp] theorem updateSuspendUntil_params (now nowUtc : Int) (t : Throttle) :
    (t.updateSuspendUntil now nowUtc).params = t.params := by
  unfold Throttle.updateSuspendUntil
  simp only
  split_ifs <;> rfl

@[simp] theorem messageHeader_enabled (u : Utils) (name value : String)
    (now nowUtc : Int) (t : Throttle) :
    (t.messageHeader u name value now nowUtc).enabled = t.enabled := by
  unfold Throttle.messageHeader
  split
  · rfl
  · split <;> rfl
  · split
    · rfl
    · simp only
      split_ifs <;> simp
  · split
    · rfl
    · simp only
      split_ifs <;> simp

@[simp] theorem messageEnd_enabled (status : Status) (now : Int) (t : Throttle) :
    (t.messageEnd status now).enabled = t.enabled := by
  unfold Throttle.messageEnd
  split
  · rfl
  · cases status with
    | forbidden => rfl
    | tooManyRequests =>
        simp only
        split_ifs <;> rfl
    | other code => rfl

@[simp] theorem step_enabled (u : Utils) (t : Throttle) (e : Event) :
    (t.step u e).enabled = t.enabled := by
  cases e with
  | messageBegin now => rfl
  | messageHeader name value now nowUtc => simp [Throttle.step]
  | messageEnd status now => simp [Throttle.step]

end RoqWhitebit.Tools
