import RoqWhitebit.General.HighWater
import RoqWhitebit.Tools.ThrottleHeaders
import RoqWhitebit.Tools.ThrottleRange
import RoqWhitebit.Tools.ThrottleRuns

/-!
# What a suspension comes from

`suspend_until_` is a high-water mark: a header can clear it, and headers and response
statuses can ask for more.  So whenever requests are held back, one event of the run is
the cause (`suspension_traced`), and what it asked for is ten minutes at most, or the
reset the exchange itself has announced (`suspension_bounded`).  Both are about the
throttle of the machine.

The announced values are those of the headers read last (`params_are_last_seen`).
-/

namespace RoqWhitebit.Tools

open RoqWhitebit.General

/-! ## What an event asks for -/

namespace Quota

/-- Until when a new value holds requests back. -/
def asksRead (now nowUtc : Int) (q : Quota) : Reading → Option Int
  | .status v =>
      if q.limitStatus ≠ v ∧ Exhausted v q.resetTimestamp then
        some (deadline wrap now nowUtc q.resetTimestamp)
      else none
  | .reset v =>
      if q.resetTimestamp ≠ v ∧ Exhausted q.limitStatus v then
        some (deadline wrap now nowUtc v)
      else none
  | .nothing => none

/-- Until when the end of a response holds requests back.  A `429` only counts where
there is no suspension, be it one that has expired. -/
def asksFinish (status : Status) (now : Int) (q : Quota) : Option Int :=
  match status with
  | .forbidden => some (wrap (now + blockedBackoff))
  | .tooManyRequests =>
      if q.suspendUntil = 0 then some (wrap (now + defaultBackoff)) else none
  | .other _ => none

/-- Until when an event holds requests back. -/
def asks (u : Utils) (q : Quota) : Event → Option Int
  | .messageBegin _ => none
  | .messageHeader name value now nowUtc => q.asksRead now nowUtc (reading u name value)
  | .messageEnd status now => q.asksFinish status now

/-- A header that asks for a suspension clears none, and raises the one there is. -/
theorem raised_read {now nowUtc a : Int} {q : Quota} {r : Reading} (hNow : 0 ≤ now)
    (hLe : now ≤ nowUtc) (hUtc : nowUtc < 2 ^ 62) (h : q.asksRead now nowUtc r = some a) :
    ¬q.ClearedBy r ∧ 0 < a ∧
      (q.read wrap now nowUtc r).suspendUntil = max q.suspendUntil a := by
  cases r with
  | status v =>
      obtain ⟨⟨hNew, hEx⟩, hDeadline⟩ := Option.ite_none_right_eq_some.mp h
      have hLater := now_lt_deadline64 hNow hLe hUtc q.resetTimestamp
      rw [Option.some.inj hDeadline] at hLater
      refine ⟨fun hCleared => hCleared.2 hEx, by omega, ?_⟩
      rw [← Option.some.inj hDeadline]
      exact suspendUntil_setStatus_exhausted hNew hEx
  | reset v =>
      obtain ⟨⟨hNew, hEx⟩, hDeadline⟩ := Option.ite_none_right_eq_some.mp h
      have hLater := now_lt_deadline64 hNow hLe hUtc v
      rw [Option.some.inj hDeadline] at hLater
      refine ⟨fun hCleared => hCleared.2 hEx, by omega, ?_⟩
      rw [← Option.some.inj hDeadline]
      exact suspendUntil_setReset_exhausted hNew hEx
  | nothing => cases h

/-- A header that neither clears the suspension nor asks for one leaves it alone. -/
theorem left_read {now nowUtc : Int} {q : Quota} {r : Reading} (hNot : ¬q.ClearedBy r)
    (h : q.asksRead now nowUtc r = none) :
    (q.read wrap now nowUtc r).suspendUntil = q.suspendUntil := by
  cases r with
  | status v =>
      by_cases hSame : q.limitStatus = v
      · exact congrArg suspendUntil (setStatus_same hSame)
      · have hEx : Exhausted v q.resetTimestamp :=
          Decidable.of_not_not fun hEx => hNot ⟨hSame, hEx⟩
        have hAsked : q.asksRead now nowUtc (.status v) =
            some (deadline wrap now nowUtc q.resetTimestamp) := if_pos ⟨hSame, hEx⟩
        rw [h] at hAsked
        cases hAsked
  | reset v =>
      by_cases hSame : q.resetTimestamp = v
      · exact congrArg suspendUntil (setReset_same hSame)
      · have hEx : Exhausted q.limitStatus v :=
          Decidable.of_not_not fun hEx => hNot ⟨hSame, hEx⟩
        have hAsked : q.asksRead now nowUtc (.reset v) =
            some (deadline wrap now nowUtc v) := if_pos ⟨hSame, hEx⟩
        rw [h] at hAsked
        cases hAsked
  | nothing => rfl

/-- With the clock in range both back-offs are exact. -/
theorem wrap_backoff {now : Int} (hNow : 0 ≤ now) (hRange : now < 2 ^ 62) :
    wrap (now + blockedBackoff) = now + blockedBackoff ∧
      wrap (now + defaultBackoff) = now + defaultBackoff := by
  have hBlocked : InRange (now + blockedBackoff) := by
    unfold InRange blockedBackoff seconds
    omega
  have hDefault : InRange (now + defaultBackoff) := by
    unfold InRange defaultBackoff seconds
    omega
  exact ⟨wrap_of_inRange hBlocked, wrap_of_inRange hDefault⟩

theorem raised_finish {status : Status} {now a : Int} {q : Quota} (hNow : 0 ≤ now)
    (hRange : now < 2 ^ 62) (h : q.asksFinish status now = some a) :
    0 < a ∧ (q.finish wrap status now).suspendUntil = max q.suspendUntil a := by
  obtain ⟨hBlocked, hDefault⟩ := wrap_backoff hNow hRange
  cases status with
  | forbidden =>
      have hBackoff : 0 < blockedBackoff := by decide
      have hDeadline : wrap (now + blockedBackoff) = a := Option.some.inj h
      refine ⟨by omega, ?_⟩
      rw [← hDeadline]
      rfl
  | tooManyRequests =>
      obtain ⟨hZero, hAsked⟩ := Option.ite_none_right_eq_some.mp h
      have hBackoff : 0 < defaultBackoff := by decide
      have hDeadline : wrap (now + defaultBackoff) = a := Option.some.inj hAsked
      have hFinish : q.finish wrap .tooManyRequests now =
          { q with suspendUntil := wrap (now + defaultBackoff) } := if_pos hZero
      rw [hFinish, hZero, max_eq_right (by omega)]
      exact ⟨by omega, hDeadline⟩
  | other code => cases h

theorem left_finish {status : Status} {now : Int} {q : Quota}
    (h : q.asksFinish status now = none) :
    (q.finish wrap status now).suspendUntil = q.suspendUntil := by
  cases status with
  | forbidden => cases h
  | tooManyRequests =>
      by_cases hZero : q.suspendUntil = 0
      · have hAsked : q.asksFinish .tooManyRequests now =
            some (wrap (now + defaultBackoff)) := if_pos hZero
        rw [h] at hAsked
        cases hAsked
      · exact congrArg suspendUntil (if_neg hZero)
  | other code => rfl

end Quota

/-! ## The suspension is a high-water mark -/

/-- The suspension of a clocked throttle. -/
def Clocked.suspendUntil (c : Clocked) : Int := c.throttle.suspendUntil

def Clocked.Clears (u : Utils) (c : Clocked) (e : Event) : Prop := c.throttle.quota.Clears u e

def Clocked.asks (u : Utils) (c : Clocked) (e : Event) : Option Int :=
  c.throttle.quota.asks u e

/-- A step whose clock readings are in range and never go back. -/
def TimedInRange (c : Clocked) (e : Event) : Prop := WellTimed c e ∧ ClocksInRange e

instance (c : Clocked) (e : Event) : Decidable (TimedInRange c e) := by
  unfold TimedInRange
  infer_instance

theorem Clocked.Enabled.step64 {u : Utils} {c : Clocked} {e : Event} (h : c.Enabled) :
    (c.step64 u e).Enabled := by
  unfold Clocked.Enabled Clocked.step64
  rw [step64_enabled]
  exact h

theorem suspendUntil_step64 {u : Utils} {c : Clocked} (e : Event) (hEnabled : c.Enabled) :
    (c.step64 u e).suspendUntil = (c.throttle.quota.step wrap u e).suspendUntil :=
  congrArg Quota.suspendUntil (quota_stepIn wrap u c.throttle e hEnabled)

/-- **The suspension is a high-water mark** of what the events ask for. -/
theorem highWater_suspendUntil (u : Utils) :
    HighWater (Clocked.step64 u) Clocked.Enabled TimedInRange Clocked.suspendUntil 0
      (Clocked.Clears u) (Clocked.asks u) where
  keeps _ _ hEnabled _ := hEnabled.step64
  cleared c e hEnabled _ hClears := by
    rw [suspendUntil_step64 e hEnabled]
    exact Quota.suspendUntil_step_of_clears wrap u c.throttle.quota e hClears
  left c e hEnabled _ hNot hNone := by
    rw [suspendUntil_step64 e hEnabled]
    cases e with
    | messageBegin now => rfl
    | messageHeader name value now nowUtc => exact Quota.left_read hNot hNone
    | messageEnd status now => exact Quota.left_finish hNone
  raised c e a hEnabled hTimed hAsks := by
    rw [suspendUntil_step64 e hEnabled]
    cases e with
    | messageBegin now => cases hAsks
    | messageHeader name value now nowUtc =>
        obtain ⟨hNow, hLe, hUtc⟩ := hTimed.2
        exact Quota.raised_read hNow hLe hUtc hAsks
    | messageEnd status now =>
        obtain ⟨hNow, hRange⟩ := hTimed.2
        exact ⟨id, Quota.raised_finish hNow hRange hAsks⟩

/--
**Every suspension has one cause.**  After a run of the machine the throttle is suspended
until `s` exactly if one event asked for `s`, at a time when the suspension was shorter,
and no later event cleared it or asked for more: the end of a `403` asks for ten minutes,
that of a `429` without a suspension for five seconds, and a new header value with which
the quota is exhausted for the reset, or for five seconds where the reset has passed.  The
reset is what 64 bits hold of it.  And there is no suspension exactly if nothing has been
asked for since the last clearing.
-/
theorem suspension_traced (u : Utils) (es : List Event)
    (hTimed : Along (Clocked.step64 u) TimedInRange .start es) :
    0 ≤ (run (Clocked.step64 u) .start es).suspendUntil ∧
    ((run (Clocked.step64 u) .start es).suspendUntil = 0 ↔
      Fallow (Clocked.step64 u) (Clocked.Clears u) (Clocked.asks u) .start es) ∧
    ∀ s, ((run (Clocked.step64 u) .start es).suspendUntil = s ∧ 0 < s ↔
      Reached (Clocked.step64 u) Clocked.suspendUntil (Clocked.Clears u) (Clocked.asks u)
        .start es s) := by
  have hMark := highWater_suspendUntil u
  have hEnabled : Clocked.start.Enabled := rfl
  have hZero : Clocked.start.suspendUntil = 0 := rfl
  refine ⟨?_, (hMark.fallow_iff hEnabled hZero hTimed).symm,
    fun s => (hMark.reached_iff hEnabled hZero hTimed s).symm⟩
  obtain hFallow | hReached := hMark.reached_or_fallow hEnabled hZero es hTimed
  · exact le_of_eq (hMark.level_of_fallow hEnabled hZero hTimed hFallow).symm
  · exact le_of_lt (hMark.level_of_reached hEnabled hTimed hReached).2

/-- An exhausted quota, a `429` and a `403`, one after the other. -/
def threeCauses : List Event :=
  [ .messageHeader "X-Bapi-Limit-Reset-Timestamp" "1003000" (seconds 1) (seconds 1000),
    .messageEnd .tooManyRequests (seconds 2),
    .messageEnd .forbidden (seconds 3) ]

theorem suspension_traced_three_causes :
    Reached (Clocked.step64 .standard) Clocked.suspendUntil (Clocked.Clears .standard)
      (Clocked.asks .standard) .start threeCauses (seconds 603) := by
  have hTimed : Along (Clocked.step64 .standard) TimedInRange .start threeCauses := by
    decide
  exact ((suspension_traced .standard threeCauses hTimed).2.2 (seconds 603)).mp (by decide)

/-! ## What has been announced -/

/-- The value of one of the headers in an event, where there is one that parses. -/
def headerValue (u : Utils) (header : Header) : Event → Option Int
  | .messageBegin _ => none
  | .messageEnd _ _ => none
  | .messageHeader name value _ _ =>
      if parseHeader u name = header then
        match header with
        | .unknown => none
        | .xBapiLimit => u.fromCharsInt32 value
        | .xBapiLimitStatus => u.fromCharsInt32 value
        | .xBapiLimitResetTimestamp => u.fromCharsInt64 value
      else none

/-- The value seen last; zero before the first one. -/
def lastValue (u : Utils) (header : Header) (es : List Event) : Int :=
  (es.filterMap (headerValue u header)).getLastD 0

theorem lastValue_append (u : Utils) (header : Header) (es : List Event) (e : Event) :
    lastValue u header (es ++ [e]) =
      (headerValue u header e).getD (lastValue u header es) := by
  unfold lastValue
  rw [List.filterMap_append]
  cases hValue : headerValue u header e with
  | none => simp [hValue]
  | some v => simp [hValue]

@[simp] theorem messageEnd_params (status : Status) (now : Int) (t : Throttle) :
    (t.messageEnd status now).params = t.params := by
  unfold Throttle.messageEnd
  split
  · rfl
  · cases status with
    | forbidden => rfl
    | tooManyRequests =>
        dsimp only
        split <;> rfl
    | other code => rfl

/-- One event: each of the three values is the one in the event, or stays what it is. -/
theorem params_step (u : Utils) (t : Throttle) (e : Event) :
    (t.step u e).params =
      { limit := (headerValue u .xBapiLimit e).getD t.params.limit
        limitStatus := (headerValue u .xBapiLimitStatus e).getD t.params.limitStatus
        limitResetTimestamp :=
          (headerValue u .xBapiLimitResetTimestamp e).getD t.params.limitResetTimestamp } := by
  cases e with
  | messageBegin now => rfl
  | messageEnd status now => exact messageEnd_params status now t
  | messageHeader name value now nowUtc =>
      cases hHeader : parseHeader u name with
      | unknown => simp [Throttle.step, Throttle.messageHeader, headerValue, hHeader]
      | xBapiLimit =>
          cases hValue : u.fromCharsInt32 value <;>
            simp [Throttle.step, Throttle.messageHeader, headerValue, hHeader, hValue,
              u.update_eq]
      | xBapiLimitStatus =>
          cases hValue : u.fromCharsInt32 value with
          | none => simp [Throttle.step, Throttle.messageHeader, headerValue, hHeader, hValue]
          | some v =>
              have hStored := messageHeader_status_params u name value now nowUtc v t hHeader hValue
              simp [Throttle.step, headerValue, hHeader, hValue, hStored]
      | xBapiLimitResetTimestamp =>
          cases hValue : u.fromCharsInt64 value with
          | none => simp [Throttle.step, Throttle.messageHeader, headerValue, hHeader, hValue]
          | some v =>
              have hStored := messageHeader_reset_params u name value now nowUtc v t hHeader hValue
              simp [Throttle.step, headerValue, hHeader, hValue, hStored]

theorem suspendUntil_disabled {now nowUtc : Int} {t : Throttle} (h : t.enabled = false) :
    (t.updateSuspendUntil now nowUtc).suspendUntil = t.suspendUntil := by
  unfold Throttle.updateSuspendUntil
  rw [h]
  rfl

/-- A throttle that is not enabled is never suspended. -/
theorem suspendUntil_step_disabled (u : Utils) {t : Throttle} (h : t.enabled = false)
    (e : Event) : (t.step u e).suspendUntil = t.suspendUntil := by
  cases e with
  | messageBegin now => rfl
  | messageEnd status now =>
      unfold Throttle.step Throttle.messageEnd
      dsimp only
      rw [h]
      rfl
  | messageHeader name value now nowUtc =>
      unfold Throttle.step Throttle.messageHeader
      dsimp only
      split
      · rfl
      · split <;> rfl
      · split
        · rfl
        · split
          · refine (suspendUntil_disabled ?_).trans rfl
            exact h
          · rfl
      · split
        · rfl
        · split
          · refine (suspendUntil_disabled ?_).trans rfl
            exact h
          · rfl

/-- The values of a run are those of the headers read last, whatever the steps do to the
suspension. -/
theorem params_of_steps (u : Utils) {step : Throttle → Event → Throttle}
    (hStep : ∀ t e, (step t e).params = (t.step u e).params) (enableRateLimit : Bool)
    (es : List Event) :
    (run step (.create enableRateLimit) es).params =
      { limit := lastValue u .xBapiLimit es
        limitStatus := lastValue u .xBapiLimitStatus es
        limitResetTimestamp := lastValue u .xBapiLimitResetTimestamp es } := by
  induction es using List.reverseRecOn with
  | nil => rfl
  | append_singleton es e ih =>
      rw [run_append, run_cons, run_nil, hStep, params_step, ih, lastValue_append,
        lastValue_append, lastValue_append]

/-- **What the throttle remembers**: the values read last, whether it is enabled or not.
One that is not enabled never holds requests back. -/
theorem params_are_last_seen (u : Utils) (enableRateLimit : Bool) (es : List Event) :
    (run (Throttle.step u) (.create enableRateLimit) es).params =
      { limit := lastValue u .xBapiLimit es
        limitStatus := lastValue u .xBapiLimitStatus es
        limitResetTimestamp := lastValue u .xBapiLimitResetTimestamp es } ∧
    (run (Throttle.step u) (.create false) es).suspendUntil = 0 := by
  refine ⟨params_of_steps u (fun _ _ => rfl) enableRateLimit es, ?_⟩
  have hKeeps : ∀ (t : Throttle) (e : Event), t.enabled = false ∧ t.suspendUntil = 0 →
      (t.step u e).enabled = false ∧ (t.step u e).suspendUntil = 0 := by
    intro t e h
    rw [step_enabled, suspendUntil_step_disabled u h.1]
    exact h
  exact (run_invariant (Throttle.step u)
    (I := fun t => t.enabled = false ∧ t.suspendUntil = 0) ⟨rfl, rfl⟩ hKeeps es).2

end RoqWhitebit.Tools
