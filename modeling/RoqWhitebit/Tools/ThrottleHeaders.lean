import RoqWhitebit.Tools.Quota

/-!
# One header block

The two rate-limit headers of one response arrive one after the other, and each
of them is compared with the value remembered from an earlier response.  This
file compares that with looking at the pair as a whole:

* an exhausted quota suspends requests exactly if one of the two values is new
  or the suspension set for them before is still running;
* the order of the two headers matters exactly if the first of them, looked at
  together with the outdated other value, leaves a trace in `suspend_until_`.

The order is that of the machine: no clock reading and no reset timestamp is left out.
-/

namespace RoqWhitebit.Tools

open RoqWhitebit.General

/-- The events of a header block, all handled at the same clock readings. -/
def headerBlock (now nowUtc : Int) (block : List (String × String)) : List Event :=
  block.map fun header => .messageHeader header.1 header.2 now nowUtc

def isStatus (u : Utils) (header : String × String) : Bool :=
  parseHeader u header.1 = .xBapiLimitStatus

def isReset (u : Utils) (header : String × String) : Bool :=
  parseHeader u header.1 = .xBapiLimitResetTimestamp

/-! ## An exhausted quota -/

namespace Quota

end Quota

/-- The order of the two headers makes no difference to the suspension.  Once
both values are new and the quota is exhausted by them, what the first header
did with the outdated other value must not outlast what the second one does:

* an old status above zero lets the reset timestamp clear the old suspension;
* an old reset timestamp of zero lets the status clear it;
* an old reset timestamp other than zero lets the status extend it.

A suspension that has been cleared is zero, so that zero counts where the first header
clears.  With the clocks in range no deadline is below it (`now_lt_deadline64`). -/
def Quota.OrderIrrelevant (round : Int → Int) (now nowUtc s r : Int) (q : Quota) : Prop :=
  s = q.limitStatus ∨ r = q.resetTimestamp ∨ ¬Exhausted s r ∨
    (0 < q.limitStatus ∧ q.resetTimestamp = 0) ∨
    (0 < q.limitStatus ∧ q.resetTimestamp ≠ 0 ∧
      q.suspendUntil ≤ max 0 (deadline round now nowUtc r) ∧
      deadline round now nowUtc q.resetTimestamp ≤ max 0 (deadline round now nowUtc r) ∧
      (0 ≤ q.suspendUntil ∨ 0 ≤ deadline round now nowUtc q.resetTimestamp ∨
        0 ≤ deadline round now nowUtc r)) ∨
    (q.limitStatus ≤ 0 ∧ q.resetTimestamp = 0 ∧
      q.suspendUntil ≤ max 0 (deadline round now nowUtc r) ∧
      (0 ≤ q.suspendUntil ∨ 0 ≤ deadline round now nowUtc r)) ∨
    (q.limitStatus ≤ 0 ∧ q.resetTimestamp ≠ 0 ∧
      deadline round now nowUtc q.resetTimestamp ≤
        max q.suspendUntil (deadline round now nowUtc r))

instance (round : Int → Int) (now nowUtc s r : Int) (q : Quota) :
    Decidable (q.OrderIrrelevant round now nowUtc s r) := by
  unfold Quota.OrderIrrelevant
  infer_instance

namespace Quota

section BothNew

variable {round : Int → Int} {now nowUtc s r : Int} {q : Quota}
  (hStatus : q.limitStatus ≠ s) (hReset : q.resetTimestamp ≠ r)
include hStatus hReset

/-- Two new values for an exhausted quota, the status first. -/
theorem suspendUntil_status_then_reset (hEx : Exhausted s r) :
    ((q.setStatus round now nowUtc s).setReset round now nowUtc r).suspendUntil =
      max (if q.resetTimestamp = 0 then 0
          else max q.suspendUntil (deadline round now nowUtc q.resetTimestamp))
        (deadline round now nowUtc r) := by
  rw [suspendUntil_setReset_exhausted (by rw [setStatus_resetTimestamp]; exact hReset)
    (by rw [setStatus_limitStatus]; exact hEx)]
  by_cases hZero : q.resetTimestamp = 0
  · have hNot : ¬Exhausted s q.resetTimestamp := fun h => h.2 hZero
    rw [suspendUntil_setStatus_cleared hStatus hNot, if_pos hZero]
  · have hOld : Exhausted s q.resetTimestamp := ⟨hEx.1, hZero⟩
    rw [suspendUntil_setStatus_exhausted hStatus hOld, if_neg hZero]

/-- Two new values for an exhausted quota, the reset timestamp first. -/
theorem suspendUntil_reset_then_status (hEx : Exhausted s r) :
    ((q.setReset round now nowUtc r).setStatus round now nowUtc s).suspendUntil =
      max (if 0 < q.limitStatus then 0
          else max q.suspendUntil (deadline round now nowUtc r))
        (deadline round now nowUtc r) := by
  rw [suspendUntil_setStatus_exhausted (by rw [setReset_limitStatus]; exact hStatus)
    (by rw [setReset_resetTimestamp]; exact hEx), setReset_resetTimestamp]
  by_cases hLeft : 0 < q.limitStatus
  · have hNot : ¬Exhausted q.limitStatus r := fun h => absurd hLeft (not_lt.mpr h.1)
    rw [suspendUntil_setReset_cleared hReset hNot, if_pos hLeft]
  · have hOld : Exhausted q.limitStatus r := ⟨not_lt.mp hLeft, hEx.2⟩
    rw [suspendUntil_setReset_exhausted hReset hOld, if_neg hLeft]

/-- Two new values that leave the quota not exhausted: no suspension either way. -/
theorem suspendUntil_both_cleared (hNot : ¬Exhausted s r) :
    ((q.setStatus round now nowUtc s).setReset round now nowUtc r).suspendUntil =
      ((q.setReset round now nowUtc r).setStatus round now nowUtc s).suspendUntil := by
  rw [suspendUntil_setReset_cleared (by rw [setStatus_resetTimestamp]; exact hReset)
      (by rw [setStatus_limitStatus]; exact hNot),
    suspendUntil_setStatus_cleared (by rw [setReset_limitStatus]; exact hStatus)
      (by rw [setReset_resetTimestamp]; exact hNot)]

end BothNew

theorem suspendUntil_order_iff (round : Int → Int) (now nowUtc s r : Int) (q : Quota) :
    ((q.setStatus round now nowUtc s).setReset round now nowUtc r).suspendUntil =
        ((q.setReset round now nowUtc r).setStatus round now nowUtc s).suspendUntil ↔
      q.OrderIrrelevant round now nowUtc s r := by
  by_cases hStatus : q.limitStatus = s
  · refine iff_of_true ?_ (Or.inl hStatus.symm)
    have hLater : (q.setReset round now nowUtc r).limitStatus = s := by
      rw [setReset_limitStatus, hStatus]
    rw [setStatus_same hStatus, setStatus_same hLater]
  by_cases hReset : q.resetTimestamp = r
  · refine iff_of_true ?_ (Or.inr (Or.inl hReset.symm))
    have hLater : (q.setStatus round now nowUtc s).resetTimestamp = r := by
      rw [setStatus_resetTimestamp, hReset]
    rw [setReset_same hReset, setReset_same hLater]
  by_cases hEx : Exhausted s r
  · rw [suspendUntil_status_then_reset hStatus hReset hEx,
      suspendUntil_reset_then_status hStatus hReset hEx]
    simp only [OrderIrrelevant, Ne.symm hStatus, Ne.symm hReset, hEx, not_true,
      false_or]
    generalize deadline round now nowUtc r = newDeadline
    generalize deadline round now nowUtc q.resetTimestamp = oldDeadline
    split_ifs <;> omega
  · exact iff_of_true (suspendUntil_both_cleared hStatus hReset hEx)
      (Or.inr (Or.inr (Or.inl hEx)))

end Quota

/-- A limit status that parses is stored, whatever else happens. -/
theorem messageHeader_status_params (u : Utils) (name value : String)
    (now nowUtc s : Int) (t : Throttle)
    (hName : parseHeader u name = .xBapiLimitStatus)
    (hValue : u.fromCharsInt32 value = some s) :
    (t.messageHeader u name value now nowUtc).params =
      { t.params with limitStatus := s } := by
  simp only [Throttle.messageHeader, hName, hValue, u.update_eq, apply_ite Throttle.params,
    updateSuspendUntil_params, ite_self]

/-- A reset timestamp that parses is stored, whatever else happens. -/
theorem messageHeader_reset_params (u : Utils) (name value : String)
    (now nowUtc r : Int) (t : Throttle)
    (hName : parseHeader u name = .xBapiLimitResetTimestamp)
    (hValue : u.fromCharsInt64 value = some r) :
    (t.messageHeader u name value now nowUtc).params =
      { t.params with limitResetTimestamp := r } := by
  simp only [Throttle.messageHeader, hName, hValue, u.update_eq, apply_ite Throttle.params,
    updateSuspendUntil_params, ite_self]

/-- The headers of one response, the status first or the reset timestamp first. -/
def statusFirst (hs hr : String × String) : List (String × String) := [hs, hr]

def resetFirst (hs hr : String × String) : List (String × String) := [hr, hs]

/-- The header values after both headers do not depend on their order. -/
theorem params_order {u : Utils} {hs hr : String × String} {s r : Int}
    (hStatus : parseHeader u hs.1 = .xBapiLimitStatus)
    (hReset : parseHeader u hr.1 = .xBapiLimitResetTimestamp)
    (hStatusValue : u.fromCharsInt32 hs.2 = some s)
    (hResetValue : u.fromCharsInt64 hr.2 = some r) (now nowUtc : Int) (t : Throttle) :
    (run (Throttle.step64 u) t (headerBlock now nowUtc (statusFirst hs hr))).params =
      (run (Throttle.step64 u) t (headerBlock now nowUtc (resetFirst hs hr))).params := by
  have hStatusStep (t : Throttle) :
      (t.step64 u (.messageHeader hs.1 hs.2 now nowUtc)).params =
        { t.params with limitStatus := s } :=
    (stepIn_params wrap u t _).trans
      (messageHeader_status_params u hs.1 hs.2 now nowUtc s t hStatus hStatusValue)
  have hResetStep (t : Throttle) :
      (t.step64 u (.messageHeader hr.1 hr.2 now nowUtc)).params =
        { t.params with limitResetTimestamp := r } :=
    (stepIn_params wrap u t _).trans
      (messageHeader_reset_params u hr.1 hr.2 now nowUtc r t hReset hResetValue)
  simp only [headerBlock, statusFirst, resetFirst, List.map_cons, List.map_nil, run_cons,
    run_nil]
  rw [hResetStep, hStatusStep, hStatusStep, hResetStep]

/--
**The order of the two headers.**  In any reachable state of the machine both orders
leave the same header values behind, and the same suspension exactly if the order is
irrelevant for the quota known before.
-/
theorem header_order_iff (u : Utils) (es : List Event) (now nowUtc s r : Int)
    (hs hr : String × String)
    (hStatus : isStatus u hs = true) (hReset : isReset u hr = true)
    (hStatusValue : u.fromCharsInt32 hs.2 = some s)
    (hResetValue : u.fromCharsInt64 hr.2 = some r) :
    ((run (Throttle.step64 u) (.create true)
          (es ++ headerBlock now nowUtc (statusFirst hs hr))).params =
        (run (Throttle.step64 u) (.create true)
          (es ++ headerBlock now nowUtc (resetFirst hs hr))).params ∧
      (run (Throttle.step64 u) (.create true)
          (es ++ headerBlock now nowUtc (statusFirst hs hr))).suspendUntil =
        (run (Throttle.step64 u) (.create true)
          (es ++ headerBlock now nowUtc (resetFirst hs hr))).suspendUntil) ↔
      (run (Throttle.step64 u) (.create true) es).quota.OrderIrrelevant wrap now nowUtc
        s r := by
  have hEnabled := run64_enabled u (.create true) rfl es
  rw [run_append, run_append]
  generalize run (Throttle.step64 u) (.create true) es = t at hEnabled ⊢
  have hName : parseHeader u hs.1 = .xBapiLimitStatus := by
    simpa [isStatus] using hStatus
  have hrName : parseHeader u hr.1 = .xBapiLimitResetTimestamp := by
    simpa [isReset] using hReset
  have hsReading : Quota.reading u hs.1 hs.2 = .status s := by
    simp [Quota.reading, hName, hStatusValue]
  have hrReading : Quota.reading u hr.1 hr.2 = .reset r := by
    simp [Quota.reading, hrName, hResetValue]
  have hStatusFirst :
      (run (Throttle.step64 u) t (headerBlock now nowUtc (statusFirst hs hr))).suspendUntil =
        ((t.quota.setStatus wrap now nowUtc s).setReset wrap now nowUtc r).suspendUntil := by
    rw [← quota_suspendUntil, quota_run64 u t _ hEnabled]
    simp only [headerBlock, statusFirst, List.map_cons, List.map_nil, run_cons,
      run_nil, Quota.step, hsReading, hrReading, Quota.read]
  have hResetFirst :
      (run (Throttle.step64 u) t (headerBlock now nowUtc (resetFirst hs hr))).suspendUntil =
        ((t.quota.setReset wrap now nowUtc r).setStatus wrap now nowUtc s).suspendUntil := by
    rw [← quota_suspendUntil, quota_run64 u t _ hEnabled]
    simp only [headerBlock, resetFirst, List.map_cons, List.map_nil, run_cons,
      run_nil, Quota.step, hsReading, hrReading, Quota.read]
  rw [hStatusFirst, hResetFirst, Quota.suspendUntil_order_iff]
  have hParams := params_order hName hrName hStatusValue hResetValue now nowUtc t
  exact ⟨And.right, fun h => ⟨hParams, h⟩⟩

/-- Requests left, and a reset timestamp that lies ten seconds ahead. -/
def earlierResponse : List Event :=
  headerBlock (seconds 1) (seconds 1000)
    [("X-Bapi-Limit-Status", "5"), ("X-Bapi-Limit-Reset-Timestamp", "1010000")]

/-- A reset timestamp that does not fit comes round and is taken for one that has passed.
The order matters: the timestamp before it outlasts the back-off. -/
theorem header_order_iff_far_reset :
    (((run (Throttle.step64 .standard) (.create true)
          (earlierResponse ++ headerBlock (seconds 1) (seconds 1000) (statusFirst
            ("X-Bapi-Limit-Status", "0")
            ("X-Bapi-Limit-Reset-Timestamp", "9223372036855")))).params =
        (run (Throttle.step64 .standard) (.create true)
          (earlierResponse ++ headerBlock (seconds 1) (seconds 1000) (resetFirst
            ("X-Bapi-Limit-Status", "0")
            ("X-Bapi-Limit-Reset-Timestamp", "9223372036855")))).params ∧
      (run (Throttle.step64 .standard) (.create true)
          (earlierResponse ++ headerBlock (seconds 1) (seconds 1000) (statusFirst
            ("X-Bapi-Limit-Status", "0")
            ("X-Bapi-Limit-Reset-Timestamp", "9223372036855")))).suspendUntil =
        (run (Throttle.step64 .standard) (.create true)
          (earlierResponse ++ headerBlock (seconds 1) (seconds 1000) (resetFirst
            ("X-Bapi-Limit-Status", "0")
            ("X-Bapi-Limit-Reset-Timestamp", "9223372036855")))).suspendUntil) ↔
      (run (Throttle.step64 .standard) (.create true) earlierResponse).quota.OrderIrrelevant
        wrap (seconds 1) (seconds 1000) 0 9223372036855) ∧
    ¬(run (Throttle.step64 .standard) (.create true) earlierResponse).quota.OrderIrrelevant
        wrap (seconds 1) (seconds 1000) 0 9223372036855 :=
  ⟨header_order_iff .standard earlierResponse (seconds 1) (seconds 1000) 0 9223372036855
    ("X-Bapi-Limit-Status", "0") ("X-Bapi-Limit-Reset-Timestamp", "9223372036855")
    (by decide) (by decide) (by decide) (by decide), by decide⟩

/-- Requests left, and a reset timestamp that has passed since. -/
def passedResponse : List Event :=
  headerBlock (seconds 1) (seconds 999)
    [("X-Bapi-Limit-Status", "5"), ("X-Bapi-Limit-Reset-Timestamp", "999500")]

/-- Status first, the outdated reset timestamp asks for five seconds; reset
timestamp first, the quota is known to be back in two. -/
theorem header_order_matters :
    ¬∀ (u : Utils) (es : List Event) (now nowUtc s r : Int)
      (hs hr : String × String),
      Along (Clocked.step64 u) WellTimed .start
        (es ++ headerBlock now nowUtc (statusFirst hs hr)) →
      (∀ e ∈ es ++ headerBlock now nowUtc (statusFirst hs hr), ClocksInRange e) →
      isStatus u hs = true → isReset u hr = true →
      u.fromCharsInt32 hs.2 = some s → u.fromCharsInt64 hr.2 = some r →
      (run (Throttle.step64 u) (.create true)
          (es ++ headerBlock now nowUtc (statusFirst hs hr))).params =
        (run (Throttle.step64 u) (.create true)
          (es ++ headerBlock now nowUtc (resetFirst hs hr))).params ∧
      (run (Throttle.step64 u) (.create true)
          (es ++ headerBlock now nowUtc (statusFirst hs hr))).suspendUntil =
        (run (Throttle.step64 u) (.create true)
          (es ++ headerBlock now nowUtc (resetFirst hs hr))).suspendUntil := by
  intro h
  have hSame := (h .standard passedResponse (seconds 2) (seconds 1000) 0 1002000
    ("X-Bapi-Limit-Status", "0") ("X-Bapi-Limit-Reset-Timestamp", "1002000")
    (by decide) (by decide) (by decide) (by decide) (by decide) (by decide)).2
  revert hSame
  decide

end RoqWhitebit.Tools
