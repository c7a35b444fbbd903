import RoqWhitebit.Tools.Quota

/-!
# Back-offs over whole runs of the throttle

Both back-offs a response status asks for can be lost:

* a `403` raises `suspend_until_` by ten minutes, but a later rate-limit header
  that reports remaining requests sets it back to zero;
* a `429` only acts on `suspend_until_ = 0`, so a suspension that has already
  expired hides it.

The theorems say for every run exactly when this does not happen.
-/

namespace RoqWhitebit.Tools

open RoqWhitebit.General

/-! ## What one event does to a suspension -/

namespace Quota

/-- A new value that leaves the quota not exhausted. -/
def ClearedBy (q : Quota) : Reading → Prop
  | .status v => q.limitStatus ≠ v ∧ ¬Exhausted v q.resetTimestamp
  | .reset v => q.resetTimestamp ≠ v ∧ ¬Exhausted q.limitStatus v
  | .nothing => False

instance (q : Quota) (r : Reading) : Decidable (q.ClearedBy r) := by
  cases r <;> unfold ClearedBy <;> infer_instance

/-- A header that clears the suspension. -/
def Clears (u : Utils) (q : Quota) : Event → Prop
  | .messageHeader name value _ _ => q.ClearedBy (reading u name value)
  | .messageBegin _ => False
  | .messageEnd _ _ => False

instance (u : Utils) (q : Quota) : (e : Event) → Decidable (q.Clears u e)
  | .messageHeader name value _ _ =>
      inferInstanceAs (Decidable (q.ClearedBy (reading u name value)))
  | .messageBegin _ => instDecidableFalse
  | .messageEnd _ _ => instDecidableFalse

theorem suspendUntil_read_of_clearedBy {round : Int → Int} {now nowUtc : Int} {q : Quota}
    {r : Reading} (h : q.ClearedBy r) : (q.read round now nowUtc r).suspendUntil = 0 := by
  cases r with
  | status v => exact suspendUntil_setStatus_cleared h.1 h.2
  | reset v => exact suspendUntil_setReset_cleared h.1 h.2
  | nothing => exact absurd h id

theorem suspendUntil_le_read {round : Int → Int} {now nowUtc : Int} {q : Quota} {r : Reading}
    (h : ¬q.ClearedBy r) : q.suspendUntil ≤ (q.read round now nowUtc r).suspendUntil := by
  cases r with
  | status v =>
      show q.suspendUntil ≤ (q.setStatus round now nowUtc v).suspendUntil
      by_cases hSame : q.limitStatus = v
      · rw [setStatus_same hSame]
      · have hEx : Exhausted v q.resetTimestamp :=
          Decidable.of_not_not fun hNot => h ⟨hSame, hNot⟩
        rw [suspendUntil_setStatus_exhausted hSame hEx]
        exact le_max_left _ _
  | reset v =>
      show q.suspendUntil ≤ (q.setReset round now nowUtc v).suspendUntil
      by_cases hSame : q.resetTimestamp = v
      · rw [setReset_same hSame]
      · have hEx : Exhausted q.limitStatus v :=
          Decidable.of_not_not fun hNot => h ⟨hSame, hNot⟩
        rw [suspendUntil_setReset_exhausted hSame hEx]
        exact le_max_left _ _
  | nothing => exact le_refl _

/-- The end of a response at a positive time never shortens a suspension. -/
theorem suspendUntil_le_finish (status : Status) {now : Int} (q : Quota)
    (hNow : 0 < now) : q.suspendUntil ≤ (q.finish id status now).suspendUntil := by
  cases status with
  | forbidden => exact le_max_left _ _
  | tooManyRequests =>
      simp only [finish, id_eq]
      by_cases hZero : q.suspendUntil = 0
      · have hBackoff : 0 < defaultBackoff := by decide
        rw [if_pos hZero]
        show q.suspendUntil ≤ now + defaultBackoff
        omega
      · rw [if_neg hZero]
  | other code => exact le_refl _

/-- A clearing header ends every suspension. -/
theorem suspendUntil_step_of_clears (round : Int → Int) (u : Utils) (q : Quota) (e : Event)
    (h : q.Clears u e) : (q.step round u e).suspendUntil = 0 := by
  cases e with
  | messageBegin now => exact absurd h id
  | messageHeader name value now nowUtc => exact suspendUntil_read_of_clearedBy h
  | messageEnd status now => exact absurd h id

/-- Every other event at a positive time leaves a suspension at least as long. -/
theorem suspendUntil_le_step (u : Utils) (q : Quota) (e : Event)
    (hNow : 0 < e.now) (h : ¬q.Clears u e) :
    q.suspendUntil ≤ (q.step id u e).suspendUntil := by
  cases e with
  | messageBegin now => exact le_refl _
  | messageHeader name value now nowUtc => exact suspendUntil_le_read h
  | messageEnd status now => exact suspendUntil_le_finish status q hNow

end Quota

/-! ## A block after a 403 -/

/-- Before `deadline` has come, requests are held back until then at least. -/
def Blocked (deadline : Int) (c : Clocked) : Prop :=
  c.now < deadline → deadline ≤ c.throttle.suspendUntil

instance (deadline : Int) (c : Clocked) : Decidable (Blocked deadline c) := by
  unfold Blocked
  infer_instance

/-- Before `deadline` has come, no header clears the suspension. -/
def NotCleared (u : Utils) (deadline : Int) (c : Clocked) (e : Event) : Prop :=
  e.now < deadline → ¬c.throttle.quota.Clears u e

/-- The throttle of a clocked run is enabled throughout. -/
def Clocked.Enabled (c : Clocked) : Prop := c.throttle.enabled = true

theorem Clocked.Enabled.step {u : Utils} {c : Clocked} {e : Event}
    (h : c.Enabled) : (c.step u e).Enabled := by
  unfold Clocked.Enabled Clocked.step
  rw [step_enabled]
  exact h

/-- One step from a blocked state: it stays blocked exactly if nothing clears
the suspension before the deadline. -/
theorem blocked_step_iff (u : Utils) (deadline : Int) (hDeadline : 0 < deadline)
    (c : Clocked) (e : Event) (hEnabled : c.Enabled) (hTimed : WellTimed c e)
    (hBlocked : Blocked deadline c) :
    Blocked deadline (c.step u e) ↔ NotCleared u deadline c e := by
  have hSim : (c.step u e).throttle.suspendUntil =
      (c.throttle.quota.step id u e).suspendUntil :=
    congrArg Quota.suspendUntil (quota_step u c.throttle e hEnabled)
  have hNow : (c.step u e).now = e.now := rfl
  unfold Blocked NotCleared
  rw [hNow, hSim]
  constructor
  · intro hNext hBefore hClears
    have hZero := Quota.suspendUntil_step_of_clears id u c.throttle.quota e hClears
    have hLater := hNext hBefore
    omega
  · intro hNotCleared hBefore
    have hOld : deadline ≤ c.throttle.quota.suspendUntil :=
      hBlocked (lt_of_le_of_lt hTimed.2 hBefore)
    exact le_trans hOld
      (Quota.suspendUntil_le_step u c.throttle.quota e hTimed.1 (hNotCleared hBefore))

/-- A `403` blocks for ten minutes at once. -/
theorem blocked_of_forbidden (u : Utils) (c : Clocked) (t : Int)
    (hEnabled : c.Enabled) :
    Blocked (t + blockedBackoff) (c.step u (.messageEnd .forbidden t)) := by
  intro _
  have hSim : (c.step u (.messageEnd .forbidden t)).throttle.suspendUntil =
      max c.throttle.suspendUntil (t + blockedBackoff) :=
    congrArg Quota.suspendUntil
      (quota_step u c.throttle (.messageEnd .forbidden t) hEnabled)
  rw [hSim]
  exact le_max_right _ _

theorem start_run_enabled (u : Utils) (es : List Event) :
    (run (Clocked.step u) .start es).Enabled :=
  run_invariant (Clocked.step u) (I := Clocked.Enabled)
    (show Clocked.start.throttle.enabled = true from rfl) (fun _ _ h => h.step) es

/--
**A 403 block over a run.**  After a `403` at time `t`, every later state reached
before the ten minutes are over is still suspended until then, exactly if no
header handled before that clears the suspension.
-/
theorem block_kept_iff (u : Utils) (before later : List Event) (t : Int)
    (hTimed : Along (Clocked.step u) WellTimed .start
      (before ++ .messageEnd .forbidden t :: later)) :
    Always (Clocked.step u) (Blocked (t + blockedBackoff))
        (run (Clocked.step u) .start (before ++ [.messageEnd .forbidden t])) later ↔
      Along (Clocked.step u) (NotCleared u (t + blockedBackoff))
        (run (Clocked.step u) .start (before ++ [.messageEnd .forbidden t])) later := by
  rw [along_append] at hTimed
  obtain ⟨_, hForbidden, hLater⟩ := hTimed
  have hDeadline : 0 < t + blockedBackoff := by
    have hPos : 0 < t := hForbidden.1
    have hBackoff : 0 < blockedBackoff := by decide
    omega
  have hSplit : run (Clocked.step u) .start (before ++ [.messageEnd .forbidden t]) =
      (run (Clocked.step u) .start before).step u (.messageEnd .forbidden t) := by
    rw [run_append, run_cons, run_nil]
  rw [hSplit]
  exact always_iff_along (Clocked.step u)
    (start_run_enabled u before).step
    (blocked_of_forbidden u _ t (start_run_enabled u before))
    (fun _ _ hEnabled _ => hEnabled.step)
    (fun c e hEnabled hW hBlocked =>
      blocked_step_iff u (t + blockedBackoff) hDeadline c e hEnabled hW hBlocked)
    later hLater

/-- A `403` at one second and, a second later, a limit status of `119` from a
pipelined response. -/
def blockThenStatus : List Event :=
  [.messageEnd .forbidden (seconds 1),
    .messageHeader "X-Bapi-Limit-Status" "119" (seconds 2) (seconds 1000)]

/-- The block is gone after one second. -/
theorem block_is_shortened :
    ¬∀ (u : Utils) (before later : List Event) (t : Int),
      Along (Clocked.step u) WellTimed .start
        (before ++ .messageEnd .forbidden t :: later) →
      Always (Clocked.step u) (Blocked (t + blockedBackoff))
        (run (Clocked.step u) .start (before ++ [.messageEnd .forbidden t])) later := by
  intro h
  have hLast := (h .standard [] (blockThenStatus.drop 1) (seconds 1) (by decide)).last
  revert hLast
  decide

/-- An exhausted quota known from an earlier response. -/
def exhaustedQuota : List Event :=
  [.messageHeader "X-Bapi-Limit-Status" "0" (seconds 1) (seconds 1000),
    .messageHeader "X-Bapi-Limit-Reset-Timestamp" "1003000" (seconds 1) (seconds 1000),
    .messageEnd (.other 200) (seconds 1)]

/-- A response to a pipelined request, with headers that announce a later reset. -/
def laterReset : List Event :=
  [.messageHeader "X-Bapi-Limit-Status" "0" (seconds 3) (seconds 1002),
    .messageHeader "X-Bapi-Limit-Reset-Timestamp" "1008000" (seconds 3) (seconds 1002),
    .messageEnd (.other 200) (seconds 3)]

/-- After an exhausted quota, a `403` and a later reset the block is kept. -/
theorem block_kept_iff_later_reset :
    Always (Clocked.step .standard) (Blocked (seconds 2 + blockedBackoff))
        (run (Clocked.step .standard) .start
          (exhaustedQuota ++ [.messageEnd .forbidden (seconds 2)])) laterReset ↔
      Along (Clocked.step .standard) (NotCleared .standard (seconds 2 + blockedBackoff))
        (run (Clocked.step .standard) .start
          (exhaustedQuota ++ [.messageEnd .forbidden (seconds 2)])) laterReset :=
  block_kept_iff .standard exhaustedQuota laterReset (seconds 2) (by decide)

/-! ## A back-off after a 429 -/

end RoqWhitebit.Tools
