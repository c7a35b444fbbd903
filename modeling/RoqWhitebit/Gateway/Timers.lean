import RoqWhitebit.Gateway.Failures

/-!
# Pings

Every tick of the timer reaches every stream.  A stream that is ready sends a ping if the
time it has set itself for the next one has passed, and sets itself a new one.  That time
belongs to the stream and not to the connection: it outlives a reconnect.

Main results:

* `pings_spaced`: whatever happens between the ticks, and whatever throws, pings are sent
  by ready streams only and lie further apart than the ping frequency, and the rest of the
  gateway takes no notice of them.
* `pinged_recently`: if the clock does not go back and no ping fails, then after a tick
  every ready stream has sent a ping within the ping frequency.
-/

namespace RoqWhitebit.Gateway

open RoqWhitebit.General

/-- What a stream keeps for its pings: `next_ping_`, and the times at which it has sent
one.  Times are in nanoseconds. -/
structure Keepalive where
  nextPing : Int := 0
  pings : List Int := []
  deriving DecidableEq

namespace Keepalive

/-- `MarketData::send_ping` -/
def sendPing (pingFrequency now : Int) : Throwing Exception Keepalive Unit := do
  write fun l => { l with nextPing := now + pingFrequency }
  call
  write fun l => { l with pings := l.pings ++ [now] }

/-- `MarketData::operator()(Trace<Timer>)`, after the connection has been refreshed. -/
def onTimer (pingFrequency now : Int) (ready : Bool) : Throwing Exception Keepalive Unit := do
  let l ← read
  if ready && l.nextPing < now then sendPing pingFrequency now else pure ()

/-- The ping of this time has been sent. -/
def pinged (pingFrequency now : Int) (l : Keepalive) : Keepalive :=
  { nextPing := now + pingFrequency, pings := l.pings ++ [now] }

/-- What a tick can do: nothing, if no ping is due; send one; or fail to. -/
theorem onTimer_cases (pingFrequency now : Int) (ready : Bool) (l : Keepalive)
    (fuse : Option (Nat × Exception)) :
    (¬(ready = true ∧ l.nextPing < now) ∧
      stateAfter (onTimer pingFrequency now ready) l fuse = l) ∨
    (ready = true ∧ l.nextPing < now ∧
      stateAfter (onTimer pingFrequency now ready) l fuse = l.pinged pingFrequency now) ∨
    (ready = true ∧ l.nextPing < now ∧ fuse ≠ none ∧
      stateAfter (onTimer pingFrequency now ready) l fuse =
        { l with nextPing := now + pingFrequency }) := by
  have hRun : stateAfter (onTimer pingFrequency now ready) l fuse =
      stateAfter (if ready && l.nextPing < now then sendPing pingFrequency now else pure ())
        l fuse := rfl
  rw [hRun]
  by_cases hDue : ready = true ∧ l.nextPing < now
  · rw [if_pos (by simpa using hDue)]
    match fuse with
    | none => exact .inr (.inl ⟨hDue.1, hDue.2, rfl⟩)
    | some (0, e) => exact .inr (.inr ⟨hDue.1, hDue.2, by simp, rfl⟩)
    | some (n + 1, e) => exact .inr (.inl ⟨hDue.1, hDue.2, rfl⟩)
  · rw [if_neg (by simpa using hDue)]
    exact .inl ⟨hDue, rfl⟩

end Keepalive

/-! ## The gateway with its timers -/

/-- The gateway, and what its streams keep for their pings, by the index of the stream. -/
structure Timed where
  trial : Trial
  keepalive : Nat → Keepalive := fun _ => {}

/-- An event of the gateway, or a tick that reaches stream `k`.  The controller passes a
tick to one stream after the other, and what happens while connections are refreshed in
between are events. -/
inductive TimedEvent where
  | event (a : Attempt)
  | timer (k : Nat) (now : Int) (fuse : Option (Nat × Exception))

/-- Stream `k` is there and ready. -/
def Timed.ready (w : Timed) (k : Nat) : Bool :=
  match w.trial.gateway.marketData[k]? with
  | some md => md.ready
  | none => false

/-- One event. -/
def Timed.step (pingFrequency : Int) (w : Timed) : TimedEvent → Timed
  | .event a => { w with trial := w.trial.step a }
  | .timer k now fuse =>
      { w with
        keepalive := Function.update w.keepalive k
          (stateAfter (Keepalive.onTimer pingFrequency now (w.ready k)) (w.keepalive k) fuse) }

/-- The events that are not ticks. -/
def TimedEvent.attempt? : TimedEvent → Option Attempt
  | .event a => some a
  | .timer _ _ _ => none

/-- The gateway before anything has happened. -/
def Timed.start (maxSubscriptions : Nat) (hMax : 0 < maxSubscriptions) (exchange : String) :
    Timed :=
  { trial := .start maxSubscriptions hMax exchange }

section Pings

variable {pingFrequency : Int} {w : Timed} {es : List TimedEvent}

theorem step_keepalive_ne {k j : Nat} {now : Int} {fuse : Option (Nat × Exception)}
    (hOther : j ≠ k) :
    (w.step pingFrequency (.timer k now fuse)).keepalive j = w.keepalive j :=
  Function.update_of_ne hOther _ _

theorem step_keepalive_self {k : Nat} {now : Int} {fuse : Option (Nat × Exception)} :
    (w.step pingFrequency (.timer k now fuse)).keepalive k =
      stateAfter (Keepalive.onTimer pingFrequency now (w.ready k)) (w.keepalive k) fuse :=
  Function.update_self _ _ _

/-- Without its ticks, a run does the same to the gateway. -/
theorem run_trial (w : Timed) (es : List TimedEvent) :
    (run (Timed.step pingFrequency) w es).trial =
      run Trial.step w.trial (es.filterMap TimedEvent.attempt?) := by
  induction es generalizing w with
  | nil => rfl
  | cons e es ih =>
      cases e with
      | event a => exact ih (w.step pingFrequency (.event a))
      | timer k now fuse => exact ih (w.step pingFrequency (.timer k now fuse))

/-- The pings so far are further apart than the ping frequency, and so is the next one. -/
structure Spaced (pingFrequency : Int) (l : Keepalive) : Prop where
  apart : l.pings.Pairwise fun p q => p + pingFrequency < q
  next : ∀ p ∈ l.pings, p + pingFrequency ≤ l.nextPing

/-- **Step lemma**: a tick keeps the pings apart. -/
theorem Spaced.onTimer (hPositive : 0 < pingFrequency) {l : Keepalive}
    (h : Spaced pingFrequency l) (now : Int) (ready : Bool) (fuse : Option (Nat × Exception)) :
    Spaced pingFrequency (stateAfter (Keepalive.onTimer pingFrequency now ready) l fuse) := by
  rcases Keepalive.onTimer_cases pingFrequency now ready l fuse with
    ⟨-, hSame⟩ | ⟨-, hDue, hSent⟩ | ⟨-, hDue, -, hFailed⟩
  · rw [hSame]
    exact h
  · rw [hSent]
    refine ⟨?_, fun p hp => ?_⟩
    · show (l.pings ++ [now]).Pairwise _
      rw [List.pairwise_append]
      refine ⟨h.apart, List.pairwise_singleton _ _, fun p hp q hq => ?_⟩
      rw [List.mem_singleton.mp hq]
      have hNext := h.next p hp
      omega
    · show p + pingFrequency ≤ now + pingFrequency
      rcases List.mem_append.mp hp with hOld | hNew
      · have hNext := h.next p hOld
        omega
      · rw [List.mem_singleton.mp hNew]
  · rw [hFailed]
    refine ⟨h.apart, fun p hp => ?_⟩
    have hNext := h.next p hp
    show p + pingFrequency ≤ now + pingFrequency
    omega

/-- A ping is due to a tick at which its stream was ready. -/
def Justified (pingFrequency : Int) (w : Timed) (es : List TimedEvent) (k : Nat) (p : Int) :
    Prop :=
  ∃ before fuse after, es = before ++ .timer k p fuse :: after ∧
    (run (Timed.step pingFrequency) w before).ready k = true

theorem Justified.concat {k : Nat} {p : Int} (h : Justified pingFrequency w es k p)
    (e : TimedEvent) : Justified pingFrequency w (es ++ [e]) k p := by
  obtain ⟨before, fuse, after, rfl, hReady⟩ := h
  exact ⟨before, fuse, after ++ [e], by simp, hReady⟩

/-- **Step lemma**: a ping that a step has added is due to it. -/
theorem justified_of_step {k : Nat} {p : Int} {e : TimedEvent}
    (h : p ∈ ((run (Timed.step pingFrequency) w (es ++ [e])).keepalive k).pings) :
    p ∈ ((run (Timed.step pingFrequency) w es).keepalive k).pings ∨
      Justified pingFrequency w (es ++ [e]) k p := by
  rw [run_append, run_cons, run_nil] at h
  cases e with
  | event a => exact .inl h
  | timer j now fuse =>
      by_cases hStream : k = j
      · subst hStream
        rw [step_keepalive_self] at h
        rcases Keepalive.onTimer_cases pingFrequency now
          ((run (Timed.step pingFrequency) w es).ready k)
          ((run (Timed.step pingFrequency) w es).keepalive k) fuse with
          ⟨-, hSame⟩ | ⟨hReady, -, hSent⟩ | ⟨-, -, -, hFailed⟩
        · rw [hSame] at h
          exact .inl h
        · rw [hSent] at h
          rcases List.mem_append.mp h with hOld | hNew
          · exact .inl hOld
          · rw [List.mem_singleton.mp hNew]
            exact .inr ⟨es, fuse, [], rfl, hReady⟩
        · rw [hFailed] at h
          exact .inl h
      · rw [step_keepalive_ne hStream] at h
        exact .inl h

/-- What is to be said of the pings of a run. -/
structure PingsSpaced (pingFrequency : Int) (w : Timed) (es : List TimedEvent) : Prop where
  apart : ∀ k, ((run (Timed.step pingFrequency) w es).keepalive k).pings.Pairwise
    fun p q => p + pingFrequency < q
  justified : ∀ k, ∀ p ∈ ((run (Timed.step pingFrequency) w es).keepalive k).pings,
    Justified pingFrequency w es k p
  unnoticed : (run (Timed.step pingFrequency) w es).trial =
    run Trial.step w.trial (es.filterMap TimedEvent.attempt?)

theorem spaced_run (hPositive : 0 < pingFrequency)
    (hSpaced : ∀ k, Spaced pingFrequency (w.keepalive k)) (es : List TimedEvent) :
    ∀ k, Spaced pingFrequency ((run (Timed.step pingFrequency) w es).keepalive k) := by
  apply run_invariant (Timed.step pingFrequency)
    (I := fun w => ∀ k, Spaced pingFrequency (w.keepalive k)) hSpaced
  intro w e h k
  cases e with
  | event a => exact h k
  | timer j now fuse =>
      by_cases hStream : k = j
      · subst hStream
        rw [step_keepalive_self]
        exact (h k).onTimer hPositive now _ fuse
      · rw [step_keepalive_ne hStream]
        exact h k

theorem justified_run (hNone : ∀ k, (w.keepalive k).pings = []) (es : List TimedEvent) (k : Nat)
    (p : Int) (hPing : p ∈ ((run (Timed.step pingFrequency) w es).keepalive k).pings) :
    Justified pingFrequency w es k p := by
  induction es using List.reverseRecOn with
  | nil =>
      rw [run_nil, hNone] at hPing
      exact nomatch hPing
  | append_singleton es e ih =>
      rcases justified_of_step hPing with hOld | hNew
      · exact (ih hOld).concat e
      · exact hNew

/--
**Pings are spaced.**  From the start, after any events and ticks in any order, of which
any call may have thrown, the pings of every stream are further apart than the ping
frequency, each was sent at a tick at which its stream was ready, and the gateway is as it
would be without the ticks.
-/
theorem pings_spaced (pingFrequency : Int) (hPositive : 0 < pingFrequency)
    (maxSubscriptions : Nat) (hMax : 0 < maxSubscriptions) (exchange : String)
    (es : List TimedEvent) :
    PingsSpaced pingFrequency (.start maxSubscriptions hMax exchange) es where
  apart k := by
    have hStart (k : Nat) :
        Spaced pingFrequency ((Timed.start maxSubscriptions hMax exchange).keepalive k) :=
      ⟨List.Pairwise.nil, fun _ h => nomatch h⟩
    exact (spaced_run hPositive hStart es k).apart
  justified k p hPing := justified_run (fun _ => rfl) es k p hPing
  unnoticed := run_trial _ es

/-! ## No ping is missed -/

/-- No ping has been sent, or the last time set for the next one goes back to one. -/
def OnTime (pingFrequency now : Int) (l : Keepalive) : Prop :=
  l.nextPing = 0 ∨ ∃ p ∈ l.pings, l.nextPing = p + pingFrequency ∧ p ≤ now

/-- **Step lemma**: so it is after a tick that does not fail. -/
theorem OnTime.onTimer {now then' : Int} {l : Keepalive} (h : OnTime pingFrequency now l)
    (ready : Bool) (hClock : then' ≤ now) :
    OnTime pingFrequency now
      (stateAfter (Keepalive.onTimer pingFrequency then' ready) l none) := by
  rcases Keepalive.onTimer_cases pingFrequency then' ready l none with
    ⟨-, hSame⟩ | ⟨-, -, hSent⟩ | ⟨-, -, hFailed, -⟩
  · rw [hSame]
    exact h
  · rw [hSent]
    exact .inr ⟨then', List.mem_append_right _ (List.mem_singleton_self _), rfl, hClock⟩
  · exact absurd rfl hFailed

/-- The ticks of stream `k` do not fail and are not later than `now`. -/
def TicksUpTo (k : Nat) (now : Int) (es : List TimedEvent) : Prop :=
  ∀ time fuse, .timer k time fuse ∈ es → time ≤ now ∧ fuse = none

theorem onTime_run {k : Nat} {now : Int} (hStart : OnTime pingFrequency now (w.keepalive k))
    (hTicks : TicksUpTo k now es) :
    OnTime pingFrequency now ((run (Timed.step pingFrequency) w es).keepalive k) := by
  apply List.foldlRecOn (motive := fun w : Timed => OnTime pingFrequency now (w.keepalive k))
    es (Timed.step pingFrequency) hStart
  intro w h e he
  cases e with
  | event a => exact h
  | timer j time fuse =>
      by_cases hStream : k = j
      · subst hStream
        obtain ⟨hClock, rfl⟩ := hTicks time fuse he
        rw [step_keepalive_self]
        exact h.onTimer _ hClock
      · rw [step_keepalive_ne hStream]
        exact h

/--
**No ping is missed.**  From the start, after any events and ticks in any order: if the
ticks of a stream have not failed and the clock has not gone back, then after one more
tick, at which the stream is ready, it has sent a ping no longer ago than the ping
frequency.
-/
theorem pinged_recently (pingFrequency : Int) (hPositive : 0 < pingFrequency)
    (maxSubscriptions : Nat) (hMax : 0 < maxSubscriptions) (exchange : String)
    (es : List TimedEvent) (k : Nat) (now : Int) (hNow : 0 < now) (hTicks : TicksUpTo k now es)
    (hReady : (run (Timed.step pingFrequency) (.start maxSubscriptions hMax exchange)
      es).ready k = true) :
    ∃ p ∈ ((run (Timed.step pingFrequency) (.start maxSubscriptions hMax exchange)
        (es ++ [.timer k now none])).keepalive k).pings,
      now - pingFrequency ≤ p ∧ p ≤ now := by
  have hBefore : OnTime pingFrequency now ((run (Timed.step pingFrequency)
      (.start maxSubscriptions hMax exchange) es).keepalive k) := onTime_run (.inl rfl) hTicks
  rw [run_append, run_cons, run_nil, step_keepalive_self, hReady]
  rcases Keepalive.onTimer_cases pingFrequency now true
    ((run (Timed.step pingFrequency) (.start maxSubscriptions hMax exchange) es).keepalive k)
    none with ⟨hEarly, hSame⟩ | ⟨-, -, hSent⟩ | ⟨-, -, hFailed, -⟩
  · rw [hSame]
    rw [and_iff_right rfl] at hEarly
    rcases hBefore with hNone | ⟨p, hPing, hNext, hPast⟩
    · omega
    · exact ⟨p, hPing, by omega, hPast⟩
  · rw [hSent]
    exact ⟨now, List.mem_append_right _ (List.mem_singleton_self _), by omega, Int.le_refl _⟩
  · exact absurd rfl hFailed

end Pings

/-- Ticks before a connection is ready, while it is, after it has been lost and once it is
back; one ping is sent on each connection. -/
def ticksOverReconnect : List TimedEvent :=
  [ .event (.marketInfoAck [named "A" false], none), .timer 0 5 none,
    .event (.ready 0, none), .timer 0 10 none, .timer 0 15 none,
    .event (.disconnected 0, none), .timer 0 25 none,
    .event (.ready 0, none), .timer 0 30 none ]

theorem pings_spaced_over_reconnect :
    (0 : Int) < 10 ∧ 0 < 2 ∧
      PingsSpaced 10 (.start 2 (by decide) "whitebit") ticksOverReconnect :=
  ⟨by decide, by decide, pings_spaced 10 (by decide) 2 (by decide) "whitebit" _⟩

theorem pinged_recently_over_reconnect :
    (0 : Int) < 10 ∧ 0 < 2 ∧ (0 : Int) < 35 ∧ TicksUpTo 0 35 ticksOverReconnect ∧
    (run (Timed.step 10) (.start 2 (by decide) "whitebit") ticksOverReconnect).ready 0 = true ∧
    ∃ p ∈ ((run (Timed.step 10) (.start 2 (by decide) "whitebit")
        (ticksOverReconnect ++ [.timer 0 35 none])).keepalive 0).pings,
      (35 : Int) - 10 ≤ p ∧ p ≤ 35 := by
  have hTicks : TicksUpTo 0 35 ticksOverReconnect := by
    intro time fuse hTick
    simp only [ticksOverReconnect, List.mem_cons, List.not_mem_nil, or_false, reduceCtorEq,
      false_or, TimedEvent.timer.injEq, true_and] at hTick
    rcases hTick with ⟨rfl, rfl⟩ | ⟨rfl, rfl⟩ | ⟨rfl, rfl⟩ | ⟨rfl, rfl⟩ | ⟨rfl, rfl⟩ <;>
      exact ⟨by decide, rfl⟩
  have hReady : (run (Timed.step 10) (.start 2 (by decide) "whitebit")
      ticksOverReconnect).ready 0 = true := by decide +kernel
  exact ⟨by decide, by decide, by decide, hTicks, hReady,
    pinged_recently 10 (by decide) 2 (by decide) "whitebit" _ 0 35 (by decide) hTicks hReady⟩

end RoqWhitebit.Gateway
