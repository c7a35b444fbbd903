import Mathlib.Logic.Basic

/-!
# Processes that can die

A process handles one event after another until a handler ends it.  `process` folds a
`step` that says whether the process is still alive; what comes after its death is
never looked at.

Where the fate of a step and what it puts out depend on the event alone, a whole run
is known from the events: `alive_process` and `log_process`.  Both speak of `processed`, the
events up to the first deadly one, that one included.  Where they depend on it only as long
as the process lives, `log_of_alive` says what a process has put out that lives.
-/

namespace RoqWhitebit.General

variable {σ ε ω : Type*}

/-- A state, and whether the process is alive in it. -/
structure Fate (σ : Type*) where
  state : σ
  alive : Bool

/-- The process handles the events until one of them ends it. -/
def process (step : σ → ε → Fate σ) (s : σ) : List ε → Fate σ
  | [] => { state := s, alive := true }
  | e :: es =>
      if (step s e).alive then process step (step s e).state es else step s e

/-- The events up to the first one that is not survived, and that one. -/
def processed (survived : ε → Bool) : List ε → List ε
  | [] => []
  | e :: es => if survived e then e :: processed survived es else [e]

section Rules

variable {step : σ → ε → Fate σ} {survived : ε → Bool}

/-- A process lives on exactly if it survives every event. -/
theorem alive_process (hAlive : ∀ s e, (step s e).alive = survived e) (s : σ)
    (es : List ε) : (process step s es).alive = es.all survived := by
  induction es generalizing s with
  | nil => rfl
  | cons e es ih =>
      rw [process, List.all_cons, hAlive]
      by_cases hSurvived : survived e
      · rw [if_pos hSurvived, ih, hSurvived, Bool.true_and]
      · rw [if_neg hSurvived, hAlive, Bool.eq_false_iff.mpr hSurvived, Bool.false_and]

/-- What the process puts out is what the events that are processed put out, in order. -/
theorem log_process (log : σ → List ω) (hAlive : ∀ s e, (step s e).alive = survived e)
    {entries : ε → List ω} (hLog : ∀ s e, log (step s e).state = log s ++ entries e)
    (s : σ) (es : List ε) :
    log (process step s es).state = log s ++ (processed survived es).flatMap entries := by
  induction es generalizing s with
  | nil => exact (List.append_nil _).symm
  | cons e es ih =>
      rw [process, processed, hAlive]
      by_cases hSurvived : survived e
      · rw [if_pos hSurvived, if_pos hSurvived, ih, hLog, List.flatMap_cons,
          List.append_assoc]
      · rw [if_neg hSurvived, if_neg hSurvived, hLog, List.flatMap_singleton]

/-- A process that has lived through everything has lived through the first event. -/
theorem alive_of_process_cons {s : σ} {e : ε} {es : List ε}
    (hAlive : (process step s (e :: es)).alive = true) : (step s e).alive = true := by
  rw [process] at hAlive
  by_cases hFirst : (step s e).alive
  · exact hFirst
  · rw [if_neg hFirst] at hAlive
    exact hAlive

/-- What a process that lives has put out, where what a step puts out is known if it is
survived. -/
theorem log_of_alive (log : σ → List ω) {entries : ε → List ω}
    (hLog : ∀ s e, (step s e).alive = true → log (step s e).state = log s ++ entries e)
    {s : σ} {es : List ε} (hAlive : (process step s es).alive = true) :
    log (process step s es).state = log s ++ es.flatMap entries := by
  induction es generalizing s with
  | nil => exact (List.append_nil _).symm
  | cons e es ih =>
      have hFirst := alive_of_process_cons hAlive
      rw [process, if_pos hFirst] at hAlive ⊢
      rw [ih hAlive, hLog s e hFirst, List.flatMap_cons, List.append_assoc]

end Rules

end RoqWhitebit.General
