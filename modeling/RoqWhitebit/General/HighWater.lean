import Mathlib.Data.List.Induction
import Mathlib.Order.Lattice
import RoqWhitebit.General.Runs

/-!
# High-water marks

A machine has a level.  An event may clear it, back to a floor, or ask for a level; the
level only ever rises to what is asked for.  Where it stands after a run is then the
doing of one event: `reached_iff` finds the event that asked for it, and `fallow_iff`
says when there is none.
-/

namespace RoqWhitebit.General

variable {σ ε α : Type*} [LinearOrder α]

/-- A machine whose level is cleared to a floor, or rises to what an event asks for.
`I` is an invariant of the machine, and `W` what is known of its steps. -/
structure HighWater (step : σ → ε → σ) (I : σ → Prop) (W : σ → ε → Prop) (level : σ → α)
    (floor : α) (clears : σ → ε → Prop) (asks : σ → ε → Option α) : Prop where
  keeps : ∀ s e, I s → W s e → I (step s e)
  cleared : ∀ s e, I s → W s e → clears s e → level (step s e) = floor
  left : ∀ s e, I s → W s e → ¬clears s e → asks s e = none → level (step s e) = level s
  raised : ∀ s e a, I s → W s e → asks s e = some a →
    ¬clears s e ∧ floor < a ∧ level (step s e) = max (level s) a

section Marks

variable (step : σ → ε → σ) (level : σ → α) (clears : σ → ε → Prop)
  (asks : σ → ε → Option α)

/-- One event of the run asked for this level, which was higher than the one before, and
after it nothing cleared the level or asked for more. -/
def Reached (s : σ) (es : List ε) (a : α) : Prop :=
  ∃ pre e post, es = pre ++ e :: post ∧ level (run step s pre) < a ∧
    asks (run step s pre) e = some a ∧
    Along step (fun s e => ¬clears s e ∧ ∀ b ∈ asks s e, b ≤ a)
      (step (run step s pre) e) post

/-- Nothing has been asked for since the level was cleared last, or since the start. -/
def Fallow (s : σ) (es : List ε) : Prop :=
  ∃ pre post, es = pre ++ post ∧
    (pre = [] ∨ ∃ init e, pre = init ++ [e] ∧ clears (run step s init) e) ∧
    Along step (fun s e => asks s e = none) (run step s pre) post

end Marks

/-- An event that neither clears nor asks for more leaves the cause what it is. -/
theorem Reached.append {step : σ → ε → σ} {level : σ → α} {clears : σ → ε → Prop}
    {asks : σ → ε → Option α} {s : σ} {es : List ε} {a : α}
    (h : Reached step level clears asks s es a) {e : ε} (hClears : ¬clears (run step s es) e)
    (hAsks : ∀ b ∈ asks (run step s es) e, b ≤ a) :
    Reached step level clears asks s (es ++ [e]) a := by
  obtain ⟨pre, e', post, rfl, hLower, hAsked, hRest⟩ := h
  rw [run_append, run_cons] at hClears hAsks
  refine ⟨pre, e', post ++ [e], by simp, hLower, hAsked, ?_⟩
  rw [along_append]
  exact ⟨hRest, ⟨hClears, hAsks⟩, trivial⟩

namespace HighWater

variable {step : σ → ε → σ} {I : σ → Prop} {W : σ → ε → Prop} {level : σ → α} {floor : α}
  {clears : σ → ε → Prop} {asks : σ → ε → Option α}

theorem run_keeps (h : HighWater step I W level floor clears asks) {s : σ} {es : List ε}
    (hInit : I s) (hAlong : Along step W s es) : I (run step s es) := by
  induction es generalizing s with
  | nil => exact hInit
  | cons e es ih => exact ih (h.keeps s e hInit hAlong.1) hAlong.2

/-- The level stays where it is as long as nothing clears it or asks for more. -/
theorem level_run_eq (h : HighWater step I W level floor clears asks) {s : σ} {es : List ε}
    (hInit : I s) (hAlong : Along step W s es)
    (hRest : Along step (fun s' e => ¬clears s' e ∧ ∀ b ∈ asks s' e, b ≤ level s) s es) :
    level (run step s es) = level s := by
  induction es generalizing s with
  | nil => rfl
  | cons e es ih =>
      obtain ⟨⟨hNotCleared, hAsks⟩, hTail⟩ := hRest
      have hStep : level (step s e) = level s := by
        cases hAsked : asks s e with
        | none => exact h.left s e hInit hAlong.1 hNotCleared hAsked
        | some b =>
            rw [(h.raised s e b hInit hAlong.1 hAsked).2.2]
            exact max_eq_left (hAsks b hAsked)
      rw [run_cons, ih (h.keeps s e hInit hAlong.1) hAlong.2 (by rw [hStep]; exact hTail),
        hStep]

/-- The level stays at the floor as long as nothing is asked for. -/
theorem level_run_floor (h : HighWater step I W level floor clears asks) {s : σ}
    {es : List ε} (hInit : I s) (hAlong : Along step W s es) (hFloor : level s = floor)
    (hRest : Along step (fun s e => asks s e = none) s es) :
    level (run step s es) = floor := by
  induction es generalizing s with
  | nil => exact hFloor
  | cons e es ih =>
      have hStep : level (step s e) = floor := by
        by_cases hClears : clears s e
        · exact h.cleared s e hInit hAlong.1 hClears
        · rw [h.left s e hInit hAlong.1 hClears hRest.1, hFloor]
      exact ih (h.keeps s e hInit hAlong.1) hAlong.2 hStep hRest.2

/-- What an event asks for is where the level stands until more is asked for. -/
theorem level_of_reached (h : HighWater step I W level floor clears asks) {s : σ}
    {es : List ε} {a : α} (hInit : I s) (hAlong : Along step W s es)
    (hReached : Reached step level clears asks s es a) :
    level (run step s es) = a ∧ floor < a := by
  obtain ⟨pre, e, post, rfl, hLower, hAsked, hRest⟩ := hReached
  rw [along_append] at hAlong
  have hBefore := h.run_keeps hInit hAlong.1
  have hAfter := h.keeps _ e hBefore hAlong.2.1
  obtain ⟨-, hFloor, hRaised⟩ := h.raised _ e a hBefore hAlong.2.1 hAsked
  rw [max_eq_right (le_of_lt hLower)] at hRaised
  refine ⟨?_, hFloor⟩
  rw [run_append, run_cons, h.level_run_eq hAfter hAlong.2.2 (by rw [hRaised]; exact hRest)]
  exact hRaised

theorem level_of_fallow (h : HighWater step I W level floor clears asks) {s : σ}
    {es : List ε} (hInit : I s) (hFloor : level s = floor) (hAlong : Along step W s es)
    (hFallow : Fallow step clears asks s es) : level (run step s es) = floor := by
  obtain ⟨pre, post, rfl, hStart, hRest⟩ := hFallow
  rw [along_append] at hAlong
  have hBefore := h.run_keeps hInit hAlong.1
  have hLevel : level (run step s pre) = floor := by
    obtain rfl | ⟨init, e, rfl, hClears⟩ := hStart
    · exact hFloor
    · rw [along_append] at hAlong
      rw [run_append, run_cons, run_nil]
      exact h.cleared _ e (h.run_keeps hInit hAlong.1.1) hAlong.1.2.1 hClears
  rw [run_append]
  exact h.level_run_floor hBefore hAlong.2 hLevel hRest

/-- One more event: the level is cleared, raised or left where it is. -/
theorem reached_or_fallow (h : HighWater step I W level floor clears asks) {s : σ}
    (hInit : I s) (hFloor : level s = floor) (es : List ε) (hAlong : Along step W s es) :
    Fallow step clears asks s es ∨
      Reached step level clears asks s es (level (run step s es)) := by
  induction es using List.reverseRecOn with
  | nil => exact Or.inl ⟨[], [], rfl, Or.inl rfl, trivial⟩
  | append_singleton es e ih =>
      rw [along_append] at hAlong
      have hBefore := h.run_keeps hInit hAlong.1
      have hStep : run step s (es ++ [e]) = step (run step s es) e := by
        rw [run_append, run_cons, run_nil]
      rw [hStep]
      by_cases hClears : clears (run step s es) e
      · exact Or.inl ⟨es ++ [e], [], (List.append_nil _).symm, Or.inr ⟨es, e, rfl, hClears⟩,
          trivial⟩
      cases hAsked : asks (run step s es) e with
      | none =>
          rw [h.left _ e hBefore hAlong.2.1 hClears hAsked]
          obtain hFallow | hReached := ih hAlong.1
          · obtain ⟨pre, post, rfl, hStart, hRest⟩ := hFallow
            rw [run_append] at hAsked
            refine Or.inl ⟨pre, post ++ [e], by simp, hStart, ?_⟩
            rw [along_append]
            exact ⟨hRest, hAsked, trivial⟩
          · exact Or.inr (hReached.append hClears (by simp [hAsked]))
      | some a =>
          obtain ⟨-, hPositive, hRaised⟩ := h.raised _ e a hBefore hAlong.2.1 hAsked
          rw [hRaised]
          by_cases hLower : level (run step s es) < a
          · rw [max_eq_right (le_of_lt hLower)]
            exact Or.inr ⟨es, e, [], rfl, hLower, hAsked, trivial⟩
          · rw [max_eq_left (not_lt.mp hLower)]
            obtain hFallow | hReached := ih hAlong.1
            · rw [h.level_of_fallow hInit hFloor hAlong.1 hFallow] at hLower
              exact absurd hPositive hLower
            · refine Or.inr (hReached.append hClears fun b hb => ?_)
              rw [← Option.some.inj (hAsked.symm.trans hb)]
              exact not_lt.mp hLower

/-- **Where the level stands above its floor**: it is what one event of the run asked for,
which nothing has cleared or topped since. -/
theorem reached_iff (h : HighWater step I W level floor clears asks) {s : σ} {es : List ε}
    (hInit : I s) (hFloor : level s = floor) (hAlong : Along step W s es) (a : α) :
    Reached step level clears asks s es a ↔ level (run step s es) = a ∧ floor < a := by
  constructor
  · exact h.level_of_reached hInit hAlong
  · rintro ⟨rfl, hAbove⟩
    obtain hFallow | hReached := h.reached_or_fallow hInit hFloor es hAlong
    · rw [h.level_of_fallow hInit hFloor hAlong hFallow] at hAbove
      exact absurd hAbove (lt_irrefl floor)
    · exact hReached

/-- **Where the level is at its floor**: nothing has been asked for since it was cleared. -/
theorem fallow_iff (h : HighWater step I W level floor clears asks) {s : σ} {es : List ε}
    (hInit : I s) (hFloor : level s = floor) (hAlong : Along step W s es) :
    Fallow step clears asks s es ↔ level (run step s es) = floor := by
  constructor
  · exact h.level_of_fallow hInit hFloor hAlong
  · intro hLevel
    obtain hFallow | hReached := h.reached_or_fallow hInit hFloor es hAlong
    · exact hFallow
    · have hAbove := (h.level_of_reached hInit hAlong hReached).2
      rw [hLevel] at hAbove
      exact absurd hAbove (lt_irrefl floor)

end HighWater

end RoqWhitebit.General
