import Mathlib.Logic.Basic

/-!
# Runs of event-driven machines

A single-threaded program handles one event after another, and every handler
runs to its end before the next event is taken.  Such a program is a function
`step : σ → ε → σ`; a run folds it over a list of events.

Two notions of "throughout the run" are needed, and they are kept apart:

* `Always step P s es` — the property `P` holds in every state the run visits,
  the first and the last one included;
* `Along step C s es` — the condition `C` holds of every step, that is of the
  state before the event together with the event.

`always_iff_along` is the rule the state-machine results rest on.  Where one
step keeps `P` exactly if `C` holds of that step, a whole run keeps `P` exactly
if `C` holds along it.
-/

namespace RoqWhitebit.General

variable {σ ε : Type*} (step : σ → ε → σ)

/-- The state after handling the events in order. -/
def run (s : σ) (es : List ε) : σ := es.foldl step s

/-- `P` holds in every state visited, including the first and the last. -/
def Always (P : σ → Prop) : σ → List ε → Prop
  | s, [] => P s
  | s, e :: es => P s ∧ Always P (step s e) es

/-- `C` holds of every step: the state before it and the event it handles. -/
def Along (C : σ → ε → Prop) : σ → List ε → Prop
  | _, [] => True
  | s, e :: es => C s e ∧ Along C (step s e) es

instance decidableAlways (P : σ → Prop) [DecidablePred P] :
    ∀ (s : σ) (es : List ε), Decidable (Always step P s es)
  | s, [] => inferInstanceAs (Decidable (P s))
  | s, e :: es =>
      haveI := decidableAlways P (step s e) es
      inferInstanceAs (Decidable (P s ∧ Always step P (step s e) es))

instance decidableAlong (C : σ → ε → Prop) [∀ s e, Decidable (C s e)] :
    ∀ (s : σ) (es : List ε), Decidable (Along step C s es)
  | _, [] => inferInstanceAs (Decidable True)
  | s, e :: es =>
      haveI := decidableAlong C (step s e) es
      inferInstanceAs (Decidable (C s e ∧ Along step C (step s e) es))

@[simp] theorem run_nil (s : σ) : run step s [] = s := rfl

@[simp] theorem run_cons (s : σ) (e : ε) (es : List ε) :
    run step s (e :: es) = run step (step s e) es := rfl

theorem run_append (s : σ) (es fs : List ε) :
    run step s (es ++ fs) = run step (run step s es) fs := by
  simp [run, List.foldl_append]

theorem along_append (C : σ → ε → Prop) (s : σ) (es fs : List ε) :
    Along step C s (es ++ fs) ↔
      Along step C s es ∧ Along step C (run step s es) fs := by
  induction es generalizing s with
  | nil => simp [Along]
  | cons e es ih => simp [Along, ih, and_assoc]

theorem along_true (s : σ) (es : List ε) : Along step (fun _ _ => True) s es := by
  induction es generalizing s with
  | nil => trivial
  | cons e es ih => exact ⟨trivial, ih (step s e)⟩

/-- `Always` spelled out over the prefixes of the run. -/
theorem always_iff_visited (P : σ → Prop) (s : σ) (es : List ε) :
    Always step P s es ↔ ∀ pre post, es = pre ++ post → P (run step s pre) := by
  induction es generalizing s with
  | nil =>
      constructor
      · intro h pre post hSplit
        have hNil : pre = [] := (List.append_eq_nil_iff.mp hSplit.symm).1
        subst hNil
        exact h
      · intro h
        exact h [] [] rfl
  | cons e es ih =>
      constructor
      · rintro ⟨hHead, hTail⟩ pre post hSplit
        cases pre with
        | nil => exact hHead
        | cons d pre =>
            obtain ⟨rfl, hRest⟩ := List.cons.inj hSplit
            exact (ih (step s e)).mp hTail pre post hRest
      · intro h
        refine ⟨h [] (e :: es) rfl, (ih (step s e)).mpr ?_⟩
        intro pre post hSplit
        exact h (e :: pre) post (by rw [hSplit, List.cons_append])

/-- What holds throughout a run holds in its first state. -/
theorem Always.head {P : σ → Prop} {s : σ} {es : List ε}
    (h : Always step P s es) : P s := by
  cases es with
  | nil => exact h
  | cons e es => exact h.1

/-- What holds throughout a run holds in its last state. -/
theorem Always.last {P : σ → Prop} {s : σ} {es : List ε}
    (h : Always step P s es) : P (run step s es) :=
  (always_iff_visited step P s es).mp h es [] (List.append_nil es).symm

/-- **Invariant rule**: what one step keeps, every run keeps. -/
theorem run_invariant {I : σ → Prop} {s : σ} (hInit : I s)
    (hStep : ∀ s e, I s → I (step s e)) (es : List ε) :
    I (run step s es) := by
  induction es generalizing s with
  | nil => exact hInit
  | cons e es ih => exact ih (hStep s e hInit)

/--
**Exactness rule**: `I` is an invariant of the steps taken, `W` is what is known
of every event, and from a state with `P` one step keeps `P` exactly if `C`
holds of it.  Then a run from a state with `P` keeps `P` throughout exactly if
`C` holds along it.
-/
theorem always_iff_along {I P : σ → Prop} {W C : σ → ε → Prop} {s : σ}
    (hI : I s) (hP : P s)
    (hInv : ∀ s e, I s → W s e → I (step s e))
    (hStep : ∀ s e, I s → W s e → P s → (P (step s e) ↔ C s e))
    (es : List ε) (hW : Along step W s es) :
    Always step P s es ↔ Along step C s es := by
  induction es generalizing s with
  | nil => exact iff_of_true hP trivial
  | cons e es ih =>
      have hIff := hStep s e hI hW.1 hP
      have hI' := hInv s e hI hW.1
      constructor
      · rintro ⟨_, hTail⟩
        have hP' : P (step s e) := hTail.head
        exact ⟨hIff.mp hP', (ih hI' hP' hW.2).mp hTail⟩
      · rintro ⟨hC, hTail⟩
        have hP' : P (step s e) := hIff.mpr hC
        exact ⟨hP, (ih hI' hP' hW.2).mpr hTail⟩

/-- What follows from `P` after a step holds along every run that keeps `P`. -/
theorem Always.along {I P : σ → Prop} {C : σ → ε → Prop} {s : σ} (hI : I s)
    (hInv : ∀ s e, I s → I (step s e)) (hStep : ∀ s e, I s → P (step s e) → C s e)
    (es : List ε) (hAlways : Always step P s es) : Along step C s es := by
  induction es generalizing s with
  | nil => trivial
  | cons e es ih =>
      have hNext : P (step s e) := hAlways.2.head
      exact ⟨hStep s e hI hNext, ih (hInv s e hI) hAlways.2⟩

/-- What is equivalent on the steps of a run holds along it together. -/
theorem along_congr {I : σ → Prop} {C D : σ → ε → Prop} {W : ε → Prop} {s : σ} (hI : I s)
    (hInv : ∀ s e, I s → I (step s e)) (hIff : ∀ s e, I s → W e → (C s e ↔ D s e))
    {es : List ε} (hW : ∀ e ∈ es, W e) : Along step C s es ↔ Along step D s es := by
  induction es generalizing s with
  | nil => exact Iff.rfl
  | cons e es ih =>
      have hHead := hIff s e hI (hW e List.mem_cons_self)
      have hTail := ih (hInv s e hI) fun e' he' => hW e' (List.mem_cons_of_mem e he')
      exact and_congr hHead hTail

/-- A machine that agrees with another one on every step taken runs like it. -/
theorem run_eq_of_along {step' : σ → ε → σ} {s : σ} {es : List ε}
    (h : Along step (fun s e => step s e = step' s e) s es) :
    run step s es = run step' s es := by
  induction es generalizing s with
  | nil => rfl
  | cons e es ih =>
      rw [run_cons, run_cons, ← h.1]
      exact ih h.2

theorem Along.mono {C D : σ → ε → Prop} {s : σ} {es : List ε} (h : Along step C s es)
    (hImp : ∀ s e, C s e → D s e) : Along step D s es := by
  induction es generalizing s with
  | nil => trivial
  | cons e es ih => exact ⟨hImp s e h.1, ih h.2⟩

/-- **Stuttering rule**: events that leave every state alone may be left out. -/
theorem run_filter (relevant : ε → Bool)
    (hStutter : ∀ s e, relevant e = false → step s e = s)
    (s : σ) (es : List ε) :
    run step s (es.filter relevant) = run step s es := by
  induction es generalizing s with
  | nil => rfl
  | cons e es ih =>
      cases hRelevant : relevant e with
      | true => rw [List.filter_cons_of_pos hRelevant, run_cons, run_cons, ih]
      | false =>
          rw [List.filter_cons_of_neg (by simp [hRelevant]), run_cons,
            hStutter s e hRelevant, ih]

end RoqWhitebit.General
