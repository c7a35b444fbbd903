import RoqWhitebit.General.Throwing

/-!
# Contracts for code that may throw

`Meets P m Q E`: from every state with `P`, the computation `m` either returns a
value `a` and a state with `Q a`, or is cut short and leaves a state with `E`.  The
fuse is arbitrary, so that the contract covers every call at which an exception can
strike.

There is one rule for each building block of `Throwing`.  A loop is taken element by
element: what the body makes of an element is a relation between the element before
and after, one for a body that returns and one for a body that is cut short.
-/

namespace RoqWhitebit.General

variable {ε σ τ α β : Type}

/-- The computation has returned into `Q` or thrown into `E`. -/
def EndsIn (Q : α → σ → Prop) (E : σ → Prop) : EStateM.Result ε (Fused ε σ) α → Prop
  | .ok a f => Q a f.state
  | .error _ f => E f.state

/-- From `P`, the computation returns into `Q` or throws into `E`. -/
def Meets (P : σ → Prop) (m : Throwing ε σ α) (Q : α → σ → Prop) (E : σ → Prop) : Prop :=
  ∀ s fuse, P s → EndsIn Q E (m ⟨s, fuse⟩)

section Rules

variable {P P' : σ → Prop} {Q Q' : α → σ → Prop} {E E' : σ → Prop} {m : Throwing ε σ α}

/-- **Consequence**. -/
theorem Meets.mono (h : Meets P m Q E) (hPre : ∀ s, P' s → P s)
    (hPost : ∀ a s, Q a s → Q' a s) (hThrow : ∀ s, E s → E' s) : Meets P' m Q' E' := by
  intro s fuse hs
  have hRun := h s fuse (hPre s hs)
  cases hResult : m ⟨s, fuse⟩ with
  | ok a f =>
      rw [hResult] at hRun
      exact hPost a f.state hRun
  | error e f =>
      rw [hResult] at hRun
      exact hThrow f.state hRun

theorem meets_pure {a : α} (h : ∀ s, P s → Q a s) :
    Meets P (pure a : Throwing ε σ α) Q E :=
  fun s _ hs => h s hs

theorem meets_read {Q : σ → σ → Prop} (h : ∀ s, P s → Q s s) :
    Meets P (read : Throwing ε σ σ) Q E :=
  fun s _ hs => h s hs

theorem meets_write {g : σ → σ} {Q : Unit → σ → Prop} (h : ∀ s, P s → Q () (g s)) :
    Meets P (write g : Throwing ε σ Unit) Q E :=
  fun s _ hs => h s hs

/-- A call out may throw, and leaves the state alone either way. -/
theorem meets_call {Q : Unit → σ → Prop} (h : ∀ s, P s → Q () s) (hThrow : ∀ s, P s → E s) :
    Meets P (call : Throwing ε σ Unit) Q E := by
  intro s fuse hs
  match fuse with
  | none => exact h s hs
  | some (0, e) => exact hThrow s hs
  | some (k + 1, e) => exact h s hs

/-- **Sequencing**. -/
theorem Meets.bind {R : α → σ → Prop} {Q : β → σ → Prop} {k : α → Throwing ε σ β}
    (h : Meets P m R E) (hNext : ∀ a, Meets (R a) (k a) Q E) : Meets P (m >>= k) Q E := by
  intro s fuse hs
  have hFirst := h s fuse hs
  rw [bind_apply]
  cases hRun : m ⟨s, fuse⟩ with
  | error e f =>
      rw [hRun] at hFirst
      exact hFirst
  | ok a f =>
      rw [hRun] at hFirst
      exact hNext a f.state f.fuse hFirst

/-- A call before a computation. -/
theorem Meets.after_call {Q : β → σ → Prop} {k : Unit → Throwing ε σ β}
    (hThrow : ∀ s, P s → E s) (h : Meets P (k ()) Q E) : Meets P (call >>= k) Q E :=
  Meets.bind (meets_call (fun _ hs => hs) hThrow) fun _ => h

/-- A contract may be shown state by state. -/
theorem Meets.of_each (h : ∀ s, P s → Meets (· = s) m Q E) : Meets P m Q E :=
  fun s fuse hs => h s hs s fuse rfl

/-- A computation whose calls are counted. -/
theorem Calls.meets {s s' : σ} {n : Nat} {a : α} {bad : Nat → σ → Prop}
    (h : Calls m s n a s' bad) :
    Meets (· = s) m (fun b t => b = a ∧ t = s') (fun t => ∃ k, k < n ∧ bad k t) := by
  rintro _ fuse rfl
  rcases lasts_or_throws n fuse with hLasts | ⟨k, e, rfl, hk⟩
  · rw [h.returns fuse hLasts]
    exact ⟨rfl, rfl⟩
  · obtain ⟨t, hThrow, hBad⟩ := h.throws k e hk
    rw [hThrow]
    exact ⟨k, hk, hBad⟩

/-- A computation that keeps a relation however it ends. -/
theorem Keeps.meets {R : σ → σ → Prop} (h : Keeps R m) (s : σ) :
    Meets (· = s) m (fun _ t => R s t) (R s) := by
  intro s' fuse hs
  rw [hs]
  have hRun := h s fuse
  unfold stateAfter at hRun
  cases hResult : m ⟨s, fuse⟩ with
  | ok a f =>
      rw [hResult] at hRun
      exact hRun
  | error e f =>
      rw [hResult] at hRun
      exact hRun

/-- A relation that holds however a computation ends is kept. -/
theorem keeps_of_meets {R : σ → σ → Prop} (h : ∀ s, Meets (· = s) m (fun _ => R s) (R s)) :
    Keeps R m := by
  intro s fuse
  have hRun := h s s fuse rfl
  unfold stateAfter
  cases hResult : m ⟨s, fuse⟩ with
  | ok a f =>
      rw [hResult] at hRun
      exact hRun
  | error e f =>
      rw [hResult] at hRun
      exact hRun

/-- A computation on a part of the state: what it makes of the part, the whole is put
together from. -/
theorem Meets.within {get : σ → τ} {put : τ → σ → σ} {m : Throwing ε τ α}
    {R : σ → α → τ → Prop} {S : σ → τ → Prop}
    (h : ∀ s, P s → Meets (· = get s) m (R s) (S s))
    (hPost : ∀ s a t, P s → R s a t → Q a (put t s))
    (hThrow : ∀ s t, P s → S s t → E (put t s)) : Meets P (within get put m) Q E := by
  intro s fuse hs
  have hInner := h s hs (get s) fuse rfl
  unfold General.within
  simp only
  cases hRun : m ⟨get s, fuse⟩ with
  | ok a f =>
      rw [hRun] at hInner
      exact hPost s a f.state hs hInner
  | error e f =>
      rw [hRun] at hInner
      exact hThrow s f.state hs hInner

end Rules

section Loops

variable {R S : τ → τ → Prop} {m : Throwing ε τ Unit}

/-- **Loop**: if the body returns every time then each element is related to what it
was; if the loop is cut short then each element has been dealt with, has been cut
short, or has not been reached. -/
theorem meets_onEach (h : ∀ x, Meets (· = x) m (fun _ y => R x y) (fun y => S x y))
    (hDone : ∀ x y, R x y → S x y) (hSame : ∀ x, S x x) (xs : List τ) :
    Meets (· = xs) (onEach m) (fun _ ys => List.Forall₂ R xs ys)
      (fun ys => List.Forall₂ S xs ys) := by
  intro s fuse hs
  rw [hs]
  show EndsIn _ _ (onEach.go m xs fuse)
  clear hs
  induction xs generalizing fuse with
  | nil => exact List.Forall₂.nil
  | cons x xs ih =>
      have hHead := h x x fuse rfl
      simp only [onEach.go]
      cases hRun : m ⟨x, fuse⟩ with
      | error e f =>
          rw [hRun] at hHead
          exact List.Forall₂.cons hHead (List.forall₂_same.mpr fun y _ => hSame y)
      | ok a f =>
          rw [hRun] at hHead
          have hTail := ih f.fuse
          simp only
          cases hRest : onEach.go m xs f.fuse with
          | ok b g =>
              rw [hRest] at hTail
              exact List.Forall₂.cons hHead hTail
          | error e g =>
              rw [hRest] at hTail
              exact List.Forall₂.cons (hDone _ _ hHead) hTail

/-- Lists that are related element by element are related at every position. -/
theorem getElem?_of_forall₂ {xs ys : List τ} (h : List.Forall₂ R xs ys) {k : Nat} {y : τ}
    (hGet : ys[k]? = some y) : ∃ x, xs[k]? = some x ∧ R x y := by
  induction h generalizing k with
  | nil => exact nomatch hGet
  | cons hHead _ ih =>
      cases k with
      | zero =>
          obtain rfl := Option.some.inj hGet
          exact ⟨_, rfl, hHead⟩
      | succ k => exact ih hGet

/-- What related elements have in common, the lists have in common. -/
theorem map_eq_of_forall₂ {xs ys : List τ} {g : τ → β} (h : List.Forall₂ R xs ys)
    (hSame : ∀ x y, R x y → g y = g x) : ys.map g = xs.map g := by
  induction h with
  | nil => rfl
  | cons hHead _ ih => rw [List.map_cons, List.map_cons, hSame _ _ hHead, ih]

/-- One element is dealt with, the others stay as they are. -/
theorem meets_onNth (h : ∀ x, Meets (· = x) m (fun _ y => R x y) (fun y => S x y))
    (hSame : ∀ x, R x x) (hSame' : ∀ x, S x x) (k : Nat) (xs : List τ) :
    Meets (· = xs) (onNth k m) (fun _ ys => List.Forall₂ R xs ys)
      (fun ys => List.Forall₂ S xs ys) := by
  intro s fuse hs
  rw [hs]
  have hSet {Q : τ → τ → Prop} (hRefl : ∀ x, Q x x) {x y : τ} (hNth : xs[k]? = some x)
      (hOne : Q x y) : List.Forall₂ Q xs (xs.set k y) := by
    rw [List.forall₂_iff_get]
    refine ⟨(List.length_set ..).symm, fun i hi hi' => ?_⟩
    rw [List.get_eq_getElem, List.get_eq_getElem, List.getElem_set]
    split
    · next hEq =>
        subst hEq
        rw [(List.getElem?_eq_some_iff.mp hNth).2]
        exact hOne
    · exact hRefl _
  unfold onNth
  cases hNth : xs[k]? with
  | none => exact List.forall₂_same.mpr fun x _ => hSame x
  | some x =>
      have hOne := h x x fuse rfl
      simp only
      cases hRun : m ⟨x, fuse⟩ with
      | ok a f =>
          rw [hRun] at hOne
          exact hSet hSame hNth hOne
      | error e f =>
          rw [hRun] at hOne
          exact hSet hSame' hNth hOne

end Loops

end RoqWhitebit.General
