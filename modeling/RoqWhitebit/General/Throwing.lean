import Mathlib.Data.List.Forall2

/-!
# Code that may be cut short by an exception

A C++ function that calls out — into a library, a dispatcher, a socket — may be
left at any of these calls by an exception.  What it has written by then stays
written.  This file is a small calculus for such code.

A computation runs on a state together with a *fuse*: the number of calls out
that still succeed, and the exception the next one throws.  No fuse means that
nothing throws.  Since an exception ends the computation, one fuse covers every
way in which it can be cut short.

* `Calls m s n a s' bad` — from `s`, the computation `m` makes `n` calls out and
  then returns `a` in state `s'`; cut short at call `k` it leaves a state that
  satisfies `bad k`.
* `Keeps R m` — whether it returns or throws, `m` relates the state before to
  the state after by `R`.
-/

namespace RoqWhitebit.General

variable {ε σ τ α β : Type}

/-- A state, and the number of calls that succeed before one throws. -/
structure Fused (ε σ : Type) where
  state : σ
  fuse : Option (Nat × ε)

/-- Computations on `σ` that may throw `ε`; an exception keeps the state. -/
abbrev Throwing (ε σ α : Type) := EStateM ε (Fused ε σ) α

/-- The state a computation has ended in, one way or the other. -/
def finalState : EStateM.Result ε (Fused ε σ) α → σ
  | .ok _ f => f.state
  | .error _ f => f.state

/-- The state after a computation, however it ended. -/
def stateAfter (m : Throwing ε σ α) (s : σ) (fuse : Option (Nat × ε)) : σ :=
  finalState (m ⟨s, fuse⟩)

/-- A computation with its fuse given, for the code that catches what it throws. -/
def withFuse (fuse : Option (Nat × ε)) (m : Throwing ε σ α) : EStateM ε σ α := fun s =>
  match m ⟨s, fuse⟩ with
  | .ok a f => .ok a f.state
  | .error e f => .error e f.state

/-! ## Building blocks -/

/-- A call out: it throws if the fuse has burnt down. -/
def call : Throwing ε σ Unit := fun f =>
  match f.fuse with
  | none => .ok () f
  | some (0, e) => .error e { f with fuse := none }
  | some (n + 1, e) => .ok () { f with fuse := some (n, e) }

/-- The state. -/
def read : Throwing ε σ σ := fun f => .ok f.state f

/-- Write to the state; this cannot throw. -/
def write (g : σ → σ) : Throwing ε σ Unit := fun f =>
  .ok () { f with state := g f.state }

/-- Run a computation on a part of the state. -/
def within (get : σ → τ) (put : τ → σ → σ) (m : Throwing ε τ α) : Throwing ε σ α :=
  fun f =>
    match m ⟨get f.state, f.fuse⟩ with
    | .ok a g => .ok a ⟨put g.state f.state, g.fuse⟩
    | .error e g => .error e ⟨put g.state f.state, g.fuse⟩

/-- Run a computation on every element of a list, in order. -/
def onEach (m : Throwing ε τ Unit) : Throwing ε (List τ) Unit := fun f =>
  go f.state f.fuse
where
  go : List τ → Option (Nat × ε) → EStateM.Result ε (Fused ε (List τ)) Unit
    | [], fuse => .ok () ⟨[], fuse⟩
    | x :: xs, fuse =>
        match m ⟨x, fuse⟩ with
        | .error e g => .error e ⟨g.state :: xs, g.fuse⟩
        | .ok _ g =>
            match go xs g.fuse with
            | .ok _ h => .ok () ⟨g.state :: h.state, h.fuse⟩
            | .error e h => .error e ⟨g.state :: h.state, h.fuse⟩

/-- Run a computation on the element at a position, if there is one. -/
def onNth (k : Nat) (m : Throwing ε τ Unit) : Throwing ε (List τ) Unit := fun f =>
  match f.state[k]? with
  | none => .ok () f
  | some x =>
      match m ⟨x, f.fuse⟩ with
      | .ok _ g => .ok () ⟨f.state.set k g.state, g.fuse⟩
      | .error e g => .error e ⟨f.state.set k g.state, g.fuse⟩

theorem withFuse_ok {fuse : Option (Nat × ε)} {m : Throwing ε σ α} {s s' : σ} {a : α}
    (h : withFuse fuse m s = .ok a s') : ∃ left, m ⟨s, fuse⟩ = .ok a ⟨s', left⟩ := by
  unfold withFuse at h
  cases hRun : m ⟨s, fuse⟩ with
  | ok b f =>
      rw [hRun] at h
      injection h with hValue hState
      exact ⟨f.fuse, by rw [← hValue, ← hState]⟩
  | error e f =>
      rw [hRun] at h
      exact nomatch h

theorem withFuse_error {fuse : Option (Nat × ε)} {m : Throwing ε σ α} {s s' : σ} {e : ε}
    (h : withFuse fuse m s = .error e s') : ∃ left, m ⟨s, fuse⟩ = .error e ⟨s', left⟩ := by
  unfold withFuse at h
  cases hRun : m ⟨s, fuse⟩ with
  | ok b f =>
      rw [hRun] at h
      exact nomatch h
  | error e' f =>
      rw [hRun] at h
      injection h with hValue hState
      exact ⟨f.fuse, by rw [← hValue, ← hState]⟩

@[simp] theorem pure_apply (a : α) (f : Fused ε σ) :
    (pure a : Throwing ε σ α) f = .ok a f := rfl

/-- What follows a computation that returns. -/
theorem bind_ok {m : EStateM ε σ α} {s t : σ} {a : α} (h : m s = .ok a t)
    (k : α → EStateM ε σ β) : (m >>= k) s = k a t := by
  show EStateM.bind m k s = _
  unfold EStateM.bind
  rw [h]

/-- Nothing follows a computation that throws. -/
theorem bind_error {m : EStateM ε σ α} {s t : σ} {e : ε} (h : m s = .error e t)
    (k : α → EStateM ε σ β) : (m >>= k) s = .error e t := by
  show EStateM.bind m k s = _
  unfold EStateM.bind
  rw [h]

theorem bind_apply (m : Throwing ε σ α) (k : α → Throwing ε σ β) (f : Fused ε σ) :
    (m >>= k) f =
      match m f with
      | .ok a g => k a g
      | .error e g => .error e g := by
  cases hRun : m f with
  | ok a g => exact bind_ok hRun k
  | error e g => exact bind_error hRun k

/-! ## Counting the calls -/

/-- The fuse after `n` successful calls. -/
def burn (n : Nat) : Option (Nat × ε) → Option (Nat × ε)
  | none => none
  | some (k, e) => some (k - n, e)

/-- The fuse lasts for `n` calls. -/
def Lasts (n : Nat) : Option (Nat × ε) → Prop
  | none => True
  | some (k, _) => n ≤ k

@[simp] theorem burn_zero (fuse : Option (Nat × ε)) : burn 0 fuse = fuse := by
  cases fuse with
  | none => rfl
  | some f => rfl

theorem burn_burn (n k : Nat) (fuse : Option (Nat × ε)) :
    burn k (burn n fuse) = burn (n + k) fuse := by
  cases fuse with
  | none => rfl
  | some f => simp [burn, Nat.sub_sub]

theorem Lasts.le {n k : Nat} {fuse : Option (Nat × ε)} (h : Lasts n fuse) (hk : k ≤ n) :
    Lasts k fuse := by
  cases fuse with
  | none => trivial
  | some f => exact Nat.le_trans hk h

/-- What is left of a fuse that lasts for both parts lasts for the second. -/
theorem Lasts.burn {n k : Nat} {fuse : Option (Nat × ε)} (h : Lasts (n + k) fuse) :
    Lasts k (burn n fuse) := by
  cases fuse with
  | none => trivial
  | some f =>
      have hBoth : n + k ≤ f.1 := h
      show k ≤ f.1 - n
      omega

theorem lasts_or_throws (n : Nat) (fuse : Option (Nat × ε)) :
    Lasts n fuse ∨ ∃ k e, fuse = some (k, e) ∧ k < n := by
  match fuse with
  | none => exact .inl trivial
  | some (k, e) =>
      rcases Nat.lt_or_ge k n with hBefore | hAfter
      · exact .inr ⟨k, e, rfl, hBefore⟩
      · exact .inl hAfter

/-- From `s`, `m` makes `n` calls and returns `a` in `s'`; cut short at call `k`
it leaves a state with `bad k`. -/
structure Calls (m : Throwing ε σ α) (s : σ) (n : Nat) (a : α) (s' : σ)
    (bad : Nat → σ → Prop) : Prop where
  returns : ∀ fuse, Lasts n fuse → m ⟨s, fuse⟩ = .ok a ⟨s', burn n fuse⟩
  throws : ∀ k e, k < n → ∃ s'', m ⟨s, some (k, e)⟩ = .error e ⟨s'', none⟩ ∧ bad k s''

section Counting

variable {m : Throwing ε σ α} {s s' : σ} {n : Nat} {a : α} {bad : Nat → σ → Prop}

/-- Nothing throws. -/
theorem Calls.quiet (h : Calls m s n a s' bad) : m ⟨s, none⟩ = .ok a ⟨s', none⟩ :=
  h.returns none trivial

/-- Less may be said of the states left behind. -/
theorem Calls.mono {bad' : Nat → σ → Prop} (h : Calls m s n a s' bad)
    (hBad : ∀ k t, k < n → bad k t → bad' k t) : Calls m s n a s' bad' where
  returns := h.returns
  throws k e hk := by
    obtain ⟨t, hThrow, ht⟩ := h.throws k e hk
    exact ⟨t, hThrow, hBad k t hk ht⟩

theorem calls_pure (a : α) (s : σ) (bad : Nat → σ → Prop) :
    Calls (pure a : Throwing ε σ α) s 0 a s bad where
  returns fuse _ := by rw [burn_zero]; rfl
  throws k e hk := absurd hk (Nat.not_lt_zero k)

theorem calls_write (g : σ → σ) (s : σ) (bad : Nat → σ → Prop) :
    Calls (write g : Throwing ε σ Unit) s 0 () (g s) bad where
  returns fuse _ := by rw [burn_zero]; rfl
  throws k e hk := absurd hk (Nat.not_lt_zero k)

/-- One call out.  Cut short, it leaves the state as it was. -/
theorem calls_call {s : σ} {bad : Nat → σ → Prop} (hBad : bad 0 s) :
    Calls (call : Throwing ε σ Unit) s 1 () s bad where
  returns fuse hLasts := by
    match fuse with
    | none => rfl
    | some (0, e) => exact absurd hLasts (by simp [Lasts])
    | some (k + 1, e) => rfl
  throws k e hk := by
    obtain rfl : k = 0 := by omega
    exact ⟨s, rfl, hBad⟩

/-- **Sequencing**: the calls add up. -/
theorem Calls.bind {k : α → Throwing ε σ β} {n' : Nat} {b : β} {s'' : σ}
    {bad' : Nat → σ → Prop} (h : Calls m s n a s' bad)
    (h' : Calls (k a) s' n' b s'' (fun i => bad' (n + i)))
    (hBad : ∀ i t, i < n → bad i t → bad' i t) :
    Calls (m >>= k) s (n + n') b s'' bad' where
  returns fuse hLasts := by
    rw [bind_apply, h.returns fuse (hLasts.le (Nat.le_add_right n n'))]
    show k a ⟨s', burn n fuse⟩ = _
    rw [h'.returns _ hLasts.burn, burn_burn]
  throws i e hi := by
    rw [bind_apply]
    rcases Nat.lt_or_ge i n with hBefore | hAfter
    · obtain ⟨t, hThrow, ht⟩ := h.throws i e hBefore
      exact ⟨t, by rw [hThrow], hBad i t hBefore ht⟩
    · obtain ⟨t, hThrow, ht⟩ := h'.throws (i - n) e (by omega)
      refine ⟨t, ?_, by rw [Nat.add_sub_cancel' hAfter] at ht; exact ht⟩
      rw [h.returns (some (i, e)) hAfter]
      exact hThrow

/-- A computation after one that makes no call. -/
theorem Calls.after_free {k : α → Throwing ε σ β} {n : Nat} {b : β} {t s' : σ}
    {bad : Nat → σ → Prop} (hFree : ∀ fuse, m ⟨s, fuse⟩ = .ok a ⟨t, fuse⟩)
    (h : Calls (k a) t n b s' bad) : Calls (m >>= k) s n b s' bad where
  returns fuse hLasts := by
    rw [bind_apply, hFree]
    exact h.returns fuse hLasts
  throws i e hi := by
    obtain ⟨t', hThrow, ht'⟩ := h.throws i e hi
    exact ⟨t', by rw [bind_apply, hFree]; exact hThrow, ht'⟩

theorem Calls.after_write {g : σ → σ} {k : Unit → Throwing ε σ β} {n : Nat} {b : β}
    {s s' : σ} {bad : Nat → σ → Prop} (h : Calls (k ()) (g s) n b s' bad) :
    Calls (write g >>= k) s n b s' bad :=
  Calls.after_free (fun _ => rfl) h

theorem Calls.after_read {k : σ → Throwing ε σ β} {n : Nat} {b : β} {s s' : σ}
    {bad : Nat → σ → Prop} (h : Calls (k s) s n b s' bad) :
    Calls (read >>= k) s n b s' bad :=
  Calls.after_free (fun _ => rfl) h

/-- One call before a computation. -/
theorem Calls.after_call {k : Unit → Throwing ε σ β} {n : Nat} {b : β} {s s' : σ}
    {bad : Nat → σ → Prop} (hBad : bad 0 s)
    (h : Calls (k ()) s n b s' (fun i => bad (i + 1))) :
    Calls (call >>= k) s (n + 1) b s' bad := by
  have hCall : Calls (call : Throwing ε σ Unit) s 1 () s (fun i t => i = 0 ∧ t = s) :=
    calls_call ⟨rfl, rfl⟩
  rw [Nat.add_comm]
  apply Calls.bind hCall
  · simpa only [Nat.add_comm 1] using h
  · rintro i t _ ⟨rfl, rfl⟩
    exact hBad

/-- The rest of a computation only sees what is left of the fuse. -/
theorem Calls.bind_of_lasts (h : Calls m s n a s' bad) (k : α → Throwing ε σ β)
    {fuse : Option (Nat × ε)} (hLasts : Lasts n fuse) :
    (m >>= k) ⟨s, fuse⟩ = k a ⟨s', burn n fuse⟩ := by
  rw [bind_apply, h.returns fuse hLasts]

/-- A computation cut short in its first part. -/
theorem Calls.bind_of_lt (h : Calls m s n a s' bad) (k : α → Throwing ε σ β)
    {i : Nat} (e : ε) (hi : i < n) :
    ∃ t, (m >>= k) ⟨s, some (i, e)⟩ = .error e ⟨t, none⟩ ∧ bad i t := by
  obtain ⟨t, hThrow, ht⟩ := h.throws i e hi
  exact ⟨t, by rw [bind_apply, hThrow], ht⟩

end Counting

/-! ## What holds however it ends -/

/-- `m` relates the state before to the state after by `R`, whether it returns
or throws. -/
def Keeps (R : σ → σ → Prop) (m : Throwing ε σ α) : Prop :=
  ∀ s fuse, R s (stateAfter m s fuse)

section Keeping

variable {R : σ → σ → Prop} {m : Throwing ε σ α}

theorem keeps_pure (hRefl : ∀ s, R s s) (a : α) :
    Keeps R (pure a : Throwing ε σ α) :=
  fun s _ => hRefl s

theorem keeps_call (hRefl : ∀ s, R s s) : Keeps R (call : Throwing ε σ Unit) := by
  intro s fuse
  match fuse with
  | none => exact hRefl s
  | some (0, e) => exact hRefl s
  | some (k + 1, e) => exact hRefl s

theorem keeps_write {g : σ → σ} (h : ∀ s, R s (g s)) :
    Keeps R (write g : Throwing ε σ Unit) :=
  fun s _ => h s

theorem keeps_read (hRefl : ∀ s, R s s) : Keeps R (read : Throwing ε σ σ) :=
  fun s _ => hRefl s

theorem Keeps.bind {k : α → Throwing ε σ β} (h : Keeps R m)
    (hk : ∀ a, Keeps R (k a)) (hTrans : ∀ s t u, R s t → R t u → R s u) :
    Keeps R (m >>= k) := by
  intro s fuse
  have hFirst := h s fuse
  unfold stateAfter at hFirst ⊢
  rw [bind_apply]
  cases hRun : m ⟨s, fuse⟩ with
  | error e f =>
      rw [hRun] at hFirst
      exact hFirst
  | ok a f =>
      rw [hRun] at hFirst
      exact hTrans _ _ _ hFirst (hk a f.state f.fuse)

/-- A computation on a part of the state leaves the rest alone. -/
theorem keeps_within {get : σ → τ} {put : τ → σ → σ} {Q : τ → τ → Prop}
    {m : Throwing ε τ α} (h : Keeps Q m)
    (hPut : ∀ s t, Q (get s) t → R s (put t s)) : Keeps R (within get put m) := by
  intro s fuse
  have hInner := h (get s) fuse
  unfold stateAfter within at *
  simp only
  cases hRun : m ⟨get s, fuse⟩ with
  | ok a f =>
      rw [hRun] at hInner
      exact hPut s f.state hInner
  | error e f =>
      rw [hRun] at hInner
      exact hPut s f.state hInner

/-- Element by element: what the computation keeps of one element, the loop
keeps of all, in their places. -/
theorem keeps_onEach {R : τ → τ → Prop} {m : Throwing ε τ Unit} (hRefl : ∀ x, R x x)
    (h : Keeps R m) : Keeps (List.Forall₂ R) (onEach m) := by
  intro xs
  induction xs with
  | nil =>
      intro fuse
      exact List.Forall₂.nil
  | cons x xs ih =>
      intro fuse
      have hHead := h x fuse
      unfold stateAfter at hHead ih ⊢
      simp only [onEach, onEach.go] at ih ⊢
      cases hRun : m ⟨x, fuse⟩ with
      | error e f =>
          rw [hRun] at hHead
          exact List.Forall₂.cons hHead (List.forall₂_same.mpr fun y _ => hRefl y)
      | ok a f =>
          rw [hRun] at hHead
          have hTail := ih f.fuse
          simp only
          cases hRest : onEach.go m xs f.fuse with
          | ok b g =>
              rw [hRest] at hTail
              exact List.Forall₂.cons hHead hTail
          | error e g =>
              rw [hRest] at hTail
              exact List.Forall₂.cons hHead hTail

end Keeping

/-! ## When nothing throws -/

/-- If nothing throws on any element, the loop is a map. -/
theorem onEach_quiet {m : Throwing ε τ Unit} {g : τ → τ}
    (h : ∀ x, m ⟨x, none⟩ = .ok () ⟨g x, none⟩) (xs : List τ) :
    onEach m ⟨xs, none⟩ = .ok () ⟨xs.map g, none⟩ := by
  show onEach.go m xs none = _
  induction xs with
  | nil => rfl
  | cons x xs ih => simp only [onEach.go, h x, ih, List.map_cons]

theorem onNth_quiet {m : Throwing ε τ Unit} {g : τ → τ}
    (h : ∀ x, m ⟨x, none⟩ = .ok () ⟨g x, none⟩) (k : Nat) (xs : List τ) :
    onNth k m ⟨xs, none⟩ = .ok () ⟨xs.modify k g, none⟩ := by
  rw [List.modify_eq_set_getElem?]
  unfold onNth
  cases hNth : xs[k]? with
  | none => rfl
  | some x =>
      simp only [h x]
      rfl

theorem within_quiet {get : σ → τ} {put : τ → σ → σ} {m : Throwing ε τ α} {s : σ}
    {a : α} {t : τ} (h : m ⟨get s, none⟩ = .ok a ⟨t, none⟩) :
    within get put m ⟨s, none⟩ = .ok a ⟨put t s, none⟩ := by
  simp only [within, h]

theorem stateAfter_quiet {m : Throwing ε σ α} {s s' : σ} {a : α}
    (h : m ⟨s, none⟩ = .ok a ⟨s', none⟩) : stateAfter m s none = s' := by
  unfold stateAfter
  rw [h]
  rfl

theorem bind_quiet {m : Throwing ε σ α} {k : α → Throwing ε σ β} {s s' : σ} {a : α}
    (h : m ⟨s, none⟩ = .ok a ⟨s', none⟩) :
    (m >>= k) ⟨s, none⟩ = k a ⟨s', none⟩ := by
  rw [bind_apply, h]

end RoqWhitebit.General
