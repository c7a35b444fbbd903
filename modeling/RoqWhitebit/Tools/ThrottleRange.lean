import RoqWhitebit.Tools.Quota

/-!
# When the throttle is exact

The one count that can leave 64 bits is that of a reset timestamp in nanoseconds:
everything else stays in range for clocks below `2 ^ 62`.  So a step of the machine is
exact just when it does not take up a reset timestamp that is too far away.
-/

namespace RoqWhitebit.Tools

open RoqWhitebit.General

/-! ## Exact steps -/

/-- No exact count leaves the range, and the machine computes the very same: the same
branches, the same counts and the same state. -/
def Exact (u : Utils) (t : Throttle) (e : Event) : Prop :=
  (∀ n ∈ (t.stepIn id u e).2, InRange n) ∧
    t.stepIn wrap u e = t.stepIn id u e ∧ t.step64 u e = t.step u e

/-! ## When the counts stay in range -/

/-- A reset timestamp, in milliseconds, that is a 64-bit count of nanoseconds. -/
def Convertible (resetTimestamp : Int) : Prop :=
  -9223372036854 ≤ resetTimestamp ∧ resetTimestamp ≤ 9223372036854

instance (resetTimestamp : Int) : Decidable (Convertible resetTimestamp) := by
  unfold Convertible
  infer_instance

theorem inRange_milliseconds_iff (resetTimestamp : Int) :
    InRange (milliseconds resetTimestamp) ↔ Convertible resetTimestamp := by
  unfold InRange Convertible milliseconds
  omega

/-- The reset timestamp that an event takes up, if any, is convertible: a header with a
new value that leaves the quota exhausted takes it up. -/
def TakesConvertible (u : Utils) (t : Throttle) : Event → Prop
  | .messageHeader name value _ _ =>
      match Quota.reading u name value with
      | .status v =>
          t.params.limitStatus ≠ v → Quota.Exhausted v t.params.limitResetTimestamp →
            Convertible t.params.limitResetTimestamp
      | .reset v =>
          t.params.limitResetTimestamp ≠ v → Quota.Exhausted t.params.limitStatus v →
            Convertible v
      | .nothing => True
  | .messageBegin _ => True
  | .messageEnd _ _ => True

instance (u : Utils) (t : Throttle) : (e : Event) → Decidable (TakesConvertible u t e)
  | .messageHeader name value _ _ =>
      match hReading : Quota.reading u name value with
      | .status v =>
          decidable_of_iff (t.params.limitStatus ≠ v →
              Quota.Exhausted v t.params.limitResetTimestamp →
                Convertible t.params.limitResetTimestamp)
            (by simp only [TakesConvertible, hReading])
      | .reset v =>
          decidable_of_iff (t.params.limitResetTimestamp ≠ v →
              Quota.Exhausted t.params.limitStatus v → Convertible v)
            (by simp only [TakesConvertible, hReading])
      | .nothing => .isTrue (by simp only [TakesConvertible, hReading])
  | .messageBegin _ => instDecidableTrue
  | .messageEnd _ _ => instDecidableTrue

/-! ## The lambda -/

/-- With its counts in range, the lambda does on the machine what it does exactly. -/
theorem updateSuspendUntilIn_wrap {now nowUtc : Int} {t : Throttle}
    (h : ∀ n ∈ (t.updateSuspendUntilIn id now nowUtc).2, InRange n) :
    t.updateSuspendUntilIn wrap now nowUtc = t.updateSuspendUntilIn id now nowUtc := by
  unfold Throttle.updateSuspendUntilIn at *
  simp only [id_eq] at *
  split_ifs at h with hEnabled hCleared hLater
  · rw [if_pos hEnabled, if_pos hEnabled]
  · rw [if_neg hEnabled, if_neg hEnabled, if_pos hCleared, if_pos hCleared]
  · simp only [List.forall_mem_cons] at h
    obtain ⟨hTimestamp, hPeriod, hUntil, -⟩ := h
    simp only [if_neg hEnabled, if_neg hCleared, wrap_of_inRange hTimestamp, if_pos hLater,
      wrap_of_inRange hPeriod, wrap_of_inRange hUntil]
  · simp only [List.forall_mem_cons] at h
    obtain ⟨hTimestamp, hUntil, -⟩ := h
    simp only [if_neg hEnabled, if_neg hCleared, wrap_of_inRange hTimestamp, if_neg hLater,
      wrap_of_inRange hUntil]

/-- The counts of the lambda stay in range just when it does not take up a reset
timestamp that is too far away. -/
theorem updateSuspendUntilIn_inRange_iff {now nowUtc : Int} {t : Throttle}
    (hNow : 0 ≤ now) (hLe : now ≤ nowUtc) (hUtc : nowUtc < 2 ^ 62)
    (hEnabled : t.enabled = true) :
    (∀ n ∈ (t.updateSuspendUntilIn id now nowUtc).2, InRange n) ↔
      (Quota.Exhausted t.params.limitStatus t.params.limitResetTimestamp →
        Convertible t.params.limitResetTimestamp) := by
  rw [← inRange_milliseconds_iff]
  unfold Throttle.updateSuspendUntilIn Quota.Exhausted
  simp only [id_eq, hEnabled, Bool.not_true, Bool.false_eq_true, if_false]
  split_ifs with hCleared hLater
  · simp only [List.not_mem_nil, false_implies, implies_true, true_iff]
    omega
  · have hExhausted : t.params.limitStatus ≤ 0 ∧ t.params.limitResetTimestamp ≠ 0 := by
      omega
    simp only [List.forall_mem_cons, List.not_mem_nil, false_implies, implies_true, and_true,
      hExhausted, ne_eq, not_false_eq_true, true_implies]
    unfold InRange
    omega
  · have hExhausted : t.params.limitStatus ≤ 0 ∧ t.params.limitResetTimestamp ≠ 0 := by
      omega
    have hBackoff : defaultBackoff = 5000000000 := by decide
    simp only [List.forall_mem_cons, List.not_mem_nil, false_implies, implies_true, and_true,
      hExhausted, ne_eq, not_false_eq_true, true_implies, hBackoff]
    unfold InRange
    omega

/-! ## One event -/

/-- How an event is handled, whatever the rounding: nothing is computed; or a header is
stored and the lambda called; or the end of a response sets a back-off. -/
inductive Handled (u : Utils) (t : Throttle) (e : Event) : Prop
  | stored (t' : Throttle) :
      t'.enabled = t.enabled → TakesConvertible u t e → t.step u e = t' →
      (∀ round, t.stepIn round u e = (t', [])) → Handled u t e
  | recomputed (t' : Throttle) (now nowUtc : Int) :
      t'.enabled = t.enabled →
      (ClocksInRange e → 0 ≤ now ∧ now ≤ nowUtc ∧ nowUtc < 2 ^ 62) →
      (TakesConvertible u t e ↔
        (Quota.Exhausted t'.params.limitStatus t'.params.limitResetTimestamp →
          Convertible t'.params.limitResetTimestamp)) →
      t.step u e = t'.updateSuspendUntil now nowUtc →
      (∀ round, t.stepIn round u e = t'.updateSuspendUntilIn round now nowUtc) → Handled u t e
  | backedOff (suspend : Int → Throttle) (deadline : Int) :
      (∀ n, (suspend n).enabled = t.enabled) → TakesConvertible u t e →
      (ClocksInRange e → InRange deadline) → t.step u e = suspend deadline →
      (∀ round, t.stepIn round u e = (suspend (round deadline), [round deadline])) →
      Handled u t e

section Cases

attribute [local simp] TakesConvertible Quota.reading Utils.update_eq Throttle.step Throttle.stepIn
  Throttle.messageHeader Throttle.messageHeaderIn Throttle.messageEnd Throttle.messageEndIn

theorem handled_messageHeader (u : Utils) (name value : String) (now nowUtc : Int)
    (t : Throttle) : Handled u t (.messageHeader name value now nowUtc) := by
  cases hHeader : parseHeader u name with
  | unknown => refine .stored t rfl ?_ ?_ fun round => ?_ <;> simp [hHeader]
  | xBapiLimit =>
      cases hValue : u.fromCharsInt32 value with
      | none => refine .stored t rfl ?_ ?_ fun round => ?_ <;> simp [hHeader, hValue]
      | some v =>
          refine .stored { t with params := { t.params with limit := v } } rfl ?_ ?_
            fun round => ?_ <;> simp [hHeader, hValue]
  | xBapiLimitStatus =>
      cases hValue : u.fromCharsInt32 value with
      | none => refine .stored t rfl ?_ ?_ fun round => ?_ <;> simp [hHeader, hValue]
      | some v =>
          by_cases hSame : t.params.limitStatus = v
          · refine .stored t rfl ?_ ?_ fun round => ?_ <;> simp [hHeader, hValue, ← hSame]
          · refine .recomputed { t with params := { t.params with limitStatus := v } } now
              nowUtc rfl id ?_ ?_ fun round => ?_ <;> simp [hHeader, hValue, hSame]
  | xBapiLimitResetTimestamp =>
      cases hValue : u.fromCharsInt64 value with
      | none => refine .stored t rfl ?_ ?_ fun round => ?_ <;> simp [hHeader, hValue]
      | some v =>
          by_cases hSame : t.params.limitResetTimestamp = v
          · refine .stored t rfl ?_ ?_ fun round => ?_ <;> simp [hHeader, hValue, ← hSame]
          · refine .recomputed { t with params := { t.params with limitResetTimestamp := v } }
              now nowUtc rfl id ?_ ?_ fun round => ?_ <;> simp [hHeader, hValue, hSame]

theorem handled_messageEnd (u : Utils) (status : Status) (now : Int) (t : Throttle) :
    Handled u t (.messageEnd status now) := by
  have hBlocked : ClocksInRange (.messageEnd status now) → InRange (now + blockedBackoff) := by
    unfold ClocksInRange InRange blockedBackoff seconds
    omega
  have hBackoff : ClocksInRange (.messageEnd status now) → InRange (now + defaultBackoff) := by
    unfold ClocksInRange InRange defaultBackoff seconds
    omega
  by_cases hEnabled : t.enabled = true
  · cases status with
    | forbidden =>
        refine .backedOff (fun n => { t with suspendUntil := max t.suspendUntil n }) _
          (fun _ => rfl) trivial hBlocked ?_ fun round => ?_ <;> simp [hEnabled]
    | tooManyRequests =>
        by_cases hZero : t.suspendUntil = 0
        · refine .backedOff (fun n => { t with suspendUntil := n }) _ (fun _ => rfl) trivial
            hBackoff ?_ fun round => ?_ <;> simp [hEnabled, hZero]
        · refine .stored t rfl trivial ?_ fun round => ?_ <;> simp [hEnabled, hZero]
    | other code => refine .stored t rfl trivial ?_ fun round => ?_ <;> simp [hEnabled]
  · refine .stored t rfl trivial ?_ fun round => ?_ <;> simp [hEnabled]

end Cases

theorem handled (u : Utils) (t : Throttle) (e : Event) : Handled u t e := by
  cases e with
  | messageBegin now => exact .stored t rfl trivial rfl fun _ => rfl
  | messageHeader name value now nowUtc => exact handled_messageHeader u name value now nowUtc t
  | messageEnd status now => exact handled_messageEnd u status now t

/-- With its counts in range, the machine handles an event exactly. -/
theorem stepIn_wrap {u : Utils} {t : Throttle} {e : Event}
    (h : ∀ n ∈ (t.stepIn id u e).2, InRange n) : t.stepIn wrap u e = t.stepIn id u e := by
  cases handled u t e with
  | stored t' _ _ _ hRound => rw [hRound, hRound]
  | recomputed t' now nowUtc _ _ _ _ hRound =>
      rw [hRound] at h
      rw [hRound, hRound]
      exact updateSuspendUntilIn_wrap h
  | backedOff suspend deadline _ _ _ _ hRound =>
      rw [hRound] at h
      have hDeadline : InRange deadline := h deadline List.mem_cons_self
      rw [hRound, hRound, wrap_of_inRange hDeadline]
      rfl

/-- The counts of an event stay in range just when it takes up a convertible timestamp. -/
theorem stepIn_inRange_iff {u : Utils} {t : Throttle} {e : Event} (hEnabled : t.enabled = true)
    (hClocks : ClocksInRange e) :
    (∀ n ∈ (t.stepIn id u e).2, InRange n) ↔ TakesConvertible u t e := by
  cases handled u t e with
  | stored t' _ hTakes _ hRound =>
      rw [hRound]
      exact iff_of_true (fun _ hn => nomatch hn) hTakes
  | recomputed t' now nowUtc hSame hTimes hTakes _ hRound =>
      obtain ⟨hNow, hLe, hUtc⟩ := hTimes hClocks
      rw [hRound, hTakes]
      exact updateSuspendUntilIn_inRange_iff hNow hLe hUtc (hSame.trans hEnabled)
  | backedOff suspend deadline _ hTakes hRange _ hRound =>
      rw [hRound]
      refine iff_of_true (fun n hn => ?_) hTakes
      rw [List.mem_singleton.mp hn]
      exact hRange hClocks

/-- **One step** is exact just when it takes up a convertible timestamp. -/
theorem exact_iff {u : Utils} {t : Throttle} {e : Event} (hEnabled : t.enabled = true)
    (hClocks : ClocksInRange e) : Exact u t e ↔ TakesConvertible u t e := by
  rw [← stepIn_inRange_iff hEnabled hClocks]
  constructor
  · intro hExact
    exact hExact.1
  · intro hRange
    have hWrap := stepIn_wrap hRange
    refine ⟨hRange, hWrap, ?_⟩
    rw [Throttle.step64, hWrap]
    exact stepIn_id u t e

/-! ## Runs -/

/--
**The throttle is exact just when it takes up no reset timestamp that is too far away**:
for every run of the machine from the start, and then the run is that of the exact
handlers.
-/
theorem exact_along_iff (u : Utils) (es : List Event) (hClocks : ∀ e ∈ es, ClocksInRange e) :
    (Along (Throttle.step64 u) (Exact u) (.create true) es ↔
      Along (Throttle.step64 u) (TakesConvertible u) (.create true) es) ∧
    (Along (Throttle.step64 u) (TakesConvertible u) (.create true) es →
      run (Throttle.step64 u) (.create true) es = run (Throttle.step u) (.create true) es) := by
  have hIff : Along (Throttle.step64 u) (Exact u) (.create true) es ↔
      Along (Throttle.step64 u) (TakesConvertible u) (.create true) es := by
    refine along_congr (Throttle.step64 u) (I := fun t => t.enabled = true) rfl ?_ ?_ hClocks
    · intro t e hEnabled
      rw [step64_enabled]
      exact hEnabled
    · intro t e hEnabled hEvent
      exact exact_iff hEnabled hEvent
  refine ⟨hIff, fun hTakes => run_eq_of_along _ ?_⟩
  exact (hIff.mpr hTakes).mono _ fun t e hExact => hExact.2.2

/-- An exhausted quota whose reset timestamp is just out of range. -/
def farReset : List Event :=
  [.messageHeader "X-Bapi-Limit-Reset-Timestamp" "9223372036855" (seconds 1) (seconds 1000)]

/-- On the machine the throttle holds requests back for five seconds, instead of almost
three hundred years. -/
theorem farReset_wraps :
    (¬∀ (u : Utils) (es : List Event), (∀ e ∈ es, ClocksInRange e) →
      Along (Throttle.step64 u) (Exact u) (.create true) es) ∧
    (run (Throttle.step64 .standard) (.create true) farReset).suspendUntil = seconds 6 ∧
    (run (Throttle.step .standard) (.create true) farReset).suspendUntil =
      milliseconds 9223372036855 - seconds 999 := by
  have hClocks : ∀ e ∈ farReset, ClocksInRange e := by
    simp [farReset, ClocksInRange, seconds]
  refine ⟨fun h => ?_, by decide, by decide⟩
  have hExact := (h .standard farReset hClocks).1
  have hRange : InRange (milliseconds 9223372036855) := hExact.1 _ (by decide)
  exact absurd hRange (by decide)

/-- An exhausted quota that is refilled two minutes from now. -/
def nearReset : List Event :=
  [.messageHeader "X-Bapi-Limit-Status" "0" (seconds 1) (seconds 1700000000),
    .messageHeader "X-Bapi-Limit-Reset-Timestamp" "1700000120000" (seconds 1)
      (seconds 1700000000)]

theorem exact_along_iff_nearReset :
    (∀ e ∈ nearReset, ClocksInRange e) ∧
    (Along (Throttle.step64 .standard) (Exact .standard) (.create true) nearReset ↔
      Along (Throttle.step64 .standard) (TakesConvertible .standard) (.create true)
        nearReset) ∧
    (Along (Throttle.step64 .standard) (TakesConvertible .standard) (.create true)
        nearReset →
      run (Throttle.step64 .standard) (.create true) nearReset =
        run (Throttle.step .standard) (.create true) nearReset) := by
  have hClocks : ∀ e ∈ nearReset, ClocksInRange e := by
    simp [nearReset, ClocksInRange, seconds]
  exact ⟨hClocks, exact_along_iff .standard nearReset hClocks⟩

end RoqWhitebit.Tools
