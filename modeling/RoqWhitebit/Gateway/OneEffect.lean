import RoqWhitebit.Gateway.Download

/-!
# One response, one effect

A response should do exactly one of three things to the download: nothing if it is
stale, handle the message and `check` if it can be processed, and `retry` once
otherwise.  The success handler is the only one to ask whether a response is stale,
and one of the calls of `retry` stands inside the `try` block.
-/

namespace RoqWhitebit.Gateway

variable {γ δ α : Type}

/-- The number of times `retry` was entered. -/
def retries (effects : List (Effect α)) : Nat :=
  effects.countP fun effect =>
    match effect with
    | .retry _ => true
    | _ => false

section Definitions

variable (D : Download2 δ) (decode : String → Except Exception α)
  (handler : α → EStateM Exception γ Unit)

/-- The response is successful and nothing throws: the body decodes to `ack`, its
handler leaves the gateway as `g`, and `check` leaves the download as `d`. -/
structure Processed (response : Response) (w : World γ δ α) (ack : α) (g : γ) (d : δ) :
    Prop where
  decoded : ∃ reply, response.result = .ok reply ∧ reply.category = .success ∧
    decode reply.body = .ok ack
  handled : handler ack w.gateway = .ok () g
  checked : D.check .getMarketInfo w.download = .ok () d

/-- One response has exactly one effect: none if it is stale, the handler and then
`check` if it is processed, and otherwise one `retry`. -/
structure ExactlyOneEffect (response : Response) (sequence : UInt32)
    (w w' : World γ δ α) : Prop where
  stale : D.skip sequence .getMarketInfo w.download = true → w' = w
  processed : D.skip sequence .getMarketInfo w.download = false →
    ∀ ack g d, Processed D decode handler response w ack g d →
      w' = ⟨g, d, w.effects ++ [.marketInfoAck ack, .check]⟩
  failed : D.skip sequence .getMarketInfo w.download = false →
    (∀ ack g d, ¬ Processed D decode handler response w ack g d) →
      ∃ new, w'.effects = w.effects ++ new ∧ retries new = 1

/-- A stale response is a successful one, and where the exchange reports an error
to a current request `retry` does not throw. -/
structure EntersOnce (response : Response) (sequence : UInt32) (w : World γ δ α) :
    Prop where
  stale : D.skip sequence .getMarketInfo w.download = true →
    ∃ reply, response.result = .ok reply ∧ reply.category = .success
  rejected : D.skip sequence .getMarketInfo w.download = false →
    ∀ reply, response.result = .ok reply →
      reply.category = .clientError ∨ reply.category = .serverError →
      ∃ d, D.retry .getMarketInfo w.download = .ok () d

end Definitions

section OneEffect

variable {D : Download2 δ} {decode : String → Except Exception α}
  {handler : α → EStateM Exception γ Unit} {response : Response} {sequence : UInt32}
  {w w' : World γ δ α}

/-! ## What a response is processed as -/

theorem Processed.entered {ack : α} {g : γ} {d : δ}
    (h : Processed D decode handler response w ack g d)
    (hCurrent : D.skip sequence .getMarketInfo w.download = false) :
    Entered D decode response sequence w ack :=
  ⟨hCurrent, h.decoded⟩

/-- A response whose handler throws is not processed. -/
theorem not_processed_of_threw {ack : α} {e : Exception} {g : γ}
    (hEntered : Entered D decode response sequence w ack)
    (hThrew : handler ack w.gateway = .error e g) (ack' : α) (g' : γ) (d : δ) :
    ¬ Processed D decode handler response w ack' g' d := by
  intro h
  have hHandled := h.handled
  rw [(h.entered hEntered.current).unique hEntered, hThrew] at hHandled
  exact nomatch hHandled

/-- Nor is one whose `check` throws. -/
theorem not_processed_of_unchecked {e : Exception} {d : δ}
    (hThrew : D.check .getMarketInfo w.download = .error e d) (ack : α) (g : γ) (d' : δ) :
    ¬ Processed D decode handler response w ack g d' := by
  intro h
  have hChecked := h.checked
  rw [hThrew] at hChecked
  exact nomatch hChecked

theorem not_processed_of_category
    (hNone : ∀ reply, response.result = .ok reply → reply.category ≠ .success)
    (ack : α) (g : γ) (d : δ) : ¬ Processed D decode handler response w ack g d := by
  intro h
  obtain ⟨reply, hResult, hSuccess, _⟩ := h.decoded
  exact hNone reply hResult hSuccess

/-- A response that reports an error is not processed. -/
theorem not_processed_of_rejected {reply : Reply} (hResult : response.result = .ok reply)
    (hRejected : reply.category = .clientError ∨ reply.category = .serverError)
    (ack : α) (g : γ) (d : δ) : ¬ Processed D decode handler response w ack g d := by
  apply not_processed_of_category
  intro reply' hResult'
  obtain rfl := response.reply_unique hResult hResult'
  rcases hRejected with h | h <;> rw [h] <;> decide

/-! ## When the effect is the right one -/

/-- A response that is not processed and enters `retry` once has one effect if it is
current. -/
theorem exactlyOneEffect_of_retry {new : List (Effect α)}
    (hEffects : w'.effects = w.effects ++ new) (hOne : retries new = 1)
    (hFailed : ∀ ack g d, ¬ Processed D decode handler response w ack g d) :
    ExactlyOneEffect D decode handler response sequence w w' ↔
      D.skip sequence .getMarketInfo w.download = false := by
  have hChanged : w' ≠ w := by
    rintro rfl
    rw [List.self_eq_append_right.mp hEffects] at hOne
    exact nomatch hOne
  constructor
  · intro h
    cases hSkip : D.skip sequence .getMarketInfo w.download with
    | true => exact absurd (h.stale hSkip) hChanged
    | false => rfl
  · intro hCurrent
    refine ⟨fun hStale => ?_, fun _ ack g d hProcessed => ?_, fun _ _ => ?_⟩
    · rw [hCurrent] at hStale
      exact nomatch hStale
    · exact absurd hProcessed (hFailed ack g d)
    · exact ⟨new, hEffects, hOne⟩

/-- A response that enters `retry` twice never has one effect. -/
theorem not_exactlyOneEffect_of_retries {report report' : Report}
    (hEffects : w'.effects = w.effects ++ [.retry report, .retry report'])
    (hFailed : ∀ ack g d, ¬ Processed D decode handler response w ack g d) :
    ¬ ExactlyOneEffect D decode handler response sequence w w' := by
  intro h
  cases hSkip : D.skip sequence .getMarketInfo w.download with
  | true =>
      have hLength := congrArg (fun w' => w'.effects.length) (h.stale hSkip)
      simp only [hEffects, List.length_append, List.length_cons, List.length_nil] at hLength
      omega
  | false =>
      obtain ⟨new, hNew, hOne⟩ := h.failed hSkip hFailed
      rw [hEffects] at hNew
      rw [← List.append_cancel_left hNew] at hOne
      exact absurd hOne (show (2 : Nat) ≠ 1 by decide)

theorem entersOnce_of_success {reply : Reply} (hResult : response.result = .ok reply)
    (hSuccess : reply.category = .success) : EntersOnce D response sequence w := by
  refine ⟨fun _ => ⟨reply, hResult, hSuccess⟩, fun _ reply' hResult' hRejected => ?_⟩
  obtain rfl := response.reply_unique hResult hResult'
  rw [hSuccess] at hRejected
  exact absurd hRejected (by decide)

theorem entersOnce_iff_of_failed
    (hNone : ∀ reply, response.result = .ok reply → reply.category ≠ .success ∧
      reply.category ≠ .clientError ∧ reply.category ≠ .serverError) :
    EntersOnce D response sequence w ↔
      D.skip sequence .getMarketInfo w.download = false := by
  constructor
  · intro h
    cases hSkip : D.skip sequence .getMarketInfo w.download with
    | false => rfl
    | true =>
        obtain ⟨reply, hResult, hSuccess⟩ := h.stale hSkip
        exact absurd hSuccess (hNone reply hResult).1
  · intro hCurrent
    refine ⟨fun hStale => ?_, fun _ reply hResult hRejected => ?_⟩
    · rw [hCurrent] at hStale
      exact nomatch hStale
    · exact absurd hRejected (not_or.mpr (hNone reply hResult).2)

theorem entersOnce_iff_of_rejected {reply : Reply} (hResult : response.result = .ok reply)
    (hRejected : reply.category = .clientError ∨ reply.category = .serverError) :
    EntersOnce D response sequence w ↔
      D.skip sequence .getMarketInfo w.download = false ∧
        ∃ d, D.retry .getMarketInfo w.download = .ok () d := by
  constructor
  · intro h
    cases hSkip : D.skip sequence .getMarketInfo w.download with
    | false => exact ⟨rfl, h.rejected hSkip reply hResult hRejected⟩
    | true =>
        obtain ⟨reply', hResult', hSuccess⟩ := h.stale hSkip
        obtain rfl := response.reply_unique hResult hResult'
        rw [hSuccess] at hRejected
        exact absurd hRejected (by decide)
  · rintro ⟨hCurrent, hRetry⟩
    refine ⟨fun hStale => ?_, fun _ _ _ _ => hRetry⟩
    rw [hCurrent] at hStale
    exact nomatch hStale

/-- One case for each way in which a response can end. -/
theorem exactlyOneEffect_iff_of_end
    (hRedirect : ∀ reply, response.result = .ok reply → reply.category ≠ .redirection)
    (hEnd : ResponseEnd D decode handler response sequence w w') :
    ExactlyOneEffect D decode handler response sequence w w' ↔
      EntersOnce D response sequence w := by
  cases hEnd with
  | failed hNone _ hEffects =>
      rw [entersOnce_iff_of_failed hNone]
      exact exactlyOneEffect_of_retry hEffects rfl
        (not_processed_of_category fun reply h => (hNone reply h).1)
  | rejected hResult hRejected hRetry _ hEffects =>
      rw [entersOnce_iff_of_rejected hResult hRejected,
        exactlyOneEffect_of_retry hEffects rfl
          (not_processed_of_rejected hResult hRejected)]
      exact ⟨fun hCurrent => ⟨hCurrent, _, hRetry⟩, And.left⟩
  | rejectedTwice hResult hRejected hRetry _ hEffects =>
      rw [entersOnce_iff_of_rejected hResult hRejected, hRetry]
      apply iff_of_false
      · exact not_exactlyOneEffect_of_retries hEffects
          (not_processed_of_rejected hResult hRejected)
      · rintro ⟨_, d, h⟩
        exact nomatch h
  | redirected hResult hFatal => exact absurd hFatal (hRedirect _ hResult)
  | stale hResult hSuccess hSkip =>
      apply iff_of_true _ (entersOnce_of_success hResult hSuccess)
      refine ⟨fun _ => rfl, fun hCurrent => ?_, fun hCurrent => ?_⟩
      · rw [hSkip] at hCurrent
        exact nomatch hCurrent
      · rw [hSkip] at hCurrent
        exact nomatch hCurrent
  | undecoded hCurrent hResult hSuccess hDecode _ hEffects =>
      apply iff_of_true _ (entersOnce_of_success hResult hSuccess)
      apply (exactlyOneEffect_of_retry hEffects rfl _).mpr hCurrent
      intro ack g d h
      obtain ⟨reply', hResult', _, hDecode'⟩ := h.decoded
      obtain rfl := response.reply_unique hResult hResult'
      rw [hDecode] at hDecode'
      exact nomatch hDecode'
  | threw hEntered hThrew hEffects =>
      obtain ⟨reply, hResult, hSuccess, _⟩ := hEntered.decoded
      apply iff_of_true _ (entersOnce_of_success hResult hSuccess)
      exact (exactlyOneEffect_of_retry hEffects rfl
        (not_processed_of_threw hEntered hThrew)).mpr hEntered.current
  | unchecked hEntered _ hThrew hEffects =>
      obtain ⟨reply, hResult, hSuccess, _⟩ := hEntered.decoded
      apply iff_of_true _ (entersOnce_of_success hResult hSuccess)
      exact (exactlyOneEffect_of_retry hEffects rfl
        (not_processed_of_unchecked hThrew)).mpr hEntered.current
  | processed hEntered hHandled hChecked hEffects =>
      obtain ⟨reply, hResult, hSuccess, hDecode⟩ := hEntered.decoded
      apply iff_of_true _ (entersOnce_of_success hResult hSuccess)
      refine ⟨fun hStale => ?_, fun _ ack g d h => ?_, fun _ hFailed => ?_⟩
      · rw [hEntered.current] at hStale
        exact nomatch hStale
      · have hAck := (h.entered hEntered.current).unique hEntered
        have hSameGateway := h.handled
        have hSameDownload := h.checked
        rw [hAck, hHandled] at hSameGateway
        rw [hChecked] at hSameDownload
        injection hSameGateway with _ hGateway
        injection hSameDownload with _ hDownload
        rw [hAck, ← hGateway, ← hDownload, ← hEffects]
      · exact absurd ⟨⟨reply, hResult, hSuccess, hDecode⟩, hHandled, hChecked⟩
          (hFailed _ _ _)

/--
**One effect.**  For a response that is no redirection, `get_market_info_ack` does
exactly one of nothing, handling and checking, and retrying, if and only if a
stale response is successful and, where the exchange reports an error to a current
request, `retry` does not throw.
-/
theorem exactly_one_effect_iff (D : Download2 δ) (decode : String → Except Exception α)
    (handler : α → EStateM Exception γ Unit) (response : Response) (sequence : UInt32)
    (w : World γ δ α)
    (hRedirect : ∀ reply, response.result = .ok reply → reply.category ≠ .redirection) :
    ExactlyOneEffect D decode handler response sequence w
        (worldAfter (getMarketInfoAck D decode handler response sequence) w) ↔
      EntersOnce D response sequence w :=
  exactlyOneEffect_iff_of_end hRedirect
    (getMarketInfoAck_ends D decode handler response sequence w)

end OneEffect

/-! ## A late failure -/

/-- A request that timed out. -/
def timedOut : Response where
  result := .error (.networkError .error .unknown "timeout")
  expectOk := .error (.other "no response")
  expectOk_throws _ h := nomatch h

theorem exactly_one_effect_iff_timed_out :
    ExactlyOneEffect latestRequest (γ := Unit) (fun body => .ok body) (fun _ => pure ())
        timedOut 1 ⟨(), 1, []⟩
        (worldAfter (getMarketInfoAck latestRequest (fun body => .ok body)
          (fun _ => pure ()) timedOut 1) ⟨(), 1, []⟩) ↔
      EntersOnce latestRequest (γ := Unit) (α := String) timedOut 1 ⟨(), 1, []⟩ :=
  exactly_one_effect_iff latestRequest (fun body => .ok body) (fun _ => pure ()) timedOut 1
    ⟨(), 1, []⟩ (fun _ h => nomatch h)

/-- The timeout of the request before the present one makes the download retry. -/
theorem stale_failure_retries :
    latestRequest.skip 0 .getMarketInfo 1 = true ∧
    (worldAfter (getMarketInfoAck (γ := Unit) latestRequest (fun body => .ok body)
        (fun _ => pure ()) timedOut 0) ⟨(), 1, []⟩).effects =
      [.retry ⟨.gateway, .error, .unknown, "timeout"⟩] ∧
    ¬ ExactlyOneEffect latestRequest (fun body => .ok body) (fun _ => pure ())
        timedOut 0 ⟨(), 1, []⟩
        (worldAfter (getMarketInfoAck latestRequest (fun body => .ok body)
          (fun _ => pure ()) timedOut 0) ⟨(), 1, []⟩) := by
  have hEffects : (worldAfter (getMarketInfoAck (γ := Unit) latestRequest
      (fun body => .ok body) (fun _ => pure ()) timedOut 0) ⟨(), 1, []⟩).effects =
        [.retry ⟨.gateway, .error, .unknown, "timeout"⟩] := rfl
  refine ⟨rfl, hEffects, fun h => ?_⟩
  have hUnchanged := h.stale rfl
  rw [hUnchanged] at hEffects
  exact nomatch hEffects

end RoqWhitebit.Gateway
