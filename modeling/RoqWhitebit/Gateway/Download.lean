import RoqWhitebit.Exceptions

/-!
# Market-info responses and the download

`Rest::get_market_info_ack` handles the answer to a market-info request.  It
hands the response to `process_response` together with a success handler, which
asks the download whether the answer is still wanted, and an error handler, which
makes the download try again.

`core::Download2`, the decoder and the handler of the decoded message are
parameters: each may change its own state and throw.
-/

namespace RoqWhitebit.Gateway

/-- `web::http::Category` -/
inductive Category where
  | unknown
  | informationalResponse
  | success
  | redirection
  | clientError
  | serverError
  deriving DecidableEq, Repr

/-- What `web::rest::Response::result` returns; the status is kept as the text it
is formatted to. -/
structure Reply where
  status : String
  category : Category
  body : String
  deriving DecidableEq, Repr

/-- `web::rest::Response`: the two calls made on it, with what they throw. -/
structure Response where
  result : Except Exception Reply
  /-- `expect(web::http::Status::OK)` -/
  expectOk : Except Exception Unit
  /-- No status of these two categories is `OK`. -/
  expectOk_throws : ∀ reply, result = .ok reply →
    reply.category = .unknown ∨ reply.category = .informationalResponse →
    ∃ e, expectOk = .error e

/-- `Rest::State` -/
inductive DownloadState where
  | undefined
  | getMarketInfo
  | done
  deriving DecidableEq, Repr

/-- The operations of `core::Download2` used here, over the download's own state. -/
structure Download2 (δ : Type) where
  skip : UInt32 → DownloadState → δ → Bool
  check : DownloadState → EStateM Exception δ Unit
  retry : DownloadState → EStateM Exception δ Unit

/-- `roq::Origin`, as far as it is used here. -/
inductive Origin where
  | gateway
  | exchange
  deriving DecidableEq, Repr

/-- The arguments of the error handler. -/
structure Report where
  origin : Origin
  status : RequestStatus
  error : ErrorCode
  text : String
  deriving DecidableEq, Repr

/-- What handling a response enters: the handler of a decoded message, and the
two operations of the download. -/
inductive Effect (α : Type) where
  | marketInfoAck (ack : α)
  | check
  | retry (report : Report)
  deriving DecidableEq, Repr

/-- The gateway, the download, and what has been entered so far. -/
structure World (γ δ α : Type) where
  gateway : γ
  download : δ
  effects : List (Effect α) := []

/-- How a handler can end other than by returning.  `log::fatal` ends the process
and is not caught. -/
inductive Abort where
  | thrown (e : Exception)
  | fatal (message : String)
  deriving DecidableEq, Repr

/-- Computations of a handler. -/
abbrev Handling (γ δ α β : Type) := EStateM Abort (World γ δ α) β

variable {γ δ α β : Type}

def record (effect : Effect α) : Handling γ δ α Unit := fun w =>
  .ok () { w with effects := w.effects ++ [effect] }

def onGateway (m : EStateM Exception γ Unit) : Handling γ δ α Unit := fun w =>
  match m w.gateway with
  | .ok _ g => .ok () { w with gateway := g }
  | .error e g => .error (.thrown e) { w with gateway := g }

def onDownload (m : EStateM Exception δ Unit) : Handling γ δ α Unit := fun w =>
  match m w.download with
  | .ok _ d => .ok () { w with download := d }
  | .error e d => .error (.thrown e) { w with download := d }

/-! ## The handlers -/

section Handlers

variable (D : Download2 δ) (decode : String → Except Exception α)
  (handler : α → EStateM Exception γ Unit)

/-- `handle_error` -/
def handleError (report : Report) : Handling γ δ α Unit := do
  record (.retry report)
  onDownload (D.retry .getMarketInfo)

/-- `handle_success` -/
def handleSuccess (sequence : UInt32) (body : String) : Handling γ δ α Unit := do
  let w ← get
  if D.skip sequence .getMarketInfo w.download then
    pure ()
  else
    match decode body with
    | .error e => throw (.thrown e)
    | .ok ack =>
        record (.marketInfoAck ack)
        onGateway (handler ack)
        record .check
        onDownload (D.check .getMarketInfo)

/-- The `try` block of `Rest::process_response`. -/
def attempt (response : Response) (errorHandler : Report → Handling γ δ α Unit)
    (successHandler : String → Handling γ δ α Unit) : Handling γ δ α Unit :=
  match response.result with
  | .error e => throw (.thrown e)
  | .ok reply =>
      match reply.category with
      | .unknown | .informationalResponse =>
          match response.expectOk with
          | .error e => throw (.thrown e)
          | .ok _ => pure ()
      | .success => successHandler reply.body
      | .redirection => throw (.fatal "Unexpected: URL is being redirected")
      | .clientError => errorHandler ⟨.exchange, .rejected, .unknown, reply.status⟩
      | .serverError => errorHandler ⟨.exchange, .rejected, .unknown, reply.status⟩

/-- Its `catch` clauses. -/
def recover (errorHandler : Report → Handling γ δ α Unit) : Abort → Handling γ δ α Unit
  | .thrown (.networkError requestStatus error what) =>
      errorHandler ⟨.gateway, requestStatus, error, what⟩
  | .thrown (.badState what) => errorHandler ⟨.exchange, .error, .unknown, what⟩
  | .thrown (.other what) => errorHandler ⟨.exchange, .error, .unknown, what⟩
  | .fatal message => throw (.fatal message)

/-- `Rest::process_response` -/
def processResponse (response : Response) (errorHandler : Report → Handling γ δ α Unit)
    (successHandler : String → Handling γ δ α Unit) : Handling γ δ α Unit :=
  tryCatch (attempt response errorHandler successHandler) (recover errorHandler)

/-- `Rest::get_market_info_ack` -/
def getMarketInfoAck (response : Response) (sequence : UInt32) : Handling γ δ α Unit :=
  processResponse response (handleError D) (handleSuccess D decode handler sequence)

end Handlers

/-- The world after a handler, however it ended. -/
def worldAfter (m : Handling γ δ α β) (w : World γ δ α) : World γ δ α :=
  match m w with
  | .ok _ w' => w'
  | .error _ w' => w'

/-! ## What each part does -/

section Parts

variable (D : Download2 δ) (decode : String → Except Exception α)
  (handler : α → EStateM Exception γ Unit)

theorem handleError_returns {report : Report} {w : World γ δ α} {d : δ}
    (h : D.retry .getMarketInfo w.download = .ok () d) :
    handleError D report w = .ok () ⟨w.gateway, d, w.effects ++ [.retry report]⟩ := by
  show onDownload (D.retry .getMarketInfo) ⟨w.gateway, w.download, _⟩ = _
  simp only [onDownload, h]

theorem handleError_throws {report : Report} {w : World γ δ α} {e : Exception} {d : δ}
    (h : D.retry .getMarketInfo w.download = .error e d) :
    handleError D report w =
      .error (.thrown e) ⟨w.gateway, d, w.effects ++ [.retry report]⟩ := by
  show onDownload (D.retry .getMarketInfo) ⟨w.gateway, w.download, _⟩ = _
  simp only [onDownload, h]

theorem handleError_effects (report : Report) (w : World γ δ α) :
    (worldAfter (handleError D report) w).effects = w.effects ++ [.retry report] := by
  unfold worldAfter
  cases h : D.retry .getMarketInfo w.download with
  | ok _ d => rw [handleError_returns D h]
  | error e d => rw [handleError_throws D h]

theorem handleError_gateway (report : Report) (w : World γ δ α) :
    (worldAfter (handleError D report) w).gateway = w.gateway := by
  unfold worldAfter
  cases h : D.retry .getMarketInfo w.download with
  | ok _ d => rw [handleError_returns D h]
  | error e d => rw [handleError_throws D h]

theorem handleSuccess_stale {sequence : UInt32} {w : World γ δ α} (body : String)
    (hStale : D.skip sequence .getMarketInfo w.download = true) :
    handleSuccess D decode handler sequence body w = .ok () w := by
  show (if D.skip sequence .getMarketInfo w.download = true then pure () else _ :
    Handling γ δ α Unit) w = _
  rw [if_pos hStale]
  rfl

/-- What the success handler does with a body that is still wanted, once the body
is decoded. -/
theorem handleSuccess_decoded {sequence : UInt32} {w : World γ δ α} {body : String}
    {ack : α} (hCurrent : D.skip sequence .getMarketInfo w.download = false)
    (hDecode : decode body = .ok ack) :
    handleSuccess D decode handler sequence body w =
      match handler ack w.gateway with
      | .error e g => .error (.thrown e) ⟨g, w.download, w.effects ++ [.marketInfoAck ack]⟩
      | .ok _ g =>
          match D.check .getMarketInfo w.download with
          | .error e d =>
              .error (.thrown e) ⟨g, d, w.effects ++ [.marketInfoAck ack, .check]⟩
          | .ok _ d => .ok () ⟨g, d, w.effects ++ [.marketInfoAck ack, .check]⟩ := by
  show (if D.skip sequence .getMarketInfo w.download = true then pure () else _ :
    Handling γ δ α Unit) w = _
  rw [if_neg (by rw [hCurrent]; exact Bool.false_ne_true), hDecode]
  show EStateM.bind (record (.marketInfoAck ack)) _ w = _
  simp only [EStateM.bind, record, onGateway, bind]
  cases hHandler : handler ack w.gateway with
  | error e g => rfl
  | ok _ g =>
      simp only [onDownload, List.append_assoc, List.cons_append, List.nil_append]
      cases D.check .getMarketInfo w.download with
      | error e d => rfl
      | ok _ d => rfl

theorem handleSuccess_undecoded {sequence : UInt32} {w : World γ δ α} {body : String}
    {e : Exception} (hCurrent : D.skip sequence .getMarketInfo w.download = false)
    (hDecode : decode body = .error e) :
    handleSuccess D decode handler sequence body w = .error (.thrown e) w := by
  show (if D.skip sequence .getMarketInfo w.download = true then pure () else _ :
    Handling γ δ α Unit) w = _
  rw [if_neg (by rw [hCurrent]; exact Bool.false_ne_true), hDecode]
  rfl

/-- The ways through the `try` block: it throws at once, it enters the success handler,
it enters the error handler, or it ends the process. -/
theorem attempt_cases (response : Response) (errorHandler : Report → Handling γ δ α Unit)
    (successHandler : String → Handling γ δ α Unit) :
    ((∀ reply, response.result = .ok reply → reply.category ≠ .success ∧
        reply.category ≠ .clientError ∧ reply.category ≠ .serverError) ∧
      ∃ e, attempt response errorHandler successHandler = throw (.thrown e)) ∨
    (∃ reply, response.result = .ok reply ∧ reply.category = .success ∧
      attempt response errorHandler successHandler = successHandler reply.body) ∨
    (∃ reply report, response.result = .ok reply ∧
      (reply.category = .clientError ∨ reply.category = .serverError) ∧
      attempt response errorHandler successHandler = errorHandler report) ∨
    (∃ reply message, response.result = .ok reply ∧ reply.category = .redirection ∧
      attempt response errorHandler successHandler = throw (.fatal message)) := by
  unfold attempt
  cases hResult : response.result with
  | error e =>
      left
      exact ⟨fun reply h => (nomatch h), e, rfl⟩
  | ok reply =>
      have hExpect := response.expectOk_throws reply hResult
      cases hCategory : reply.category with
      | unknown =>
          left
          obtain ⟨e, he⟩ := hExpect (.inl hCategory)
          refine ⟨fun reply' h => ?_, e, by simp only [hCategory, he]⟩
          obtain rfl : reply = reply' := Except.ok.inj h
          rw [hCategory]
          decide
      | informationalResponse =>
          left
          obtain ⟨e, he⟩ := hExpect (.inr hCategory)
          refine ⟨fun reply' h => ?_, e, by simp only [hCategory, he]⟩
          obtain rfl : reply = reply' := Except.ok.inj h
          rw [hCategory]
          decide
      | success => exact .inr (.inl ⟨reply, rfl, hCategory, by simp only [hCategory]⟩)
      | redirection =>
          exact .inr (.inr (.inr ⟨reply, _, rfl, hCategory, by simp only [hCategory]; rfl⟩))
      | clientError =>
          exact .inr (.inr (.inl ⟨reply, ⟨.exchange, .rejected, .unknown, reply.status⟩,
            rfl, .inl hCategory, by simp only [hCategory]⟩))
      | serverError =>
          exact .inr (.inr (.inl ⟨reply, ⟨.exchange, .rejected, .unknown, reply.status⟩,
            rfl, .inr hCategory, by simp only [hCategory]⟩))

section TryCatch

variable {response : Response} {errorHandler : Report → Handling γ δ α Unit}
  {successHandler : String → Handling γ δ α Unit} {w w' : World γ δ α}

theorem processResponse_returned
    (h : attempt response errorHandler successHandler w = .ok () w') :
    processResponse response errorHandler successHandler w = .ok () w' := by
  show EStateM.tryCatch _ _ w = _
  delta EStateM.tryCatch
  rw [h]

theorem processResponse_threw {a : Abort}
    (h : attempt response errorHandler successHandler w = .error a w') :
    processResponse response errorHandler successHandler w =
      recover errorHandler a w' := by
  show EStateM.tryCatch _ _ w = _
  delta EStateM.tryCatch
  rw [h]
  rfl

end TryCatch

/-- What leaves the `try` block without an exception leaves the function. -/
theorem worldAfter_of_returned {response : Response} {sequence : UInt32}
    {w w' : World γ δ α}
    (h : attempt response (handleError D) (handleSuccess D decode handler sequence) w =
      .ok () w') :
    worldAfter (getMarketInfoAck D decode handler response sequence) w = w' := by
  have hRun : getMarketInfoAck D decode handler response sequence w = .ok () w' :=
    processResponse_returned h
  unfold worldAfter
  rw [hRun]

/-- What the `try` block throws goes to the error handler. -/
theorem getMarketInfoAck_thrown {response : Response} {sequence : UInt32}
    {w w' : World γ δ α} {e : Exception}
    (h : attempt response (handleError D) (handleSuccess D decode handler sequence) w =
      .error (.thrown e) w') :
    ∃ report, getMarketInfoAck D decode handler response sequence w =
      handleError D report w' := by
  have hCatch : getMarketInfoAck D decode handler response sequence w =
      recover (handleError D) (.thrown e) w' := processResponse_threw h
  cases e with
  | networkError requestStatus error what => exact ⟨_, hCatch⟩
  | badState what => exact ⟨_, hCatch⟩
  | other what => exact ⟨_, hCatch⟩

/-- Where the `try` block throws, `retry` is entered once more, and the gateway stays
as it is. -/
theorem worldAfter_of_thrown {response : Response} {sequence : UInt32}
    {w w' : World γ δ α} {e : Exception}
    (h : attempt response (handleError D) (handleSuccess D decode handler sequence) w =
      .error (.thrown e) w') :
    ∃ report, (worldAfter (getMarketInfoAck D decode handler response sequence) w).effects =
        w'.effects ++ [.retry report] ∧
      (worldAfter (getMarketInfoAck D decode handler response sequence) w).gateway =
        w'.gateway := by
  obtain ⟨report, hReport⟩ := getMarketInfoAck_thrown D decode handler h
  refine ⟨report, ?_⟩
  rw [← handleError_effects D report w', ← handleError_gateway D report w']
  unfold worldAfter
  rw [hReport]
  exact ⟨rfl, rfl⟩

end Parts

/-! ## How a response ends -/

section Ends

variable (D : Download2 δ) (decode : String → Except Exception α)
  (handler : α → EStateM Exception γ Unit)

/-- The response is current and successful, and its body decodes: its handler is
entered. -/
structure Entered (response : Response) (sequence : UInt32) (w : World γ δ α) (ack : α) :
    Prop where
  current : D.skip sequence .getMarketInfo w.download = false
  decoded : ∃ reply, response.result = .ok reply ∧ reply.category = .success ∧
    decode reply.body = .ok ack

/-- Every way in which a response can end. -/
inductive ResponseEnd (response : Response) (sequence : UInt32) (w : World γ δ α) :
    World γ δ α → Prop
  /-- `result` or `expect` throws. -/
  | failed {w' : World γ δ α} {report : Report} :
      (∀ reply, response.result = .ok reply → reply.category ≠ .success ∧
        reply.category ≠ .clientError ∧ reply.category ≠ .serverError) →
      w'.gateway = w.gateway → w'.effects = w.effects ++ [.retry report] →
      ResponseEnd response sequence w w'
  /-- The exchange reports an error. -/
  | rejected {w' : World γ δ α} {reply : Reply} {report : Report} :
      response.result = .ok reply →
      reply.category = .clientError ∨ reply.category = .serverError →
      D.retry .getMarketInfo w.download = .ok () w'.download →
      w'.gateway = w.gateway → w'.effects = w.effects ++ [.retry report] →
      ResponseEnd response sequence w w'
  /-- The exchange reports an error, and `retry` throws inside the `try` block. -/
  | rejectedTwice {w' : World γ δ α} {reply : Reply} {report report' : Report}
      {e : Exception} {d : δ} :
      response.result = .ok reply →
      reply.category = .clientError ∨ reply.category = .serverError →
      D.retry .getMarketInfo w.download = .error e d →
      w'.gateway = w.gateway →
      w'.effects = w.effects ++ [.retry report, .retry report'] →
      ResponseEnd response sequence w w'
  | redirected {reply : Reply} :
      response.result = .ok reply → reply.category = .redirection →
      ResponseEnd response sequence w w
  | stale {reply : Reply} :
      response.result = .ok reply → reply.category = .success →
      D.skip sequence .getMarketInfo w.download = true →
      ResponseEnd response sequence w w
  | undecoded {w' : World γ δ α} {reply : Reply} {e : Exception} {report : Report} :
      D.skip sequence .getMarketInfo w.download = false →
      response.result = .ok reply → reply.category = .success →
      decode reply.body = .error e →
      w'.gateway = w.gateway → w'.effects = w.effects ++ [.retry report] →
      ResponseEnd response sequence w w'
  /-- The handler throws. -/
  | threw {w' : World γ δ α} {ack : α} {e : Exception} {report : Report} :
      Entered D decode response sequence w ack →
      handler ack w.gateway = .error e w'.gateway →
      w'.effects = w.effects ++ [.marketInfoAck ack, .retry report] →
      ResponseEnd response sequence w w'
  /-- `check` throws. -/
  | unchecked {w' : World γ δ α} {ack : α} {e : Exception} {d : δ} {report : Report} :
      Entered D decode response sequence w ack →
      handler ack w.gateway = .ok () w'.gateway →
      D.check .getMarketInfo w.download = .error e d →
      w'.effects = w.effects ++ [.marketInfoAck ack, .check, .retry report] →
      ResponseEnd response sequence w w'
  | processed {w' : World γ δ α} {ack : α} :
      Entered D decode response sequence w ack →
      handler ack w.gateway = .ok () w'.gateway →
      D.check .getMarketInfo w.download = .ok () w'.download →
      w'.effects = w.effects ++ [.marketInfoAck ack, .check] →
      ResponseEnd response sequence w w'

variable {response : Response} {sequence : UInt32} {w : World γ δ α}

theorem Response.reply_unique {reply reply' : Reply} (h : response.result = .ok reply)
    (h' : response.result = .ok reply') : reply = reply' :=
  Except.ok.inj (h.symm.trans h')

variable {D decode} in
theorem Entered.unique {ack ack' : α} (h : Entered D decode response sequence w ack)
    (h' : Entered D decode response sequence w ack') : ack = ack' := by
  obtain ⟨reply, hResult, _, hDecode⟩ := h.decoded
  obtain ⟨reply', hResult', _, hDecode'⟩ := h'.decoded
  obtain rfl := response.reply_unique hResult hResult'
  exact Except.ok.inj (hDecode.symm.trans hDecode')

/-- A successful response. -/
theorem success_ends {reply : Reply} (hResult : response.result = .ok reply)
    (hSuccess : reply.category = .success)
    (hEnter : attempt response (handleError D) (handleSuccess D decode handler sequence) =
      handleSuccess D decode handler sequence reply.body) :
    ResponseEnd D decode handler response sequence w
      (worldAfter (getMarketInfoAck D decode handler response sequence) w) := by
  cases hSkip : D.skip sequence .getMarketInfo w.download with
  | true =>
      have hStale := handleSuccess_stale D decode handler reply.body hSkip
      rw [← hEnter] at hStale
      rw [worldAfter_of_returned D decode handler hStale]
      exact .stale hResult hSuccess hSkip
  | false =>
      cases hDecode : decode reply.body with
      | error e =>
          have hThrow := handleSuccess_undecoded D decode handler hSkip hDecode
          rw [← hEnter] at hThrow
          obtain ⟨report, hEffects, hGateway⟩ := worldAfter_of_thrown D decode handler hThrow
          exact .undecoded hSkip hResult hSuccess hDecode hGateway hEffects
      | ok ack =>
          have hEntered : Entered D decode response sequence w ack :=
            ⟨hSkip, reply, hResult, hSuccess, hDecode⟩
          have hRun := handleSuccess_decoded D decode handler hSkip hDecode
          rw [← hEnter] at hRun
          cases hHandler : handler ack w.gateway with
          | error e g =>
              rw [hHandler] at hRun
              obtain ⟨report, hEffects, hGateway⟩ := worldAfter_of_thrown D decode handler hRun
              rw [List.append_assoc] at hEffects
              exact .threw hEntered (by rw [hHandler, hGateway]) hEffects
          | ok _ g =>
              rw [hHandler] at hRun
              cases hCheck : D.check .getMarketInfo w.download with
              | ok _ d =>
                  rw [hCheck] at hRun
                  rw [worldAfter_of_returned D decode handler hRun]
                  exact .processed hEntered hHandler hCheck rfl
              | error e d =>
                  rw [hCheck] at hRun
                  obtain ⟨report, hEffects, hGateway⟩ :=
                    worldAfter_of_thrown D decode handler hRun
                  rw [List.append_assoc] at hEffects
                  exact .unchecked hEntered (by rw [hHandler, hGateway]) hCheck hEffects

/-- A response with which the exchange reports an error. -/
theorem rejected_ends {reply : Reply} {report : Report}
    (hResult : response.result = .ok reply)
    (hRejected : reply.category = .clientError ∨ reply.category = .serverError)
    (hEnter : attempt response (handleError D) (handleSuccess D decode handler sequence) =
      handleError D report) :
    ResponseEnd D decode handler response sequence w
      (worldAfter (getMarketInfoAck D decode handler response sequence) w) := by
  cases hRetry : D.retry .getMarketInfo w.download with
  | ok _ d =>
      have hRun : handleError D report w =
          .ok () ⟨w.gateway, d, w.effects ++ [.retry report]⟩ := handleError_returns D hRetry
      rw [← hEnter] at hRun
      rw [worldAfter_of_returned D decode handler hRun]
      exact .rejected hResult hRejected hRetry rfl rfl
  | error e d =>
      have hRun : handleError D report w =
          .error (.thrown e) ⟨w.gateway, d, w.effects ++ [.retry report]⟩ :=
        handleError_throws D hRetry
      rw [← hEnter] at hRun
      obtain ⟨report', hEffects, hGateway⟩ := worldAfter_of_thrown D decode handler hRun
      rw [List.append_assoc] at hEffects
      exact .rejectedTwice hResult hRejected hRetry hGateway hEffects

variable (response sequence w)

/-- **Ends**: every response ends in one of these ways. -/
theorem getMarketInfoAck_ends :
    ResponseEnd D decode handler response sequence w
      (worldAfter (getMarketInfoAck D decode handler response sequence) w) := by
  rcases attempt_cases response (handleError D)
      (handleSuccess D decode handler sequence) with
    ⟨hNone, e, hEnter⟩ | ⟨reply, hResult, hSuccess, hEnter⟩ |
    ⟨reply, report, hResult, hRejected, hEnter⟩ | ⟨reply, message, hResult, hFatal, hEnter⟩
  · obtain ⟨report, hEffects, hGateway⟩ :=
      worldAfter_of_thrown D decode handler (congrFun hEnter w)
    exact .failed hNone hGateway hEffects
  · exact success_ends D decode handler hResult hSuccess hEnter
  · exact rejected_ends D decode handler hResult hRejected hEnter
  · have hRun : getMarketInfoAck D decode handler response sequence w =
        .error (.fatal message) w :=
      processResponse_threw (congrFun hEnter w)
    unfold worldAfter
    rw [hRun]
    exact .redirected hResult hFatal

variable {response sequence w}

/-- A response whose category is not that of success does not enter the handler. -/
theorem not_entered_of_category
    (h : ∀ reply, response.result = .ok reply → reply.category ≠ .success) (ack : α) :
    ¬ Entered D decode response sequence w ack := by
  intro hEntered
  obtain ⟨reply, hResult, hSuccess, _⟩ := hEntered.decoded
  exact h reply hResult hSuccess

variable {D decode handler}

/-- The gateway is left alone, or it is as the handler leaves it; in the second case
`check` is entered exactly if the handler returns. -/
theorem ResponseEnd.gateway_cases {w' : World γ δ α}
    (hEnd : ResponseEnd D decode handler response sequence w w') :
    ((∀ ack, ¬ Entered D decode response sequence w ack) ∧ w'.gateway = w.gateway ∧
      ∃ reports : List Report, w'.effects = w.effects ++ reports.map .retry) ∨
    (∃ ack e report, Entered D decode response sequence w ack ∧
      handler ack w.gateway = .error e w'.gateway ∧
      w'.effects = w.effects ++ [.marketInfoAck ack, .retry report]) ∨
    (∃ ack later, Entered D decode response sequence w ack ∧
      handler ack w.gateway = .ok () w'.gateway ∧
      w'.effects = w.effects ++ .marketInfoAck ack :: .check :: later) := by
  have hUnchanged : w.effects = w.effects ++ ([] : List Report).map .retry :=
    (List.append_nil w.effects).symm
  cases hEnd with
  | @failed _ report hNone hGateway hEffects =>
      left
      exact ⟨not_entered_of_category D decode fun reply h => (hNone reply h).1, hGateway,
        [report], hEffects⟩
  | @rejected _ _ report hResult hRejected _ hGateway hEffects =>
      left
      refine ⟨not_entered_of_category D decode fun reply h => ?_, hGateway, [report],
        hEffects⟩
      obtain rfl := response.reply_unique hResult h
      rcases hRejected with h | h <;> rw [h] <;> decide
  | @rejectedTwice _ _ report report' _ _ hResult hRejected _ hGateway hEffects =>
      left
      refine ⟨not_entered_of_category D decode fun reply h => ?_, hGateway,
        [report, report'], hEffects⟩
      obtain rfl := response.reply_unique hResult h
      rcases hRejected with h | h <;> rw [h] <;> decide
  | redirected hResult hFatal =>
      left
      refine ⟨not_entered_of_category D decode fun reply h => ?_, rfl, [], hUnchanged⟩
      obtain rfl := response.reply_unique hResult h
      rw [hFatal]
      decide
  | stale _ _ hSkip =>
      left
      refine ⟨fun ack h => ?_, rfl, [], hUnchanged⟩
      rw [h.current] at hSkip
      exact nomatch hSkip
  | @undecoded _ _ _ report _ hResult _ hDecode hGateway hEffects =>
      left
      refine ⟨fun ack h => ?_, hGateway, [report], hEffects⟩
      obtain ⟨reply', hResult', _, hDecode'⟩ := h.decoded
      obtain rfl := response.reply_unique hResult hResult'
      rw [hDecode] at hDecode'
      exact nomatch hDecode'
  | threw hEntered hThrew hEffects =>
      exact .inr (.inl ⟨_, _, _, hEntered, hThrew, hEffects⟩)
  | unchecked hEntered hHandled _ hEffects =>
      exact .inr (.inr ⟨_, _, hEntered, hHandled, hEffects⟩)
  | processed hEntered hHandled _ hEffects =>
      exact .inr (.inr ⟨_, _, hEntered, hHandled, hEffects⟩)

end Ends

/-- A download that only knows the sequence of its latest request: `retry` sends
another one. -/
def latestRequest : Download2 UInt32 where
  skip sequence _ latest := decide (sequence ≠ latest)
  check _ := pure ()
  retry _ := modify fun latest => latest + 1

end RoqWhitebit.Gateway
