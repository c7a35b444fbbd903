import Mathlib
import RoqWhitebit.Gateway.Books
import RoqWhitebit.General.Processes
import RoqWhitebit.Protocol.Json.Parser

/-!
# Frames

`MarketData::parse` takes a text frame from the connection.  The parser walks over its
members and calls a handler in the middle of the walk; whatever goes wrong there, in the
walk, in a decoder or in a handler, ends the process.

`Receiver.dispatch` is this parser with its handlers, and `parse_classifies` says
that it does what the classification of the frame alone promises: first all the
deciding, then at most one handler.  So every frame has an outcome of its own
(`Frame.outcome`), and with a dispatcher that takes every event a process is known from
the frames it is given (`process_outcome`).

The tokenizer of `roq-core`, the hash, the generated decoders and the dispatcher are
parameters.
-/

namespace RoqWhitebit.Gateway

open RoqWhitebit.General
open RoqWhitebit.Protocol.Json

/-! ## What comes from outside -/

/-- What the tokenizer makes of a text: the members of its object, and what it throws
after the last of them. -/
structure Document where
  members : List (String × Value)
  broken : Option Exception := none

/-- What a handler is called with. -/
inductive Payload where
  | pong
  | response
  | update (m : Message)
  deriving DecidableEq

/-- The hash, the tokenizer, and the generated constructors `T{message, buffer_stack}`. -/
structure Codec where
  utils : Utils
  document : String → Document
  method : MethodDecoder
  pong : String → Except Exception Unit
  response : String → Except Exception Unit
  bookTickerUpdate : String → Except Exception BookTickerUpdate
  depthUpdate : String → Except Exception DepthUpdate
  tradesUpdate : String → Except Exception TradesUpdate
  marketUpdate : String → Except Exception MarketUpdate
  marketTodayUpdate : String → Except Exception MarketTodayUpdate

/-- The payload a callback reads from the text. -/
def Codec.payload (c : Codec) (text : String) : Callback → Except Exception Payload
  | .pong => (c.pong text).map fun _ => .pong
  | .response => (c.response text).map fun _ => .response
  | .bookTickerUpdate =>
      (c.bookTickerUpdate text).map fun update => .update (.bookTickerUpdate update)
  | .depthUpdate => (c.depthUpdate text).map fun update => .update (.depthUpdate update)
  | .tradesUpdate => (c.tradesUpdate text).map fun update => .update (.tradesUpdate update)
  | .marketUpdate => (c.marketUpdate text).map fun update => .update (.marketUpdate update)
  | .marketTodayUpdate =>
      (c.marketTodayUpdate text).map fun update => .update (.marketTodayUpdate update)

/-! ## Handlers -/

/-- What has been published, the streams whose connections have been touched, and the
messages that have been logged with a request to report them. -/
structure Reception where
  feed : Feed := {}
  touched : List UInt16 := []
  reported : List String := []

def Reception.report (r : Reception) (text : String) : Reception :=
  { r with reported := r.reported ++ [text] }

/-- What runs while a frame is handled. -/
abbrev Receiver := EStateM Fault Reception

/-- A handler that works on the shared buffers only. -/
def onFeed (m : FeedHandler Unit) : Receiver Unit := fun r =>
  match m r.feed with
  | .ok _ feed => .ok () { r with feed := feed }
  | .error fault feed => .error fault { r with feed := feed }

/-- `(*connection_).touch(trace_info.source_receive_time)` -/
def touch (streamId : UInt16) : Receiver Unit :=
  modify fun r => { r with touched := r.touched ++ [streamId] }

/-- The handler of a payload.  An error in a response is only logged. -/
def Payload.handle (u : Utils) (dispatcher : Dispatcher) (exchange : String)
    (streamId : UInt16) : Payload → Receiver Unit
  | .pong => touch streamId
  | .response => touch streamId
  | .update m => do
      touch streamId
      onFeed (m.handle u dispatcher exchange streamId)

/-! ## The parser with its handlers -/

/-- The two flags the helper captures. -/
structure Captured where
  result : Bool := false
  hasResult : Bool := false

section Parser

variable (c : Codec) (dispatcher : Dispatcher) (allowUnknownEventTypes : Bool)
  (exchange : String) (streamId : UInt16) (text : String)

/-- `dispatch_helper<T>(handler, message, buffer_stack, trace_info)` -/
def Receiver.dispatchHelper (callback : Callback) : Receiver Unit :=
  match c.payload text callback with
  | .error e => throw (.threw e)
  | .ok payload => payload.handle c.utils dispatcher exchange streamId

/-- The handler is called, and the helper says stop. -/
def Receiver.handled (callback : Callback) (flags : Captured) :
    Receiver (Bool × Captured) := do
  Receiver.dispatchHelper c dispatcher exchange streamId text callback
  return (true, { flags with result := true })

/-- The `KEY_METHOD` case of the helper. -/
def Receiver.methodCase (value : Value) (flags : Captured) : Receiver (Bool × Captured) :=
  match c.method.decode value with
  | .error e => throw (.threw e)
  | .ok .undefinedInternal => throw .fatal
  | .ok .unknownInternal => pure (true, flags)
  | .ok .bookTickerUpdate =>
      Receiver.handled c dispatcher exchange streamId text .bookTickerUpdate flags
  | .ok .depthUpdate =>
      Receiver.handled c dispatcher exchange streamId text .depthUpdate flags
  | .ok .tradesUpdate =>
      Receiver.handled c dispatcher exchange streamId text .tradesUpdate flags
  | .ok .marketUpdate =>
      Receiver.handled c dispatcher exchange streamId text .marketUpdate flags
  | .ok .marketTodayUpdate =>
      Receiver.handled c dispatcher exchange streamId text .marketTodayUpdate flags

/-- What follows the switch of the helper. -/
def Receiver.afterSwitch (flags : Captured) : Receiver (Bool × Captured) :=
  if flags.hasResult then Receiver.handled c dispatcher exchange streamId text .response flags
  else pure (flags.result, flags)

/-- The lambda `helper` on one member: whether it says stop, and the flags after it. -/
def Receiver.helper (key : String) (value : Value) (flags : Captured) :
    Receiver (Bool × Captured) :=
  let key2 := c.utils.fnv key
  if key2 = c.utils.fnv "method" then
    Receiver.methodCase c dispatcher exchange streamId text value flags
  else if key2 = c.utils.fnv "result" then
    if isPong value then Receiver.handled c dispatcher exchange streamId text .pong flags
    else Receiver.afterSwitch c dispatcher exchange streamId text { flags with hasResult := true }
  else Receiver.afterSwitch c dispatcher exchange streamId text flags

/-- What the tokenizer does after the last member. -/
def Receiver.endOfText : Option Exception → Receiver Unit
  | none => pure ()
  | some e => throw (.threw e)

/-- `core::json::Parser::dispatch<core::json::Object>(helper, message)` -/
def Receiver.walk (broken : Option Exception) :
    List (String × Value) → Captured → Receiver Captured
  | [], flags => do
      Receiver.endOfText broken
      return flags
  | (key, value) :: members, flags => do
      let (stop, flags) ← Receiver.helper c dispatcher exchange streamId text key value flags
      if stop then pure flags else Receiver.walk broken members flags

/-- `Parser::dispatch` -/
def Receiver.dispatch : Receiver Bool := do
  let document := c.document text
  let flags ← Receiver.walk c dispatcher exchange streamId text document.broken document.members {}
  if flags.result || allowUnknownEventTypes then pure flags.result else throw .fatal

end Parser

/-- A frame of a web socket. -/
inductive Frame where
  | text (payload : String)
  | binary
  deriving DecidableEq

section Process

variable (c : Codec) (dispatcher : Dispatcher) (allowUnknownEventTypes : Bool)
  (exchange : String)

/-- What `parse` does with the end of the parser.  Whatever is thrown is reported, and
ends the process. -/
def concludeParse (text : String) : EStateM.Result Fault Reception Bool → Fate Reception
  | .ok true r' => { state := r', alive := true }
  | .ok false r' => { state := r'.report text, alive := true }
  | .error .fatal r' => { state := r', alive := false }
  | .error (.threw _) r' => { state := r'.report text, alive := false }

/-- `MarketData::parse` -/
def parse (streamId : UInt16) (text : String) (r : Reception) : Fate Reception :=
  concludeParse text
    (Receiver.dispatch c dispatcher allowUnknownEventTypes exchange streamId text r)

/-- `operator()(Trace<web::socket::Text>)` and `operator()(Trace<web::socket::Binary>)`:
a frame that arrives on a stream. -/
def onFrame (r : Reception) : UInt16 × Frame → Fate Reception
  | (streamId, .text payload) =>
      parse c dispatcher allowUnknownEventTypes exchange streamId payload r
  | (_, .binary) => { state := r, alive := false }

end Process

/-! ## Classification first, handlers afterwards -/

/-- What is thrown where the parser does not return. -/
def settle : Ending → Receiver Bool
  | .returned result => pure result
  | .fatal => throw .fatal
  | .threw e => throw (.threw e)

/-- The classification of a document: what is behind the first deciding member is never
looked at. -/
def Document.classify (u : Utils) (d : MethodDecoder) (allow : Bool) (document : Document) :
    Ending × List Callback :=
  match document.broken, document.members.find? (isDeciding u) with
  | some e, none => (.threw e, [])
  | _, _ => Protocol.Json.dispatch u d allow document.members

/-- A document makes one callback at most, and one exactly if it is understood. -/
theorem Document.classify_singleShot (u : Utils) (d : MethodDecoder) (allow : Bool)
    (document : Document) :
    (document.classify u d allow).2.length ≤ 1 ∧
      ((document.classify u d allow).2.length = 1 ↔
        (document.classify u d allow).1 = .returned true) := by
  unfold Document.classify
  split
  · exact ⟨by simp, by simp⟩
  · exact dispatch_singleShot u d allow document.members

/-- A frame makes one callback and is understood, or makes none. -/
theorem Document.classify_cases (u : Utils) (d : MethodDecoder) (allow : Bool)
    (document : Document) :
    document.classify u d allow = (.fatal, []) ∨
      (∃ e, document.classify u d allow = (.threw e, [])) ∨
      document.classify u d allow = (.returned false, []) ∨
      ∃ callback, document.classify u d allow = (.returned true, [callback]) := by
  have hShot := document.classify_singleShot u d allow
  generalize document.classify u d allow = classified at hShot ⊢
  obtain ⟨ending, callbacks⟩ := classified
  obtain ⟨hAtMost, hOnce⟩ := hShot
  have hNone (h : ending ≠ .returned true) : callbacks = [] := by
    have hLength : callbacks.length ≠ 1 := fun hOne => h (hOnce.mp hOne)
    exact List.length_eq_zero_iff.mp (by dsimp only at hAtMost; omega)
  cases ending with
  | fatal => exact Or.inl (by rw [hNone nofun])
  | threw e => exact Or.inr (Or.inl ⟨e, by rw [hNone nofun]⟩)
  | returned result =>
      cases result with
      | false => exact Or.inr (Or.inr (Or.inl (by rw [hNone (by simp)])))
      | true =>
          obtain ⟨callback, hCallback⟩ := List.length_eq_one_iff.mp (hOnce.mpr rfl)
          dsimp only at hCallback
          exact Or.inr (Or.inr (Or.inr ⟨callback, by rw [hCallback]⟩))

section Refinement

variable (c : Codec) (dispatcher : Dispatcher) (allow : Bool) (exchange : String)
  (streamId : UInt16) (text : String)

/-- The callbacks are made, one after the other, and then the signal is acted upon. -/
def Receiver.act : Signal × Flags → Receiver (Bool × Captured)
  | (signal, flags) => do
      flags.callbacks.forM (Receiver.dispatchHelper c dispatcher exchange streamId text)
      match signal with
      | .next => return (false, { result := flags.result, hasResult := flags.hasResult })
      | .stop => return (true, { result := flags.result, hasResult := flags.hasResult })
      | .fatal => throw .fatal
      | .threw e => throw (.threw e)

theorem Receiver.handled_eq (callback : Callback) (hasResult : Bool) :
    Receiver.handled c dispatcher exchange streamId text callback { hasResult := hasResult } =
      Receiver.act c dispatcher exchange streamId text
        (.stop, Flags.dispatchHelper callback { hasResult := hasResult }) := by
  have hAct : Receiver.act c dispatcher exchange streamId text
      (.stop, Flags.dispatchHelper callback { hasResult := hasResult }) =
        (Receiver.dispatchHelper c dispatcher exchange streamId text callback >>=
          fun _ => pure ()) >>=
            fun _ => pure (true, ({ result := true, hasResult := hasResult } : Captured)) := rfl
  rw [hAct, bind_pure_unit]
  rfl

theorem Receiver.methodCase_eq (value : Value) :
    Receiver.methodCase c dispatcher exchange streamId text value {} =
      Receiver.act c dispatcher exchange streamId text
        (Protocol.Json.methodCase c.method value {}) := by
  unfold Receiver.methodCase Protocol.Json.methodCase
  cases c.method.decode value with
  | error e => rfl
  | ok method =>
      cases method with
      | undefinedInternal => rfl
      | unknownInternal => rfl
      | bookTickerUpdate => exact Receiver.handled_eq c dispatcher exchange streamId text _ false
      | depthUpdate => exact Receiver.handled_eq c dispatcher exchange streamId text _ false
      | tradesUpdate => exact Receiver.handled_eq c dispatcher exchange streamId text _ false
      | marketUpdate => exact Receiver.handled_eq c dispatcher exchange streamId text _ false
      | marketTodayUpdate => exact Receiver.handled_eq c dispatcher exchange streamId text _ false

/-- One member: the helper with handlers acts as the helper without says. -/
theorem Receiver.helper_eq (key : String) (value : Value) :
    Receiver.helper c dispatcher exchange streamId text key value {} =
      Receiver.act c dispatcher exchange streamId text
        (Protocol.Json.helper c.utils c.method key value {}) := by
  by_cases hMethod : c.utils.fnv key = c.utils.fnv "method"
  · rw [helper_method hMethod, ← Receiver.methodCase_eq]
    exact if_pos hMethod
  · unfold Receiver.helper
    by_cases hResult : c.utils.fnv key = c.utils.fnv "result"
    · rw [if_neg hMethod, if_pos hResult, helper_result hMethod hResult]
      by_cases hPong : isPong value
      · rw [if_pos hPong, if_pos hPong]
        exact Receiver.handled_eq c dispatcher exchange streamId text .pong false
      · rw [if_neg hPong, if_neg hPong]
        exact Receiver.handled_eq c dispatcher exchange streamId text .response true
    · rw [if_neg hMethod, if_neg hResult,
        helper_of_not_deciding c.utils c.method key value (by simp [isDeciding, hMethod, hResult])]
      rfl

/-- Nothing runs after a `throw`. -/
theorem Receiver.throw_bind {α β : Type} (fault : Fault) (k : α → Receiver β) :
    (throw fault >>= k) = throw fault := rfl

/-- Once the signal is not `next`, the walk is over. -/
theorem Receiver.act_stops {ended : Signal × Flags} (hEnds : ∀ flags, ended ≠ (.next, flags))
    (rest : Captured → Receiver Captured) :
    (do
      let (stop, flags) ← Receiver.act c dispatcher exchange streamId text ended
      if stop then pure flags else rest flags) =
      Prod.snd <$> Receiver.act c dispatcher exchange streamId text ended := by
  obtain ⟨signal, flags⟩ := ended
  cases signal with
  | next => exact absurd rfl (hEnds flags)
  | stop => simp [Receiver.act]
  | fatal => simp only [Receiver.act, ← bind_pure_comp, bind_assoc, throw_bind]
  | threw e => simp only [Receiver.act, ← bind_pure_comp, bind_assoc, throw_bind]

/-- The walk acts on the first deciding member, or comes to the end of the text. -/
theorem Receiver.walk_eq (broken : Option Exception) (members : List (String × Value)) :
    Receiver.walk c dispatcher exchange streamId text broken members {} =
      match members.find? (isDeciding c.utils) with
      | none => do
          Receiver.endOfText broken
          pure {}
      | some (key, value) =>
          Prod.snd <$> Receiver.act c dispatcher exchange streamId text
            (Protocol.Json.helper c.utils c.method key value {}) := by
  induction members with
  | nil => rfl
  | cons member members ih =>
      obtain ⟨key, value⟩ := member
      rw [Receiver.walk, Receiver.helper_eq]
      cases hDeciding : isDeciding c.utils (key, value) with
      | false =>
          rw [List.find?_cons_of_neg (by simp [hDeciding]),
            helper_of_not_deciding c.utils c.method key value hDeciding, ← ih]
          rfl
      | true =>
          rw [List.find?_cons_of_pos hDeciding]
          exact Receiver.act_stops c dispatcher exchange streamId text
            (helper_of_deciding c.utils c.method key value hDeciding) _

/-- The handlers are called in the middle of the walk, and still the parser does what it
would do if it made its callbacks after the classification. -/
theorem Receiver.dispatch_eq :
    Receiver.dispatch c dispatcher allow exchange streamId text =
      (do
        ((c.document text).classify c.utils c.method allow).2.forM
          (Receiver.dispatchHelper c dispatcher exchange streamId text)
        settle ((c.document text).classify c.utils c.method allow).1) := by
  unfold Receiver.dispatch Document.classify
  simp only [Receiver.walk_eq, dispatch_eq_find]
  generalize c.document text = document
  obtain ⟨members, broken⟩ := document
  dsimp only
  cases hFind : members.find? (isDeciding c.utils) with
  | none =>
      cases broken with
      | none => cases allow <;> rfl
      | some e => rfl
  | some member =>
      obtain ⟨key, value⟩ := member
      have hEnds := helper_of_deciding c.utils c.method key value (List.find?_some hFind)
      dsimp only
      generalize Protocol.Json.helper c.utils c.method key value {} = ended at hEnds ⊢
      obtain ⟨signal, flags⟩ := ended
      cases signal with
      | next => exact absurd rfl (hEnds flags)
      | stop =>
          simp only [Receiver.act, conclude, ← bind_pure_comp, bind_assoc, pure_bind]
          by_cases hResult : flags.result || allow
          · simp only [hResult, if_true, settle]
          · simp only [hResult, if_false, Bool.false_eq_true, settle]
      | fatal =>
          simp only [Receiver.act, ← bind_pure_comp, bind_assoc, throw_bind]
          rfl
      | threw e =>
          simp only [Receiver.act, ← bind_pure_comp, bind_assoc, throw_bind]
          rfl

/--
**A frame is classified as if there were no handlers.**  Whatever the handlers do to the
state in the middle of the walk, `parse` comes to the end it would come to if it had
looked at the whole text first and made its callbacks afterwards.  The classification makes
one callback exactly if it returns `true`, and none otherwise; where the handler throws, it
has been called although `parse` does not return.
-/
theorem parse_classifies (r : Reception) :
    parse c dispatcher allow exchange streamId text r =
      concludeParse text
        ((do
          ((c.document text).classify c.utils c.method allow).2.forM
            (Receiver.dispatchHelper c dispatcher exchange streamId text)
          settle ((c.document text).classify c.utils c.method allow).1) r) ∧
    ((c.document text).classify c.utils c.method allow).2.length =
      if ((c.document text).classify c.utils c.method allow).1 = .returned true then 1 else 0 := by
  refine ⟨?_, ?_⟩
  · unfold parse
    rw [Receiver.dispatch_eq]
  · obtain ⟨hAtMost, hOnce⟩ := (c.document text).classify_singleShot c.utils c.method allow
    by_cases hReturned :
        ((c.document text).classify c.utils c.method allow).1 = .returned true
    · rw [if_pos hReturned]
      exact hOnce.mpr hReturned
    · have hNotOne := mt hOnce.mp hReturned
      rw [if_neg hReturned]
      omega

end Refinement

/-! ## What a frame does -/

/-- What comes of one frame. -/
structure Outcome where
  survived : Bool
  events : List Published := []
  touched : List UInt16 := []
  reported : List String := []

/-- What comes of a text once its payload is known. -/
def Payload.outcome (exchange : String) (streamId : UInt16) (text : String) :
    Payload → Outcome
  | .pong => { survived := true, touched := [streamId] }
  | .response => { survived := true, touched := [streamId] }
  | .update m =>
      { survived := m.accepted
        events := m.brought exchange streamId
        touched := [streamId]
        reported := if m.accepted then [] else [text] }

/-- What comes of a frame, whatever has happened before. -/
def Frame.outcome (c : Codec) (allow : Bool) (exchange : String) :
    UInt16 × Frame → Outcome
  | (_, .binary) => { survived := false }
  | (streamId, .text message) =>
      match (c.document message).classify c.utils c.method allow with
      | (.fatal, _) => { survived := false }
      | (.threw _, _) => { survived := false, reported := [message] }
      | (.returned _, []) => { survived := true, reported := [message] }
      | (.returned _, callback :: _) =>
          match c.payload message callback with
          | .error _ => { survived := false, reported := [message] }
          | .ok payload => payload.outcome exchange streamId message

/-- The parser understands the frame. -/
def Frame.understood (c : Codec) (allow : Bool) : UInt16 × Frame → Bool
  | (_, .binary) => false
  | (_, .text message) =>
      ((c.document message).classify c.utils c.method allow).1 = .returned true

/-- The message a frame delivers, if it delivers one. -/
def Frame.message (c : Codec) (allow : Bool) : UInt16 × Frame → Option (UInt16 × Message)
  | (_, .binary) => none
  | (streamId, .text message) =>
      match (c.document message).classify c.utils c.method allow with
      | (.returned _, callback :: _) =>
          match c.payload message callback with
          | .ok (.update m) => some (streamId, m)
          | _ => none
      | _ => none

/-! ## One frame -/

/-- What has been gained by an outcome. -/
structure Reception.Gains (o : Outcome) (r r' : Reception) : Prop where
  published : r'.feed.published = r.feed.published ++ o.events
  touched : r'.touched = r.touched ++ o.touched
  reported : r'.reported = r.reported ++ o.reported

/-- How a step of the process ends that has this outcome and this message.  It has the
outcome where the process lives on, or the dispatcher takes every event; and in any case
the dispatcher has taken the first of the events. -/
structure Fate.Follows (u : Utils) (dispatcher : Dispatcher) (exchange : String) (o : Outcome)
    (message : Option (UInt16 × Message)) (r : Reception) (fate : Fate Reception) : Prop where
  whole : fate.alive = true ∨ dispatcher.TakesAll →
    fate.alive = o.survived ∧ r.Gains o fate.state
  first : ∃ taken, taken <+: o.events ∧
    fate.state.feed.published = r.feed.published ++ taken
  handled : fate.alive = true →
    handleAll u dispatcher exchange message.toList r.feed = .ok () fate.state.feed

/-- No message is handled. -/
theorem Fate.Follows.of_same {u : Utils} {dispatcher : Dispatcher} {exchange : String}
    {o : Outcome} {r : Reception} {fate : Fate Reception} (hAlive : fate.alive = o.survived)
    (hGains : r.Gains o fate.state) (hFeed : fate.state.feed = r.feed) :
    Fate.Follows u dispatcher exchange o none r fate where
  whole _ := ⟨hAlive, hGains⟩
  first := ⟨o.events, List.prefix_rfl, hGains.published⟩
  handled _ := by
    rw [hFeed]
    rfl

theorem onFeed_returns {m : FeedHandler Unit} (r : Reception) {f : Feed}
    (h : m r.feed = .ok () f) : onFeed m r = .ok () { r with feed := f } := by
  unfold onFeed
  rw [h]

theorem onFeed_throws {m : FeedHandler Unit} (r : Reception) {f : Feed} {fault : Fault}
    (h : m r.feed = .error fault f) : onFeed m r = .error fault { r with feed := f } := by
  unfold onFeed
  rw [h]

section Step

variable (c : Codec) (dispatcher : Dispatcher) (allow : Bool) (exchange : String)
  (streamId : UInt16) (text : String)

/-- An update that is handled ends the parser's work. -/
theorem follows_update (m : Message) (r : Reception) :
    Fate.Follows c.utils dispatcher exchange
      ((Payload.update m).outcome exchange streamId text) (some (streamId, m)) r
      (concludeParse text
        (((Payload.update m).handle c.utils dispatcher exchange streamId >>=
          fun _ => pure true) r)) := by
  have hEnds := ends_handle c.utils dispatcher exchange streamId m r.feed
  generalize hRun : m.handle c.utils dispatcher exchange streamId r.feed = result at hEnds
  have hHandle : ((Payload.update m).handle c.utils dispatcher exchange streamId >>=
      fun _ => pure true) r =
        (onFeed (m.handle c.utils dispatcher exchange streamId) >>= fun _ => pure true)
          { r with touched := r.touched ++ [streamId] } := rfl
  have hAll : handleAll c.utils dispatcher exchange [(streamId, m)] =
      m.handle c.utils dispatcher exchange streamId := bind_pure_unit
  cases hEnds with
  | returned f' hAccepted hPublished =>
      rw [hHandle, bind_ok
        (onFeed_returns { r with touched := r.touched ++ [streamId] } hRun)]
      refine ⟨fun _ => ⟨hAccepted.symm, hPublished, rfl, ?_⟩,
        ⟨_, List.prefix_rfl, hPublished⟩, fun _ => ?_⟩
      · show _ = _ ++ if m.accepted then [] else [text]
        rw [if_pos hAccepted]
        exact (List.append_nil _).symm
      · show handleAll c.utils dispatcher exchange [(streamId, m)] r.feed = _
        rw [hAll]
        exact hRun
  | threw f' hAccepted hPublished =>
      rw [hHandle, bind_error
        (onFeed_throws { r with touched := r.touched ++ [streamId] } hRun)]
      refine ⟨fun _ => ⟨hAccepted.symm, hPublished, rfl, ?_⟩,
        ⟨_, List.prefix_rfl, hPublished⟩, fun hAlive => nomatch hAlive⟩
      show _ = _ ++ if m.accepted then [] else [text]
      rw [hAccepted]
      rfl
  | refused f' fault taken e refusal hTaken hRefused hPublished =>
      rw [hHandle, bind_error
        (onFeed_throws { r with touched := r.touched ++ [streamId] } hRun)]
      have hEnded (fate : Fate Reception) (hAlive : fate.alive = false)
          (hFeed : fate.state.feed = f') :
          Fate.Follows c.utils dispatcher exchange
            ((Payload.update m).outcome exchange streamId text) (some (streamId, m)) r fate := by
        refine ⟨fun hWhole => ?_, ⟨taken, ?_, by rw [hFeed]; exact hPublished⟩,
          fun hAlive' => ?_⟩
        · cases hWhole with
          | inl hAlive' =>
              rw [hAlive] at hAlive'
              cases hAlive'
          | inr hTakes =>
              rw [hTakes] at hRefused
              cases hRefused
        · exact (List.prefix_append taken [e]).trans hTaken
        · rw [hAlive] at hAlive'
          cases hAlive'
      cases fault with
      | fatal => exact hEnded _ rfl rfl
      | threw thrown => exact hEnded _ rfl rfl

/-- **One frame**, whatever has happened before and whatever the dispatcher does. -/
theorem follows_parse (r : Reception) :
    Fate.Follows c.utils dispatcher exchange (Frame.outcome c allow exchange (streamId, .text text))
      (Frame.message c allow (streamId, .text text)) r
      (parse c dispatcher allow exchange streamId text r) := by
  unfold parse Frame.outcome Frame.message
  rw [Receiver.dispatch_eq]
  obtain hFatal | ⟨e, hThrew⟩ | hIgnored | ⟨callback, hCallback⟩ :=
    (c.document text).classify_cases c.utils c.method allow
  · simp only [hFatal]
    exact .of_same rfl
      ⟨(List.append_nil _).symm, (List.append_nil _).symm, (List.append_nil _).symm⟩ rfl
  · simp only [hThrew]
    exact .of_same rfl ⟨(List.append_nil _).symm, (List.append_nil _).symm, rfl⟩ rfl
  · simp only [hIgnored]
    exact .of_same rfl ⟨(List.append_nil _).symm, (List.append_nil _).symm, rfl⟩ rfl
  · have hOne : List.forM [callback] (Receiver.dispatchHelper c dispatcher exchange streamId text) =
        Receiver.dispatchHelper c dispatcher exchange streamId text callback := bind_pure_unit
    simp only [hCallback, settle, hOne]
    cases hPayload : c.payload text callback with
    | error e =>
        have hHelper : Receiver.dispatchHelper c dispatcher exchange streamId text callback =
            throw (.threw e) := by
          unfold Receiver.dispatchHelper
          rw [hPayload]
        rw [hHelper]
        exact .of_same rfl ⟨(List.append_nil _).symm, (List.append_nil _).symm, rfl⟩ rfl
    | ok payload =>
        have hHelper : Receiver.dispatchHelper c dispatcher exchange streamId text callback =
            payload.handle c.utils dispatcher exchange streamId := by
          unfold Receiver.dispatchHelper
          rw [hPayload]
        rw [hHelper]
        cases payload with
        | pong => exact .of_same rfl ⟨(List.append_nil _).symm, rfl, (List.append_nil _).symm⟩ rfl
        | response =>
            exact .of_same rfl ⟨(List.append_nil _).symm, rfl, (List.append_nil _).symm⟩ rfl
        | update m => exact follows_update c dispatcher exchange streamId text m r

end Step

/-! ## A process -/

section Run

variable (c : Codec) (dispatcher : Dispatcher) (allow : Bool) (exchange : String)

theorem follows_onFrame (r : Reception) (frame : UInt16 × Frame) :
    Fate.Follows c.utils dispatcher exchange (Frame.outcome c allow exchange frame)
      (Frame.message c allow frame) r (onFrame c dispatcher allow exchange r frame) := by
  obtain ⟨streamId, frame⟩ := frame
  cases frame with
  | text message => exact follows_parse c dispatcher allow exchange streamId message r
  | binary =>
      exact .of_same rfl
        ⟨(List.append_nil _).symm, (List.append_nil _).symm, (List.append_nil _).symm⟩ rfl

/-- What a message brings is published under the stream it came on. -/
theorem streamId_of_mem_brought {m : Message} {streamId : UInt16} {event : Published}
    (h : event ∈ m.brought exchange streamId) : event.streamId = streamId := by
  cases m with
  | bookTickerUpdate update =>
      obtain ⟨item, -, rfl⟩ := List.mem_map.mp h
      rfl
  | depthUpdate update =>
      change event ∈ if 0 ≤ update.params.data.updateId then _ else [] at h
      split at h
      · rw [List.mem_singleton.mp h]
        rfl
      · cases h
  | tradesUpdate update =>
      exact streamId_of_mem_events (m := (streamId, .tradesUpdate update)) exchange h
  | marketUpdate update =>
      exact streamId_of_mem_events (m := (streamId, .marketUpdate update)) exchange h
  | marketTodayUpdate update => cases h

/-- What comes of a frame brings events of its own stream only. -/
theorem streamId_of_mem_outcome {frame : UInt16 × Frame} {event : Published}
    (h : event ∈ (Frame.outcome c allow exchange frame).events) :
    event.streamId = frame.1 := by
  obtain ⟨streamId, frame⟩ := frame
  cases frame with
  | binary => cases h
  | text message =>
      unfold Frame.outcome at h
      dsimp only at h
      split at h
      · cases h
      · cases h
      · cases h
      · split at h
        · cases h
        · rename_i payload _
          cases payload with
          | pong => cases h
          | response => cases h
          | update m => exact streamId_of_mem_brought exchange h

/-- The frames a process gets to see: up to the first one that ends it. -/
def seen (frames : List (UInt16 × Frame)) : List (UInt16 × Frame) :=
  processed (fun frame => (Frame.outcome c allow exchange frame).survived) frames

/-- Filtering by stream goes through to the frames. -/
theorem filter_outcomes (streamId : UInt16) (frames : List (UInt16 × Frame)) :
    (frames.flatMap fun frame => (Frame.outcome c allow exchange frame).events).filter
        (·.streamId = streamId) =
      (frames.filter (·.1 = streamId)).flatMap fun frame =>
        (Frame.outcome c allow exchange frame).events := by
  induction frames with
  | nil => rfl
  | cons frame frames ih =>
      rw [List.flatMap_cons, List.filter_append, ih]
      by_cases hStream : frame.1 = streamId
      · rw [List.filter_cons_of_pos (by simpa using hStream), List.flatMap_cons,
          List.filter_eq_self.mpr fun event hEvent => by
            simpa using (streamId_of_mem_outcome c allow exchange hEvent).trans hStream]
      · rw [List.filter_cons_of_neg (by simpa using hStream),
          List.filter_eq_nil_iff.mpr fun event hEvent => by
            simpa [streamId_of_mem_outcome c allow exchange hEvent] using hStream,
          List.nil_append]

/--
**What becomes of a process** whose dispatcher takes every event.  It lives on exactly if it
survives every frame it is given, each for itself.  What it publishes, which connections it
touches and what it reports comes from the frames up to the first one it does not survive,
in order, and under each stream from that stream's frames alone.
-/
theorem process_outcome (hTakes : dispatcher.TakesAll) (r : Reception)
    (frames : List (UInt16 × Frame)) :
    ((process (onFrame c dispatcher allow exchange) r frames).alive = true ↔
      ∀ frame ∈ frames, (Frame.outcome c allow exchange frame).survived = true) ∧
    (process (onFrame c dispatcher allow exchange) r frames).state.feed.published =
      r.feed.published ++ (seen c allow exchange frames).flatMap
        (fun frame => (Frame.outcome c allow exchange frame).events) ∧
    (process (onFrame c dispatcher allow exchange) r frames).state.touched =
      r.touched ++ (seen c allow exchange frames).flatMap
        (fun frame => (Frame.outcome c allow exchange frame).touched) ∧
    (process (onFrame c dispatcher allow exchange) r frames).state.reported =
      r.reported ++ (seen c allow exchange frames).flatMap
        (fun frame => (Frame.outcome c allow exchange frame).reported) ∧
    ∀ streamId,
      ((seen c allow exchange frames).flatMap
        (fun frame => (Frame.outcome c allow exchange frame).events)).filter
          (·.streamId = streamId) =
      ((seen c allow exchange frames).filter (·.1 = streamId)).flatMap
        (fun frame => (Frame.outcome c allow exchange frame).events) := by
  have hWhole (r : Reception) (frame : UInt16 × Frame) :=
    (follows_onFrame c dispatcher allow exchange r frame).whole (.inr hTakes)
  have hAlive (r : Reception) (frame : UInt16 × Frame) := (hWhole r frame).1
  have hGains (r : Reception) (frame : UInt16 × Frame) := (hWhole r frame).2
  refine ⟨?_, ?_, ?_, ?_, fun streamId => filter_outcomes c allow exchange streamId _⟩
  · rw [alive_process hAlive, List.all_eq_true]
  · exact log_process (fun r => r.feed.published) hAlive
      (fun r frame => (hGains r frame).published) r frames
  · exact log_process Reception.touched hAlive (fun r frame => (hGains r frame).touched) r frames
  · exact log_process Reception.reported hAlive
      (fun r frame => (hGains r frame).reported) r frames

/-! ## A process that lives -/

/-- A frame that is survived has left one entry, in one of two lists, and its message, if
it has one, is published as it is. -/
structure Outcome.Sound (o : Outcome) (frame : UInt16 × Frame) : Prop where
  touched : o.touched = if Frame.understood c allow frame then [frame.1] else []
  reported : o.reported.map Frame.text =
    if Frame.understood c allow frame then [] else [frame.2]
  events : o.events =
    (Frame.message c allow frame).toList.flatMap fun m => m.2.events exchange m.1

theorem sound_outcome {frame : UInt16 × Frame}
    (h : (Frame.outcome c allow exchange frame).survived = true) :
    (Frame.outcome c allow exchange frame).Sound c allow exchange frame := by
  obtain ⟨streamId, frame⟩ := frame
  cases frame with
  | binary => cases h
  | text message =>
      unfold Frame.outcome at h ⊢
      obtain hFatal | ⟨e, hThrew⟩ | hIgnored | ⟨callback, hCallback⟩ :=
        (c.document message).classify_cases c.utils c.method allow
      · simp only [hFatal, Bool.false_eq_true] at h
      · simp only [hThrew, Bool.false_eq_true] at h
      · refine ⟨?_, ?_, ?_⟩ <;> simp [Frame.understood, Frame.message, hIgnored]
      · simp only [hCallback] at h ⊢
        cases hPayload : c.payload message callback with
        | error e => simp only [hPayload, Bool.false_eq_true] at h
        | ok payload =>
            rw [hPayload] at h
            cases payload with
            | pong =>
                refine ⟨?_, ?_, ?_⟩ <;>
                  simp [Frame.understood, Frame.message, hCallback, hPayload, Payload.outcome]
            | response =>
                refine ⟨?_, ?_, ?_⟩ <;>
                  simp [Frame.understood, Frame.message, hCallback, hPayload, Payload.outcome]
            | update m =>
                have hAccepted : m.accepted = true := h
                have hEvents := Message.brought_eq_events exchange streamId hAccepted
                refine ⟨?_, ?_, ?_⟩ <;>
                  simp [Frame.understood, Frame.message, hCallback, hPayload, Payload.outcome,
                    hAccepted, hEvents]

/-- What a frame leaves in a process that lives. -/
theorem sound_of_alive {r : Reception} {frame : UInt16 × Frame}
    (hAlive : (onFrame c dispatcher allow exchange r frame).alive = true) :
    (Frame.outcome c allow exchange frame).Sound c allow exchange frame ∧
      r.Gains (Frame.outcome c allow exchange frame)
        (onFrame c dispatcher allow exchange r frame).state := by
  obtain ⟨hSurvived, hGains⟩ :=
    (follows_onFrame c dispatcher allow exchange r frame).whole (.inl hAlive)
  exact ⟨sound_outcome c allow exchange (hSurvived.symm.trans hAlive), hGains⟩

/-- The messages of the frames are handled one after the other. -/
theorem handleAll_of_alive (r : Reception) (frames : List (UInt16 × Frame))
    (hAlive : (process (onFrame c dispatcher allow exchange) r frames).alive = true) :
    handleAll c.utils dispatcher exchange (frames.filterMap (Frame.message c allow)) r.feed =
      .ok () (process (onFrame c dispatcher allow exchange) r frames).state.feed := by
  induction frames generalizing r with
  | nil => rfl
  | cons frame frames ih =>
      have hFirst := alive_of_process_cons hAlive
      rw [process, if_pos hFirst] at hAlive ⊢
      have hHandled := (follows_onFrame c dispatcher allow exchange r frame).handled hFirst
      have hRest := ih (onFrame c dispatcher allow exchange r frame).state hAlive
      cases hMessage : Frame.message c allow frame with
      | none =>
          rw [hMessage] at hHandled
          have hSame : r.feed = (onFrame c dispatcher allow exchange r frame).state.feed :=
            (EStateM.Result.ok.inj hHandled).2
          rw [List.filterMap_cons_none hMessage, hSame]
          exact hRest
      | some m =>
          rw [hMessage] at hHandled
          have hAll : handleAll c.utils dispatcher exchange [m] =
              m.2.handle c.utils dispatcher exchange m.1 := bind_pure_unit
          rw [Option.toList_some, hAll] at hHandled
          rw [List.filterMap_cons_some hMessage]
          exact (bind_ok hHandled _).trans hRest

theorem flatMap_of_pick {α β : Type} (p : α → Bool) (f : α → β) (items : List α) :
    (items.flatMap fun item => if p item then [f item] else []) =
      (items.filter p).map f := by
  induction items with
  | nil => rfl
  | cons item items ih =>
      by_cases hPicked : p item
      · rw [List.flatMap_cons, ih, if_pos hPicked, List.filter_cons_of_pos hPicked,
          List.map_cons, List.singleton_append]
      · rw [List.flatMap_cons, ih, if_neg hPicked, List.filter_cons_of_neg hPicked,
          List.nil_append]

/--
**A process that lives loses nothing**, whatever its dispatcher may do.  It has handled and
published the messages its frames deliver, in order; it has touched the connections of
exactly the frames that it has understood, and reported exactly the others, one by one.
-/
theorem living_process_publishes (r : Reception) (frames : List (UInt16 × Frame))
    (hAlive : (process (onFrame c dispatcher allow exchange) r frames).alive = true) :
    handleAll c.utils dispatcher exchange (frames.filterMap (Frame.message c allow)) r.feed =
      .ok () (process (onFrame c dispatcher allow exchange) r frames).state.feed ∧
    (process (onFrame c dispatcher allow exchange) r frames).state.feed.published =
      r.feed.published ++ (frames.filterMap (Frame.message c allow)).flatMap
        (fun m => m.2.events exchange m.1) ∧
    (process (onFrame c dispatcher allow exchange) r frames).state.touched =
      r.touched ++ (frames.filter (Frame.understood c allow)).map Prod.fst ∧
    (process (onFrame c dispatcher allow exchange) r frames).state.reported.map Frame.text =
      r.reported.map Frame.text ++
        (frames.filter fun frame => !Frame.understood c allow frame).map Prod.snd := by
  refine ⟨handleAll_of_alive c dispatcher allow exchange r frames hAlive, ?_, ?_, ?_⟩
  · rw [List.filterMap_eq_flatMap_toList, List.flatMap_assoc]
    refine log_of_alive (fun r => r.feed.published) (fun r frame hStep => ?_) hAlive
    obtain ⟨hSound, hGains⟩ := sound_of_alive c dispatcher allow exchange hStep
    rw [← hSound.events]
    exact hGains.published
  · rw [← flatMap_of_pick]
    refine log_of_alive Reception.touched (fun r frame hStep => ?_) hAlive
    obtain ⟨hSound, hGains⟩ := sound_of_alive c dispatcher allow exchange hStep
    rw [← hSound.touched]
    exact hGains.touched
  · rw [← flatMap_of_pick]
    refine log_of_alive (fun r => r.reported.map Frame.text) (fun r frame hStep => ?_) hAlive
    obtain ⟨hSound, hGains⟩ := sound_of_alive c dispatcher allow exchange hStep
    have hReported := hSound.reported
    rw [hGains.reported, List.map_append, hReported]
    cases Frame.understood c allow frame <;> rfl

end Run

/-- The answer to a ping, as it arrives. -/
def pongText : String := "\x7b\"error\":null,\"result\":\"pong\",\"id\":0\x7d"

/-- A message the gateway has no handler for. -/
def candlesText : String :=
  "\x7b\"id\":null,\"method\":\"candles_update\",\"params\":[]\x7d"

/-- An update without a level. -/
def depthText : String :=
  "\x7b\"method\":\"depth_update\",\"params\":[true,\x7b\"update_id\":7\x7d,\"A\"],\"id\":null\x7d"

/-- The update of `depthText`. -/
def emptyBook : DepthUpdate where
  params :=
    { snapshot := true
      data :=
        { timestamp := 0
          updateId := 7
          pastUpdateId := 0
          bids := []
          asks := []
          eventTime := 0 }
      name := "A" }

/-- The tokenizer and the decoders on the three texts. -/
def threeTexts : Codec where
  utils := .standard
  document text :=
    if text = pongText then
      { members := [("error", .null), ("result", .string "pong"), ("id", .int64 0)] }
    else if text = candlesText then
      { members := [("id", .null), ("method", .string "candles_update"), ("params", .array [])] }
    else if text = depthText then
      { members :=
          [ ("method", .string "depth_update"),
            ("params", .array [.bool true, .object [("update_id", .int64 7)], .string "A"]),
            ("id", .null) ] }
    else { members := [], broken := some (.other "core::json") }
  method := .strict
  pong _ := .ok ()
  response _ := .ok ()
  bookTickerUpdate _ := .error (.other "core::json")
  depthUpdate text := if text = depthText then .ok emptyBook else .error (.other "core::json")
  tradesUpdate _ := .error (.other "core::json")
  marketUpdate _ := .error (.other "core::json")
  marketTodayUpdate _ := .error (.other "core::json")

/-- The three texts, on two streams. -/
def threeFrames : List (UInt16 × Frame) :=
  [(2, .text pongText), (3, .text candlesText), (3, .text depthText)]

theorem process_outcome_three_texts :
    takesAll.TakesAll ∧
    ((process (onFrame threeTexts takesAll false "whitebit") {} threeFrames).alive = true ↔
      ∀ frame ∈ threeFrames,
        (Frame.outcome threeTexts false "whitebit" frame).survived = true) ∧
    (process (onFrame threeTexts takesAll false "whitebit") {} threeFrames).state.touched =
      (seen threeTexts false "whitebit" threeFrames).flatMap
        (fun frame => (Frame.outcome threeTexts false "whitebit" frame).touched) := by
  have hTakes : takesAll.TakesAll := fun _ _ => rfl
  obtain ⟨hAlive, -, hTouched, -⟩ :=
    process_outcome threeTexts takesAll false "whitebit" hTakes {} threeFrames
  exact ⟨hTakes, hAlive, hTouched⟩

/-- A dispatcher that does not take a change to a book it has not got. -/
def snapshotFirst : Dispatcher
  | taken, .marketByPriceUpdate e =>
      let isKnown := taken.any fun
        | .marketByPriceUpdate e' => e'.symbol = e.symbol
        | _ => false
      if e.updateType = .incremental ∧ !isKnown then some (.badState "no snapshot") else none
  | _, _ => none

theorem living_process_publishes_three_texts :
    (process (onFrame threeTexts snapshotFirst true "whitebit") {} threeFrames).alive = true ∧
    handleAll .standard snapshotFirst "whitebit"
        (threeFrames.filterMap (Frame.message threeTexts true)) {} =
      .ok () (process (onFrame threeTexts snapshotFirst true "whitebit") {}
        threeFrames).state.feed ∧
    (process (onFrame threeTexts snapshotFirst true "whitebit") {} threeFrames).state.touched =
      (threeFrames.filter (Frame.understood threeTexts true)).map Prod.fst := by
  have hAlive : (process (onFrame threeTexts snapshotFirst true "whitebit") {}
      threeFrames).alive = true := by
    decide +kernel
  obtain ⟨hRun, -, hTouched, -⟩ :=
    living_process_publishes threeTexts snapshotFirst true "whitebit" {} threeFrames hAlive
  exact ⟨hAlive, hRun, hTouched⟩

/-- A change to the book arrives before the snapshot, and ends the process. -/
example : (process (onFrame { threeTexts with
      depthUpdate := fun _ => .ok { params := { emptyBook.params with snapshot := false } } }
    snapshotFirst true "whitebit") {} threeFrames).alive = false := by
  decide +kernel

/-- Where unknown methods are not allowed, the second text ends the process. -/
example : (process (onFrame threeTexts takesAll false "whitebit") {} threeFrames).alive =
    false := by
  decide +kernel

end RoqWhitebit.Gateway
