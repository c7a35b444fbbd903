import RoqWhitebit.Exceptions
import RoqWhitebit.Gateway.Symbols
import RoqWhitebit.General.Throwing

/-!
# A market-data stream

`gateway::MarketData` serves one slice of the shared list over one web-socket
connection.  Only a READY stream sends anything: the whole slice when the
connection becomes ready, and whatever the slice gains later when `subscribe` is
called with the old length of the list.

`sent` and `sentBefore` are what the exchange has been asked: the requests of the
present connection, and those of the connections before it.
-/

namespace RoqWhitebit.Gateway

open RoqWhitebit.General

/-- `roq::ConnectionStatus`, as far as this stream sets it. -/
inductive ConnectionStatus where
  | undefined
  | disconnected
  | ready
  deriving DecidableEq, Repr

/-- The five methods a stream subscribes to. -/
inductive SubscribeMethod where
  | bookTicker
  | depth
  | trades
  | market
  | marketToday
  deriving DecidableEq, Repr

/-- The name on the wire. -/
def SubscribeMethod.text : SubscribeMethod → String
  | .bookTicker => "bookTicker_subscribe"
  | .depth => "depth_subscribe"
  | .trades => "trades_subscribe"
  | .market => "market_subscribe"
  | .marketToday => "marketToday_subscribe"

/-- A subscribe request: the list-style one, and the depth-style one for a single
symbol, whose last parameter is always `true`. -/
inductive Request where
  | list (id : UInt64) (method : SubscribeMethod) (params : List Symbol)
  | level (id : UInt64) (method : SubscribeMethod) (symbol : Symbol) (limit : Nat)
  deriving DecidableEq, Repr

structure MarketData where
  streamId : UInt16
  index : Nat
  requestId : UInt64
  connectionStatus : ConnectionStatus := .undefined
  sent : List Request := []
  sentBefore : List Request := []
  deriving DecidableEq, Repr

namespace MarketData

/-- The constructor: `request_id_{stream_id_ * REQUEST_ID}`. -/
def create (streamId : UInt16) (index : Nat) : MarketData :=
  { streamId := streamId, index := index, requestId := streamId.toUInt64 * 1000000 }

def ready (md : MarketData) : Bool := md.connectionStatus = .ready

/-! ## Sending -/

/-- `++request_id_` -/
def nextRequestId : Throwing Exception MarketData UInt64 := do
  write fun md => { md with requestId := md.requestId + 1 }
  return (← read).requestId

/-- `(*connection_).send_text(message)` -/
def sendText (request : Request) : Throwing Exception MarketData Unit := do
  call
  write fun md => { md with sent := md.sent ++ [request] }

/-- `subscribe(method, symbols)` -/
def subscribeList (method : SubscribeMethod) (symbols : List Symbol) :
    Throwing Exception MarketData Unit := do
  let id ← nextRequestId
  sendText (.list id method symbols)

/-- `subscribe(method, symbols, limit)`: one request for each symbol. -/
def subscribeLevels (method : SubscribeMethod) (limit : Nat) :
    List Symbol → Throwing Exception MarketData Unit
  | [] => pure ()
  | symbol :: symbols => do
      let id ← nextRequestId
      sendText (.level id method symbol limit)
      subscribeLevels method limit symbols

/-- `subscribe(symbols)` -/
def subscribeSymbols (symbols : List Symbol) : Throwing Exception MarketData Unit :=
  if symbols.isEmpty then pure ()
  else do
    subscribeList .bookTicker symbols
    subscribeLevels .depth 100 symbols
    subscribeList .trades symbols
    subscribeList .market symbols
    subscribeList .marketToday symbols

/-- `subscribe(start_from)` -/
def subscribe (symbols : Symbols) (startFrom : Nat) :
    Throwing Exception MarketData Unit := do
  let md ← read
  if md.ready then subscribeSymbols (symbols.getSlice md.index startFrom) else pure ()

/-! ## Connection events -/

/-- `operator()(Trace<ConnectionStatus>, std::string_view)`: the new status is kept, and
then dispatched. -/
def onConnectionStatus (connectionStatus : ConnectionStatus) :
    Throwing Exception MarketData Unit := do
  write fun md => { md with connectionStatus := connectionStatus }
  call

/-- `operator()(Trace<web::socket::Disconnected>)` -/
def onDisconnected : Throwing Exception MarketData Unit := onConnectionStatus .disconnected

/-- The connection is a new one, on which nothing has been sent yet. -/
def renewed (md : MarketData) : MarketData :=
  { md with
    sentBefore := md.sentBefore ++ md.sent
    sent := [] }

/-- `operator()(Trace<web::socket::Ready>)` -/
def onReady (symbols : Symbols) : Throwing Exception MarketData Unit := do
  write renewed
  onConnectionStatus .ready
  subscribe symbols 0

/-! ## What is sent when nothing throws -/

/-- The identifier after one increment for each symbol. -/
def advance (id : UInt64) : List Symbol → UInt64
  | [] => id
  | _ :: symbols => advance (id + 1) symbols

/-- The depth-style requests after identifier `id`. -/
def levelRequests (id : UInt64) : List Symbol → List Request
  | [] => []
  | symbol :: symbols =>
      .level (id + 1) .depth symbol 100 :: levelRequests (id + 1) symbols

/-- The requests for some symbols after identifier `id`. -/
def requests (id : UInt64) (symbols : List Symbol) : List Request :=
  let next := advance (id + 1) symbols
  .list (id + 1) .bookTicker symbols :: levelRequests (id + 1) symbols ++
    [.list (next + 1) .trades symbols, .list (next + 2) .market symbols,
      .list (next + 3) .marketToday symbols]

/-- The stream after asking for some symbols. -/
def asked (symbols : List Symbol) (md : MarketData) : MarketData :=
  if symbols.isEmpty then md
  else
    { md with
      requestId := advance (md.requestId + 1) symbols + 3
      sent := md.sent ++ requests md.requestId symbols }

/-- The stream after `subscribe(start_from)`. -/
def subscribed (symbols : Symbols) (startFrom : Nat) (md : MarketData) : MarketData :=
  if md.ready then md.asked (symbols.getSlice md.index startFrom) else md

theorem subscribeLevels_quiet (symbols : List Symbol) (md : MarketData) :
    subscribeLevels .depth 100 symbols ⟨md, none⟩ =
      .ok () ⟨{ md with
        requestId := advance md.requestId symbols
        sent := md.sent ++ levelRequests md.requestId symbols }, none⟩ := by
  induction symbols generalizing md with
  | nil => simp [subscribeLevels, advance, levelRequests]
  | cons symbol symbols ih =>
      have hFirst : subscribeLevels .depth 100 (symbol :: symbols) ⟨md, none⟩ =
          subscribeLevels .depth 100 symbols
            ⟨{ md with
              requestId := md.requestId + 1
              sent := md.sent ++ [.level (md.requestId + 1) .depth symbol 100] },
              none⟩ := rfl
      rw [hFirst, ih]
      simp [advance, levelRequests]

theorem subscribeSymbols_quiet (symbols : List Symbol) (md : MarketData) :
    subscribeSymbols symbols ⟨md, none⟩ = .ok () ⟨md.asked symbols, none⟩ := by
  unfold subscribeSymbols asked
  cases hEmpty : symbols.isEmpty with
  | true => rfl
  | false =>
      simp only [Bool.false_eq_true, if_false]
      rw [bind_quiet (show subscribeList .bookTicker symbols ⟨md, none⟩ = .ok () ⟨_, none⟩
          from rfl), bind_quiet (subscribeLevels_quiet symbols _)]
      show EStateM.Result.ok () _ = EStateM.Result.ok () _
      simp [requests, UInt64.add_assoc]

theorem subscribe_quiet (symbols : Symbols) (startFrom : Nat) (md : MarketData) :
    subscribe symbols startFrom ⟨md, none⟩ =
      .ok () ⟨md.subscribed symbols startFrom, none⟩ := by
  show (if md.ready then subscribeSymbols (symbols.getSlice md.index startFrom)
    else pure ()) ⟨md, none⟩ = _
  unfold subscribed
  cases md.ready with
  | true => exact subscribeSymbols_quiet _ md
  | false => rfl

/-- The stream whose connection is lost. -/
def dropped (md : MarketData) : MarketData :=
  { md with
    connectionStatus := .disconnected }

/-- The stream on a new connection that is ready, before it subscribes. -/
def connected (md : MarketData) : MarketData :=
  { md with
    connectionStatus := .ready
    sentBefore := md.sentBefore ++ md.sent
    sent := [] }

/-- The stream once its connection is ready. -/
def readied (symbols : Symbols) (md : MarketData) : MarketData :=
  md.connected.subscribed symbols 0

theorem onDisconnected_quiet (md : MarketData) :
    onDisconnected ⟨md, none⟩ = .ok () ⟨md.dropped, none⟩ := rfl

theorem onReady_quiet (symbols : Symbols) (md : MarketData) :
    onReady symbols ⟨md, none⟩ = .ok () ⟨md.readied symbols, none⟩ :=
  subscribe_quiet symbols 0 md.connected

@[simp] theorem asked_index (symbols : List Symbol) (md : MarketData) :
    (md.asked symbols).index = md.index := by
  unfold asked
  split <;> rfl

@[simp] theorem asked_ready (symbols : List Symbol) (md : MarketData) :
    (md.asked symbols).ready = md.ready := by
  unfold asked
  split <;> rfl

@[simp] theorem subscribed_index (symbols : Symbols) (startFrom : Nat) (md : MarketData) :
    (md.subscribed symbols startFrom).index = md.index := by
  unfold subscribed
  split
  · exact asked_index _ md
  · rfl

@[simp] theorem subscribed_ready (symbols : Symbols) (startFrom : Nat) (md : MarketData) :
    (md.subscribed symbols startFrom).ready = md.ready := by
  unfold subscribed
  split
  · exact asked_ready _ md
  · rfl

@[simp] theorem readied_index (symbols : Symbols) (md : MarketData) :
    (md.readied symbols).index = md.index :=
  subscribed_index symbols 0 md.connected

@[simp] theorem dropped_index (md : MarketData) : md.dropped.index = md.index := rfl

@[simp] theorem dropped_ready (md : MarketData) : md.dropped.ready = false := rfl

/-! ## What a subscription leaves alone -/

/-- The stream is the same up to what it has sent. -/
structure SameStream (md md' : MarketData) : Prop where
  streamId : md'.streamId = md.streamId
  index : md'.index = md.index
  connectionStatus : md'.connectionStatus = md.connectionStatus

theorem SameStream.refl (md : MarketData) : SameStream md md := ⟨rfl, rfl, rfl⟩

theorem SameStream.trans (md md' md'' : MarketData) (h : SameStream md md')
    (h' : SameStream md' md'') : SameStream md md'' :=
  ⟨h'.streamId.trans h.streamId, h'.index.trans h.index,
    h'.connectionStatus.trans h.connectionStatus⟩

/-- Streams that are the same one by one have the same indices. -/
theorem SameStream.stream {mds mds' : List MarketData}
    (h : List.Forall₂ SameStream mds mds') {k : Nat} {md' : MarketData}
    (hGet : mds'[k]? = some md') : ∃ md, mds[k]? = some md ∧ SameStream md md' := by
  induction h generalizing k with
  | nil => exact nomatch hGet
  | cons hHead _ ih =>
      cases k with
      | zero =>
          obtain rfl := Option.some.inj hGet
          exact ⟨_, rfl, hHead⟩
      | succ k => exact ih hGet

theorem keeps_nextRequestId : Keeps SameStream nextRequestId := by
  refine Keeps.bind (keeps_write ?_) (fun _ => ?_) SameStream.trans
  · intro md
    exact ⟨rfl, rfl, rfl⟩
  · exact Keeps.bind (keeps_read SameStream.refl) (fun _ => keeps_pure SameStream.refl _)
      SameStream.trans

theorem keeps_sendText (request : Request) : Keeps SameStream (sendText request) := by
  refine Keeps.bind (keeps_call SameStream.refl) (fun _ => keeps_write ?_) SameStream.trans
  intro md
  exact ⟨rfl, rfl, rfl⟩

theorem keeps_subscribeList (method : SubscribeMethod) (symbols : List Symbol) :
    Keeps SameStream (subscribeList method symbols) :=
  Keeps.bind keeps_nextRequestId (fun _ => keeps_sendText _) SameStream.trans

theorem keeps_subscribeLevels (method : SubscribeMethod) (limit : Nat)
    (symbols : List Symbol) : Keeps SameStream (subscribeLevels method limit symbols) := by
  induction symbols with
  | nil => exact keeps_pure SameStream.refl ()
  | cons symbol symbols ih =>
      apply Keeps.bind keeps_nextRequestId _ SameStream.trans
      intro _
      exact Keeps.bind (keeps_sendText _) (fun _ => ih) SameStream.trans

theorem keeps_subscribeSymbols (symbols : List Symbol) :
    Keeps SameStream (subscribeSymbols symbols) := by
  unfold subscribeSymbols
  split
  · exact keeps_pure SameStream.refl ()
  · apply Keeps.bind (keeps_subscribeList _ _) _ SameStream.trans
    intro _
    apply Keeps.bind (keeps_subscribeLevels _ _ _) _ SameStream.trans
    intro _
    apply Keeps.bind (keeps_subscribeList _ _) _ SameStream.trans
    intro _
    exact Keeps.bind (keeps_subscribeList _ _) (fun _ => keeps_subscribeList _ _)
      SameStream.trans

/-- However it ends, a subscription only changes what has been sent. -/
theorem keeps_subscribe (symbols : Symbols) (startFrom : Nat) :
    Keeps SameStream (subscribe symbols startFrom) := by
  apply Keeps.bind (keeps_read SameStream.refl) _ SameStream.trans
  intro md
  split
  · exact keeps_subscribeSymbols _
  · exact keeps_pure SameStream.refl ()

end MarketData

end RoqWhitebit.Gateway
