import RoqWhitebit.Exceptions
import RoqWhitebit.Protocol.Json.Updates
import RoqWhitebit.Utils

/-!
# What a stream publishes

The handlers of the market-data messages turn a payload into events for the
dispatcher.  Books and trades go through buffers that all streams share: a handler
clears them, fills them from the payload, hands them out, and for trades clears them
again.

`published` is what the dispatcher has taken so far, with the contents the buffers had
when the event was handed out.  The dispatcher is not part of the repository: it is a
parameter, and may throw at any event.  An exception ends the process, so that no message
is handled after one.  The two buffers that only the dispatcher writes to are left out.
-/

namespace RoqWhitebit.Gateway

open RoqWhitebit.Protocol.Json

/-! ## Events -/

/-- `roq::UpdateType`, as far as the gateway sets it. -/
inductive UpdateType where
  | snapshot
  | incremental
  deriving DecidableEq, Repr

/-- `roq::MBPUpdate`: the fields that are not left at their defaults. -/
structure MBPUpdate where
  price : Double
  quantity : Double
  impliedQuantity : Double
  deriving DecidableEq, Repr

/-- `roq::Trade` -/
structure Trade where
  side : Side
  price : Double
  quantity : Double
  tradeId : String
  deriving DecidableEq, Repr

/-- `roq::StatisticsType`, as far as the gateway sets it. -/
inductive StatisticsType where
  | openPrice
  | highestTradedPrice
  | lowestTradedPrice
  | closePrice
  | tradeVolume
  deriving DecidableEq, Repr

/-- `roq::Statistics` -/
structure Statistics where
  type : StatisticsType
  value : Double
  deriving DecidableEq, Repr

/-- `roq::TopOfBook` with its layer. -/
structure TopOfBook where
  streamId : UInt16
  exchange : String
  symbol : Symbol
  bidPrice : Double
  bidQuantity : Double
  askPrice : Double
  askQuantity : Double
  updateType : UpdateType
  exchangeTimeUtc : Int
  exchangeSequence : UInt64
  sendingTimeUtc : Int
  deriving DecidableEq

/-- `roq::MarketByPriceUpdate` -/
structure MarketByPriceUpdate where
  streamId : UInt16
  exchange : String
  symbol : Symbol
  bids : List MBPUpdate
  asks : List MBPUpdate
  updateType : UpdateType
  exchangeTimeUtc : Int
  exchangeSequence : UInt64
  deriving DecidableEq

/-- `roq::TradeSummary` -/
structure TradeSummary where
  streamId : UInt16
  exchange : String
  symbol : Symbol
  trades : List Trade
  deriving DecidableEq

/-- `roq::StatisticsUpdate` -/
structure StatisticsUpdate where
  streamId : UInt16
  exchange : String
  symbol : Symbol
  statistics : List Statistics
  updateType : UpdateType
  deriving DecidableEq

/-- An event for the dispatcher. -/
inductive Published where
  | topOfBook (e : TopOfBook)
  | marketByPriceUpdate (e : MarketByPriceUpdate)
  | tradeSummary (e : TradeSummary)
  | statisticsUpdate (e : StatisticsUpdate)
  deriving DecidableEq

def Published.streamId : Published → UInt16
  | .topOfBook e => e.streamId
  | .marketByPriceUpdate e => e.streamId
  | .tradeSummary e => e.streamId
  | .statisticsUpdate e => e.streamId

/-! ## Handlers -/

/-- `server::Dispatcher`: what it throws where it does not take an event, given the events
it has taken before. -/
abbrev Dispatcher := List Published → Published → Option Exception

/-- It takes every event. -/
def Dispatcher.TakesAll (dispatcher : Dispatcher) : Prop :=
  ∀ taken e, dispatcher taken e = none

/-- The buffers of `gateway::Shared`, and what has been published. -/
structure Feed where
  bids : List MBPUpdate := []
  asks : List MBPUpdate := []
  trades : List Trade := []
  published : List Published := []

/-- A handler of one message. -/
abbrev FeedHandler := EStateM Fault Feed

/-- `utils::safe_cast` to an unsigned integer. -/
def safeCast (u : Utils) (n : Int64) : FeedHandler UInt64 :=
  match u.safeCast n with
  | none => throw (.threw (.other "safe_cast"))
  | some result => pure result

/-- `create_trace_and_dispatch` -/
def dispatch (dispatcher : Dispatcher) (e : Published) : FeedHandler Unit := do
  let shared ← get
  match dispatcher shared.published e with
  | none => set { shared with published := shared.published ++ [e] }
  | some refusal => throw (.threw refusal)

/-- The `try` block of the depth handler: a `BadState` is fatal. -/
def dispatchBook (dispatcher : Dispatcher) (e : MarketByPriceUpdate) : FeedHandler Unit :=
  try
    dispatch dispatcher (.marketByPriceUpdate e)
  catch
    | .threw (.badState _) => throw .fatal
    | fault => throw fault

/-- The lambda `helper` of the depth handler. -/
def mbpUpdate (item : DepthUpdateParamsItemDataLevel) : MBPUpdate :=
  { price := item.price, quantity := item.amount, impliedQuantity := none }

/-- One trade of the trades handler.  `trade_id` has room for every 64-bit number. -/
def trade (item : TradesUpdateParamsItemItem) : Trade :=
  { side := item.type.map
    price := item.price
    quantity := item.amount
    tradeId := toString item.id.toInt }

section Handlers

variable (u : Utils) (dispatcher : Dispatcher) (exchange : String) (streamId : UInt16)

/-- `operator()(Trace<protocol::json::BookTickerUpdate>)` -/
def bookTickerUpdate (update : BookTickerUpdate) : FeedHandler Unit :=
  update.params.forM fun item => do
    let exchangeSequence ← safeCast u item.updateId
    dispatch dispatcher (.topOfBook
      { streamId := streamId
        exchange := exchange
        symbol := item.market
        bidPrice := item.bestBidPrice
        bidQuantity := item.bestBidAmount
        askPrice := item.bestAskPrice
        askQuantity := item.bestAskAmount
        updateType := .incremental
        exchangeTimeUtc := item.transactionTime
        exchangeSequence := exchangeSequence
        sendingTimeUtc := item.messageTime })

/-- `operator()(Trace<protocol::json::DepthUpdate>)` -/
def depthUpdate (update : DepthUpdate) : FeedHandler Unit := do
  modify fun f => { f with bids := [] }
  modify fun f => { f with asks := [] }
  update.params.data.bids.forM fun item =>
    modify fun f => { f with bids := f.bids ++ [mbpUpdate item] }
  update.params.data.asks.forM fun item =>
    modify fun f => { f with asks := f.asks ++ [mbpUpdate item] }
  let shared ← get
  let exchangeSequence ← safeCast u update.params.data.updateId
  dispatchBook dispatcher
    { streamId := streamId
      exchange := exchange
      symbol := update.params.name
      bids := shared.bids
      asks := shared.asks
      updateType := if update.params.snapshot then .snapshot else .incremental
      exchangeTimeUtc := update.params.data.timestamp
      exchangeSequence := exchangeSequence }

/-- `operator()(Trace<protocol::json::TradesUpdate>)` -/
def tradesUpdate (update : TradesUpdate) : FeedHandler Unit := do
  modify fun f => { f with trades := [] }
  update.params.data.forM fun item =>
    modify fun f => { f with trades := f.trades ++ [trade item] }
  let shared ← get
  if shared.trades.isEmpty then pure ()
  else do
    dispatch dispatcher (.tradeSummary
      { streamId := streamId
        exchange := exchange
        symbol := update.params.name
        trades := shared.trades })
    modify fun f => { f with trades := [] }

/-- The array of the market handler: the opening price is the item's `high`. -/
def marketStatistics (data : MarketUpdateParamsItemItem) : List Statistics :=
  [ { type := .openPrice, value := data.high },
    { type := .highestTradedPrice, value := data.high },
    { type := .lowestTradedPrice, value := data.low },
    { type := .closePrice, value := data.close },
    { type := .tradeVolume, value := data.volume } ]

/-- `operator()(Trace<protocol::json::MarketUpdate>)` -/
def marketUpdate (update : MarketUpdate) : FeedHandler Unit :=
  dispatch dispatcher (.statisticsUpdate
    { streamId := streamId
      exchange := exchange
      symbol := update.params.name
      statistics := marketStatistics update.params.data
      updateType := .incremental })

/-- `operator()(Trace<protocol::json::MarketTodayUpdate>)`: nothing is published. -/
def marketTodayUpdate (_ : MarketTodayUpdate) : FeedHandler Unit := pure ()

end Handlers

/-- What the exchange sends on a stream, apart from answers to requests. -/
inductive Message where
  | bookTickerUpdate (update : BookTickerUpdate)
  | depthUpdate (update : DepthUpdate)
  | tradesUpdate (update : TradesUpdate)
  | marketUpdate (update : MarketUpdate)
  | marketTodayUpdate (update : MarketTodayUpdate)
  deriving DecidableEq

section Messages

variable (u : Utils) (dispatcher : Dispatcher) (exchange : String)

/-- The handler of a message. -/
def Message.handle (streamId : UInt16) : Message → FeedHandler Unit
  | .bookTickerUpdate update => Gateway.bookTickerUpdate u dispatcher exchange streamId update
  | .depthUpdate update => Gateway.depthUpdate u dispatcher exchange streamId update
  | .tradesUpdate update => Gateway.tradesUpdate dispatcher exchange streamId update
  | .marketUpdate update => Gateway.marketUpdate dispatcher exchange streamId update
  | .marketTodayUpdate update => Gateway.marketTodayUpdate update

/-- The messages of all streams, in the order in which they arrive. -/
def handleAll (messages : List (UInt16 × Message)) : FeedHandler Unit :=
  messages.forM fun m => m.2.handle u dispatcher exchange m.1

end Messages

end RoqWhitebit.Gateway
