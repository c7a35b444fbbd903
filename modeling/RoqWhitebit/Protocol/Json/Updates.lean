import RoqWhitebit.Gateway.ReferenceData

/-!
# Market-data updates

The payloads of the market-data messages as the generated decoders deliver them.
Times are counts of microseconds.  The `id` and `method` of a message decide which
decoder runs and are not looked at again.
-/

namespace RoqWhitebit

/-- `roq::Side` -/
inductive Side where
  | undefined
  | buy
  | sell
  deriving DecidableEq, Repr

namespace Protocol.Json

structure BookTickerUpdateParamsItem where
  transactionTime : Int
  messageTime : Int
  market : String
  updateId : Int64
  bestBidPrice : Double
  bestBidAmount : Double
  bestAskPrice : Double
  bestAskAmount : Double
  deriving DecidableEq

structure BookTickerUpdate where
  params : List BookTickerUpdateParamsItem
  deriving DecidableEq

structure DepthUpdateParamsItemDataLevel where
  price : Double
  amount : Double
  deriving DecidableEq

structure DepthUpdateParamsItemData where
  timestamp : Int
  updateId : Int64
  pastUpdateId : Int64
  bids : List DepthUpdateParamsItemDataLevel
  asks : List DepthUpdateParamsItemDataLevel
  eventTime : Int
  deriving DecidableEq

structure DepthUpdateParamsItem where
  snapshot : Bool
  data : DepthUpdateParamsItemData
  name : String
  deriving DecidableEq

structure DepthUpdate where
  params : DepthUpdateParamsItem
  deriving DecidableEq

/-- `protocol::json::TradeType` -/
inductive TradeType where
  | undefinedInternal
  | unknownInternal
  | buy
  | sell
  deriving DecidableEq, Repr

/-- `map(item.type)` -/
def TradeType.map : TradeType → Side
  | .undefinedInternal => .undefined
  | .unknownInternal => .undefined
  | .buy => .buy
  | .sell => .sell

structure TradesUpdateParamsItemItem where
  id : Int64
  time : Int
  price : Double
  amount : Double
  type : TradeType
  rpi : Bool
  deriving DecidableEq

structure TradesUpdateParamsItem where
  name : String
  data : List TradesUpdateParamsItemItem
  deriving DecidableEq

structure TradesUpdate where
  params : TradesUpdateParamsItem
  deriving DecidableEq

structure MarketUpdateParamsItemItem where
  «open» : Double
  close : Double
  high : Double
  low : Double
  volume : Double
  deal : Double
  last : Double
  period : Int
  deriving DecidableEq

structure MarketUpdateParamsItem where
  name : String
  data : MarketUpdateParamsItemItem
  deriving DecidableEq

structure MarketUpdate where
  params : MarketUpdateParamsItem
  deriving DecidableEq

structure MarketTodayUpdateParamsItemItem where
  «open» : Double
  high : Double
  low : Double
  volume : Double
  deal : Double
  last : Double
  deriving DecidableEq

structure MarketTodayUpdateParamsItem where
  name : String
  data : MarketTodayUpdateParamsItemItem
  deriving DecidableEq

structure MarketTodayUpdate where
  params : MarketTodayUpdateParamsItem
  deriving DecidableEq

end Protocol.Json

end RoqWhitebit
