import RoqWhitebit.Gateway.Symbols

/-!
# Market-info items and reference data

One element of a market-info acknowledgement and the `ReferenceData` message the
gateway dispatches for it.
-/

namespace RoqWhitebit

/-- `roq::SecurityType`, as far as the gateway maps to it. -/
inductive SecurityType where
  | undefined
  | spot
  | futures
  deriving DecidableEq, Repr

/-- A `double`; `none` is NaN. -/
abbrev Double := Option Rat

namespace Protocol.Json

/-- `protocol::json::Type` -/
inductive InstrumentType where
  | undefinedInternal
  | unknownInternal
  | spot
  | futures
  | tradfiFutures
  deriving DecidableEq, Repr

/-- `map(item.type)` -/
def InstrumentType.map : InstrumentType → SecurityType
  | .undefinedInternal => .undefined
  | .unknownInternal => .undefined
  | .spot => .spot
  | .futures => .futures
  | .tradfiFutures => .futures

/-- `protocol::json::MarketInfoAckItem` -/
structure MarketInfoAckItem where
  name : String
  stock : String := ""
  money : String := ""
  stockPrec : Int := 0
  moneyPrec : Int := 0
  feePrec : Int := 0
  makerFee : Double := none
  takerFee : Double := none
  minAmount : Double := none
  minTotal : Double := none
  tradesEnabled : Bool := false
  xxx : String := ""
  type : InstrumentType := .undefinedInternal
  isCollateral : Bool := false
  maxTotal : Double := none
  isTradFiFutures : Bool := false
  /-- In microseconds. -/
  delistedAt : Int := 0
  tickSize : Double := none
  stepSize : Double := none
  deriving DecidableEq, Repr

end Protocol.Json

namespace Gateway

open RoqWhitebit.Protocol.Json

/-- `roq::ReferenceData`: the fields the gateway sets.  All others keep their
defaults. -/
structure ReferenceData where
  streamId : UInt16
  exchange : String
  symbol : Symbol
  description : String
  securityType : SecurityType
  baseCurrency : String
  quoteCurrency : String
  tickSize : Double
  multiplier : Double
  minNotional : Double
  minTradeVol : Double
  maxTradeVol : Double
  strikePrice : Double
  discard : Bool
  deriving DecidableEq, Repr

/-- The message for one item.  The base currency is the item's `money`, the quote
currency its `stock`, and the tick size its `min_total`. -/
def referenceData (streamId : UInt16) (exchange : String) (item : MarketInfoAckItem)
    (discard : Bool) : ReferenceData :=
  { streamId := streamId
    exchange := exchange
    symbol := item.name
    description := item.name
    securityType := item.type.map
    baseCurrency := item.money
    quoteCurrency := item.stock
    tickSize := item.minTotal
    multiplier := none
    minNotional := none
    minTradeVol := item.minTotal
    maxTradeVol := item.maxTotal
    strikePrice := none
    discard := discard }

end Gateway

end RoqWhitebit
