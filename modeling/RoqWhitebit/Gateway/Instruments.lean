import Mathlib.Tactic.NormNum
import RoqWhitebit.Gateway.Rest

/-!
# Instrument definitions

A market-info acknowledgement brings one record for every item, in order, with its
discard flag.  The record has the two currencies the wrong way round, takes the tick
size and the smallest volume from `min_total`, and leaves `min_notional` out.  So only an
item with one currency and none of the three limits is described as it is, and what
a record says does not depend on `min_amount` and `tick_size` at all.
-/

namespace RoqWhitebit.Gateway

open RoqWhitebit.General
open RoqWhitebit.Protocol.Json

/-! ## The meaning of a record -/

/-- A record says what its item says. -/
structure KeepsInstrument (item : AckItem) (r : ReferenceData) : Prop where
  symbol : r.symbol = item.1.name
  discard : r.discard = item.2
  baseCurrency : r.baseCurrency = item.1.stock
  quoteCurrency : r.quoteCurrency = item.1.money
  pair : item.1.name = item.1.stock ++ "_" ++ item.1.money →
    r.symbol = r.baseCurrency ++ "_" ++ r.quoteCurrency
  tickSize : r.tickSize = item.1.tickSize
  minTradeVol : r.minTradeVol = item.1.minAmount
  minNotional : r.minNotional = item.1.minTotal

/-- One currency, and no limits. -/
structure Unspecified (item : MarketInfoAckItem) : Prop where
  currency : item.stock = item.money
  minTotal : item.minTotal = none
  minAmount : item.minAmount = none
  tickSize : item.tickSize = none

/-- The limits that a record is to tell apart. -/
def SameSizes (a b : AckItem) : Prop :=
  a.1.minAmount = b.1.minAmount ∧ a.1.tickSize = b.1.tickSize

/-- What goes into a record. -/
def SameSource (a b : AckItem) : Prop :=
  a.1.name = b.1.name ∧ a.1.type.map = b.1.type.map ∧ a.1.money = b.1.money ∧
    a.1.stock = b.1.stock ∧ a.1.minTotal = b.1.minTotal ∧ a.1.maxTotal = b.1.maxTotal ∧
    a.2 = b.2

theorem keepsInstrument_iff (streamId : UInt16) (exchange : String) (item : AckItem) :
    KeepsInstrument item (referenceData streamId exchange item.1 item.2) ↔
      Unspecified item.1 := by
  constructor
  · intro hKeeps
    have hMinTotal : none = item.1.minTotal := hKeeps.minNotional
    have hTickSize : item.1.minTotal = item.1.tickSize := hKeeps.tickSize
    have hMinAmount : item.1.minTotal = item.1.minAmount := hKeeps.minTradeVol
    exact
      { currency := hKeeps.quoteCurrency
        minTotal := hMinTotal.symm
        minAmount := (hMinTotal.trans hMinAmount).symm
        tickSize := (hMinTotal.trans hTickSize).symm }
  · intro hItem
    exact
      { symbol := rfl
        discard := rfl
        baseCurrency := hItem.currency.symm
        quoteCurrency := hItem.currency
        pair := by
          intro hName
          show item.1.name = item.1.money ++ "_" ++ item.1.stock
          rw [hName, hItem.currency]
        tickSize := hItem.minTotal.trans hItem.tickSize.symm
        minTradeVol := hItem.minTotal.trans hItem.minAmount.symm
        minNotional := hItem.minTotal.symm }

theorem referenceData_eq_iff (streamId : UInt16) (exchange : String) (a b : AckItem) :
    referenceData streamId exchange a.1 a.2 = referenceData streamId exchange b.1 b.2 ↔
      SameSource a b := by
  unfold referenceData SameSource
  simp

namespace Controller

/-! ## What is dispatched -/

/-- The record of an item. -/
def record (c : Controller) (item : AckItem) : ReferenceData :=
  referenceData c.restStreamId c.exchange item.1 item.2

theorem noted_dispatched (item : AckItem) (c : Controller) :
    (c.noted item).dispatched = c.dispatched ++ [c.record item] ∧
      (c.noted item).record = c.record := by
  unfold noted
  split <;> exact ⟨rfl, rfl⟩

theorem notedAll_dispatched (items : List AckItem) (c : Controller) :
    (c.notedAll items).dispatched = c.dispatched ++ items.map c.record := by
  induction items generalizing c with
  | nil => exact (List.append_nil _).symm
  | cons item items ih =>
      obtain ⟨hDispatched, hRecord⟩ := noted_dispatched item c
      show ((c.noted item).notedAll items).dispatched = _
      rw [ih, hDispatched, hRecord, List.append_assoc]
      rfl

@[simp] theorem withStreams_dispatched (n : Nat) (c : Controller) :
    (c.withStreams n).dispatched = c.dispatched := by
  induction n generalizing c with
  | zero => rfl
  | succ n ih => exact ih c.withStream

@[simp] theorem updated_dispatched (names : List Symbol) (c : Controller) :
    (c.updated names).dispatched = c.dispatched :=
  withStreams_dispatched _ _

theorem acked_dispatched (items : List AckItem) (c : Controller) :
    (c.acked items).dispatched = c.dispatched ++ items.map c.record := by
  unfold acked
  split
  · exact notedAll_dispatched items c
  · rw [updated_dispatched, notedAll_dispatched]

/-- The records an acknowledgement brings have a property. -/
def Brings (c : Controller) (items : List AckItem) (P : List ReferenceData → Prop) : Prop :=
  ∃ c' records, marketInfoAck items ⟨c, none⟩ = .ok () ⟨c', none⟩ ∧
    c'.dispatched = c.dispatched ++ records ∧ P records

theorem brings_iff {c : Controller} {items : List AckItem} {P : List ReferenceData → Prop} :
    c.Brings items P ↔ P (items.map c.record) := by
  constructor
  · rintro ⟨c', records, hRun, hDispatched, hRecords⟩
    obtain rfl : c.acked items = c' := by
      rw [marketInfoAck_quiet] at hRun
      exact congrArg Fused.state (EStateM.Result.ok.inj hRun).2
    rw [acked_dispatched] at hDispatched
    rw [List.append_cancel_left hDispatched]
    exact hRecords
  · intro hRecords
    exact ⟨c.acked items, _, marketInfoAck_quiet items c, acked_dispatched items c, hRecords⟩

/-- Every item is described as it is, in order. -/
def InstrumentsKept (c : Controller) (items : List AckItem) : Prop :=
  c.Brings items fun records => List.Forall₂ KeepsInstrument items records

/-- The records of items with different limits differ. -/
def InstrumentsDistinct (c : Controller) (items : List AckItem) : Prop :=
  c.Brings items fun records => ∀ p ∈ items.zip records, ∀ q ∈ items.zip records,
    ¬ SameSizes p.1 q.1 → p.2 ≠ q.2

/--
**An instrument keeps its meaning just when it has one currency and no limits.**  And
items with another smallest amount or tick size are told apart just when they differ in
what goes into a record.
-/
theorem instruments_iff (c : Controller) (items : List AckItem) :
    (c.InstrumentsKept items ↔ ∀ item ∈ items, Unspecified item.1) ∧
    (c.InstrumentsDistinct items ↔
      ∀ a ∈ items, ∀ b ∈ items, SameSizes a b ∨ ¬ SameSource a b) := by
  have hZip : items.zip (items.map c.record) = items.map fun item => (item, c.record item) := by
    have hMap := List.zip_map' (f := id) (g := c.record) (l := items)
    rwa [List.map_id] at hMap
  have hRecord (a b : AckItem) : c.record a = c.record b ↔ SameSource a b :=
    referenceData_eq_iff _ _ a b
  constructor
  · unfold InstrumentsKept
    rw [brings_iff, List.forall₂_map_right_iff, List.forall₂_same]
    exact forall₂_congr fun item _ => keepsInstrument_iff _ _ item
  · unfold InstrumentsDistinct
    rw [brings_iff, hZip]
    simp only [List.forall_mem_map, ne_eq, hRecord]
    exact forall₄_congr fun a _ b _ => or_iff_not_imp_left.symm

/-- The item of `ETH_BTC`, with a given smallest amount. -/
def ethBtc (minAmount : Rat) : MarketInfoAckItem :=
  { name := "ETH_BTC"
    stock := "ETH"
    money := "BTC"
    stockPrec := 4
    moneyPrec := 6
    feePrec := 6
    makerFee := some 0.1
    takerFee := some 0.1
    minAmount := some minAmount
    minTotal := some 0.000012
    tradesEnabled := true
    type := .spot
    isCollateral := true
    maxTotal := some 100000 }

/-- The base currency of `ETH_BTC` is `BTC`, and its smallest amount is lost. -/
theorem ethBtc_is_btcEth :
    ¬ (create 1 (by decide) "whitebit").InstrumentsKept [(ethBtc 0.0001, false)] ∧
    ¬ (create 1 (by decide) "whitebit").InstrumentsDistinct
      [(ethBtc 0.0001, false), (ethBtc 0.001, false)] := by
  constructor
  · intro hKept
    have hRecords := brings_iff.mp hKept
    have hBase : "BTC" = "ETH" := (List.forall₂_cons.mp hRecords).1.baseCurrency
    exact absurd hBase (by decide)
  · intro hDistinct
    have hRecords := brings_iff.mp hDistinct
    have hSizes : ¬ SameSizes (ethBtc 0.0001, false) (ethBtc 0.001, false) := by
      intro hSame
      have hAmount : (some 0.0001 : Double) = some 0.001 := hSame.1
      norm_num at hAmount
    exact hRecords _ List.mem_cons_self _ (List.mem_cons_of_mem _ List.mem_cons_self) hSizes rfl

end Controller

end RoqWhitebit.Gateway
