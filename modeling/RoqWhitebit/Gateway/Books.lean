import Mathlib
import RoqWhitebit.Gateway.Feed
import RoqWhitebit.General.Throwing

/-!
# Books and trades depend on their own message only

Every handler clears the buffers it fills before it fills them.  So whatever the
buffers held, and whatever other streams have put there, a message is published as
its own payload: `Message.events` says as what, without any state.

`Reports` is the meaning: one book for a depth message, one summary for a trades
message that is not empty, level by level and trade by trade.
-/

namespace RoqWhitebit.Gateway

open RoqWhitebit.General
open RoqWhitebit.Protocol.Json

/-! ## What the handlers do -/

/-- A loop that puts one element after the other into a buffer. -/
theorem forM_append {α β : Type} (set : (List β → List β) → Feed → Feed)
    (hComp : ∀ u v f, set u (set v f) = set (u ∘ v) f) (hId : ∀ f, set id f = f)
    (g : α → β) (items : List α) (f : Feed) :
    (items.forM fun item => (modify (set (· ++ [g item])) : FeedHandler Unit)) f =
      .ok () (set (· ++ items.map g) f) := by
  induction items generalizing f with
  | nil =>
      have hNil : (fun buffer : List β => buffer ++ [].map g) = id := by
        funext buffer
        exact List.append_nil buffer
      rw [hNil, hId]
      rfl
  | cons item items ih =>
      have hCons : (fun buffer : List β => buffer ++ items.map g) ∘
          (fun buffer => buffer ++ [g item]) =
            fun buffer => buffer ++ (item :: items).map g := by
        funext buffer
        simp
      rw [← hCons, ← hComp]
      exact ih _

theorem safeCast_of_nonneg {u : Utils} {n : Int64} (h : 0 ≤ n) (f : Feed) :
    safeCast u n f = .ok n.toUInt64 f := by
  unfold safeCast
  rw [u.safeCast_of_nonneg n h]
  rfl

theorem safeCast_of_neg {u : Utils} {n : Int64} (h : ¬0 ≤ n) (f : Feed) :
    safeCast u n f = .error (.threw (.other "safe_cast")) f := by
  unfold safeCast
  rw [u.safeCast_of_neg n (Int64.not_le.mp h)]
  rfl

/-! ## How the handlers end -/

/-- How a handler ends that has these events to hand out.  The dispatcher takes all of
them, and then the handler returns or throws; or it does not take one of them. -/
inductive Ends (dispatcher : Dispatcher) (returns : Bool) (events : List Published) (f : Feed) :
    EStateM.Result Fault Feed Unit → Prop
  | returned (f' : Feed) :
      returns = true → f'.published = f.published ++ events →
      Ends dispatcher returns events f (.ok () f')
  | threw (f' : Feed) :
      returns = false → f'.published = f.published ++ events →
      Ends dispatcher returns events f (.error (.threw (.other "safe_cast")) f')
  | refused (f' : Feed) (fault : Fault) (taken : List Published) (e : Published)
      (refusal : Exception) :
      taken ++ [e] <+: events → dispatcher (f.published ++ taken) e = some refusal →
      f'.published = f.published ++ taken →
      Ends dispatcher returns events f (.error fault f')

section Ending

variable {dispatcher : Dispatcher} {returns : Bool} {events first rest : List Published}
  {f g : Feed}

theorem ends_nothing (f : Feed) : Ends dispatcher true [] f (.ok () f) :=
  .returned f rfl (List.append_nil _).symm

/-- More has been handed out before. -/
theorem Ends.after {result : EStateM.Result Fault Feed Unit}
    (h : Ends dispatcher returns rest g result) (hFirst : g.published = f.published ++ first) :
    Ends dispatcher returns (first ++ rest) f result := by
  cases h with
  | returned f' hReturns hPublished =>
      refine .returned f' hReturns ?_
      rw [hPublished, hFirst, List.append_assoc]
  | threw f' hReturns hPublished =>
      refine .threw f' hReturns ?_
      rw [hPublished, hFirst, List.append_assoc]
  | refused f' fault taken e refusal hTaken hRefused hPublished =>
      refine .refused f' fault (first ++ taken) e refusal ?_ ?_ ?_
      · rw [List.append_assoc]
        exact (List.prefix_append_right_inj first).mpr hTaken
      · rw [← List.append_assoc, ← hFirst]
        exact hRefused
      · rw [hPublished, hFirst, List.append_assoc]

/-- Only what has been published matters of the state before. -/
theorem Ends.congr {result : EStateM.Result Fault Feed Unit}
    (h : Ends dispatcher returns events g result) (hSame : g.published = f.published) :
    Ends dispatcher returns events f result := by
  have hAfter := h.after (hSame.trans (List.append_nil f.published).symm)
  exact hAfter

/-- **Sequencing**: what comes first is handed out first. -/
theorem Ends.bind {m : FeedHandler Unit} {k : Unit → FeedHandler Unit}
    (h : Ends dispatcher true first f (m f))
    (hNext : ∀ g, Ends dispatcher returns rest g (k () g)) :
    Ends dispatcher returns (first ++ rest) f ((m >>= k) f) := by
  generalize hRun : m f = result at h
  cases h with
  | returned g _ hPublished =>
      rw [bind_ok hRun]
      exact (hNext g).after hPublished
  | threw g hReturns _ => exact absurd hReturns (by decide)
  | refused g fault taken e refusal hTaken hRefused hPublished =>
      rw [bind_error hRun]
      exact .refused g fault taken e refusal (hTaken.trans (List.prefix_append first rest))
        hRefused hPublished

/-- Nothing comes after a handler that throws. -/
theorem Ends.stop {m : FeedHandler Unit} {k : Unit → FeedHandler Unit}
    (h : Ends dispatcher false events f (m f)) :
    Ends dispatcher false events f ((m >>= k) f) := by
  generalize hRun : m f = result at h
  cases h with
  | returned g hReturns _ => exact absurd hReturns (by decide)
  | threw g hReturns hPublished =>
      rw [bind_error hRun]
      exact .threw g hReturns hPublished
  | refused g fault taken e refusal hTaken hRefused hPublished =>
      rw [bind_error hRun]
      exact .refused g fault taken e refusal hTaken hRefused hPublished

/-- A loop that ends at the first item whose turn throws. -/
theorem ends_forM {α : Type} {handle : α → FeedHandler Unit} {returns : α → Bool}
    {events : α → List Published}
    (hPass : ∀ item, returns item → ∀ f, Ends dispatcher true (events item) f (handle item f))
    (hFail : ∀ item, ¬returns item → ∀ f, Ends dispatcher false [] f (handle item f))
    (items : List α) (f : Feed) :
    Ends dispatcher (items.all returns) ((items.takeWhile returns).flatMap events) f
      (items.forM handle f) := by
  induction items generalizing f with
  | nil => exact ends_nothing f
  | cons item items ih =>
      by_cases hReturns : returns item
      · rw [List.all_cons, hReturns, Bool.true_and, List.takeWhile_cons_of_pos hReturns,
          List.flatMap_cons]
        exact (hPass item hReturns f).bind ih
      · rw [List.all_cons, Bool.eq_false_iff.mpr hReturns, Bool.false_and,
          List.takeWhile_cons_of_neg hReturns, List.flatMap_nil]
        exact (hFail item hReturns f).stop

theorem ends_dispatch (dispatcher : Dispatcher) (e : Published) (f : Feed) :
    Ends dispatcher true [e] f (dispatch dispatcher e f) := by
  have hGet : (get : FeedHandler Feed) f = .ok f f := rfl
  unfold dispatch
  rw [bind_ok hGet]
  cases hTaken : dispatcher f.published e with
  | none => exact .returned _ rfl rfl
  | some refusal =>
      refine .refused f _ [] e refusal (List.prefix_refl _) ?_ (List.append_nil _).symm
      rw [List.append_nil]
      exact hTaken

/-- That a `BadState` is fatal makes no difference for what has been taken. -/
theorem ends_dispatchBook (dispatcher : Dispatcher) (e : MarketByPriceUpdate) (f : Feed) :
    Ends dispatcher true [.marketByPriceUpdate e] f (dispatchBook dispatcher e f) := by
  have hEnds := ends_dispatch dispatcher (.marketByPriceUpdate e) f
  show Ends _ _ _ _ (EStateM.tryCatch _ _ f)
  unfold EStateM.tryCatch
  generalize dispatch dispatcher (.marketByPriceUpdate e) f = result at hEnds ⊢
  cases hEnds with
  | returned f' hReturns hPublished => exact .returned f' hReturns hPublished
  | threw f' hReturns _ => exact absurd hReturns (by decide)
  | refused f' fault taken e' refusal hTaken hRefused hPublished =>
      have hFault (fault' : Fault) :
          Ends dispatcher true [.marketByPriceUpdate e] f (.error fault' f') :=
        .refused f' fault' taken e' refusal hTaken hRefused hPublished
      cases fault with
      | fatal => exact hFault _
      | threw thrown => cases thrown <;> exact hFault _

/-- With a dispatcher that takes every event, only the handler decides. -/
theorem Ends.of_takesAll {result : EStateM.Result Fault Feed Unit}
    (h : Ends dispatcher returns events f result) (hTakes : dispatcher.TakesAll) :
    ∃ f', f'.published = f.published ++ events ∧
      result = if returns then .ok () f' else .error (.threw (.other "safe_cast")) f' := by
  cases h with
  | returned f' hReturns hPublished => exact ⟨f', hPublished, by rw [if_pos hReturns]⟩
  | threw f' hReturns hPublished => exact ⟨f', hPublished, by simp [hReturns]⟩
  | refused f' fault taken e refusal _ hRefused _ =>
      rw [hTakes] at hRefused
      cases hRefused

end Ending

/-- Whatever the buffers hold, the handler publishes just these events. -/
def Publishes (m : FeedHandler Unit) (events : List Published) : Prop :=
  ∀ f, ∃ f', m f = .ok () f' ∧ f'.published = f.published ++ events

section Events

variable (exchange : String) (streamId : UInt16)

/-- The event for one item of a book-ticker message. -/
def topOfBook (item : BookTickerUpdateParamsItem) : TopOfBook :=
  { streamId := streamId
    exchange := exchange
    symbol := item.market
    bidPrice := item.bestBidPrice
    bidQuantity := item.bestBidAmount
    askPrice := item.bestAskPrice
    askQuantity := item.bestAskAmount
    updateType := .incremental
    exchangeTimeUtc := item.transactionTime
    exchangeSequence := item.updateId.toUInt64
    sendingTimeUtc := item.messageTime }

/-- The event for a depth message. -/
def marketByPriceUpdate (update : DepthUpdate) : MarketByPriceUpdate :=
  { streamId := streamId
    exchange := exchange
    symbol := update.params.name
    bids := update.params.data.bids.map mbpUpdate
    asks := update.params.data.asks.map mbpUpdate
    updateType := if update.params.snapshot then .snapshot else .incremental
    exchangeTimeUtc := update.params.data.timestamp
    exchangeSequence := update.params.data.updateId.toUInt64 }

/-- The event for a trades message. -/
def tradeSummary (update : TradesUpdate) : TradeSummary :=
  { streamId := streamId
    exchange := exchange
    symbol := update.params.name
    trades := update.params.data.map trade }

/-- The event for a market message. -/
def statisticsUpdate (update : MarketUpdate) : StatisticsUpdate :=
  { streamId := streamId
    exchange := exchange
    symbol := update.params.name
    statistics := marketStatistics update.params.data
    updateType := .incremental }

/-- The events for a message. -/
def Message.events : Message → List Published
  | .bookTickerUpdate update =>
      update.params.map fun item => .topOfBook (topOfBook exchange streamId item)
  | .depthUpdate update => [.marketByPriceUpdate (marketByPriceUpdate exchange streamId update)]
  | .tradesUpdate update =>
      if update.params.data.isEmpty then []
      else [.tradeSummary (tradeSummary exchange streamId update)]
  | .marketUpdate update => [.statisticsUpdate (statisticsUpdate exchange streamId update)]
  | .marketTodayUpdate _ => []

/-- The update identifiers of a message can be published. -/
def Message.accepted : Message → Bool
  | .bookTickerUpdate update => update.params.all fun item => decide (0 ≤ item.updateId)
  | .depthUpdate update => decide (0 ≤ update.params.data.updateId)
  | _ => true

/-- What a message brings, also where its handler throws: the items of a book ticker are
published one by one, up to the first identifier that is negative. -/
def Message.brought : Message → List Published
  | .bookTickerUpdate update =>
      (update.params.takeWhile fun item => decide (0 ≤ item.updateId)).map fun item =>
        .topOfBook (topOfBook exchange streamId item)
  | .depthUpdate update =>
      if 0 ≤ update.params.data.updateId then
        [.marketByPriceUpdate (marketByPriceUpdate exchange streamId update)]
      else []
  | m => m.events exchange streamId

/-- The update identifiers of a message are not negative. -/
def Message.NonNegative : Message → Prop
  | .bookTickerUpdate update => ∀ item ∈ update.params, 0 ≤ item.updateId
  | .depthUpdate update => 0 ≤ update.params.data.updateId
  | _ => True

end Events

section Handling

variable (u : Utils) (dispatcher : Dispatcher) (exchange : String) (streamId : UInt16)

theorem ends_bookTickerUpdate (update : BookTickerUpdate) (f : Feed) :
    Ends dispatcher (Message.accepted (.bookTickerUpdate update))
      (Message.brought exchange streamId (.bookTickerUpdate update)) f
      (bookTickerUpdate u dispatcher exchange streamId update f) := by
  show Ends _ _ (List.map _ _) _ _
  rw [List.map_eq_flatMap]
  apply ends_forM
  · intro item hItem f
    have hSequence : 0 ≤ item.updateId := of_decide_eq_true hItem
    rw [bind_ok (safeCast_of_nonneg hSequence f)]
    exact ends_dispatch dispatcher _ f
  · intro item hItem f
    have hSequence : ¬0 ≤ item.updateId := fun h => hItem (decide_eq_true h)
    rw [bind_error (safeCast_of_neg hSequence f)]
    exact .threw f rfl (List.append_nil _).symm

/-- The depth handler once it has filled the buffers. -/
theorem depthUpdate_filled (update : DepthUpdate) (f : Feed) :
    depthUpdate u dispatcher exchange streamId update f =
      (safeCast u update.params.data.updateId >>= fun exchangeSequence =>
        dispatchBook dispatcher
          { marketByPriceUpdate exchange streamId update with
            exchangeSequence := exchangeSequence })
        { f with
          bids := update.params.data.bids.map mbpUpdate
          asks := update.params.data.asks.map mbpUpdate } := by
  have hBids := forM_append (fun u f => { f with bids := u f.bids }) (fun _ _ _ => rfl)
    (fun _ => rfl) mbpUpdate update.params.data.bids { f with bids := [], asks := [] }
  have hAsks := forM_append (fun u f => { f with asks := u f.asks }) (fun _ _ _ => rfl)
    (fun _ => rfl) mbpUpdate update.params.data.asks
    { f with bids := [] ++ update.params.data.bids.map mbpUpdate, asks := [] }
  unfold depthUpdate
  exact (bind_ok rfl _).trans ((bind_ok rfl _).trans ((bind_ok hBids _).trans
    ((bind_ok hAsks _).trans (bind_ok rfl _))))

theorem ends_depthUpdate (update : DepthUpdate) (f : Feed) :
    Ends dispatcher (Message.accepted (.depthUpdate update))
      (Message.brought exchange streamId (.depthUpdate update)) f
      (depthUpdate u dispatcher exchange streamId update f) := by
  rw [depthUpdate_filled]
  show Ends _ (decide (0 ≤ update.params.data.updateId))
    (if 0 ≤ update.params.data.updateId then _ else []) _ _
  by_cases hSequence : 0 ≤ update.params.data.updateId
  · rw [bind_ok (safeCast_of_nonneg hSequence _), decide_eq_true hSequence, if_pos hSequence]
    exact (ends_dispatchBook dispatcher _ _).congr rfl
  · rw [bind_error (safeCast_of_neg hSequence _), decide_eq_false hSequence,
      if_neg hSequence]
    exact .threw _ rfl (List.append_nil _).symm

/-- The trades handler once it has filled the buffer. -/
theorem tradesUpdate_filled (update : TradesUpdate) (f : Feed) :
    tradesUpdate dispatcher exchange streamId update f =
      (if (update.params.data.map trade).isEmpty then pure ()
      else do
        dispatch dispatcher (.tradeSummary (tradeSummary exchange streamId update))
        modify fun f => { f with trades := [] } : FeedHandler Unit)
        { f with trades := update.params.data.map trade } := by
  have hTrades := forM_append (fun u f => { f with trades := u f.trades }) (fun _ _ _ => rfl)
    (fun _ => rfl) trade update.params.data { f with trades := [] }
  unfold tradesUpdate
  exact (bind_ok rfl _).trans ((bind_ok hTrades _).trans (bind_ok rfl _))

theorem ends_tradesUpdate (update : TradesUpdate) (f : Feed) :
    Ends dispatcher true (Message.events exchange streamId (.tradesUpdate update)) f
      (tradesUpdate dispatcher exchange streamId update f) := by
  rw [tradesUpdate_filled, List.isEmpty_map]
  show Ends _ true (if update.params.data.isEmpty then [] else _) _ _
  by_cases hEmpty : update.params.data.isEmpty
  · rw [if_pos hEmpty, if_pos hEmpty]
    exact .returned _ rfl (List.append_nil _).symm
  · rw [if_neg hEmpty, if_neg hEmpty]
    have hDispatch := ends_dispatch dispatcher
      (.tradeSummary (tradeSummary exchange streamId update))
      { f with trades := update.params.data.map trade }
    have hCleared (g : Feed) : Ends dispatcher true [] g
        ((modify fun f => { f with trades := [] } : FeedHandler Unit) g) :=
      .returned { g with trades := [] } rfl (List.append_nil _).symm
    have hBoth : Ends dispatcher true
        ([.tradeSummary (tradeSummary exchange streamId update)] ++ [])
        { f with trades := update.params.data.map trade }
        ((dispatch dispatcher (.tradeSummary (tradeSummary exchange streamId update)) >>=
          fun _ => modify fun f => { f with trades := [] })
          { f with trades := update.params.data.map trade }) := hDispatch.bind hCleared
    exact hBoth.congr rfl

/-- **How the handler of a message ends**, whatever the buffers hold and whatever the
dispatcher does. -/
theorem ends_handle (m : Message) (f : Feed) :
    Ends dispatcher m.accepted (m.brought exchange streamId) f
      (m.handle u dispatcher exchange streamId f) := by
  cases m with
  | bookTickerUpdate update =>
      exact ends_bookTickerUpdate u dispatcher exchange streamId update f
  | depthUpdate update => exact ends_depthUpdate u dispatcher exchange streamId update f
  | tradesUpdate update => exact ends_tradesUpdate dispatcher exchange streamId update f
  | marketUpdate update => exact ends_dispatch dispatcher _ f
  | marketTodayUpdate update => exact ends_nothing f

theorem Message.accepted_iff (m : Message) : m.accepted = true ↔ m.NonNegative := by
  cases m with
  | bookTickerUpdate update => simp [accepted, NonNegative]
  | depthUpdate update => simp [accepted, NonNegative]
  | _ => simp [accepted, NonNegative]

theorem Message.brought_eq_events {m : Message} (h : m.accepted) :
    m.brought exchange streamId = m.events exchange streamId := by
  cases m with
  | bookTickerUpdate update =>
      show List.map _ _ = List.map _ _
      rw [List.takeWhile_eq_self_iff.mpr fun item hItem => List.all_eq_true.mp h item hItem]
  | depthUpdate update => exact if_pos (of_decide_eq_true h)
  | _ => rfl

end Handling

section Run

variable (u : Utils) (dispatcher : Dispatcher) (exchange : String)

/-- **How a run ends**: it hands out the events of its messages, in order, whatever the
buffers hold. -/
theorem ends_handleAll {messages : List (UInt16 × Message)}
    (h : ∀ m ∈ messages, m.2.NonNegative) (f : Feed) :
    Ends dispatcher true (messages.flatMap fun m => m.2.events exchange m.1) f
      (handleAll u dispatcher exchange messages f) := by
  induction messages generalizing f with
  | nil => exact ends_nothing f
  | cons m messages ih =>
      have hAccepted := m.2.accepted_iff.mpr (h m List.mem_cons_self)
      have hFirst := ends_handle u dispatcher exchange m.1 m.2 f
      rw [hAccepted, Message.brought_eq_events exchange m.1 hAccepted] at hFirst
      rw [List.flatMap_cons]
      exact hFirst.bind fun g => ih (fun m' hm => h m' (List.mem_cons_of_mem m hm)) g

variable {dispatcher}

/-- **What a run publishes** if the dispatcher takes every event. -/
theorem publishes_handleAll (hTakes : dispatcher.TakesAll)
    {messages : List (UInt16 × Message)} (h : ∀ m ∈ messages, m.2.NonNegative) :
    Publishes (handleAll u dispatcher exchange messages)
      (messages.flatMap fun m => m.2.events exchange m.1) := by
  intro f
  obtain ⟨f', hPublished, hRun⟩ := (ends_handleAll u dispatcher exchange h f).of_takesAll hTakes
  exact ⟨f', hRun, hPublished⟩

end Run

/-! ## What the events mean -/

/-- A trade says what its item says. -/
structure IsTrade (item : TradesUpdateParamsItemItem) (t : Trade) : Prop where
  buy : t.side = .buy ↔ item.type = .buy
  sell : t.side = .sell ↔ item.type = .sell
  price : t.price = item.price
  quantity : t.quantity = item.amount
  tradeId : t.tradeId = toString item.id.toInt

section Meaning

variable (exchange : String)

/-- A book is the one of its message: every level once, on its side, in its order. -/
structure IsBook (streamId : UInt16) (update : DepthUpdate) (e : MarketByPriceUpdate) :
    Prop where
  streamId : e.streamId = streamId
  exchange : e.exchange = exchange
  symbol : e.symbol = update.params.name
  bids : e.bids.map (fun level => (level.price, level.quantity)) =
    update.params.data.bids.map fun level => (level.price, level.amount)
  asks : e.asks.map (fun level => (level.price, level.quantity)) =
    update.params.data.asks.map fun level => (level.price, level.amount)
  updateType : e.updateType = .snapshot ↔ update.params.snapshot
  exchangeSequence : (e.exchangeSequence.toNat : Int) = update.params.data.updateId.toInt

/-- A summary is the one of its message: every trade once, in its order. -/
structure IsSummary (streamId : UInt16) (update : TradesUpdate) (e : TradeSummary) :
    Prop where
  streamId : e.streamId = streamId
  exchange : e.exchange = exchange
  symbol : e.symbol = update.params.name
  trades : List.Forall₂ IsTrade update.params.data e.trades

/-- The events are what the message is to bring. -/
def Reports (m : UInt16 × Message) (events : List Published) : Prop :=
  match m.2 with
  | .depthUpdate update =>
      ∃ e, events = [.marketByPriceUpdate e] ∧ IsBook exchange m.1 update e
  | .tradesUpdate update =>
      if update.params.data = [] then events = []
      else ∃ e, events = [.tradeSummary e] ∧ IsSummary exchange m.1 update e
  | _ => ∀ event ∈ events,
      (∀ e, event ≠ .marketByPriceUpdate e) ∧ ∀ e, event ≠ .tradeSummary e

theorem isTrade_trade (item : TradesUpdateParamsItemItem) : IsTrade item (trade item) where
  buy := by cases hType : item.type <;> simp [trade, TradeType.map, hType]
  sell := by cases hType : item.type <;> simp [trade, TradeType.map, hType]
  price := rfl
  quantity := rfl
  tradeId := rfl

theorem toNat_toUInt64 {n : Int64} (h : 0 ≤ n) : (n.toUInt64.toNat : Int) = n.toInt := by
  have hInt : 0 ≤ n.toInt := Int64.le_iff_toInt_le.mp h
  rw [Int64.toNat_toUInt64_of_le h]
  exact Int.toNat_of_nonneg hInt

theorem isBook_marketByPriceUpdate (streamId : UInt16) {update : DepthUpdate}
    (hSequence : 0 ≤ update.params.data.updateId) :
    IsBook exchange streamId update (marketByPriceUpdate exchange streamId update) where
  streamId := rfl
  exchange := rfl
  symbol := rfl
  bids := List.map_map
  asks := List.map_map
  updateType := by
    show (if update.params.snapshot then UpdateType.snapshot else .incremental) = _ ↔ _
    by_cases hSnapshot : update.params.snapshot <;> simp [hSnapshot]
  exchangeSequence := toNat_toUInt64 hSequence

theorem isSummary_tradeSummary (streamId : UInt16) (update : TradesUpdate) :
    IsSummary exchange streamId update (tradeSummary exchange streamId update) where
  streamId := rfl
  exchange := rfl
  symbol := rfl
  trades := by
    show List.Forall₂ IsTrade _ (update.params.data.map trade)
    exact List.forall₂_map_right_iff.mpr
      (List.forall₂_same.mpr fun item _ => isTrade_trade item)

theorem reports_events {m : UInt16 × Message} (h : m.2.NonNegative) :
    Reports exchange m (m.2.events exchange m.1) := by
  obtain ⟨streamId, m⟩ := m
  cases m with
  | bookTickerUpdate update =>
      intro event hEvent
      obtain ⟨item, -, rfl⟩ := List.mem_map.mp hEvent
      exact ⟨fun _ => Published.noConfusion, fun _ => Published.noConfusion⟩
  | depthUpdate update =>
      exact ⟨_, rfl, isBook_marketByPriceUpdate exchange streamId h⟩
  | tradesUpdate update =>
      show if update.params.data = [] then _ else _
      by_cases hEmpty : update.params.data = []
      · rw [if_pos hEmpty]
        exact if_pos (List.isEmpty_iff.mpr hEmpty)
      · rw [if_neg hEmpty]
        have hSummary := isSummary_tradeSummary exchange streamId update
        exact ⟨_, if_neg (by simpa using hEmpty), hSummary⟩
  | marketUpdate update =>
      intro event hEvent
      rw [List.mem_singleton.mp hEvent]
      exact ⟨fun _ => Published.noConfusion, fun _ => Published.noConfusion⟩
  | marketTodayUpdate update =>
      intro event hEvent
      cases hEvent

/-- A message is published under the stream it came on. -/
theorem streamId_of_mem_events {m : UInt16 × Message} {event : Published}
    (h : event ∈ m.2.events exchange m.1) : event.streamId = m.1 := by
  obtain ⟨streamId, m⟩ := m
  cases m with
  | bookTickerUpdate update =>
      obtain ⟨item, -, rfl⟩ := List.mem_map.mp h
      rfl
  | depthUpdate update =>
      rw [List.mem_singleton.mp h]
      rfl
  | tradesUpdate update =>
      change event ∈ if update.params.data.isEmpty then [] else _ at h
      split at h
      · cases h
      · rw [List.mem_singleton.mp h]
        rfl
  | marketUpdate update =>
      rw [List.mem_singleton.mp h]
      rfl
  | marketTodayUpdate update => cases h

/-- What a run publishes under one stream are the events of that stream's messages. -/
theorem filter_events (streamId : UInt16) (messages : List (UInt16 × Message)) :
    (messages.flatMap fun m => m.2.events exchange m.1).filter (·.streamId = streamId) =
      (messages.filter (·.1 = streamId)).flatMap fun m => m.2.events exchange m.1 := by
  induction messages with
  | nil => rfl
  | cons m messages ih =>
      rw [List.flatMap_cons, List.filter_append, ih]
      by_cases hStream : m.1 = streamId
      · rw [List.filter_cons_of_pos (by simpa using hStream), List.flatMap_cons,
          List.filter_eq_self.mpr fun event hEvent => by
            simpa using (streamId_of_mem_events exchange hEvent).trans hStream]
      · rw [List.filter_cons_of_neg (by simpa using hStream),
          List.filter_eq_nil_iff.mpr fun event hEvent => by
            simpa [streamId_of_mem_events exchange hEvent] using hStream,
          List.nil_append]

end Meaning

/-- How a run hands out these events.  If the dispatcher takes every event then the run
returns, and all of them are published; and in any case it ends at the first event that is
not taken, if there is one, with those before it published. -/
structure HandsOut (dispatcher : Dispatcher) (events : List Published) (f : Feed)
    (m : FeedHandler Unit) : Prop where
  whole : dispatcher.TakesAll → ∃ f', m f = .ok () f' ∧ f'.published = f.published ++ events
  ends : Ends dispatcher true events f (m f)

theorem handsOut_handleAll (u : Utils) (dispatcher : Dispatcher) (exchange : String)
    {messages : List (UInt16 × Message)} (h : ∀ m ∈ messages, m.2.NonNegative) (f : Feed) :
    HandsOut dispatcher (messages.flatMap fun m => m.2.events exchange m.1) f
      (handleAll u dispatcher exchange messages) where
  whole hTakes := publishes_handleAll u exchange hTakes h f
  ends := ends_handleAll u dispatcher exchange h f

/--
**Books and trades depend on their own message only.**  Whatever the buffers hold, a
run hands out, message by message, the book of every depth message and the summary of
every trades message that is not empty.  And the messages of one stream alone, from any
buffers, bring what they bring among those of the others.
-/
theorem handleAll_reports (u : Utils) (dispatcher : Dispatcher) (exchange : String)
    (messages : List (UInt16 × Message)) (hSequence : ∀ m ∈ messages, m.2.NonNegative)
    (f : Feed) :
    ∃ blocks,
      List.Forall₂ (Reports exchange) messages blocks ∧
      HandsOut dispatcher blocks.flatten f (handleAll u dispatcher exchange messages) ∧
      (∀ item t item' t', IsTrade item t → IsTrade item' t' →
        (t.tradeId = t'.tradeId ↔ item.id = item'.id)) ∧
      ∀ (streamId : UInt16) (g : Feed),
        HandsOut dispatcher (blocks.flatten.filter (·.streamId = streamId)) g
          (handleAll u dispatcher exchange (messages.filter (·.1 = streamId))) := by
  refine ⟨messages.map fun m => m.2.events exchange m.1, ?_, ?_, ?_, ?_⟩
  · exact List.forall₂_map_right_iff.mpr
      (List.forall₂_same.mpr fun m hm => reports_events exchange (hSequence m hm))
  · exact handsOut_handleAll u dispatcher exchange hSequence f
  · intro item t item' t' ht ht'
    rw [ht.tradeId, ht'.tradeId, Int.toString_eq_repr, Int.toString_eq_repr, Int.repr_inj,
      Int64.toInt_inj]
  · intro streamId g
    rw [← List.flatMap_def, filter_events exchange streamId messages]
    exact handsOut_handleAll u dispatcher exchange
      (fun m hm => hSequence m (List.mem_of_mem_filter hm)) g

/-- A snapshot on one stream, and a change and a trade on another. -/
def twoStreams : List (UInt16 × Message) :=
  [ (2, .depthUpdate
      { params :=
        { snapshot := true
          data :=
            { timestamp := 0
              updateId := 7
              pastUpdateId := 0
              bids :=
                [{ price := some 10, amount := some 1 }, { price := some 9, amount := some 2 }]
              asks := [{ price := some 11, amount := some 3 }]
              eventTime := 0 }
          name := "BTC_USDT" } }),
    (3, .depthUpdate
      { params :=
        { snapshot := false
          data :=
            { timestamp := 0
              updateId := 4
              pastUpdateId := 3
              bids := []
              asks := [{ price := some 5, amount := some 0 }]
              eventTime := 0 }
          name := "ETH_BTC" } }),
    (3, .tradesUpdate
      { params :=
        { name := "ETH_BTC"
          data :=
            [ { id := 1
                time := 0
                price := some 5
                amount := some 1
                type := .sell
                rpi := false } ] } }) ]

/-- Buffers with a level that belongs to no message. -/
def staleFeed : Feed := { bids := [mbpUpdate { price := some 1, amount := some 1 }] }

/-- A dispatcher that takes every event. -/
def takesAll : Dispatcher := fun _ _ => none

theorem handleAll_reports_twoStreams :
    (∀ m ∈ twoStreams, m.2.NonNegative) ∧
    ∃ f' blocks,
      handleAll .standard takesAll "whitebit" twoStreams staleFeed = .ok () f' ∧
      f'.published = blocks.flatten ∧
      List.Forall₂ (Reports "whitebit") twoStreams blocks ∧
      ∃ g', handleAll .standard takesAll "whitebit" (twoStreams.filter (·.1 = 3)) {} = .ok () g' ∧
        g'.published = blocks.flatten.filter (·.streamId = 3) := by
  have hSequence : ∀ m ∈ twoStreams, m.2.NonNegative := by
    unfold twoStreams
    simp [Message.NonNegative]
  have hTakes : takesAll.TakesAll := fun _ _ => rfl
  obtain ⟨blocks, hReports, hAll, -, hOwn⟩ :=
    handleAll_reports .standard takesAll "whitebit" twoStreams hSequence staleFeed
  obtain ⟨f', hRun, hPublished⟩ := hAll.whole hTakes
  obtain ⟨g', hAlone, hFilter⟩ := (hOwn 3 {}).whole hTakes
  exact ⟨hSequence, f', blocks, hRun, hPublished, hReports, g', hAlone, hFilter⟩

end RoqWhitebit.Gateway
