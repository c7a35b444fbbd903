import RoqWhitebit.General.Runs
import RoqWhitebit.Gateway.Rest

/-!
# The distribution of symbols over streams

Market-info acknowledgements, client subscriptions and the connection events of
every stream arrive in any order.  As long as nothing throws, every known name has
its place in exactly one slice, there is one stream for each slice, and a stream
that is ready has asked for its slice exactly.

`Serving` is the invariant between the shared list and the streams.
-/

namespace RoqWhitebit.Gateway

open RoqWhitebit.General

/-! ## Runs -/

/-- What the controller reacts to. -/
inductive Event where
  | marketInfoAck (items : List AckItem)
  | subscribe (names : List Symbol)
  | ready (k : Nat)
  | disconnected (k : Nat)
  deriving DecidableEq, Repr

/-- The handler of an event. -/
def Event.handle : Event → Throwing Exception Controller Unit
  | .marketInfoAck items => Controller.marketInfoAck items
  | .subscribe names => Controller.subscribe names
  | .ready k => Controller.ready k
  | .disconnected k => Controller.disconnected k

/-- The names an event offers. -/
def Event.offered : Event → List Symbol
  | .marketInfoAck items => kept items
  | .subscribe names => names
  | .ready _ => []
  | .disconnected _ => []

namespace Controller

/-- One event, with nothing throwing. -/
def step (c : Controller) (e : Event) : Controller := stateAfter e.handle c none

theorem step_marketInfoAck (c : Controller) (items : List AckItem) :
    c.step (.marketInfoAck items) = c.acked items :=
  stateAfter_quiet (marketInfoAck_quiet items c)

theorem step_subscribe (c : Controller) (names : List Symbol) :
    c.step (.subscribe names) = c.subscribed names :=
  stateAfter_quiet (subscribe_quiet names c)

theorem step_ready (c : Controller) (k : Nat) :
    c.step (.ready k) =
      c.setMarketData (c.marketData.modify k (·.readied c.shared.symbols)) :=
  stateAfter_quiet (ready_quiet k c)

theorem step_disconnected (c : Controller) (k : Nat) :
    c.step (.disconnected k) =
      c.setMarketData (c.marketData.modify k MarketData.dropped) :=
  stateAfter_quiet (disconnected_quiet k c)

/-- What one event can do: it makes names known and updates the streams with those
that are new, it makes known names known again, or it changes one connection. -/
theorem step_cases (c : Controller) (e : Event) :
    (∃ c', c'.shared.symbols = c.shared.symbols ∧ c'.marketData = c.marketData ∧
      (∀ x, x ∈ c'.shared.allSymbols ↔ x ∈ c.shared.allSymbols ∨ x ∈ e.offered) ∧
      (c.step e = c'.updated (fresh c.shared.allSymbols e.offered) ∨
        fresh c.shared.allSymbols e.offered = [] ∧ c.step e = c')) ∨
    (∃ k, e = .ready k ∧ c.step e =
      c.setMarketData (c.marketData.modify k (·.readied c.shared.symbols))) ∨
    (∃ k, e = .disconnected k ∧ c.step e =
      c.setMarketData (c.marketData.modify k MarketData.dropped)) := by
  cases e with
  | marketInfoAck items =>
      left
      refine ⟨c.notedAll items, notedAll_symbols items c, notedAll_marketData items c,
        fun x => mem_notedAll_allSymbols, ?_⟩
      rw [step_marketInfoAck]
      unfold acked
      cases hEmpty : (fresh c.shared.allSymbols (kept items)).isEmpty with
      | true => exact .inr ⟨List.isEmpty_iff.mp hEmpty, rfl⟩
      | false => exact .inl rfl
  | subscribe names =>
      left
      exact ⟨c.learnAll names, learnAll_symbols names c, learnAll_marketData names c,
        fun x => mem_learnAll_allSymbols, .inl (step_subscribe c names)⟩
  | ready k => exact .inr (.inl ⟨k, rfl, step_ready c k⟩)
  | disconnected k => exact .inr (.inr ⟨k, rfl, step_disconnected c k⟩)

end Controller

/-! ## What a stream has asked for -/

/-- The symbols a request asks for by a method. -/
def Request.asks (method : SubscribeMethod) : Request → List Symbol
  | .list _ m symbols => if m = method then symbols else []
  | .level _ m symbol _ => if m = method then [symbol] else []

/-- The symbols asked for by a method, in order. -/
def requested (method : SubscribeMethod) (sent : List Request) : List Symbol :=
  sent.flatMap (Request.asks method)

theorem requested_append (method : SubscribeMethod) (sent later : List Request) :
    requested method (sent ++ later) = requested method sent ++ requested method later :=
  List.flatMap_append

theorem requested_levelRequests (method : SubscribeMethod) (id : UInt64)
    (symbols : List Symbol) :
    requested method (MarketData.levelRequests id symbols) =
      if method = .depth then symbols else [] := by
  induction symbols generalizing id with
  | nil => exact (ite_self _).symm
  | cons symbol symbols ih =>
      show Request.asks method (.level (id + 1) .depth symbol 100) ++
        requested method (MarketData.levelRequests (id + 1) symbols) = _
      rw [ih]
      cases method <;> rfl

/-- By every method, exactly the given symbols are asked for. -/
theorem requested_requests (method : SubscribeMethod) (id : UInt64)
    (symbols : List Symbol) :
    requested method (MarketData.requests id symbols) = symbols := by
  unfold MarketData.requests
  rw [List.cons_append]
  show Request.asks method (.list (id + 1) .bookTicker symbols) ++ requested method _ = _
  rw [requested_append, requested_levelRequests]
  cases method <;> simp [requested, Request.asks]

theorem requested_asked (method : SubscribeMethod) (symbols : List Symbol)
    (md : MarketData) :
    requested method (md.asked symbols).sent = requested method md.sent ++ symbols := by
  unfold MarketData.asked
  cases symbols with
  | nil => exact (List.append_nil _).symm
  | cons symbol symbols =>
      show requested method (md.sent ++ _) = _
      rw [requested_append, requested_requests]

/-! ## The invariant -/

/-- There is one stream for each slice, in order, and a stream that is ready has asked
for its slice. -/
structure Serving (symbols : Symbols) (marketData : List MarketData) : Prop where
  streams : marketData.length = symbols.size
  index : ∀ (k : Nat) (md : MarketData), marketData[k]? = some md → md.index = k
  asked : ∀ md ∈ marketData, md.ready = true → ∀ method,
    requested method md.sent = symbols.getSlice md.index 0

/-- The known names are those of the shared list, which has no duplicates. -/
structure Distributed (c : Controller) : Prop where
  known : ∀ name, name ∈ c.shared.allSymbols ↔ name ∈ c.shared.symbols.names
  nodup : c.shared.symbols.names.Nodup
  serving : Serving c.shared.symbols c.marketData

/-- The streams after a change of one connection. -/
theorem stream_of_modify {marketData : List MarketData} {k i : Nat}
    {g : MarketData → MarketData} {md' : MarketData}
    (h : (marketData.modify k g)[i]? = some md') :
    ∃ md, marketData[i]? = some md ∧ (md' = g md ∨ md' = md) := by
  rw [List.getElem?_modify, Option.map_eq_map, Option.map_eq_some_iff] at h
  obtain ⟨md, hOld, hNew⟩ := h
  refine ⟨md, hOld, ?_⟩
  rw [← hNew]
  split
  · exact .inl rfl
  · exact .inr rfl

namespace Serving

variable {symbols : Symbols} {marketData : List MarketData}

/-- An update keeps the streams in step with the list. -/
theorem updated {c : Controller} (h : Serving c.shared.symbols c.marketData)
    (names : List Symbol) :
    Serving (c.updated names).shared.symbols (c.updated names).marketData := by
  rw [Controller.updated_shared]
  refine ⟨?_, fun k md' hGet => ?_, fun md' hMem hReady method => ?_⟩
  · have hGrows := Symbols.size_le_append_size c.shared.symbols names
    have hStreams := h.streams
    rw [Controller.length_updated]
    unfold Controller.missing
    show _ = (c.shared.symbols.append names).size
    omega
  · rcases Controller.updated_stream hGet with ⟨md, hOld, rfl⟩ | ⟨hIndex, _⟩
    · rw [MarketData.subscribed_index]
      exact h.index k md hOld
    · exact hIndex
  · obtain ⟨k, hGet⟩ := List.mem_iff_getElem?.mp hMem
    rcases Controller.updated_stream hGet with ⟨md, hOld, rfl⟩ | ⟨_, hNotReady⟩
    · rw [MarketData.subscribed_ready] at hReady
      have hAsked := h.asked md (List.mem_of_getElem? hOld) hReady method
      rw [MarketData.subscribed_index, Symbols.getSlice_append, ← hAsked]
      unfold MarketData.subscribed
      rw [if_pos hReady]
      exact requested_asked method _ md
    · rw [hNotReady] at hReady
      exact nomatch hReady

/-- A change of one connection: the stream keeps its index and, if it is ready
afterwards, has asked for its slice. -/
theorem modify (h : Serving symbols marketData) (k : Nat) (g : MarketData → MarketData)
    (hIndex : ∀ md, (g md).index = md.index)
    (hAsked : ∀ md, (g md).ready = true → ∀ method,
      requested method (g md).sent = symbols.getSlice md.index 0) :
    Serving symbols (marketData.modify k g) := by
  refine ⟨?_, fun i md' hGet => ?_, fun md' hMem hReady method => ?_⟩
  · rw [List.length_modify]
    exact h.streams
  · obtain ⟨md, hOld, rfl | rfl⟩ := stream_of_modify hGet
    · rw [hIndex]
      exact h.index i md hOld
    · exact h.index i md' hOld
  · obtain ⟨i, hGet⟩ := List.mem_iff_getElem?.mp hMem
    obtain ⟨md, hOld, rfl | rfl⟩ := stream_of_modify hGet
    · rw [hIndex]
      exact hAsked md hReady method
    · exact h.asked md' (List.mem_of_getElem? hOld) hReady method

theorem readied (h : Serving symbols marketData) (k : Nat) :
    Serving symbols (marketData.modify k (·.readied symbols)) := by
  apply h.modify k
  · exact MarketData.readied_index symbols
  · intro md _ method
    have hReady : md.connected.ready = true := rfl
    unfold MarketData.readied MarketData.subscribed
    rw [if_pos hReady, requested_asked]
    rfl

theorem dropped (h : Serving symbols marketData) (k : Nat) :
    Serving symbols (marketData.modify k MarketData.dropped) := by
  apply h.modify k
  · exact MarketData.dropped_index
  · intro md hReady
    rw [MarketData.dropped_ready] at hReady
    exact nomatch hReady

end Serving

namespace Distributed

theorem create (maxSubscriptions : Nat) (hMax : 0 < maxSubscriptions)
    (exchange : String) : Distributed (.create maxSubscriptions hMax exchange) where
  known _ := by
    show _ ∈ (∅ : Finset Symbol) ↔ _ ∈ ([] : List Symbol)
    simp
  nodup := List.nodup_nil
  serving := by
    refine ⟨?_, fun k md h => (nomatch h), fun md h => (nomatch h)⟩
    show 0 = sliceCount maxSubscriptions 0
    unfold sliceCount
    rw [Nat.div_eq_of_lt (by omega)]

/-- **Step lemma**: every event keeps the distribution. -/
theorem step {c : Controller} (h : Distributed c) (e : Event) : Distributed (c.step e) := by
  rcases c.step_cases e with ⟨c', hSymbols, hMarketData, hKnown, hStep⟩ |
    ⟨k, rfl, hStep⟩ | ⟨k, rfl, hStep⟩
  · have hServing : Serving c'.shared.symbols c'.marketData := by
      rw [hSymbols, hMarketData]
      exact h.serving
    rcases hStep with hStep | ⟨hNone, hStep⟩
    · rw [hStep]
      refine ⟨fun name => ?_, ?_, hServing.updated _⟩
      · rw [Controller.updated_shared]
        show name ∈ c'.shared.allSymbols ↔ name ∈ c'.shared.symbols.names ++ _
        rw [hKnown, hSymbols, List.mem_append, mem_fresh, ← h.known]
        by_cases hOld : name ∈ c.shared.allSymbols
        · exact iff_of_true (.inl hOld) (.inl hOld)
        · simp [hOld]
      · rw [Controller.updated_shared]
        show (c'.shared.symbols.names ++ _).Nodup
        rw [hSymbols, List.nodup_append]
        refine ⟨h.nodup, fresh_nodup _ _, fun x hx y hy => ?_⟩
        rintro rfl
        exact (mem_fresh.mp hy).2 ((h.known x).mpr hx)
    · rw [hStep]
      refine ⟨fun name => ?_, by rw [hSymbols]; exact h.nodup, hServing⟩
      rw [hKnown, hSymbols, ← h.known]
      exact ⟨fun hName => hName.elim id (mem_of_fresh_eq_nil hNone), .inl⟩
  · rw [hStep]
    exact ⟨h.known, h.nodup, h.serving.readied k⟩
  · rw [hStep]
    exact ⟨h.known, h.nodup, h.serving.dropped k⟩

end Distributed

/-- Events never change the width of a slice. -/
theorem step_maxSubscriptions (c : Controller) (e : Event) :
    (c.step e).shared.symbols.maxSubscriptions = c.shared.symbols.maxSubscriptions := by
  rcases c.step_cases e with ⟨c', hSymbols, _, _, hStep⟩ | ⟨k, _, hStep⟩ | ⟨k, _, hStep⟩
  · rcases hStep with hStep | ⟨_, hStep⟩
    · rw [hStep, Controller.updated_shared, Symbols.append_maxSubscriptions, hSymbols]
    · rw [hStep, hSymbols]
  · rw [hStep]
    rfl
  · rw [hStep]
    rfl

/-! ## The distribution -/

/-- Every known name has its place in one slice, and only known names have one; there
is one stream for each non-empty slice, at the position of the slice; and what a ready
stream has asked for on its connection, by each method, is its slice. -/
structure OneStreamEach (maxSubscriptions : Nat) (c : Controller) : Prop where
  once : ∀ name ∈ c.shared.allSymbols, ∃ k,
    (c.shared.symbols.getSlice k 0).count name = 1 ∧
      ∀ i, name ∈ c.shared.symbols.getSlice i 0 → i = k
  only : ∀ k, ∀ name ∈ c.shared.symbols.getSlice k 0, name ∈ c.shared.allSymbols
  streams : ∀ k, k < c.marketData.length ↔ c.shared.symbols.getSlice k 0 ≠ []
  index : ∀ (k : Nat) (md : MarketData), c.marketData[k]? = some md → md.index = k
  width : ∀ k, (c.shared.symbols.getSlice k 0).length ≤ maxSubscriptions
  asked : ∀ md ∈ c.marketData, md.ready = true → ∀ method,
    (requested method md.sent).Nodup ∧
      requested method md.sent = c.shared.symbols.getSlice md.index 0

theorem Distributed.oneStreamEach {c : Controller} (h : Distributed c) :
    OneStreamEach c.shared.symbols.maxSubscriptions c where
  once name hName := by
    obtain ⟨k, _, hMem⟩ := Symbols.exists_mem_getSlice ((h.known name).mp hName)
    refine ⟨k, ?_, fun i hOther => slice_index_unique h.nodup hOther hMem⟩
    exact List.count_eq_one_of_mem (slice_nodup h.nodup) hMem
  only k name hName := (h.known name).mpr (Symbols.mem_names_of_mem_getSlice hName)
  streams k := by
    rw [Symbols.getSlice_ne_nil_iff, h.serving.streams]
  index := h.serving.index
  width k := length_slice_le _ _ _
  asked md hMem hReady method := by
    have hAsked := h.serving.asked md hMem hReady method
    refine ⟨?_, hAsked⟩
    rw [hAsked]
    exact slice_nodup h.nodup

/--
**Distribution.**  From the start, after any events in any order, every known name is
in exactly one slice and exactly once, there are as many streams as non-empty slices
and each serves its own, and a ready stream has asked for exactly its slice.
-/
theorem one_stream_each (maxSubscriptions : Nat) (hMax : 0 < maxSubscriptions)
    (exchange : String) (es : List Event) :
    OneStreamEach maxSubscriptions
      (run Controller.step (.create maxSubscriptions hMax exchange) es) := by
  have hWidth : (run Controller.step (.create maxSubscriptions hMax exchange)
      es).shared.symbols.maxSubscriptions = maxSubscriptions :=
    run_invariant Controller.step
      (I := fun c => c.shared.symbols.maxSubscriptions = maxSubscriptions) rfl
      (fun c e h => (step_maxSubscriptions c e).trans h) es
  have hRun : Distributed (run Controller.step (.create maxSubscriptions hMax exchange) es) :=
    run_invariant Controller.step (Distributed.create maxSubscriptions hMax exchange)
      (fun _ e h => h.step e) es
  have hEach := hRun.oneStreamEach
  rw [hWidth] at hEach
  exact hEach

/-- An item with a name and nothing else. -/
def named (name : Symbol) (discard : Bool) : AckItem := ({ name := name }, discard)

theorem one_stream_each_reconnected :
    0 < 2 ∧ OneStreamEach 2 (run Controller.step (.create 2 (by decide) "whitebit")
      [.marketInfoAck [named "A" false, named "B" true, named "C" false], .ready 0,
        .subscribe ["D", "A"], .disconnected 0, .ready 1, .ready 0]) :=
  ⟨by decide, one_stream_each 2 (by decide) "whitebit" _⟩

end RoqWhitebit.Gateway
