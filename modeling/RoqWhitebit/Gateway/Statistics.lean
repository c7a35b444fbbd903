import RoqWhitebit.Gateway.Books

/-!
# Market statistics

A market message becomes five statistics.  The slot of the opening price is filled with
the item's `high`, like the slot after it, and `open` is read by nobody.  So the
opening price is right just when the market opened at its high, and two frames that
differ in `open` alone are published alike.
-/

namespace RoqWhitebit.Gateway

open RoqWhitebit.Protocol.Json

/-! ## The meaning of a statistics update -/

/-- The values an update gives for a statistic. -/
def StatisticsUpdate.values (e : StatisticsUpdate) (type : StatisticsType) : List Double :=
  (e.statistics.filter (·.type = type)).map (·.value)

/-- Every statistic is there once, with the value of its own field. -/
structure KeepsStatistics (exchange : String) (m : UInt16 × MarketUpdate)
    (e : StatisticsUpdate) : Prop where
  streamId : e.streamId = m.1
  exchange : e.exchange = exchange
  symbol : e.symbol = m.2.params.name
  openPrice : e.values .openPrice = [m.2.params.data.open]
  highestTradedPrice : e.values .highestTradedPrice = [m.2.params.data.high]
  lowestTradedPrice : e.values .lowestTradedPrice = [m.2.params.data.low]
  closePrice : e.values .closePrice = [m.2.params.data.close]
  tradeVolume : e.values .tradeVolume = [m.2.params.data.volume]

/-- Two items agree in what is published as it is. -/
def SameRange (a b : MarketUpdateParamsItemItem) : Prop :=
  a.high = b.high ∧ a.low = b.low ∧ a.close = b.close ∧ a.volume = b.volume

theorem keepsStatistics_iff (exchange : String) (m : UInt16 × MarketUpdate) :
    KeepsStatistics exchange m (statisticsUpdate exchange m.1 m.2) ↔
      m.2.params.data.open = m.2.params.data.high := by
  constructor
  · intro hKeeps
    have hOpen : [m.2.params.data.high] = [m.2.params.data.open] := hKeeps.openPrice
    exact (List.singleton_inj.mp hOpen).symm
  · intro hOpen
    exact
      { streamId := rfl
        exchange := rfl
        symbol := rfl
        openPrice := congrArg (fun value => [value]) hOpen.symm
        highestTradedPrice := rfl
        lowestTradedPrice := rfl
        closePrice := rfl
        tradeVolume := rfl }

theorem marketStatistics_eq_iff (a b : MarketUpdateParamsItemItem) :
    marketStatistics a = marketStatistics b ↔ SameRange a b := by
  unfold marketStatistics SameRange
  simp

/-! ## Runs of market messages -/

section Runs

variable (u : Utils) (dispatcher : Dispatcher) (exchange : String)

/-- The run of some market messages. -/
def handleMarketUpdates (frames : List (UInt16 × MarketUpdate)) : FeedHandler Unit :=
  handleAll u dispatcher exchange (frames.map fun m => (m.1, .marketUpdate m.2))

/-- A run publishes its frames as they are meant, one event for each. -/
def StatisticsKept (frames : List (UInt16 × MarketUpdate)) : Prop :=
  ∀ f, ∃ f' events, handleMarketUpdates u dispatcher exchange frames f = .ok () f' ∧
    f'.published = f.published ++ events.map .statisticsUpdate ∧
    List.Forall₂ (KeepsStatistics exchange) frames events

/-- Frames that differ in one of the five fields are published differently, each in a
run of its own. -/
def StatisticsDistinct (m m' : UInt16 × MarketUpdate) : Prop :=
  ∀ f g, ∃ f' e g' e',
    handleMarketUpdates u dispatcher exchange [m] f = .ok () f' ∧
    f'.published = f.published ++ [.statisticsUpdate e] ∧
    handleMarketUpdates u dispatcher exchange [m'] g = .ok () g' ∧
    g'.published = g.published ++ [.statisticsUpdate e'] ∧
    (¬ (m.2.params.data.open = m'.2.params.data.open ∧
        SameRange m.2.params.data m'.2.params.data) →
      e.statistics ≠ e'.statistics)

/-- What a run has published is what it publishes. -/
theorem Publishes.eq_of_run {m : FeedHandler Unit} {events : List Published}
    (h : Publishes m events) {f f' : Feed} {events' : List Published} (hRun : m f = .ok () f')
    (hPublished : f'.published = f.published ++ events') : events' = events := by
  obtain ⟨g, hOk, hEvents⟩ := h f
  have hSame : g = f' := (EStateM.Result.ok.inj (hOk.symm.trans hRun)).2
  rw [← hSame, hEvents] at hPublished
  exact (List.append_cancel_left hPublished).symm

variable {dispatcher} (hTakes : dispatcher.TakesAll)

include hTakes

theorem publishes_handleMarketUpdates (frames : List (UInt16 × MarketUpdate)) :
    Publishes (handleMarketUpdates u dispatcher exchange frames)
      ((frames.map fun m => statisticsUpdate exchange m.1 m.2).map .statisticsUpdate) := by
  have hEvents : (frames.map fun m => statisticsUpdate exchange m.1 m.2).map
      Published.statisticsUpdate =
        (frames.map fun m => (m.1, Message.marketUpdate m.2)).flatMap
          fun m => m.2.events exchange m.1 := by
    rw [List.flatMap_map, List.map_map, List.map_eq_flatMap]
    rfl
  rw [hEvents]
  apply publishes_handleAll u exchange hTakes
  intro m hm
  obtain ⟨frame, -, rfl⟩ := List.mem_map.mp hm
  exact trivial

theorem statisticsKept_iff (frames : List (UInt16 × MarketUpdate)) :
    StatisticsKept u dispatcher exchange frames ↔
      ∀ m ∈ frames, m.2.params.data.open = m.2.params.data.high := by
  have hEach : List.Forall₂ (KeepsStatistics exchange) frames
      (frames.map fun m => statisticsUpdate exchange m.1 m.2) ↔
        ∀ m ∈ frames, m.2.params.data.open = m.2.params.data.high := by
    rw [List.forall₂_map_right_iff, List.forall₂_same]
    exact forall₂_congr fun m _ => keepsStatistics_iff exchange m
  rw [← hEach]
  constructor
  · intro hKept
    obtain ⟨f', events, hRun, hPublished, hMeaning⟩ := hKept {}
    have hEvents :=
      (publishes_handleMarketUpdates u exchange hTakes frames).eq_of_run hRun hPublished
    have hInjective : Function.Injective Published.statisticsUpdate :=
      fun _ _ => Published.statisticsUpdate.inj
    rw [← List.map_injective_iff.mpr hInjective hEvents]
    exact hMeaning
  · intro hMeaning f
    obtain ⟨f', hRun, hPublished⟩ := publishes_handleMarketUpdates u exchange hTakes frames f
    exact ⟨f', _, hRun, hPublished, hMeaning⟩

theorem statisticsDistinct_iff (m m' : UInt16 × MarketUpdate) :
    StatisticsDistinct u dispatcher exchange m m' ↔
      m.2.params.data.open = m'.2.params.data.open ∨
        ¬ SameRange m.2.params.data m'.2.params.data := by
  have hEq := marketStatistics_eq_iff m.2.params.data m'.2.params.data
  constructor
  · intro hDistinct
    obtain ⟨f', e, g', e', hRun, hPublished, hRun', hPublished', hDiffer⟩ := hDistinct {} {}
    have hFirst :=
      (publishes_handleMarketUpdates u exchange hTakes [m]).eq_of_run hRun hPublished
    have hSecond :=
      (publishes_handleMarketUpdates u exchange hTakes [m']).eq_of_run hRun' hPublished'
    rw [Published.statisticsUpdate.inj (List.singleton_inj.mp hFirst),
      Published.statisticsUpdate.inj (List.singleton_inj.mp hSecond)] at hDiffer
    by_cases hRange : SameRange m.2.params.data m'.2.params.data
    · refine Or.inl (not_not.mp fun hOpen => ?_)
      exact hDiffer (fun hSame => hOpen hSame.1) (hEq.mpr hRange)
    · exact Or.inr hRange
  · intro hCondition f g
    obtain ⟨f', hRun, hPublished⟩ := publishes_handleMarketUpdates u exchange hTakes [m] f
    obtain ⟨g', hRun', hPublished'⟩ := publishes_handleMarketUpdates u exchange hTakes [m'] g
    refine ⟨f', _, g', _, hRun, hPublished, hRun', hPublished', fun hDiffer hSame => ?_⟩
    have hRange := hEq.mp hSame
    cases hCondition with
    | inl hOpen => exact hDiffer ⟨hOpen, hRange⟩
    | inr hOther => exact hOther hRange

end Runs

/--
**Statistics keep their meaning just when the market opened at its high**, with a
dispatcher that takes what it is handed.  And two frames that differ are told apart by what
is published, unless they differ in the opening price alone.
-/
theorem statistics_iff (u : Utils) (dispatcher : Dispatcher) (hTakes : dispatcher.TakesAll)
    (exchange : String) :
    (∀ frames, StatisticsKept u dispatcher exchange frames ↔
      ∀ m ∈ frames, m.2.params.data.open = m.2.params.data.high) ∧
    ∀ m m', StatisticsDistinct u dispatcher exchange m m' ↔
      m.2.params.data.open = m'.2.params.data.open ∨
        ¬ SameRange m.2.params.data m'.2.params.data :=
  ⟨statisticsKept_iff u exchange hTakes, statisticsDistinct_iff u exchange hTakes⟩

/-- A frame of `BTC_PERP` with a given opening price. -/
def openedAt (price : ℚ) : MarketUpdate :=
  { params :=
    { name := "BTC_PERP"
      data :=
        { «open» := some price
          close := some 63776
          high := some 64022.6
          low := some 62346.8
          volume := some 51109.179
          deal := some 3234693364.6174
          last := some 63776
          period := 86400 } } }

theorem statistics_iff_takesAll :
    takesAll.TakesAll ∧
    (∀ frames, StatisticsKept .standard takesAll "whitebit" frames ↔
      ∀ m ∈ frames, m.2.params.data.open = m.2.params.data.high) ∧
    ∀ m m', StatisticsDistinct .standard takesAll "whitebit" m m' ↔
      m.2.params.data.open = m'.2.params.data.open ∨
        ¬ SameRange m.2.params.data m'.2.params.data :=
  ⟨fun _ _ => rfl, statistics_iff .standard takesAll (fun _ _ => rfl) "whitebit"⟩

/-- The opening price 63170 is published as 64022.6, and so is any other. -/
theorem openPrice_is_high :
    ¬ StatisticsKept .standard takesAll "whitebit" [(2, openedAt 63170)] ∧
    ¬ StatisticsDistinct .standard takesAll "whitebit" (2, openedAt 63170)
      (2, openedAt 63000) := by
  have hTakes : takesAll.TakesAll := fun _ _ => rfl
  have hRange : SameRange (openedAt 63170).params.data (openedAt 63000).params.data :=
    ⟨rfl, rfl, rfl, rfl⟩
  rw [statisticsKept_iff .standard "whitebit" hTakes,
    statisticsDistinct_iff .standard "whitebit" hTakes]
  refine ⟨fun h => ?_, fun h => ?_⟩
  · have hHigh : (some 63170 : Double) = some 64022.6 := h _ List.mem_cons_self
    norm_num at hHigh
  · have hOpen : (some 63170 : Double) = some 63000 := h.resolve_right (not_not.mpr hRange)
    norm_num at hOpen

end RoqWhitebit.Gateway
