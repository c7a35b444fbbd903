import RoqWhitebit.Gateway.Coverage

/-!
# What is lost and what brings it back

A ready stream whose slice grows asks for the gain only.  Depth requests add, so that by
depth the slice stays active; by the other methods nothing is but what the stream has been
given last, its whole slice by a new connection or a gain of the slice (`last_gain`).

A reconnect brings the slice back, since a stream that becomes ready asks for all of it
(`reconnect_restores`).  Once every stream has reconnected the gateway is as if nothing had
been lost (`healed_iff`).
-/

namespace RoqWhitebit.Gateway

open RoqWhitebit.General

/-- What one event makes of a stream: it subscribes to what has been appended, it is not
ready, it is left alone, or it becomes ready. -/
theorem stream_of_step {c : Controller} {e : Event} {k : Nat} {md' : MarketData}
    (h : (c.step e).marketData[k]? = some md') :
    (∃ md names, c.marketData[k]? = some md ∧
      (c.step e).shared.symbols = c.shared.symbols.append names ∧
      md' = md.subscribed (c.shared.symbols.append names) c.shared.symbols.names.length) ∨
    md'.ready = false ∨
    (∃ md, c.marketData[k]? = some md ∧ (c.step e).shared.symbols = c.shared.symbols ∧
      (md' = md ∨ e = .ready k ∧ md' = md.readied c.shared.symbols)) := by
  rcases c.step_cases e with ⟨c', hSymbols, hMarketData, -, hStep | ⟨-, hStep⟩⟩ |
    ⟨j, rfl, hStep⟩ | ⟨j, rfl, hStep⟩
  · rw [hStep] at h ⊢
    rcases Controller.updated_stream h with ⟨md, hOld, rfl⟩ | ⟨-, hNotReady⟩
    · left
      rw [hMarketData] at hOld
      rw [Controller.updated_shared, hSymbols]
      exact ⟨md, _, hOld, rfl, rfl⟩
    · exact .inr (.inl hNotReady)
  · rw [hStep, hMarketData] at h
    rw [hStep]
    exact .inr (.inr ⟨md', h, hSymbols, .inl rfl⟩)
  · rw [hStep] at h ⊢
    by_cases hPlace : j = k
    · obtain ⟨md, hOld, hNew | hSame⟩ := stream_of_modify h
      · exact .inr (.inr ⟨md, hOld, rfl, .inr ⟨by rw [hPlace], hNew⟩⟩)
      · exact .inr (.inr ⟨md, hOld, rfl, .inl hSame⟩)
    · have hOther : c.marketData[k]? = some md' := by
        rw [← List.getElem?_modify_ne _ _ hPlace]
        exact h
      exact .inr (.inr ⟨md', hOther, rfl, .inl rfl⟩)
  · rw [hStep] at h ⊢
    obtain ⟨md, hOld, rfl | rfl⟩ := stream_of_modify h
    · exact .inr (.inl (MarketData.dropped_ready md))
    · exact .inr (.inr ⟨_, hOld, rfl, .inl rfl⟩)

/-- A stream that is there has something in its slice. -/
theorem Distributed.getSlice_ne_nil {c : Controller} (h : Distributed c) {k : Nat}
    {md : MarketData} (hGet : c.marketData[k]? = some md) :
    c.shared.symbols.getSlice md.index 0 ≠ [] := by
  have hLt := (List.getElem?_eq_some_iff.mp hGet).1
  rw [Symbols.getSlice_ne_nil_iff, h.serving.index k md hGet, ← h.serving.streams]
  exact hLt

/-! ## Reconnecting -/

/-- A slice never loses anything. -/
theorem getSlice_step (c : Controller) (e : Event) (k : Nat) :
    c.shared.symbols.getSlice k 0 <+: (c.step e).shared.symbols.getSlice k 0 := by
  rcases c.step_cases e with ⟨c', hSymbols, -, -, hStep | ⟨-, hStep⟩⟩ | ⟨j, rfl, hStep⟩ |
    ⟨j, rfl, hStep⟩
  · rw [hStep, Controller.updated_shared, hSymbols]
    show _ <+: (c.shared.symbols.append _).getSlice k 0
    rw [Symbols.getSlice_append]
    exact List.prefix_append _ _
  · rw [hStep, hSymbols]
  · rw [hStep]
    exact List.prefix_rfl
  · rw [hStep]
    exact List.prefix_rfl

theorem getSlice_run (c : Controller) (es : List Event) (k : Nat) :
    c.shared.symbols.getSlice k 0 <+: (run Controller.step c es).shared.symbols.getSlice k 0 :=
  run_invariant Controller.step
    (I := fun c' => c.shared.symbols.getSlice k 0 <+: c'.shared.symbols.getSlice k 0)
    List.prefix_rfl (fun c' e h => h.trans (getSlice_step c' e k)) es

/-- If stream `k` is ready then it covers its slice. -/
def CoveredAt (k : Nat) (c : Controller) : Prop :=
  ∀ md, c.marketData[k]? = some md → md.ready = true → Covers c.shared.symbols md

/-- **Step lemma**: an event that adds nothing to the slice leaves it covered. -/
theorem coveredAt_step {c : Controller} {k : Nat} (hDistributed : Distributed c)
    (h : CoveredAt k c) {e : Event}
    (hSlice : (c.step e).shared.symbols.getSlice k 0 = c.shared.symbols.getSlice k 0) :
    CoveredAt k (c.step e) := by
  intro md' hGet hReady
  rcases stream_of_step hGet with ⟨md, names, hOld, hSymbols, rfl⟩ | hNotReady |
    ⟨md, hOld, hSymbols, rfl | ⟨-, rfl⟩⟩
  · rw [MarketData.subscribed_ready] at hReady
    rw [hSymbols] at hSlice ⊢
    have hIndex := hDistributed.serving.index k md hOld
    have hGain : (c.shared.symbols.append names).getSlice md.index
        c.shared.symbols.names.length = [] := by
      have hAppend := Symbols.getSlice_append c.shared.symbols names md.index
      rw [hIndex, hSlice] at hAppend
      rw [hIndex]
      exact List.self_eq_append_right.mp hAppend
    intro method
    rw [MarketData.subscribed_index, Symbols.getSlice_append, hGain, List.append_nil]
    unfold MarketData.subscribed
    rw [if_pos hReady, hGain]
    exact h md hOld hReady method
  · rw [hNotReady] at hReady
    exact nomatch hReady
  · rw [hSymbols]
    exact h md' hOld hReady
  · rw [hSymbols]
    exact covers_readied _ md

/-- The stream that has just become ready covers its slice. -/
theorem coveredAt_ready (c : Controller) (k : Nat) : CoveredAt k (c.step (.ready k)) := by
  intro md' hGet _
  rw [Controller.step_ready] at hGet ⊢
  change (c.marketData.modify k _)[k]? = some md' at hGet
  rw [List.getElem?_modify_eq, Option.map_eq_map, Option.map_eq_some_iff] at hGet
  obtain ⟨md, -, rfl⟩ := hGet
  exact covers_readied _ md

theorem coveredAt_run {c : Controller} {k : Nat} (hDistributed : Distributed c)
    (h : CoveredAt k c) (es : List Event)
    (hSlice : (run Controller.step c es).shared.symbols.getSlice k 0 =
      c.shared.symbols.getSlice k 0) :
    CoveredAt k (run Controller.step c es) := by
  induction es generalizing c with
  | nil => exact h
  | cons e es ih =>
      -- The slice is between what it was before and what it is in the end.
      have hFirst := getSlice_step c e k
      have hRest := getSlice_run (c.step e) es k
      rw [run_cons] at hSlice ⊢
      rw [hSlice] at hRest
      have hSame : (c.step e).shared.symbols.getSlice k 0 = c.shared.symbols.getSlice k 0 :=
        hRest.eq_of_length_le hFirst.length_le
      exact ih (hDistributed.step e) (coveredAt_step hDistributed h hSame)
        (hSlice.trans hSame.symm)

theorem distributed_run (maxSubscriptions : Nat) (hMax : 0 < maxSubscriptions)
    (exchange : String) (es : List Event) :
    Distributed (run Controller.step (.create maxSubscriptions hMax exchange) es) :=
  run_invariant Controller.step (Distributed.create maxSubscriptions hMax exchange)
    (fun _ e h => h.step e) es

/--
**A reconnect restores.**  After any events, once stream `k` has become ready and until
its slice grows, whatever else happens, its slice is what is active on its connection by
every method whenever it is ready.
-/
theorem reconnect_restores (maxSubscriptions : Nat) (hMax : 0 < maxSubscriptions)
    (exchange : String) (es fs : List Event) (k : Nat)
    (hSlice : (run Controller.step (.create maxSubscriptions hMax exchange)
        (es ++ .ready k :: fs)).shared.symbols.getSlice k 0 =
      (run Controller.step (.create maxSubscriptions hMax exchange)
        es).shared.symbols.getSlice k 0) :
    CoveredAt k (run Controller.step (.create maxSubscriptions hMax exchange)
      (es ++ .ready k :: fs)) := by
  have hDistributed := distributed_run maxSubscriptions hMax exchange es
  rw [run_append, run_cons] at hSlice ⊢
  apply coveredAt_run (hDistributed.step _) (coveredAt_ready _ k) fs
  rw [hSlice, Controller.step_ready]
  rfl

/-- A symbol is lost and comes back with the next connection; a later name fills another
slice. -/
theorem reconnect_restores_lost_symbol :
    0 < 2 ∧
    (run Controller.step (.create 2 (by decide) "whitebit")
        ([.marketInfoAck [named "A" false], .ready 0, .subscribe ["B"], .disconnected 0] ++
          .ready 0 :: [.subscribe ["C"], .ready 1])).shared.symbols.getSlice 0 0 =
      (run Controller.step (.create 2 (by decide) "whitebit")
        [.marketInfoAck [named "A" false], .ready 0, .subscribe ["B"],
          .disconnected 0]).shared.symbols.getSlice 0 0 ∧
    CoveredAt 0 (run Controller.step (.create 2 (by decide) "whitebit")
      ([.marketInfoAck [named "A" false], .ready 0, .subscribe ["B"], .disconnected 0] ++
        .ready 0 :: [.subscribe ["C"], .ready 1])) := by
  have hSlice : (run Controller.step (.create 2 (by decide) "whitebit")
        ([.marketInfoAck [named "A" false], .ready 0, .subscribe ["B"], .disconnected 0] ++
          .ready 0 :: [.subscribe ["C"], .ready 1])).shared.symbols.getSlice 0 0 =
      (run Controller.step (.create 2 (by decide) "whitebit")
        [.marketInfoAck [named "A" false], .ready 0, .subscribe ["B"],
          .disconnected 0]).shared.symbols.getSlice 0 0 := by decide +kernel
  exact ⟨by decide, hSlice, reconnect_restores 2 (by decide) "whitebit" _ _ 0 hSlice⟩

/-! ## What a stream has been given last -/

/-- What an event gives to stream `k`: its slice when its connection becomes ready,
otherwise what the slice gains. -/
def gained (k : Nat) (c : Controller) : Event → List Symbol
  | .ready j => if j = k then c.shared.symbols.getSlice k 0 else []
  | e => (c.step e).shared.symbols.getSlice k c.shared.symbols.names.length

/-- What counts after a gain: it does, unless it is empty. -/
def latest (before gain : List Symbol) : List Symbol := if gain = [] then before else gain

/-- What stream `k` has been given last in a run that starts with `last`. -/
def lastGained (k : Nat) (c : Controller) (last : List Symbol) : List Event → List Symbol
  | [] => last
  | e :: es => lastGained k (c.step e) (latest last (gained k c e)) es

/-- By depth the slice is active, and by the other methods these symbols. -/
structure LeftWith (symbols : Symbols) (last : List Symbol) (md : MarketData) : Prop where
  depth : active md.sent .depth = (symbols.getSlice md.index 0).toFinset
  others : ∀ method ≠ .depth, active md.sent method = last.toFinset

/-- If stream `k` is ready then it is left with these symbols. -/
def LeftWithAt (k : Nat) (last : List Symbol) (c : Controller) : Prop :=
  ∀ md, c.marketData[k]? = some md → md.ready = true → LeftWith c.shared.symbols last md

theorem LeftWith.of_covers {symbols : Symbols} {md : MarketData} (h : Covers symbols md) :
    LeftWith symbols (symbols.getSlice md.index 0) md where
  depth := h .depth
  others method _ := h method

/-- The stream asks for what is appended to its slice. -/
theorem LeftWith.subscribed {symbols : Symbols} {last : List Symbol} {md : MarketData}
    (h : LeftWith symbols last md) (hReady : md.ready = true) (names : List Symbol) :
    LeftWith (symbols.append names)
      (latest last ((symbols.append names).getSlice md.index symbols.names.length))
      (md.subscribed (symbols.append names) symbols.names.length) := by
  have hSubscribed : md.subscribed (symbols.append names) symbols.names.length =
      md.asked ((symbols.append names).getSlice md.index symbols.names.length) := by
    unfold MarketData.subscribed
    rw [if_pos hReady]
  have hSlice := Symbols.getSlice_append symbols names md.index
  unfold latest
  by_cases hGain : (symbols.append names).getSlice md.index symbols.names.length = []
  · rw [hGain, List.append_nil] at hSlice
    rw [hSubscribed, hGain, if_pos rfl]
    refine ⟨?_, h.others⟩
    show active md.sent .depth = ((symbols.append names).getSlice md.index 0).toFinset
    rw [hSlice]
    exact h.depth
  · rw [hSubscribed, if_neg hGain]
    refine ⟨?_, fun method hMethod => ?_⟩
    · rw [active_asked, if_neg hGain, if_pos rfl, MarketData.asked_index, hSlice,
        List.toFinset_append, h.depth]
    · rw [active_asked, if_neg hGain, if_neg hMethod]

/-- What an event gives to a stream that it does not make ready. -/
theorem gained_of_not_ready {k : Nat} {c : Controller} {e : Event} (hOther : e ≠ .ready k) :
    gained k c e = (c.step e).shared.symbols.getSlice k c.shared.symbols.names.length := by
  cases e with
  | ready j =>
      have hPlace : ¬j = k := fun hPlace => hOther (by rw [hPlace])
      have hSymbols : (c.step (.ready j)).shared.symbols = c.shared.symbols := by
        rw [Controller.step_ready]
        rfl
      rw [hSymbols, Symbols.getSlice_length]
      exact if_neg hPlace
  | marketInfoAck items => rfl
  | subscribe names => rfl
  | disconnected j => rfl

/-- A stream that has become ready has been given its slice. -/
theorem leftWithAt_ready {c : Controller} (h : Distributed c) (k : Nat) (last : List Symbol) :
    LeftWithAt k (latest last (gained k c (.ready k))) (c.step (.ready k)) := by
  intro md' hGet hReady
  have hSlice := (h.step (.ready k)).getSlice_ne_nil hGet
  have hIndex := (h.step (.ready k)).serving.index k md' hGet
  have hCovers := coveredAt_ready c k md' hGet hReady
  have hGained : gained k c (.ready k) = c.shared.symbols.getSlice k 0 := if_pos rfl
  have hSymbols : (c.step (.ready k)).shared.symbols = c.shared.symbols := by
    rw [Controller.step_ready]
    rfl
  rw [hIndex, hSymbols] at hSlice
  have hLeft := LeftWith.of_covers hCovers
  rw [hSymbols, hIndex] at hLeft
  rw [hSymbols, hGained, latest, if_neg hSlice]
  exact hLeft

/-- **Step lemma**: every event leaves a ready stream with what it has been given last. -/
theorem leftWithAt_step {c : Controller} (hDistributed : Distributed c) {k : Nat}
    {last : List Symbol} (h : LeftWithAt k last c) (e : Event) :
    LeftWithAt k (latest last (gained k c e)) (c.step e) := by
  by_cases hRenewed : e = .ready k
  · rw [hRenewed]
    exact leftWithAt_ready hDistributed k last
  intro md' hGet hReady
  rcases stream_of_step hGet with ⟨md, names, hOld, hSymbols, rfl⟩ | hNotReady |
    ⟨md, hOld, hSymbols, rfl | ⟨hSame, -⟩⟩
  · rw [MarketData.subscribed_ready] at hReady
    rw [gained_of_not_ready hRenewed, hSymbols, ← hDistributed.serving.index k md hOld]
    exact (h md hOld hReady).subscribed hReady names
  · rw [hNotReady] at hReady
    exact nomatch hReady
  · rw [gained_of_not_ready hRenewed, hSymbols, Symbols.getSlice_length, latest, if_pos rfl]
    exact h md' hOld hReady
  · exact absurd hSame hRenewed

/-- **Run lemma**. -/
theorem leftWithAt_run {c : Controller} (hDistributed : Distributed c) {k : Nat}
    {last : List Symbol} (h : LeftWithAt k last c) (es : List Event) :
    LeftWithAt k (lastGained k c last es) (run Controller.step c es) := by
  induction es generalizing c last with
  | nil => exact h
  | cons e es ih => exact ih (hDistributed.step e) (leftWithAt_step hDistributed h e)

/--
**What a stream is left with.**  From the start, after any events in any order, what is
active on the connection of a ready stream is its whole slice by depth, and by every other
method just what the stream has been given last: its slice by the connection, or the last
gain of the slice since.
-/
theorem last_gain (maxSubscriptions : Nat) (hMax : 0 < maxSubscriptions) (exchange : String)
    (es : List Event) (k : Nat) :
    LeftWithAt k (lastGained k (.create maxSubscriptions hMax exchange) [] es)
      (run Controller.step (.create maxSubscriptions hMax exchange) es) :=
  leftWithAt_run (Distributed.create maxSubscriptions hMax exchange)
    (fun _ hGet => nomatch hGet) es

/-- A second symbol takes the place of the first, until the stream is ready again. -/
theorem last_gain_second_symbol :
    0 < 2 ∧
    lastGained 0 (.create 2 (by decide) "whitebit") []
        [.marketInfoAck [named "A" false], .ready 0, .subscribe ["B"]] = ["B"] ∧
    LeftWithAt 0 ["B"] (run Controller.step (.create 2 (by decide) "whitebit")
      [.marketInfoAck [named "A" false], .ready 0, .subscribe ["B"]]) ∧
    lastGained 0 (.create 2 (by decide) "whitebit") []
        [.marketInfoAck [named "A" false], .ready 0, .subscribe ["B"], .disconnected 0,
          .ready 0] = ["A", "B"] ∧
    LeftWithAt 0 ["A", "B"] (run Controller.step (.create 2 (by decide) "whitebit")
      [.marketInfoAck [named "A" false], .ready 0, .subscribe ["B"], .disconnected 0,
        .ready 0]) := by
  have hGained : lastGained 0 (.create 2 (by decide) "whitebit") []
      [.marketInfoAck [named "A" false], .ready 0, .subscribe ["B"]] = ["B"] := by
    decide +kernel
  have hRenewed : lastGained 0 (.create 2 (by decide) "whitebit") []
      [.marketInfoAck [named "A" false], .ready 0, .subscribe ["B"], .disconnected 0,
        .ready 0] = ["A", "B"] := by
    decide +kernel
  have hLeft := last_gain 2 (by decide) "whitebit"
    [.marketInfoAck [named "A" false], .ready 0, .subscribe ["B"]] 0
  have hLeftRenewed := last_gain 2 (by decide) "whitebit"
    [.marketInfoAck [named "A" false], .ready 0, .subscribe ["B"], .disconnected 0,
      .ready 0] 0
  rw [hGained] at hLeft
  rw [hRenewed] at hLeftRenewed
  exact ⟨by decide, hGained, hLeft, hRenewed, hLeftRenewed⟩

/-! ## Reconnecting every stream -/

/-- Every stream becomes ready, in order. -/
def reconnectAll (n : Nat) : List Event := (List.range n).map .ready

theorem readies_keep (c : Controller) (ks : List Nat) :
    (run Controller.step c (ks.map .ready)).shared = c.shared ∧
      (run Controller.step c (ks.map .ready)).marketData.length = c.marketData.length := by
  induction ks generalizing c with
  | nil => exact ⟨rfl, rfl⟩
  | cons k ks ih =>
      have hRest := ih (c.step (.ready k))
      rw [Controller.step_ready] at hRest
      rw [List.map_cons, run_cons, Controller.step_ready]
      refine ⟨hRest.1, hRest.2.trans ?_⟩
      exact List.length_modify _ _ _

/-- Once every stream has become ready, everything is covered. -/
theorem covered_reconnectAll {c : Controller} (h : Distributed c) :
    Covered (run Controller.step c (reconnectAll c.marketData.length)) := by
  intro md hMem hReady
  obtain ⟨k, hGet⟩ := List.mem_iff_getElem?.mp hMem
  have hLength := (readies_keep c (List.range c.marketData.length)).2
  have hLt : k < c.marketData.length := by
    have hBound := (List.getElem?_eq_some_iff.mp hGet).1
    unfold reconnectAll at hBound
    omega
  have hSplit : List.range c.marketData.length =
      List.range k ++ k :: (List.range c.marketData.length).drop (k + 1) := by
    have hDrop := List.take_append_drop k (List.range c.marketData.length)
    rw [List.drop_eq_getElem_cons (by rw [List.length_range]; exact hLt), List.take_range,
      List.getElem_range, Nat.min_eq_left (by omega)] at hDrop
    exact hDrop.symm
  have hCovered : CoveredAt k (run Controller.step c (reconnectAll c.marketData.length)) := by
    unfold reconnectAll
    rw [hSplit, List.map_append, List.map_cons, run_append, run_cons]
    apply coveredAt_run _ (coveredAt_ready _ k)
    · rw [(readies_keep _ _).1]
    · apply Distributed.step
      exact run_invariant Controller.step h (fun _ e h => h.step e) _
  exact hCovered md hGet hReady

/--
**Reconnecting heals.**  After any events, with whatever they have lost, let every stream
become ready once.  Then everything is covered, and stays so in every state of what
follows if and only if no event brings a new name while a ready stream has a slice that
is not full.
-/
theorem healed_iff (maxSubscriptions : Nat) (hMax : 0 < maxSubscriptions) (exchange : String)
    (es fs : List Event) :
    let c := run Controller.step (.create maxSubscriptions hMax exchange) es
    let healed := run Controller.step c (reconnectAll c.marketData.length)
    Covered healed ∧
      (Always Controller.step Covered healed fs ↔ Along Controller.step Harmless healed fs) := by
  intro c healed
  have hDistributed : Distributed c := distributed_run maxSubscriptions hMax exchange es
  have hCovered : Covered healed := covered_reconnectAll hDistributed
  refine ⟨hCovered, ?_⟩
  have hHealed : Distributed healed :=
    run_invariant Controller.step hDistributed (fun _ e h => h.step e) _
  exact always_iff_along Controller.step hHealed hCovered (fun _ e h _ => h.step e)
    (fun _ e h _ hCovered => covered_step_iff h hCovered e) fs (along_true _ _ fs)

theorem healed_iff_lost_symbol :
    0 < 2 ∧
    (let c := run Controller.step (.create 2 (by decide) "whitebit")
      [.marketInfoAck [named "A" false], .ready 0, .subscribe ["B"]]
    let healed := run Controller.step c (reconnectAll c.marketData.length)
    Covered healed ∧
      (Always Controller.step Covered healed [.subscribe ["C"], .ready 1] ↔
        Along Controller.step Harmless healed [.subscribe ["C"], .ready 1])) :=
  ⟨by decide, healed_iff 2 (by decide) "whitebit" _ _⟩

end RoqWhitebit.Gateway
