import Mathlib.Data.Finset.Dedup
import Mathlib.Data.Finset.Lattice.Lemmas
import RoqWhitebit.Gateway.Distribution

/-!
# What the exchange sends

The exchange requires re-subscription of all symbols: a list-style request replaces
what its method was subscribed to, while a depth request whose last parameter is
`true` adds one symbol.  A new connection starts with nothing.

A stream that gains symbols while it is ready asks for the gain only.  This file
determines exactly when its slice is still active by every method.
-/

namespace RoqWhitebit.Gateway

open RoqWhitebit.General

/-! ## The exchange -/

/-- The symbols that are active on a connection, by method. -/
abbrev Active := SubscribeMethod → Finset Symbol

/-- The exchange receives a request. -/
def receive (active : Active) : Request → Active
  | .list _ method symbols => fun m => if m = method then symbols.toFinset else active m
  | .level _ method symbol _ => fun m =>
      if m = method then insert symbol (active m) else active m

/-- What is active on a connection after these requests. -/
def active (sent : List Request) : Active := sent.foldl receive fun _ => ∅

theorem foldl_receive_levelRequests (a : Active) (id : UInt64) (symbols : List Symbol)
    (method : SubscribeMethod) :
    (MarketData.levelRequests id symbols).foldl receive a method =
      if method = .depth then a method ∪ symbols.toFinset else a method := by
  induction symbols generalizing a id with
  | nil => simp [MarketData.levelRequests]
  | cons symbol symbols ih =>
      show (MarketData.levelRequests (id + 1) symbols).foldl receive
        (receive a (.level (id + 1) .depth symbol 100)) method = _
      rw [ih]
      by_cases hDepth : method = .depth
      · rw [if_pos hDepth, if_pos hDepth, List.toFinset_cons, Finset.union_insert,
          ← Finset.insert_union]
        simp only [receive, if_pos hDepth]
      · rw [if_neg hDepth, if_neg hDepth]
        simp only [receive, if_neg hDepth]

/-- After asking for some symbols, depth has gained them and every other method has
nothing else. -/
theorem foldl_receive_requests (a : Active) (id : UInt64) (symbols : List Symbol)
    (method : SubscribeMethod) :
    (MarketData.requests id symbols).foldl receive a method =
      if method = .depth then a method ∪ symbols.toFinset else symbols.toFinset := by
  unfold MarketData.requests
  rw [List.foldl_append, List.foldl_cons]
  cases method <;> simp [receive, foldl_receive_levelRequests]

theorem active_asked (symbols : List Symbol) (md : MarketData) (method : SubscribeMethod) :
    active (md.asked symbols).sent method =
      if symbols = [] then active md.sent method
      else if method = .depth then active md.sent method ∪ symbols.toFinset
      else symbols.toFinset := by
  unfold MarketData.asked
  cases symbols with
  | nil => rfl
  | cons symbol symbols =>
      rw [if_neg (List.cons_ne_nil symbol symbols)]
      show active (md.sent ++ _) method = _
      unfold active
      rw [List.foldl_append, foldl_receive_requests]

/-! ## Coverage -/

/-- A stream's slice is what is active on its connection, by every method. -/
def Covers (symbols : Symbols) (md : MarketData) : Prop :=
  ∀ method, active md.sent method = (symbols.getSlice md.index 0).toFinset

/-- The slice of every ready stream is what is active on its connection. -/
def Covered (c : Controller) : Prop :=
  ∀ md ∈ c.marketData, md.ready = true → Covers c.shared.symbols md

/-- The event brings no new name, or every ready stream has a full slice. -/
def Harmless (c : Controller) (e : Event) : Prop :=
  fresh c.shared.allSymbols e.offered = [] ∨
    ∀ md ∈ c.marketData, md.ready = true →
      (c.shared.symbols.getSlice md.index 0).length = c.shared.symbols.maxSubscriptions

theorem covers_readied (symbols : Symbols) (md : MarketData) :
    Covers symbols (md.readied symbols) := by
  intro method
  have hReady : md.connected.ready = true := rfl
  have hNothing : active md.connected.sent method = ∅ := rfl
  rw [MarketData.readied_index]
  unfold MarketData.readied MarketData.subscribed
  rw [if_pos hReady, active_asked, hNothing]
  show (if symbols.getSlice md.index 0 = [] then _ else _) = _
  split
  · next hEmpty => rw [hEmpty]; rfl
  · split
    · exact Finset.empty_union _
    · rfl

/-- A ready stream that covers a non-empty slice still does after an update only if the
slice gains nothing. -/
theorem covers_subscribed_iff {symbols : Symbols} {names : List Symbol} {md : MarketData}
    (hReady : md.ready = true) (hCovers : Covers symbols md)
    (hSlice : symbols.getSlice md.index 0 ≠ [])
    (hNodup : (symbols.append names).names.Nodup) :
    Covers (symbols.append names)
        (md.subscribed (symbols.append names) symbols.names.length) ↔
      (symbols.append names).getSlice md.index symbols.names.length = [] := by
  unfold Covers
  rw [MarketData.subscribed_index, Symbols.getSlice_append]
  unfold MarketData.subscribed
  rw [if_pos hReady]
  constructor
  · intro h
    by_contra hGain
    have hTrades := h .trades
    rw [active_asked, if_neg hGain, if_neg (by decide)] at hTrades
    obtain ⟨name, hOld⟩ := List.exists_mem_of_ne_nil _ hSlice
    have hNew : name ∈ (symbols.append names).getSlice md.index symbols.names.length := by
      rw [← List.mem_toFinset, hTrades, List.mem_toFinset, List.mem_append]
      exact .inl hOld
    have hDisjoint : (symbols.getSlice md.index 0 ++
        (symbols.append names).getSlice md.index symbols.names.length).Nodup := by
      rw [← Symbols.getSlice_append]
      exact slice_nodup hNodup
    exact (List.nodup_append.mp hDisjoint).2.2 name hOld name hNew rfl
  · intro hGain method
    rw [active_asked, if_pos hGain, hGain, List.append_nil]
    exact hCovers method

/-! ## Steps and runs -/

/-- After an update the ready streams are covered only if nothing was appended or their
slices were full. -/
theorem covered_updated_iff {c : Controller}
    (hServing : Serving c.shared.symbols c.marketData) (hCovered : Covered c)
    (names : List Symbol) (hNodup : (c.shared.symbols.append names).names.Nodup) :
    Covered (c.updated names) ↔
      names = [] ∨ ∀ md ∈ c.marketData, md.ready = true →
        (c.shared.symbols.getSlice md.index 0).length =
          c.shared.symbols.maxSubscriptions := by
  have hStream : ∀ md ∈ c.marketData, md.ready = true →
      (Covers (c.shared.symbols.append names)
          (md.subscribed (c.shared.symbols.append names) c.shared.symbols.names.length) ↔
        names = [] ∨ (c.shared.symbols.getSlice md.index 0).length =
          c.shared.symbols.maxSubscriptions) := by
    intro md hMem hReady
    have hSlice : c.shared.symbols.getSlice md.index 0 ≠ [] := by
      obtain ⟨k, hGet⟩ := List.mem_iff_getElem?.mp hMem
      have hLt := (List.getElem?_eq_some_iff.mp hGet).1
      rw [Symbols.getSlice_ne_nil_iff, hServing.index k md hGet, ← hServing.streams]
      exact hLt
    rw [covers_subscribed_iff hReady (hCovered md hMem hReady) hSlice hNodup]
    exact Symbols.getSlice_append_eq_nil_iff names hSlice
  unfold Covered
  rw [Controller.updated_shared]
  constructor
  · intro h
    by_cases hNames : names = []
    · exact .inl hNames
    · right
      intro md hMem hReady
      have hCovers := h _ (Controller.mem_updated hMem)
        (by rw [MarketData.subscribed_ready]; exact hReady)
      exact ((hStream md hMem hReady).mp hCovers).resolve_left hNames
  · intro h md' hMem hReady
    obtain ⟨k, hGet⟩ := List.mem_iff_getElem?.mp hMem
    rcases Controller.updated_stream hGet with ⟨md, hOld, rfl⟩ | ⟨_, hNotReady⟩
    · rw [MarketData.subscribed_ready] at hReady
      have hOldMem := List.mem_of_getElem? hOld
      exact (hStream md hOldMem hReady).mpr (h.imp id fun hFull => hFull md hOldMem hReady)
    · rw [hNotReady] at hReady
      exact nomatch hReady

/-- A change of one connection that leaves its stream covered or not ready. -/
theorem Covered.modify {c : Controller} (h : Covered c) (k : Nat)
    (g : MarketData → MarketData)
    (hCovers : ∀ md, (g md).ready = true → Covers c.shared.symbols (g md)) :
    Covered (c.setMarketData (c.marketData.modify k g)) := by
  intro md' hMem hReady
  obtain ⟨i, hGet⟩ := List.mem_iff_getElem?.mp hMem
  obtain ⟨md, hOld, rfl | rfl⟩ := stream_of_modify hGet
  · exact hCovers md hReady
  · exact h md' (List.mem_of_getElem? hOld) hReady

/-- **Step lemma**: one event keeps the ready streams covered exactly if it is
harmless. -/
theorem covered_step_iff {c : Controller} (h : Distributed c) (hCovered : Covered c)
    (e : Event) : Covered (c.step e) ↔ Harmless c e := by
  have hNext := h.step e
  rcases c.step_cases e with ⟨c', hSymbols, hMarketData, _, hStep | ⟨hNone, hStep⟩⟩ |
    ⟨k, rfl, hStep⟩ | ⟨k, rfl, hStep⟩
  · have hServing : Serving c'.shared.symbols c'.marketData := by
      rw [hSymbols, hMarketData]
      exact h.serving
    have hCovered' : Covered c' := by
      unfold Covered
      rw [hSymbols, hMarketData]
      exact hCovered
    have hNodup := hNext.nodup
    rw [hStep, Controller.updated_shared] at hNodup
    rw [hStep, covered_updated_iff hServing hCovered' _ hNodup, hSymbols, hMarketData]
    rfl
  · apply iff_of_true
    · rw [hStep]
      unfold Covered
      rw [hSymbols, hMarketData]
      exact hCovered
    · exact .inl hNone
  · apply iff_of_true
    · rw [hStep]
      exact hCovered.modify k _ fun md _ => covers_readied _ md
    · exact .inl rfl
  · apply iff_of_true
    · rw [hStep]
      apply hCovered.modify k
      intro md hReady
      rw [MarketData.dropped_ready] at hReady
      exact nomatch hReady
    · exact .inl rfl

/--
**Coverage.**  Over any run from the start, the slice of every ready stream is what is
active on its connection in every state, by every method, if and only if no event of
the run brings a new name while a ready stream has a slice that is not full.
-/
theorem covered_iff (maxSubscriptions : Nat) (hMax : 0 < maxSubscriptions)
    (exchange : String) (es : List Event) :
    Always Controller.step Covered (.create maxSubscriptions hMax exchange) es ↔
      Along Controller.step Harmless (.create maxSubscriptions hMax exchange) es :=
  always_iff_along Controller.step (Distributed.create maxSubscriptions hMax exchange)
    (fun _ hMem => nomatch hMem) (fun _ e h _ => h.step e)
    (fun _ e h _ hCovered => covered_step_iff h hCovered e) es (along_true _ _ es)

/-- Two acknowledgements that fill the slices, on streams that are ready. -/
theorem covered_iff_full_slices :
    0 < 1 ∧ (Always Controller.step Covered (.create 1 (by decide) "whitebit")
        [.marketInfoAck [named "A" false], .ready 0, .marketInfoAck [named "B" false]] ↔
      Along Controller.step Harmless (.create 1 (by decide) "whitebit")
        [.marketInfoAck [named "A" false], .ready 0, .marketInfoAck [named "B" false]]) :=
  ⟨by decide, covered_iff 1 (by decide) "whitebit" _⟩

/-- A second symbol on a ready stream replaces the first one by every method but
depth. -/
theorem second_symbol_replaces_first :
    let c := run Controller.step (.create 2 (by decide) "whitebit")
      [.marketInfoAck [named "A" false], .ready 0, .subscribe ["B"]]
    c.shared.symbols.getSlice 0 0 = ["A", "B"] ∧
      (c.marketData.map fun md => (md.ready, md.index, active md.sent .depth,
        active md.sent .trades)) = [(true, 0, {"A", "B"}, {"B"})] ∧
      ¬ Covered c := by
  intro c
  have hLost : ∃ md ∈ c.marketData, md.ready = true ∧
      active md.sent .trades ≠ (c.shared.symbols.getSlice md.index 0).toFinset := by
    decide +kernel
  refine ⟨by decide +kernel, by decide +kernel, fun h => ?_⟩
  obtain ⟨md, hMem, hReady, hTrades⟩ := hLost
  exact hTrades (h md hMem hReady .trades)

end RoqWhitebit.Gateway
