import RoqWhitebit.General.Blocks
import RoqWhitebit.Gateway.Distribution
import RoqWhitebit.Gateway.Requests

/-!
# Stream and request identifiers

The controller numbers its streams with a 16-bit counter, and a stream numbers its
requests with a 64-bit counter that starts at its own number times a million and goes
on over all reconnects.  So the requests of a stream are a block of consecutive
identifiers, a million away from the block of the next stream, and nothing stops a
block from growing into the next one.

`Numbered` is the invariant, and `Room` says what keeps the identifiers apart.
-/

namespace RoqWhitebit.Gateway

open RoqWhitebit.General

/-- The identifier of a request. -/
def Request.id : Request → UInt64
  | .list id _ _ => id
  | .level id _ _ _ => id

namespace MarketData

/-- The identifiers of all requests the stream has ever sent. -/
def requestIds (md : MarketData) : List UInt64 :=
  (md.sentBefore ++ md.sent).map Request.id

/-- The number of requests the stream has ever sent. -/
def requestCount (md : MarketData) : Nat := (md.sentBefore ++ md.sent).length

/-- Where the counter of the stream starts. -/
def base (md : MarketData) : UInt64 := md.streamId.toUInt64 * 1000000

/-! ## The requests of one stream -/

theorem advance_eq (id : UInt64) (symbols : List Symbol) :
    advance id symbols = id + UInt64.ofNat symbols.length := by
  induction symbols generalizing id with
  | nil => exact (UInt64.add_zero id).symm
  | cons symbol symbols ih =>
      rw [advance, ih, UInt64.add_assoc, List.length_cons, Nat.add_comm, UInt64.ofNat_add]
      rfl

theorem levelRequests_ids (id : UInt64) (symbols : List Symbol) :
    (levelRequests id symbols).map Request.id = block id symbols.length := by
  induction symbols generalizing id with
  | nil => rfl
  | cons symbol symbols ih =>
      rw [levelRequests, List.map_cons, ih]
      rfl

/-- The requests for some symbols have the next identifiers, one each. -/
theorem requests_ids (id : UInt64) (symbols : List Symbol) :
    (requests id symbols).map Request.id = block id (1 + (symbols.length + 3)) := by
  have hFirst : block id 1 = [id + 1] := rfl
  have hLast (next : UInt64) : block next 3 = [next + 1, next + 2, next + 3] := by
    show [next + 1, next + 1 + 1, next + 1 + 1 + 1] = _
    rw [UInt64.add_assoc, UInt64.add_assoc]
    rfl
  rw [block_add, hFirst, block_add, hLast]
  unfold requests
  rw [List.map_append, List.map_cons, levelRequests_ids, advance_eq]
  rfl

/-- The requests of the stream are the block after the start of its counter. -/
structure Numbered (md : MarketData) : Prop where
  requestId : md.requestId = md.base + UInt64.ofNat md.requestCount
  requestIds : md.requestIds = block md.base md.requestCount

theorem length_requestIds (md : MarketData) : md.requestIds.length = md.requestCount :=
  List.length_map _

theorem numbered_create (streamId : UInt16) (index : Nat) : (create streamId index).Numbered where
  requestId := (UInt64.add_zero _).symm
  requestIds := rfl

/-- Sending the next identifiers keeps the block. -/
theorem Numbered.extend {md md' : MarketData} (h : md.Numbered) (n : Nat)
    (hStream : md'.streamId = md.streamId) (hId : md'.requestId = md.requestId + UInt64.ofNat n)
    (hIds : md'.requestIds = md.requestIds ++ block md.requestId n) : md'.Numbered := by
  have hBase : md'.base = md.base := by
    unfold base
    rw [hStream]
  have hCount : md'.requestCount = md.requestCount + n := by
    rw [← length_requestIds, hIds, List.length_append, length_requestIds, length_block]
  constructor
  · rw [hId, h.requestId, hBase, hCount, UInt64.ofNat_add, UInt64.add_assoc]
  · rw [hIds, h.requestIds, h.requestId, hBase, hCount, block_add]

theorem asked_requestIds {symbols : List Symbol} (hSome : symbols ≠ []) (md : MarketData) :
    (md.asked symbols).requestIds =
      md.requestIds ++ block md.requestId (1 + (symbols.length + 3)) := by
  unfold asked requestIds
  rw [if_neg (by simpa using hSome), ← requests_ids, ← List.map_append, List.append_assoc]

theorem asked_requestCount {symbols : List Symbol} (hSome : symbols ≠ []) (md : MarketData) :
    (md.asked symbols).requestCount = md.requestCount + (symbols.length + 4) := by
  rw [← length_requestIds, asked_requestIds hSome, List.length_append, length_requestIds,
    length_block]
  omega

theorem Numbered.asked {md : MarketData} (h : md.Numbered) (symbols : List Symbol) :
    (md.asked symbols).Numbered := by
  by_cases hEmpty : symbols = []
  · rw [hEmpty]
    exact h
  · apply h.extend (1 + (symbols.length + 3)) _ _ (asked_requestIds hEmpty md)
    · unfold MarketData.asked
      rw [if_neg (by simpa using hEmpty)]
    · unfold MarketData.asked
      rw [if_neg (by simpa using hEmpty)]
      show advance (md.requestId + 1) symbols + 3 = _
      rw [advance_eq, UInt64.ofNat_add, UInt64.ofNat_add, UInt64.add_assoc, UInt64.add_assoc]
      rfl

theorem Numbered.subscribed {md : MarketData} (h : md.Numbered) (symbols : Symbols)
    (startFrom : Nat) : (md.subscribed symbols startFrom).Numbered := by
  unfold MarketData.subscribed
  split
  · exact h.asked _
  · exact h

theorem connected_requestIds (md : MarketData) : md.connected.requestIds = md.requestIds :=
  congrArg (List.map Request.id) (List.append_nil _)

theorem connected_requestCount (md : MarketData) :
    md.connected.requestCount = md.requestCount :=
  congrArg List.length (List.append_nil (md.sentBefore ++ md.sent))

/-- A reconnect does not touch the counter. -/
theorem Numbered.connected {md : MarketData} (h : md.Numbered) : md.connected.Numbered where
  requestId := by
    rw [connected_requestCount]
    exact h.requestId
  requestIds := by
    rw [connected_requestIds, connected_requestCount]
    exact h.requestIds

theorem Numbered.readied {md : MarketData} (h : md.Numbered) (symbols : Symbols) :
    (md.readied symbols).Numbered :=
  h.connected.subscribed symbols 0

theorem asked_streamId (symbols : List Symbol) (md : MarketData) :
    (md.asked symbols).streamId = md.streamId := by
  unfold asked
  split <;> rfl

theorem subscribed_streamId (symbols : Symbols) (startFrom : Nat) (md : MarketData) :
    (md.subscribed symbols startFrom).streamId = md.streamId := by
  unfold subscribed
  split
  · exact asked_streamId _ md
  · rfl

end MarketData

/-! ## The streams of the controller -/

/-- The streams are numbered on from the REST connection, and their requests too. -/
structure Numbered (c : Controller) : Prop where
  streamId : c.streamId = UInt16.ofNat (c.marketData.length + 1)
  restStreamId : c.restStreamId = 1
  stream : ∀ k md, c.marketData[k]? = some md → md.streamId = UInt16.ofNat (k + 2)
  requests : ∀ md ∈ c.marketData, md.Numbered

namespace Numbered

variable {c : Controller}

theorem create (maxSubscriptions : Nat) (hMax : 0 < maxSubscriptions) (exchange : String) :
    Numbered (.create maxSubscriptions hMax exchange) where
  streamId := rfl
  restStreamId := rfl
  stream _ _ h := nomatch h
  requests _ h := nomatch h

theorem learnAll (h : Numbered c) (names : List Symbol) : Numbered (c.learnAll names) := by
  induction names generalizing c with
  | nil => exact h
  | cons name names ih =>
      exact ih (c := c.learn name) ⟨h.streamId, h.restStreamId, h.stream, h.requests⟩

theorem notedAll (h : Numbered c) (items : List AckItem) : Numbered (c.notedAll items) := by
  induction items generalizing c with
  | nil => exact h
  | cons item items ih =>
      apply ih (c := c.noted item)
      unfold Controller.noted
      split <;> exact ⟨h.streamId, h.restStreamId, h.stream, h.requests⟩

theorem withStream (h : Numbered c) : Numbered c.withStream where
  streamId := by
    show c.streamId + 1 = UInt16.ofNat ((c.marketData ++ [_]).length + 1)
    rw [List.length_append, List.length_singleton, UInt16.ofNat_add, h.streamId]
    rfl
  restStreamId := h.restStreamId
  stream k md hGet := by
    change (c.marketData ++ [.create (c.streamId + 1) c.marketData.length])[k]? = some md at hGet
    by_cases hOld : k < c.marketData.length
    · rw [List.getElem?_append_left hOld] at hGet
      exact h.stream k md hGet
    · have hLast : k = c.marketData.length := by
        have hBound := (List.getElem?_eq_some_iff.mp hGet).1
        rw [List.length_append, List.length_singleton] at hBound
        omega
      rw [hLast, List.getElem?_concat_length] at hGet
      rw [← Option.some.inj hGet, hLast]
      show c.streamId + 1 = _
      rw [h.streamId, UInt16.ofNat_add, UInt16.ofNat_add, UInt16.add_assoc]
      rfl
  requests md hMem := by
    rcases List.mem_append.mp hMem with hOld | hNew
    · exact h.requests md hOld
    · rw [List.mem_singleton.mp hNew]
      exact MarketData.numbered_create _ _

theorem withStreams (h : Numbered c) (n : Nat) : Numbered (c.withStreams n) := by
  induction n generalizing c with
  | zero => exact h
  | succ n ih => exact ih h.withStream

/-- The streams change one by one and keep their numbers. -/
theorem setMarketData (h : Numbered c) {marketData : List MarketData}
    (hLength : marketData.length = c.marketData.length)
    (hEach : ∀ (k : Nat) (md' : MarketData), marketData[k]? = some md' →
      ∃ md, c.marketData[k]? = some md ∧ md'.streamId = md.streamId ∧
        (md.Numbered → md'.Numbered)) :
    Numbered (c.setMarketData marketData) where
  streamId := by
    show c.streamId = UInt16.ofNat (marketData.length + 1)
    rw [hLength]
    exact h.streamId
  restStreamId := h.restStreamId
  stream k md' hGet := by
    obtain ⟨md, hOld, hStream, _⟩ := hEach k md' hGet
    rw [hStream]
    exact h.stream k md hOld
  requests md' hMem := by
    obtain ⟨k, hGet⟩ := List.mem_iff_getElem?.mp hMem
    obtain ⟨md, hOld, _, hNumbered⟩ := hEach k md' hGet
    exact hNumbered (h.requests md (List.mem_of_getElem? hOld))

theorem updated (h : Numbered c) (names : List Symbol) : Numbered (c.updated names) := by
  have hSymbols : Numbered (c.setSymbols (c.shared.symbols.append names)) :=
    ⟨h.streamId, h.restStreamId, h.stream, h.requests⟩
  have hEnlarged : Numbered (c.enlarged names) := hSymbols.withStreams _
  apply hEnlarged.setMarketData (List.length_map _)
  intro k md' hGet
  rw [List.getElem?_map, Option.map_eq_some_iff] at hGet
  obtain ⟨md, hOld, rfl⟩ := hGet
  exact ⟨md, hOld, MarketData.subscribed_streamId _ _ md, fun hMd => hMd.subscribed _ _⟩

theorem modify (h : Numbered c) (k : Nat) {g : MarketData → MarketData}
    (hStream : ∀ md, (g md).streamId = md.streamId)
    (hNumbered : ∀ md : MarketData, md.Numbered → (g md).Numbered) :
    Numbered (c.setMarketData (c.marketData.modify k g)) := by
  apply h.setMarketData (List.length_modify _ _ _)
  intro i md' hGet
  obtain ⟨md, hOld, rfl | rfl⟩ := stream_of_modify hGet
  · exact ⟨md, hOld, hStream md, hNumbered md⟩
  · exact ⟨md', hOld, rfl, id⟩

/-- **Step lemma**: every event keeps the numbers. -/
theorem step (h : Numbered c) (e : Event) : Numbered (c.step e) := by
  cases e with
  | marketInfoAck items =>
      rw [Controller.step_marketInfoAck]
      unfold Controller.acked
      split
      · exact h.notedAll items
      · exact (h.notedAll items).updated _
  | subscribe names =>
      rw [Controller.step_subscribe]
      exact (h.learnAll names).updated _
  | ready k =>
      rw [Controller.step_ready]
      exact h.modify k (fun md => MarketData.subscribed_streamId _ 0 md.connected)
        fun md hMd => hMd.readied _
  | disconnected k =>
      rw [Controller.step_disconnected]
      exact h.modify k (fun _ => rfl) fun md hMd => ⟨hMd.requestId, hMd.requestIds⟩

end Numbered

theorem numbered_run (maxSubscriptions : Nat) (hMax : 0 < maxSubscriptions)
    (exchange : String) (es : List Event) :
    Numbered (run Controller.step (.create maxSubscriptions hMax exchange) es) :=
  run_invariant Controller.step (Numbered.create maxSubscriptions hMax exchange)
    (fun _ e h => h.step e) es

/-! ## What keeps the identifiers apart -/

/-- The identifiers of the streams, the REST connection first. -/
def Controller.streamIds (c : Controller) : List UInt16 :=
  c.restStreamId :: c.marketData.map (·.streamId)

/-- The identifiers of all requests ever sent. -/
def Controller.requestIds (c : Controller) : List UInt64 :=
  c.marketData.flatMap MarketData.requestIds

/-- No two streams and no two requests have the same identifier, no stream has zero,
and no request has that of a ping. -/
structure DistinctIdentifiers (c : Controller) : Prop where
  streams : c.streamIds.Nodup
  streamsNonzero : ∀ id ∈ c.streamIds, id ≠ 0
  requests : c.requestIds.Nodup
  requestsNonzero : ∀ id ∈ c.requestIds, id ≠ MarketData.pingId

/-- There is room for every stream and every request: no counter wraps, and no stream
has sent more requests than there are identifiers up to a later stream that has sent
some. -/
structure Room (c : Controller) : Prop where
  streams : c.marketData.length ≤ 65534
  counter : ∀ (k : Nat) (md : MarketData), c.marketData[k]? = some md →
    (k + 2) * 1000000 + md.requestCount < 2 ^ 64
  blocks : ∀ (k j : Nat) (md md' : MarketData), c.marketData[k]? = some md →
    c.marketData[j]? = some md' → k < j →
    md'.requestCount = 0 ∨ md.requestCount ≤ (j - k) * 1000000

section Apart

variable {c : Controller}

theorem streamId_toNat (h : Numbered c) (hRoom : c.marketData.length ≤ 65534) {k : Nat}
    {md : MarketData} (hGet : c.marketData[k]? = some md) : md.streamId.toNat = k + 2 := by
  have hBound := (List.getElem?_eq_some_iff.mp hGet).1
  rw [h.stream k md hGet, UInt16.toNat_ofNat']
  exact Nat.mod_eq_of_lt (by omega)

theorem base_toNat (h : Numbered c) (hRoom : c.marketData.length ≤ 65534) {k : Nat}
    {md : MarketData} (hGet : c.marketData[k]? = some md) :
    md.base.toNat = (k + 2) * 1000000 := by
  have hBound := (List.getElem?_eq_some_iff.mp hGet).1
  unfold MarketData.base
  rw [UInt64.toNat_mul, UInt16.toNat_toUInt64, streamId_toNat h hRoom hGet]
  exact Nat.mod_eq_of_lt (by show (k + 2) * 1000000 < 2 ^ 64; omega)

/-- The streams are apart, and apart from zero, as long as their counter does not wrap. -/
theorem streamIds_iff (h : Numbered c) :
    (c.streamIds.Nodup ∧ ∀ id ∈ c.streamIds, id ≠ 0) ↔ c.marketData.length ≤ 65534 := by
  constructor
  · intro ⟨_, hNonzero⟩
    by_contra hMany
    obtain ⟨md, hGet⟩ : ∃ md, c.marketData[65534]? = some md :=
      ⟨_, List.getElem?_eq_getElem (by omega)⟩
    have hWraps : md.streamId = 0 := h.stream 65534 md hGet
    have hMem : md ∈ c.marketData := List.mem_of_getElem? hGet
    exact hNonzero _ (List.mem_cons_of_mem _ (List.mem_map_of_mem hMem)) hWraps
  · intro hRoom
    have hCount : c.streamIds.map UInt16.toNat = List.range' 1 (c.marketData.length + 1) := by
      rw [List.range'_succ]
      unfold Controller.streamIds
      rw [List.map_cons, h.restStreamId, List.map_map]
      refine congrArg (1 :: ·) (List.ext_getElem (by simp) fun k hk hk' => ?_)
      have hBound : k < c.marketData.length := by simpa using hk
      have hStream := streamId_toNat h hRoom (List.getElem?_eq_getElem hBound)
      rw [List.getElem_map, List.getElem_range']
      show (c.marketData[k]).streamId.toNat = _
      omega
    constructor
    · apply List.Nodup.of_map UInt16.toNat
      rw [hCount]
      exact List.nodup_range'
    · intro id hId hZero
      have hMem := List.mem_map_of_mem (f := UInt16.toNat) hId
      rw [hCount, hZero, List.mem_range'_1] at hMem
      exact absurd hMem.1 (by decide)

theorem zero_notMem_requestIds_iff (h : Numbered c) (hRoom : c.marketData.length ≤ 65534)
    {k : Nat} {md : MarketData} (hGet : c.marketData[k]? = some md) :
    MarketData.pingId ∉ md.requestIds ↔ (k + 2) * 1000000 + md.requestCount < 2 ^ 64 := by
  rw [(h.requests md (List.mem_of_getElem? hGet)).requestIds, ← base_toNat h hRoom hGet]
  exact zero_notMem_block_iff

theorem disjoint_requestIds_iff (h : Numbered c) (hRoom : c.marketData.length ≤ 65534)
    {k j : Nat} {md md' : MarketData} (hGet : c.marketData[k]? = some md)
    (hGet' : c.marketData[j]? = some md') (hLt : k < j)
    (hCounter : (k + 2) * 1000000 + md.requestCount < 2 ^ 64)
    (hCounter' : (j + 2) * 1000000 + md'.requestCount < 2 ^ 64) :
    md.requestIds.Disjoint md'.requestIds ↔
      md'.requestCount = 0 ∨ md.requestCount ≤ (j - k) * 1000000 := by
  have hBase := base_toNat h hRoom hGet
  have hBase' := base_toNat h hRoom hGet'
  rw [(h.requests md (List.mem_of_getElem? hGet)).requestIds,
    (h.requests md' (List.mem_of_getElem? hGet')).requestIds,
    disjoint_block_iff (by omega) (by omega) (by omega)]
  omega

/-- The requests are apart, and apart from the pings, as long as there is room. -/
theorem requestIds_iff (h : Numbered c) (hRoom : c.marketData.length ≤ 65534) :
    (c.requestIds.Nodup ∧ ∀ id ∈ c.requestIds, id ≠ MarketData.pingId) ↔ Room c := by
  unfold Controller.requestIds
  rw [List.nodup_flatMap, List.pairwise_iff_getElem]
  constructor
  · intro ⟨⟨_, hDisjoint⟩, hPings⟩
    have hCounter (k : Nat) (md : MarketData) (hGet : c.marketData[k]? = some md) :
        (k + 2) * 1000000 + md.requestCount < 2 ^ 64 := by
      rw [← zero_notMem_requestIds_iff h hRoom hGet]
      intro hPing
      exact hPings _ (List.mem_flatMap.mpr ⟨md, List.mem_of_getElem? hGet, hPing⟩) rfl
    refine ⟨hRoom, hCounter, fun k j md md' hGet hGet' hLt => ?_⟩
    obtain ⟨hk, rfl⟩ := List.getElem?_eq_some_iff.mp hGet
    obtain ⟨hj, rfl⟩ := List.getElem?_eq_some_iff.mp hGet'
    exact (disjoint_requestIds_iff h hRoom hGet hGet' hLt (hCounter k _ hGet)
      (hCounter j _ hGet')).mp (hDisjoint k j hk hj hLt)
  · intro hApart
    refine ⟨⟨fun md hMem => ?_, fun k j hk hj hLt => ?_⟩, fun id hId => ?_⟩
    · obtain ⟨k, hGet⟩ := List.mem_iff_getElem?.mp hMem
      have hCounter := hApart.counter k md hGet
      rw [(h.requests md hMem).requestIds]
      apply block_nodup
      rw [base_toNat h hRoom hGet]
      exact hCounter
    · have hGet := List.getElem?_eq_getElem hk
      have hGet' := List.getElem?_eq_getElem hj
      exact (disjoint_requestIds_iff h hRoom hGet hGet' hLt (hApart.counter k _ hGet)
        (hApart.counter j _ hGet')).mpr (hApart.blocks k j _ _ hGet hGet' hLt)
    · rintro rfl
      obtain ⟨md, hMem, hPing⟩ := List.mem_flatMap.mp hId
      obtain ⟨k, hGet⟩ := List.mem_iff_getElem?.mp hMem
      exact (zero_notMem_requestIds_iff h hRoom hGet).mpr (hApart.counter k md hGet) hPing

theorem distinctIdentifiers_iff_room (h : Numbered c) : DistinctIdentifiers c ↔ Room c := by
  constructor
  · intro hDistinct
    have hRoom := (streamIds_iff h).mp ⟨hDistinct.streams, hDistinct.streamsNonzero⟩
    exact (requestIds_iff h hRoom).mp ⟨hDistinct.requests, hDistinct.requestsNonzero⟩
  · intro hRoom
    obtain ⟨hStreams, hStreamsNonzero⟩ := (streamIds_iff h).mpr hRoom.streams
    obtain ⟨hRequests, hRequestsNonzero⟩ := (requestIds_iff h hRoom.streams).mpr hRoom
    exact ⟨hStreams, hStreamsNonzero, hRequests, hRequestsNonzero⟩

end Apart

/--
**Identifiers.**  From the start, after any events in any order, the streams and the
requests have identifiers of their own, other than zero, just when there is room for
them.
-/
theorem identifiers_distinct_iff (maxSubscriptions : Nat) (hMax : 0 < maxSubscriptions)
    (exchange : String) (es : List Event) :
    DistinctIdentifiers (run Controller.step (.create maxSubscriptions hMax exchange) es) ↔
      Room (run Controller.step (.create maxSubscriptions hMax exchange) es) :=
  distinctIdentifiers_iff_room (numbered_run maxSubscriptions hMax exchange es)

theorem identifiers_distinct_iff_reconnected :
    0 < 2 ∧
    (DistinctIdentifiers (run Controller.step (.create 2 (by decide) "whitebit")
      [.marketInfoAck [named "A" false, named "B" false, named "C" false], .ready 0, .ready 1,
        .disconnected 0, .subscribe ["D"], .ready 0]) ↔
      Room (run Controller.step (.create 2 (by decide) "whitebit")
        [.marketInfoAck [named "A" false, named "B" false, named "C" false], .ready 0, .ready 1,
          .disconnected 0, .subscribe ["D"], .ready 0])) :=
  ⟨by decide, identifiers_distinct_iff 2 (by decide) "whitebit" _⟩

/-! ## A block that grows into the next one -/

/-- Stream 0 loses its connection and gets a new one, so many times. -/
def reconnects : Nat → List Event
  | 0 => []
  | n + 1 => .disconnected 0 :: .ready 0 :: reconnects n

/-- Two streams with one symbol each; the first one reconnects many times before the
second one is ready. -/
def manyReconnects (n : Nat) : List Event :=
  .marketInfoAck [named "A" false, named "B" false] :: (reconnects n ++ [.ready 1])

/-- A new connection costs four requests, and one for each symbol. -/
theorem readied_requestCount {symbols : Symbols} {md : MarketData}
    (hSlice : symbols.getSlice md.index 0 ≠ []) :
    (md.readied symbols).requestCount =
      md.requestCount + ((symbols.getSlice md.index 0).length + 4) := by
  have hReady : md.connected.ready = true := rfl
  unfold MarketData.readied MarketData.subscribed
  rw [if_pos hReady]
  show (md.connected.asked (symbols.getSlice md.index 0)).requestCount = _
  rw [MarketData.asked_requestCount hSlice, MarketData.connected_requestCount]

theorem run_reconnects {c : Controller} {md md' : MarketData} (n : Nat)
    (hData : c.marketData = [md, md']) (hIndex : md.index = 0)
    (hSlice : c.shared.symbols.getSlice 0 0 = ["A"]) :
    ∃ last, (run Controller.step c (reconnects n)).marketData = [last, md'] ∧
      last.requestCount = md.requestCount + 5 * n ∧
      (run Controller.step c (reconnects n)).shared.symbols = c.shared.symbols := by
  induction n generalizing c md with
  | zero => exact ⟨md, hData, rfl, rfl⟩
  | succ n ih =>
      have hStep : (c.step (.disconnected 0)).step (.ready 0) =
          c.setMarketData [md.dropped.readied c.shared.symbols, md'] := by
        rw [Controller.step_disconnected, Controller.step_ready, hData]
        rfl
      have hCount : (md.dropped.readied c.shared.symbols).requestCount = md.requestCount + 5 := by
        have hOwn : c.shared.symbols.getSlice md.dropped.index 0 = ["A"] := by
          rw [MarketData.dropped_index, hIndex]
          exact hSlice
        rw [readied_requestCount (by rw [hOwn]; exact List.cons_ne_nil _ _), hOwn]
        rfl
      obtain ⟨last, hLast, hTotal, hSymbols⟩ := ih
        (c := c.setMarketData [md.dropped.readied c.shared.symbols, md']) rfl
        ((MarketData.readied_index _ _).trans hIndex) hSlice
      have hRun : run Controller.step c (reconnects (n + 1)) =
          run Controller.step (c.setMarketData [md.dropped.readied c.shared.symbols, md'])
            (reconnects n) :=
        congrArg (fun c => run Controller.step c (reconnects n)) hStep
      rw [hRun]
      exact ⟨last, hLast, by omega, hSymbols⟩

/-- The first stream has sent five requests for each connection, and the second one five
for its only one. -/
theorem manyReconnects_marketData (n : Nat) :
    ∃ md md', (run Controller.step (.create 1 (by decide) "whitebit")
        (manyReconnects n)).marketData = [md, md'] ∧
      md.requestCount = 5 * n ∧ md'.requestCount = 5 := by
  let c := Controller.step (.create 1 (by decide) "whitebit")
    (.marketInfoAck [named "A" false, named "B" false])
  have hData : c.marketData = [.create 2 0, .create 3 1] := by decide +kernel
  have hFirst : c.shared.symbols.getSlice 0 0 = ["A"] := by decide +kernel
  have hSecond : c.shared.symbols.getSlice (MarketData.create 3 1).index 0 = ["B"] := by
    decide +kernel
  obtain ⟨last, hLast, hTotal, hSymbols⟩ := run_reconnects n hData rfl hFirst
  refine ⟨last, (MarketData.create 3 1).readied c.shared.symbols, ?_, ?_, ?_⟩
  · show (run Controller.step c (reconnects n ++ [.ready 1])).marketData = _
    rw [run_append, run_cons, run_nil, Controller.step_ready, hLast, hSymbols]
    rfl
  · rw [hTotal]
    exact Nat.zero_add _
  · rw [readied_requestCount (by rw [hSecond]; exact List.cons_ne_nil _ _), hSecond]
    rfl

/-- After 200001 connections the first stream has used identifiers of the second. -/
theorem block_grows_into_next :
    ¬∀ (maxSubscriptions : Nat) (hMax : 0 < maxSubscriptions) (exchange : String)
      (es : List Event),
      DistinctIdentifiers (run Controller.step (.create maxSubscriptions hMax exchange) es) := by
  intro h
  have hRoom := (distinctIdentifiers_iff_room (numbered_run 1 (by decide) "whitebit" _)).mp
    (h 1 (by decide) "whitebit" (manyReconnects 200001))
  obtain ⟨md, md', hData, hCount, hCount'⟩ := manyReconnects_marketData 200001
  have hBlocks := hRoom.blocks 0 1 md md' (by rw [hData]; rfl) (by rw [hData]; rfl) (by decide)
  omega

end RoqWhitebit.Gateway
