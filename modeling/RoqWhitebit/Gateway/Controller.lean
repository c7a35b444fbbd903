import Mathlib.Data.Finset.Basic
import RoqWhitebit.Gateway.MarketData
import RoqWhitebit.Gateway.ReferenceData

/-!
# The controller

`gateway::Controller` owns the shared data and the market-data streams.  It hands
new names to the shared list, creates a stream for every slice that has none, and
lets every stream subscribe to what its slice has gained.
-/

namespace RoqWhitebit.Gateway

open RoqWhitebit.General

/-- `gateway::Shared`: the list the streams serve and the set of known names. -/
structure Shared where
  symbols : Symbols
  allSymbols : Finset Symbol := ∅

/-- The names of a list that are not known yet, each once, in order. -/
def fresh (known : Finset Symbol) : List Symbol → List Symbol
  | [] => []
  | name :: names =>
      if name ∈ known then fresh known names
      else name :: fresh (insert name known) names

theorem mem_fresh {x : Symbol} {known : Finset Symbol} {names : List Symbol} :
    x ∈ fresh known names ↔ x ∈ names ∧ x ∉ known := by
  induction names generalizing known with
  | nil => simp [fresh]
  | cons name names ih =>
      rw [fresh]
      split
      · next hKnown =>
          rw [ih, List.mem_cons]
          constructor
          · rintro ⟨hMem, hNew⟩
            exact ⟨.inr hMem, hNew⟩
          · rintro ⟨rfl | hMem, hNew⟩
            · exact absurd hKnown hNew
            · exact ⟨hMem, hNew⟩
      · next hNew =>
          rw [List.mem_cons, List.mem_cons, ih, Finset.mem_insert]
          constructor
          · rintro (rfl | ⟨hMem, hOther⟩)
            · exact ⟨.inl rfl, hNew⟩
            · exact ⟨.inr hMem, fun h => hOther (.inr h)⟩
          · rintro ⟨rfl | hMem, hOther⟩
            · exact .inl rfl
            · by_cases hSame : x = name
              · exact .inl hSame
              · exact .inr ⟨hMem, fun h => h.elim hSame hOther⟩

/-- If nothing is new then everything is known. -/
theorem mem_of_fresh_eq_nil {x : Symbol} {known : Finset Symbol} {names : List Symbol}
    (hNone : fresh known names = []) (hName : x ∈ names) : x ∈ known := by
  by_contra hNew
  have hFresh := mem_fresh.mpr ⟨hName, hNew⟩
  rw [hNone] at hFresh
  exact nomatch hFresh

theorem fresh_nodup (known : Finset Symbol) (names : List Symbol) :
    (fresh known names).Nodup := by
  induction names generalizing known with
  | nil => exact List.nodup_nil
  | cons name names ih =>
      rw [fresh]
      split
      · exact ih known
      · rw [List.nodup_cons]
        refine ⟨fun hMem => ?_, ih _⟩
        exact (mem_fresh.mp hMem).2 (Finset.mem_insert_self name known)

/-- `gateway::Controller` with what it owns.  `dispatched` is the reference data
sent to clients so far. -/
structure Controller where
  shared : Shared
  exchange : String
  streamId : UInt16
  restStreamId : UInt16
  marketData : List MarketData := []
  dispatched : List ReferenceData := []

namespace Controller

/-- The constructor: the first stream identifier goes to the REST connection. -/
def create (maxSubscriptions : Nat) (positive : 0 < maxSubscriptions)
    (exchange : String) : Controller :=
  { shared := { symbols := { maxSubscriptions := maxSubscriptions, positive := positive } }
    exchange := exchange
    streamId := 1
    restStreamId := 1 }

def setSymbols (symbols : Symbols) (c : Controller) : Controller :=
  { c with
    shared := { c.shared with symbols := symbols } }

def setMarketData (marketData : List MarketData) (c : Controller) : Controller :=
  { c with
    marketData := marketData }

/-- `shared_.all_symbols.emplace(name)` -/
def learn (name : Symbol) (c : Controller) : Controller :=
  { c with
    shared := { c.shared with allSymbols := insert name c.shared.allSymbols } }

/-! ## Streams -/

/-- One turn of the loop in `ensure_symbol_slices`: the constructor and `Start` may
throw, and a stream that has not been started is dropped. -/
def createStream : Throwing Exception Controller Unit := do
  write fun c => { c with streamId := c.streamId + 1 }
  call
  let c ← read
  call
  write (setMarketData (c.marketData ++ [.create c.streamId c.marketData.length]))

/-- So many turns. -/
def createStreams : Nat → Throwing Exception Controller Unit
  | 0 => pure ()
  | n + 1 => do
      createStream
      createStreams n

/-- `Controller::ensure_symbol_slices` -/
def ensureSymbolSlices (size : Nat) : Throwing Exception Controller Unit := do
  let c ← read
  createStreams (size - c.marketData.length)

/-- `Controller::operator()(Trace<SymbolsUpdate>)` -/
def symbolsUpdate (names : List Symbol) : Throwing Exception Controller Unit := do
  let c ← read
  let (symbols, size, startFrom) := c.shared.symbols.add names
  write (setSymbols symbols)
  ensureSymbolSlices size
  within marketData setMarketData (onEach (MarketData.subscribe symbols startFrom))

/-! ## Client subscriptions -/

/-- `shared_.all_symbols.emplace(name).second` -/
def emplace (name : Symbol) : Throwing Exception Controller Bool := do
  let c ← read
  write (learn name)
  return decide (name ∉ c.shared.allSymbols)

/-- The loop of the `Subscribe` handler. -/
def subscribeItems : List Symbol → List Symbol → Throwing Exception Controller (List Symbol)
  | [], symbols => pure symbols
  | item :: items, symbols => do
      if ← emplace item then
        call
        subscribeItems items (symbols ++ [item])
      else
        subscribeItems items symbols

/-- `Controller::operator()(Event<Subscribe>)`: the update is dispatched even if
there is nothing new. -/
def subscribe (names : List Symbol) : Throwing Exception Controller Unit := do
  let symbols ← subscribeItems names []
  call
  symbolsUpdate symbols

/-! ## Connection events of the streams -/

/-- The web-socket of stream `k` is ready. -/
def ready (k : Nat) : Throwing Exception Controller Unit := do
  let c ← read
  within marketData setMarketData (onNth k (MarketData.onReady c.shared.symbols))

/-- The web-socket of stream `k` is disconnected. -/
def disconnected (k : Nat) : Throwing Exception Controller Unit :=
  within marketData setMarketData (onNth k MarketData.onDisconnected)

/-! ## What the operations do -/

@[simp] theorem setSymbols_marketData (symbols : Symbols) (c : Controller) :
    (c.setSymbols symbols).marketData = c.marketData := rfl

@[simp] theorem setMarketData_marketData (marketData : List MarketData)
    (c : Controller) : (c.setMarketData marketData).marketData = marketData := rfl

@[simp] theorem mem_learn_allSymbols {x name : Symbol} {c : Controller} :
    x ∈ (c.learn name).shared.allSymbols ↔ x = name ∨ x ∈ c.shared.allSymbols :=
  Finset.mem_insert

/-- The controller with one more stream. -/
def withStream (c : Controller) : Controller :=
  { c with
    streamId := c.streamId + 1
    marketData := c.marketData ++ [.create (c.streamId + 1) c.marketData.length] }

/-- The controller with so many more streams. -/
def withStreams : Nat → Controller → Controller
  | 0, c => c
  | n + 1, c => withStreams n c.withStream

theorem withStreams_succ (n : Nat) (c : Controller) :
    c.withStreams (n + 1) = (c.withStreams n).withStream := by
  induction n generalizing c with
  | zero => rfl
  | succ n ih => exact ih c.withStream

@[simp] theorem withStreams_shared (n : Nat) (c : Controller) :
    (c.withStreams n).shared = c.shared := by
  induction n generalizing c with
  | zero => rfl
  | succ n ih => exact ih c.withStream

/-- The new streams come last, are numbered on, and are not ready. -/
theorem withStreams_marketData (n : Nat) (c : Controller) :
    ∃ new, (c.withStreams n).marketData = c.marketData ++ new ∧ new.length = n ∧
      ∀ k md, new[k]? = some md →
        md.index = c.marketData.length + k ∧ md.ready = false := by
  induction n with
  | zero => exact ⟨[], (List.append_nil _).symm, rfl, fun k md h => nomatch h⟩
  | succ n ih =>
      obtain ⟨new, hNew, hLength, hEach⟩ := ih
      let md : MarketData := .create ((c.withStreams n).streamId + 1)
        (c.withStreams n).marketData.length
      refine ⟨new ++ [md], ?_, by rw [List.length_append, hLength]; rfl, ?_⟩
      · rw [withStreams_succ]
        show (c.withStreams n).marketData ++ [md] = _
        rw [hNew, List.append_assoc]
      · intro k md' hGet
        rcases Nat.lt_or_ge k n with hLt | hGe
        · rw [List.getElem?_append_left (by omega)] at hGet
          exact hEach k md' hGet
        · rw [List.getElem?_append_right (by omega)] at hGet
          have hZero : k - new.length = 0 := by
            by_contra hPos
            rw [List.getElem?_eq_none (by rw [List.length_singleton]; omega)] at hGet
            exact nomatch hGet
          rw [hZero] at hGet
          obtain rfl : md = md' := Option.some.inj hGet
          refine ⟨?_, rfl⟩
          show (c.withStreams n).marketData.length = c.marketData.length + k
          rw [hNew, List.length_append]
          omega

/-- Each stream was there before, or is new and serves the slice at its position. -/
theorem withStreams_stream {n k : Nat} {c : Controller} {md : MarketData}
    (h : (c.withStreams n).marketData[k]? = some md) :
    c.marketData[k]? = some md ∨ md.index = k ∧ md.ready = false := by
  obtain ⟨new, hNew, _, hEach⟩ := withStreams_marketData n c
  rw [hNew] at h
  rcases Nat.lt_or_ge k c.marketData.length with hOld | hLater
  · left
    rw [List.getElem?_append_left hOld] at h
    exact h
  · right
    rw [List.getElem?_append_right hLater] at h
    obtain ⟨hIndex, hReady⟩ := hEach _ md h
    exact ⟨by omega, hReady⟩

theorem length_withStreams (n : Nat) (c : Controller) :
    (c.withStreams n).marketData.length = c.marketData.length + n := by
  obtain ⟨new, hNew, hLength, _⟩ := withStreams_marketData n c
  rw [hNew, List.length_append, hLength]

/-- Cut short, the creation of a stream has only used up an identifier. -/
theorem calls_createStream (c : Controller) :
    Calls (ε := Exception) createStream c 2 () c.withStream
      (fun _ c' => c'.shared = c.shared ∧ c'.marketData = c.marketData) := by
  unfold createStream
  apply Calls.after_write
  apply Calls.after_call ⟨rfl, rfl⟩
  apply Calls.after_read
  apply Calls.after_call ⟨rfl, rfl⟩
  exact calls_write _ _ _

/-- Cut short, the loop has created fewer streams. -/
theorem calls_createStreams (n : Nat) (c : Controller) :
    Calls (ε := Exception) (createStreams n) c (2 * n) () (c.withStreams n)
      (fun _ c' => c'.shared = c.shared ∧
        ∃ m, m < n ∧ c'.marketData = (c.withStreams m).marketData) := by
  induction n generalizing c with
  | zero => exact calls_pure () c _
  | succ n ih =>
      rw [show 2 * (n + 1) = 2 + 2 * n by omega]
      apply Calls.bind (calls_createStream c)
      · have hRest := ih c.withStream
        refine ⟨hRest.returns, fun k e hk => ?_⟩
        obtain ⟨c', hThrow, hShared, m, hm, hData⟩ := hRest.throws k e hk
        exact ⟨c', hThrow, hShared, m + 1, by omega, hData⟩
      · intro i c' _ h
        exact ⟨h.1, 0, by omega, h.2⟩

/-- The number of streams an update creates. -/
def missing (names : List Symbol) (c : Controller) : Nat :=
  (c.shared.symbols.append names).size - c.marketData.length

/-- The controller once an update has appended the names and created the streams. -/
def enlarged (names : List Symbol) (c : Controller) : Controller :=
  (c.setSymbols (c.shared.symbols.append names)).withStreams (c.missing names)

/-- The controller after an update. -/
def updated (names : List Symbol) (c : Controller) : Controller :=
  (c.enlarged names).setMarketData ((c.enlarged names).marketData.map
    (MarketData.subscribed (c.shared.symbols.append names) c.shared.symbols.names.length))

theorem symbolsUpdate_apply (names : List Symbol) (c : Controller)
    (fuse : Option (Nat × Exception)) :
    symbolsUpdate names ⟨c, fuse⟩ =
      (createStreams (c.missing names) >>= fun _ =>
        within marketData setMarketData (onEach (MarketData.subscribe
          (c.shared.symbols.append names) c.shared.symbols.names.length)))
        ⟨c.setSymbols (c.shared.symbols.append names), fuse⟩ := rfl

theorem symbolsUpdate_quiet (names : List Symbol) (c : Controller) :
    symbolsUpdate names ⟨c, none⟩ = .ok () ⟨c.updated names, none⟩ := by
  rw [symbolsUpdate_apply, bind_quiet (calls_createStreams _ _).quiet]
  exact within_quiet (onEach_quiet (MarketData.subscribe_quiet _ _) _)

@[simp] theorem enlarged_shared (names : List Symbol) (c : Controller) :
    (c.enlarged names).shared =
      { c.shared with symbols := c.shared.symbols.append names } := by
  unfold enlarged
  rw [withStreams_shared]
  rfl

@[simp] theorem updated_shared (names : List Symbol) (c : Controller) :
    (c.updated names).shared =
      { c.shared with symbols := c.shared.symbols.append names } :=
  enlarged_shared names c

theorem length_enlarged (names : List Symbol) (c : Controller) :
    (c.enlarged names).marketData.length = c.marketData.length + c.missing names :=
  length_withStreams _ _

theorem length_updated (names : List Symbol) (c : Controller) :
    (c.updated names).marketData.length = c.marketData.length + c.missing names := by
  rw [← length_enlarged]
  exact List.length_map _

/-- Every stream that was there subscribes. -/
theorem mem_updated {names : List Symbol} {c : Controller} {md : MarketData}
    (h : md ∈ c.marketData) :
    md.subscribed (c.shared.symbols.append names) c.shared.symbols.names.length ∈
      (c.updated names).marketData := by
  obtain ⟨new, hNew, _⟩ := withStreams_marketData (c.missing names)
    (c.setSymbols (c.shared.symbols.append names))
  apply List.mem_map_of_mem
  unfold enlarged
  rw [hNew]
  exact List.mem_append_left new h

/-- Each stream after an update was there before and has subscribed, or is new. -/
theorem updated_stream {names : List Symbol} {c : Controller} {k : Nat}
    {md' : MarketData} (h : (c.updated names).marketData[k]? = some md') :
    (∃ md, c.marketData[k]? = some md ∧
      md' = md.subscribed (c.shared.symbols.append names) c.shared.symbols.names.length) ∨
    md'.index = k ∧ md'.ready = false := by
  have hMap : ((c.enlarged names).marketData.map (MarketData.subscribed
      (c.shared.symbols.append names) c.shared.symbols.names.length))[k]? = some md' := h
  rw [List.getElem?_map, Option.map_eq_some_iff] at hMap
  obtain ⟨md, hGet, rfl⟩ := hMap
  rcases withStreams_stream hGet with hOld | ⟨hIndex, hReady⟩
  · exact .inl ⟨md, hOld, rfl⟩
  · right
    unfold MarketData.subscribed
    rw [hReady, if_neg Bool.false_ne_true]
    exact ⟨hIndex, hReady⟩

/-! ## An update that is cut short -/

/-- Cut short while streams are created: the names are in the shared list, and fewer
streams than needed have been added. -/
theorem symbolsUpdate_unstreamed {names : List Symbol} {c : Controller} {k : Nat}
    (e : Exception) (hk : k < 2 * c.missing names) :
    ∃ c', symbolsUpdate names ⟨c, some (k, e)⟩ = .error e ⟨c', none⟩ ∧
      c'.shared = { c.shared with symbols := c.shared.symbols.append names } ∧
      ∃ m, m < c.missing names ∧ c'.marketData =
        ((c.setSymbols (c.shared.symbols.append names)).withStreams m).marketData := by
  rw [symbolsUpdate_apply]
  exact (calls_createStreams _ _).bind_of_lt _ e hk

/-- Cut short later, or not at all: every slice has its stream. -/
theorem symbolsUpdate_streamed {names : List Symbol} {c : Controller}
    {fuse : Option (Nat × Exception)} (hLasts : Lasts (2 * c.missing names) fuse) :
    (stateAfter (symbolsUpdate names) c fuse).shared = (c.enlarged names).shared ∧
      List.Forall₂ MarketData.SameStream (c.enlarged names).marketData
        (stateAfter (symbolsUpdate names) c fuse).marketData := by
  have hLoop : Keeps
      (fun c c' : Controller => c'.shared = c.shared ∧
        List.Forall₂ MarketData.SameStream c.marketData c'.marketData)
      (within marketData setMarketData (onEach (MarketData.subscribe
        (c.shared.symbols.append names) c.shared.symbols.names.length))) :=
    keeps_within (keeps_onEach MarketData.SameStream.refl (MarketData.keeps_subscribe _ _))
      fun _ _ h => ⟨rfl, h⟩
  unfold stateAfter
  rw [symbolsUpdate_apply, (calls_createStreams _ _).bind_of_lasts _ hLasts]
  exact hLoop (c.enlarged names) _

/-! ## New names -/

/-- Every name of the list is known. -/
def learnAll (names : List Symbol) (c : Controller) : Controller :=
  names.foldl (fun c name => c.learn name) c

@[simp] theorem learnAll_symbols (names : List Symbol) (c : Controller) :
    (c.learnAll names).shared.symbols = c.shared.symbols := by
  induction names generalizing c with
  | nil => rfl
  | cons name names ih => exact ih (c.learn name)

@[simp] theorem learnAll_marketData (names : List Symbol) (c : Controller) :
    (c.learnAll names).marketData = c.marketData := by
  induction names generalizing c with
  | nil => rfl
  | cons name names ih => exact ih (c.learn name)

theorem mem_learnAll_allSymbols {x : Symbol} {names : List Symbol} {c : Controller} :
    x ∈ (c.learnAll names).shared.allSymbols ↔ x ∈ c.shared.allSymbols ∨ x ∈ names := by
  induction names generalizing c with
  | nil => simp [learnAll]
  | cons name names ih =>
      show x ∈ ((c.learn name).learnAll names).shared.allSymbols ↔ _
      rw [ih, mem_learn_allSymbols, List.mem_cons, or_comm (a := x = name), or_assoc]

theorem emplace_apply (name : Symbol) (c : Controller) (fuse : Option (Nat × Exception)) :
    emplace name ⟨c, fuse⟩ =
      .ok (decide (name ∉ c.shared.allSymbols)) ⟨c.learn name, fuse⟩ := rfl

/-- When nothing throws, the loop collects the new names. -/
theorem subscribeItems_quiet (names symbols : List Symbol) (c : Controller) :
    subscribeItems names symbols ⟨c, none⟩ =
      .ok (symbols ++ fresh c.shared.allSymbols names) ⟨c.learnAll names, none⟩ := by
  induction names generalizing symbols c with
  | nil => rw [fresh, List.append_nil]; rfl
  | cons name names ih =>
      rw [subscribeItems, bind_quiet (emplace_apply name c none), fresh]
      by_cases hKnown : name ∈ c.shared.allSymbols
      · rw [if_pos hKnown, if_neg (by simp [hKnown]), ih]
        have hSame : (c.learn name).shared.allSymbols = c.shared.allSymbols :=
          Finset.insert_eq_of_mem hKnown
        rw [hSame]
        rfl
      · rw [if_neg hKnown, if_pos (by simp [hKnown])]
        show subscribeItems names (symbols ++ [name]) ⟨c.learn name, none⟩ = _
        rw [ih, List.append_assoc]
        rfl

/-- The controller after a client's subscription. -/
def subscribed (names : List Symbol) (c : Controller) : Controller :=
  (c.learnAll names).updated (fresh c.shared.allSymbols names)

theorem subscribe_quiet (names : List Symbol) (c : Controller) :
    subscribe names ⟨c, none⟩ = .ok () ⟨c.subscribed names, none⟩ := by
  unfold subscribe
  rw [bind_quiet (subscribeItems_quiet names [] c)]
  exact symbolsUpdate_quiet _ _

theorem ready_quiet (k : Nat) (c : Controller) :
    ready k ⟨c, none⟩ =
      .ok () ⟨c.setMarketData (c.marketData.modify k (·.readied c.shared.symbols)), none⟩ :=
  within_quiet (onNth_quiet (MarketData.onReady_quiet c.shared.symbols) k c.marketData)

theorem disconnected_quiet (k : Nat) (c : Controller) :
    disconnected k ⟨c, none⟩ =
      .ok () ⟨c.setMarketData (c.marketData.modify k MarketData.dropped), none⟩ :=
  within_quiet (onNth_quiet MarketData.onDisconnected_quiet k c.marketData)

end Controller

end RoqWhitebit.Gateway
