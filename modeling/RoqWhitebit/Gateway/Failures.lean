import Mathlib.Data.Finset.Card
import RoqWhitebit.Gateway.Coverage
import RoqWhitebit.Gateway.CutShort

/-!
# Runs in which handlers are cut short

Any call a handler makes may throw: a dispatch, that of a new connection status included,
the construction of a `Symbol`, the creation or the start of a stream, a request that is
sent.  The handler ends there, and
what it has written stays written.

`Orderly` is what holds however the handlers end, and `orderly_run` takes it over any run
in which any call of any handler may throw.  From it follow three limits that no failure
breaks: what streams ask for, what is active on a connection, and which identifiers are
handed out.
-/

namespace RoqWhitebit.Gateway

open RoqWhitebit.General

/-! ## The controller -/

/-- The identifiers come from a counter that has gone on from zero and skipped at most
`failures` of them. -/
def HandedOut (failures : Nat) (counter : UInt16) (ids : List UInt16) : Prop :=
  ∃ ns : List Nat, ∃ last, ids = ns.map UInt16.ofNat ∧ ns.Pairwise (· < ·) ∧
    (∀ n ∈ ns, 1 ≤ n ∧ n ≤ last) ∧ counter = UInt16.ofNat last ∧
    last ≤ ns.length + failures

/-- What holds however the handlers end.  `failures` is the number of handlers that have
been cut short. -/
structure Orderly (limit : Nat) (offered : Symbol → Prop) (failures : Nat) (c : Controller) :
    Prop where
  limit : c.shared.symbols.maxSubscriptions = limit
  nodup : c.shared.symbols.names.Nodup
  known : ∀ name ∈ c.shared.symbols.names, name ∈ c.shared.allSymbols
  offered : ∀ name ∈ c.shared.allSymbols, offered name
  index : ∀ (k : Nat) (md : MarketData), c.marketData[k]? = some md → md.index = k
  streams : ∀ md ∈ c.marketData, md.Contained c.shared.symbols failures
  streamIds : HandedOut failures c.streamId c.streamIds

/-- The names are known, and not yet in the shared list. -/
structure Pending (names : List Symbol) (c : Controller) : Prop where
  nodup : names.Nodup
  known : ∀ name ∈ names, name ∈ c.shared.allSymbols
  unlisted : ∀ name ∈ names, name ∉ c.shared.symbols.names

theorem HandedOut.mono {failures failures' : Nat} {counter : UInt16} {ids : List UInt16}
    (h : HandedOut failures counter ids) (hLe : failures ≤ failures') :
    HandedOut failures' counter ids := by
  obtain ⟨ns, last, hIds, hSorted, hRange, hCounter, hLast⟩ := h
  exact ⟨ns, last, hIds, hSorted, hRange, hCounter, by omega⟩

/-- The next identifier is skipped. -/
theorem HandedOut.skip {failures : Nat} {counter : UInt16} {ids : List UInt16}
    (h : HandedOut failures counter ids) : HandedOut (failures + 1) (counter + 1) ids := by
  obtain ⟨ns, last, hIds, hSorted, hRange, hCounter, hLast⟩ := h
  refine ⟨ns, last + 1, hIds, hSorted, fun n hn => ?_, ?_, by omega⟩
  · have hn' := hRange n hn
    omega
  · rw [hCounter, UInt16.ofNat_add]
    rfl

/-- The next identifier is handed out. -/
theorem HandedOut.next {failures : Nat} {counter : UInt16} {ids : List UInt16}
    (h : HandedOut failures counter ids) :
    HandedOut failures (counter + 1) (ids ++ [counter + 1]) := by
  obtain ⟨ns, last, hIds, hSorted, hRange, hCounter, hLast⟩ := h
  have hNext : counter + 1 = UInt16.ofNat (last + 1) := by
    rw [hCounter, UInt16.ofNat_add]
    rfl
  refine ⟨ns ++ [last + 1], last + 1, ?_, ?_, fun n hn => ?_, hNext, ?_⟩
  · rw [hIds, hNext, List.map_append, List.map_singleton]
  · rw [List.pairwise_append]
    refine ⟨hSorted, List.pairwise_singleton _ _, fun n hn m hm => ?_⟩
    rw [List.mem_singleton.mp hm]
    have hn' := hRange n hn
    omega
  · rcases List.mem_append.mp hn with hOld | hNew
    · have hn' := hRange n hOld
      omega
    · rw [List.mem_singleton.mp hNew]
      omega
  · rw [List.length_append, List.length_singleton]
    omega

namespace Orderly

variable {limit : Nat} {offered : Symbol → Prop} {failures : Nat} {c : Controller}

theorem mono {failures' : Nat} (h : Orderly limit offered failures c)
    (hLe : failures ≤ failures') : Orderly limit offered failures' c where
  limit := h.limit
  nodup := h.nodup
  known := h.known
  offered := h.offered
  index := h.index
  streams md hMem := (h.streams md hMem).mono hLe
  streamIds := h.streamIds.mono hLe

theorem create (maxSubscriptions : Nat) (hMax : 0 < maxSubscriptions) (exchange : String) :
    Orderly maxSubscriptions offered 0 (.create maxSubscriptions hMax exchange) where
  limit := rfl
  nodup := List.nodup_nil
  known _ h := nomatch h
  offered _ h := absurd h (Finset.notMem_empty _)
  index _ _ h := nomatch h
  streams _ h := nomatch h
  streamIds := by
    refine ⟨[1], 1, rfl, List.pairwise_singleton _ _, fun n hn => ?_, rfl, Nat.le_refl 1⟩
    rw [List.mem_singleton.mp hn]
    omega

theorem learn (h : Orderly limit offered failures c) {name : Symbol} (hName : offered name) :
    Orderly limit offered failures (c.learn name) where
  limit := h.limit
  nodup := h.nodup
  known other hOther := Controller.mem_learn_allSymbols.mpr (.inr (h.known other hOther))
  offered other hOther := by
    rcases Controller.mem_learn_allSymbols.mp hOther with rfl | hOld
    · exact hName
    · exact h.offered other hOld
  index := h.index
  streams := h.streams
  streamIds := h.streamIds

theorem dispatch (h : Orderly limit offered failures c)
    (item : Protocol.Json.MarketInfoAckItem) (discard : Bool) :
    Orderly limit offered failures (c.dispatch item discard) :=
  ⟨h.limit, h.nodup, h.known, h.offered, h.index, h.streams, h.streamIds⟩

/-- Pending names are appended. -/
theorem append (h : Orderly limit offered failures c) {names : List Symbol}
    (hPending : Pending names c) :
    Orderly limit offered failures (c.setSymbols (c.shared.symbols.append names)) where
  limit := h.limit
  nodup := by
    show (c.shared.symbols.names ++ names).Nodup
    rw [List.nodup_append]
    refine ⟨h.nodup, hPending.nodup, fun x hx y hy => ?_⟩
    rintro rfl
    exact hPending.unlisted x hy hx
  known name hName := by
    rcases List.mem_append.mp hName with hOld | hNew
    · exact h.known name hOld
    · exact hPending.known name hNew
  offered := h.offered
  index := h.index
  streams md hMem := (h.streams md hMem).append names
  streamIds := h.streamIds

/-- The streams change one by one. -/
theorem setMarketData {more : Nat} {marketData : List MarketData}
    (h : Orderly limit offered failures c)
    (hEach : List.Forall₂ (fun md md' : MarketData => md'.streamId = md.streamId ∧
      md'.index = md.index ∧ md'.Contained c.shared.symbols (failures + more))
      c.marketData marketData) :
    Orderly limit offered (failures + more) (c.setMarketData marketData) where
  limit := h.limit
  nodup := h.nodup
  known := h.known
  offered := h.offered
  index k md' hGet := by
    obtain ⟨md, hOld, hOne⟩ := getElem?_of_forall₂ hEach hGet
    rw [hOne.2.1]
    exact h.index k md hOld
  streams md' hMem := by
    obtain ⟨k, hGet⟩ := List.mem_iff_getElem?.mp hMem
    obtain ⟨md, _, hOne⟩ := getElem?_of_forall₂ hEach hGet
    exact hOne.2.2
  streamIds := by
    show HandedOut _ c.streamId (c.restStreamId :: marketData.map (·.streamId))
    rw [map_eq_of_forall₂ hEach fun _ _ hOne => hOne.1]
    exact h.streamIds.mono (Nat.le_add_right _ _)

/-- A skipped identifier. -/
theorem skip (h : Orderly limit offered failures c) :
    Orderly limit offered (failures + 1) { c with streamId := c.streamId + 1 } where
  limit := h.limit
  nodup := h.nodup
  known := h.known
  offered := h.offered
  index := h.index
  streams md hMem := (h.streams md hMem).mono (Nat.le_add_right _ 1)
  streamIds := h.streamIds.skip

theorem withStream (h : Orderly limit offered failures c) :
    Orderly limit offered failures c.withStream where
  limit := h.limit
  nodup := h.nodup
  known := h.known
  offered := h.offered
  index k md hGet := by
    rcases Controller.withStreams_stream (n := 1) hGet with hOld | hNew
    · exact h.index k md hOld
    · exact hNew.1
  streams md hMem := by
    rcases List.mem_append.mp hMem with hOld | hNew
    · exact h.streams md hOld
    · rw [List.mem_singleton.mp hNew]
      exact (MarketData.contained_create _ _ _).mono (Nat.zero_le _)
  streamIds := by
    have hIds : c.withStream.streamIds = c.streamIds ++ [c.streamId + 1] := by
      show c.restStreamId :: (c.marketData ++ [_]).map MarketData.streamId = _
      rw [List.map_append]
      rfl
    rw [hIds]
    exact h.streamIds.next

end Orderly

theorem pending_nil (c : Controller) : Pending [] c :=
  ⟨List.nodup_nil, fun _ h => (nomatch h), fun _ h => (nomatch h)⟩

theorem Pending.learn {names : List Symbol} {c : Controller} (h : Pending names c)
    (name : Symbol) : Pending names (c.learn name) where
  nodup := h.nodup
  known other hOther := Controller.mem_learn_allSymbols.mpr (.inr (h.known other hOther))
  unlisted := h.unlisted

/-- A name that was not known joins the pending ones. -/
theorem Pending.join {names : List Symbol} {c : Controller} (h : Pending names c)
    {limit : Nat} {offered : Symbol → Prop} {failures : Nat}
    (hOrderly : Orderly limit offered failures c) {name : Symbol}
    (hNew : name ∉ c.shared.allSymbols) : Pending (names ++ [name]) (c.learn name) where
  nodup := by
    rw [List.nodup_append]
    refine ⟨h.nodup, List.nodup_singleton name, fun x hx y hy => ?_⟩
    rw [List.mem_singleton.mp hy]
    rintro rfl
    exact hNew (h.known x hx)
  known other hOther := by
    rcases List.mem_append.mp hOther with hOld | hLast
    · exact Controller.mem_learn_allSymbols.mpr (.inr (h.known other hOld))
    · exact Controller.mem_learn_allSymbols.mpr (.inl (List.mem_singleton.mp hLast))
  unlisted other hOther hListed := by
    rcases List.mem_append.mp hOther with hOld | hLast
    · exact h.unlisted other hOld hListed
    · rw [List.mem_singleton.mp hLast] at hListed
      exact hNew (hOrderly.known name hListed)

/-! ## Contracts of the handlers -/

namespace Controller

variable {limit : Nat} {offered : Symbol → Prop} {failures : Nat}

/-- An update on its way: the names have been appended to the list, and what a stream
has asked for on its connection was in its slice before. -/
structure Updating (limit : Nat) (offered : Symbol → Prop) (failures : Nat) (before : Symbols)
    (names : List Symbol) (c : Controller) : Prop where
  orderly : Orderly limit offered failures c
  symbols : c.shared.symbols = before.append names
  asked : ∀ md ∈ c.marketData, ∀ method,
    (requested method md.sent).Sublist (before.getSlice md.index 0)

theorem meets_createStream (before : Symbols) (names : List Symbol) :
    Meets (Updating limit offered failures before names) createStream
      (fun _ => Updating limit offered failures before names)
      (Orderly limit offered (failures + 1)) := by
  have hCreated (c : Controller) (h : Updating limit offered failures before names c) :
      Updating limit offered failures before names c.withStream := by
    refine ⟨h.orderly.withStream, h.symbols, fun md hMem method => ?_⟩
    rcases List.mem_append.mp hMem with hOld | hNew
    · exact h.asked md hOld method
    · rw [List.mem_singleton.mp hNew]
      exact List.nil_sublist _
  intro c fuse h
  match fuse with
  | none => exact hCreated c h
  | some (0, e) => exact h.orderly.skip
  | some (1, e) => exact h.orderly.skip
  | some (k + 2, e) => exact hCreated c h

theorem meets_createStreams (before : Symbols) (names : List Symbol) (n : Nat) :
    Meets (Updating limit offered failures before names) (createStreams n)
      (fun _ => Updating limit offered failures before names)
      (Orderly limit offered (failures + 1)) := by
  induction n with
  | zero => exact meets_pure fun _ h => h
  | succ n ih => exact Meets.bind (meets_createStream before names) fun _ => ih

/-- **Contract of an update**, for names that are pending. -/
theorem meets_symbolsUpdate (names : List Symbol) :
    Meets (fun c => Orderly limit offered failures c ∧ Pending names c) (symbolsUpdate names)
      (fun _ => Orderly limit offered failures) (Orderly limit offered (failures + 1)) := by
  apply Meets.of_each
  rintro c ⟨h, hPending⟩
  have hUpdating : Updating limit offered failures c.shared.symbols names
      (c.setSymbols (c.shared.symbols.append names)) :=
    ⟨h.append hPending, rfl, fun md hMem => (h.streams md hMem).connection⟩
  have hLoop : Meets (Updating limit offered failures c.shared.symbols names)
      (within marketData setMarketData (onEach (MarketData.subscribe
        (c.shared.symbols.append names) c.shared.symbols.names.length)))
      (fun _ => Orderly limit offered failures) (Orderly limit offered (failures + 1)) := by
    have hEach {more : Nat} {c' : Controller} {marketData : List MarketData}
        (h' : Updating limit offered failures c.shared.symbols names c')
        (hExtends : List.Forall₂ (fun md md' => MarketData.Extends
          ((c.shared.symbols.append names).getSlice md.index c.shared.symbols.names.length)
          more md md') c'.marketData marketData) :
        Orderly limit offered (failures + more) (c'.setMarketData marketData) := by
      apply h'.orderly.setMarketData
      have hBoth := (List.forall₂_and_left _ _).mpr ⟨fun md hMem => hMem, hExtends⟩
      apply hBoth.imp
      rintro md md' ⟨hMem, hOne⟩
      refine ⟨hOne.same.streamId, hOne.same.index, ?_⟩
      apply (h'.orderly.streams md hMem).extends _ hOne
      intro method
      rw [h'.symbols, Symbols.getSlice_append]
      exact (h'.asked md hMem method).append (List.Sublist.refl _)
    apply Meets.within
    · intro c' _
      exact meets_onEach (MarketData.meets_subscribe _ _) (fun _ _ hOne => hOne.mono (by omega))
        (fun md => MarketData.extends_refl _ 1 md) c'.marketData
    · intro c' _ marketData h' hExtends
      exact hEach h' hExtends
    · intro c' marketData h' hExtends
      exact hEach h' hExtends
  have hRest := Meets.bind (meets_createStreams c.shared.symbols names (c.missing names))
    fun _ => hLoop
  rintro _ fuse rfl
  rw [symbolsUpdate_apply]
  exact hRest _ fuse hUpdating

/-- Names are collected. -/
def Collecting (limit : Nat) (offered : Symbol → Prop) (failures : Nat) (names : List Symbol)
    (c : Controller) : Prop :=
  Orderly limit offered failures c ∧ Pending names c

theorem Collecting.late {names : List Symbol} {c : Controller}
    (h : Collecting limit offered failures names c) : Orderly limit offered (failures + 1) c :=
  h.1.mono (Nat.le_add_right _ 1)

/-- A name is offered: if it is new it joins the pending ones. -/
theorem meets_emplace {names : List Symbol} {name : Symbol} (hName : offered name) :
    Meets (Collecting limit offered failures names) (emplace name)
      (fun isNew => Collecting limit offered failures (if isNew then names ++ [name] else names))
      (Orderly limit offered (failures + 1)) := by
  rintro c fuse ⟨h, hPending⟩
  rw [emplace_apply]
  show Collecting limit offered failures _ (c.learn name)
  refine ⟨h.learn hName, ?_⟩
  by_cases hKnown : name ∈ c.shared.allSymbols
  · rw [if_neg (by simpa using hKnown)]
    exact hPending.learn name
  · rw [if_pos (by simpa using hKnown)]
    exact hPending.join h hKnown

/-- The loop of the `Subscribe` handler. -/
theorem meets_subscribeItems (items names : List Symbol) (hItems : ∀ item ∈ items, offered item) :
    Meets (Collecting limit offered failures names) (subscribeItems items names)
      (Collecting limit offered failures) (Orderly limit offered (failures + 1)) := by
  induction items generalizing names with
  | nil => exact meets_pure fun _ h => h
  | cons item items ih =>
      have hRest := fun names => ih names fun other hOther =>
        hItems other (List.mem_cons_of_mem item hOther)
      apply Meets.bind (meets_emplace (hItems item List.mem_cons_self))
      intro isNew
      cases isNew with
      | true => exact Meets.after_call (fun _ h => h.late) (hRest _)
      | false => exact hRest _

theorem meets_subscribe {names : List Symbol} (hNames : ∀ name ∈ names, offered name) :
    Meets (Orderly limit offered failures) (subscribe names)
      (fun _ => Orderly limit offered failures) (Orderly limit offered (failures + 1)) := by
  apply Meets.bind ((meets_subscribeItems names [] hNames).mono
    (fun c h => ⟨h, pending_nil c⟩) (fun _ _ h => h) (fun _ h => h))
  intro symbols
  exact Meets.after_call (fun _ h => h.late) (meets_symbolsUpdate symbols)

/-- One turn of the loop over the items of an acknowledgement. -/
theorem meets_ackItem (item : Protocol.Json.MarketInfoAckItem) (discard : Bool)
    (names : List Symbol) (hItem : discard = false → offered item.name) :
    Meets (Collecting limit offered failures names) (ackItem item discard names)
      (Collecting limit offered failures) (Orderly limit offered (failures + 1)) := by
  have hLate (c : Controller) (h : Collecting limit offered failures names c) :
      Orderly limit offered (failures + 1) c := h.late
  apply Meets.after_call hLate
  apply Meets.after_call hLate
  apply Meets.bind (R := fun _ => Collecting limit offered failures names)
  · apply meets_write
    rintro c ⟨h, hPending⟩
    exact ⟨h.dispatch item discard, hPending.nodup, hPending.known, hPending.unlisted⟩
  · intro _
    cases discard with
    | true => exact meets_pure fun _ h => h
    | false =>
        apply Meets.bind (meets_emplace (hItem rfl))
        intro isNew
        cases isNew with
        | true => exact Meets.after_call (fun _ h => h.late) (meets_pure fun _ h => h)
        | false => exact meets_pure fun _ h => h

theorem meets_ackItems (items : List AckItem) (names : List Symbol)
    (hItems : ∀ name ∈ kept items, offered name) :
    Meets (Collecting limit offered failures names) (ackItems items names)
      (Collecting limit offered failures) (Orderly limit offered (failures + 1)) := by
  induction items generalizing names with
  | nil => exact meets_pure fun _ h => h
  | cons first items ih =>
      obtain ⟨item, discard⟩ := first
      have hItem : discard = false → offered item.name := by
        rintro rfl
        apply hItems
        rw [kept_cons_kept rfl]
        exact List.mem_cons_self
      have hRest : ∀ name ∈ kept items, offered name := by
        intro name hName
        apply hItems
        cases discard with
        | true =>
            rw [kept_cons_discarded rfl]
            exact hName
        | false =>
            rw [kept_cons_kept rfl]
            exact List.mem_cons_of_mem _ hName
      exact Meets.bind (meets_ackItem item discard names hItem) fun names => ih names hRest

theorem meets_marketInfoAck {items : List AckItem}
    (hItems : ∀ name ∈ kept items, offered name) :
    Meets (Orderly limit offered failures) (marketInfoAck items)
      (fun _ => Orderly limit offered failures) (Orderly limit offered (failures + 1)) := by
  apply Meets.bind ((meets_ackItems items [] hItems).mono
    (fun c h => ⟨h, pending_nil c⟩) (fun _ _ h => h) (fun _ h => h))
  intro symbols
  split
  · exact meets_pure fun _ h => h.1
  · exact Meets.after_call (fun _ h => h.late) (meets_symbolsUpdate symbols)

/-- One connection becomes ready: its stream starts afresh and asks for its slice. -/
theorem meets_ready (k : Nat) :
    Meets (Orderly limit offered failures) (ready k) (fun _ => Orderly limit offered failures)
      (Orderly limit offered (failures + 1)) := by
  apply Meets.bind (R := fun c c' => Orderly limit offered failures c' ∧ c' = c)
    (meets_read fun _ h => ⟨h, rfl⟩)
  intro c
  have hEach {more : Nat} {c' : Controller} {marketData : List MarketData}
      (h : Orderly limit offered failures c' ∧ c' = c)
      (hReadied : List.Forall₂ (fun md md' => md' = md ∨ MarketData.Extends
        (c.shared.symbols.getSlice md.index 0) more md.connected md') c'.marketData marketData) :
      Orderly limit offered (failures + more) (c'.setMarketData marketData) := by
    obtain ⟨h, rfl⟩ := h
    apply h.setMarketData
    have hBoth := (List.forall₂_and_left _ _).mpr ⟨fun md hMem => hMem, hReadied⟩
    apply hBoth.imp
    rintro md md' ⟨hMem, rfl | hOne⟩
    · exact ⟨rfl, rfl, (h.streams _ hMem).mono (Nat.le_add_right _ _)⟩
    · refine ⟨hOne.same.streamId, hOne.same.index, ?_⟩
      exact (h.streams md hMem).connected.extends (fun _ => List.Sublist.refl _) hOne
  apply Meets.within
  · intro c' _
    have hReady (md : MarketData) : Meets (· = md) (MarketData.onReady c.shared.symbols)
        (fun _ md' => md' = md ∨ MarketData.Extends (c.shared.symbols.getSlice md.index 0) 0
          md.connected md')
        (fun md' => md' = md ∨ MarketData.Extends (c.shared.symbols.getSlice md.index 0) 1
          md.connected md') :=
      (MarketData.meets_onReady c.shared.symbols md).mono (fun _ h => h)
        (fun _ _ h => .inr h) (fun _ h => .inr h)
    exact meets_onNth hReady (fun _ => .inl rfl) (fun _ => .inl rfl) k c'.marketData
  · intro c' _ marketData h hReadied
    exact hEach h hReadied
  · intro c' marketData h hReadied
    exact hEach h hReadied

theorem meets_disconnected (k : Nat) :
    Meets (Orderly limit offered failures) (disconnected k)
      (fun _ => Orderly limit offered failures) (Orderly limit offered (failures + 1)) := by
  have hEach {c : Controller} {marketData : List MarketData} (h : Orderly limit offered failures c)
      (hDropped : List.Forall₂ (fun md md' => md' = md ∨ md' = md.dropped)
        c.marketData marketData) :
      Orderly limit offered (failures + 0) (c.setMarketData marketData) := by
    apply h.setMarketData
    have hBoth := (List.forall₂_and_left _ _).mpr ⟨fun md hMem => hMem, hDropped⟩
    apply hBoth.imp
    rintro md md' ⟨hMem, rfl | rfl⟩
    · exact ⟨rfl, rfl, h.streams _ hMem⟩
    · exact ⟨rfl, rfl, (h.streams _ hMem).dropped⟩
  apply Meets.within
  · intro c _
    have hDrop (md : MarketData) : Meets (· = md) MarketData.onDisconnected
        (fun _ md' => md' = md ∨ md' = md.dropped) (fun md' => md' = md ∨ md' = md.dropped) :=
      (MarketData.meets_onConnectionStatus .disconnected md).mono (fun _ h => h)
        (fun _ _ h => .inr h) (fun _ h => .inr h)
    exact meets_onNth hDrop (fun _ => .inl rfl) (fun _ => .inl rfl) k c.marketData
  · intro c _ marketData h hDropped
    exact hEach h hDropped
  · intro c marketData h hDropped
    exact (hEach h hDropped).mono (Nat.le_add_right _ _)

/-- **Contract of an event**, whose names are among those offered. -/
theorem meets_handle (e : Event) (hOffered : ∀ name ∈ e.offered, offered name) :
    Meets (Orderly limit offered failures) e.handle (fun _ => Orderly limit offered failures)
      (Orderly limit offered (failures + 1)) := by
  cases e with
  | marketInfoAck items => exact meets_marketInfoAck hOffered
  | subscribe names => exact meets_subscribe hOffered
  | ready k => exact meets_ready k
  | disconnected k => exact meets_disconnected k

end Controller

/-! ## Runs with failures -/

/-- An event, and the call of its handler that throws, if any. -/
abbrev Attempt := Event × Option (Nat × Exception)

/-- The gateway, and the number of handlers that an exception has cut short. -/
structure Trial where
  gateway : Controller
  failures : Nat := 0

/-- One event, with any of its calls throwing. -/
def Trial.step (t : Trial) (a : Attempt) : Trial :=
  match a.1.handle ⟨t.gateway, a.2⟩ with
  | .ok _ f => { t with gateway := f.state }
  | .error _ f => { gateway := f.state, failures := t.failures + 1 }

/-- The gateway before anything has happened. -/
def Trial.start (maxSubscriptions : Nat) (hMax : 0 < maxSubscriptions) (exchange : String) :
    Trial :=
  { gateway := .create maxSubscriptions hMax exchange }

/-- The name has been offered by one of the events. -/
def Offered (attempts : List Attempt) (name : Symbol) : Prop :=
  ∃ a ∈ attempts, name ∈ a.1.offered

/-- **Step lemma**: an event keeps the order, whichever call throws. -/
theorem orderly_step {limit : Nat} {offered : Symbol → Prop} {t : Trial}
    (h : Orderly limit offered t.failures t.gateway) (a : Attempt)
    (hOffered : ∀ name ∈ a.1.offered, offered name) :
    Orderly limit offered (t.step a).failures (t.step a).gateway := by
  have hEnds := Controller.meets_handle a.1 hOffered t.gateway a.2 h
  unfold Trial.step
  cases hRun : a.1.handle ⟨t.gateway, a.2⟩ with
  | ok _ f =>
      rw [hRun] at hEnds
      exact hEnds
  | error e f =>
      rw [hRun] at hEnds
      exact hEnds

/-- **Run lemma**. -/
theorem orderly_run (maxSubscriptions : Nat) (hMax : 0 < maxSubscriptions) (exchange : String)
    (attempts : List Attempt) :
    Orderly maxSubscriptions (Offered attempts)
      (run Trial.step (.start maxSubscriptions hMax exchange) attempts).failures
      (run Trial.step (.start maxSubscriptions hMax exchange) attempts).gateway :=
  List.foldlRecOn
    (motive := fun t : Trial =>
      Orderly maxSubscriptions (Offered attempts) t.failures t.gateway)
    attempts Trial.step (Orderly.create maxSubscriptions hMax exchange)
    fun _ h a ha => orderly_step h a fun _ hName => ⟨a, ha, hName⟩

/-! ## What is asked for -/

/-- The symbols asked for, on all connections so far. -/
def MarketData.everAsked (md : MarketData) (name : Symbol) : Prop :=
  ∃ r ∈ md.sentBefore ++ md.sent, ∃ method, name ∈ r.asks method

/-- Only what has been offered is asked for, by one stream only, and by each method at
most once on a connection. -/
structure AskedOnce (offered : Symbol → Prop) (c : Controller) : Prop where
  offered : ∀ md ∈ c.marketData, ∀ name, md.everAsked name → offered name
  once : ∀ md ∈ c.marketData, ∀ method, (requested method md.sent).Nodup
  apart : ∀ (k j : Nat) (md md' : MarketData), c.marketData[k]? = some md →
    c.marketData[j]? = some md' → ∀ name, md.everAsked name → md'.everAsked name → k = j

namespace Orderly

variable {limit : Nat} {offered : Symbol → Prop} {failures : Nat} {c : Controller}

theorem mem_slice_of_everAsked (h : Orderly limit offered failures c) {md : MarketData}
    (hMem : md ∈ c.marketData) {name : Symbol} (hAsked : md.everAsked name) :
    name ∈ c.shared.symbols.getSlice md.index 0 := by
  obtain ⟨r, hr, method, hName⟩ := hAsked
  exact (h.streams md hMem).ever r hr method name hName

theorem askedOnce (h : Orderly limit offered failures c) : AskedOnce offered c where
  offered md hMem name hAsked := by
    have hSlice := h.mem_slice_of_everAsked hMem hAsked
    exact h.offered name (h.known name (Symbols.mem_names_of_mem_getSlice hSlice))
  once md hMem method := ((h.streams md hMem).connection method).nodup (slice_nodup h.nodup)
  apart k j md md' hGet hGet' name hAsked hAsked' := by
    have hSlice := h.mem_slice_of_everAsked (List.mem_of_getElem? hGet) hAsked
    have hSlice' := h.mem_slice_of_everAsked (List.mem_of_getElem? hGet') hAsked'
    rw [h.index k md hGet] at hSlice
    rw [h.index j md' hGet'] at hSlice'
    exact slice_index_unique h.nodup hSlice hSlice'

end Orderly

/--
**Whatever throws, nothing is asked for out of turn.**  From the start, after any events
of which any call may have thrown, a stream has asked for a name only if an
acknowledgement has kept it or a client has subscribed to it, no two streams have ever
asked for the same name, and none has asked for a name twice on one connection.
-/
theorem asked_once (maxSubscriptions : Nat) (hMax : 0 < maxSubscriptions) (exchange : String)
    (attempts : List Attempt) :
    AskedOnce (Offered attempts)
      (run Trial.step (.start maxSubscriptions hMax exchange) attempts).gateway :=
  (orderly_run maxSubscriptions hMax exchange attempts).askedOnce

/-- A third name for two slots of which one is taken: the status of the first stream is
not dispatched, the subscription of its next connection is cut short, and so is the second
update, before its stream has been started. -/
def cutShortThrice : List Attempt :=
  [ (.marketInfoAck [named "A" false, named "B" true, named "C" false], none),
    (.ready 0, some (0, .other "not dispatched")),
    (.ready 0, some (4, .other "not sent")),
    (.subscribe ["D", "A"], some (3, .other "not started")),
    (.marketInfoAck [named "E" false], none),
    (.ready 1, none) ]

theorem asked_once_cut_short_thrice :
    0 < 2 ∧ AskedOnce (Offered cutShortThrice)
      (run Trial.step (.start 2 (by decide) "whitebit") cutShortThrice).gateway :=
  ⟨by decide, asked_once 2 (by decide) "whitebit" cutShortThrice⟩

/-! ## What is active -/

/-- On every connection and by every method, what is active belongs to the slice of the
stream and is within the limit; and no name is active on two connections. -/
structure WithinLimit (maxSubscriptions : Nat) (c : Controller) : Prop where
  own : ∀ md ∈ c.marketData, ∀ method,
    active md.sent method ⊆ (c.shared.symbols.getSlice md.index 0).toFinset
  limit : ∀ md ∈ c.marketData, ∀ method, (active md.sent method).card ≤ maxSubscriptions
  apart : ∀ (k j : Nat) (md md' : MarketData), c.marketData[k]? = some md →
    c.marketData[j]? = some md' → ∀ method method' name,
      name ∈ active md.sent method → name ∈ active md'.sent method' → k = j

/-- Only what has been asked for is active. -/
theorem mem_requested_of_foldl_receive {a : Active} {sent : List Request}
    {method : SubscribeMethod} {name : Symbol} (h : name ∈ sent.foldl receive a method) :
    name ∈ a method ∨ name ∈ requested method sent := by
  induction sent generalizing a with
  | nil => exact .inl h
  | cons r sent ih =>
      have hMore : requested method (r :: sent) = r.asks method ++ requested method sent := rfl
      rw [hMore, List.mem_append]
      rcases ih h with hReceived | hLater
      · cases r with
        | list id m symbols =>
            by_cases hMethod : method = m
            · simp only [receive, if_pos hMethod, List.mem_toFinset] at hReceived
              simp [Request.asks, hMethod, hReceived]
            · simp only [receive, if_neg hMethod] at hReceived
              exact .inl hReceived
        | level id m symbol limit =>
            by_cases hMethod : method = m
            · simp only [receive, if_pos hMethod, Finset.mem_insert] at hReceived
              rcases hReceived with hNew | hOld
              · simp [Request.asks, hMethod, hNew]
              · exact .inl hOld
            · simp only [receive, if_neg hMethod] at hReceived
              exact .inl hReceived
      · exact .inr (.inr hLater)

theorem active_subset_requested (sent : List Request) (method : SubscribeMethod) :
    active sent method ⊆ (requested method sent).toFinset := by
  intro name hName
  rw [List.mem_toFinset]
  exact (mem_requested_of_foldl_receive hName).resolve_left (Finset.notMem_empty name)

theorem Orderly.withinLimit {limit : Nat} {offered : Symbol → Prop} {failures : Nat}
    {c : Controller} (h : Orderly limit offered failures c) : WithinLimit limit c := by
  have hOwn (md : MarketData) (hMem : md ∈ c.marketData) (method : SubscribeMethod) :
      active md.sent method ⊆ (c.shared.symbols.getSlice md.index 0).toFinset := by
    intro name hName
    have hAsked := List.mem_toFinset.mp (active_subset_requested md.sent method hName)
    exact List.mem_toFinset.mpr (((h.streams md hMem).connection method).subset hAsked)
  refine ⟨hOwn, fun md hMem method => ?_, ?_⟩
  · calc (active md.sent method).card
        ≤ (c.shared.symbols.getSlice md.index 0).toFinset.card :=
          Finset.card_le_card (hOwn md hMem method)
      _ ≤ (c.shared.symbols.getSlice md.index 0).length := List.toFinset_card_le _
      _ ≤ c.shared.symbols.maxSubscriptions := length_slice_le _ _ _
      _ = limit := h.limit
  · intro k j md md' hGet hGet' method method' name hActive hActive'
    have hSlice := List.mem_toFinset.mp (hOwn md (List.mem_of_getElem? hGet) method hActive)
    have hSlice' := List.mem_toFinset.mp (hOwn md' (List.mem_of_getElem? hGet') method' hActive')
    rw [h.index k md hGet] at hSlice
    rw [h.index j md' hGet'] at hSlice'
    exact slice_index_unique h.nodup hSlice hSlice'

/--
**Whatever throws, the limit is kept.**  From the start, after any events of which any
call may have thrown, no connection has more active symbols by a method than
`max_subscriptions_per_stream`, all of them are of the slice of its stream, and no symbol
is active on two connections.
-/
theorem within_limit (maxSubscriptions : Nat) (hMax : 0 < maxSubscriptions) (exchange : String)
    (attempts : List Attempt) :
    WithinLimit maxSubscriptions
      (run Trial.step (.start maxSubscriptions hMax exchange) attempts).gateway :=
  (orderly_run maxSubscriptions hMax exchange attempts).withinLimit

theorem within_limit_cut_short_thrice :
    0 < 2 ∧ WithinLimit 2
      (run Trial.step (.start 2 (by decide) "whitebit") cutShortThrice).gateway :=
  ⟨by decide, within_limit 2 (by decide) "whitebit" cutShortThrice⟩

/-! ## Identifiers -/

/-- There is room for every identifier that may have been used up: a handler that is cut
short leaves at most one identifier unused. -/
structure RoomDespite (failures : Nat) (c : Controller) : Prop where
  streams : c.marketData.length + failures ≤ 65534
  requests : ∀ md ∈ c.marketData, md.requestCount + failures ≤ 1000000

/-- Identifiers from a counter that has not come round are distinct and in order. -/
theorem HandedOut.sorted {failures : Nat} {counter : UInt16} {ids : List UInt16}
    (h : HandedOut failures counter ids) (hRoom : ids.length + failures ≤ 65535) :
    ids.Pairwise (fun id id' => id.toNat < id'.toNat) ∧ ∀ id ∈ ids, 0 < id.toNat := by
  obtain ⟨ns, last, rfl, hSorted, hRange, _, hLast⟩ := h
  rw [List.length_map] at hRoom
  have hToNat (n : Nat) (hn : n ∈ ns) : (UInt16.ofNat n).toNat = n := by
    have hn' := hRange n hn
    rw [UInt16.toNat_ofNat']
    exact Nat.mod_eq_of_lt (by omega)
  constructor
  · rw [List.pairwise_map]
    apply hSorted.imp_of_mem
    intro n m hn hm hLt
    rw [hToNat n hn, hToNat m hm]
    exact hLt
  · intro id hId
    obtain ⟨n, hn, rfl⟩ := List.mem_map.mp hId
    rw [hToNat n hn]
    exact (hRange n hn).1

/-- The requests of a stream are within a million of the start of its counter. -/
theorem MarketData.Contained.requestIds_range {symbols : Symbols} {failures : Nat}
    {md : MarketData} (h : md.Contained symbols failures)
    (hRoom : md.requestCount + failures ≤ 1000000) :
    md.requestIds.Nodup ∧ ∀ id ∈ md.requestIds,
      md.streamId.toNat * 1000000 < id.toNat ∧
        id.toNat ≤ md.streamId.toNat * 1000000 + 1000000 := by
  obtain ⟨n, _, hIds, hBound⟩ := h.counter
  have hStream := md.streamId.toNat_lt
  have hBase : md.base.toNat = md.streamId.toNat * 1000000 := by
    unfold base
    rw [UInt64.toNat_mul, UInt16.toNat_toUInt64]
    exact Nat.mod_eq_of_lt (by show md.streamId.toNat * 1000000 < 2 ^ 64; omega)
  have hEnd : md.base.toNat + n < 2 ^ 64 := by omega
  refine ⟨hIds.nodup (block_nodup hEnd), fun id hId => ?_⟩
  have hBlock := (mem_block_iff hEnd).mp (hIds.subset hId)
  omega

theorem Orderly.distinctIdentifiers {limit : Nat} {offered : Symbol → Prop} {failures : Nat}
    {c : Controller} (h : Orderly limit offered failures c) (hRoom : RoomDespite failures c) :
    DistinctIdentifiers c := by
  have hLength : c.streamIds.length = c.marketData.length + 1 := by
    unfold Controller.streamIds
    rw [List.length_cons, List.length_map]
  have hStreams := hRoom.streams
  obtain ⟨hSorted, hPositive⟩ := h.streamIds.sorted (by omega)
  have hRange (md : MarketData) (hMem : md ∈ c.marketData) :=
    (h.streams md hMem).requestIds_range (hRoom.requests md hMem)
  refine ⟨hSorted.imp fun {id id'} hLt hSame => ?_, fun id hId hZero => ?_, ?_,
    fun id hId hPing => ?_⟩
  · rw [hSame] at hLt
    omega
  · have hPos := hPositive id hId
    rw [hZero] at hPos
    exact absurd hPos (Nat.lt_irrefl 0)
  · unfold Controller.requestIds
    rw [List.nodup_flatMap]
    refine ⟨fun md hMem => (hRange md hMem).1, ?_⟩
    have hTail := List.pairwise_map.mp (List.pairwise_cons.mp hSorted).2
    apply hTail.imp_of_mem
    intro md md' hMem hMem' hLt id hId hId'
    have hLow := (hRange md hMem).2 id hId
    have hHigh := (hRange md' hMem').2 id hId'
    omega
  · obtain ⟨md, hMem, hOwn⟩ := List.mem_flatMap.mp hId
    have hLow := ((hRange md hMem).2 id hOwn).1
    rw [hPing] at hLow
    exact absurd hLow (Nat.not_lt_zero _)

/--
**Whatever throws, identifiers stay apart.**  From the start, after any events of which
any call may have thrown, the streams and the requests have identifiers of their own,
other than zero, as long as there is room for the identifiers that failures have left
unused.
-/
theorem identifiers_distinct_despite_failures (maxSubscriptions : Nat)
    (hMax : 0 < maxSubscriptions) (exchange : String) (attempts : List Attempt)
    (hRoom : RoomDespite (run Trial.step (.start maxSubscriptions hMax exchange) attempts).failures
      (run Trial.step (.start maxSubscriptions hMax exchange) attempts).gateway) :
    DistinctIdentifiers
      (run Trial.step (.start maxSubscriptions hMax exchange) attempts).gateway :=
  (orderly_run maxSubscriptions hMax exchange attempts).distinctIdentifiers hRoom

/-- Three handlers have been cut short, and two streams have sent three, and one request for
each call that did not throw. -/
theorem identifiers_distinct_cut_short_thrice :
    0 < 2 ∧
    RoomDespite (run Trial.step (.start 2 (by decide) "whitebit") cutShortThrice).failures
      (run Trial.step (.start 2 (by decide) "whitebit") cutShortThrice).gateway ∧
    DistinctIdentifiers
      (run Trial.step (.start 2 (by decide) "whitebit") cutShortThrice).gateway := by
  have hRoom : RoomDespite
      (run Trial.step (.start 2 (by decide) "whitebit") cutShortThrice).failures
      (run Trial.step (.start 2 (by decide) "whitebit") cutShortThrice).gateway :=
    ⟨by decide +kernel, by decide +kernel⟩
  exact ⟨by decide, hRoom,
    identifiers_distinct_despite_failures 2 (by decide) "whitebit" cutShortThrice hRoom⟩

end RoqWhitebit.Gateway
