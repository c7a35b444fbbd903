import RoqWhitebit.Gateway.Failures

/-!
# Announced before it is asked for

Clients learn of a symbol from its reference data.  The handler of an acknowledgement
dispatches the reference data of an item before it makes the name known, and a name has
to be known before any stream can ask for it.  So whatever throws, what the streams have
asked for has been announced, unless a client has subscribed to it unannounced.

`Told` is what a handler, or a part of it, adds to what clients have been told.
-/

namespace RoqWhitebit.Gateway

open RoqWhitebit.General

/-- The reference data of the items of an acknowledgement. -/
def Event.records (streamId : UInt16) (exchange : String) : Event → List ReferenceData
  | .marketInfoAck items =>
      items.map fun item => referenceData streamId exchange item.1 item.2
  | .subscribe _ => []
  | .ready _ => []
  | .disconnected _ => []

/-- A client subscribes to the name. -/
def Event.Wants (name : Symbol) : Event → Prop
  | .subscribe names => name ∈ names
  | .marketInfoAck _ => False
  | .ready _ => False
  | .disconnected _ => False

/-- The name has been announced, and not to be discarded. -/
def AnnouncedIn (records : List ReferenceData) (name : Symbol) : Prop :=
  ∃ r ∈ records, r.symbol = name ∧ r.discard = false

namespace Controller

/-- These records have been dispatched, and what has become known with them is announced
by them or wanted. -/
structure Told (wanted : Symbol → Prop) (records : List ReferenceData) (c c' : Controller) :
    Prop where
  restStreamId : c'.restStreamId = c.restStreamId
  exchange : c'.exchange = c.exchange
  dispatched : c'.dispatched = c.dispatched ++ records
  known : ∀ name ∈ c'.shared.allSymbols,
    name ∈ c.shared.allSymbols ∨ wanted name ∨ AnnouncedIn records name

/-- Some of these records, from the first one on. -/
def ToldSome (wanted : Symbol → Prop) (records : List ReferenceData) (c c' : Controller) :
    Prop :=
  ∃ told, told <+: records ∧ Told wanted told c c'

section Told

variable {wanted : Symbol → Prop} {c c' c'' : Controller}

/-- Clients are told nothing, and nothing becomes known. -/
theorem told_nothing (hRest : c'.restStreamId = c.restStreamId)
    (hExchange : c'.exchange = c.exchange) (hDispatched : c'.dispatched = c.dispatched)
    (hKnown : c'.shared.allSymbols = c.shared.allSymbols) : Told wanted [] c c' where
  restStreamId := hRest
  exchange := hExchange
  dispatched := by rw [hDispatched, List.append_nil]
  known name hName := by
    rw [hKnown] at hName
    exact .inl hName

theorem told_refl (c : Controller) : Told wanted [] c c := told_nothing rfl rfl rfl rfl

theorem Told.append {records records' : List ReferenceData} (h : Told wanted records c c')
    (h' : Told wanted records' c' c'') : Told wanted (records ++ records') c c'' where
  restStreamId := h'.restStreamId.trans h.restStreamId
  exchange := h'.exchange.trans h.exchange
  dispatched := by rw [h'.dispatched, h.dispatched, List.append_assoc]
  known name hName := by
    rcases h'.known name hName with hBefore | hWanted | ⟨r, hr, hAnnounced⟩
    · rcases h.known name hBefore with hOld | hWanted | ⟨r, hr, hAnnounced⟩
      · exact .inl hOld
      · exact .inr (.inl hWanted)
      · exact .inr (.inr ⟨r, List.mem_append_left _ hr, hAnnounced⟩)
    · exact .inr (.inl hWanted)
    · exact .inr (.inr ⟨r, List.mem_append_right _ hr, hAnnounced⟩)

theorem told_trans (c c' c'' : Controller) (h : Told wanted [] c c')
    (h' : Told wanted [] c' c'') : Told wanted [] c c'' := h.append h'

/-- A handler that tells clients nothing more, however it ends. -/
theorem Told.then_nothing {records : List ReferenceData} (h : Told wanted records c c')
    (h' : Told wanted [] c' c'') : Told wanted records c c'' := by
  have hBoth := h.append h'
  rw [List.append_nil] at hBoth
  exact hBoth

end Told

/-! ## What the handlers tell clients -/

section Handlers

variable {wanted : Symbol → Prop}

theorem keeps_createStreams (n : Nat) : Keeps (Told wanted []) (createStreams n) := by
  induction n with
  | zero => exact keeps_pure told_refl ()
  | succ n ih =>
      have hStream : Keeps (Told wanted []) createStream := by
        refine Keeps.bind (keeps_write fun _ => told_nothing rfl rfl rfl rfl) (fun _ => ?_)
          told_trans
        refine Keeps.bind (keeps_call told_refl) (fun _ => ?_) told_trans
        refine Keeps.bind (keeps_read told_refl) (fun _ => ?_) told_trans
        refine Keeps.bind (keeps_call told_refl) (fun _ => ?_) told_trans
        exact keeps_write fun _ => told_nothing rfl rfl rfl rfl
      exact Keeps.bind hStream (fun _ => ih) told_trans

/-- What happens to the streams tells clients nothing. -/
theorem keeps_withinMarketData (m : Throwing Exception (List MarketData) Unit) :
    Keeps (Told wanted []) (within marketData setMarketData m) :=
  keeps_within (Q := fun _ _ => True) (fun _ _ => trivial)
    fun _ _ _ => told_nothing rfl rfl rfl rfl

/-- An update tells clients nothing. -/
theorem keeps_symbolsUpdate (names : List Symbol) :
    Keeps (Told wanted []) (symbolsUpdate names) := by
  refine Keeps.bind (keeps_read told_refl) (fun c => ?_) told_trans
  refine Keeps.bind (keeps_write fun _ => told_nothing rfl rfl rfl rfl) (fun _ => ?_) told_trans
  refine Keeps.bind ?_ (fun _ => keeps_withinMarketData _) told_trans
  exact Keeps.bind (keeps_read told_refl) (fun _ => keeps_createStreams _) told_trans

/-- A name that is wanted becomes known. -/
theorem keeps_emplace {name : Symbol} (hName : wanted name) :
    Keeps (Told wanted []) (emplace name) := by
  refine Keeps.bind (keeps_read told_refl) (fun c => ?_) told_trans
  refine Keeps.bind (keeps_write fun c => ?_) (fun _ => keeps_pure told_refl _) told_trans
  refine ⟨rfl, rfl, (List.append_nil _).symm, fun other hOther => ?_⟩
  rcases mem_learn_allSymbols.mp hOther with rfl | hOld
  · exact .inr (.inl hName)
  · exact .inl hOld

theorem keeps_subscribeItems (items names : List Symbol) (hItems : ∀ item ∈ items, wanted item) :
    Keeps (Told wanted []) (subscribeItems items names) := by
  induction items generalizing names with
  | nil => exact keeps_pure told_refl names
  | cons item items ih =>
      have hRest := fun names => ih names fun other hOther =>
        hItems other (List.mem_cons_of_mem item hOther)
      refine Keeps.bind (keeps_emplace (hItems item List.mem_cons_self)) (fun isNew => ?_)
        told_trans
      cases isNew with
      | true => exact Keeps.bind (keeps_call told_refl) (fun _ => hRest _) told_trans
      | false => exact hRest _

/-- A client's subscription tells clients nothing. -/
theorem keeps_subscribe (names : List Symbol) (hNames : ∀ name ∈ names, wanted name) :
    Keeps (Told wanted []) (subscribe names) := by
  refine Keeps.bind (keeps_subscribeItems names [] hNames) (fun symbols => ?_) told_trans
  exact Keeps.bind (keeps_call told_refl) (fun _ => keeps_symbolsUpdate symbols) told_trans

theorem keeps_ready (k : Nat) : Keeps (Told wanted []) (ready k) :=
  Keeps.bind (keeps_read told_refl) (fun _ => keeps_withinMarketData _) told_trans

/-- What tells clients nothing may come after what does. -/
theorem meets_nothing {α : Type} {m : Throwing Exception Controller α}
    (h : Keeps (Told wanted []) m) (records : List ReferenceData) (c : Controller) :
    Meets (Told wanted records c) m (fun _ => Told wanted records c) (Told wanted records c) :=
  Meets.of_each fun c' hTold => (h.meets c').mono (fun _ hSame => hSame)
    (fun _ _ h' => hTold.then_nothing h') (fun _ h' => hTold.then_nothing h')

theorem Told.some {records : List ReferenceData} {c c' : Controller}
    (h : Told wanted records c c') (later : List ReferenceData) :
    ToldSome wanted (records ++ later) c c' := ⟨records, List.prefix_append _ _, h⟩

theorem ToldSome.append {records : List ReferenceData} {c c' : Controller}
    (h : ToldSome wanted records c c') (later : List ReferenceData) :
    ToldSome wanted (records ++ later) c c' := by
  obtain ⟨told, hTold, h⟩ := h
  exact ⟨told, hTold.trans (List.prefix_append _ _), h⟩

/-- A name that has been announced becomes known. -/
theorem meets_emplace_announced {records : List ReferenceData} {name : Symbol}
    (hName : AnnouncedIn records name) (c : Controller) (E : Controller → Prop) :
    Meets (Told wanted records c) (emplace name) (fun _ => Told wanted records c) E := by
  intro c' fuse h
  rw [emplace_apply]
  refine ⟨h.restStreamId, h.exchange, h.dispatched, fun other hOther => ?_⟩
  rcases mem_learn_allSymbols.mp hOther with rfl | hOld
  · exact .inr (.inr hName)
  · exact h.known other hOld

/-- One turn of the loop over the items: the record goes out before the name is known. -/
theorem meets_ackItem_told (item : AckItem) (names : List Symbol)
    (records : List ReferenceData) (c : Controller) :
    Meets (Told wanted records c) (ackItem item.1 item.2 names)
      (fun _ => Told wanted
        (records ++ [referenceData c.restStreamId c.exchange item.1 item.2]) c)
      (ToldSome wanted
        (records ++ [referenceData c.restStreamId c.exchange item.1 item.2]) c) := by
  obtain ⟨item, discard⟩ := item
  apply Meets.after_call (fun _ h => h.some _)
  apply Meets.after_call (fun _ h => h.some _)
  apply Meets.bind (R := fun _ =>
    Told wanted (records ++ [referenceData c.restStreamId c.exchange item discard]) c)
  · apply meets_write
    intro c' h
    refine ⟨h.restStreamId, h.exchange, ?_, fun name hName => ?_⟩
    · show c'.dispatched ++ [referenceData c'.restStreamId c'.exchange item discard] = _
      rw [h.dispatched, h.restStreamId, h.exchange, List.append_assoc]
    · rcases h.known name hName with hOld | hWanted | ⟨r, hr, hAnnounced⟩
      · exact .inl hOld
      · exact .inr (.inl hWanted)
      · exact .inr (.inr ⟨r, List.mem_append_left _ hr, hAnnounced⟩)
  · intro _
    have hSome (c' : Controller) (h : Told wanted
        (records ++ [referenceData c.restStreamId c.exchange item discard]) c c') :
        ToldSome wanted (records ++ [referenceData c.restStreamId c.exchange item discard]) c c' :=
      ⟨_, List.prefix_rfl, h⟩
    cases discard with
    | true => exact meets_pure fun _ h => h
    | false =>
        apply Meets.bind (meets_emplace_announced
          ⟨_, List.mem_append_right _ (List.mem_singleton_self _), rfl, rfl⟩ c _)
        intro isNew
        cases isNew with
        | true => exact Meets.after_call hSome (meets_pure fun _ h => h)
        | false => exact meets_pure fun _ h => h

theorem meets_ackItems_told (items : List AckItem) (names : List Symbol)
    (records : List ReferenceData) (c : Controller) :
    Meets (Told wanted records c) (ackItems items names)
      (fun _ => Told wanted (records ++
        (Event.marketInfoAck items).records c.restStreamId c.exchange) c)
      (ToldSome wanted (records ++
        (Event.marketInfoAck items).records c.restStreamId c.exchange) c) := by
  induction items generalizing names records with
  | nil =>
      apply meets_pure
      intro c' h
      show Told wanted (records ++ []) c c'
      rw [List.append_nil]
      exact h
  | cons item items ih =>
      have hSplit : records ++
          (Event.marketInfoAck (item :: items)).records c.restStreamId c.exchange =
            (records ++ [referenceData c.restStreamId c.exchange item.1 item.2]) ++
              (Event.marketInfoAck items).records c.restStreamId c.exchange := by
        rw [List.append_assoc]
        rfl
      rw [hSplit]
      apply Meets.bind ((meets_ackItem_told item names records c).mono (fun _ h => h)
        (fun _ _ h => h) (fun _ h => h.append _))
      intro names
      exact ih names _

theorem meets_marketInfoAck_told (items : List AckItem) (c : Controller) :
    Meets (· = c) (marketInfoAck items)
      (fun _ => Told wanted ((Event.marketInfoAck items).records c.restStreamId c.exchange) c)
      (ToldSome wanted ((Event.marketInfoAck items).records c.restStreamId c.exchange) c) := by
  have hStart (c' : Controller) (h : c' = c) : Told wanted [] c c' := by
    rw [h]
    exact told_refl c
  have hLoop := (meets_ackItems_told items [] [] c).mono hStart
    (fun _ _ h => h) (fun _ h => h)
  have hSome (c' : Controller) (h : Told wanted
      ((Event.marketInfoAck items).records c.restStreamId c.exchange) c c') :
      ToldSome wanted ((Event.marketInfoAck items).records c.restStreamId c.exchange) c c' :=
    ⟨_, List.prefix_rfl, h⟩
  apply Meets.bind hLoop
  intro symbols
  split
  · exact meets_pure fun _ h => h
  · exact Meets.after_call hSome ((meets_nothing (keeps_symbolsUpdate symbols) _ c).mono
      (fun _ h => h) (fun _ _ h => h) hSome)

/-- **What an event tells clients**: its records, or some of them if it is cut short. -/
theorem meets_handle_told (e : Event) (hWanted : ∀ name, e.Wants name → wanted name)
    (c : Controller) :
    Meets (· = c) e.handle (fun _ => Told wanted (e.records c.restStreamId c.exchange) c)
      (ToldSome wanted (e.records c.restStreamId c.exchange) c) := by
  have hNothing {m : Throwing Exception Controller Unit} (h : Keeps (Told wanted []) m) :
      Meets (· = c) m (fun _ => Told wanted [] c) (ToldSome wanted [] c) :=
    (h.meets c).mono (fun _ h => h) (fun _ _ h => h) fun _ h => ⟨[], List.prefix_rfl, h⟩
  cases e with
  | marketInfoAck items => exact meets_marketInfoAck_told items c
  | subscribe names => exact hNothing (keeps_subscribe names hWanted)
  | ready k => exact hNothing (keeps_ready k)
  | disconnected k => exact hNothing (keeps_withinMarketData _)

end Handlers

/-- Without a failure a handler returns. -/
theorem handle_returns (e : Event) (c : Controller) :
    ∃ c', e.handle ⟨c, none⟩ = .ok () ⟨c', none⟩ := by
  cases e with
  | marketInfoAck items => exact ⟨_, marketInfoAck_quiet items c⟩
  | subscribe names => exact ⟨_, subscribe_quiet names c⟩
  | ready k => exact ⟨_, ready_quiet k c⟩
  | disconnected k => exact ⟨_, disconnected_quiet k c⟩

end Controller

/-! ## Runs -/

/-- What an attempt has told clients: the records of its event, or where it has been cut
short some of them, from the first one on. -/
def Tells (streamId : UInt16) (exchange : String) (a : Attempt) (told : List ReferenceData) :
    Prop :=
  told <+: a.1.records streamId exchange ∧
    (a.2 = none → told = a.1.records streamId exchange)

/-- **Step lemma**. -/
theorem told_step {wanted : Symbol → Prop} (t : Trial) (a : Attempt)
    (hWanted : ∀ name, a.1.Wants name → wanted name) :
    ∃ told, Tells t.gateway.restStreamId t.gateway.exchange a told ∧
      Controller.Told wanted told t.gateway (t.step a).gateway := by
  have hEnds := Controller.meets_handle_told a.1 hWanted t.gateway t.gateway a.2 rfl
  unfold Trial.step
  cases hRun : a.1.handle ⟨t.gateway, a.2⟩ with
  | ok _ f =>
      rw [hRun] at hEnds
      exact ⟨_, ⟨List.prefix_rfl, fun _ => rfl⟩, hEnds⟩
  | error e f =>
      rw [hRun] at hEnds
      obtain ⟨told, hTold, h⟩ := hEnds
      refine ⟨told, ⟨hTold, fun hNone => ?_⟩, h⟩
      obtain ⟨c', hReturns⟩ := Controller.handle_returns a.1 t.gateway
      rw [hNone, hReturns] at hRun
      cases hRun

/-- **Run lemma**. -/
theorem told_run {wanted : Symbol → Prop} (t : Trial) (attempts : List Attempt)
    (hWanted : ∀ a ∈ attempts, ∀ name, a.1.Wants name → wanted name) :
    ∃ parts, List.Forall₂ (Tells t.gateway.restStreamId t.gateway.exchange) attempts parts ∧
      Controller.Told wanted parts.flatten t.gateway (run Trial.step t attempts).gateway := by
  induction attempts generalizing t with
  | nil => exact ⟨[], List.Forall₂.nil, Controller.told_refl _⟩
  | cons a attempts ih =>
      obtain ⟨told, hTells, hFirst⟩ := told_step t a (hWanted a List.mem_cons_self)
      obtain ⟨parts, hParts, hRest⟩ := ih (t.step a) fun a' ha' =>
        hWanted a' (List.mem_cons_of_mem a ha')
      rw [hFirst.restStreamId, hFirst.exchange] at hParts
      exact ⟨told :: parts, List.Forall₂.cons hTells hParts, hFirst.append hRest⟩

/-- Clients have been told what each event had to tell, in order, and what the streams
have asked for has been announced or wanted. -/
structure AnnouncedFirst (exchange : String) (attempts : List Attempt) (c : Controller) :
    Prop where
  dispatched : ∃ parts, List.Forall₂ (Tells 1 exchange) attempts parts ∧
    c.dispatched = parts.flatten
  asked : ∀ md ∈ c.marketData, ∀ name, md.everAsked name →
    (∃ a ∈ attempts, a.1.Wants name) ∨ AnnouncedIn c.dispatched name

/--
**Nothing is asked for that has not been announced.**  From the start, after any events of
which any call may have thrown, clients have received, event by event, the reference data
of every acknowledgement, all of it unless its handler was cut short and then its first
records.  And what any stream has ever asked for has been announced to them, not to be
discarded, or one of them has subscribed to it.
-/
theorem announced_first (maxSubscriptions : Nat) (hMax : 0 < maxSubscriptions)
    (exchange : String) (attempts : List Attempt) :
    AnnouncedFirst exchange attempts
      (run Trial.step (.start maxSubscriptions hMax exchange) attempts).gateway := by
  have hOrderly := orderly_run maxSubscriptions hMax exchange attempts
  have hWanted (a : Attempt) (ha : a ∈ attempts) (name : Symbol) (hName : a.1.Wants name) :
      ∃ a ∈ attempts, a.1.Wants name := ⟨a, ha, hName⟩
  obtain ⟨parts, hParts, hTold⟩ :=
    told_run (.start maxSubscriptions hMax exchange) attempts hWanted
  refine ⟨⟨parts, hParts, hTold.dispatched⟩, fun md hMem name hAsked => ?_⟩
  have hListed := Symbols.mem_names_of_mem_getSlice (hOrderly.mem_slice_of_everAsked hMem hAsked)
  rcases hTold.known name (hOrderly.known name hListed) with hNone | hWanted | hAnnounced
  · exact absurd hNone (Finset.notMem_empty name)
  · exact .inl hWanted
  · rw [hTold.dispatched]
    exact .inr hAnnounced

theorem announced_first_cut_short_thrice :
    0 < 2 ∧ AnnouncedFirst "whitebit" cutShortThrice
      (run Trial.step (.start 2 (by decide) "whitebit") cutShortThrice).gateway :=
  ⟨by decide, announced_first 2 (by decide) "whitebit" cutShortThrice⟩

end RoqWhitebit.Gateway
