import RoqWhitebit.Gateway.Distribution
import RoqWhitebit.Gateway.Download

/-!
# Acknowledgements that fail part-way

Any call made while a market-info acknowledgement is handled may throw; the download
then tries again, and another acknowledgement is handled later.  A name is known as
soon as the loop over the items has reached it, but it is delivered to the streams
only after the loop, and a known name is never delivered again.

This file determines the calls at which an exception loses a name.
-/

namespace RoqWhitebit.Gateway

open RoqWhitebit.General
open RoqWhitebit.Protocol.Json

namespace Controller

/-! ## Delivered names -/

/-- The name is in the shared list and in the slice of an existing stream. -/
def Delivered (c : Controller) (name : Symbol) : Prop :=
  name ∈ c.shared.symbols.names ∧
    ∃ md ∈ c.marketData, name ∈ c.shared.symbols.getSlice md.index 0

/-- Being known does not get ahead of being delivered. -/
def AllDelivered (c : Controller) : Prop :=
  ∀ name ∈ c.shared.allSymbols, c.Delivered name

/-- What holds of the lists however the handlers end. -/
structure Listed (c : Controller) : Prop where
  nodup : c.shared.symbols.names.Nodup
  known : ∀ name ∈ c.shared.symbols.names, name ∈ c.shared.allSymbols
  index : ∀ (k : Nat) (md : MarketData), c.marketData[k]? = some md → md.index = k

/-- The calls at which an exception loses no name: there is no new name, or none has
been reached, or every slice has its stream. -/
def Safe (c : Controller) (items : List AckItem) : Option (Nat × Exception) → Prop
  | none => True
  | some (k, _) =>
      fresh c.shared.allSymbols (kept items) = [] ∨
      k < callsBeforeNew c.shared.allSymbols items ∨
      ackCalls c.shared.allSymbols items + 1 +
        2 * c.missing (fresh c.shared.allSymbols (kept items)) ≤ k

theorem callsBeforeNew_le (known : Finset Symbol) (items : List AckItem) :
    callsBeforeNew known items ≤ ackCalls known items := by
  induction items with
  | nil => exact Nat.zero_le _
  | cons item items ih =>
      obtain ⟨item, discard⟩ := item
      by_cases hOld : discard = true ∨ item.name ∈ known
      · rw [callsBeforeNew_old hOld, ackCalls_old hOld]
        omega
      · rw [callsBeforeNew, if_neg hOld]
        unfold ackCalls
        rw [List.length_cons]
        omega

/-- Without a new name the loop never reaches one. -/
theorem callsBeforeNew_of_none {known : Finset Symbol} {items : List AckItem}
    (h : fresh known (kept items) = []) :
    callsBeforeNew known items = ackCalls known items := by
  induction items with
  | nil => rfl
  | cons item items ih =>
      obtain ⟨item, discard⟩ := item
      by_cases hOld : discard = true ∨ item.name ∈ known
      · rw [fresh_kept_old hOld] at h
        rw [callsBeforeNew_old hOld, ackCalls_old hOld, ih h]
      · have hNew : item.name ∉ known := fun hKnown => hOld (.inr hKnown)
        obtain rfl : discard = false := Bool.eq_false_iff.mpr fun hTrue => hOld (.inl hTrue)
        rw [fresh_kept_new hNew] at h
        exact nomatch h

/-! ## One acknowledgement -/

section Acknowledgement

variable {c c' : Controller} {items : List AckItem}

/-- A name that is new has not been delivered. -/
theorem Listed.not_delivered_of_new (h : Listed c)
    (hSymbols : c'.shared.symbols = c.shared.symbols)
    {name : Symbol} (hNew : name ∉ c.shared.allSymbols) : ¬ c'.Delivered name := by
  rintro ⟨hNames, _⟩
  rw [hSymbols] at hNames
  exact hNew (h.known name hNames)

/-- The lists after an acknowledgement that has not delivered anything. -/
theorem Listed.of_same (h : Listed c) (hSymbols : c'.shared.symbols = c.shared.symbols)
    (hMarketData : c'.marketData = c.marketData)
    (hKnown : ∀ x ∈ c.shared.allSymbols, x ∈ c'.shared.allSymbols) : Listed c' where
  nodup := by
    rw [hSymbols]
    exact h.nodup
  known name hName := by
    rw [hSymbols] at hName
    exact hKnown name (h.known name hName)
  index := by
    rw [hMarketData]
    exact h.index

theorem AllDelivered.of_same (h : AllDelivered c)
    (hSymbols : c'.shared.symbols = c.shared.symbols)
    (hMarketData : c'.marketData = c.marketData)
    (hKnown : ∀ x ∈ c'.shared.allSymbols, x ∈ c.shared.allSymbols) : AllDelivered c' := by
  intro name hName
  unfold Delivered
  rw [hSymbols, hMarketData]
  exact h name (hKnown name hName)

/-- The lists once the new names have been appended. -/
theorem Listed.of_appended (h : Listed c) {names : List Symbol}
    (hSymbols : c'.shared.symbols =
      c.shared.symbols.append (fresh c.shared.allSymbols names))
    (hKnown : ∀ x, x ∈ c'.shared.allSymbols ↔ x ∈ c.shared.allSymbols ∨ x ∈ names)
    (hIndex : ∀ (k : Nat) (md : MarketData), c'.marketData[k]? = some md → md.index = k) :
    Listed c' where
  nodup := by
    rw [hSymbols, Symbols.append_names, List.nodup_append]
    refine ⟨h.nodup, fresh_nodup _ _, fun x hx y hy => ?_⟩
    rintro rfl
    exact (mem_fresh.mp hy).2 (h.known x hx)
  known name hName := by
    rw [hSymbols, Symbols.append_names, List.mem_append] at hName
    rw [hKnown]
    exact hName.imp (h.known name) fun hNew => (mem_fresh.mp hNew).1
  index := hIndex

/-- If every slice has its stream then the appended names are delivered. -/
theorem AllDelivered.of_appended (h : AllDelivered c) {names : List Symbol}
    (hSymbols : c'.shared.symbols =
      c.shared.symbols.append (fresh c.shared.allSymbols names))
    (hKnown : ∀ x, x ∈ c'.shared.allSymbols ↔ x ∈ c.shared.allSymbols ∨ x ∈ names)
    (hIndex : ∀ (k : Nat) (md : MarketData), c'.marketData[k]? = some md → md.index = k)
    (hStreams : c'.shared.symbols.size ≤ c'.marketData.length) : AllDelivered c' := by
  intro name hName
  have hListed : name ∈ c'.shared.symbols.names := by
    rw [hSymbols, Symbols.append_names, List.mem_append]
    by_cases hOld : name ∈ c.shared.allSymbols
    · exact .inl (h name hOld).1
    · exact .inr (mem_fresh.mpr ⟨((hKnown name).mp hName).resolve_left hOld, hOld⟩)
  obtain ⟨k, hLt, hSlice⟩ := Symbols.exists_mem_getSlice hListed
  have hGet := List.getElem?_eq_getElem (Nat.lt_of_lt_of_le hLt hStreams)
  refine ⟨hListed, _, List.mem_of_getElem? hGet, ?_⟩
  rw [hIndex k _ hGet]
  exact hSlice

/-- If a slice has no stream then its names are not delivered. -/
theorem Listed.not_allDelivered (h : Listed c)
    (hStreams : c.marketData.length < c.shared.symbols.size) : ¬ AllDelivered c := by
  intro hAll
  obtain ⟨name, hSlice⟩ := List.exists_mem_of_ne_nil _
    ((Symbols.getSlice_ne_nil_iff c.shared.symbols _).mpr hStreams)
  have hName := h.known name (Symbols.mem_names_of_mem_getSlice hSlice)
  obtain ⟨_, md, hMem, hOther⟩ := hAll name hName
  obtain ⟨k, hGet⟩ := List.mem_iff_getElem?.mp hMem
  have hLt := (List.getElem?_eq_some_iff.mp hGet).1
  rw [h.index k md hGet] at hOther
  have hSame := slice_index_unique h.nodup hOther hSlice
  omega

@[simp] theorem missing_notedAll (items : List AckItem) (names : List Symbol)
    (c : Controller) : (c.notedAll items).missing names = c.missing names := by
  unfold missing
  rw [notedAll_symbols, notedAll_marketData]

/-- The streams an acknowledgement leaves, by the number it has created. -/
theorem Listed.index_withStreams (h : Listed c) {symbols : Symbols} {k m : Nat}
    {md : MarketData}
    (hGet : (((c.notedAll items).setSymbols symbols).withStreams m).marketData[k]? =
      some md) : md.index = k := by
  rcases withStreams_stream hGet with hOld | ⟨hIndex, _⟩
  · rw [setSymbols_marketData, notedAll_marketData] at hOld
    exact h.index k md hOld
  · exact hIndex

/-- What an acknowledgement has made of the lists once it has reached the controller. -/
theorem appended_of_shared
    (hShared : c'.shared =
      ((c.notedAll items).enlarged (fresh c.shared.allSymbols (kept items))).shared) :
    c'.shared.symbols =
        c.shared.symbols.append (fresh c.shared.allSymbols (kept items)) ∧
      ∀ x, x ∈ c'.shared.allSymbols ↔ x ∈ c.shared.allSymbols ∨ x ∈ kept items := by
  rw [hShared, enlarged_shared, notedAll_symbols]
  exact ⟨rfl, fun x => mem_notedAll_allSymbols⟩

/-- **Lists**: however the handler ends, the shared list has no duplicates, holds known
names only, and each stream serves the slice at its position. -/
theorem Listed.of_ackEnd {fuse : Option (Nat × Exception)}
    {r : EStateM.Result Exception (Fused Exception Controller) Unit} (h : Listed c)
    (hEnd : AckEnd c items fuse r) : Listed (finalState r) := by
  cases hEnd with
  | interrupted _ hInterrupted =>
      exact h.of_same hInterrupted.symbols hInterrupted.marketData hInterrupted.known
  | nothingNew _ _ =>
      exact h.of_same (notedAll_symbols items c) (notedAll_marketData items c)
        fun x hx => mem_notedAll_allSymbols.mpr (.inl hx)
  | undelivered _ =>
      exact h.of_same (notedAll_symbols items c) (notedAll_marketData items c)
        fun x hx => mem_notedAll_allSymbols.mpr (.inl hx)
  | @unstreamed _ _ _ c' _ _ _ hShared _ hData =>
      obtain ⟨hSymbols, hKnown⟩ := appended_of_shared hShared
      apply h.of_appended hSymbols hKnown
      intro i md (hGet : c'.marketData[i]? = some md)
      rw [hData] at hGet
      exact h.index_withStreams hGet
  | streamed _ _ hShared hData =>
      obtain ⟨hSymbols, hKnown⟩ := appended_of_shared hShared
      apply h.of_appended hSymbols hKnown
      intro k md' hGet
      obtain ⟨md, hOld, hSame⟩ := MarketData.SameStream.stream hData hGet
      rw [hSame.index]
      exact h.index_withStreams hOld

/-- A call after the loop and before the last stream has started loses a name. -/
theorem not_safe_of_lost {k : Nat} (e : Exception)
    (hNew : fresh c.shared.allSymbols (kept items) ≠ [])
    (hLoop : ackCalls c.shared.allSymbols items ≤ k)
    (hStreams : k < ackCalls c.shared.allSymbols items + 1 +
      2 * c.missing (fresh c.shared.allSymbols (kept items))) :
    ¬c.Safe items (some (k, e)) := by
  have hReached := callsBeforeNew_le c.shared.allSymbols items
  rintro (hNone | hBefore | hLate)
  · exact hNew hNone
  · omega
  · omega

/-- **Step lemma**: an acknowledgement keeps the known names delivered exactly if it is
not cut short at a call that loses one. -/
theorem AllDelivered.ackEnd_iff {fuse : Option (Nat × Exception)}
    {r : EStateM.Result Exception (Fused Exception Controller) Unit} (hAll : AllDelivered c)
    (h : Listed c) (hEnd : AckEnd c items fuse r) :
    AllDelivered (finalState r) ↔ c.Safe items fuse := by
  have hListed := h.of_ackEnd hEnd
  cases hEnd with
  | interrupted hk hInterrupted =>
      constructor
      · intro hAfter
        right
        left
        by_contra hLate
        obtain ⟨name, hName, hNew⟩ := hInterrupted.after (by omega)
        exact h.not_delivered_of_new hInterrupted.symbols hNew (hAfter name hName)
      · intro hSafe
        have hNames := hInterrupted.before (by
          rcases hSafe with hNone | hBefore | hLate
          · rw [callsBeforeNew_of_none hNone]
            exact hk
          · exact hBefore
          · omega)
        apply hAll.of_same hInterrupted.symbols hInterrupted.marketData
        intro name hName
        rw [← hNames]
        exact hName
  | nothingNew hNone hLasts =>
      apply iff_of_true
      · apply hAll.of_same (notedAll_symbols items c) (notedAll_marketData items c)
        intro name hName
        exact (mem_notedAll_allSymbols.mp hName).elim id (mem_of_fresh_eq_nil hNone)
      · cases fuse with
        | none => trivial
        | some f => exact .inl hNone
  | undelivered hNew =>
      apply iff_of_false
      · intro hAfter
        obtain ⟨name, hFresh⟩ := List.exists_mem_of_ne_nil _ hNew
        obtain ⟨hKept, hUnknown⟩ := mem_fresh.mp hFresh
        exact h.not_delivered_of_new (notedAll_symbols items c) hUnknown
          (hAfter name (mem_notedAll_allSymbols.mpr (.inr hKept)))
      · exact not_safe_of_lost _ hNew (Nat.le_refl _) (by omega)
  | @unstreamed k m e c' hNew hLate hk hShared hm hData =>
      rw [missing_notedAll] at hk hm
      apply iff_of_false
      · apply hListed.not_allDelivered
        show c'.marketData.length < c'.shared.symbols.size
        rw [hData, length_withStreams, setSymbols_marketData, notedAll_marketData,
          (appended_of_shared hShared).1]
        unfold missing at hm
        omega
      · exact not_safe_of_lost e hNew (Nat.le_of_lt hLate) hk
  | streamed hNew hLasts hShared hData =>
      obtain ⟨hSymbols, hKnown⟩ := appended_of_shared hShared
      rw [missing_notedAll] at hLasts
      apply iff_of_true
      · apply hAll.of_appended hSymbols hKnown hListed.index
        rw [← hData.length_eq, length_enlarged, missing_notedAll, notedAll_marketData,
          hSymbols]
        unfold missing
        omega
      · cases fuse with
        | none => trivial
        | some f => exact .inr (.inr hLasts)

end Acknowledgement

/-! ## Events on which nothing throws -/

section Quiet

variable {c : Controller}

theorem Listed.delivered_iff (h : Listed c) (name : Symbol) :
    c.Delivered name ↔ name ∈ c.shared.symbols.names ∧
      ∃ k, k < c.marketData.length ∧ name ∈ c.shared.symbols.getSlice k 0 := by
  apply and_congr_right
  intro _
  constructor
  · rintro ⟨md, hMem, hSlice⟩
    obtain ⟨k, hGet⟩ := List.mem_iff_getElem?.mp hMem
    rw [h.index k md hGet] at hSlice
    exact ⟨k, (List.getElem?_eq_some_iff.mp hGet).1, hSlice⟩
  · rintro ⟨k, hLt, hSlice⟩
    have hGet := List.getElem?_eq_getElem hLt
    refine ⟨_, List.mem_of_getElem? hGet, ?_⟩
    rw [h.index k _ hGet]
    exact hSlice

theorem Listed.modify (h : Listed c) (k : Nat) {g : MarketData → MarketData}
    (hIndex : ∀ md, (g md).index = md.index) :
    Listed (c.setMarketData (c.marketData.modify k g)) where
  nodup := h.nodup
  known := h.known
  index i md' hGet := by
    obtain ⟨md, hOld, rfl | rfl⟩ := stream_of_modify hGet
    · rw [hIndex]
      exact h.index i md hOld
    · exact h.index i md' hOld

theorem AllDelivered.modify (hAll : AllDelivered c) (h : Listed c) (k : Nat)
    {g : MarketData → MarketData} (hIndex : ∀ md, (g md).index = md.index) :
    AllDelivered (c.setMarketData (c.marketData.modify k g)) := by
  intro name hName
  rw [(h.modify k hIndex).delivered_iff, setMarketData_marketData, List.length_modify]
  exact (h.delivered_iff name).mp (hAll name hName)

/-- **Quiet events** keep the lists, and lose no name. -/
theorem Listed.step (h : Listed c) (e : Event) :
    Listed (c.step e) ∧ (AllDelivered c → AllDelivered (c.step e)) := by
  rcases c.step_cases e with ⟨c', hSymbols, hMarketData, hKnown, hStep | ⟨hNone, hStep⟩⟩ |
    ⟨k, _, hStep⟩ | ⟨k, _, hStep⟩
  · have hSymbols' : (c.step e).shared.symbols =
        c.shared.symbols.append (fresh c.shared.allSymbols e.offered) := by
      rw [hStep, updated_shared, hSymbols]
    have hKnown' : ∀ x, x ∈ (c.step e).shared.allSymbols ↔
        x ∈ c.shared.allSymbols ∨ x ∈ e.offered := by
      rw [hStep, updated_shared]
      exact hKnown
    have hIndex : ∀ (k : Nat) (md : MarketData),
        (c.step e).marketData[k]? = some md → md.index = k := by
      intro k md' hGet
      rw [hStep] at hGet
      rcases updated_stream hGet with ⟨md, hOld, rfl⟩ | ⟨hNew, _⟩
      · rw [hMarketData] at hOld
        rw [MarketData.subscribed_index]
        exact h.index k md hOld
      · exact hNew
    refine ⟨h.of_appended hSymbols' hKnown' hIndex, fun hAll => ?_⟩
    apply hAll.of_appended hSymbols' hKnown' hIndex
    rw [hSymbols', hStep, length_updated]
    unfold missing
    rw [hSymbols]
    omega
  · have hKnown' : ∀ x, x ∈ c'.shared.allSymbols ↔ x ∈ c.shared.allSymbols := by
      intro x
      rw [hKnown]
      exact ⟨fun hx => hx.elim id (mem_of_fresh_eq_nil hNone), .inl⟩
    rw [hStep]
    exact ⟨h.of_same hSymbols hMarketData fun x => (hKnown' x).mpr,
      fun hAll => hAll.of_same hSymbols hMarketData fun x => (hKnown' x).mp⟩
  · rw [hStep]
    have hIndex := MarketData.readied_index c.shared.symbols
    exact ⟨h.modify k hIndex, fun hAll => hAll.modify h k hIndex⟩
  · rw [hStep]
    exact ⟨h.modify k MarketData.dropped_index,
      fun hAll => hAll.modify h k MarketData.dropped_index⟩

end Quiet

end Controller

/-! ## Runs with retries -/

/-- The items of an acknowledgement with the answers of `discard_symbol`. -/
def answered (discards : Nat → Bool) (items : List MarketInfoAckItem) : List AckItem :=
  items.zipIdx.map fun (item, i) => (item, discards i)

/-- What happens to the gateway and its download.  A response comes with the answers
of `discard_symbol` and the call that throws, if any; everything else that changes the
download is arbitrary. -/
inductive WorldEvent (δ : Type) where
  | response (response : Response) (sequence : UInt32) (discards : Nat → Bool)
      (fuse : Option (Nat × Exception))
  | subscribe (names : List Symbol)
  | ready (k : Nat)
  | disconnected (k : Nat)
  | download (change : δ → δ)

/-- The gateway, its download, and the acknowledgements handled. -/
abbrev GatewayWorld (δ : Type) := World Controller δ (List MarketInfoAckItem)

section Runs

variable {δ : Type} (D : Download2 δ)
  (decode : String → Except Exception (List MarketInfoAckItem))

/-- The handler of an acknowledgement, as `get_market_info_ack` enters it. -/
def ackHandler (discards : Nat → Bool) (fuse : Option (Nat × Exception))
    (items : List MarketInfoAckItem) : EStateM Exception Controller Unit :=
  withFuse fuse (Controller.marketInfoAck (answered discards items))

/-- One event. -/
def worldStep (w : GatewayWorld δ) : WorldEvent δ → GatewayWorld δ
  | .response response sequence discards fuse =>
      worldAfter (getMarketInfoAck D decode (ackHandler discards fuse) response sequence) w
  | .subscribe names => { w with gateway := w.gateway.step (.subscribe names) }
  | .ready k => { w with gateway := w.gateway.step (.ready k) }
  | .disconnected k => { w with gateway := w.gateway.step (.disconnected k) }
  | .download change => { w with download := change w.download }

/-- If the response enters the handler, no call throws at which a name is lost. -/
def LosesNothing (w : GatewayWorld δ) : WorldEvent δ → Prop
  | .response response sequence discards fuse =>
      ∀ items, Entered D decode response sequence w items →
        w.gateway.Safe (answered discards items) fuse
  | _ => True

/-- If an acknowledgement is handled to its end, so that `check` is entered next, then
the names it does not discard are delivered. -/
def CheckedDelivered (w : GatewayWorld δ) (e : WorldEvent δ) : Prop :=
  match e with
  | .response _ _ discards _ =>
      ∀ items later, (worldStep D decode w e).effects =
          w.effects ++ .marketInfoAck items :: .check :: later →
        ∀ name ∈ kept (answered discards items),
          (worldStep D decode w e).gateway.Delivered name
  | _ => True

variable {D decode} {w : GatewayWorld δ} {response : Response} {sequence : UInt32}
  {discards : Nat → Bool} {fuse : Option (Nat × Exception)}

theorem ackHandler_threw {items : List MarketInfoAckItem} {c c' : Controller} {e : Exception}
    (h : ackHandler discards fuse items c = .error e c') :
    ∃ left, Controller.AckEnd c (answered discards items) fuse (.error e ⟨c', left⟩) := by
  obtain ⟨left, hRun⟩ := withFuse_error h
  refine ⟨left, ?_⟩
  rw [← hRun]
  exact Controller.marketInfoAck_ends _ c fuse

theorem ackHandler_returned {items : List MarketInfoAckItem} {c c' : Controller}
    (h : ackHandler discards fuse items c = .ok () c') :
    ∃ left, Controller.AckEnd c (answered discards items) fuse (.ok () ⟨c', left⟩) := by
  obtain ⟨left, hRun⟩ := withFuse_ok h
  refine ⟨left, ?_⟩
  rw [← hRun]
  exact Controller.marketInfoAck_ends _ c fuse

/-- A response that enters the handler loses nothing if the handler does not. -/
theorem losesNothing_iff {items : List MarketInfoAckItem}
    (hEntered : Entered D decode response sequence w items) :
    LosesNothing D decode w (.response response sequence discards fuse) ↔
      w.gateway.Safe (answered discards items) fuse := by
  constructor
  · intro h
    exact h items hEntered
  · intro h items' hEntered'
    rw [← hEntered.unique hEntered']
    exact h

/-- **One response**: the lists are kept, and the known names stay delivered exactly if
no call throws at which a name is lost. -/
theorem response_gateway (h : w.gateway.Listed) :
    (worldStep D decode w (.response response sequence discards fuse)).gateway.Listed ∧
      (w.gateway.AllDelivered →
        ((worldStep D decode w
            (.response response sequence discards fuse)).gateway.AllDelivered ↔
          LosesNothing D decode w (.response response sequence discards fuse))) := by
  have hEnd := getMarketInfoAck_ends D decode (ackHandler discards fuse) response sequence w
  show (worldAfter _ w).gateway.Listed ∧ (_ → ((worldAfter _ w).gateway.AllDelivered ↔ _))
  rcases hEnd.gateway_cases with ⟨hNot, hGateway, _⟩ | ⟨items, e, _, hEntered, hThrew, _⟩ |
    ⟨items, _, hEntered, hHandled, _⟩
  · rw [hGateway]
    refine ⟨h, fun hAll => iff_of_true hAll fun items hEntered => ?_⟩
    exact absurd hEntered (hNot items)
  · obtain ⟨left, hAck⟩ := ackHandler_threw hThrew
    rw [losesNothing_iff hEntered]
    exact ⟨h.of_ackEnd hAck, fun hAll => hAll.ackEnd_iff h hAck⟩
  · obtain ⟨left, hAck⟩ := ackHandler_returned hHandled
    rw [losesNothing_iff hEntered]
    exact ⟨h.of_ackEnd hAck, fun hAll => hAll.ackEnd_iff h hAck⟩

/-- **Step lemma**: an event keeps the lists. -/
theorem listed_worldStep (h : w.gateway.Listed) (e : WorldEvent δ) :
    (worldStep D decode w e).gateway.Listed := by
  cases e with
  | response response sequence discards fuse => exact (response_gateway h).1
  | subscribe names => exact (h.step _).1
  | ready k => exact (h.step _).1
  | disconnected k => exact (h.step _).1
  | download change => exact h

/-- **Step lemma**: it keeps the known names delivered exactly if it loses nothing. -/
theorem allDelivered_worldStep_iff (h : w.gateway.Listed) (hAll : w.gateway.AllDelivered)
    (e : WorldEvent δ) :
    (worldStep D decode w e).gateway.AllDelivered ↔ LosesNothing D decode w e := by
  cases e with
  | response response sequence discards fuse => exact (response_gateway h).2 hAll
  | subscribe names => exact iff_of_true ((h.step _).2 hAll) trivial
  | ready k => exact iff_of_true ((h.step _).2 hAll) trivial
  | disconnected k => exact iff_of_true ((h.step _).2 hAll) trivial
  | download change => exact iff_of_true hAll trivial

/-- Retries alone do not begin with the handler. -/
theorem map_retry_ne_marketInfoAck {α : Type} (reports : List Report) (ack : α)
    (later : List (Effect α)) : reports.map .retry ≠ .marketInfoAck ack :: later := by
  intro h
  cases reports with
  | nil => exact nomatch h
  | cons report reports => exact nomatch (List.cons.inj h).1

/-- If the handler returns then every name that is not discarded is known. -/
theorem kept_known_of_ackEnd {c c' : Controller} {items : List AckItem}
    {left : Option (Nat × Exception)}
    (hEnd : Controller.AckEnd c items fuse (.ok () ⟨c', left⟩)) :
    ∀ name ∈ kept items, name ∈ c'.shared.allSymbols := by
  intro name hName
  cases hEnd with
  | nothingNew _ _ => exact Controller.mem_notedAll_allSymbols.mpr (.inr hName)
  | streamed _ _ hShared _ =>
      exact ((Controller.appended_of_shared hShared).2 name).mpr (.inr hName)

/-- What `check` is entered after has been delivered, if the known names are. -/
theorem checkedDelivered_of_allDelivered (e : WorldEvent δ)
    (hAll : (worldStep D decode w e).gateway.AllDelivered) :
    CheckedDelivered D decode w e := by
  cases e with
  | response response sequence discards fuse =>
      intro items later hEffects name hName
      apply hAll
      have hEnd :=
        getMarketInfoAck_ends D decode (ackHandler discards fuse) response sequence w
      change (worldAfter _ w).effects = _ at hEffects
      show name ∈ (worldAfter _ w).gateway.shared.allSymbols
      rcases hEnd.gateway_cases with ⟨_, _, reports, hRetries⟩ |
        ⟨items', e, report, _, _, hThrew⟩ | ⟨items', later', _, hHandler, hHandled⟩
      · rw [hRetries] at hEffects
        exact absurd (List.append_cancel_left hEffects)
          (map_retry_ne_marketInfoAck reports items _)
      · rw [hThrew] at hEffects
        have hTail := (List.cons.inj (List.append_cancel_left hEffects)).2
        exact nomatch (List.cons.inj hTail).1
      · rw [hHandled] at hEffects
        have hHead := (List.cons.inj (List.append_cancel_left hEffects)).1
        obtain rfl := Effect.marketInfoAck.inj hHead
        obtain ⟨left, hAck⟩ := ackHandler_returned hHandler
        exact kept_known_of_ackEnd hAck name hName
  | subscribe names => trivial
  | ready k => trivial
  | disconnected k => trivial
  | download change => trivial

/-- The gateway before anything has happened, with any download. -/
def startWorld (maxSubscriptions : Nat) (hMax : 0 < maxSubscriptions) (exchange : String)
    (download : δ) : GatewayWorld δ :=
  { gateway := .create maxSubscriptions hMax exchange, download := download }

theorem listed_create (maxSubscriptions : Nat) (hMax : 0 < maxSubscriptions)
    (exchange : String) : (Controller.create maxSubscriptions hMax exchange).Listed where
  nodup := List.nodup_nil
  known _ h := nomatch h
  index _ _ h := nomatch h

/--
**Delivery.**  Over any run from the start, with calls that throw anywhere in any
acknowledgement, the known names are delivered in every state if and only if no call
throws at which a name is lost: after the first new name has been reached and before
every slice has its stream.  In such a run, whenever an acknowledgement is handled to
its end, the names it does not discard are delivered.
-/
theorem allDelivered_iff (D : Download2 δ)
    (decode : String → Except Exception (List MarketInfoAckItem)) (maxSubscriptions : Nat)
    (hMax : 0 < maxSubscriptions) (exchange : String) (download : δ)
    (es : List (WorldEvent δ)) :
    (Always (worldStep D decode) (fun w => w.gateway.AllDelivered)
        (startWorld maxSubscriptions hMax exchange download) es ↔
      Along (worldStep D decode) (LosesNothing D decode)
        (startWorld maxSubscriptions hMax exchange download) es) ∧
    (Along (worldStep D decode) (LosesNothing D decode)
        (startWorld maxSubscriptions hMax exchange download) es →
      Along (worldStep D decode) (CheckedDelivered D decode)
        (startWorld maxSubscriptions hMax exchange download) es) := by
  have hListed : (startWorld maxSubscriptions hMax exchange download).gateway.Listed :=
    listed_create maxSubscriptions hMax exchange
  have hIff := always_iff_along (worldStep D decode)
    (I := fun w : GatewayWorld δ => w.gateway.Listed)
    (P := fun w : GatewayWorld δ => w.gateway.AllDelivered) hListed
    (fun _ hName => nomatch hName) (fun _ e h _ => listed_worldStep h e)
    (fun _ e h _ hAll => allDelivered_worldStep_iff h hAll e) es (along_true _ _ es)
  refine ⟨hIff, fun hAlong => ?_⟩
  exact Always.along (worldStep D decode) (I := fun w : GatewayWorld δ => w.gateway.Listed)
    hListed (fun _ e h => listed_worldStep h e)
    (fun _ e _ hAll => checkedDelivered_of_allDelivered e hAll) es (hIff.mpr hAlong)

end Runs

/-! ## A name that is lost -/

/-- A successful response. -/
def succeeded : Response where
  result := .ok ⟨"OK", .success, "[]"⟩
  expectOk := .ok ()
  expectOk_throws := by
    rintro reply ⟨⟩ (h | h) <;> exact nomatch h

/-- Every body is an acknowledgement of one symbol. -/
def oneSymbol (_ : String) : Except Exception (List MarketInfoAckItem) :=
  .ok [{ name := "A" }]

/-- The update is not delivered the first time; the same acknowledgement is then handled
to its end. -/
def failedThenRetried : List (WorldEvent UInt32) :=
  [.response succeeded 0 (fun _ => false) (some (3, .other "not delivered")),
    .response succeeded 1 (fun _ => false) none]

theorem allDelivered_iff_failed_then_retried :
    0 < 2 ∧
    (Always (worldStep latestRequest oneSymbol) (fun w => w.gateway.AllDelivered)
        (startWorld 2 (by decide) "whitebit" 0) failedThenRetried ↔
      Along (worldStep latestRequest oneSymbol) (LosesNothing latestRequest oneSymbol)
        (startWorld 2 (by decide) "whitebit" 0) failedThenRetried) ∧
    (Along (worldStep latestRequest oneSymbol) (LosesNothing latestRequest oneSymbol)
        (startWorld 2 (by decide) "whitebit" 0) failedThenRetried →
      Along (worldStep latestRequest oneSymbol) (CheckedDelivered latestRequest oneSymbol)
        (startWorld 2 (by decide) "whitebit" 0) failedThenRetried) :=
  ⟨by decide, allDelivered_iff latestRequest oneSymbol 2 (by decide) "whitebit" 0
    failedThenRetried⟩

/-- After the retry `check` has been entered, and the name is known but in no stream's
slice. -/
theorem retried_name_is_lost :
    let w := run (worldStep latestRequest oneSymbol)
      (startWorld 2 (by decide) "whitebit" 0) failedThenRetried
    w.effects = [.marketInfoAck [{ name := "A" }],
        .retry ⟨.exchange, .error, .unknown, "not delivered"⟩,
        .marketInfoAck [{ name := "A" }], .check] ∧
      "A" ∈ w.gateway.shared.allSymbols ∧ w.gateway.shared.symbols.names = [] ∧
      ¬ Along (worldStep latestRequest oneSymbol)
        (CheckedDelivered latestRequest oneSymbol)
        (startWorld 2 (by decide) "whitebit" 0) failedThenRetried := by
  intro w
  have hNames : w.gateway.shared.symbols.names = [] := by decide +kernel
  refine ⟨by decide +kernel, by decide +kernel, hNames, fun hAlong => ?_⟩
  obtain ⟨_, hChecked, _⟩ := hAlong
  have hDelivered := hChecked [{ name := "A" }] [] (by decide +kernel) "A" (by decide +kernel)
  have hMem : "A" ∈ w.gateway.shared.symbols.names := hDelivered.1
  rw [hNames] at hMem
  exact nomatch hMem

end RoqWhitebit.Gateway
