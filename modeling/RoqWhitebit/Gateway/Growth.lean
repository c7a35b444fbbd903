import RoqWhitebit.Gateway.Failures

/-!
# Streams stay

No handler takes a stream away, gives it another identifier or another place, or forgets
what it has asked for.  `Controller.Grown` says so of any two states of a run, with
whatever has thrown in between.
-/

namespace RoqWhitebit.Gateway

open RoqWhitebit.General

namespace MarketData

/-- The same stream, which has asked for more. -/
structure Grown (md md' : MarketData) : Prop where
  streamId : md'.streamId = md.streamId
  asked : md.sentBefore ++ md.sent <+: md'.sentBefore ++ md'.sent

theorem grown_refl (md : MarketData) : Grown md md := ⟨rfl, List.prefix_rfl⟩

theorem grown_trans (md md' md'' : MarketData) (h : Grown md md') (h' : Grown md' md'') :
    Grown md md'' := ⟨h'.streamId.trans h.streamId, h.asked.trans h'.asked⟩

theorem Grown.everAsked {md md' : MarketData} (h : Grown md md') {name : Symbol}
    (hAsked : md.everAsked name) : md'.everAsked name := by
  obtain ⟨request, hMem, hName⟩ := hAsked
  exact ⟨request, h.asked.subset hMem, hName⟩

theorem Extends.grown {symbols : List Symbol} {slack : Nat} {md md' : MarketData}
    (h : Extends symbols slack md md') : Grown md md' where
  streamId := h.same.streamId
  asked := by
    obtain ⟨later, _, _, _, hSent, _⟩ := h.sent
    rw [h.sentBefore, hSent, ← List.append_assoc]
    exact List.prefix_append _ _

/-- A new connection moves what has been sent to what has been sent before. -/
theorem grown_connected (md : MarketData) : Grown md md.connected where
  streamId := rfl
  asked := by
    show _ <+: (md.sentBefore ++ md.sent) ++ []
    rw [List.append_nil]

theorem keeps_grown_subscribe (symbols : Symbols) (startFrom : Nat) :
    Keeps Grown (subscribe symbols startFrom) :=
  keeps_of_meets fun md => (meets_subscribe symbols startFrom md).mono (fun _ h => h)
    (fun _ _ h => h.grown) (fun _ h => h.grown)

theorem keeps_grown_onReady (symbols : Symbols) : Keeps Grown (onReady symbols) :=
  keeps_of_meets fun md => (meets_onReady symbols md).mono (fun _ h => h)
    (fun _ _ h => grown_trans _ _ _ (grown_connected md) h.grown)
    (fun _ h => grown_trans _ _ _ (grown_connected md) h.grown)

theorem keeps_grown_onDisconnected : Keeps Grown onDisconnected := by
  refine keeps_of_meets fun md => ?_
  apply (meets_onConnectionStatus .disconnected md).mono (fun _ h => h)
  · rintro _ _ rfl
    exact ⟨rfl, List.prefix_rfl⟩
  · rintro _ rfl
    exact ⟨rfl, List.prefix_rfl⟩

end MarketData

namespace Controller

/-- Every stream is still there, at its place. -/
def Grown (c c' : Controller) : Prop :=
  ∀ (k : Nat) (md : MarketData), c.marketData[k]? = some md →
    ∃ md', c'.marketData[k]? = some md' ∧ MarketData.Grown md md'

/-- Nothing happens to the streams. -/
theorem grown_of_eq {c c' : Controller} (h : c'.marketData = c.marketData) : Grown c c' := by
  intro k md hGet
  exact ⟨md, by rw [h, hGet], MarketData.grown_refl md⟩

theorem grown_refl (c : Controller) : Grown c c := grown_of_eq rfl

theorem grown_trans (c c' c'' : Controller) (h : Grown c c') (h' : Grown c' c'') :
    Grown c c'' := by
  intro k md hGet
  obtain ⟨md', hGet', hGrown⟩ := h k md hGet
  obtain ⟨md'', hGet'', hGrown'⟩ := h' k md' hGet'
  exact ⟨md'', hGet'', MarketData.grown_trans _ _ _ hGrown hGrown'⟩

theorem keeps_same {g : Controller → Controller} (h : ∀ c, (g c).marketData = c.marketData) :
    Keeps (ε := Exception) Grown (write g) :=
  keeps_write fun c => grown_of_eq (h c)

/-- A new stream comes last. -/
theorem keeps_grown_createStreams (n : Nat) : Keeps Grown (createStreams n) := by
  induction n with
  | zero => exact keeps_pure grown_refl ()
  | succ n ih =>
      have hStream : Keeps Grown createStream := by
        apply keeps_of_meets
        intro c
        apply (calls_createStream c).meets.mono (fun _ h => h)
        · intro _ c' h k md hGet
          refine ⟨md, ?_, MarketData.grown_refl md⟩
          rw [h.2]
          exact (List.getElem?_append_left (List.getElem?_eq_some_iff.mp hGet).1).trans hGet
        · intro c' h
          obtain ⟨_, _, _, hSame⟩ := h
          exact grown_of_eq hSame
      exact Keeps.bind hStream (fun _ => ih) grown_trans

/-- What every stream does for itself. -/
theorem keeps_grown_within {m : Throwing Exception (List MarketData) Unit}
    (h : Keeps (List.Forall₂ MarketData.Grown) m) :
    Keeps Grown (within marketData setMarketData m) := by
  refine keeps_within h fun c marketData hGrown k md hGet => ?_
  have hLength := hGrown.length_eq
  obtain ⟨hLt, rfl⟩ := List.getElem?_eq_some_iff.mp hGet
  have hLt' : k < marketData.length := by omega
  exact ⟨marketData[k], List.getElem?_eq_getElem hLt', hGrown.get hLt hLt'⟩

theorem keeps_grown_onNth {m : Throwing Exception MarketData Unit}
    (h : Keeps MarketData.Grown m) (k : Nat) :
    Keeps (List.Forall₂ MarketData.Grown) (onNth k m) :=
  keeps_of_meets fun marketData => meets_onNth (fun md => h.meets md)
    MarketData.grown_refl MarketData.grown_refl k marketData

theorem keeps_grown_symbolsUpdate (names : List Symbol) : Keeps Grown (symbolsUpdate names) := by
  refine Keeps.bind (keeps_read grown_refl) (fun c => ?_) grown_trans
  refine Keeps.bind (keeps_same fun _ => rfl) (fun _ => ?_) grown_trans
  refine Keeps.bind ?_ (fun _ => ?_) grown_trans
  · exact Keeps.bind (keeps_read grown_refl) (fun _ => keeps_grown_createStreams _) grown_trans
  · exact keeps_grown_within (keeps_onEach MarketData.grown_refl
      (MarketData.keeps_grown_subscribe _ _))

theorem keeps_grown_emplace (name : Symbol) : Keeps Grown (emplace name) := by
  refine Keeps.bind (keeps_read grown_refl) (fun c => ?_) grown_trans
  exact Keeps.bind (keeps_same fun _ => rfl) (fun _ => keeps_pure grown_refl _) grown_trans

theorem keeps_grown_subscribeItems (items names : List Symbol) :
    Keeps Grown (subscribeItems items names) := by
  induction items generalizing names with
  | nil => exact keeps_pure grown_refl names
  | cons item items ih =>
      refine Keeps.bind (keeps_grown_emplace item) (fun isNew => ?_) grown_trans
      cases isNew with
      | true => exact Keeps.bind (keeps_call grown_refl) (fun _ => ih _) grown_trans
      | false => exact ih _

theorem keeps_grown_ackItem (item : AckItem) (names : List Symbol) :
    Keeps Grown (ackItem item.1 item.2 names) := by
  obtain ⟨item, discard⟩ := item
  refine Keeps.bind (keeps_call grown_refl) (fun _ => ?_) grown_trans
  refine Keeps.bind (keeps_call grown_refl) (fun _ => ?_) grown_trans
  refine Keeps.bind (keeps_same fun _ => rfl) (fun _ => ?_) grown_trans
  cases discard with
  | true => exact keeps_pure grown_refl names
  | false =>
      refine Keeps.bind (keeps_grown_emplace _) (fun isNew => ?_) grown_trans
      cases isNew with
      | true =>
          exact Keeps.bind (keeps_call grown_refl) (fun _ => keeps_pure grown_refl _) grown_trans
      | false => exact keeps_pure grown_refl names

theorem keeps_grown_ackItems (items : List AckItem) (names : List Symbol) :
    Keeps Grown (ackItems items names) := by
  induction items generalizing names with
  | nil => exact keeps_pure grown_refl names
  | cons item items ih =>
      exact Keeps.bind (keeps_grown_ackItem item names) (fun _ => ih _) grown_trans

theorem keeps_grown_marketInfoAck (items : List AckItem) :
    Keeps Grown (marketInfoAck items) := by
  refine Keeps.bind (keeps_grown_ackItems items []) (fun symbols => ?_) grown_trans
  split
  · exact keeps_pure grown_refl ()
  · exact Keeps.bind (keeps_call grown_refl) (fun _ => keeps_grown_symbolsUpdate symbols)
      grown_trans

theorem keeps_grown_subscribe (names : List Symbol) : Keeps Grown (subscribe names) := by
  refine Keeps.bind (keeps_grown_subscribeItems names []) (fun symbols => ?_) grown_trans
  exact Keeps.bind (keeps_call grown_refl) (fun _ => keeps_grown_symbolsUpdate symbols)
    grown_trans

/-- **Every handler leaves the streams in place**, however it ends. -/
theorem keeps_grown_handle (e : Event) : Keeps Grown e.handle := by
  cases e with
  | marketInfoAck items => exact keeps_grown_marketInfoAck items
  | subscribe names => exact keeps_grown_subscribe names
  | ready k =>
      exact Keeps.bind (keeps_read grown_refl)
        (fun c => keeps_grown_within (keeps_grown_onNth (MarketData.keeps_grown_onReady _) k))
        grown_trans
  | disconnected k =>
      exact keeps_grown_within (keeps_grown_onNth MarketData.keeps_grown_onDisconnected k)

end Controller

/-- **Step lemma**. -/
theorem grown_step (t : Trial) (a : Attempt) :
    Controller.Grown t.gateway (t.step a).gateway := by
  have hEnds := (Controller.keeps_grown_handle a.1).meets t.gateway t.gateway a.2 rfl
  unfold Trial.step
  cases hRun : a.1.handle ⟨t.gateway, a.2⟩ with
  | ok _ f =>
      rw [hRun] at hEnds
      exact hEnds
  | error e f =>
      rw [hRun] at hEnds
      exact hEnds

end RoqWhitebit.Gateway
