import Mathlib.Data.List.Induction
import RoqWhitebit.General.Network
import RoqWhitebit.Gateway.Frames
import RoqWhitebit.Gateway.Growth
import RoqWhitebit.Gateway.Recovery

/-!
# From the exchange to the clients

The exchange says something about some symbols, and it goes out on every connection of a
ready stream on which they are active.  What is in flight arrives in any order or is lost,
while the gateway goes through its own events, with any call of theirs throwing.

`one_line_each` is about the whole of this: the market data that clients receive about a
symbol comes under one stream identifier for as long as the process lives, and nothing the
exchange has said is published twice.  `sent_once_iff` says when nothing is missed.

Texts that mention no symbol, answers and pongs among them, may come on any connection.
-/

namespace RoqWhitebit.Gateway

open RoqWhitebit.General
open RoqWhitebit.Protocol.Json

/-! ## What a message is about -/

/-- The method one has to be subscribed by. -/
def Message.method : Message → SubscribeMethod
  | .bookTickerUpdate _ => .bookTicker
  | .depthUpdate _ => .depth
  | .tradesUpdate _ => .trades
  | .marketUpdate _ => .market
  | .marketTodayUpdate _ => .marketToday

/-- The symbols a message mentions. -/
def Message.symbols : Message → List Symbol
  | .bookTickerUpdate update => update.params.map fun item => item.market
  | .depthUpdate update => [update.params.name]
  | .tradesUpdate update => [update.params.name]
  | .marketUpdate update => [update.params.name]
  | .marketTodayUpdate update => [update.params.name]

def Published.symbol : Published → Symbol
  | .topOfBook e => e.symbol
  | .marketByPriceUpdate e => e.symbol
  | .tradeSummary e => e.symbol
  | .statisticsUpdate e => e.symbol

/-- The message a text stands for. -/
def Codec.meaning (c : Codec) (allow : Bool) (text : String) : Option Message :=
  match (c.document text).classify c.utils c.method allow with
  | (.returned _, callback :: _) =>
      match c.payload text callback with
      | .ok (.update m) => some m
      | _ => none
  | _ => none

/-! ## The world -/

/-- The gateway with its failures, what is between it and the exchange, and its process. -/
structure Wire where
  trial : Trial
  network : Network (UInt16 × String) := {}
  reception : Reception := {}
  alive : Bool := true

inductive Happening where
  | attempt (a : Attempt)
  /-- The exchange has something to say about symbols. -/
  | speaks (text : String)
  /-- It sends something else to stream `k`. -/
  | answers (k : Nat) (text : String)
  | arrives (i : Nat)
  | isLost (i : Nat)

/-- What the exchange puts on the wire, if it puts anything there. -/
def Happening.text : Happening → Option String
  | .speaks text => some text
  | .answers _ text => some text
  | .attempt _ => none
  | .arrives _ => none
  | .isLost _ => none

/-- The exchange sends the message on this connection. -/
def MarketData.listens (m : Message) (md : MarketData) : Bool :=
  md.ready && !m.symbols.isEmpty &&
    m.symbols.all fun name => decide (name ∈ active md.sent m.method)

namespace Wire

variable (c : Codec) (dispatcher : Dispatcher) (allow : Bool) (exchange : String)

/-- Where a text about symbols goes. -/
def listening (w : Wire) (text : String) : List (UInt16 × String) :=
  match c.meaning allow text with
  | none => []
  | some m =>
      (w.trial.gateway.marketData.filter (MarketData.listens m)).map fun md =>
        (md.streamId, text)

/-- Where any other text goes. -/
def answering (w : Wire) (k : Nat) (text : String) : List (UInt16 × String) :=
  if (c.meaning allow text).all fun m => m.symbols.isEmpty then
    w.trial.gateway.marketData[k]?.toList.map fun md => (md.streamId, text)
  else []

/-- The frame of a packet. -/
def frame (content : UInt16 × String) : UInt16 × Frame := (content.1, .text content.2)

/-- A packet that arrives is handled. -/
def receive (w : Wire) (i : Nat) : Wire :=
  match w.network.inFlight[i]? with
  | none => w
  | some p =>
      { w with
        network := w.network.deliver i
        reception := (onFrame c dispatcher allow exchange w.reception (frame p.content)).state
        alive := (onFrame c dispatcher allow exchange w.reception (frame p.content)).alive }

/-- A process that has ended does nothing more. -/
def step (w : Wire) (h : Happening) : Wire :=
  if w.alive then
    match h with
    | .attempt a => { w with trial := w.trial.step a }
    | .speaks text => { w with network := w.network.send (w.listening c allow text) }
    | .answers k text => { w with network := w.network.send (w.answering c allow k text) }
    | .arrives i => w.receive c dispatcher allow exchange i
    | .isLost i => { w with network := w.network.lose i }
  else w

def start (maxSubscriptions : Nat) (hMax : 0 < maxSubscriptions) (exchange : String) : Wire :=
  { trial := .start maxSubscriptions hMax exchange }

end Wire

/-! ## What a frame brings -/

theorem symbol_of_mem_events {exchange : String} {streamId : UInt16} {m : Message}
    {event : Published} (h : event ∈ m.events exchange streamId) : event.symbol ∈ m.symbols := by
  cases m with
  | bookTickerUpdate update =>
      obtain ⟨item, hItem, rfl⟩ := List.mem_map.mp h
      exact List.mem_map_of_mem hItem
  | depthUpdate update =>
      rw [List.mem_singleton.mp h]
      exact List.mem_singleton_self _
  | tradesUpdate update =>
      change event ∈ if _ then _ else _ at h
      split at h
      · cases h
      · rw [List.mem_singleton.mp h]
        exact List.mem_singleton_self _
  | marketUpdate update =>
      rw [List.mem_singleton.mp h]
      exact List.mem_singleton_self _
  | marketTodayUpdate update => cases h

/-- A message brings events about its own symbols only. -/
theorem symbol_of_mem_brought {exchange : String} {streamId : UInt16} {m : Message}
    {event : Published} (h : event ∈ m.brought exchange streamId) : event.symbol ∈ m.symbols := by
  cases m with
  | bookTickerUpdate update =>
      obtain ⟨item, hItem, rfl⟩ := List.mem_map.mp h
      exact List.mem_map_of_mem ((List.takeWhile_prefix _).subset hItem)
  | depthUpdate update =>
      change event ∈ if 0 ≤ update.params.data.updateId then _ else [] at h
      split at h
      · rw [List.mem_singleton.mp h]
        exact List.mem_singleton_self _
      · cases h
  | tradesUpdate update => exact symbol_of_mem_events (m := .tradesUpdate update) h
  | marketUpdate update => exact symbol_of_mem_events (m := .marketUpdate update) h
  | marketTodayUpdate update => cases h

/-- What comes of a text comes of its meaning. -/
theorem events_outcome (c : Codec) (allow : Bool) (exchange : String) (streamId : UInt16)
    (text : String) :
    (Frame.outcome c allow exchange (streamId, .text text)).events =
      match c.meaning allow text with
      | none => []
      | some m => m.brought exchange streamId := by
  unfold Codec.meaning Frame.outcome
  dsimp only
  obtain hFatal | ⟨e, hThrew⟩ | hIgnored | ⟨callback, hCallback⟩ :=
    (c.document text).classify_cases c.utils c.method allow
  · simp only [hFatal]
  · simp only [hThrew]
  · simp only [hIgnored]
  · simp only [hCallback]
    cases c.payload text callback with
    | error e => rfl
    | ok payload =>
        cases payload with
        | pong => rfl
        | response => rfl
        | update m => rfl

/-! ## The invariant -/

section Invariant

variable (c : Codec) (allow : Bool) (exchange : String)

/-- The stream of a packet has asked for what the packet is about. -/
def Entitled (gateway : Controller) (content : UInt16 × String) : Prop :=
  ∀ m, c.meaning allow content.2 = some m → ∀ name ∈ m.symbols,
    ∃ (k : Nat) (md : MarketData), gateway.marketData[k]? = some md ∧
      md.streamId = content.1 ∧ md.everAsked name

/-- What holds of the world in every run. -/
structure Carried (limit : Nat) (w : Wire) : Prop where
  orderly : Orderly limit (fun _ => True) w.trial.failures w.trial.gateway
  intact : w.network.Intact
  entitled : ∀ p ∈ w.network.packets, Entitled c allow w.trial.gateway p.content
  first : w.reception.feed.published <+: w.network.delivered.flatMap fun p =>
    (Frame.outcome c allow exchange (Wire.frame p.content)).events
  whole : w.alive = true → w.reception.feed.published =
    w.network.delivered.flatMap fun p =>
      (Frame.outcome c allow exchange (Wire.frame p.content)).events

variable {c allow exchange} {dispatcher : Dispatcher}

theorem MarketData.everAsked_of_listens {m : Message} {md : MarketData}
    (h : MarketData.listens m md = true) : ∀ name ∈ m.symbols, md.everAsked name := by
  intro name hName
  have hAll := (Bool.and_eq_true_iff.mp h).2
  have hActive := of_decide_eq_true (List.all_eq_true.mp hAll name hName)
  have hRequested := List.mem_toFinset.mp (active_subset_requested md.sent m.method hActive)
  obtain ⟨request, hSent, hAsks⟩ := List.mem_flatMap.mp hRequested
  exact ⟨request, List.mem_append_right _ hSent, m.method, hAsks⟩

/-- Where at most one position qualifies, at most one element does. -/
theorem length_filter_le_one {α : Type} {p : α → Bool} {l : List α}
    (h : ∀ (k j : Nat) (x y : α), l[k]? = some x → l[j]? = some y → p x → p y → k = j) :
    (l.filter p).length ≤ 1 := by
  induction l with
  | nil => exact Nat.zero_le 1
  | cons x l ih =>
      have hTail := ih fun k j y z hy hz hpy hpz => by
        have hSame := h (k + 1) (j + 1) y z hy hz hpy hpz
        omega
      by_cases hx : p x = true
      · have hNone : l.filter p = [] := by
          rw [List.filter_eq_nil_iff]
          intro y hy hpy
          obtain ⟨j, hGet⟩ := List.mem_iff_getElem?.mp hy
          have hSame := h 0 (j + 1) x y rfl hGet hx hpy
          omega
        rw [List.filter_cons_of_pos hx, hNone]
        exact Nat.le_refl 1
      · rw [List.filter_cons_of_neg hx]
        exact hTail

/-- What the exchange says goes to one connection at most. -/
theorem length_listening {limit : Nat} {w : Wire} (h : Carried c allow exchange limit w)
    (text : String) : (w.listening c allow text).length ≤ 1 := by
  unfold Wire.listening
  cases c.meaning allow text with
  | none => exact Nat.zero_le 1
  | some m =>
      show (List.map _ _).length ≤ 1
      rw [List.length_map]
      apply length_filter_le_one
      intro k j md md' hGet hGet' hListens hListens'
      have hSome := (Bool.and_eq_true_iff.mp (Bool.and_eq_true_iff.mp hListens).1).2
      obtain ⟨name, hName⟩ : ∃ name, name ∈ m.symbols := by
        apply List.exists_mem_of_ne_nil
        rintro hNone
        rw [hNone] at hSome
        cases hSome
      exact h.orderly.askedOnce.apart k j md md' hGet hGet' name
        (MarketData.everAsked_of_listens hListens name hName)
        (MarketData.everAsked_of_listens hListens' name hName)

theorem entitled_listening (w : Wire) (text : String) :
    ∀ content ∈ w.listening c allow text, Entitled c allow w.trial.gateway content := by
  intro content hMem m hMeaning name hName
  unfold Wire.listening at hMem
  cases hText : c.meaning allow text with
  | none =>
      rw [hText] at hMem
      cases hMem
  | some m' =>
      rw [hText] at hMem
      obtain ⟨md, hListens, rfl⟩ := List.mem_map.mp hMem
      rw [Option.some.inj (hText.symm.trans hMeaning)] at hListens
      obtain ⟨hMember, hListens⟩ := List.mem_filter.mp hListens
      obtain ⟨k, hGet⟩ := List.mem_iff_getElem?.mp hMember
      exact ⟨k, md, hGet, rfl, MarketData.everAsked_of_listens hListens name hName⟩

theorem answering_cases (w : Wire) (k : Nat) (text : String) :
    (w.answering c allow k text).length ≤ 1 ∧
      ∀ content ∈ w.answering c allow k text, Entitled c allow w.trial.gateway content := by
  unfold Wire.answering
  by_cases hOther : (c.meaning allow text).all fun m => m.symbols.isEmpty
  · rw [if_pos hOther]
    refine ⟨?_, fun content hMem m hMeaning name hName => ?_⟩
    · rw [List.length_map]
      cases w.trial.gateway.marketData[k]? with
      | none => exact Nat.zero_le 1
      | some md => exact Nat.le_refl 1
    · obtain ⟨md, -, rfl⟩ := List.mem_map.mp hMem
      rw [show c.meaning allow text = some m from hMeaning] at hOther
      have hNone : m.symbols = [] := List.isEmpty_iff.mp hOther
      rw [hNone] at hName
      cases hName
  · rw [if_neg hOther]
    exact ⟨Nat.zero_le 1, nofun⟩

/-- What a stream was entitled to it stays entitled to. -/
theorem Entitled.grown {gateway gateway' : Controller} {content : UInt16 × String}
    (h : Entitled c allow gateway content) (hGrown : Controller.Grown gateway gateway') :
    Entitled c allow gateway' content := by
  intro m hMeaning name hName
  obtain ⟨k, md, hGet, hStream, hAsked⟩ := h m hMeaning name hName
  obtain ⟨md', hGet', hSame⟩ := hGrown k md hGet
  exact ⟨k, md', hGet', hSame.streamId.trans hStream, hSame.everAsked hAsked⟩

theorem Carried.start (limit : Nat) (hMax : 0 < limit) :
    Carried c allow exchange limit (.start limit hMax exchange) where
  orderly := Orderly.create limit hMax exchange
  intact := Network.intact_empty
  entitled _ hp := absurd hp List.not_mem_nil
  first := List.nil_prefix
  whole _ := rfl

theorem Carried.receive {limit : Nat} {w : Wire} (h : Carried c allow exchange limit w)
    (hAlive : w.alive = true) (i : Nat) :
    Carried c allow exchange limit (w.receive c dispatcher allow exchange i) := by
  unfold Wire.receive
  cases hGet : w.network.inFlight[i]? with
  | none => exact h
  | some p =>
      have hDelivered : (w.network.deliver i).delivered = w.network.delivered ++ [p] := by
        unfold Network.deliver
        rw [hGet]
      have hFollows := follows_onFrame c dispatcher allow exchange w.reception
        (Wire.frame p.content)
      have hBefore := h.whole hAlive
      refine ⟨h.orderly, h.intact.deliver i, fun q hq => ?_, ?_, fun hLives => ?_⟩
      · exact h.entitled q ((Network.subperm_deliver w.network i).subset hq)
      · obtain ⟨taken, hTaken, hPublished⟩ := hFollows.first
        show (onFrame c dispatcher allow exchange w.reception _).state.feed.published <+:
          (w.network.deliver i).delivered.flatMap _
        rw [hPublished, hBefore, hDelivered, List.flatMap_append, List.flatMap_singleton]
        exact (List.prefix_append_right_inj _).mpr hTaken
      · have hGains := (hFollows.whole (.inl hLives)).2
        show (onFrame c dispatcher allow exchange w.reception _).state.feed.published =
          (w.network.deliver i).delivered.flatMap _
        rw [hGains.published, hBefore, hDelivered, List.flatMap_append,
          List.flatMap_singleton]

/-- **Step lemma**: whatever happens, what is carried stays in order. -/
theorem Carried.step {limit : Nat} {w : Wire} (h : Carried c allow exchange limit w)
    (happening : Happening) :
    Carried c allow exchange limit (w.step c dispatcher allow exchange happening) := by
  unfold Wire.step
  by_cases hAlive : w.alive
  · rw [if_pos hAlive]
    cases happening with
    | attempt a =>
        refine ⟨orderly_step h.orderly a fun _ _ => trivial, h.intact, fun p hp => ?_,
          h.first, h.whole⟩
        exact (h.entitled p hp).grown (grown_step w.trial a)
    | speaks text =>
        exact ⟨h.orderly, h.intact.send (length_listening h text),
          Network.forall_send h.entitled (entitled_listening w text), h.first, h.whole⟩
    | answers k text =>
        have hAnswer : (w.answering c allow k text).length ≤ 1 ∧ _ := answering_cases w k text
        exact ⟨h.orderly, h.intact.send hAnswer.1, Network.forall_send h.entitled hAnswer.2,
          h.first, h.whole⟩
    | arrives i => exact h.receive hAlive i
    | isLost i =>
        refine ⟨h.orderly, h.intact.lose i, fun p hp => ?_, h.first, h.whole⟩
        exact h.entitled p ((Network.subperm_lose w.network i).subset hp)
  · rw [if_neg hAlive]
    exact h

end Invariant

/-! ## What has been said -/

/-- The number of a packet is that of its text among all that has been said. -/
structure Truthful (texts : List String) (w : Wire) : Prop where
  next : w.alive = true → w.network.next = texts.length
  said : ∀ p ∈ w.network.packets, texts[p.number]? = some p.content.2

section Truthful

variable {c : Codec} {dispatcher : Dispatcher} {allow : Bool} {exchange : String}
  {texts : List String} {w : Wire}

theorem text_of_mem_listening {text : String} {content : UInt16 × String}
    (h : content ∈ w.listening c allow text) : content.2 = text := by
  unfold Wire.listening at h
  cases hText : c.meaning allow text with
  | none =>
      rw [hText] at h
      cases h
  | some m =>
      rw [hText] at h
      obtain ⟨md, -, rfl⟩ := List.mem_map.mp h
      rfl

theorem text_of_mem_answering {k : Nat} {text : String} {content : UInt16 × String}
    (h : content ∈ w.answering c allow k text) : content.2 = text := by
  unfold Wire.answering at h
  split at h
  · obtain ⟨md, -, rfl⟩ := List.mem_map.mp h
    rfl
  · cases h

/-- One more text, and its packets. -/
theorem Truthful.send (h : Truthful texts w) (hAlive : w.alive = true) {text : String}
    {contents : List (UInt16 × String)} (hContents : ∀ content ∈ contents, content.2 = text) :
    Truthful (texts ++ [text]) { w with network := w.network.send contents } where
  next _ := by
    show w.network.next + 1 = (texts ++ [text]).length
    rw [h.next hAlive, List.length_append, List.length_singleton]
  said p hp := by
    change p ∈ w.network.delivered ++ (w.network.inFlight ++ _) at hp
    rw [← List.append_assoc] at hp
    cases List.mem_append.mp hp with
    | inl hOld =>
        have hSaid := h.said p hOld
        have hLt := (List.getElem?_eq_some_iff.mp hSaid).1
        rw [List.getElem?_append_left hLt]
        exact hSaid
    | inr hNew =>
        obtain ⟨content, hContent, rfl⟩ := List.mem_map.mp hNew
        rw [hContents content hContent, h.next hAlive]
        exact List.getElem?_concat_length

/-- Nothing is said, and packets go or go elsewhere. -/
theorem Truthful.of_subperm {w' : Wire} (h : Truthful texts w)
    (hAlive : w'.alive = true → w.alive = true) (hNext : w'.network.next = w.network.next)
    (hPackets : w'.network.packets.Subperm w.network.packets) : Truthful texts w' where
  next hAlive' := hNext.trans (h.next (hAlive hAlive'))
  said p hp := h.said p (hPackets.subset hp)

/-- **Step lemma**. -/
theorem Truthful.step (h : Truthful texts w) (happening : Happening) :
    Truthful (texts ++ happening.text.toList) (w.step c dispatcher allow exchange happening) := by
  unfold Wire.step
  by_cases hAlive : w.alive = true
  · rw [if_pos hAlive]
    cases happening with
    | attempt a =>
        rw [Happening.text, Option.toList_none, List.append_nil]
        exact ⟨h.next, h.said⟩
    | speaks text => exact h.send hAlive fun _ hMem => text_of_mem_listening hMem
    | answers k text => exact h.send hAlive fun _ hMem => text_of_mem_answering hMem
    | arrives i =>
        rw [Happening.text, Option.toList_none, List.append_nil]
        show Truthful texts (w.receive c dispatcher allow exchange i)
        unfold Wire.receive
        cases hGet : w.network.inFlight[i]? with
        | none => exact h
        | some p =>
            refine h.of_subperm (fun _ => hAlive) ?_ (Network.subperm_deliver w.network i)
            show (w.network.deliver i).next = w.network.next
            exact Network.next_deliver w.network i
    | isLost i =>
        rw [Happening.text, Option.toList_none, List.append_nil]
        exact h.of_subperm (fun _ => hAlive) rfl (Network.subperm_lose w.network i)
  · rw [if_neg hAlive]
    refine ⟨fun hAlive' => absurd hAlive' hAlive, fun p hp => ?_⟩
    have hSaid := h.said p hp
    rw [List.getElem?_append_left (List.getElem?_eq_some_iff.mp hSaid).1]
    exact hSaid

/-- **Run lemma**. -/
theorem truthful_run (hStart : Truthful [] w) (happenings : List Happening) :
    Truthful (happenings.filterMap Happening.text)
      (run (Wire.step c dispatcher allow exchange) w happenings) := by
  induction happenings using List.reverseRecOn with
  | nil => exact hStart
  | append_singleton happenings happening ih =>
      have hOne : [happening].filterMap Happening.text = happening.text.toList := by
        cases happening <;> rfl
      rw [run_append, run_cons, run_nil, List.filterMap_append, hOne]
      exact ih.step happening

end Truthful

/-! ## One line for each symbol -/

/-- Clients receive what is about one symbol under one stream identifier.  What they
receive comes of packets that have been delivered, each of them one of the texts that have
been said, and none of them twice; and as long as the process lives, nothing of these
packets is missing. -/
structure OneLineEach (c : Codec) (allow : Bool) (exchange : String) (texts : List String)
    (w : Wire) : Prop where
  stream : ∀ event ∈ w.reception.feed.published, ∀ event' ∈ w.reception.feed.published,
    event.symbol = event'.symbol → event.streamId = event'.streamId
  published : w.reception.feed.published <+: w.network.delivered.flatMap fun p =>
    (Frame.outcome c allow exchange (Wire.frame p.content)).events
  whole : w.alive = true → w.reception.feed.published =
    w.network.delivered.flatMap fun p =>
      (Frame.outcome c allow exchange (Wire.frame p.content)).events
  said : ∀ p ∈ w.network.delivered, texts[p.number]? = some p.content.2
  once : (w.network.delivered.map Packet.number).Nodup

/-- The stream of an event has asked for its symbol. -/
theorem Carried.asked {c : Codec} {allow : Bool} {exchange : String} {limit : Nat} {w : Wire}
    (h : Carried c allow exchange limit w) {event : Published}
    (hEvent : event ∈ w.reception.feed.published) :
    ∃ (k : Nat) (md : MarketData), w.trial.gateway.marketData[k]? = some md ∧
      md.streamId = event.streamId ∧ md.everAsked event.symbol := by
  obtain ⟨p, hp, hOutcome⟩ := List.mem_flatMap.mp (h.first.subset hEvent)
  have hStream := streamId_of_mem_outcome c allow exchange hOutcome
  have hEntitled := h.entitled p (List.mem_append_left _ hp)
  obtain ⟨number, streamId, text⟩ := p
  rw [Wire.frame, events_outcome] at hOutcome
  cases hMeaning : c.meaning allow text with
  | none =>
      rw [hMeaning] at hOutcome
      cases hOutcome
  | some m =>
      rw [hMeaning] at hOutcome
      obtain ⟨k, md, hGet, hSame, hAsked⟩ :=
        hEntitled m hMeaning event.symbol (symbol_of_mem_brought hOutcome)
      exact ⟨k, md, hGet, hSame.trans hStream.symm, hAsked⟩

/--
**One line for each symbol.**  Start the gateway, let it go through any events with any of
their calls throwing, let the exchange say what it likes to those who listen, let what is in
flight arrive in any order or be lost, and let the dispatcher take what it likes.  Then all
the top of book, the books, the trades and the statistics that clients have received about
one symbol carry one stream identifier, and they come of what the exchange has said, each
of its texts at most once.
-/
theorem one_line_each (c : Codec) (dispatcher : Dispatcher) (allow : Bool) (exchange : String)
    (maxSubscriptions : Nat) (hMax : 0 < maxSubscriptions) (happenings : List Happening) :
    OneLineEach c allow exchange (happenings.filterMap Happening.text)
      (run (Wire.step c dispatcher allow exchange) (.start maxSubscriptions hMax exchange)
        happenings) := by
  have hCarried : Carried c allow exchange maxSubscriptions
      (run (Wire.step c dispatcher allow exchange) (.start maxSubscriptions hMax exchange)
        happenings) :=
    run_invariant (Wire.step c dispatcher allow exchange)
      (I := Carried c allow exchange maxSubscriptions) (Carried.start maxSubscriptions hMax)
      (fun _ happening h => h.step happening) happenings
  have hTruthful : Truthful (happenings.filterMap Happening.text)
      (run (Wire.step c dispatcher allow exchange) (.start maxSubscriptions hMax exchange)
        happenings) :=
    truthful_run ⟨fun _ => rfl, fun _ hp => absurd hp List.not_mem_nil⟩ happenings
  refine ⟨fun event hEvent event' hEvent' hSame => ?_, hCarried.first, hCarried.whole,
    fun p hp => hTruthful.said p (List.mem_append_left _ hp), hCarried.intact.delivered_once⟩
  obtain ⟨k, md, hGet, hStream, hAsked⟩ := hCarried.asked hEvent
  obtain ⟨j, md', hGet', hStream', hAsked'⟩ := hCarried.asked hEvent'
  rw [← hSame] at hAsked'
  have hPlace := hCarried.orderly.askedOnce.apart k j md md' hGet hGet' _ hAsked hAsked'
  rw [hPlace, hGet'] at hGet
  rw [← hStream, ← hStream', Option.some.inj hGet]

/-- The book of a symbol arrives before and after its connection has been replaced, and a
pong in between. -/
def bookTwice : List Happening :=
  [ .attempt (.marketInfoAck [named "A" false], none),
    .attempt (.ready 0, none),
    .speaks depthText,
    .attempt (.disconnected 0, none),
    .attempt (.ready 0, none),
    .speaks depthText,
    .answers 0 pongText,
    .arrives 1,
    .arrives 1,
    .arrives 0 ]

theorem one_line_each_book_twice :
    0 < 2 ∧
    (run (Wire.step threeTexts snapshotFirst true "whitebit") (.start 2 (by decide) "whitebit")
      bookTwice).reception.feed.published.length = 2 ∧
    OneLineEach threeTexts true "whitebit" (bookTwice.filterMap Happening.text)
      (run (Wire.step threeTexts snapshotFirst true "whitebit") (.start 2 (by decide) "whitebit")
        bookTwice) :=
  ⟨by decide, by decide +kernel,
    one_line_each threeTexts snapshotFirst true "whitebit" 2 (by decide) bookTwice⟩

/-! ## Nothing is missed -/

/-- The connection is ready, and the symbol is active on it by this method. -/
def MarketData.hears (method : SubscribeMethod) (name : Symbol) (md : MarketData) : Bool :=
  md.ready && decide (name ∈ active md.sent method)

/-- Where a message can go, whatever its method and however many symbols it mentions.  A
symbol it mentions is heard on the connection of the stream that serves the symbol, if that
is ready, and on no other.  So a message about symbols of one stream goes to that stream, if
it is ready, and to no other; and one about symbols of different streams goes to none. -/
structure SentOnce (c : Controller) : Prop where
  heard : ∀ (m : Message), ∀ name ∈ m.symbols,
    ∀ (k : Nat) (md : MarketData), c.marketData[k]? = some md →
      name ∈ c.shared.symbols.getSlice md.index 0 →
        c.marketData.filter (MarketData.hears m.method name) =
          if md.ready then [md] else []
  sent : ∀ m : Message, m.symbols ≠ [] →
    ∀ (k : Nat) (md : MarketData), c.marketData[k]? = some md →
      (∀ name ∈ m.symbols, name ∈ c.shared.symbols.getSlice md.index 0) →
        c.marketData.filter (MarketData.listens m) = if md.ready then [md] else []
  served : ∀ (m : Message) (md : MarketData), md ∈ c.marketData →
    MarketData.listens m md = true →
      ∀ name ∈ m.symbols, name ∈ c.shared.symbols.getSlice md.index 0

theorem hears_iff {method : SubscribeMethod} {name : Symbol} {md : MarketData} :
    MarketData.hears method name md = true ↔
      md.ready = true ∧ name ∈ active md.sent method := by
  simp [MarketData.hears]

theorem listens_iff {m : Message} (hSome : m.symbols ≠ []) {md : MarketData} :
    MarketData.listens m md = true ↔
      md.ready = true ∧ ∀ name ∈ m.symbols, name ∈ active md.sent m.method := by
  simp [MarketData.listens, hSome]

/-- Among streams of which only one qualifies, at most, the filter finds that one. -/
theorem filter_eq_of_unique {α : Type} {p : α → Bool} {l : List α} {k : Nat} {x : α}
    {holds : Bool} (hGet : l[k]? = some x) (hHolds : p x = holds)
    (hUnique : ∀ (j : Nat) (y : α), l[j]? = some y → p y → j = k) :
    l.filter p = if holds then [x] else [] := by
  have hPlace {j : Nat} {y : α} (hGet' : l[j]? = some y) (hy : p y) : y = x := by
    rw [hUnique j y hGet' hy, hGet] at hGet'
    exact (Option.some.inj hGet').symm
  cases holds with
  | true =>
      have hMem : x ∈ l.filter p :=
        List.mem_filter.mpr ⟨List.mem_of_getElem? hGet, hHolds⟩
      have hAtMost : (l.filter p).length ≤ 1 :=
        length_filter_le_one fun i j y z hy hz hpy hpz =>
          (hUnique i y hy hpy).trans (hUnique j z hz hpz).symm
      have hPositive := List.length_pos_of_mem hMem
      obtain ⟨y, hFilter⟩ := List.length_eq_one_iff.mp (by omega : (l.filter p).length = 1)
      rw [hFilter] at hMem ⊢
      rw [if_pos rfl, List.mem_singleton.mp hMem]
  | false =>
      rw [if_neg (by decide), List.filter_eq_nil_iff]
      intro y hMem hy
      obtain ⟨j, hGet'⟩ := List.mem_iff_getElem?.mp hMem
      rw [hPlace hGet' hy, hHolds] at hy
      cases hy

section Covering

variable {c : Controller}

/-- A connection on which everything is covered hears of the symbols its stream serves. -/
theorem Covered.hears_iff (h : Covered c) {md : MarketData} (hMem : md ∈ c.marketData)
    (method : SubscribeMethod) (name : Symbol) :
    MarketData.hears method name md = true ↔
      md.ready = true ∧ name ∈ c.shared.symbols.getSlice md.index 0 := by
  rw [Gateway.hears_iff]
  refine and_congr_right fun hReady => ?_
  rw [h md hMem hReady method, List.mem_toFinset]

theorem Covered.listens_iff (h : Covered c) {md : MarketData} (hMem : md ∈ c.marketData)
    {m : Message} (hSome : m.symbols ≠ []) :
    MarketData.listens m md = true ↔
      md.ready = true ∧ ∀ name ∈ m.symbols, name ∈ c.shared.symbols.getSlice md.index 0 := by
  rw [Gateway.listens_iff hSome]
  refine and_congr_right fun hReady => ?_
  simp only [h md hMem hReady m.method, List.mem_toFinset]

theorem Covered.sentOnce (h : Covered c) (hDistributed : Distributed c) : SentOnce c := by
  -- Two streams that serve the symbol are one.
  have hPlace {i j : Nat} {md md' : MarketData} {name : Symbol}
      (hGet : c.marketData[i]? = some md) (hGet' : c.marketData[j]? = some md')
      (hSlice : name ∈ c.shared.symbols.getSlice md.index 0)
      (hSlice' : name ∈ c.shared.symbols.getSlice md'.index 0) : j = i := by
    rw [hDistributed.serving.index i md hGet] at hSlice
    rw [hDistributed.serving.index j md' hGet'] at hSlice'
    exact slice_index_unique hDistributed.nodup hSlice' hSlice
  refine ⟨fun m name _ k md hGet hSlice => ?_, fun m hSome k md hGet hSlice => ?_,
    fun m md hMem hListens name hName => ?_⟩
  · apply filter_eq_of_unique hGet
    · rw [Bool.eq_iff_iff, h.hears_iff (List.mem_of_getElem? hGet)]
      exact and_iff_left hSlice
    · intro j md' hGet' hHears
      have hSlice' := ((h.hears_iff (List.mem_of_getElem? hGet') _ _).mp hHears).2
      exact hPlace hGet hGet' hSlice hSlice'
  · apply filter_eq_of_unique hGet
    · rw [Bool.eq_iff_iff, h.listens_iff (List.mem_of_getElem? hGet) hSome]
      exact and_iff_left hSlice
    · intro j md' hGet' hListens
      obtain ⟨name, hName⟩ := List.exists_mem_of_ne_nil _ hSome
      have hSlice' := ((h.listens_iff (List.mem_of_getElem? hGet') hSome).mp hListens).2
      exact hPlace hGet hGet' (hSlice name hName) (hSlice' name hName)
  · have hSome : m.symbols ≠ [] := List.ne_nil_of_mem hName
    exact ((h.listens_iff hMem hSome).mp hListens).2 name hName

/-- What has not been lost by trades has not been lost by any method. -/
theorem SentOnce.covered (h : SentOnce c)
    (hLast : ∀ k, ∃ last, LeftWithAt k last c) : Covered c := by
  intro md hMem hReady method
  obtain ⟨k, hGet⟩ := List.mem_iff_getElem?.mp hMem
  obtain ⟨last, hLeft⟩ := hLast k
  have hLeft := hLeft md hGet hReady
  by_cases hMethod : method = .depth
  · rw [hMethod, hLeft.depth]
  · rw [hLeft.others method hMethod, ← hLeft.others .trades (by decide)]
    apply Finset.ext
    intro name
    rw [List.mem_toFinset]
    have hTrades (hActive : name ∈ active md.sent .trades) :
        MarketData.listens (.tradesUpdate { params := { name := name, data := [] } }) md =
          true := by
      have hSome : Message.symbols (.tradesUpdate { params := { name := name, data := [] } }) ≠
          [] := List.cons_ne_nil name []
      refine (listens_iff hSome).mpr ⟨hReady, fun other hOther => ?_⟩
      rw [List.mem_singleton.mp hOther]
      exact hActive
    constructor
    · intro hActive
      exact h.served _ md hMem (hTrades hActive) name List.mem_cons_self
    · intro hSlice
      have hFilter := h.heard (.tradesUpdate { params := { name := name, data := [] } }) name
        List.mem_cons_self k md hGet hSlice
      rw [if_pos hReady] at hFilter
      have hHears : md ∈ [md] := List.mem_singleton_self md
      rw [← hFilter] at hHears
      exact (hears_iff.mp (List.mem_filter.mp hHears).2).2

end Covering

/--
**Nothing is missed, and nothing heard twice.**  After any events, let every stream become
ready once.  From then on, every message the exchange has to say can go exactly where it
belongs, in every state of what follows, if and only if no event brings a new name while a
ready stream has a slice that is not full: each symbol the message mentions is heard on the
connection of the stream that serves the symbol, whenever that is ready, and on no other.
-/
theorem sent_once_iff (maxSubscriptions : Nat) (hMax : 0 < maxSubscriptions)
    (exchange : String) (es fs : List Event) :
    let c := run Controller.step (.create maxSubscriptions hMax exchange) es
    let healed := run Controller.step c (reconnectAll c.marketData.length)
    Always Controller.step SentOnce healed fs ↔ Along Controller.step Harmless healed fs := by
  intro c healed
  have hDistributed : Distributed c := distributed_run maxSubscriptions hMax exchange es
  have hCovered : Covered healed := covered_reconnectAll hDistributed
  have hKept (c : Controller) (e : Event)
      (h : Distributed c ∧ ∀ k, ∃ last, LeftWithAt k last c) :
      Distributed (c.step e) ∧ ∀ k, ∃ last, LeftWithAt k last (c.step e) := by
    refine ⟨h.1.step e, fun k => ?_⟩
    obtain ⟨last, hLeft⟩ := h.2 k
    exact ⟨_, leftWithAt_step h.1 hLeft e⟩
  have hHealed : Distributed healed ∧ ∀ k, ∃ last, LeftWithAt k last healed := by
    have hDistributed' : Distributed healed :=
      run_invariant Controller.step hDistributed (fun _ e h => h.step e) _
    refine ⟨hDistributed', fun k => ⟨healed.shared.symbols.getSlice k 0, ?_⟩⟩
    intro md hGet hReady
    rw [← hDistributed'.serving.index k md hGet]
    exact LeftWith.of_covers (hCovered md (List.mem_of_getElem? hGet) hReady)
  apply always_iff_along Controller.step hHealed (hCovered.sentOnce hHealed.1)
    (fun c e h _ => hKept c e h) _ fs (along_true _ _ fs)
  intro c e h _ hSent
  have hNext := hKept c e h
  rw [← covered_step_iff h.1 (hSent.covered h.2) e]
  exact ⟨fun hSent' => hSent'.covered hNext.2, fun hCovered' => hCovered'.sentOnce hNext.1⟩

theorem sent_once_iff_lost_symbol :
    0 < 2 ∧
    (let c := run Controller.step (.create 2 (by decide) "whitebit")
      [.marketInfoAck [named "A" false], .ready 0, .subscribe ["B"]]
    let healed := run Controller.step c (reconnectAll c.marketData.length)
    Always Controller.step SentOnce healed [.subscribe ["C"], .ready 1] ↔
      Along Controller.step Harmless healed [.subscribe ["C"], .ready 1]) :=
  ⟨by decide, sent_once_iff 2 (by decide) "whitebit" _ _⟩

end RoqWhitebit.Gateway
