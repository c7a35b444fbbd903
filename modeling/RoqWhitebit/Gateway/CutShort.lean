import RoqWhitebit.General.Contracts
import RoqWhitebit.Gateway.Identifiers

/-!
# Subscriptions that are cut short

A subscription sends one request after the other, and sending one may throw.  Its
identifier has been used up by then, and the requests before it have been sent, so that
a subscription that is cut short is the beginning of one that is not.

`Contained` is what holds of a stream however its subscriptions have ended: it has asked
for symbols of its slice only, for none twice on one connection, and its identifiers come
from a counter that has skipped few of them.
-/

namespace RoqWhitebit.Gateway

open RoqWhitebit.General

namespace MarketData

/-! ## A subscription that is cut short -/

/-- The stream whose counter has come to `id` and that has sent these requests. -/
def pushed (id : UInt64) (requests : List Request) (md : MarketData) : MarketData :=
  { md with
    requestId := id
    sent := md.sent ++ requests }

/-- The stream whose subscription is cut short at request `k`: the identifier has been
used up, and the requests before it have been sent. -/
def cut (symbols : List Symbol) (k : Nat) (md : MarketData) : MarketData :=
  md.pushed (md.requestId + UInt64.ofNat (k + 1)) ((requests md.requestId symbols).take k)

theorem pushed_pushed (id id' : UInt64) (requests requests' : List Request)
    (md : MarketData) :
    (md.pushed id requests).pushed id' requests' = md.pushed id' (requests ++ requests') := by
  unfold pushed
  rw [List.append_assoc]

/-- One request is one call; cut short, it has used up its identifier. -/
theorem calls_request (request : UInt64 → Request) (md : MarketData) :
    Calls (ε := Exception) (nextRequestId >>= fun id => sendText (request id)) md 1 ()
      (md.pushed (md.requestId + 1) [request (md.requestId + 1)])
      (fun _ t => t = md.pushed (md.requestId + 1) []) := by
  have hNext (fuse : Option (Nat × Exception)) : nextRequestId ⟨md, fuse⟩ =
      .ok (md.requestId + 1) ⟨md.pushed (md.requestId + 1) [], fuse⟩ := by
    unfold pushed
    rw [List.append_nil]
    rfl
  have hPushed : md.pushed (md.requestId + 1) [request (md.requestId + 1)] =
      (md.pushed (md.requestId + 1) []).pushed (md.requestId + 1)
        [request (md.requestId + 1)] := by
    rw [pushed_pushed, List.nil_append]
  rw [hPushed]
  apply Calls.after_free hNext
  exact Calls.after_call rfl (calls_write _ _ _)

/-- Send requests that are numbered on from the counter. -/
def sendAll : List (UInt64 → Request) → Throwing Exception MarketData Unit
  | [] => pure ()
  | request :: requests => do
      let id ← nextRequestId
      sendText (request id)
      sendAll requests

/-- The requests that `sendAll` sends after identifier `id`. -/
def numbered (id : UInt64) : List (UInt64 → Request) → List Request
  | [] => []
  | request :: requests => request (id + 1) :: numbered (id + 1) requests

theorem add_ofNat_succ (id : UInt64) (n : Nat) :
    id + UInt64.ofNat (n + 1) = id + 1 + UInt64.ofNat n := by
  rw [Nat.add_comm, UInt64.ofNat_add, UInt64.add_assoc]
  rfl

theorem calls_sendAll (requests : List (UInt64 → Request)) (md : MarketData) :
    Calls (ε := Exception) (sendAll requests) md requests.length ()
      (md.pushed (md.requestId + UInt64.ofNat requests.length)
        (numbered md.requestId requests))
      (fun k t => t = md.pushed (md.requestId + UInt64.ofNat (k + 1))
        ((numbered md.requestId requests).take k)) := by
  induction requests generalizing md with
  | nil =>
      have hSame : md.pushed (md.requestId + UInt64.ofNat 0) (numbered md.requestId []) = md := by
        unfold pushed numbered
        rw [List.append_nil]
        show { md with requestId := md.requestId + 0 } = md
        rw [UInt64.add_zero]
      rw [List.length_nil, hSame]
      exact calls_pure () md _
  | cons request requests ih =>
      have hFirst := calls_request request md
      have hRest := ih (md.pushed (md.requestId + 1) [request (md.requestId + 1)])
      have hId : (md.pushed (md.requestId + 1) [request (md.requestId + 1)]).requestId =
          md.requestId + 1 := rfl
      simp only [hId, pushed_pushed, List.singleton_append] at hRest
      show Calls ((nextRequestId >>= fun id => sendText (request id)) >>=
        fun _ => sendAll requests) md (requests.length + 1) () _ _
      rw [Nat.add_comm]
      apply Calls.bind hFirst
      · rw [List.length_cons, add_ofNat_succ]
        apply hRest.mono
        rintro k t - rfl
        rw [Nat.add_comm 1 k, numbered, List.take_succ_cons, add_ofNat_succ _ (k + 1)]
      · rintro k t hk rfl
        obtain rfl : k = 0 := by omega
        rfl

/-! ## The subscription as a list of requests -/

/-- The requests of `subscribe(symbols)` before they are numbered. -/
def unnumbered (symbols : List Symbol) : List (UInt64 → Request) :=
  [fun id => .list id .bookTicker symbols] ++
    (symbols.map fun symbol id => .level id .depth symbol 100) ++
    [fun id => .list id .trades symbols, fun id => .list id .market symbols,
      fun id => .list id .marketToday symbols]

theorem sendAll_append (requests requests' : List (UInt64 → Request)) :
    sendAll (requests ++ requests') = (sendAll requests >>= fun _ => sendAll requests') := by
  induction requests with
  | nil => rfl
  | cons request requests ih =>
      rw [List.cons_append, sendAll, ih]
      simp only [sendAll, bind_assoc]

theorem subscribeLevels_eq_sendAll (symbols : List Symbol) :
    subscribeLevels .depth 100 symbols =
      sendAll (symbols.map fun symbol id => .level id .depth symbol 100) := by
  induction symbols with
  | nil => rfl
  | cons symbol symbols ih => rw [subscribeLevels, ih, List.map_cons, sendAll]

theorem subscribeSymbols_eq_sendAll {symbols : List Symbol} (hSome : symbols ≠ []) :
    subscribeSymbols symbols = sendAll (unnumbered symbols) := by
  unfold subscribeSymbols unnumbered
  rw [if_neg (by simpa using hSome), sendAll_append, sendAll_append,
    ← subscribeLevels_eq_sendAll]
  simp only [sendAll, subscribeList, bind_assoc, bind_pure_unit]

theorem numbered_append (id : UInt64) (requests requests' : List (UInt64 → Request)) :
    numbered id (requests ++ requests') =
      numbered id requests ++ numbered (id + UInt64.ofNat requests.length) requests' := by
  induction requests generalizing id with
  | nil =>
      show _ = numbered (id + 0) requests'
      rw [UInt64.add_zero]
      rfl
  | cons request requests ih =>
      rw [List.cons_append, numbered, ih, numbered, List.length_cons, add_ofNat_succ]
      rfl

theorem numbered_levels (id : UInt64) (symbols : List Symbol) :
    numbered id (symbols.map fun symbol id => .level id .depth symbol 100) =
      levelRequests id symbols := by
  induction symbols generalizing id with
  | nil => rfl
  | cons symbol symbols ih => rw [List.map_cons, numbered, ih, levelRequests]

theorem numbered_unnumbered (id : UInt64) (symbols : List Symbol) :
    numbered id (unnumbered symbols) = requests id symbols := by
  have hLast (next : UInt64) :
      numbered next [fun id => .list id .trades symbols, fun id => .list id .market symbols,
          fun id => .list id .marketToday symbols] =
        [.list (next + 1) .trades symbols, .list (next + 2) .market symbols,
          .list (next + 3) .marketToday symbols] := by
    show [Request.list (next + 1) .trades symbols, .list (next + 1 + 1) .market symbols,
      .list (next + 1 + 1 + 1) .marketToday symbols] = _
    rw [UInt64.add_assoc, UInt64.add_assoc]
    rfl
  have hFirst : numbered id [fun id => .list id .bookTicker symbols] =
      [.list (id + 1) .bookTicker symbols] := rfl
  have hOne : id + UInt64.ofNat 1 = id + 1 := rfl
  unfold unnumbered requests
  rw [numbered_append, hLast, numbered_append, numbered_levels, hFirst, advance_eq,
    List.length_append, List.length_map, List.length_singleton, Nat.add_comm 1,
    add_ofNat_succ id symbols.length, hOne]
  rfl

theorem length_requests (id : UInt64) (symbols : List Symbol) :
    (requests id symbols).length = 1 + (symbols.length + 3) := by
  rw [← List.length_map (f := Request.id), requests_ids, length_block]

theorem length_unnumbered (symbols : List Symbol) :
    (unnumbered symbols).length = 1 + (symbols.length + 3) := by
  simp [unnumbered]
  omega

theorem pushed_eq_asked {symbols : List Symbol} (hSome : symbols ≠ []) (md : MarketData) :
    md.pushed (md.requestId + UInt64.ofNat (1 + (symbols.length + 3)))
      (requests md.requestId symbols) = md.asked symbols := by
  unfold asked pushed
  rw [if_neg (by simpa using hSome), advance_eq, UInt64.ofNat_add, UInt64.ofNat_add,
    UInt64.add_assoc, UInt64.add_assoc]
  rfl

/-- **A subscription**: one call for each request.  Cut short, it has sent the requests
before that call. -/
theorem calls_subscribeSymbols {symbols : List Symbol} (hSome : symbols ≠ [])
    (md : MarketData) :
    Calls (ε := Exception) (subscribeSymbols symbols) md (1 + (symbols.length + 3)) ()
      (md.asked symbols) (fun k t => t = md.cut symbols k) := by
  have hAll := calls_sendAll (unnumbered symbols) md
  rw [numbered_unnumbered, length_unnumbered, ← subscribeSymbols_eq_sendAll hSome] at hAll
  rw [pushed_eq_asked hSome] at hAll
  exact hAll

/-! ## What a stream has asked for, however its subscriptions end -/

/-- The stream has gone on to send requests for some symbols, from the first one on, and
its counter has gone at most `slack` further than that. -/
structure Extends (symbols : List Symbol) (slack : Nat) (md md' : MarketData) : Prop where
  same : SameStream md md'
  sentBefore : md'.sentBefore = md.sentBefore
  sent : ∃ later n, later <+: requests md.requestId symbols ∧ (symbols = [] → later = []) ∧
    md'.sent = md.sent ++ later ∧ md'.requestId = md.requestId + UInt64.ofNat n ∧
    later.length ≤ n ∧ n ≤ later.length + slack

theorem extends_refl (symbols : List Symbol) (slack : Nat) (md : MarketData) :
    Extends symbols slack md md where
  same := .refl md
  sentBefore := rfl
  sent := ⟨[], 0, List.nil_prefix, fun _ => rfl, (List.append_nil _).symm,
    (UInt64.add_zero _).symm, Nat.le_refl 0, Nat.zero_le _⟩

theorem Extends.mono {symbols : List Symbol} {slack slack' : Nat} {md md' : MarketData}
    (h : Extends symbols slack md md') (hSlack : slack ≤ slack') :
    Extends symbols slack' md md' where
  same := h.same
  sentBefore := h.sentBefore
  sent := by
    obtain ⟨later, n, hLater, hNone, hSent, hId, hLow, hHigh⟩ := h.sent
    exact ⟨later, n, hLater, hNone, hSent, hId, hLow, by omega⟩

theorem extends_pushed {symbols : List Symbol} (hSome : symbols ≠ []) {slack n k : Nat}
    (hLow : k ≤ n) (hHigh : n ≤ k + slack) (hLength : k ≤ 1 + (symbols.length + 3))
    (md : MarketData) :
    Extends symbols slack md (md.pushed (md.requestId + UInt64.ofNat n)
      ((requests md.requestId symbols).take k)) where
  same := ⟨rfl, rfl, rfl⟩
  sentBefore := rfl
  sent := by
    have hTaken : ((requests md.requestId symbols).take k).length = k := by
      rw [List.length_take, length_requests]
      omega
    refine ⟨_, n, List.take_prefix k _, fun hNone => absurd hNone hSome, rfl, rfl, ?_, ?_⟩
    · omega
    · omega

/-- However it ends, a subscription sends requests for its symbols in order. -/
theorem meets_subscribeSymbols (symbols : List Symbol) (md : MarketData) :
    Meets (· = md) (subscribeSymbols symbols) (fun _ => Extends symbols 0 md)
      (Extends symbols 1 md) := by
  by_cases hNone : symbols = []
  · rw [hNone]
    apply meets_pure
    intro _ hSame
    rw [hSame]
    exact extends_refl _ 0 md
  · have hAll := extends_pushed hNone (Nat.le_refl _) (Nat.le_add_right _ 0)
      (Nat.le_refl (1 + (symbols.length + 3))) md
    rw [List.take_of_length_le (by rw [length_requests]), pushed_eq_asked hNone] at hAll
    apply (calls_subscribeSymbols hNone md).meets.mono
    · exact fun _ h => h
    · rintro _ _ ⟨-, rfl⟩
      exact hAll
    · rintro _ ⟨k, hk, rfl⟩
      exact extends_pushed hNone (by omega) (by omega) (by omega) md

theorem meets_subscribe (symbols : Symbols) (startFrom : Nat) (md : MarketData) :
    Meets (· = md) (subscribe symbols startFrom)
      (fun _ => Extends (symbols.getSlice md.index startFrom) 0 md)
      (Extends (symbols.getSlice md.index startFrom) 1 md) := by
  apply Meets.bind (R := fun a t => a = md ∧ t = md) (meets_read fun _ h => ⟨h, h⟩)
  intro a
  apply Meets.of_each
  rintro _ ⟨rfl, rfl⟩
  split
  · exact meets_subscribeSymbols _ _
  · apply meets_pure
    rintro _ rfl
    exact extends_refl _ 0 _

/-- However it ends, the new status is kept. -/
theorem meets_onConnectionStatus (connectionStatus : ConnectionStatus) (md : MarketData) :
    Meets (· = md) (onConnectionStatus connectionStatus)
      (fun _ md' => md' = { md with connectionStatus := connectionStatus })
      (fun md' => md' = { md with connectionStatus := connectionStatus }) := by
  apply Meets.bind (R := fun _ t => t = { md with connectionStatus := connectionStatus })
  · apply meets_write
    rintro _ rfl
    rfl
  · intro _
    exact meets_call (fun _ h => h) (fun _ h => h)

/-- A status that cannot be dispatched leaves a ready stream that has not asked for
anything. -/
theorem meets_onReady (symbols : Symbols) (md : MarketData) :
    Meets (· = md) (onReady symbols)
      (fun _ => Extends (symbols.getSlice md.index 0) 0 md.connected)
      (Extends (symbols.getSlice md.index 0) 1 md.connected) := by
  apply Meets.bind (R := fun _ t => t = md.renewed)
  · apply meets_write
    rintro _ rfl
    rfl
  · intro _
    apply Meets.bind (R := fun _ t => t = md.connected)
    · apply (meets_onConnectionStatus .ready md.renewed).mono (fun _ h => h) (fun _ _ h => h)
      rintro _ rfl
      exact extends_refl _ 1 md.connected
    · intro _
      exact meets_subscribe symbols 0 md.connected

/-- A stream asks for symbols of its slice only, for at least one at a time, and for none
twice on one connection; its identifiers are among those its counter has gone through, of
which at most `slack` have not been used. -/
structure Contained (symbols : Symbols) (slack : Nat) (md : MarketData) : Prop where
  connection : ∀ method,
    (requested method md.sent).Sublist (symbols.getSlice md.index 0)
  ever : ∀ r ∈ md.sentBefore ++ md.sent, ∀ method,
    ∀ name ∈ r.asks method, name ∈ symbols.getSlice md.index 0
  named : ∀ r ∈ md.sentBefore ++ md.sent, r.symbols ≠ []
  counter : ∃ n, md.requestId = md.base + UInt64.ofNat n ∧
    md.requestIds.Sublist (block md.base n) ∧ n ≤ md.requestCount + slack

theorem contained_create (symbols : Symbols) (streamId : UInt16) (index : Nat) :
    Contained symbols 0 (create streamId index) where
  connection _ := List.nil_sublist _
  ever _ h := nomatch h
  named _ h := nomatch h
  counter := ⟨0, (UInt64.add_zero _).symm, List.Sublist.refl _, Nat.le_refl 0⟩

theorem Contained.mono {symbols : Symbols} {slack slack' : Nat} {md : MarketData}
    (h : Contained symbols slack md) (hSlack : slack ≤ slack') :
    Contained symbols slack' md where
  connection := h.connection
  ever := h.ever
  named := h.named
  counter := by
    obtain ⟨n, hId, hIds, hBound⟩ := h.counter
    exact ⟨n, hId, hIds, by omega⟩

/-- What is appended to the list does not take anything out of a slice. -/
theorem Contained.append {symbols : Symbols} {slack : Nat} {md : MarketData}
    (h : Contained symbols slack md) (names : List Symbol) :
    Contained (symbols.append names) slack md where
  connection method := by
    rw [Symbols.getSlice_append]
    exact (h.connection method).trans (List.sublist_append_left _ _)
  ever r hr method name hName := by
    rw [Symbols.getSlice_append]
    exact List.mem_append_left _ (h.ever r hr method name hName)
  named := h.named
  counter := h.counter

/-- The requests of a connection move behind it, and the counter goes on. -/
theorem Contained.connected {symbols : Symbols} {slack : Nat} {md : MarketData}
    (h : Contained symbols slack md) : Contained symbols slack md.connected where
  connection _ := List.nil_sublist _
  ever r hr := by
    change r ∈ (md.sentBefore ++ md.sent) ++ [] at hr
    rw [List.append_nil] at hr
    exact h.ever r hr
  named r hr := by
    change r ∈ (md.sentBefore ++ md.sent) ++ [] at hr
    rw [List.append_nil] at hr
    exact h.named r hr
  counter := by
    rw [connected_requestIds, connected_requestCount]
    exact h.counter

/-- Every request for some symbols names one of them. -/
theorem symbols_ne_nil_of_mem_requests {id : UInt64} {symbols : List Symbol}
    (hSome : symbols ≠ []) {r : Request} (hr : r ∈ requests id symbols) : r.symbols ≠ [] := by
  have hLevels (id : UInt64) (names : List Symbol) (hr : r ∈ levelRequests id names) :
      r.symbols ≠ [] := by
    induction names generalizing id with
    | nil => exact nomatch hr
    | cons name names ih =>
        rw [levelRequests] at hr
        rcases List.mem_cons.mp hr with rfl | hRest
        · exact List.cons_ne_nil _ _
        · exact ih _ hRest
  unfold requests at hr
  rcases List.mem_append.mp hr with hFirst | hLast
  · rcases List.mem_cons.mp hFirst with rfl | hLevel
    · exact hSome
    · exact hLevels _ _ hLevel
  · simp only [List.mem_cons, List.not_mem_nil, or_false] at hLast
    rcases hLast with rfl | rfl | rfl <;> exact hSome

theorem requested_initial {later requests : List Request} (h : later <+: requests)
    (method : SubscribeMethod) : requested method later <+: requested method requests := by
  obtain ⟨rest, rfl⟩ := h
  rw [requested_append]
  exact List.prefix_append _ _

/-- What a stream goes on to ask for are the symbols given, from the first one on. -/
theorem Extends.requested {symbols : List Symbol} {slack : Nat} {md md' : MarketData}
    (h : Extends symbols slack md md') (method : SubscribeMethod) :
    ∃ later, requested method md'.sent = requested method md.sent ++ later ∧
      later <+: symbols := by
  obtain ⟨later, _, hLater, _, hSent, _⟩ := h.sent
  refine ⟨Gateway.requested method later, by rw [hSent, requested_append], ?_⟩
  have hPrefix := requested_initial hLater method
  rwa [requested_requests] at hPrefix

theorem block_of_initial {base : UInt64} {ids : List UInt64} {n : Nat} (h : ids <+: block base n) :
    ids = block base ids.length := by
  obtain ⟨rest, hRest⟩ := h
  have hLength : n = ids.length + rest.length := by
    rw [← length_block base n, ← hRest, List.length_append]
  rw [hLength, block_add] at hRest
  exact (List.append_inj hRest (by rw [length_block])).1

/-- **Step lemma**: if what a stream has asked for and what it is to ask for fit into its
slice, then it asks for nothing else. -/
theorem Contained.extends {symbols : Symbols} {chunk : List Symbol} {slack more : Nat}
    {md md' : MarketData} (h : Contained symbols slack md)
    (hFits : ∀ method, (Gateway.requested method md.sent ++ chunk).Sublist
      (symbols.getSlice md.index 0))
    (hExtends : Extends chunk more md md') : Contained symbols (slack + more) md' := by
  obtain ⟨later, n, hLater, hEmpty, hSent, hId, hLow, hHigh⟩ := hExtends.sent
  have hBase : md'.base = md.base := by
    unfold base
    rw [hExtends.same.streamId]
  have hAll : md'.sentBefore ++ md'.sent = (md.sentBefore ++ md.sent) ++ later := by
    rw [hExtends.sentBefore, hSent, List.append_assoc]
  refine ⟨fun method => ?_, fun r hr method name hName => ?_, fun r hr => ?_, ?_⟩
  · rw [hExtends.same.index]
    obtain ⟨gain, hGain, hPrefix⟩ := hExtends.requested method
    rw [hGain]
    exact (List.Sublist.append_left hPrefix.sublist _).trans (hFits method)
  · rw [hExtends.same.index]
    rw [hAll] at hr
    rcases List.mem_append.mp hr with hOld | hNew
    · exact h.ever r hOld method name hName
    · have hAsked : name ∈ Gateway.requested method later := List.mem_flatMap.mpr ⟨r, hNew, hName⟩
      have hPrefix := requested_initial hLater method
      rw [requested_requests] at hPrefix
      exact (hFits method).subset (List.mem_append_right _ (hPrefix.subset hAsked))
  · rw [hAll] at hr
    rcases List.mem_append.mp hr with hOld | hNew
    · exact h.named r hOld
    · have hSome : chunk ≠ [] := by
        intro hNone
        rw [hEmpty hNone] at hNew
        exact nomatch hNew
      exact symbols_ne_nil_of_mem_requests hSome (hLater.subset hNew)
  · obtain ⟨used, hUsed, hIds, hBound⟩ := h.counter
    have hNew : later.map Request.id = block md.requestId later.length := by
      have hPrefix : later.map Request.id <+: block md.requestId (1 + (chunk.length + 3)) := by
        rw [← requests_ids]
        exact hLater.map _
      rw [block_of_initial hPrefix, List.length_map]
    have hCount : md'.requestCount = md.requestCount + later.length := by
      unfold requestCount
      rw [hAll, List.length_append]
    refine ⟨used + n, ?_, ?_, by omega⟩
    · rw [hId, hUsed, hBase, UInt64.ofNat_add, UInt64.add_assoc]
    · rw [hBase, block_add, ← hUsed]
      unfold requestIds at hIds ⊢
      rw [hAll, List.map_append, hNew]
      apply hIds.append
      obtain ⟨rest, hRest⟩ := Nat.exists_eq_add_of_le hLow
      rw [hRest, block_add]
      exact List.sublist_append_left _ _

theorem Contained.dropped {symbols : Symbols} {slack : Nat} {md : MarketData}
    (h : Contained symbols slack md) : Contained symbols slack md.dropped :=
  ⟨h.connection, h.ever, h.named, h.counter⟩

end MarketData

end RoqWhitebit.Gateway
