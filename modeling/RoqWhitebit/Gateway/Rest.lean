import RoqWhitebit.Gateway.Controller

/-!
# Market-info acknowledgements

The handler of a market-info acknowledgement dispatches reference data for every
item, adds the names it does not discard to the known ones, and hands those that
are new to the controller once the loop is over.

An item comes with the answer of `discard_symbol` for it, which belongs to the
dispatcher.
-/

namespace RoqWhitebit.Gateway

open RoqWhitebit.General
open RoqWhitebit.Protocol.Json

/-- An item and whether the dispatcher discards it. -/
abbrev AckItem := MarketInfoAckItem × Bool

/-- The names that are not discarded. -/
def kept (items : List AckItem) : List Symbol :=
  (items.filter fun item => !item.2).map fun item => item.1.name

theorem kept_cons_discarded {item : AckItem} {items : List AckItem}
    (h : item.2 = true) : kept (item :: items) = kept items := by
  unfold kept
  rw [List.filter_cons_of_neg (by simp [h])]

theorem kept_cons_kept {item : AckItem} {items : List AckItem} (h : item.2 = false) :
    kept (item :: items) = item.1.name :: kept items := by
  unfold kept
  rw [List.filter_cons_of_pos (by simp [h]), List.map_cons]

namespace Controller

/-- `create_trace_and_dispatch(shared_.dispatcher, ..., reference_data, true)` -/
def dispatch (item : MarketInfoAckItem) (discard : Bool) (c : Controller) : Controller :=
  { c with
    dispatched :=
      c.dispatched ++ [referenceData c.restStreamId c.exchange item discard] }

/-- One turn of the loop over the items. -/
def ackItem (item : MarketInfoAckItem) (discard : Bool) (symbols : List Symbol) :
    Throwing Exception Controller (List Symbol) := do
  call -- `discard_symbol`
  call -- the dispatch
  write (dispatch item discard)
  if discard then
    return symbols
  else if ← emplace item.name then
    call -- the `Symbol` constructor
    return symbols ++ [item.name]
  else
    return symbols

/-- The loop over the items. -/
def ackItems : List AckItem → List Symbol → Throwing Exception Controller (List Symbol)
  | [], symbols => pure symbols
  | (item, discard) :: items, symbols => do
      let symbols ← ackItem item discard symbols
      ackItems items symbols

/-- `Rest::operator()(Trace<MarketInfoAck>)` -/
def marketInfoAck (items : List AckItem) : Throwing Exception Controller Unit := do
  let symbols ← ackItems items []
  if symbols.isEmpty then pure ()
  else do
    call
    symbolsUpdate symbols

/-! ## The loop over the items -/

/-- The controller after one turn. -/
def noted (item : AckItem) (c : Controller) : Controller :=
  if item.2 then c.dispatch item.1 item.2
  else (c.dispatch item.1 item.2).learn item.1.name

/-- The controller after the loop. -/
def notedAll (items : List AckItem) (c : Controller) : Controller :=
  items.foldl (fun c item => c.noted item) c

@[simp] theorem dispatch_shared (item : MarketInfoAckItem) (discard : Bool)
    (c : Controller) : (c.dispatch item discard).shared = c.shared := rfl

@[simp] theorem noted_symbols (item : AckItem) (c : Controller) :
    (c.noted item).shared.symbols = c.shared.symbols := by
  unfold noted
  split <;> rfl

@[simp] theorem noted_marketData (item : AckItem) (c : Controller) :
    (c.noted item).marketData = c.marketData := by
  unfold noted
  split <;> rfl

@[simp] theorem notedAll_symbols (items : List AckItem) (c : Controller) :
    (c.notedAll items).shared.symbols = c.shared.symbols := by
  induction items generalizing c with
  | nil => rfl
  | cons item items ih => exact (ih (c.noted item)).trans (noted_symbols item c)

@[simp] theorem notedAll_marketData (items : List AckItem) (c : Controller) :
    (c.notedAll items).marketData = c.marketData := by
  induction items generalizing c with
  | nil => rfl
  | cons item items ih => exact (ih (c.noted item)).trans (noted_marketData item c)

theorem mem_notedAll_allSymbols {x : Symbol} {items : List AckItem} {c : Controller} :
    x ∈ (c.notedAll items).shared.allSymbols ↔
      x ∈ c.shared.allSymbols ∨ x ∈ kept items := by
  induction items generalizing c with
  | nil => simp [notedAll, kept]
  | cons item items ih =>
      show x ∈ ((c.noted item).notedAll items).shared.allSymbols ↔ _
      rw [ih]
      cases hDiscard : item.2 with
      | true =>
          rw [kept_cons_discarded hDiscard, noted, if_pos hDiscard, dispatch_shared]
      | false =>
          rw [kept_cons_kept hDiscard, noted,
            if_neg (by rw [hDiscard]; exact Bool.false_ne_true), mem_learn_allSymbols,
            dispatch_shared, List.mem_cons, or_comm (a := x = item.1.name), or_assoc]

/-- The number of calls up to the point where the first new name becomes known: two
for every item before, and two for the item itself. -/
def callsBeforeNew (known : Finset Symbol) : List AckItem → Nat
  | [] => 0
  | (item, discard) :: items =>
      if discard = true ∨ item.name ∈ known then 2 + callsBeforeNew known items else 2

/-- The number of calls the loop makes. -/
def ackCalls (known : Finset Symbol) (items : List AckItem) : Nat :=
  2 * items.length + (fresh known (kept items)).length

/-- What the loop leaves behind if call `k` throws: nothing has been delivered, and a
new name is known as soon as the loop has come that far. -/
structure Interrupted (c : Controller) (items : List AckItem) (k : Nat)
    (c' : Controller) : Prop where
  symbols : c'.shared.symbols = c.shared.symbols
  marketData : c'.marketData = c.marketData
  known : ∀ x ∈ c.shared.allSymbols, x ∈ c'.shared.allSymbols
  before : k < callsBeforeNew c.shared.allSymbols items →
    c'.shared.allSymbols = c.shared.allSymbols
  after : callsBeforeNew c.shared.allSymbols items ≤ k →
    ∃ x ∈ c'.shared.allSymbols, x ∉ c.shared.allSymbols

/-- A turn that adds no name only uses up its two calls. -/
theorem Interrupted.of_same {c c' t : Controller} {item : AckItem}
    {items : List AckItem} {k : Nat} (h : Interrupted c' items k t)
    (hSymbols : c'.shared.symbols = c.shared.symbols)
    (hMarketData : c'.marketData = c.marketData)
    (hKnown : c'.shared.allSymbols = c.shared.allSymbols)
    (hCalls : callsBeforeNew c.shared.allSymbols (item :: items) =
      2 + callsBeforeNew c.shared.allSymbols items) :
    Interrupted c (item :: items) (2 + k) t where
  symbols := h.symbols.trans hSymbols
  marketData := h.marketData.trans hMarketData
  known x hx := h.known x (by rw [hKnown]; exact hx)
  before hk := by
    rw [← hKnown]
    apply h.before
    rw [hKnown]
    omega
  after hk := by
    rw [← hKnown]
    apply h.after
    rw [hKnown]
    omega

/-- Nothing has happened yet. -/
theorem Interrupted.refl {c : Controller} {item : AckItem} {items : List AckItem}
    {k : Nat} (hk : k < 2) : Interrupted c (item :: items) k c where
  symbols := rfl
  marketData := rfl
  known _ hx := hx
  before _ := rfl
  after h := by
    obtain ⟨item, discard⟩ := item
    unfold callsBeforeNew at h
    split at h <;> omega

/-- A turn whose name is discarded or known. -/
theorem calls_ackItem_old {item : MarketInfoAckItem} {discard : Bool} {c : Controller}
    (symbols : List Symbol) (hOld : discard = true ∨ item.name ∈ c.shared.allSymbols) :
    Calls (ackItem item discard symbols) c 2 symbols (c.noted (item, discard))
      (fun _ c' => c' = c) := by
  unfold ackItem
  refine Calls.after_call (by rfl) (Calls.after_call (by rfl) ?_)
  apply Calls.after_write
  cases discard with
  | true => exact calls_pure _ _ _
  | false =>
      have hKnown : item.name ∈ (c.dispatch item false).shared.allSymbols :=
        hOld.resolve_left Bool.false_ne_true
      rw [if_neg Bool.false_ne_true]
      apply Calls.after_free (emplace_apply item.name _)
      rw [if_neg (by rw [decide_eq_true_eq]; exact fun h => h hKnown)]
      exact calls_pure _ _ _

/-- A turn whose name is new: the name is known before the `Symbol` is constructed. -/
theorem calls_ackItem_new {item : MarketInfoAckItem} {c : Controller}
    (symbols : List Symbol) (hNew : item.name ∉ c.shared.allSymbols) :
    Calls (ackItem item false symbols) c 3 (symbols ++ [item.name])
      (c.noted (item, false))
      (fun k c' => k < 2 ∧ c' = c ∨ k = 2 ∧ c' = c.noted (item, false)) := by
  unfold ackItem
  refine Calls.after_call (.inl ⟨by omega, rfl⟩) (Calls.after_call (.inl ⟨by omega, rfl⟩) ?_)
  apply Calls.after_write
  rw [if_neg Bool.false_ne_true]
  apply Calls.after_free (emplace_apply item.name _)
  rw [if_pos (by simp [hNew])]
  apply Calls.after_call (.inr ⟨rfl, rfl⟩)
  exact calls_pure _ _ _

theorem noted_allSymbols_old {item : MarketInfoAckItem} {discard : Bool} {c : Controller}
    (hOld : discard = true ∨ item.name ∈ c.shared.allSymbols) :
    (c.noted (item, discard)).shared.allSymbols = c.shared.allSymbols := by
  cases discard with
  | true => rfl
  | false => exact Finset.insert_eq_of_mem (hOld.resolve_left Bool.false_ne_true)

section Turns

variable {item : MarketInfoAckItem} {discard : Bool} {items : List AckItem}
  {known : Finset Symbol}

theorem fresh_kept_old (hOld : discard = true ∨ item.name ∈ known) :
    fresh known (kept ((item, discard) :: items)) = fresh known (kept items) := by
  cases discard with
  | true => rw [kept_cons_discarded rfl]
  | false =>
      rw [kept_cons_kept rfl, fresh, if_pos (hOld.resolve_left Bool.false_ne_true)]

theorem fresh_kept_new (hNew : item.name ∉ known) :
    fresh known (kept ((item, false) :: items)) =
      item.name :: fresh (insert item.name known) (kept items) := by
  rw [kept_cons_kept rfl, fresh, if_neg hNew]

theorem ackCalls_old (hOld : discard = true ∨ item.name ∈ known) :
    ackCalls known ((item, discard) :: items) = 2 + ackCalls known items := by
  unfold ackCalls
  rw [fresh_kept_old hOld, List.length_cons]
  omega

theorem ackCalls_new (hNew : item.name ∉ known) :
    ackCalls known ((item, false) :: items) =
      3 + ackCalls (insert item.name known) items := by
  unfold ackCalls
  rw [fresh_kept_new hNew, List.length_cons, List.length_cons]
  omega

theorem callsBeforeNew_old (hOld : discard = true ∨ item.name ∈ known) :
    callsBeforeNew known ((item, discard) :: items) = 2 + callsBeforeNew known items := by
  rw [callsBeforeNew, if_pos hOld]

theorem callsBeforeNew_new (hNew : item.name ∉ known) :
    callsBeforeNew known ((item, false) :: items) = 2 := by
  rw [callsBeforeNew, if_neg]
  rintro (hDiscard | hKnown)
  · exact nomatch hDiscard
  · exact hNew hKnown

end Turns

/-- From the turn of a new name on, that name is known. -/
theorem Interrupted.of_new {c t : Controller} {item : MarketInfoAckItem}
    {items : List AckItem} {k : Nat} (hNew : item.name ∉ c.shared.allSymbols)
    (hSymbols : t.shared.symbols = c.shared.symbols)
    (hMarketData : t.marketData = c.marketData)
    (hKnown : ∀ x ∈ (c.noted (item, false)).shared.allSymbols, x ∈ t.shared.allSymbols)
    (hk : 2 ≤ k) : Interrupted c ((item, false) :: items) k t where
  symbols := hSymbols
  marketData := hMarketData
  known x hx := hKnown x (Finset.mem_insert_of_mem hx)
  before h := by
    rw [callsBeforeNew_new hNew] at h
    omega
  after _ := ⟨item.name, hKnown item.name (Finset.mem_insert_self _ _), hNew⟩

/-- **The loop**: it makes `ackCalls` calls, and if one throws nothing has been
delivered, although a new name that has been reached is known. -/
theorem calls_ackItems (items : List AckItem) (symbols : List Symbol) (c : Controller) :
    Calls (ackItems items symbols) c (ackCalls c.shared.allSymbols items)
      (symbols ++ fresh c.shared.allSymbols (kept items)) (c.notedAll items)
      (Interrupted c items) := by
  induction items generalizing symbols c with
  | nil =>
      rw [show fresh c.shared.allSymbols (kept []) = [] from rfl, List.append_nil]
      exact calls_pure symbols c _
  | cons first items ih =>
      obtain ⟨item, discard⟩ := first
      by_cases hOld : discard = true ∨ item.name ∈ c.shared.allSymbols
      · have hSame := noted_allSymbols_old hOld
        have hRest := ih symbols (c.noted (item, discard))
        rw [hSame] at hRest
        rw [fresh_kept_old hOld, ackCalls_old hOld]
        apply Calls.bind (calls_ackItem_old symbols hOld)
        · refine ⟨hRest.returns, fun k e hk => ?_⟩
          obtain ⟨t, hThrow, ht⟩ := hRest.throws k e hk
          exact ⟨t, hThrow, ht.of_same (noted_symbols _ c) (noted_marketData _ c) hSame
            (callsBeforeNew_old hOld)⟩
        · rintro k t hk rfl
          exact Interrupted.refl hk
      · have hNew : item.name ∉ c.shared.allSymbols := fun h => hOld (.inr h)
        obtain rfl : discard = false := Bool.eq_false_iff.mpr fun h => hOld (.inl h)
        have hRest := ih (symbols ++ [item.name]) (c.noted (item, false))
        rw [List.append_assoc] at hRest
        rw [fresh_kept_new hNew, ackCalls_new hNew]
        apply Calls.bind (calls_ackItem_new symbols hNew)
        · refine ⟨hRest.returns, fun k e hk => ?_⟩
          obtain ⟨t, hThrow, ht⟩ := hRest.throws k e hk
          exact ⟨t, hThrow, .of_new hNew (ht.symbols.trans (noted_symbols _ c))
            (ht.marketData.trans (noted_marketData _ c)) ht.known (by omega)⟩
        · rintro k t _ (⟨hk, rfl⟩ | ⟨rfl, rfl⟩)
          · exact Interrupted.refl hk
          · exact .of_new hNew (noted_symbols _ c) (noted_marketData _ c)
              (fun _ h => h) (by omega)

/-! ## The handler when nothing throws -/

/-- The controller after an acknowledgement. -/
def acked (items : List AckItem) (c : Controller) : Controller :=
  if (fresh c.shared.allSymbols (kept items)).isEmpty then c.notedAll items
  else (c.notedAll items).updated (fresh c.shared.allSymbols (kept items))

theorem marketInfoAck_quiet (items : List AckItem) (c : Controller) :
    marketInfoAck items ⟨c, none⟩ = .ok () ⟨c.acked items, none⟩ := by
  unfold marketInfoAck acked
  rw [bind_quiet (calls_ackItems items [] c).quiet, List.nil_append]
  cases (fresh c.shared.allSymbols (kept items)).isEmpty with
  | true => rfl
  | false => exact symbolsUpdate_quiet _ _

/-! ## The handler when something throws -/

/-- How the handler ends, by the call that throws: in the loop, on the way to the
controller, while streams are created, or after that or not at all. -/
inductive AckEnd (c : Controller) (items : List AckItem) :
    Option (Nat × Exception) →
      EStateM.Result Exception (Fused Exception Controller) Unit → Prop
  | interrupted {k : Nat} {e : Exception} {c' : Controller} :
      k < ackCalls c.shared.allSymbols items → Interrupted c items k c' →
      AckEnd c items (some (k, e)) (.error e ⟨c', none⟩)
  | nothingNew {fuse : Option (Nat × Exception)} :
      fresh c.shared.allSymbols (kept items) = [] →
      Lasts (ackCalls c.shared.allSymbols items) fuse →
      AckEnd c items fuse
        (.ok () ⟨c.notedAll items, burn (ackCalls c.shared.allSymbols items) fuse⟩)
  | undelivered {e : Exception} :
      fresh c.shared.allSymbols (kept items) ≠ [] →
      AckEnd c items (some (ackCalls c.shared.allSymbols items, e))
        (.error e ⟨c.notedAll items, none⟩)
  | unstreamed {k m : Nat} {e : Exception} {c' : Controller} :
      fresh c.shared.allSymbols (kept items) ≠ [] →
      ackCalls c.shared.allSymbols items < k →
      k < ackCalls c.shared.allSymbols items + 1 +
        2 * (c.notedAll items).missing (fresh c.shared.allSymbols (kept items)) →
      c'.shared = ((c.notedAll items).enlarged
        (fresh c.shared.allSymbols (kept items))).shared →
      m < (c.notedAll items).missing (fresh c.shared.allSymbols (kept items)) →
      c'.marketData = (((c.notedAll items).setSymbols (c.shared.symbols.append
        (fresh c.shared.allSymbols (kept items)))).withStreams m).marketData →
      AckEnd c items (some (k, e)) (.error e ⟨c', none⟩)
  | streamed {fuse : Option (Nat × Exception)}
      {r : EStateM.Result Exception (Fused Exception Controller) Unit} :
      fresh c.shared.allSymbols (kept items) ≠ [] →
      Lasts (ackCalls c.shared.allSymbols items + 1 +
        2 * (c.notedAll items).missing (fresh c.shared.allSymbols (kept items))) fuse →
      (finalState r).shared = ((c.notedAll items).enlarged
        (fresh c.shared.allSymbols (kept items))).shared →
      List.Forall₂ MarketData.SameStream ((c.notedAll items).enlarged
        (fresh c.shared.allSymbols (kept items))).marketData (finalState r).marketData →
      AckEnd c items fuse r

theorem marketInfoAck_ends (items : List AckItem) (c : Controller)
    (fuse : Option (Nat × Exception)) :
    AckEnd c items fuse (marketInfoAck items ⟨c, fuse⟩) := by
  have hLoop := calls_ackItems items [] c
  have hDeliver : Calls (call : Throwing Exception Controller Unit) (c.notedAll items) 1 ()
      (c.notedAll items) (fun _ _ => True) := calls_call trivial
  unfold marketInfoAck
  rcases lasts_or_throws (ackCalls c.shared.allSymbols items) fuse with
    hLasts | ⟨k, e, rfl, hk⟩
  · rw [hLoop.bind_of_lasts _ hLasts, List.nil_append]
    by_cases hNone : fresh c.shared.allSymbols (kept items) = []
    · rw [hNone]
      exact .nothingNew hNone hLasts
    · rw [if_neg (by rw [List.isEmpty_iff]; exact hNone)]
      rcases lasts_or_throws (ackCalls c.shared.allSymbols items + 1) fuse with
        hCalled | ⟨k, e, rfl, hk⟩
      · rw [hDeliver.bind_of_lasts _ hCalled.burn, burn_burn]
        rcases lasts_or_throws (ackCalls c.shared.allSymbols items + 1 +
            2 * (c.notedAll items).missing (fresh c.shared.allSymbols (kept items))) fuse with
          hStreamed | ⟨k, e, rfl, hk⟩
        · obtain ⟨hShared, hData⟩ := symbolsUpdate_streamed hStreamed.burn
          exact .streamed hNone hStreamed hShared hData
        · have hLate : ackCalls c.shared.allSymbols items + 1 ≤ k := hCalled
          have hRest : k - (ackCalls c.shared.allSymbols items + 1) <
              2 * (c.notedAll items).missing (fresh c.shared.allSymbols (kept items)) := by
            omega
          obtain ⟨c', hThrow, hShared, m, hm, hData⟩ := symbolsUpdate_unstreamed e hRest
          rw [notedAll_symbols] at hData
          show AckEnd c items (some (k, e)) (symbolsUpdate _ ⟨_, some (_, e)⟩)
          rw [hThrow]
          exact .unstreamed hNone hLate hk (by rw [enlarged_shared]; exact hShared) hm hData
      · have hLate : ackCalls c.shared.allSymbols items ≤ k := hLasts
        obtain rfl : k = ackCalls c.shared.allSymbols items := by omega
        show AckEnd c items _ ((call >>= fun _ => symbolsUpdate _)
          ⟨_, some (ackCalls c.shared.allSymbols items - _, e)⟩)
        rw [Nat.sub_self]
        exact .undelivered hNone
  · obtain ⟨c', hThrow, hInterrupted⟩ := hLoop.bind_of_lt _ e hk
    rw [hThrow]
    exact .interrupted hk hInterrupted

end Controller

end RoqWhitebit.Gateway
