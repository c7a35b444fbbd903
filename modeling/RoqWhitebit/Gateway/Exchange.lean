import RoqWhitebit.Gateway.Failures

/-!
# What the exchange hears

The exchange does not see requests but texts.  It reads each as JSON, looks for a method
and for parameters, and takes a list of symbols as what its method is subscribed to from
now on, and a symbol whose parameters end in `true` as one more.  Any other text, a ping
among them, changes nothing.

For symbols that are plain this comes to the same as receiving the requests themselves, so
that what has been shown of requests holds of the texts on the wire.
-/

namespace RoqWhitebit.Gateway

open RoqWhitebit.General
open RoqWhitebit.General.Json

/-! ## The exchange as a reader -/

/-- The method a name on the wire stands for. -/
def SubscribeMethod.ofText (text : String) : Option SubscribeMethod :=
  [.bookTicker, .depth, .trades, .market, .marketToday].find? fun method => method.text = text

/-- The symbols, if the parameters are nothing else. -/
def symbolsOf : List Tree → Option (List Symbol)
  | [] => some []
  | .string symbol :: params => (symbolsOf params).map (symbol :: ·)
  | _ :: _ => none

/-- What a method with these parameters makes of the active symbols. -/
def serve (a : Active) (method : SubscribeMethod) (params : List Tree) : Active :=
  match params with
  | [.string symbol, .number _, .string _, .bool true] =>
      fun m => if m = method then insert symbol (a m) else a m
  | params =>
      match symbolsOf params with
      | some symbols => fun m => if m = method then symbols.toFinset else a m
      | none => a

/-- The exchange hears a text. -/
def hear (r : Resolution) (a : Active) (text : String) : Active :=
  match read text with
  | some (.object members) =>
      match r.pick members "method", r.pick members "params" with
      | some (.string name), some (.array params) =>
          match SubscribeMethod.ofText name with
          | some method => serve a method params
          | none => a
      | _, _ => a
  | _ => a

/-! ## Requests and pings -/

theorem ofText_text (method : SubscribeMethod) :
    SubscribeMethod.ofText method.text = some method := by
  cases method <;> decide

theorem symbolsOf_strings (symbols : List Symbol) :
    symbolsOf (symbols.map .string) = some symbols := by
  induction symbols with
  | nil => rfl
  | cons symbol symbols ih =>
      rw [List.map_cons, symbolsOf, ih]
      rfl

theorem serve_strings (a : Active) (method : SubscribeMethod) (symbols : List Symbol) :
    serve a method (symbols.map .string) =
      fun m => if m = method then symbols.toFinset else a m := by
  have hSymbols := symbolsOf_strings symbols
  match symbols with
  | [] => rfl
  | [symbol] => rfl
  | symbol :: other :: symbols =>
      show (match symbolsOf ((symbol :: other :: symbols).map .string) with
        | some symbols => fun m => if m = method then symbols.toFinset else a m
        | none => a) = _
      rw [hSymbols]

/-- A text that decodes to a request is served by its method and parameters. -/
theorem hear_of_decodes {r : Resolution} {text name : String} {id : ℕ} {params : List Tree}
    (h : Decodes r text (requestFields id name params)) (a : Active) :
    hear r a text =
      match SubscribeMethod.ofText name with
      | some method => serve a method params
      | none => a := by
  obtain ⟨members, hRead, hFields⟩ := h
  have hMethod : r.pick members "method" = some (.string name) := hFields "method"
  have hParams : r.pick members "params" = some (.array params) := hFields "params"
  unfold hear
  rw [hRead]
  simp only [hMethod, hParams]

/-- A request that is understood is received. -/
theorem hear_request {r : Resolution} {request : Request}
    (h : Decodes r request.text request.fields) (a : Active) :
    hear r a request.text = receive a request := by
  cases request with
  | list id method params =>
      rw [hear_of_decodes h, ofText_text]
      exact serve_strings a method params
  | level id method symbol limit =>
      rw [hear_of_decodes h, ofText_text]
      rfl

/-- A ping changes nothing. -/
theorem hear_ping (r : Resolution) (a : Active) : hear r a MarketData.pingMessage = a := by
  have hNone : SubscribeMethod.ofText "ping" = none := by decide
  rw [hear_of_decodes (ping_decodes r), hNone]

/-- **What is on the wire**: pings may stand anywhere among the requests. -/
theorem heard_eq_received (r : Resolution) {texts : List String} {sent : List Request}
    (hWire : texts.filter (fun text => text ≠ MarketData.pingMessage) = sent.map Request.text)
    (hUnderstood : ∀ request ∈ sent, Decodes r request.text request.fields) (a : Active) :
    texts.foldl (hear r) a = sent.foldl receive a := by
  have hPings := run_filter (hear r) (fun text => text ≠ MarketData.pingMessage)
    (fun a text hPing => by
      have hText : text = MarketData.pingMessage := by simpa using hPing
      rw [hText]
      exact hear_ping r a) a texts
  show run (hear r) a texts = _
  rw [← hPings, hWire]
  clear hWire hPings
  induction sent generalizing a with
  | nil => rfl
  | cons request sent ih =>
      have hHead := hear_request (hUnderstood request List.mem_cons_self) a
      rw [List.map_cons, run_cons, hHead]
      exact ih (fun other hOther => hUnderstood other (List.mem_cons_of_mem _ hOther)) _

/-! ## Runs -/

theorem Request.mem_symbols_iff {request : Request} {name : Symbol} :
    name ∈ request.symbols ↔ ∃ method, name ∈ request.asks method := by
  cases request with
  | list id m symbols =>
      constructor
      · intro h
        exact ⟨m, by simpa [asks, Request.symbols] using h⟩
      · rintro ⟨method, h⟩
        by_cases hMethod : m = method
        · simpa [asks, Request.symbols, hMethod] using h
        · simp [asks, hMethod] at h
  | level id m symbol limit =>
      constructor
      · intro h
        exact ⟨m, by simpa [asks, Request.symbols] using h⟩
      · rintro ⟨method, h⟩
        by_cases hMethod : m = method
        · simpa [asks, Request.symbols, hMethod] using h
        · simp [asks, hMethod] at h

/-- The requests of a stream are understood exactly if what it asks for is plain. -/
theorem Orderly.understood_iff {limit : Nat} {offered : Symbol → Prop} {failures : Nat}
    {c : Controller} (h : Orderly limit offered failures c) (r : Resolution) {md : MarketData}
    (hMem : md ∈ c.marketData) :
    (∀ request ∈ md.sentBefore ++ md.sent, Decodes r request.text request.fields) ↔
      ∀ name, md.everAsked name → Plain name.toList := by
  have hNamed := (h.streams md hMem).named
  constructor
  · intro hAll name hAsked
    obtain ⟨request, hSent, hName⟩ := hAsked
    exact (Request.text_decodes_iff r (hNamed request hSent)).mp (hAll request hSent) name
      (Request.mem_symbols_iff.mpr hName)
  · intro hPlain request hSent
    apply (Request.text_decodes_iff r (hNamed request hSent)).mpr
    intro name hName
    exact hPlain name ⟨request, hSent, Request.mem_symbols_iff.mp hName⟩

/--
**Texts of a run.**  From the start, after any events of which any call may have thrown,
all texts that a stream has ever sent are read as the requests they were meant to be if
and only if no symbol it has asked for has a quotation mark, a backslash or a control
character.
-/
theorem texts_understood_iff (r : Resolution) (maxSubscriptions : Nat)
    (hMax : 0 < maxSubscriptions) (exchange : String) (attempts : List Attempt) :
    ∀ md ∈ (run Trial.step (.start maxSubscriptions hMax exchange) attempts).gateway.marketData,
      (∀ request ∈ md.sentBefore ++ md.sent, Decodes r request.text request.fields) ↔
        ∀ name, md.everAsked name → Plain name.toList :=
  fun _ hMem => (orderly_run maxSubscriptions hMax exchange attempts).understood_iff r hMem

theorem texts_understood_iff_cut_short_thrice :
    0 < 2 ∧ ∀ md ∈ (run Trial.step (.start 2 (by decide) "whitebit")
        cutShortThrice).gateway.marketData,
      (∀ request ∈ md.sentBefore ++ md.sent, Decodes .last request.text request.fields) ↔
        ∀ name, md.everAsked name → Plain name.toList :=
  ⟨by decide, texts_understood_iff .last 2 (by decide) "whitebit" cutShortThrice⟩

/--
**The exchange hears what the gateway says.**  If only plain symbols are offered then,
after any events of which any call may have thrown, an exchange that has read the texts of
a connection, with pings anywhere among them, has active what the requests of that
connection say.
-/
theorem exchange_hears (r : Resolution) (maxSubscriptions : Nat) (hMax : 0 < maxSubscriptions)
    (exchange : String) (attempts : List Attempt)
    (hPlain : ∀ name, Offered attempts name → Plain name.toList) :
    ∀ md ∈ (run Trial.step (.start maxSubscriptions hMax exchange) attempts).gateway.marketData,
      ∀ texts : List String,
        texts.filter (fun text => text ≠ MarketData.pingMessage) = md.sent.map Request.text →
        texts.foldl (hear r) (fun _ => ∅) = active md.sent := by
  intro md hMem texts hWire
  have hOrderly := orderly_run maxSubscriptions hMax exchange attempts
  have hUnderstood := (hOrderly.understood_iff r hMem).mpr fun name hAsked =>
    hPlain name (hOrderly.askedOnce.offered md hMem name hAsked)
  exact heard_eq_received r hWire
    (fun request hSent => hUnderstood request (List.mem_append_right _ hSent)) _

theorem exchange_hears_cut_short_thrice :
    0 < 2 ∧ (∀ name, Offered cutShortThrice name → Plain name.toList) ∧
    ∀ md ∈ (run Trial.step (.start 2 (by decide) "whitebit") cutShortThrice).gateway.marketData,
      ∀ texts : List String,
        texts.filter (fun text => text ≠ MarketData.pingMessage) = md.sent.map Request.text →
        texts.foldl (hear .last) (fun _ => ∅) = active md.sent := by
  have hPlain (name : Symbol) (hName : Offered cutShortThrice name) : Plain name.toList := by
    simp only [Offered, cutShortThrice, Event.offered, kept, named, List.mem_cons,
      List.not_mem_nil, or_false, exists_eq_or_imp, exists_eq_left] at hName
    have hAll : name = "A" ∨ name = "C" ∨ name = "D" ∨ name = "E" := by
      revert hName
      simp
      tauto
    rcases hAll with rfl | rfl | rfl | rfl <;> decide
  exact ⟨by decide, hPlain, exchange_hears .last 2 (by decide) "whitebit" cutShortThrice hPlain⟩

end RoqWhitebit.Gateway
