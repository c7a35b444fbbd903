import RoqWhitebit.General.JsonReader
import RoqWhitebit.Gateway.MarketData

/-!
# The texts of the requests

A stream writes its requests by pasting symbols between quotation marks.  Nothing is
escaped, so what the exchange reads is what was meant exactly if every symbol is
plain: it has no quotation mark, no backslash and no control character.

That no other symbol gets through is a matter of length.  A reader needs two characters
for every special one, and those of the text are all used up.
-/

namespace RoqWhitebit.Gateway

open RoqWhitebit.General.Json

namespace MarketData

/-- `subscribe(method, symbols)`: the text it writes. -/
def listMessage (id : UInt64) (method : String) (symbols : List Symbol) : String :=
  "\x7b" ++
    "\"id\":" ++ toString id.toNat ++ "," ++
    "\"method\":\"" ++ method ++ "\"," ++
    "\"params\":[\"" ++ "\",\"".intercalate symbols ++ "\"]" ++
    "\x7d"

/-- `subscribe(method, symbols, limit)`: the text it writes for one symbol. -/
def levelMessage (id : UInt64) (method : String) (symbol : Symbol) (limit : Nat) :
    String :=
  "\x7b" ++
    "\"id\":" ++ toString id.toNat ++ "," ++
    "\"method\":\"" ++ method ++ "\"," ++
    "\"params\":[\"" ++ symbol ++ "\"," ++ toString limit ++
    ",\"0\",true]" ++  -- the price interval, and that the subscription is added
    "\x7d"

/-- The identifier `send_ping` writes. -/
def pingId : UInt64 := 0

/-- `send_ping`: the text it writes. -/
def pingMessage : String :=
  "\x7b" ++
    "\"id\":0," ++
    "\"method\":\"ping\"," ++
    "\"params\":[]" ++
    "\x7d"

end MarketData

/-- The text of a request. -/
def Request.text : Request → String
  | .list id method params => MarketData.listMessage id method.text params
  | .level id method symbol limit => MarketData.levelMessage id method.text symbol limit

/-! ## A request and its parameters -/

/-- The members a request starts with, and whatever follows them. -/
def requestChars (id : ℕ) (method : String) (params : List Char) : List Char :=
  '{' :: '"' :: ("id".toList ++ '"' :: ':' :: (Nat.toDigits 10 id ++ ',' :: '"' ::
    ("method".toList ++ '"' :: ':' :: '"' :: (method.toList ++ '"' :: ',' :: '"' ::
      ("params".toList ++ '"' :: ':' :: (params ++ ['}']))))))

/-- The parameters of the list-style request. -/
def listChars (symbols : List Symbol) : List Char :=
  '[' :: '"' :: (List.intercalate "\",\"".toList (symbols.map String.toList) ++ ['"', ']'])

/-- What follows the symbol in the parameters of the depth-style request. -/
def levelTail (limit : ℕ) : List Char :=
  ',' :: (Nat.toDigits 10 limit ++ [',', '"', '0', '"', ',', 't', 'r', 'u', 'e', ']'])

/-- The parameters of the depth-style request. -/
def levelChars (symbol : Symbol) (limit : ℕ) : List Char :=
  '[' :: '"' :: (symbol.toList ++ '"' :: levelTail limit)

theorem listMessage_toList (id : UInt64) (method : String) (symbols : List Symbol) :
    (MarketData.listMessage id method symbols).toList =
      requestChars id.toNat method (listChars symbols) := by
  delta MarketData.listMessage
  simp [requestChars, listChars, String.toList_intercalate]

theorem levelMessage_toList (id : UInt64) (method : String) (symbol : Symbol)
    (limit : ℕ) :
    (MarketData.levelMessage id method symbol limit).toList =
      requestChars id.toNat method (levelChars symbol limit) := by
  delta MarketData.levelMessage
  simp [requestChars, levelChars, levelTail]

/-! ## Reading a request -/

section Request

variable {method : String} (hMethod : Plain method.toList) (id : ℕ) (params : List Char)

theorem skipSpace_requestChars :
    skipSpace (requestChars id method params) = requestChars id method params :=
  skipSpace_cons (by decide)

include hMethod

/-- A request whose parameters are read has the three members. -/
theorem reads_request {p : Tree}
    (hParams : Reads (skipSpace (params ++ ['}'])) (.value p) ['}']) :
    Reads (requestChars id method params)
      (.value (.object [("id", .number id), ("method", .string method),
        ("params", p)])) [] := by
  have hId : Plain "id".toList := by decide
  have hName : Plain "method".toList := by decide
  have hLast : Plain "params".toList := by decide
  apply Reads.object rfl
  rw [skipSpace_cons (by decide)]
  rw [← String.ofList_toList (s := "id"), ← String.ofList_toList (s := "method"),
    ← String.ofList_toList (s := "params")]
  apply Reads.member (readString_plain hId _) (skipSpace_cons (by decide))
  · rw [skipSpace_toDigits]
    exact reads_toDigits id _
  · exact skipSpace_cons (by decide)
  · rw [skipSpace_cons (by decide)]
    apply Reads.member (readString_plain hName _) (skipSpace_cons (by decide))
    · rw [skipSpace_cons (by decide)]
      exact reads_plain hMethod _
    · exact skipSpace_cons (by decide)
    · rw [skipSpace_cons (by decide)]
      exact Reads.lastMember (readString_plain hLast _) (skipSpace_cons (by decide)) hParams
        (skipSpace_cons (by decide))

/-- Whatever a request is read as starts with the two members that do not depend on
symbols. -/
theorem members_of_request {ms : List (String × Tree)} {rest : List Char}
    (h : Reads (requestChars id method params) (.value (.object ms)) rest) :
    ∃ ms', ms = ("id", .number id) :: ("method", .string method) :: ms' ∧
      Reads ('"' :: ("params".toList ++ '"' :: ':' :: (params ++ ['}']))) (.members ms')
        rest := by
  have hId : Plain "id".toList := by decide
  have hName : Plain "method".toList := by decide
  have hMembers := h.members_of_object
  obtain ⟨ms₁, rfl, hTail⟩ := hMembers.members_tail (readString_plain hId _)
    (skipSpace_cons (by decide)) (by rw [skipSpace_toDigits]; exact reads_toDigits id _)
    (skipSpace_cons (by decide))
  rw [skipSpace_cons (by decide)] at hTail
  obtain ⟨ms₂, rfl, hLast⟩ := hTail.members_tail (readString_plain hName _)
    (skipSpace_cons (by decide))
    (by rw [skipSpace_cons (by decide)]; exact reads_plain hMethod _)
    (skipSpace_cons (by decide))
  rw [skipSpace_cons (by decide)] at hLast
  exact ⟨ms₂, by rw [String.ofList_toList, String.ofList_toList], hLast⟩

/-- What a request should decode to. -/
def requestFields (id : ℕ) (method : String) (params : List Tree) :
    List (String × Tree) :=
  [("id", .number id), ("method", .string method), ("params", .array params)]

variable {id params} {text : String} (hText : text.toList = requestChars id method params)
  (r : Resolution) {vs : List Tree}

include hText

theorem decodes_request
    (hParams : Reads (skipSpace (params ++ ['}'])) (.value (.array vs)) ['}']) :
    Decodes r text (requestFields id method vs) := by
  apply decodes_of_read r
  · rw [read_eq_some_iff, hText, skipSpace_requestChars]
    exact ⟨[], reads_request hMethod id params hParams, rfl⟩
  · show ["id", "method", "params"].Nodup
    decide

/-- If a request decodes then its parameters are the value of a member that is read
after the other two. -/
theorem params_of_decodes (h : Decodes r text (requestFields id method vs)) :
    ∃ ms rest, Reads ('"' :: ("params".toList ++ '"' :: ':' :: (params ++ ['}'])))
      (.members ms) rest ∧ ("params", .array vs) ∈ ms := by
  obtain ⟨ms, hRead, hFields⟩ := h
  rw [read_eq_some_iff, hText, skipSpace_requestChars] at hRead
  obtain ⟨rest, hReads, _⟩ := hRead
  obtain ⟨ms', rfl, hTail⟩ := members_of_request hMethod id params hReads
  have hMem := r.mem (hFields "params")
  refine ⟨ms', rest, hTail, ?_⟩
  rcases List.mem_cons.mp hMem with hId | hMem
  · exact absurd (Prod.mk.inj hId).1 (by decide)
  rcases List.mem_cons.mp hMem with hName | hMem
  · exact absurd (Prod.mk.inj hName).1 (by decide)
  · exact hMem

end Request

/-! ## The list-style request -/

/-- Plain symbols are read as the items they are. -/
theorem reads_items {symbols : List Symbol} (hSome : symbols ≠ [])
    (hPlain : ∀ symbol ∈ symbols, Plain symbol.toList) (rest : List Char) :
    Reads ('"' :: (List.intercalate "\",\"".toList (symbols.map String.toList) ++
      '"' :: ']' :: rest)) (.items (symbols.map .string)) rest := by
  induction symbols with
  | nil => exact absurd rfl hSome
  | cons symbol symbols ih =>
      have hHead : Plain symbol.toList := hPlain symbol List.mem_cons_self
      rw [List.map_cons, List.map_cons]
      cases symbols with
      | nil =>
          rw [List.map_nil, List.intercalate_singleton]
          exact Reads.lastItem (reads_plain hHead _) (skipSpace_cons (by decide))
      | cons next symbols =>
          have hTail := ih (List.cons_ne_nil _ _)
            fun s hs => hPlain s (List.mem_cons_of_mem symbol hs)
          rw [List.map_cons, List.intercalate_cons_cons, List.append_assoc, List.append_assoc]
          apply Reads.item (reads_plain hHead _) (skipSpace_cons (by decide))
          exact hTail

/-- The symbols of a list need the characters they have, and one more for every
special character. -/
theorem itemsWeight_strings {symbols : List Symbol} (hSome : symbols ≠ []) :
    itemsWeight (symbols.map .string) =
      (List.intercalate "\",\"".toList (symbols.map String.toList)).length + 3 +
        (symbols.map fun symbol => symbol.toList.countP special).sum := by
  induction symbols with
  | nil => exact absurd rfl hSome
  | cons symbol symbols ih =>
      rw [List.map_cons, List.map_cons, List.map_cons, List.sum_cons, itemsWeight,
        Tree.weight, weight]
      cases symbols with
      | nil =>
          rw [List.map_nil, List.map_nil, List.map_nil, List.intercalate_singleton,
            itemsWeight, List.sum_nil]
          omega
      | cons next symbols =>
          have hTail := ih (List.cons_ne_nil _ _)
          have hSeparator : "\",\"".toList.length = 3 := rfl
          rw [hTail, List.map_cons, List.intercalate_cons_cons, List.length_append,
            List.length_append, hSeparator]
          omega

/-- **Only plain symbols are read back.** -/
theorem plain_of_list {symbols : List Symbol} (hSome : symbols ≠ [])
    {ms : List (String × Tree)} {rest : List Char}
    (h : Reads ('"' :: ("params".toList ++ '"' :: ':' :: (listChars symbols ++ ['}'])))
      (.members ms) rest)
    (hMem : ("params", .array (symbols.map .string)) ∈ ms) :
    ∀ symbol ∈ symbols, Plain symbol.toList := by
  have hText := h.weight_le
  have hParams := weight_le_membersWeight hMem
  have hKey : weight "params".toList = 6 := by decide
  have hKeyLength : "params".toList.length = 6 := rfl
  have hItems := itemsWeight_strings hSome
  rw [hKey, Tree.weight] at hParams
  simp only [Phrase.weight, listChars, List.length_cons, List.length_append, hKeyLength,
    List.length_nil] at hText
  have hNone : (symbols.map fun symbol => symbol.toList.countP special).sum = 0 := by omega
  intro symbol hSymbol
  rw [List.sum_eq_zero_iff_forall_eq_nat] at hNone
  have hCount := hNone _ (List.mem_map_of_mem hSymbol)
  exact plain_of_weight_le (by unfold weight; omega)

/-- What the list-style request writes decodes to what was meant exactly if the symbols
are plain. -/
theorem listMessage_decodes_iff (r : Resolution) (id : UInt64) {method : String}
    (hMethod : Plain method.toList) {symbols : List Symbol} (hSome : symbols ≠ []) :
    Decodes r (MarketData.listMessage id method symbols)
        (requestFields id.toNat method (symbols.map .string)) ↔
      ∀ symbol ∈ symbols, Plain symbol.toList := by
  have hText := listMessage_toList id method symbols
  constructor
  · intro h
    obtain ⟨ms, rest, hReads, hMem⟩ := params_of_decodes hMethod hText r h
    exact plain_of_list hSome hReads hMem
  · intro hPlain
    apply decodes_request hMethod hText r
    have hItems := reads_items hSome hPlain ['}']
    unfold listChars
    rw [List.cons_append, skipSpace_cons (by decide)]
    apply Reads.array rfl
    rw [List.cons_append, skipSpace_cons (by decide), List.append_assoc]
    exact hItems

/-! ## The depth-style request -/

/-- A plain symbol is read together with the other parameters. -/
theorem reads_levelChars {symbol : Symbol} (hPlain : Plain symbol.toList) (limit : ℕ) :
    Reads (levelChars symbol limit ++ ['}'])
      (.value (.array [.string symbol, .number limit, .string "0", .bool true])) ['}'] := by
  have hTrue : Reads ['t', 'r', 'u', 'e', ']', '}'] (.items [.bool true]) ['}'] :=
    .lastItem (.scalar rfl) (skipSpace_cons (by decide))
  have hZero : Reads ['"', '0', '"', ',', 't', 'r', 'u', 'e', ']', '}']
      (.items [.string "0", .bool true]) ['}'] :=
    .item (.scalar rfl) (skipSpace_cons (by decide)) hTrue
  have hLimit : Reads (skipSpace (Nat.toDigits 10 limit ++
      [',', '"', '0', '"', ',', 't', 'r', 'u', 'e', ']', '}']))
      (.items [.number limit, .string "0", .bool true]) ['}'] := by
    rw [skipSpace_toDigits]
    exact .item (reads_toDigits limit _) (skipSpace_cons (by decide)) hZero
  have hSymbol : Reads ('"' :: (symbol.toList ++ '"' :: ',' :: (Nat.toDigits 10 limit ++
      [',', '"', '0', '"', ',', 't', 'r', 'u', 'e', ']', '}'])))
      (.items [.string symbol, .number limit, .string "0", .bool true]) ['}'] :=
    .item (reads_plain hPlain _) (skipSpace_cons (by decide)) hLimit
  have hText : levelChars symbol limit ++ ['}'] = '[' :: '"' :: (symbol.toList ++ '"' ::
      ',' :: (Nat.toDigits 10 limit ++
        [',', '"', '0', '"', ',', 't', 'r', 'u', 'e', ']', '}'])) := by
    simp [levelChars, levelTail]
  rw [hText]
  apply Reads.array rfl
  rw [skipSpace_cons (by decide)]
  exact hSymbol

/-- An end that starts with a character which is not in the first part. -/
theorem suffix_of_not_mem {α : Type*} {c : α} {xs ys zs : List α} (hMem : c ∉ xs)
    (h : c :: zs <:+ xs ++ ys) : c :: zs <:+ ys := by
  induction xs with
  | nil => exact h
  | cons x xs ih =>
      rw [List.mem_cons, not_or] at hMem
      rcases List.suffix_cons_iff.mp h with hWhole | hTail
      · exact absurd (List.cons.inj hWhole).1 hMem.1
      · exact ih hMem.2 hTail

/-- After the symbol, no quotation mark is followed by a comma and a number. -/
theorem not_number_of_suffix {limit : ℕ} {rest next : List Char}
    (hSuffix : '"' :: rest <:+ levelTail limit ++ ['}'])
    (hComma : skipSpace rest = ',' :: next) (x : ℚ) (rest' : List Char) :
    ¬ Reads (skipSpace next) (.value (.number x)) rest' := by
  have hDigits : '"' ∉ ',' :: Nat.toDigits 10 limit := by
    rw [List.mem_cons, not_or]
    refine ⟨by decide, fun hMem => ?_⟩
    exact nomatch Nat.isDigit_of_mem_toDigits (by omega) (by omega) hMem
  have hEnd : '"' :: rest <:+ [',', '"', '0', '"', ',', 't', 'r', 'u', 'e', ']', '}'] := by
    apply suffix_of_not_mem hDigits
    simpa [levelTail] using hSuffix
  have hRest : rest = ['0', '"', ',', 't', 'r', 'u', 'e', ']', '}'] ∨
      rest = [',', 't', 'r', 'u', 'e', ']', '}'] := by
    simpa [List.suffix_cons_iff] using hEnd
  rcases hRest with rfl | rfl
  · rw [skipSpace_cons (by decide)] at hComma
    exact absurd (List.cons.inj hComma).1 (by decide)
  · rw [skipSpace_cons (by decide)] at hComma
    obtain rfl := (List.cons.inj hComma).2
    intro hNumber
    have hTrue : Reads ['t', 'r', 'u', 'e', ']', '}'] (.value (.bool true)) [']', '}'] :=
      .scalar rfl
    rw [skipSpace_cons (by decide)] at hNumber
    exact nomatch (hNumber.unique hTrue).1

/-- **Only a plain symbol is read back.** -/
theorem plain_of_level {symbol : Symbol} {limit : ℕ}
    {ms : List (String × Tree)} {rest : List Char}
    (h : Reads ('"' :: ("params".toList ++ '"' :: ':' :: (levelChars symbol limit ++ ['}'])))
      (.members ms) rest)
    (hMem : ("params", .array [.string symbol, .number limit, .string "0", .bool true]) ∈ ms) :
    Plain symbol.toList := by
  obtain ⟨text, rest', hSuffix, hArray⟩ := h.exists_of_mem hMem
  obtain ⟨text', rfl, hItems⟩ := hArray.items_of_array
  obtain ⟨text₂, text₃, hSymbol, hComma, hRest⟩ := hItems.items_tail
  obtain ⟨text₄, hNumber⟩ := hRest.items_head
  obtain ⟨body, hBody, hWeight⟩ := hSymbol.body_of_string
  -- the array starts at the bracket of the text or later
  have hInside : text' <:+ '"' :: (symbol.toList ++ '"' :: (levelTail limit ++ ['}'])) := by
    have hBracket : '[' :: text' <:+ '[' :: '"' :: (symbol.toList ++ '"' ::
        (levelTail limit ++ ['}'])) := by
      have hBefore : '[' ∉ ['"', 'p', 'a', 'r', 'a', 'm', 's', '"', ':'] := by decide
      apply suffix_of_not_mem hBefore
      simpa [levelChars] using hSuffix
    rcases List.suffix_cons_iff.mp hBracket with hWhole | hLater
    · exact ⟨[], (List.cons.inj hWhole).2⟩
    · exact (List.suffix_cons _ _).trans hLater
  have hStart : '"' :: (body ++ '"' :: text₂) <:+
      '"' :: (symbol.toList ++ '"' :: (levelTail limit ++ ['}'])) := by
    rw [← hBody]
    exact (skipSpace_suffix text').trans hInside
  have hLength := hStart.length_le
  simp only [List.length_cons, List.length_append] at hLength
  apply plain_of_weight_le
  by_contra hSpecial
  -- with a special character, the string ends behind the quotation mark of the text
  have hEnd : '"' :: text₂ <:+ levelTail limit ++ ['}'] := by
    apply List.suffix_of_suffix_length_le
    · exact ((List.suffix_append body _).trans (List.suffix_cons '"' _)).trans hStart
    · exact ((List.suffix_cons '"' _).trans (List.suffix_append symbol.toList _)).trans
        (List.suffix_cons '"' _)
    · simp only [List.length_cons, List.length_append]
      omega
  exact not_number_of_suffix hEnd hComma _ _ hNumber

/-- What the depth-style request writes decodes to what was meant exactly if the symbol
is plain. -/
theorem levelMessage_decodes_iff (r : Resolution) (id : UInt64) {method : String}
    (hMethod : Plain method.toList) (symbol : Symbol) (limit : ℕ) :
    Decodes r (MarketData.levelMessage id method symbol limit)
        (requestFields id.toNat method
          [.string symbol, .number limit, .string "0", .bool true]) ↔
      Plain symbol.toList := by
  have hText := levelMessage_toList id method symbol limit
  constructor
  · intro h
    obtain ⟨ms, rest, hReads, hMem⟩ := params_of_decodes hMethod hText r h
    exact plain_of_level hReads hMem
  · intro hPlain
    apply decodes_request hMethod hText r
    have hLevel := reads_levelChars hPlain limit
    unfold levelChars at hLevel ⊢
    rw [List.cons_append, skipSpace_cons (by decide)]
    exact hLevel

/-! ## All requests -/

/-- The ping is a request without parameters. -/
theorem ping_decodes (r : Resolution) :
    Decodes r MarketData.pingMessage (requestFields MarketData.pingId.toNat "ping" []) := by
  have hMethod : Plain "ping".toList := by decide
  have hText : MarketData.pingMessage.toList = requestChars 0 "ping" ['[', ']'] := by
    simp [MarketData.pingMessage, requestChars]
  apply decodes_request hMethod hText r
  rw [List.cons_append, skipSpace_cons (by decide)]
  exact .emptyArray rfl (skipSpace_cons (by decide))

/-- The symbols a request names. -/
def Request.symbols : Request → List Symbol
  | .list _ _ params => params
  | .level _ _ symbol _ => [symbol]

/-- What a request means. -/
def Request.fields : Request → List (String × Tree)
  | .list id method params => requestFields id.toNat method.text (params.map .string)
  | .level id method symbol limit =>
      requestFields id.toNat method.text
        [.string symbol, .number limit, .string "0", .bool true]

theorem SubscribeMethod.plain_text (method : SubscribeMethod) :
    Plain method.text.toList := by
  apply plain_of_letters
  cases method <;> decide

/-- A request of the stream is understood exactly if its symbols are plain. -/
theorem Request.text_decodes_iff (r : Resolution) {request : Request}
    (hSome : request.symbols ≠ []) :
    Decodes r request.text request.fields ↔
      ∀ symbol ∈ request.symbols, Plain symbol.toList := by
  cases request with
  | list id method params =>
      exact listMessage_decodes_iff r id method.plain_text hSome
  | level id method symbol limit =>
      rw [symbols, List.forall_mem_singleton]
      exact levelMessage_decodes_iff r id method.plain_text symbol limit

/--
**Requests.**  Whatever the identifier and the name of the method, what the two writers
produce decodes to what was meant exactly if no symbol has a quotation mark, a
backslash or a control character.
-/
theorem subscribe_text_decodes_iff (r : Resolution) (id : UInt64) (method : String)
    (hMethod : Plain method.toList) :
    (∀ symbols : List Symbol, symbols ≠ [] →
      (Decodes r (MarketData.listMessage id method symbols)
          (requestFields id.toNat method (symbols.map .string)) ↔
        ∀ symbol ∈ symbols, Plain symbol.toList)) ∧
    ∀ (symbol : Symbol) (limit : ℕ),
      (Decodes r (MarketData.levelMessage id method symbol limit)
          (requestFields id.toNat method
            [.string symbol, .number limit, .string "0", .bool true]) ↔
        Plain symbol.toList) :=
  ⟨fun _ hSome => listMessage_decodes_iff r id hMethod hSome,
    fun symbol limit => levelMessage_decodes_iff r id hMethod symbol limit⟩

theorem subscribe_text_decodes_iff_trades :
    Plain "trades_subscribe".toList ∧
    (∀ symbols : List Symbol, symbols ≠ [] →
      (Decodes .last (MarketData.listMessage 2000001 "trades_subscribe" symbols)
          (requestFields 2000001 "trades_subscribe" (symbols.map .string)) ↔
        ∀ symbol ∈ symbols, Plain symbol.toList)) ∧
    ∀ (symbol : Symbol) (limit : ℕ),
      (Decodes .last (MarketData.levelMessage 2000001 "trades_subscribe" symbol limit)
          (requestFields 2000001 "trades_subscribe"
            [.string symbol, .number limit, .string "0", .bool true]) ↔
        Plain symbol.toList) :=
  have hMethod : Plain "trades_subscribe".toList := plain_of_letters (by decide)
  ⟨hMethod, subscribe_text_decodes_iff .last 2000001 "trades_subscribe" hMethod⟩

end RoqWhitebit.Gateway
