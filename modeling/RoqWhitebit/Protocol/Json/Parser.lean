import Mathlib.Data.List.Perm.Basic
import RoqWhitebit.Exceptions
import RoqWhitebit.Protocol.Json.Value
import RoqWhitebit.Utils

/-!
# Frame classification

`Parser::dispatch` walks over the members of a JSON object and calls a helper on
each of them until one says stop.  The helper mutates two flags, `result` and
`has_result`, and may call back into the handler.  The invariant is short: as
long as the helper has not said stop, neither flag is set and nothing has been
called.  So the first member that decides anything decides everything, and the
walk can be replaced by a search for it (`dispatch_eq_find`).
-/

namespace RoqWhitebit.Protocol.Json

/-- The enumerators of `Method`. -/
inductive Method where
  | undefinedInternal
  | unknownInternal
  | bookTickerUpdate
  | depthUpdate
  | tradesUpdate
  | marketUpdate
  | marketTodayUpdate
  deriving DecidableEq, Repr

/-- The enumerator a text stands for. -/
def Method.ofText (text : String) : Method :=
  if text = "" then .undefinedInternal
  else if text = "bookTicker_update" then .bookTickerUpdate
  else if text = "depth_update" then .depthUpdate
  else if text = "trades_update" then .tradesUpdate
  else if text = "market_update" then .marketUpdate
  else if text = "marketToday_update" then .marketTodayUpdate
  else .unknownInternal

/-- The generated constructor `Method{value}`.  It maps the five names to their
enumerators, an absent text to `UNDEFINED_INTERNAL` and any other text to
`UNKNOWN_INTERNAL`.  On a value that is not a text it may throw, or give one of
the two internal enumerators. -/
structure MethodDecoder where
  decode : Value → Except Exception Method
  decode_null : decode .null = .ok .undefinedInternal
  decode_string : ∀ text, decode (.string text) = .ok (.ofText text)
  decode_internal : ∀ value method, (∀ text, value ≠ .string text) →
    decode value = .ok method → method = .undefinedInternal ∨ method = .unknownInternal

/-- The callbacks of `Parser::Handler`. -/
inductive Callback where
  | pong
  | response
  | bookTickerUpdate
  | depthUpdate
  | tradesUpdate
  | marketUpdate
  | marketTodayUpdate
  deriving DecidableEq, Repr

/-- The two flags the helper captures, and the callbacks made so far. -/
structure Flags where
  result : Bool := false
  hasResult : Bool := false
  callbacks : List Callback := []
  deriving DecidableEq, Repr

/-- `result = dispatch_helper<T>(handler, message, buffer_stack, trace_info)` -/
def Flags.dispatchHelper (callback : Callback) (flags : Flags) : Flags :=
  { flags with result := true, callbacks := flags.callbacks ++ [callback] }

/-- How one call of the helper ends. -/
inductive Signal where
  /-- `return false` -/
  | next
  /-- `return true` -/
  | stop
  /-- `log::fatal` -/
  | fatal
  | threw (e : Exception)
  deriving DecidableEq, Repr

/-- `std::get<std::string_view>(value) == RESULT_PONG` -/
def isPong : Value → Bool
  | .string text => text == "pong"
  | _ => false

/-- The `KEY_METHOD` case of the helper. -/
def methodCase (d : MethodDecoder) (value : Value) (flags : Flags) : Signal × Flags :=
  match d.decode value with
  | .error e => (.threw e, flags)
  | .ok .undefinedInternal => (.fatal, flags)
  | .ok .unknownInternal => (.stop, flags)
  | .ok .bookTickerUpdate => (.stop, flags.dispatchHelper .bookTickerUpdate)
  | .ok .depthUpdate => (.stop, flags.dispatchHelper .depthUpdate)
  | .ok .tradesUpdate => (.stop, flags.dispatchHelper .tradesUpdate)
  | .ok .marketUpdate => (.stop, flags.dispatchHelper .marketUpdate)
  | .ok .marketTodayUpdate => (.stop, flags.dispatchHelper .marketTodayUpdate)

/-- What follows the switch of the helper. -/
def afterSwitch (flags : Flags) : Signal × Flags :=
  let flags := if flags.hasResult then flags.dispatchHelper .response else flags
  (if flags.result then .stop else .next, flags)

/-- The lambda `helper` on one member. -/
def helper (u : Utils) (d : MethodDecoder) (key : String) (value : Value)
    (flags : Flags) : Signal × Flags :=
  let key2 := u.fnv key
  if key2 = u.fnv "method" then methodCase d value flags
  else if key2 = u.fnv "result" then
    if isPong value then (.stop, flags.dispatchHelper .pong)
    else afterSwitch { flags with hasResult := true }
  else afterSwitch flags

/-- `core::json::Parser::dispatch<core::json::Object>(helper, message)` -/
def walk (u : Utils) (d : MethodDecoder) :
    List (String × Value) → Flags → Signal × Flags
  | [], flags => (.next, flags)
  | (key, value) :: members, flags =>
      match helper u d key value flags with
      | (.next, flags') => walk u d members flags'
      | ended => ended

/-- How `Parser::dispatch` ends. -/
inductive Ending where
  | returned (result : Bool)
  | fatal
  | threw (e : Exception)
  deriving DecidableEq, Repr

/-- What `Parser::dispatch` does after the walk. -/
def conclude (allowUnknownEventTypes : Bool) : Signal × Flags → Ending × List Callback
  | (.fatal, flags) => (.fatal, flags.callbacks)
  | (.threw e, flags) => (.threw e, flags.callbacks)
  | (_, flags) =>
      if flags.result || allowUnknownEventTypes then
        (.returned flags.result, flags.callbacks)
      else (.fatal, flags.callbacks)

/-- `Parser::dispatch`: how it ends, and the callbacks it makes. -/
def dispatch (u : Utils) (d : MethodDecoder) (allowUnknownEventTypes : Bool)
    (members : List (String × Value)) : Ending × List Callback :=
  conclude allowUnknownEventTypes (walk u d members {})

/-! ## The first deciding member -/

/-- The hash of the key is one of the two the helper looks for. -/
def isDeciding (u : Utils) (member : String × Value) : Bool :=
  u.fnv member.1 = u.fnv "method" || u.fnv member.1 = u.fnv "result"

theorem helper_method {u : Utils} {d : MethodDecoder} {key : String} {value : Value}
    {flags : Flags} (h : u.fnv key = u.fnv "method") :
    helper u d key value flags = methodCase d value flags :=
  if_pos h

theorem helper_result {u : Utils} {d : MethodDecoder} {key : String} {value : Value}
    {flags : Flags} (hNot : u.fnv key ≠ u.fnv "method")
    (h : u.fnv key = u.fnv "result") :
    helper u d key value flags =
      if isPong value then (.stop, flags.dispatchHelper .pong)
      else afterSwitch { flags with hasResult := true } := by
  simp only [helper]
  rw [if_neg hNot, if_pos h]

/-- Before any deciding member nothing is set, and nothing happens. -/
theorem helper_of_not_deciding (u : Utils) (d : MethodDecoder) (key : String)
    (value : Value) (h : isDeciding u (key, value) = false) :
    helper u d key value {} = (.next, {}) := by
  simp only [isDeciding, Bool.or_eq_false_iff, decide_eq_false_iff_not] at h
  simp [helper, afterSwitch, h.1, h.2]

/-- A deciding member ends the walk. -/
theorem helper_of_deciding (u : Utils) (d : MethodDecoder) (key : String)
    (value : Value) (h : isDeciding u (key, value) = true) (flags : Flags) :
    helper u d key value {} ≠ (.next, flags) := by
  simp only [isDeciding, Bool.or_eq_true, decide_eq_true_eq] at h
  by_cases hMethod : u.fnv key = u.fnv "method"
  · rw [helper_method hMethod, methodCase]
    cases d.decode value with
    | error e => simp
    | ok method => cases method <;> simp
  · rw [helper_result hMethod (h.resolve_left hMethod)]
    split
    · simp
    · simp [afterSwitch, Flags.dispatchHelper]

/-- The walk is a search for the first deciding member. -/
theorem walk_eq_find (u : Utils) (d : MethodDecoder) (members : List (String × Value)) :
    walk u d members {} =
      match members.find? (isDeciding u) with
      | none => (.next, {})
      | some (key, value) => helper u d key value {} := by
  induction members with
  | nil => rfl
  | cons member members ih =>
      obtain ⟨key, value⟩ := member
      cases hDeciding : isDeciding u (key, value) with
      | false =>
          rw [List.find?_cons_of_neg (by simp [hDeciding]), walk,
            helper_of_not_deciding u d key value hDeciding]
          exact ih
      | true =>
          rw [List.find?_cons_of_pos hDeciding, walk]
          have hEnds := helper_of_deciding u d key value hDeciding
          show _ = helper u d key value {}
          generalize helper u d key value {} = ended at hEnds ⊢
          obtain ⟨signal, flags⟩ := ended
          cases signal with
          | next => exact absurd rfl (hEnds flags)
          | stop => rfl
          | fatal => rfl
          | threw e => rfl

theorem dispatch_eq_find (u : Utils) (d : MethodDecoder) (allow : Bool)
    (members : List (String × Value)) :
    dispatch u d allow members =
      conclude allow
        (match members.find? (isDeciding u) with
        | none => (.next, {})
        | some (key, value) => helper u d key value {}) := by
  rw [dispatch, walk_eq_find]

/-! ## At most one callback -/

/-- A state of the flags that goes with its signal: one callback if and only if
`result` is set, and none where the walk was cut short. -/
def SingleShot : Signal × Flags → Prop
  | (.fatal, flags) => flags.callbacks = []
  | (.threw _, flags) => flags.callbacks = []
  | (_, flags) => flags.callbacks.length = if flags.result then 1 else 0

theorem helper_singleShot (u : Utils) (d : MethodDecoder) (key : String)
    (value : Value) : SingleShot (helper u d key value {}) := by
  by_cases hMethod : u.fnv key = u.fnv "method"
  · rw [helper_method hMethod, methodCase]
    cases d.decode value with
    | error e => rfl
    | ok method => cases method <;> rfl
  · by_cases hResult : u.fnv key = u.fnv "result"
    · rw [helper_result hMethod hResult]
      split <;> rfl
    · rw [helper_of_not_deciding u d key value (by simp [isDeciding, hMethod, hResult])]
      rfl

/-- At most one callback, and one exactly if `true` is returned. -/
theorem conclude_singleShot (allow : Bool) (ended : Signal × Flags)
    (h : SingleShot ended) :
    (conclude allow ended).2.length ≤ 1 ∧
      ((conclude allow ended).2.length = 1 ↔
        (conclude allow ended).1 = .returned true) := by
  obtain ⟨signal, flags⟩ := ended
  cases signal with
  | fatal =>
      have hNone : flags.callbacks = [] := h
      simp [conclude, hNone]
  | threw e =>
      have hNone : flags.callbacks = [] := h
      simp [conclude, hNone]
  | next =>
      have hLength : flags.callbacks.length = if flags.result then 1 else 0 := h
      cases hResult : flags.result <;> cases allow <;>
        simp [conclude, hResult, hLength]
  | stop =>
      have hLength : flags.callbacks.length = if flags.result then 1 else 0 := h
      cases hResult : flags.result <;> cases allow <;>
        simp [conclude, hResult, hLength]

theorem dispatch_singleShot (u : Utils) (d : MethodDecoder) (allow : Bool)
    (members : List (String × Value)) :
    (dispatch u d allow members).2.length ≤ 1 ∧
      ((dispatch u d allow members).2.length = 1 ↔
        (dispatch u d allow members).1 = .returned true) := by
  rw [dispatch_eq_find]
  apply conclude_singleShot
  cases members.find? (isDeciding u) with
  | none => rfl
  | some member => exact helper_singleShot u d member.1 member.2

/-! ## Independence of the order -/

/-- The hash separates the keys of this object from `method` and `result`. -/
def SeparatesKeys (u : Utils) (members : List (String × Value)) : Prop :=
  ∀ member ∈ members,
    (u.fnv member.1 = u.fnv "method" → member.1 = "method") ∧
      (u.fnv member.1 = u.fnv "result" → member.1 = "result")

/-- The member's key is `method` or `result`. -/
def isMethodOrResult (member : String × Value) : Bool :=
  member.1 = "method" || member.1 = "result"

/-- The update a method name stands for. -/
def updateNamed (text : String) : List Callback :=
  if text = "bookTicker_update" then [.bookTickerUpdate]
  else if text = "depth_update" then [.depthUpdate]
  else if text = "trades_update" then [.tradesUpdate]
  else if text = "market_update" then [.marketUpdate]
  else if text = "marketToday_update" then [.marketTodayUpdate]
  else []

/-- What the one member with key `method` or `result`, if there is one, says
about the frame. -/
def classification : Option (String × Value) → List Callback
  | none => []
  | some (key, value) =>
      if key = "method" then
        match value with
        | .string text => updateNamed text
        | _ => []
      else if key = "result" then
        match value with
        | .string text => if text = "pong" then [.pong] else [.response]
        | _ => [.response]
      else []

theorem SeparatesKeys.perm {u : Utils} {members members' : List (String × Value)}
    (h : SeparatesKeys u members) (hPerm : members.Perm members') :
    SeparatesKeys u members' :=
  fun member hMem => h member (hPerm.mem_iff.mpr hMem)

theorem isDeciding_eq_of_separates {u : Utils} {members : List (String × Value)}
    (h : SeparatesKeys u members) {member : String × Value} (hMem : member ∈ members) :
    isDeciding u member = isMethodOrResult member := by
  have hMethod : u.fnv member.1 = u.fnv "method" ↔ member.1 = "method" :=
    ⟨(h member hMem).1, congrArg u.fnv⟩
  have hResult : u.fnv member.1 = u.fnv "result" ↔ member.1 = "result" :=
    ⟨(h member hMem).2, congrArg u.fnv⟩
  simp only [isDeciding, isMethodOrResult, hMethod, hResult]

theorem find_eq_of_separates {u : Utils} {members : List (String × Value)}
    (h : SeparatesKeys u members) :
    members.find? (isDeciding u) = members.find? isMethodOrResult := by
  induction members with
  | nil => rfl
  | cons member members ih =>
      have hHead := isDeciding_eq_of_separates h (List.mem_cons_self ..)
      have hTail := ih fun m hm => h m (List.mem_cons_of_mem member hm)
      simp only [List.find?_cons, hHead, hTail]

/-- At most one element passes: the search finds the same one in any order. -/
theorem find_perm {members members' : List (String × Value)}
    (hOne : (members.filter isMethodOrResult).length ≤ 1)
    (hPerm : members.Perm members') :
    members'.find? isMethodOrResult = members.find? isMethodOrResult := by
  have hFilter := hPerm.filter isMethodOrResult
  rw [← List.head?_filter, ← List.head?_filter]
  rcases hSelected : members.filter isMethodOrResult with _ | ⟨member, rest⟩
  · rw [hSelected] at hFilter
    rw [hFilter.nil_eq]
  · have hRest : rest = [] := by
      rw [hSelected, List.length_cons] at hOne
      exact List.length_eq_zero_iff.mp (by omega)
    rw [hSelected, hRest] at hFilter
    rw [hRest, List.perm_singleton.mp hFilter.symm]

/-- The callback of a method is the one its name stands for. -/
theorem methodCase_callbacks (d : MethodDecoder) (allow : Bool) (value : Value) :
    (conclude allow (methodCase d value {})).2 =
      match value with
      | .string text => updateNamed text
      | _ => [] := by
  by_cases hText : ∃ text, value = .string text
  · obtain ⟨text, rfl⟩ := hText
    simp only [methodCase, d.decode_string, Method.ofText, updateNamed]
    split_ifs <;> cases allow <;> simp_all [conclude, Flags.dispatchHelper]
  · have hNone : (conclude allow (methodCase d value {})).2 = [] := by
      unfold methodCase
      cases hDecode : d.decode value with
      | error e => rfl
      | ok method =>
          rcases d.decode_internal value method (fun text h => hText ⟨text, h⟩)
            hDecode with rfl | rfl
          · rfl
          · cases allow <;> rfl
    rw [hNone]
    cases value with
    | string text => exact absurd ⟨text, rfl⟩ hText
    | _ => rfl

/-- The callback of a result. -/
theorem result_callbacks {u : Utils} (d : MethodDecoder) (allow : Bool) {key : String}
    (value : Value) (hNot : u.fnv key ≠ u.fnv "method")
    (hResult : u.fnv key = u.fnv "result") :
    (conclude allow (helper u d key value {})).2 =
      match value with
      | .string text => if text = "pong" then [.pong] else [.response]
      | _ => [.response] := by
  rw [helper_result hNot hResult]
  cases value with
  | string text =>
      by_cases hPong : text = "pong"
      · simp [isPong, hPong, conclude, Flags.dispatchHelper]
      · simp [isPong, hPong, conclude, afterSwitch, Flags.dispatchHelper]
  | _ => rfl

/-- The callbacks are those of the first member with key `method` or `result`. -/
theorem dispatch_callbacks {u : Utils} (d : MethodDecoder) (allow : Bool)
    {members : List (String × Value)} (h : SeparatesKeys u members) :
    (dispatch u d allow members).2 =
      classification (members.find? isMethodOrResult) := by
  rw [dispatch_eq_find, find_eq_of_separates h]
  cases hFind : members.find? isMethodOrResult with
  | none => cases allow <;> rfl
  | some member =>
      obtain ⟨key, value⟩ := member
      have hMem : (key, value) ∈ members := List.mem_of_find?_eq_some hFind
      have hKey : isMethodOrResult (key, value) = true := List.find?_some hFind
      simp only [isMethodOrResult, Bool.or_eq_true, decide_eq_true_eq] at hKey
      show (conclude allow (helper u d key value {})).2 = classification (some (key, value))
      rcases hKey with rfl | rfl
      · rw [helper_method rfl, methodCase_callbacks]
        rfl
      · have hNot : u.fnv "result" ≠ u.fnv "method" := by
          intro hSame
          have hEq : "result" = "method" := (h _ hMem).1 hSame
          exact absurd hEq (by decide)
        rw [result_callbacks d allow value hNot rfl]
        rfl

/--
**Frame classification.**  Any object triggers at most one callback, and one
exactly if `dispatch` returns `true`.  An object with at most one member whose
key is `method` or `result` is classified by that member, and in the same way
whatever the order of its members.
-/
theorem dispatch_single_shot_and_order_free (u : Utils) (d : MethodDecoder)
    (allow : Bool) (members : List (String × Value)) :
    (dispatch u d allow members).2.length ≤ 1 ∧
    ((dispatch u d allow members).2.length = 1 ↔
      (dispatch u d allow members).1 = .returned true) ∧
    (SeparatesKeys u members → (members.filter isMethodOrResult).length ≤ 1 →
      (∀ members', members.Perm members' →
        dispatch u d allow members' = dispatch u d allow members) ∧
      (dispatch u d allow members).2 =
        classification (members.find? isMethodOrResult)) := by
  obtain ⟨hAtMost, hOnce⟩ := dispatch_singleShot u d allow members
  refine ⟨hAtMost, hOnce, fun hSep hOne => ⟨?_, dispatch_callbacks d allow hSep⟩⟩
  intro members' hPerm
  rw [dispatch_eq_find, dispatch_eq_find, find_eq_of_separates hSep,
    find_eq_of_separates (hSep.perm hPerm), find_perm hOne hPerm]

/-- A decoder that throws on everything but texts and `null`. -/
def MethodDecoder.strict : MethodDecoder where
  decode
    | .null => .ok .undefinedInternal
    | .string text => .ok (.ofText text)
    | _ => .error (.other "std::bad_cast")
  decode_null := rfl
  decode_string _ := rfl
  decode_internal value method hText hDecode := by
    cases value with
    | null => exact Or.inl (Except.ok.inj hDecode).symm
    | string text => exact absurd rfl (hText text)
    | _ => cases hDecode

/-- The answer to a ping. -/
def pongFrame : List (String × Value) :=
  [("error", .null), ("result", .string "pong"), ("id", .int64 177472028786210)]

theorem dispatch_single_shot_and_order_free_pong :
    (∀ members', pongFrame.Perm members' →
      dispatch .standard .strict false members' =
        dispatch .standard .strict false pongFrame) ∧
    (dispatch .standard .strict false pongFrame).2 =
      classification (pongFrame.find? isMethodOrResult) :=
  (dispatch_single_shot_and_order_free .standard .strict false pongFrame).2.2
    (by
      intro member hMem
      simp only [pongFrame, List.mem_cons, List.not_mem_nil, or_false] at hMem
      rcases hMem with rfl | rfl | rfl <;> decide)
    (by decide)

example : dispatch .standard .strict false pongFrame = (.returned true, [.pong]) := by
  decide

end RoqWhitebit.Protocol.Json
