import RoqWhitebit.General.JsonText

/-!
# A strict reader of JSON

`Reads` is the grammar of RFC 8259 over the tokens: what stands at the front of a
text, and what follows it.  `read` is the reader that runs.  It descends with a
bound on the depth, and `read_eq_some_iff` says that the bound is never met: the
reader accepts exactly the documents of the grammar.

An object keeps all its members in order.  What a member name stands for is left to a
`Resolution`, because readers differ where a name occurs twice; whatever is proved for
every resolution holds for all of them.

## Main results

* `read_eq_some_iff` — the reader and the grammar agree.
* `Reads.weight_le` — no value is read from fewer characters than it needs.
* `Reads.exists_of_mem` — the value of a member is read from an end of the text.
-/

namespace RoqWhitebit.General.Json

/-- A JSON value. -/
inductive Tree where
  | null
  | bool (b : Bool)
  | number (x : ℚ)
  | string (text : String)
  | array (items : List Tree)
  | object (members : List (String × Tree))

/-- A value that is neither an array nor an object. -/
def readScalar : List Char → Option (Tree × List Char)
  | '"' :: text => (readString text).map fun (s, rest) => (.string (.ofList s), rest)
  | 'n' :: 'u' :: 'l' :: 'l' :: rest => some (.null, rest)
  | 't' :: 'r' :: 'u' :: 'e' :: rest => some (.bool true, rest)
  | 'f' :: 'a' :: 'l' :: 's' :: 'e' :: rest => some (.bool false, rest)
  | text => (readNumber text).map fun (x, rest) => (.number x, rest)

/-! ## The grammar -/

/-- What can stand at the front of a text: a value, the items of an array with the
closing bracket, or the members of an object with the closing brace. -/
inductive Phrase where
  | value (v : Tree)
  | items (vs : List Tree)
  | members (ms : List (String × Tree))

/-- The phrase at the front of a text, and the rest. -/
inductive Reads : List Char → Phrase → List Char → Prop where
  | scalar {text rest : List Char} {v : Tree} :
      readScalar text = some (v, rest) → Reads text (.value v) rest
  | emptyArray {text text' rest : List Char} :
      text = '[' :: text' → skipSpace text' = ']' :: rest →
      Reads text (.value (.array [])) rest
  | array {text text' rest : List Char} {vs : List Tree} :
      text = '[' :: text' → Reads (skipSpace text') (.items vs) rest →
      Reads text (.value (.array vs)) rest
  | emptyObject {text text' rest : List Char} :
      text = '{' :: text' → skipSpace text' = '}' :: rest →
      Reads text (.value (.object [])) rest
  | object {text text' rest : List Char} {ms : List (String × Tree)} :
      text = '{' :: text' → Reads (skipSpace text') (.members ms) rest →
      Reads text (.value (.object ms)) rest
  | lastItem {text text' rest : List Char} {v : Tree} :
      Reads text (.value v) text' → skipSpace text' = ']' :: rest →
      Reads text (.items [v]) rest
  | item {text text' text'' rest : List Char} {v : Tree} {vs : List Tree} :
      Reads text (.value v) text' → skipSpace text' = ',' :: text'' →
      Reads (skipSpace text'') (.items vs) rest → Reads text (.items (v :: vs)) rest
  | lastMember {text key text' text'' text₃ rest : List Char} {v : Tree} :
      readString text = some (key, text') → skipSpace text' = ':' :: text'' →
      Reads (skipSpace text'') (.value v) text₃ → skipSpace text₃ = '}' :: rest →
      Reads ('"' :: text) (.members [(.ofList key, v)]) rest
  | member {text key text' text'' text₃ text₄ rest : List Char} {v : Tree}
      {ms : List (String × Tree)} :
      readString text = some (key, text') → skipSpace text' = ':' :: text'' →
      Reads (skipSpace text'') (.value v) text₃ → skipSpace text₃ = ',' :: text₄ →
      Reads (skipSpace text₄) (.members ms) rest →
      Reads ('"' :: text) (.members ((.ofList key, v) :: ms)) rest

/-! ## The reader -/

mutual

/-- A value, with a bound on the depth. -/
def readValue : ℕ → List Char → Option (Tree × List Char)
  | 0, _ => none
  | fuel + 1, '[' :: text =>
      match skipSpace text with
      | ']' :: rest => some (.array [], rest)
      | text => (readItems fuel text).map fun (vs, rest) => (.array vs, rest)
  | fuel + 1, '{' :: text =>
      match skipSpace text with
      | '}' :: rest => some (.object [], rest)
      | text => (readMembers fuel text).map fun (ms, rest) => (.object ms, rest)
  | _ + 1, text => readScalar text

def readItems : ℕ → List Char → Option (List Tree × List Char)
  | 0, _ => none
  | fuel + 1, text => do
      let (v, text) ← readValue fuel text
      match skipSpace text with
      | ']' :: rest => some ([v], rest)
      | ',' :: text =>
          (readItems fuel (skipSpace text)).map fun (vs, rest) => (v :: vs, rest)
      | _ => none

def readMembers : ℕ → List Char → Option (List (String × Tree) × List Char)
  | fuel + 1, '"' :: text => do
      let (key, text) ← readString text
      match skipSpace text with
      | ':' :: text => do
          let (v, text) ← readValue fuel (skipSpace text)
          match skipSpace text with
          | '}' :: rest => some ([(.ofList key, v)], rest)
          | ',' :: text =>
              (readMembers fuel (skipSpace text)).map fun (ms, rest) =>
                ((.ofList key, v) :: ms, rest)
          | _ => none
      | _ => none
  | _, _ => none

end

/-- A whole document. -/
def read (text : String) : Option Tree :=
  match readValue (2 * text.toList.length + 1) (skipSpace text.toList) with
  | some (v, rest) => if skipSpace rest = [] then some v else none
  | none => none

/-! ## What a value takes -/

mutual

/-- The characters a value needs at least. -/
def Tree.weight : Tree → ℕ
  | .string text => Json.weight text.toList + 2
  | .array vs => itemsWeight vs + 1
  | .object ms => membersWeight ms + 1
  | .null => 1
  | .bool _ => 1
  | .number _ => 1

def itemsWeight : List Tree → ℕ
  | [] => 0
  | v :: vs => v.weight + 1 + itemsWeight vs

def membersWeight : List (String × Tree) → ℕ
  | [] => 0
  | (key, v) :: ms => Json.weight key.toList + 4 + v.weight + membersWeight ms

end

def Phrase.weight : Phrase → ℕ
  | .value v => v.weight
  | .items vs => itemsWeight vs
  | .members ms => membersWeight ms

theorem weight_le_membersWeight {key : String} {v : Tree} {ms : List (String × Tree)}
    (h : (key, v) ∈ ms) : Json.weight key.toList + 4 + v.weight ≤ membersWeight ms := by
  induction ms with
  | nil => exact nomatch h
  | cons m ms ih =>
      obtain ⟨key', v'⟩ := m
      rw [membersWeight]
      rcases List.mem_cons.mp h with hHead | hTail
      · obtain ⟨rfl, rfl⟩ := Prod.mk.inj hHead
        omega
      · have hRest := ih hTail
        omega

theorem readScalar_weight {text rest : List Char} {v : Tree}
    (h : readScalar text = some (v, rest)) :
    rest <:+ text ∧ v.weight + rest.length ≤ text.length := by
  unfold readScalar at h
  split at h
  · next text =>
      rw [Option.map_eq_some_iff] at h
      obtain ⟨⟨s, rest'⟩, hRead, hValue⟩ := h
      obtain ⟨rfl, rfl⟩ := Prod.mk.inj hValue
      obtain ⟨body, rfl, hBody⟩ := weight_readString hRead
      refine ⟨⟨'"' :: body ++ ['"'], by simp⟩, ?_⟩
      simp only [Tree.weight, String.toList_ofList, List.length_cons, List.length_append]
      omega
  · obtain ⟨rfl, rfl⟩ := Prod.mk.inj (Option.some.inj h)
    exact ⟨⟨['n', 'u', 'l', 'l'], rfl⟩, by simp only [Tree.weight, List.length_cons]; omega⟩
  · obtain ⟨rfl, rfl⟩ := Prod.mk.inj (Option.some.inj h)
    exact ⟨⟨['t', 'r', 'u', 'e'], rfl⟩, by simp only [Tree.weight, List.length_cons]; omega⟩
  · obtain ⟨rfl, rfl⟩ := Prod.mk.inj (Option.some.inj h)
    exact ⟨⟨['f', 'a', 'l', 's', 'e'], rfl⟩,
      by simp only [Tree.weight, List.length_cons]; omega⟩
  · rw [Option.map_eq_some_iff] at h
    obtain ⟨⟨x, rest'⟩, hRead, hValue⟩ := h
    obtain ⟨rfl, rfl⟩ := Prod.mk.inj hValue
    obtain ⟨c, text', _, rfl, hRest⟩ := readNumber_eq hRead
    have hLength := hRest.length_le
    refine ⟨hRest.trans (List.suffix_cons c text'), ?_⟩
    simp only [Tree.weight, List.length_cons]
    omega

theorem length_skipSpace_le (text : List Char) :
    (skipSpace text).length ≤ text.length := (skipSpace_suffix text).length_le

/-- What is left once space and one more character are gone. -/
theorem suffix_of_skipSpace {c : Char} {text rest : List Char}
    (h : skipSpace text = c :: rest) : rest <:+ text := by
  have hSkip := skipSpace_suffix text
  rw [h] at hSkip
  exact (List.suffix_cons c rest).trans hSkip

theorem length_of_skipSpace {c : Char} {text rest : List Char}
    (h : skipSpace text = c :: rest) : rest.length + 1 ≤ text.length := by
  have hSkip := length_skipSpace_le text
  rw [h, List.length_cons] at hSkip
  exact hSkip

/-- **No phrase is read from fewer characters than it needs.** -/
theorem Reads.weight_le {text rest : List Char} {p : Phrase} (h : Reads text p rest) :
    p.weight + rest.length ≤ text.length := by
  induction h with
  | scalar hScalar => exact (readScalar_weight hScalar).2
  | emptyArray hOpen hClose =>
      have hLength := length_of_skipSpace hClose
      rw [hOpen, List.length_cons]
      simp only [Phrase.weight, Tree.weight, itemsWeight]
      omega
  | @array text text' rest vs hOpen _ ih =>
      have hSkip := length_skipSpace_le text'
      rw [hOpen, List.length_cons]
      simp only [Phrase.weight, Tree.weight] at ih ⊢
      omega
  | emptyObject hOpen hClose =>
      have hLength := length_of_skipSpace hClose
      rw [hOpen, List.length_cons]
      simp only [Phrase.weight, Tree.weight, membersWeight]
      omega
  | @object text text' rest ms hOpen _ ih =>
      have hSkip := length_skipSpace_le text'
      rw [hOpen, List.length_cons]
      simp only [Phrase.weight, Tree.weight] at ih ⊢
      omega
  | lastItem _ hClose ih =>
      have hLength := length_of_skipSpace hClose
      simp only [Phrase.weight, itemsWeight] at ih ⊢
      omega
  | @item text text' text'' rest v vs _ hComma _ ihValue ihRest =>
      have hLength := length_of_skipSpace hComma
      have hSkip := length_skipSpace_le text''
      simp only [Phrase.weight, itemsWeight] at ihValue ihRest ⊢
      omega
  | @lastMember text key text' text'' text₃ rest v hKey hColon _ hClose ih =>
      obtain ⟨body, rfl, hBody⟩ := weight_readString hKey
      have hLength := length_of_skipSpace hColon
      have hSkip := length_skipSpace_le text''
      have hEnd := length_of_skipSpace hClose
      simp only [Phrase.weight, membersWeight, String.toList_ofList, List.length_cons,
        List.length_append] at ih ⊢
      omega
  | @member text key text' text'' text₃ text₄ rest v ms hKey hColon _ hComma _ ihValue
      ihRest =>
      obtain ⟨body, rfl, hBody⟩ := weight_readString hKey
      have hLength := length_of_skipSpace hColon
      have hSkip := length_skipSpace_le text''
      have hNext := length_of_skipSpace hComma
      have hSkipNext := length_skipSpace_le text₄
      simp only [Phrase.weight, membersWeight, String.toList_ofList, List.length_cons,
        List.length_append] at ihValue ihRest ⊢
      omega

theorem readString_suffix {text rest s : List Char} (h : readString text = some (s, rest)) :
    rest <:+ text := by
  obtain ⟨body, rfl, _⟩ := weight_readString h
  exact (List.suffix_cons _ _).trans (List.suffix_append _ _)

/-- The rest is an end of the text. -/
theorem Reads.suffix {text rest : List Char} {p : Phrase} (h : Reads text p rest) :
    rest <:+ text := by
  induction h with
  | scalar hScalar => exact (readScalar_weight hScalar).1
  | emptyArray hOpen hClose =>
      rw [hOpen]
      exact (suffix_of_skipSpace hClose).trans (List.suffix_cons _ _)
  | array hOpen _ ih =>
      rw [hOpen]
      exact (ih.trans (skipSpace_suffix _)).trans (List.suffix_cons _ _)
  | emptyObject hOpen hClose =>
      rw [hOpen]
      exact (suffix_of_skipSpace hClose).trans (List.suffix_cons _ _)
  | object hOpen _ ih =>
      rw [hOpen]
      exact (ih.trans (skipSpace_suffix _)).trans (List.suffix_cons _ _)
  | lastItem _ hClose ih => exact (suffix_of_skipSpace hClose).trans ih
  | item _ hComma _ ihValue ihRest =>
      exact ((ihRest.trans (skipSpace_suffix _)).trans (suffix_of_skipSpace hComma)).trans
        ihValue
  | lastMember hKey hColon _ hClose ih =>
      have hValue := (ih.trans (skipSpace_suffix _)).trans (suffix_of_skipSpace hColon)
      exact (((suffix_of_skipSpace hClose).trans hValue).trans (readString_suffix hKey)).trans
        (List.suffix_cons _ _)
  | member hKey hColon _ hComma _ ihValue ihRest =>
      have hValue := (ihValue.trans (skipSpace_suffix _)).trans (suffix_of_skipSpace hColon)
      have hRest := (ihRest.trans (skipSpace_suffix _)).trans (suffix_of_skipSpace hComma)
      exact ((hRest.trans hValue).trans (readString_suffix hKey)).trans (List.suffix_cons _ _)

/-- The value of a member is read from an end of the text. -/
theorem Reads.exists_of_mem {text rest : List Char} {ms : List (String × Tree)}
    (h : Reads text (.members ms) rest) {key : String} {v : Tree} (hMem : (key, v) ∈ ms) :
    ∃ text' rest', text' <:+ text ∧ Reads text' (.value v) rest' := by
  induction ms generalizing text with
  | nil => exact nomatch hMem
  | cons m ms ih =>
      cases h with
      | lastMember hKey hColon hValue _ =>
          rw [List.mem_singleton] at hMem
          obtain ⟨-, rfl⟩ := Prod.mk.inj hMem
          refine ⟨_, _, ?_, hValue⟩
          exact (((skipSpace_suffix _).trans (suffix_of_skipSpace hColon)).trans
            (readString_suffix hKey)).trans (List.suffix_cons _ _)
      | member hKey hColon hValue hComma hRest =>
          have hStart := (((skipSpace_suffix _).trans (suffix_of_skipSpace hColon)).trans
            (readString_suffix hKey)).trans (List.suffix_cons '"' _)
          rcases List.mem_cons.mp hMem with hHead | hTail
          · obtain ⟨-, rfl⟩ := Prod.mk.inj hHead
            exact ⟨_, _, hStart, hValue⟩
          · obtain ⟨text', rest', hSuffix, hRead⟩ := ih hRest hTail
            refine ⟨text', rest', ?_, hRead⟩
            exact ((hSuffix.trans (skipSpace_suffix _)).trans
              ((suffix_of_skipSpace hComma).trans hValue.suffix)).trans hStart

/-! ## The reader accepts the grammar -/

/-- Nothing but a quotation mark, a letter, a minus or a digit begins a scalar. -/
theorem readScalar_eq_none {c : Char} (hDigit : c.isDigit = false)
    (hFirst : c ∉ ['"', 'n', 't', 'f', '-']) (text : List Char) :
    readScalar (c :: text) = none := by
  unfold readScalar
  split
  · next h => exact absurd (List.cons.inj h).1 (by rintro rfl; exact hFirst (by decide))
  · next h => exact absurd (List.cons.inj h).1 (by rintro rfl; exact hFirst (by decide))
  · next h => exact absurd (List.cons.inj h).1 (by rintro rfl; exact hFirst (by decide))
  · next h => exact absurd (List.cons.inj h).1 (by rintro rfl; exact hFirst (by decide))
  · cases hRead : readNumber (c :: text) with
    | none => rfl
    | some result =>
        obtain ⟨d, text', hd, hText, _⟩ := readNumber_eq hRead
        rw [← (List.cons.inj hText).1] at hd
        rcases hd with rfl | hDigit'
        · exact absurd (by decide) hFirst
        · rw [hDigit] at hDigit'
          exact nomatch hDigit'

/-- No phrase begins with a closing bracket. -/
theorem Reads.ne_close {text rest : List Char} {p : Phrase} (h : Reads text p rest)
    (text' : List Char) : text ≠ ']' :: text' := by
  induction h with
  | scalar hScalar =>
      rintro rfl
      rw [readScalar_eq_none (by decide) (by decide)] at hScalar
      exact nomatch hScalar
  | emptyArray hOpen _ => rw [hOpen]; simp
  | array hOpen _ _ => rw [hOpen]; simp
  | emptyObject hOpen _ => rw [hOpen]; simp
  | object hOpen _ _ => rw [hOpen]; simp
  | lastItem _ _ ih => exact ih
  | item _ _ _ ih _ => exact ih
  | lastMember => simp
  | member => simp

/-- The reader of a phrase. -/
def Phrase.ReadBy (fuel : ℕ) (text rest : List Char) : Phrase → Prop
  | .value v => readValue fuel text = some (v, rest)
  | .items vs => readItems fuel text = some (vs, rest)
  | .members ms => readMembers fuel text = some (ms, rest)

/-- The depth that is enough for a phrase. -/
def Phrase.fuel (text : List Char) : Phrase → ℕ
  | .value _ => 2 * text.length
  | .items _ => 2 * text.length + 1
  | .members _ => 2 * text.length

theorem Tree.weight_pos (v : Tree) : 0 < v.weight := by
  cases v <;> simp [Tree.weight]

/-- Every phrase takes at least one character. -/
theorem Phrase.fuel_pos {text rest : List Char} {p : Phrase} (h : Reads text p rest) :
    0 < p.fuel text := by
  have hWeight := h.weight_le
  cases p with
  | value v =>
      have hPos := v.weight_pos
      simp only [Phrase.weight] at hWeight
      simp only [Phrase.fuel]
      omega
  | items vs => exact Nat.succ_pos _
  | members ms =>
      cases h <;> simp [Phrase.fuel]

/-- A value leaves less than there was. -/
theorem Reads.length_lt {text rest : List Char} {v : Tree} (h : Reads text (.value v) rest) :
    rest.length < text.length := by
  have hWeight := h.weight_le
  have hPos := v.weight_pos
  simp only [Phrase.weight] at hWeight
  omega

/-- The members of an object begin with a quotation mark. -/
theorem Reads.members_ne_close {text rest : List Char} {ms : List (String × Tree)}
    (h : Reads text (.members ms) rest) (text' : List Char) : text ≠ '}' :: text' := by
  cases h <;> simp

/-- A depth that is enough for a phrase leaves room for one step. -/
theorem Reads.exists_fuel {text rest : List Char} {p : Phrase} (h : Reads text p rest)
    {fuel : ℕ} (hFuel : p.fuel text ≤ fuel) : ∃ n, fuel = n + 1 := by
  have hPos := Phrase.fuel_pos h
  exact ⟨fuel - 1, by omega⟩

/-- **Completeness**: whatever the grammar derives, the reader reads. -/
theorem Reads.readBy {text rest : List Char} {p : Phrase} (h : Reads text p rest) :
    ∀ {fuel : ℕ}, p.fuel text ≤ fuel → p.ReadBy fuel text rest := by
  induction h with
  | @scalar text rest v hScalar =>
      intro fuel hFuel
      obtain ⟨n, rfl⟩ := (Reads.scalar hScalar).exists_fuel hFuel
      show readValue (n + 1) text = _
      unfold readValue
      split
      · next h => exact nomatch h
      · rw [readScalar_eq_none (by decide) (by decide)] at hScalar
        exact nomatch hScalar
      · rw [readScalar_eq_none (by decide) (by decide)] at hScalar
        exact nomatch hScalar
      · exact hScalar
  | emptyArray hOpen hClose =>
      intro fuel hFuel
      obtain ⟨n, rfl⟩ := (Reads.emptyArray hOpen hClose).exists_fuel hFuel
      show readValue (n + 1) _ = _
      rw [hOpen, readValue, hClose]
      rfl
  | @array text text' rest vs hOpen hItems ih =>
      intro fuel hFuel
      obtain ⟨n, rfl⟩ := (Reads.array hOpen hItems).exists_fuel hFuel
      have hLength := length_skipSpace_le text'
      rw [hOpen] at hFuel
      simp only [Phrase.fuel, List.length_cons] at hFuel ih
      have hRead : readItems n (skipSpace text') = some (vs, rest) := ih (by omega)
      show readValue (n + 1) _ = _
      rw [hOpen, readValue]
      split
      · next hClose => exact absurd hClose (hItems.ne_close _)
      · rw [hRead]
        rfl
  | emptyObject hOpen hClose =>
      intro fuel hFuel
      obtain ⟨n, rfl⟩ := (Reads.emptyObject hOpen hClose).exists_fuel hFuel
      show readValue (n + 1) _ = _
      rw [hOpen, readValue, hClose]
      rfl
  | @object text text' rest ms hOpen hMembers ih =>
      intro fuel hFuel
      obtain ⟨n, rfl⟩ := (Reads.object hOpen hMembers).exists_fuel hFuel
      have hLength := length_skipSpace_le text'
      rw [hOpen] at hFuel
      simp only [Phrase.fuel, List.length_cons] at hFuel ih
      have hRead : readMembers n (skipSpace text') = some (ms, rest) := ih (by omega)
      show readValue (n + 1) _ = _
      rw [hOpen, readValue]
      split
      · next hClose => exact absurd hClose (hMembers.members_ne_close _)
      · rw [hRead]
        rfl
  | @lastItem text text' rest v hValue hClose ih =>
      intro fuel hFuel
      obtain ⟨n, rfl⟩ := (Reads.lastItem hValue hClose).exists_fuel hFuel
      simp only [Phrase.fuel] at hFuel ih
      have hRead : readValue n text = some (v, text') := ih (by omega)
      show readItems (n + 1) _ = _
      rw [readItems]
      simp [hRead, hClose]
  | @item text text' text'' rest v vs hValue hComma hItems ihValue ihRest =>
      intro fuel hFuel
      obtain ⟨n, rfl⟩ := (Reads.item hValue hComma hItems).exists_fuel hFuel
      have hLt := hValue.length_lt
      have hNext := length_of_skipSpace hComma
      have hSkip := length_skipSpace_le text''
      simp only [Phrase.fuel] at hFuel ihValue ihRest
      have hRead : readValue n text = some (v, text') := ihValue (by omega)
      have hReadRest : readItems n (skipSpace text'') = some (vs, rest) := ihRest (by omega)
      show readItems (n + 1) _ = _
      rw [readItems]
      simp [hRead, hComma, hReadRest]
  | @lastMember text key text' text'' text₃ rest v hKey hColon hValue hClose ih =>
      intro fuel hFuel
      obtain ⟨n, rfl⟩ := (Reads.lastMember hKey hColon hValue hClose).exists_fuel hFuel
      have hShort := (readString_suffix hKey).length_le
      have hNext := length_of_skipSpace hColon
      have hSkip := length_skipSpace_le text''
      simp only [Phrase.fuel, List.length_cons] at hFuel ih
      have hRead : readValue n (skipSpace text'') = some (v, text₃) := ih (by omega)
      show readMembers (n + 1) _ = _
      rw [readMembers]
      simp [hKey, hColon, hRead, hClose]
  | @member text key text' text'' text₃ text₄ rest v ms hKey hColon hValue hComma hMembers
      ihValue ihRest =>
      intro fuel hFuel
      obtain ⟨n, rfl⟩ := (Reads.member hKey hColon hValue hComma hMembers).exists_fuel hFuel
      have hShort := (readString_suffix hKey).length_le
      have hNext := length_of_skipSpace hColon
      have hSkip := length_skipSpace_le text''
      have hLt := hValue.length_lt
      have hLater := length_of_skipSpace hComma
      have hSkipLater := length_skipSpace_le text₄
      simp only [Phrase.fuel, List.length_cons] at hFuel ihValue ihRest
      have hRead : readValue n (skipSpace text'') = some (v, text₃) := ihValue (by omega)
      have hReadRest : readMembers n (skipSpace text₄) = some (ms, rest) := ihRest (by omega)
      show readMembers (n + 1) _ = _
      rw [readMembers]
      simp [hKey, hColon, hRead, hComma, hReadRest]

/-! ## The reader follows the grammar -/

section Soundness

variable {fuel : ℕ}
  (hValues : ∀ text v rest, readValue fuel text = some (v, rest) → Reads text (.value v) rest)
  (hItems : ∀ text vs rest, readItems fuel text = some (vs, rest) →
    Reads text (.items vs) rest)
  (hMembers : ∀ text ms rest, readMembers fuel text = some (ms, rest) →
    Reads text (.members ms) rest)

include hItems hMembers in
theorem reads_of_readValue {text rest : List Char} {v : Tree}
    (h : readValue (fuel + 1) text = some (v, rest)) : Reads text (.value v) rest := by
  unfold readValue at h
  split at h
  · next h' => exact nomatch h'
  · next fuel' text' hFuel =>
      obtain rfl := Nat.succ.inj hFuel
      split at h
      · next hClose =>
          obtain ⟨rfl, rfl⟩ := Prod.mk.inj (Option.some.inj h)
          exact .emptyArray rfl hClose
      · rw [Option.map_eq_some_iff] at h
        obtain ⟨⟨vs, rest'⟩, hRead, hValue⟩ := h
        obtain ⟨rfl, rfl⟩ := Prod.mk.inj hValue
        exact .array rfl (hItems _ _ _ hRead)
  · next fuel' text' hFuel =>
      obtain rfl := Nat.succ.inj hFuel
      split at h
      · next hClose =>
          obtain ⟨rfl, rfl⟩ := Prod.mk.inj (Option.some.inj h)
          exact .emptyObject rfl hClose
      · rw [Option.map_eq_some_iff] at h
        obtain ⟨⟨ms, rest'⟩, hRead, hValue⟩ := h
        obtain ⟨rfl, rfl⟩ := Prod.mk.inj hValue
        exact .object rfl (hMembers _ _ _ hRead)
  · exact .scalar h

include hValues hItems in
theorem reads_of_readItems {text rest : List Char} {vs : List Tree}
    (h : readItems (fuel + 1) text = some (vs, rest)) : Reads text (.items vs) rest := by
  simp only [readItems, Option.bind_eq_bind, Option.bind_eq_some_iff, Prod.exists] at h
  obtain ⟨v, text', hRead, h⟩ := h
  split at h
  · next hClose =>
      obtain ⟨rfl, rfl⟩ := Prod.mk.inj (Option.some.inj h)
      exact .lastItem (hValues _ _ _ hRead) hClose
  · next hComma =>
      rw [Option.map_eq_some_iff] at h
      obtain ⟨⟨vs', rest'⟩, hReadRest, hValue⟩ := h
      obtain ⟨rfl, rfl⟩ := Prod.mk.inj hValue
      exact .item (hValues _ _ _ hRead) hComma (hItems _ _ _ hReadRest)
  · exact nomatch h

include hValues hMembers in
theorem reads_of_readMembers {text rest : List Char} {ms : List (String × Tree)}
    (h : readMembers (fuel + 1) text = some (ms, rest)) : Reads text (.members ms) rest := by
  unfold readMembers at h
  split at h
  · next fuel' text' hFuel =>
      obtain rfl := Nat.succ.inj hFuel
      simp only [Option.bind_eq_bind, Option.bind_eq_some_iff, Prod.exists] at h
      obtain ⟨key, text', hKey, h⟩ := h
      split at h
      · next hColon =>
          simp only [Option.bind_eq_some_iff, Prod.exists] at h
          obtain ⟨v, text₃, hRead, h⟩ := h
          split at h
          · next hClose =>
              obtain ⟨rfl, rfl⟩ := Prod.mk.inj (Option.some.inj h)
              exact .lastMember hKey hColon (hValues _ _ _ hRead) hClose
          · next hComma =>
              rw [Option.map_eq_some_iff] at h
              obtain ⟨⟨ms', rest'⟩, hReadRest, hValue⟩ := h
              obtain ⟨rfl, rfl⟩ := Prod.mk.inj hValue
              exact .member hKey hColon (hValues _ _ _ hRead) hComma (hMembers _ _ _ hReadRest)
          · exact nomatch h
      · exact nomatch h
  · exact nomatch h

end Soundness

/-- **Soundness**: whatever the reader reads, the grammar derives. -/
theorem reads_of_read (fuel : ℕ) :
    (∀ text v rest, readValue fuel text = some (v, rest) → Reads text (.value v) rest) ∧
    (∀ text vs rest, readItems fuel text = some (vs, rest) → Reads text (.items vs) rest) ∧
    (∀ text ms rest, readMembers fuel text = some (ms, rest) →
      Reads text (.members ms) rest) := by
  induction fuel with
  | zero =>
      refine ⟨fun text v rest h => ?_, fun text vs rest h => ?_, fun text ms rest h => ?_⟩
      · exact nomatch h
      · exact nomatch h
      · exact nomatch h
  | succ fuel ih =>
      obtain ⟨ihValues, ihItems, ihMembers⟩ := ih
      refine ⟨fun text v rest h => ?_, fun text vs rest h => ?_, fun text ms rest h => ?_⟩
      · exact reads_of_readValue ihItems ihMembers h
      · exact reads_of_readItems ihValues ihItems h
      · exact reads_of_readMembers ihValues ihMembers h

/-- **The reader and the grammar agree.** -/
theorem read_eq_some_iff {text : String} {v : Tree} :
    read text = some v ↔
      ∃ rest, Reads (skipSpace text.toList) (.value v) rest ∧ skipSpace rest = [] := by
  unfold read
  constructor
  · intro h
    split at h
    · next v' rest hRead =>
        split at h
        · next hEnd =>
            obtain rfl := Option.some.inj h
            exact ⟨rest, (reads_of_read _).1 _ _ _ hRead, hEnd⟩
        · exact nomatch h
    · exact nomatch h
  · rintro ⟨rest, hReads, hEnd⟩
    have hLength := length_skipSpace_le text.toList
    have hRead : readValue (2 * text.toList.length + 1) (skipSpace text.toList) =
        some (v, rest) := hReads.readBy (by simp only [Phrase.fuel]; omega)
    rw [hRead]
    exact if_pos hEnd

/-- A text has at most one value in front. -/
theorem Reads.unique {text rest rest' : List Char} {v v' : Tree}
    (h : Reads text (.value v) rest) (h' : Reads text (.value v') rest') :
    v = v' ∧ rest = rest' := by
  have hRead : readValue (2 * text.length) text = some (v, rest) := h.readBy (Nat.le_refl _)
  have hRead' : readValue (2 * text.length) text = some (v', rest') :=
    h'.readBy (Nat.le_refl _)
  rw [hRead] at hRead'
  exact Prod.mk.inj (Option.some.inj hRead')

/-- What follows a member that is known to be read. -/
theorem Reads.members_tail {text key text' text'' text₃ text₄ rest : List Char} {v : Tree}
    {ms : List (String × Tree)} (h : Reads ('"' :: text) (.members ms) rest)
    (hKey : readString text = some (key, text')) (hColon : skipSpace text' = ':' :: text'')
    (hValue : Reads (skipSpace text'') (.value v) text₃)
    (hComma : skipSpace text₃ = ',' :: text₄) :
    ∃ ms', ms = (.ofList key, v) :: ms' ∧ Reads (skipSpace text₄) (.members ms') rest := by
  cases h with
  | lastMember hKey' hColon' hValue' hClose =>
      rw [hKey] at hKey'
      obtain ⟨rfl, rfl⟩ := Prod.mk.inj (Option.some.inj hKey')
      rw [hColon] at hColon'
      obtain rfl := (List.cons.inj hColon').2
      obtain ⟨rfl, rfl⟩ := hValue.unique hValue'
      rw [hComma] at hClose
      exact absurd (List.cons.inj hClose).1 (by decide)
  | member hKey' hColon' hValue' hComma' hRest =>
      rw [hKey] at hKey'
      obtain ⟨rfl, rfl⟩ := Prod.mk.inj (Option.some.inj hKey')
      rw [hColon] at hColon'
      obtain rfl := (List.cons.inj hColon').2
      obtain ⟨rfl, rfl⟩ := hValue.unique hValue'
      rw [hComma] at hComma'
      obtain rfl := (List.cons.inj hComma').2
      exact ⟨_, rfl, hRest⟩

theorem readScalar_ne_array (text rest : List Char) (vs : List Tree) :
    readScalar text ≠ some (.array vs, rest) := by
  intro h
  unfold readScalar at h
  split at h
  · simp at h
  · simp at h
  · simp at h
  · simp at h
  · simp at h

theorem readScalar_ne_object (text rest : List Char) (ms : List (String × Tree)) :
    readScalar text ≠ some (.object ms, rest) := by
  intro h
  unfold readScalar at h
  split at h
  · simp at h
  · simp at h
  · simp at h
  · simp at h
  · simp at h

/-- A string is read from what stands between two quotation marks. -/
theorem Reads.body_of_string {text rest : List Char} {s : String}
    (h : Reads text (.value (.string s)) rest) :
    ∃ body, text = '"' :: (body ++ '"' :: rest) ∧ Json.weight s.toList ≤ body.length := by
  cases h with
  | scalar hScalar =>
      unfold readScalar at hScalar
      split at hScalar
      · rw [Option.map_eq_some_iff] at hScalar
        obtain ⟨⟨s', rest'⟩, hRead, hValue⟩ := hScalar
        obtain ⟨hString, rfl⟩ := Prod.mk.inj hValue
        obtain ⟨body, rfl, hBody⟩ := weight_readString hRead
        obtain rfl := Tree.string.inj hString
        exact ⟨body, rfl, by rw [String.toList_ofList]; exact hBody⟩
      · simp at hScalar
      · simp at hScalar
      · simp at hScalar
      · simp at hScalar

/-- An array with items starts with the first of them. -/
theorem Reads.items_of_array {text rest : List Char} {v : Tree} {vs : List Tree}
    (h : Reads text (.value (.array (v :: vs))) rest) :
    ∃ text', text = '[' :: text' ∧ Reads (skipSpace text') (.items (v :: vs)) rest := by
  cases h with
  | scalar hScalar => exact absurd hScalar (readScalar_ne_array _ _ _)
  | array hOpen hItems => exact ⟨_, hOpen, hItems⟩

/-- The first item. -/
theorem Reads.items_head {text rest : List Char} {v : Tree} {vs : List Tree}
    (h : Reads text (.items (v :: vs)) rest) : ∃ text', Reads text (.value v) text' := by
  cases h with
  | lastItem hValue _ => exact ⟨_, hValue⟩
  | item hValue _ _ => exact ⟨_, hValue⟩

/-- The first item and the comma after it. -/
theorem Reads.items_tail {text rest : List Char} {v w : Tree} {vs : List Tree}
    (h : Reads text (.items (v :: w :: vs)) rest) :
    ∃ text' text'', Reads text (.value v) text' ∧ skipSpace text' = ',' :: text'' ∧
      Reads (skipSpace text'') (.items (w :: vs)) rest := by
  cases h with
  | item hValue hComma hRest => exact ⟨_, _, hValue, hComma, hRest⟩

/-- An object whose text goes on with a member has members. -/
theorem Reads.members_of_object {text rest : List Char} {ms : List (String × Tree)}
    (h : Reads ('{' :: '"' :: text) (.value (.object ms)) rest) :
    Reads ('"' :: text) (.members ms) rest := by
  have hQuote : skipSpace ('"' :: text) = '"' :: text := skipSpace_cons (by decide)
  cases h with
  | scalar hScalar => exact absurd hScalar (readScalar_ne_object _ _ _)
  | emptyObject hOpen hClose =>
      obtain rfl := (List.cons.inj hOpen).2
      rw [hQuote] at hClose
      exact absurd (List.cons.inj hClose).1 (by decide)
  | object hOpen hMembers =>
      obtain rfl := (List.cons.inj hOpen).2
      rw [hQuote] at hMembers
      exact hMembers

/-! ## What is read from a known text -/

/-- A plain string between its quotation marks. -/
theorem reads_plain {text : String} (h : Plain text.toList) (rest : List Char) :
    Reads ('"' :: (text.toList ++ '"' :: rest)) (.value (.string text)) rest := by
  apply Reads.scalar
  show (readString (text.toList ++ '"' :: rest)).map _ = _
  rw [readString_plain h]
  simp

/-- A decimal numeral in front of a comma. -/
theorem reads_toDigits (n : ℕ) (rest : List Char) :
    Reads (Nat.toDigits 10 n ++ ',' :: rest) (.value (.number n)) (',' :: rest) := by
  have hRead : readNumber (Nat.toDigits 10 n ++ ',' :: rest) = some (↑n, ',' :: rest) :=
    readNumber_toDigits n (by decide) (by decide) (by decide)
  obtain ⟨c, digits, hDigit, hDigits⟩ := toDigits_eq_cons n
  rw [hDigits] at hRead ⊢
  apply Reads.scalar
  rw [List.cons_append] at hRead ⊢
  unfold readScalar
  split
  · next h => rw [(List.cons.inj h).1] at hDigit; exact nomatch hDigit
  · next h => rw [(List.cons.inj h).1] at hDigit; exact nomatch hDigit
  · next h => rw [(List.cons.inj h).1] at hDigit; exact nomatch hDigit
  · next h => rw [(List.cons.inj h).1] at hDigit; exact nomatch hDigit
  · rw [hRead]
    rfl

theorem skipSpace_toDigits (n : ℕ) (rest : List Char) :
    skipSpace (Nat.toDigits 10 n ++ rest) = Nat.toDigits 10 n ++ rest := by
  obtain ⟨c, digits, hDigit, hDigits⟩ := toDigits_eq_cons n
  rw [hDigits, List.cons_append]
  exact skipSpace_cons (isSpace_of_isDigit hDigit)

/-! ## Members by name -/

/-- A way to tell what a name stands for in an object: a member of that name, and the
only one where no name occurs twice. -/
structure Resolution where
  pick : List (String × Tree) → String → Option Tree
  mem : ∀ {ms : List (String × Tree)} {key : String} {v : Tree},
    pick ms key = some v → (key, v) ∈ ms
  single : ∀ {ms : List (String × Tree)} {key : String} {v : Tree},
    (ms.map Prod.fst).Nodup → (key, v) ∈ ms → pick ms key = some v

/-- The member that comes last. -/
def Resolution.last : Resolution where
  pick ms key := ms.reverse.lookup key
  mem h := by
    obtain ⟨l₁, l₂, hSplit, _⟩ := List.lookup_eq_some_iff.mp h
    rw [← List.mem_reverse, hSplit]
    exact List.mem_append_right l₁ List.mem_cons_self
  single {_ key _} hNodup hMem := by
    obtain ⟨l₁, l₂, rfl⟩ := List.append_of_mem hMem
    rw [List.map_append, List.map_cons, List.nodup_append] at hNodup
    rw [List.lookup_eq_some_iff]
    refine ⟨l₂.reverse, l₁.reverse, by simp, fun m hm => ?_⟩
    have hLater := (List.nodup_cons.mp hNodup.2.1).1
    rw [bne_iff_ne]
    intro hSame
    apply hLater
    show key ∈ l₂.map Prod.fst
    rw [hSame]
    exact List.mem_map_of_mem (List.mem_reverse.mp hm)

/-- The text is an object with exactly the given fields. -/
def Decodes (r : Resolution) (text : String) (fields : List (String × Tree)) : Prop :=
  ∃ ms, read text = some (.object ms) ∧ ∀ key, r.pick ms key = fields.lookup key

/-- A text that is read as the fields themselves has these fields, whatever the
resolution. -/
theorem decodes_of_read {text : String} {fields : List (String × Tree)} (r : Resolution)
    (hRead : read text = some (.object fields)) (hNodup : (fields.map Prod.fst).Nodup) :
    Decodes r text fields := by
  refine ⟨fields, hRead, fun key => ?_⟩
  cases hLookup : fields.lookup key with
  | some v =>
      obtain ⟨l₁, l₂, hSplit, _⟩ := List.lookup_eq_some_iff.mp hLookup
      apply r.single hNodup
      rw [hSplit]
      exact List.mem_append_right l₁ List.mem_cons_self
  | none =>
      cases hPick : r.pick fields key with
      | none => rfl
      | some v =>
          have hNone := List.lookup_eq_none_iff.mp hLookup _ (r.mem hPick)
          simp at hNone

end RoqWhitebit.General.Json
