import Mathlib.Algebra.Field.Rat
import Mathlib.Data.List.TakeWhile

/-!
# The tokens of JSON text

White space, numbers and strings of RFC 8259, read from the front of a list of
characters.  A reader returns what it has read together with the rest of the text.

A string is read in two stages.  The first takes the text apart into elements, which
are characters or the four-digit codes of `\u` escapes; the second joins surrogate
pairs.  A surrogate without its partner stands for no character, and the string is
then rejected.

`weight` counts the characters a string needs at least: one for each character that
can stand for itself, two for each `special` one.  `weight_readString` says that no
string is read from fewer.
-/

namespace RoqWhitebit.General.Json

/-! ## White space -/

def isSpace (c : Char) : Bool := c = ' ' || c = '\t' || c = '\n' || c = '\r'

def skipSpace (text : List Char) : List Char := text.dropWhile isSpace

theorem skipSpace_suffix (text : List Char) : skipSpace text <:+ text :=
  List.dropWhile_suffix isSpace

theorem skipSpace_cons {c : Char} {text : List Char} (h : isSpace c = false) :
    skipSpace (c :: text) = c :: text :=
  List.dropWhile_cons_of_neg (by rw [h]; exact Bool.false_ne_true)

/-! ## Numbers -/

/-- The digits at the front. -/
def readDigits (text : List Char) : List Char × List Char :=
  (text.takeWhile Char.isDigit, text.dropWhile Char.isDigit)

/-- The part before the point: no superfluous zero in front. -/
def readInteger (text : List Char) : Option (ℚ × List Char) :=
  match readDigits text with
  | ([], _) => none
  | (['0'], rest) => some (0, rest)
  | ('0' :: _, _) => none
  | (digits, rest) => some (Nat.ofDigitChars 10 digits 0, rest)

/-- The part after the point, if there is one. -/
def readFraction : List Char → Option (ℚ × List Char)
  | '.' :: text =>
      match readDigits text with
      | ([], _) => none
      | (digits, rest) =>
          some (Nat.ofDigitChars 10 digits 0 / 10 ^ digits.length, rest)
  | text => some (0, text)

/-- A sign: whether it is a minus. -/
def readSign : List Char → Bool × List Char
  | '-' :: text => (true, text)
  | '+' :: text => (false, text)
  | text => (false, text)

/-- The exponent, if there is one. -/
def readExponent : List Char → Option (ℤ × List Char)
  | c :: text =>
      if c = 'e' ∨ c = 'E' then
        match readDigits (readSign text).2 with
        | ([], _) => none
        | (digits, rest) =>
            let n : ℤ := Nat.ofDigitChars 10 digits 0
            some (if (readSign text).1 then -n else n, rest)
      else some (0, c :: text)
  | [] => some (0, [])

/-- A number without its sign. -/
def readUnsigned (text : List Char) : Option (ℚ × List Char) := do
  let (int, text) ← readInteger text
  let (fraction, text) ← readFraction text
  let (exponent, text) ← readExponent text
  return ((int + fraction) * 10 ^ exponent, text)

def readNumber : List Char → Option (ℚ × List Char)
  | '-' :: text => (readUnsigned text).map fun (x, rest) => (-x, rest)
  | text => readUnsigned text

theorem readDigits_eq (text : List Char) :
    (readDigits text).1 ++ (readDigits text).2 = text :=
  List.takeWhile_append_dropWhile

theorem readDigits_append {digits rest : List Char} (hDigits : ∀ c ∈ digits, c.isDigit)
    (hRest : ∀ c, rest.head? = some c → c.isDigit = false) :
    readDigits (digits ++ rest) = (digits, rest) := by
  unfold readDigits
  rw [List.takeWhile_append_of_pos hDigits, List.dropWhile_append_of_pos hDigits]
  cases rest with
  | nil => simp
  | cons c rest =>
      have hHead : c.isDigit = false := hRest c rfl
      simp [hHead]

theorem readDigits_suffix (text : List Char) : (readDigits text).2 <:+ text :=
  List.dropWhile_suffix Char.isDigit

/-- An integer part takes at least one digit. -/
theorem readInteger_eq {text rest : List Char} {x : ℚ}
    (h : readInteger text = some (x, rest)) :
    ∃ c text', c.isDigit = true ∧ text = c :: text' ∧ rest <:+ text' := by
  have hSplit := readDigits_eq text
  have hDigits : ∀ c ∈ (readDigits text).1, c.isDigit = true :=
    fun c hc => List.mem_takeWhile_imp hc
  unfold readInteger at h
  cases hRead : readDigits text with
  | mk digits rest' =>
      rw [hRead] at h hSplit hDigits
      cases digits with
      | nil => exact nomatch h
      | cons c digits =>
          have hSame : rest' = rest := by
            split at h
            · exact nomatch h
            · simp_all
            · exact nomatch h
            · simp_all
          refine ⟨c, digits ++ rest', hDigits c List.mem_cons_self, hSplit.symm, ?_⟩
          rw [← hSame]
          exact List.suffix_append digits rest'

theorem readFraction_suffix {text rest : List Char} {x : ℚ}
    (h : readFraction text = some (x, rest)) : rest <:+ text := by
  unfold readFraction at h
  split at h
  · next text =>
      have hRest := readDigits_suffix text
      split at h
      · exact nomatch h
      · next digits rest' _ hRead =>
          rw [hRead] at hRest
          obtain ⟨-, rfl⟩ := Prod.mk.inj (Option.some.inj h)
          exact hRest.trans (List.suffix_cons _ _)
  · obtain ⟨-, rfl⟩ := Prod.mk.inj (Option.some.inj h)
    exact List.suffix_refl _

theorem readSign_suffix (text : List Char) : (readSign text).2 <:+ text := by
  unfold readSign
  split
  · exact List.suffix_cons _ _
  · exact List.suffix_cons _ _
  · exact List.suffix_refl _

theorem readExponent_suffix {text rest : List Char} {n : ℤ}
    (h : readExponent text = some (n, rest)) : rest <:+ text := by
  unfold readExponent at h
  split at h
  · next c text =>
      split at h
      · have hRest := (readDigits_suffix (readSign text).2).trans (readSign_suffix text)
        split at h
        · exact nomatch h
        · next digits rest' _ hRead =>
            rw [hRead] at hRest
            obtain ⟨-, rfl⟩ := Prod.mk.inj (Option.some.inj h)
            exact hRest.trans (List.suffix_cons _ _)
      · obtain ⟨-, rfl⟩ := Prod.mk.inj (Option.some.inj h)
        exact List.suffix_refl _
  · obtain ⟨-, rfl⟩ := Prod.mk.inj (Option.some.inj h)
    exact List.suffix_refl _

/-- A number without its sign begins with a digit. -/
theorem readUnsigned_eq {text rest : List Char} {x : ℚ}
    (h : readUnsigned text = some (x, rest)) :
    ∃ c text', c.isDigit = true ∧ text = c :: text' ∧ rest <:+ text' := by
  unfold readUnsigned at h
  simp only [Option.bind_eq_bind, Option.bind_eq_some_iff, Prod.exists] at h
  obtain ⟨int, text₁, hInteger, fraction, text₂, hFraction, exponent, text₃, hExponent,
    hValue⟩ := h
  obtain ⟨-, rfl⟩ := Prod.mk.inj (Option.some.inj hValue)
  obtain ⟨c, text', hDigit, hText, hRest⟩ := readInteger_eq hInteger
  exact ⟨c, text', hDigit, hText,
    ((readExponent_suffix hExponent).trans (readFraction_suffix hFraction)).trans hRest⟩

/-- A number begins with a minus or a digit. -/
theorem readNumber_eq {text rest : List Char} {x : ℚ}
    (h : readNumber text = some (x, rest)) :
    ∃ c text', (c = '-' ∨ c.isDigit = true) ∧ text = c :: text' ∧ rest <:+ text' := by
  unfold readNumber at h
  split at h
  · next text =>
      rw [Option.map_eq_some_iff] at h
      obtain ⟨⟨y, rest'⟩, hRead, hValue⟩ := h
      obtain ⟨-, rfl⟩ := Prod.mk.inj hValue
      obtain ⟨c, text', _, rfl, hRest⟩ := readUnsigned_eq hRead
      exact ⟨'-', c :: text', .inl rfl, rfl, hRest.trans (List.suffix_cons _ _)⟩
  · obtain ⟨c, text', hDigit, hText, hRest⟩ := readUnsigned_eq h
    exact ⟨c, text', .inr hDigit, hText, hRest⟩

/-! ## Decimal numerals -/

theorem digitChar_ne_zero {n : ℕ} (hPos : 0 < n) (hLt : n < 10) : n.digitChar ≠ '0' := by
  intro h
  have hValue := Nat.toNat_digitChar_sub_48_of_lt_ten hLt
  rw [h] at hValue
  simp at hValue
  omega

/-- A positive numeral has no zero in front. -/
theorem head_toDigits_ne_zero {n : ℕ} (hPos : 0 < n) :
    (Nat.toDigits 10 n).head? ≠ some '0' := by
  induction n using Nat.strongRecOn with
  | ind n ih =>
      rw [Nat.toDigits_eq_if (by omega)]
      split
      · next hLt =>
          intro h
          exact digitChar_ne_zero hPos hLt (Option.some.inj h)
      · next hGe =>
          have hHead := ih (n / 10) (by omega) (by omega)
          cases hDigits : Nat.toDigits 10 (n / 10) with
          | nil => exact absurd hDigits Nat.toDigits_ne_nil
          | cons c cs =>
              rw [hDigits] at hHead
              exact hHead

theorem readInteger_toDigits (n : ℕ) {rest : List Char}
    (hRest : ∀ c, rest.head? = some c → c.isDigit = false) :
    readInteger (Nat.toDigits 10 n ++ rest) = some (↑n, rest) := by
  have hRead := readDigits_append
    (fun c hc => Nat.isDigit_of_mem_toDigits (b := 10) (n := n) (by omega) (by omega) hc) hRest
  unfold readInteger
  rw [hRead]
  rcases Nat.eq_zero_or_pos n with rfl | hPos
  · rw [Nat.toDigits_zero]
    simp
  · have hHead := head_toDigits_ne_zero hPos
    split
    · next hNil => exact absurd (Prod.mk.inj hNil).1 Nat.toDigits_ne_nil
    · next hZero =>
        rw [(Prod.mk.inj hZero).1] at hHead
        exact absurd rfl hHead
    · next hZero =>
        rw [(Prod.mk.inj hZero).1] at hHead
        exact absurd rfl hHead
    · next hDigits =>
        obtain ⟨rfl, rfl⟩ := Prod.mk.inj hDigits
        rw [Nat.ofDigitChars_toDigits (by omega) (by omega)]

/-- A decimal numeral is read back where neither a digit, a point nor an exponent
follows. -/
theorem readNumber_toDigits (n : ℕ) {c : Char} {rest : List Char}
    (hDigit : c.isDigit = false) (hPoint : c ≠ '.') (hExponent : ¬(c = 'e' ∨ c = 'E')) :
    readNumber (Nat.toDigits 10 n ++ c :: rest) = some (↑n, c :: rest) := by
  have hRest : ∀ d, (c :: rest).head? = some d → d.isDigit = false := by
    intro d hd
    rw [← Option.some.inj hd]
    exact hDigit
  have hFraction : readFraction (c :: rest) = some (0, c :: rest) := by
    unfold readFraction
    split
    · next hHead => exact absurd (List.cons.inj hHead).1 hPoint
    · rfl
  have hUnsigned : readUnsigned (Nat.toDigits 10 n ++ c :: rest) = some (↑n, c :: rest) := by
    simp [readUnsigned, readInteger_toDigits n hRest, hFraction, readExponent,
      if_neg hExponent]
  unfold readNumber
  split
  · next text hMinus =>
      have hMem : '-' ∈ Nat.toDigits 10 n := by
        cases hDigits : Nat.toDigits 10 n with
        | nil => exact absurd hDigits Nat.toDigits_ne_nil
        | cons d ds =>
            rw [hDigits] at hMinus
            rw [← (List.cons.inj hMinus).1]
            exact List.mem_cons_self
      exact nomatch Nat.isDigit_of_mem_toDigits (by omega) (by omega) hMem
  · exact hUnsigned

theorem isSpace_of_isDigit {c : Char} (h : c.isDigit = true) : isSpace c = false := by
  by_contra hSpace
  simp only [isSpace, Bool.or_eq_true, decide_eq_true_eq, Bool.not_eq_false] at hSpace
  rcases hSpace with ((rfl | rfl) | rfl) | rfl
  · exact nomatch h
  · exact nomatch h
  · exact nomatch h
  · exact nomatch h

/-- A decimal numeral begins with a digit. -/
theorem toDigits_eq_cons (n : ℕ) :
    ∃ c digits, c.isDigit = true ∧ Nat.toDigits 10 n = c :: digits := by
  cases hDigits : Nat.toDigits 10 n with
  | nil => exact absurd hDigits Nat.toDigits_ne_nil
  | cons c digits =>
      refine ⟨c, digits, ?_, rfl⟩
      exact Nat.isDigit_of_mem_toDigits (b := 10) (n := n) (by omega) (by omega)
        (by rw [hDigits]; exact List.mem_cons_self)

/-! ## Strings -/

/-- A character that cannot stand for itself inside a string: the quotation mark, the
backslash and the control characters. -/
def special (c : Char) : Bool := c = '"' || c = '\\' || c.toNat < 0x20

/-- The characters a text needs at least inside a string. -/
def weight (text : List Char) : ℕ := text.length + text.countP special

/-- An element of a string: a character, or the code of a `\u` escape. -/
inductive Element where
  | char (c : Char)
  | code (n : ℕ)
  deriving DecidableEq, Repr

/-- The characters with an escape of two letters. -/
def escaped : Char → Option Char
  | '"' => some '"'
  | '\\' => some '\\'
  | '/' => some '/'
  | 'b' => some '\x08'
  | 'f' => some '\x0c'
  | 'n' => some '\n'
  | 'r' => some '\r'
  | 't' => some '\t'
  | _ => none

def hexValue (c : Char) : Option ℕ :=
  if '0' ≤ c ∧ c ≤ '9' then some (c.toNat - 48)
  else if 'A' ≤ c ∧ c ≤ 'F' then some (c.toNat - 55)
  else if 'a' ≤ c ∧ c ≤ 'f' then some (c.toNat - 87)
  else none

/-- The value of four hexadecimal digits. -/
def hexCode (a b c d : Char) : Option ℕ := do
  return (((← hexValue a) * 16 + (← hexValue b)) * 16 + (← hexValue c)) * 16 + (← hexValue d)

/-- The elements up to the closing quotation mark. -/
def readElements : List Char → Option (List Element × List Char)
  | [] => none
  | '"' :: rest => some ([], rest)
  | '\\' :: 'u' :: a :: b :: c :: d :: text => do
      let n ← hexCode a b c d
      let (elements, rest) ← readElements text
      return (.code n :: elements, rest)
  | '\\' :: c :: text => do
      let e ← escaped c
      let (elements, rest) ← readElements text
      return (.char e :: elements, rest)
  | c :: text =>
      if special c then none
      else do
        let (elements, rest) ← readElements text
        return (.char c :: elements, rest)

/-- The character of a surrogate pair. -/
def pair (n m : ℕ) : Char := Char.ofNat (0x10000 + (n - 0xd800) * 0x400 + (m - 0xdc00))

/-- The characters elements stand for. -/
def join : List Element → Option (List Char)
  | [] => some []
  | .char c :: elements => do return c :: (← join elements)
  | .code n :: .code m :: elements =>
      if 0xd800 ≤ n ∧ n < 0xdc00 then
        if 0xdc00 ≤ m ∧ m < 0xe000 then do return pair n m :: (← join elements)
        else none
      else if 0xdc00 ≤ n ∧ n < 0xe000 then none
      else do return Char.ofNat n :: (← join (.code m :: elements))
  | .code n :: elements =>
      if 0xd800 ≤ n ∧ n < 0xe000 then none
      else do return Char.ofNat n :: (← join elements)

/-- A string after its opening quotation mark. -/
def readString (text : List Char) : Option (List Char × List Char) := do
  let (elements, rest) ← readElements text
  return (← join elements, rest)

example : readString ['a', '\\', 'u', '0', '0', '4', '1', '"', 'b'] =
    some (['a', 'A'], ['b']) := by
  decide

/-! ### What a string takes -/

@[simp] theorem weight_nil : weight [] = 0 := rfl

theorem weight_cons (c : Char) (text : List Char) :
    weight (c :: text) = weight text + if special c then 2 else 1 := by
  unfold weight
  rw [List.countP_cons, List.length_cons]
  split <;> omega

theorem weight_cons_le (c : Char) (text : List Char) :
    weight (c :: text) ≤ weight text + 2 := by
  rw [weight_cons]
  split <;> omega

/-- The characters an element takes at least. -/
def Element.weight : Element → ℕ
  | .char c => if special c then 2 else 1
  | .code _ => 6

/-- The elements end at a quotation mark, and take what they need before it. -/
theorem readElements_eq {text rest : List Char} {elements : List Element}
    (h : readElements text = some (elements, rest)) :
    ∃ body, text = body ++ '"' :: rest ∧
      (elements.map Element.weight).sum ≤ body.length := by
  fun_induction readElements text generalizing elements rest with
  | case1 => exact nomatch h
  | case2 rest' =>
      obtain ⟨rfl, rfl⟩ := Prod.mk.inj (Option.some.inj h)
      exact ⟨[], rfl, Nat.le_refl 0⟩
  | case3 a b c d text ih =>
      simp only [Option.bind_eq_bind, Option.bind_eq_some_iff, Prod.exists] at h
      obtain ⟨n, -, elements', rest', hRead, hValue⟩ := h
      obtain ⟨rfl, rfl⟩ := Prod.mk.inj (Option.some.inj hValue)
      obtain ⟨body, rfl, hBody⟩ := ih hRead
      refine ⟨'\\' :: 'u' :: a :: b :: c :: d :: body, rfl, ?_⟩
      simp only [List.map_cons, List.sum_cons, Element.weight, List.length_cons]
      omega
  | case4 c text _ ih =>
      simp only [Option.bind_eq_bind, Option.bind_eq_some_iff, Prod.exists] at h
      obtain ⟨e, -, elements', rest', hRead, hValue⟩ := h
      obtain ⟨rfl, rfl⟩ := Prod.mk.inj (Option.some.inj hValue)
      obtain ⟨body, rfl, hBody⟩ := ih hRead
      refine ⟨'\\' :: c :: body, rfl, ?_⟩
      simp only [List.map_cons, List.sum_cons, Element.weight, List.length_cons]
      split <;> omega
  | case5 => exact nomatch h
  | case6 c text _ _ _ hPlain ih =>
      simp only [Option.bind_eq_bind, Option.bind_eq_some_iff, Prod.exists] at h
      obtain ⟨elements', rest', hRead, hValue⟩ := h
      obtain ⟨rfl, rfl⟩ := Prod.mk.inj (Option.some.inj hValue)
      obtain ⟨body, rfl, hBody⟩ := ih hRead
      refine ⟨c :: body, rfl, ?_⟩
      simp only [List.map_cons, List.sum_cons, Element.weight, List.length_cons,
        if_neg hPlain]
      omega

/-- The characters need no more than the elements take. -/
theorem weight_join {elements : List Element} {text : List Char}
    (h : join elements = some text) : weight text ≤ (elements.map Element.weight).sum := by
  fun_induction join elements generalizing text with
  | case1 =>
      obtain rfl := Option.some.inj h
      exact Nat.le_refl 0
  | case2 c elements ih =>
      simp only [Option.bind_eq_bind, Option.bind_eq_some_iff] at h
      obtain ⟨text', hJoin, hText⟩ := h
      obtain rfl := Option.some.inj hText
      have hRest := ih hJoin
      rw [weight_cons]
      simp only [List.map_cons, List.sum_cons, Element.weight]
      omega
  | case3 n m elements _ _ ih =>
      simp only [Option.bind_eq_bind, Option.bind_eq_some_iff] at h
      obtain ⟨text', hJoin, hText⟩ := h
      obtain rfl := Option.some.inj hText
      have hRest := ih hJoin
      have hHead := weight_cons_le (pair n m) text'
      simp only [List.map_cons, List.sum_cons, Element.weight]
      omega
  | case4 => exact nomatch h
  | case5 => exact nomatch h
  | case6 n m elements _ _ ih =>
      simp only [Option.bind_eq_bind, Option.bind_eq_some_iff] at h
      obtain ⟨text', hJoin, hText⟩ := h
      obtain rfl := Option.some.inj hText
      have hRest := ih hJoin
      have hHead := weight_cons_le (Char.ofNat n) text'
      simp only [List.map_cons, List.sum_cons, Element.weight] at hRest ⊢
      omega
  | case7 => exact nomatch h
  | case8 n elements _ _ ih =>
      simp only [Option.bind_eq_bind, Option.bind_eq_some_iff] at h
      obtain ⟨text', hJoin, hText⟩ := h
      obtain rfl := Option.some.inj hText
      have hRest := ih hJoin
      have hHead := weight_cons_le (Char.ofNat n) text'
      simp only [List.map_cons, List.sum_cons, Element.weight] at hRest ⊢
      omega

/-- **A string takes its weight**: it ends at a quotation mark, and what stands before
the mark is long enough for an escape of every special character. -/
theorem weight_readString {text rest s : List Char} (h : readString text = some (s, rest)) :
    ∃ body, text = body ++ '"' :: rest ∧ weight s ≤ body.length := by
  unfold readString at h
  simp only [Option.bind_eq_bind, Option.bind_eq_some_iff, Prod.exists] at h
  obtain ⟨elements, rest', hRead, s', hJoin, hValue⟩ := h
  obtain ⟨rfl, rfl⟩ := Prod.mk.inj (Option.some.inj hValue)
  obtain ⟨body, hText, hBody⟩ := readElements_eq hRead
  exact ⟨body, hText, (weight_join hJoin).trans hBody⟩

/-! ### Plain strings -/

/-- Every character stands for itself. -/
def Plain (text : List Char) : Prop := ∀ c ∈ text, special c = false

instance (text : List Char) : Decidable (Plain text) :=
  List.decidableBAll (fun c => special c = false) text

/-- Letters and the underscore are plain. -/
theorem plain_of_letters {text : List Char} (h : text.all fun c => c.isAlpha || c = '_') :
    Plain text := by
  intro c hc
  have hKind := List.all_eq_true.mp h c hc
  rw [Bool.or_eq_true, decide_eq_true_eq] at hKind
  rcases hKind with hLetter | rfl
  · have hQuote : c ≠ '"' := by rintro rfl; exact absurd hLetter (by decide)
    have hBackslash : c ≠ '\\' := by rintro rfl; exact absurd hLetter (by decide)
    have hHigh : 65 ≤ c.toNat := by
      rcases Bool.or_eq_true_iff.mp hLetter with hUpper | hLower
      · have hLow : 'A'.val ≤ c.val := (of_decide_eq_true hUpper).1
        exact UInt32.le_iff_toNat_le.mp hLow
      · have hLow : 'a'.val ≤ c.val := of_decide_eq_true (Bool.and_eq_true_iff.mp hLower).1
        exact (by decide : 65 ≤ 97).trans (UInt32.le_iff_toNat_le.mp hLow)
    simp only [special, hQuote, hBackslash, decide_false, Bool.false_or, decide_eq_false_iff_not]
    omega
  · decide

theorem plain_of_weight_le {text : List Char} (h : weight text ≤ text.length) :
    Plain text := by
  unfold weight at h
  have hNone : text.countP special = 0 := by omega
  intro c hc
  rw [List.countP_eq_zero] at hNone
  exact Bool.eq_false_iff.mpr (hNone c hc)

theorem readElements_plain {text : List Char} (h : Plain text) (rest : List Char) :
    readElements (text ++ '"' :: rest) = some (text.map .char, rest) := by
  induction text with
  | nil => rfl
  | cons c text ih =>
      have hPlain : special c = false := h c List.mem_cons_self
      have hRest := ih fun d hd => h d (List.mem_cons_of_mem c hd)
      have hQuote : c ≠ '"' := by rintro rfl; exact nomatch hPlain
      have hBackslash : c ≠ '\\' := by rintro rfl; exact nomatch hPlain
      rw [List.cons_append, readElements, hRest, hPlain]
      · rfl
      · exact hQuote
      · rintro _ _ _ _ _ h' _
        exact hBackslash h'
      · rintro _ _ h' _
        exact hBackslash h'

theorem join_map_char (text : List Char) : join (text.map .char) = some text := by
  induction text with
  | nil => rfl
  | cons c text ih => rw [List.map_cons, join, ih]; rfl

/-- A plain string is read as it stands. -/
theorem readString_plain {text : List Char} (h : Plain text) (rest : List Char) :
    readString (text ++ '"' :: rest) = some (text, rest) := by
  unfold readString
  rw [readElements_plain h]
  simp [join_map_char]

end RoqWhitebit.General.Json
