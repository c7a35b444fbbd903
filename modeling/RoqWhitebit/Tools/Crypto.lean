import Mathlib.Data.List.TakeWhile

/-!
# Signed requests

A private request carries a signature of one text, in which the time, the key, the
receive window and the payload stand one after the other with nothing in between.  The
text still says which time and which payload it was made of, as long as the key and the
window are not all digits (`signedText_eq_iff`): then what follows the time can be told
from it.  So the headers of two requests differ (`createHeadersV2_eq_iff`), and no request
is signed like a session (`createSignatureV2_ne`), as long as signatures do not collide.

The keyed hash and its hexadecimal form belong to `roq-utils` and are a parameter.
-/

namespace RoqWhitebit.Tools

/-- `tools::Crypto`: `sign` is the hexadecimal HMAC of a text under the secret, and the
receive window is in milliseconds. -/
structure Crypto where
  key : String
  sign : String → String
  recvWindow : Int

/-! ## The code -/

/-- What is signed besides the headers: the query without its question mark, or the body. -/
def queryOrBody (query body : String) : String :=
  if query.isEmpty then body else String.ofList (query.toList.drop 1)

namespace Crypto

/-- `create_signature_v2` -/
def createSignatureV2 (c : Crypto) (expiresUtc : Int) : String :=
  c.sign ("GET/realtime" ++ toString expiresUtc)

/-- The text that `create_headers_v2` signs. -/
def signedText (c : Crypto) (query body : String) (nowUtc : Int) : String :=
  toString nowUtc ++ c.key ++ toString c.recvWindow ++ queryOrBody query body

/-- `create_headers_v2`: the path is not signed. -/
def createHeadersV2 (c : Crypto) (_path query body : String) (nowUtc : Int) : String :=
  "X-BAPI-API-KEY: " ++ c.key ++ "\r\n" ++
    "X-BAPI-SIGN: " ++ c.sign (c.signedText query body nowUtc) ++ "\r\n" ++
    "X-BAPI-TIMESTAMP: " ++ toString nowUtc ++ "\r\n" ++
    "X-BAPI-RECV-WINDOW: " ++ toString c.recvWindow ++ "\r\n"

end Crypto

/-! ## Numerals in front of a fixed text -/

/-- The digits of a text in front of another one that is not all digits. -/
theorem takeWhile_digits {digits fixed : List Char} (hDigits : ∀ c ∈ digits, c.isDigit)
    (hFixed : ∃ c ∈ fixed, ¬c.isDigit) (rest : List Char) :
    (digits ++ fixed ++ rest).takeWhile Char.isDigit =
      digits ++ fixed.takeWhile Char.isDigit := by
  have hEnds : (fixed.takeWhile Char.isDigit).length ≠ fixed.length := by
    intro hAll
    have hSame := (List.takeWhile_prefix Char.isDigit (l := fixed)).eq_of_length hAll
    obtain ⟨c, hMem, hNot⟩ := hFixed
    rw [← hSame] at hMem
    exact hNot (List.mem_takeWhile_imp hMem)
  rw [List.append_assoc, List.takeWhile_append_of_pos hDigits, List.takeWhile_append,
    if_neg hEnds]

/-- The digits can be told from what follows. -/
theorem digits_append_inj {digits digits' fixed rest rest' : List Char}
    (hDigits : ∀ c ∈ digits, c.isDigit) (hDigits' : ∀ c ∈ digits', c.isDigit)
    (hFixed : ∃ c ∈ fixed, ¬c.isDigit)
    (h : digits ++ fixed ++ rest = digits' ++ fixed ++ rest') :
    digits = digits' ∧ rest = rest' := by
  have hTaken := takeWhile_digits hDigits hFixed rest
  rw [h, takeWhile_digits hDigits' hFixed rest'] at hTaken
  have hSame := List.append_cancel_right hTaken
  rw [hSame] at h
  exact ⟨hSame.symm, List.append_cancel_left h⟩

/-- A numeral: a minus sign or none, and digits. -/
theorem toList_toString (n : Int) :
    (0 ≤ n ∧ (toString n).toList = Nat.toDigits 10 n.toNat) ∨
      (n < 0 ∧ (toString n).toList = '-' :: Nat.toDigits 10 (-n).toNat) := by
  cases n with
  | ofNat m =>
      refine Or.inl ⟨Int.natCast_nonneg m, ?_⟩
      exact Nat.toList_repr
  | negSucc m =>
      refine Or.inr ⟨Int.negSucc_lt_zero m, ?_⟩
      show ("-" ++ (m + 1).repr).toList = _
      rw [String.toList_append, Nat.toList_repr]
      rfl

theorem toDigits_inj {m n : Nat} (h : Nat.toDigits 10 m = Nat.toDigits 10 n) : m = n := by
  rw [← Nat.ofDigitChars_toDigits (by decide : 1 < 10) (by decide) (n := m), h,
    Nat.ofDigitChars_toDigits (by decide) (by decide)]

theorem isDigit_toDigits (n : Nat) : ∀ c ∈ Nat.toDigits 10 n, c.isDigit :=
  fun _ hMem => Nat.isDigit_of_mem_toDigits (by decide) (by decide) hMem

/-- No run of digits followed by a text starts with a minus sign. -/
theorem digits_append_ne_minus (n : Nat) (rest rest' : List Char) :
    Nat.toDigits 10 n ++ rest ≠ '-' :: rest' := by
  intro h
  cases hDigits : Nat.toDigits 10 n with
  | nil => exact absurd hDigits (Nat.toDigits_ne_nil)
  | cons c digits =>
      rw [hDigits, List.cons_append, List.cons.injEq] at h
      have hDigit := isDigit_toDigits n c (by simp [hDigits])
      rw [h.1] at hDigit
      exact absurd hDigit (by decide)

/-- A numeral starts with a digit or a minus sign. -/
theorem toString_append_ne (n : Int) {ch : Char} (hDigit : ¬ch.isDigit) (hMinus : ch ≠ '-')
    {rest rest' : List Char} : (toString n).toList ++ rest ≠ ch :: rest' := by
  intro h
  cases toList_toString n with
  | inl hNat =>
      rw [hNat.2] at h
      cases hDigits : Nat.toDigits 10 n.toNat with
      | nil => exact absurd hDigits Nat.toDigits_ne_nil
      | cons digit digits =>
          rw [hDigits, List.cons_append, List.cons.injEq] at h
          have hFirst := isDigit_toDigits n.toNat digit (by simp [hDigits])
          rw [h.1] at hFirst
          exact hDigit hFirst
  | inr hNeg =>
      rw [hNeg.2, List.cons_append, List.cons.injEq] at h
      exact hMinus h.1.symm

/-- A numeral can be told from what follows it. -/
theorem toString_append_inj {n n' : Int} {fixed rest rest' : List Char}
    (hFixed : ∃ c ∈ fixed, ¬c.isDigit)
    (h : (toString n).toList ++ fixed ++ rest = (toString n').toList ++ fixed ++ rest') :
    n = n' ∧ rest = rest' := by
  cases toList_toString n with
  | inl hNat =>
      cases toList_toString n' with
      | inl hNat' =>
          rw [hNat.2, hNat'.2] at h
          have hBoth := digits_append_inj (isDigit_toDigits _) (isDigit_toDigits _) hFixed h
          have hSame := toDigits_inj hBoth.1
          exact ⟨by omega, hBoth.2⟩
      | inr hNeg' =>
          rw [hNat.2, hNeg'.2, List.append_assoc] at h
          exact absurd h (digits_append_ne_minus _ _ _)
  | inr hNeg =>
      cases toList_toString n' with
      | inl hNat' =>
          rw [hNeg.2, hNat'.2, List.append_assoc (Nat.toDigits _ _)] at h
          exact absurd h.symm (digits_append_ne_minus _ _ _)
      | inr hNeg' =>
          rw [hNeg.2, hNeg'.2] at h
          have hBoth := digits_append_inj (isDigit_toDigits _) (isDigit_toDigits _) hFixed
            (List.cons.inj h).2
          have hSame := toDigits_inj hBoth.1
          have hLower := hNeg.1
          have hLower' := hNeg'.1
          exact ⟨by omega, hBoth.2⟩

/-! ## What a signature is of -/

namespace Crypto

theorem toList_signedText (c : Crypto) (query body : String) (nowUtc : Int) :
    (c.signedText query body nowUtc).toList =
      (toString nowUtc).toList ++ (c.key ++ toString c.recvWindow).toList ++
        (queryOrBody query body).toList := by
  simp only [signedText, String.toList_append, List.append_assoc]

/-- The time and the payload can be told from the text that is signed. -/
theorem signedText_inj (c : Crypto)
    (hTold : ∃ ch ∈ (c.key ++ toString c.recvWindow).toList, ¬ch.isDigit)
    {query body query' body' : String} {nowUtc nowUtc' : Int}
    (hSame : c.signedText query body nowUtc = c.signedText query' body' nowUtc') :
    nowUtc = nowUtc' ∧ queryOrBody query body = queryOrBody query' body' := by
  have hLists := congrArg String.toList hSame
  rw [toList_signedText, toList_signedText] at hLists
  have hBoth := toString_append_inj hTold hLists
  exact ⟨hBoth.1, String.toList_injective hBoth.2⟩

/-- **What is signed says when it was signed and what for**: if the key and the receive
window are not all digits, no two requests of one account share the text that is signed,
unless they agree on the time and on the payload. -/
theorem signedText_eq_iff (c : Crypto)
    (hTold : ∃ ch ∈ (c.key ++ toString c.recvWindow).toList, ¬ch.isDigit)
    (query body query' body' : String) (nowUtc nowUtc' : Int) :
    c.signedText query body nowUtc = c.signedText query' body' nowUtc' ↔
      nowUtc = nowUtc' ∧ queryOrBody query body = queryOrBody query' body' := by
  constructor
  · exact c.signedText_inj hTold
  · intro hBoth
    rw [signedText, signedText, hBoth.1, hBoth.2]

/-- An account whose key has a letter in it. -/
def letterKey : Crypto where
  key := "k1"
  sign := id
  recvWindow := 5000

theorem signedText_letterKey :
    letterKey.signedText "?a=1" "" 12 = letterKey.signedText "" "a=1" 12 ↔
      (12 : Int) = 12 ∧ queryOrBody "?a=1" "" = queryOrBody "" "a=1" :=
  letterKey.signedText_eq_iff ⟨'k', by decide +kernel, by decide⟩ "?a=1" "" "" "a=1" 12 12

/-- Texts of one length can be told from what stands around them. -/
theorem append_middle_inj {head sign sign' tail tail' : String}
    (hLength : sign.length = sign'.length)
    (h : head ++ sign ++ tail = head ++ sign' ++ tail') : sign = sign' := by
  have hLists := congrArg String.toList h
  simp only [String.toList_append, List.append_assoc] at hLists
  have hRest := List.append_cancel_left hLists
  exact String.toList_injective (List.append_inj hRest hLength).1

/-- The signature stands between what is the same in all headers of an account, and the
time. -/
theorem createHeadersV2_eq (c : Crypto) (path query body : String) (nowUtc : Int) :
    c.createHeadersV2 path query body nowUtc =
      "X-BAPI-API-KEY: " ++ c.key ++ "\r\n" ++ "X-BAPI-SIGN: " ++
        c.sign (c.signedText query body nowUtc) ++
          ("\r\n" ++ "X-BAPI-TIMESTAMP: " ++ toString nowUtc ++ "\r\n" ++
            "X-BAPI-RECV-WINDOW: " ++ toString c.recvWindow ++ "\r\n") := by
  have hAssoc (head sign line field time field' window : String) :
      head ++ sign ++ line ++ field ++ time ++ line ++ field' ++ window ++ line =
        head ++ sign ++ (line ++ field ++ time ++ line ++ field' ++ window ++ line) := by
    simp only [String.append_assoc]
  exact hAssoc _ _ _ _ _ _ _

/-- **The headers of two requests differ** unless the requests agree on the time and on the
payload: signatures are of one length, and those of the two texts do not collide. -/
theorem createHeadersV2_eq_iff (c : Crypto)
    (hTold : ∃ ch ∈ (c.key ++ toString c.recvWindow).toList, ¬ch.isDigit)
    (hLength : ∀ text text', (c.sign text).length = (c.sign text').length)
    (path query body path' query' body' : String) (nowUtc nowUtc' : Int)
    (hApart : c.sign (c.signedText query body nowUtc) =
        c.sign (c.signedText query' body' nowUtc') →
      c.signedText query body nowUtc = c.signedText query' body' nowUtc') :
    c.createHeadersV2 path query body nowUtc = c.createHeadersV2 path' query' body' nowUtc' ↔
      nowUtc = nowUtc' ∧ queryOrBody query body = queryOrBody query' body' := by
  constructor
  · intro hSame
    rw [createHeadersV2_eq, createHeadersV2_eq] at hSame
    exact c.signedText_inj hTold (hApart (append_middle_inj (hLength _ _) hSame))
  · intro hBoth
    have hText : c.signedText query body nowUtc = c.signedText query' body' nowUtc' := by
      rw [signedText, signedText, hBoth.1, hBoth.2]
    unfold createHeadersV2
    rw [hText, hBoth.1]

/-- The signature of a realtime session is not that of any request: no numeral starts as
the text of the session does. -/
theorem createSignatureV2_ne (c : Crypto) (expiresUtc nowUtc : Int) (query body : String)
    (hApart : c.sign ("GET/realtime" ++ toString expiresUtc) =
        c.sign (c.signedText query body nowUtc) →
      "GET/realtime" ++ toString expiresUtc = c.signedText query body nowUtc) :
    c.createSignatureV2 expiresUtc ≠ c.sign (c.signedText query body nowUtc) := by
  intro hSame
  have hText : "GET/realtime".toList = 'G' :: "ET/realtime".toList := by decide
  have hLists := congrArg String.toList (hApart hSame)
  rw [toList_signedText, List.append_assoc, String.toList_append, hText, List.cons_append]
    at hLists
  have hDigit : ¬('G'.isDigit) := by decide
  have hMinus : 'G' ≠ '-' := by decide
  exact toString_append_ne nowUtc hDigit hMinus hLists.symm

/-- Without a letter the time runs into the key. -/
example :
    ({ letterKey with key := "1" } : Crypto).signedText "" "15000" 1 =
      ({ letterKey with key := "1" } : Crypto).signedText "" "" 115000 := by
  decide +kernel

end Crypto

end RoqWhitebit.Tools
