/-
  CivicPulse.Platform — what the program takes from outside its own source: Unicode
  tables, SHA-256, Pydantic's coercions and its text form of a time, CPython's recursion
  limit. Each is a parameter; the fields after it are the documented facts the proofs
  rest on.

  `Platform.ascii` is an instance: it agrees with the real functions on ASCII text, on
  the digests and the instant listed in it. `digest_injective`: no two of its digests are
  the same.
-/

import Mathlib.Data.List.Nodup
import CivicPulse.Text.JsonProofs

namespace CivicPulse

open Text

class Platform where
  /-- `str.lower()`. -/
  lower : Str → Str
  /-- `str.isalnum()` of one character. -/
  isAlnum : Char → Bool
  isAlnum_ascii : ∀ c : Char, c.toNat < 128 → isAlnum c = c.isAlphanum
  isAlnum_guillemets : isAlnum '‹' = false ∧ isAlnum '›' = false
  /-- `hashlib.sha256(s.encode()).hexdigest()`. -/
  sha256 : Str → Str
  /-- `datetime.isoformat()` of a time in UTC, in microseconds. -/
  isoformat : Int → Str
  /-- Pydantic's JSON form of such a time, and what it reads as one. -/
  dumpDatetime : Int → Str
  datetimeOf : Json → Option Int
  datetimeOf_dump : ∀ t, datetimeOf (.str (codes (dumpDatetime t))) = some t
  /-- What Pydantic reads as an `int` and as a `float`. -/
  intOf : Json → Option Int
  intOf_int : ∀ n, intOf (.int n) = some n
  floatOf : Json → Option PyFloat
  floatOf_float : ∀ x, floatOf (.float x) = some x
  /-- How deep `json.loads` may nest. -/
  recursionLimit : Nat
  recursionLimit_ge : 100 ≤ recursionLimit

export Platform (lower isAlnum sha256 isoformat dumpDatetime recursionLimit)

namespace Platform

/-! ## An instance -/

def epoch : Str := "1970-01-01T00:00:00".toList

def zulu (t : Int) : Str := if t = 0 then epoch ++ ['Z'] else '@' :: intText t

def readInt : Str → Int
  | '-' :: ds => -(Nat.ofDigitChars 10 ds 0 : Nat)
  | ds => (Nat.ofDigitChars 10 ds 0 : Nat)

def readZulu (s : Str) : Int :=
  match s with
  | '@' :: ds => readInt ds
  | _ => 0

theorem readInt_intText (n : Int) : readInt (intText n) = n := by
  have hnat : ∀ k : Nat, Nat.ofDigitChars 10 (natText k) 0 = k := fun _ => Nat.ofDigitChars_ten_toDigits
  cases n with
  | ofNat k =>
    unfold readInt
    split
    · rename_i ds h
      have : '-' ∈ natText k := by rw [show natText k = '-' :: ds from h]; exact List.mem_cons_self
      exact absurd (digits_natText _ this) (by decide)
    · exact congrArg Int.ofNat (hnat k)
  | negSucc k =>
    show -(Nat.ofDigitChars 10 (natText (k + 1)) 0 : Int) = _
    rw [hnat]
    rfl

theorem readZulu_zulu (t : Int) : readZulu (zulu t) = t := by
  unfold zulu
  split
  · subst t; decide
  · exact readInt_intText t

theorem codes_ofNat (s : Str) : (codes s).map Char.ofNat = s := by
  simp [codes, Function.comp_def]

/-- Digests of a few texts. -/
def digests : List (Str × Str) :=
  [("water pipe burst near school|street 12".toList,
      "f0405904ab802822156c85479a3235cf8e4536d77265573d42df0c768b8393ae".toList),
    ("there is a live wire here|street 12".toList,
      "641e8f2572427985624b3af715d8018777c81c086491672953f49a8832eceee5".toList),
    ("burst pipe|sector g-11|street 12".toList,
      "072c7fc1cc6adafcae3052c20faf644c50ec3e9b68c56d882d189a4eb7a2ce31".toList)]

/-- Every other text is its own digest, marked as no hexadecimal one. -/
def digest (s : Str) : Str := ((digests.find? (·.1 == s)).map (·.2)).getD ('#' :: s)

theorem digest_cases (s : Str) : (s, digest s) ∈ digests ∨ digest s = '#' :: s := by
  rcases h : digests.find? (·.1 == s) with _ | p
  · exact .inr (by rw [digest, h]; rfl)
  · have hp : p.1 = s := by simpa using List.find?_some h
    have hd : digest s = p.2 := by rw [digest, h]; rfl
    exact .inl (by rw [hd, ← hp]; exact List.mem_of_find?_eq_some h)

theorem digest_injective : Function.Injective digest := by
  have hmark : ∀ p ∈ digests, p.2.head? ≠ some '#' := by decide
  have hnodup : (digests.map (·.2)).Nodup := by decide
  intro s t h
  rcases digest_cases s with hs | hs
  · rcases digest_cases t with ht | ht
    · exact congrArg Prod.fst (List.inj_on_of_nodup_map hnodup hs ht h)
    · exact absurd (by rw [h, ht]; rfl) (hmark _ hs)
  · rcases digest_cases t with ht | ht
    · exact absurd (by rw [← h, hs]; rfl) (hmark _ ht)
    · rw [hs, ht] at h
      exact (List.cons.inj h).2

/-- On ASCII text, at the epoch and on the texts of `digests`, what the real functions
    answer. -/
@[reducible] def ascii : Platform where
  lower s := s.map Char.toLower
  isAlnum c := c.isAlphanum
  isAlnum_ascii _ _ := rfl
  isAlnum_guillemets := by decide
  sha256 := digest
  isoformat t := if t = 0 then epoch ++ "+00:00".toList else '@' :: intText t
  dumpDatetime := zulu
  datetimeOf
    | .str s => some (readZulu (s.map Char.ofNat))
    | _ => none
  datetimeOf_dump t := by simp only [codes_ofNat, readZulu_zulu]
  intOf
    | .int n => some n
    | _ => none
  intOf_int _ := rfl
  floatOf
    | .float x => some x
    | .int n => some (.fin ⟨10 * n, 0⟩)
    | _ => none
  floatOf_float _ := rfl
  recursionLimit := 1000
  recursionLimit_ge := by decide

end Platform

end CivicPulse
