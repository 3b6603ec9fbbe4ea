/-
  CivicPulse.Text.CodePoints — texts that may hold lone surrogates, and `str()` of a value
  `json.loads` built.

  No `Char` is a surrogate. What a function does to a text it can only do by looking at
  its characters, and none of the program's patterns, nor the JSON scanner, tells one
  surrogate from another or from a private-use character. So a text with surrogates is
  read twice, each time with other private-use characters in their place (`view`), and
  where the two results differ a surrogate stands (`merge`).
  - `merge_self`, `loadsText_codes`: on a text without surrogates this is `loads`.
  - `view_stripCodes`: stripping does not tell them apart either.
-/

import CivicPulse.Lang.Dict
import CivicPulse.Text.JsonProofs

namespace CivicPulse.Text

open Lang

/-- A surrogate as the private-use character at its distance from `base`. -/
def standIn (base : Nat) (n : CodePoint) : Char := if isScalar n then Char.ofNat n else Char.ofNat (base + (n - 0xD800))

def view (base : Nat) (s : List CodePoint) : Str := s.map (standIn base)

/-- One code point, from its two readings. -/
def mergeCode (x y : CodePoint) : CodePoint := if x = y then x else x - 0xE000 + 0xD800

namespace Json

mutual

def merge : Json → Json → Json
  | str s, str t => str (List.zipWith mergeCode s t)
  | arr l, arr m => arr (mergeElems l m)
  | obj l, obj m => obj (mergeMembers l m)
  | x, _ => x

def mergeElems : List Json → List Json → List Json
  | x :: l, y :: m => merge x y :: mergeElems l m
  | _, _ => []

def mergeMembers : List (List CodePoint × Json) → List (List CodePoint × Json) → List (List CodePoint × Json)
  | (k, x) :: l, (k', y) :: m => (List.zipWith mergeCode k k', merge x y) :: mergeMembers l m
  | _, _ => []

end

/-- `json.loads(f(s))`, where `f` cuts a part out of the text. -/
def loadsText (limit : Nat) (f : Str → Str) (s : List CodePoint) : Except LoadError Json := do
  let x ← loads limit (f (view 0xE000 s))
  let y ← loads limit (f (view 0xF000 s))
  return merge x y

/-! ## Texts without surrogates -/

theorem zipWith_mergeCode (s : List CodePoint) : List.zipWith mergeCode s s = s := by
  induction s with
  | nil => rfl
  | cons n s ih => rw [List.zipWith_cons_cons, ih, mergeCode, if_pos rfl]

mutual

theorem merge_self : (x : Json) → merge x x = x
  | null => rfl
  | bool _ => rfl
  | int _ => rfl
  | float _ => rfl
  | str s => congrArg str (zipWith_mergeCode s)
  | arr l => congrArg arr (mergeElems_self l)
  | obj l => congrArg obj (mergeMembers_self l)

theorem mergeElems_self : (l : List Json) → mergeElems l l = l
  | [] => rfl
  | x :: l => by rw [mergeElems, merge_self x, mergeElems_self l]

theorem mergeMembers_self : (l : List (List CodePoint × Json)) → mergeMembers l l = l
  | [] => rfl
  | (k, x) :: l => by rw [mergeMembers, zipWith_mergeCode k, merge_self x, mergeMembers_self l]

end

theorem view_append (base : Nat) (s t : List CodePoint) : view base (s ++ t) = view base s ++ view base t := List.map_append

theorem view_codes (base : Nat) (s : Str) : view base (codes s) = s := by
  have hchar : ∀ c : Char, standIn base c.toNat = c := by
    intro c
    rw [standIn, if_pos (scalar_toNat c), Char.ofNat_toNat]
  rw [view, codes, List.map_map, show (standIn base ∘ Char.toNat) = id from funext hchar, List.map_id]

theorem loadsText_codes (limit : Nat) (f : Str → Str) (s : Str) : loadsText limit f (codes s) = loads limit (f s) := by
  rw [loadsText, view_codes, view_codes]
  rcases loads limit (f s) with e | x
  · rfl
  · exact congrArg Except.ok (merge_self x)

end Json

/-! ## Stripping -/

/-- `str.isspace`; no surrogate is white space. -/
def isSpaceCode (n : CodePoint) : Bool := isScalar n && isSpace (Char.ofNat n)

/-- `s.strip()`. -/
def stripCodes (s : List CodePoint) : List CodePoint := (s.dropWhile isSpaceCode).rdropWhile isSpaceCode

theorem isSpace_range {c : Char} (h : isSpace c = true) : 0 < c.toNat ∧ c.toNat ≤ 0x3000 := by
  simp only [isSpace, Bool.or_eq_true, Bool.and_eq_true, decide_eq_true_eq, beq_iff_eq] at h
  omega

section StandIn

variable {base : Nat} (hb : 0xE000 ≤ base)
include hb

/-- The stand-in of a surrogate is a private-use character, or none when `base` is too large. -/
theorem standIn_range {n : CodePoint} (hn : isScalar n = false) :
    (standIn base n).toNat = 0 ∨ 0xE000 ≤ (standIn base n).toNat := by
  rw [standIn, if_neg (by simp [hn])]
  unfold Char.ofNat
  by_cases hv : (base + (n - 0xD800)).isValidChar
  · rw [dif_pos hv]
    right
    show 0xE000 ≤ base + (n - 0xD800)
    omega
  · rw [dif_neg hv]
    exact .inl rfl

theorem isSpace_standIn (n : CodePoint) : isSpace (standIn base n) = isSpaceCode n := by
  by_cases hn : isScalar n = true
  · rw [standIn, if_pos hn, isSpaceCode, hn, Bool.true_and]
  · rw [Bool.not_eq_true] at hn
    rw [isSpaceCode, hn, Bool.false_and, ← Bool.not_eq_true]
    intro hs
    have h1 := isSpace_range hs
    have h2 := standIn_range hb hn
    omega

theorem standIn_eq {c : Char} (h0 : 0 < c.toNat) (hc : c.toNat < 0xE000) (n : CodePoint) :
    standIn base n = c ↔ n = c.toNat := by
  by_cases hn : isScalar n = true
  · rw [standIn, if_pos hn]
    constructor
    · rintro rfl
      exact (Json.toNat_ofNat hn).symm
    · rintro rfl
      exact Char.ofNat_toNat c
  · constructor
    · rintro rfl
      rw [Bool.not_eq_true] at hn
      have := standIn_range hb hn
      omega
    · rintro rfl
      exact absurd (Json.scalar_toNat c) hn

theorem view_stripCodes (s : List CodePoint) : view base (stripCodes s) = strip (view base s) := by
  have hcomp : isSpace ∘ standIn base = isSpaceCode := funext (isSpace_standIn hb)
  simp only [strip, stripBy, stripCodes, view, List.rdropWhile, List.dropWhile_map, ← List.map_reverse, hcomp]

end StandIn

/-! ## `repr` -/

/-- What `repr` takes from CPython: which characters beyond ASCII it shows as they are, the
    shortest numeral of a finite float, and how deep its calls may nest. -/
class Printing where
  isPrintable : CodePoint → Bool
  floatText : Decimal → Str
  reprLimit : Nat

/-- CPython's answers for ASCII text, with a stack of a thousand calls. -/
@[reducible] def Printing.ascii : Printing where
  isPrintable _ := false
  floatText := Json.decText
  reprLimit := 1000

namespace Json

variable [Printing]

omit [Printing] in
/-- The last `k` hexadecimal digits of `n`. -/
def hexText : Nat → Nat → Str
  | 0, _ => []
  | k + 1, n => hexText k (n / 16) ++ [Nat.digitChar (n % 16)]

/-- One character of a string's `repr`. -/
def reprChar (quote : Char) (n : CodePoint) : Str :=
  if n = quote.toNat ∨ n = 92 then ['\\', Char.ofNat n]
  else if n = 9 then ['\\', 't']
  else if n = 10 then ['\\', 'n']
  else if n = 13 then ['\\', 'r']
  else if n < 32 ∨ n = 127 then '\\' :: 'x' :: hexText 2 n
  else if n < 127 ∨ (isScalar n && Printing.isPrintable n) then [Char.ofNat n]
  else if n < 0x100 then '\\' :: 'x' :: hexText 2 n
  else if n < 0x10000 then '\\' :: 'u' :: hexText 4 n
  else '\\' :: 'U' :: hexText 8 n

/-- Single quotes, unless only single ones occur in the text. -/
def reprStr (s : List CodePoint) : Str :=
  let quote := if s.contains 39 && !s.contains 34 then '"' else '\''
  quote :: (s.flatMap (reprChar quote) ++ [quote])

mutual

/-- `repr(x)`. -/
def repr : Json → Str
  | null => "None".toList
  | bool true => "True".toList
  | bool false => "False".toList
  | int n => intText n
  | float (.fin d) => Printing.floatText d
  | float .nan => "nan".toList
  | float (.inf false) => "inf".toList
  | float (.inf true) => "-inf".toList
  | str s => reprStr s
  | arr l => '[' :: (join ", ".toList (reprElems l) ++ [']'])
  | obj l => '{' :: (join ", ".toList ((Dict.ofList (reprMembers l)).entries.map fun e =>
      reprStr e.1 ++ ": ".toList ++ e.2) ++ ['}'])

def reprElems : List Json → List Str
  | [] => []
  | x :: l => repr x :: reprElems l

def reprMembers : List (List CodePoint × Json) → List (List CodePoint × Str)
  | [] => []
  | (k, x) :: l => (k, repr x) :: reprMembers l

end

omit [Printing] in
mutual

/-- How deep the calls of `repr(x)` nest: one for each value, and within it those of the
    values it holds. -/
def reprDepth : Json → Nat
  | arr l => reprDepthElems l + 1
  | obj l => ((Dict.ofList (reprDepthMembers l)).entries.map Prod.snd).foldr max 0 + 1
  | _ => 1

def reprDepthElems : List Json → Nat
  | [] => 0
  | x :: l => max (reprDepth x) (reprDepthElems l)

def reprDepthMembers : List (List CodePoint × Json) → List (List CodePoint × Nat)
  | [] => []
  | (k, x) :: l => (k, reprDepth x) :: reprDepthMembers l

end

omit [Printing] in
def isStr : Json → Bool
  | str _ => true
  | _ => false

/-- `str(x)` comes to an end: a string is its own text. -/
def Shown (x : Json) : Prop := x.isStr = true ∨ x.reprDepth ≤ Printing.reprLimit

instance (x : Json) : Decidable x.Shown := inferInstanceAs (Decidable (_ ∨ _))

/-- `str(x)`. -/
def toText : Json → List CodePoint
  | str s => s
  | x => codes (repr x)

end Json

end CivicPulse.Text
