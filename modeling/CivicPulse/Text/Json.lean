/-
  CivicPulse.Text.Json — Python's `json` module: values, `dumps`, `loads`.

  A string is the list of its code points, since `loads` returns lone surrogates as they
  are. An integer and a float are different values; a finite float is read as the exact
  decimal its text denotes. An object is its list of pairs, and a key written twice has
  its last value, as in the dict Python builds.

  `dumps` writes ASCII only (`ensure_ascii`), with Python's separators. `loads` accepts
  what CPython's scanner accepts, `NaN` and `Infinity` included, and fails three ways:
  malformed text, an integer literal of more than 4300 digits, and nesting deeper than
  the interpreter's limit. `Json.loads_dumps` (see `CivicPulse.Text.JsonProofs`) is the
  round trip.
-/

import Mathlib.Algebra.Ring.Int.Defs
import Mathlib.Algebra.Ring.Nat
import CivicPulse.Text.Str

namespace CivicPulse.Text

abbrev CodePoint := Nat

/-- A decimal with `places + 1` digits after the point: `mant / 10 ^ (places + 1)`. -/
structure Decimal where
  mant : Int
  places : Nat
  deriving DecidableEq, Repr

/-- A float, its finite values read as exact decimals. -/
inductive PyFloat where
  | fin (d : Decimal)
  | nan
  | inf (neg : Bool)
  deriving DecidableEq, Repr

inductive Json where
  | null
  | bool (b : Bool)
  | int (n : Int)
  | float (x : PyFloat)
  | str (s : List CodePoint)
  | arr (l : List Json)
  | obj (l : List (List CodePoint × Json))

/-- The code points of a text. -/
def codes (s : Str) : List CodePoint := s.map Char.toNat

def isScalar (n : Nat) : Bool := n < 0xD800 || (0xDFFF < n && n < 0x110000)

/-- The text with these code points, if none is a surrogate. -/
def ofCodes (l : List CodePoint) : Option Str :=
  if l.all isScalar then some (l.map Char.ofNat) else none

namespace Json

/-- The value of `key`, the last one if it is written more than once. -/
def lookup (key : Str) (l : List (List CodePoint × Json)) : Option Json :=
  (l.reverse.find? (·.1 == codes key)).map (·.2)

/-! ## `dumps` -/

/-- The last `k` decimal digits of `n`. -/
def fixDigits : Nat → Nat → Str
  | 0, _ => []
  | k + 1, n => fixDigits k (n / 10) ++ [Nat.digitChar (n % 10)]

def decText (d : Decimal) : Str :=
  (if d.mant < 0 then ['-'] else []) ++ natText (d.mant.natAbs / 10 ^ (d.places + 1)) ++
    '.' :: fixDigits (d.places + 1) d.mant.natAbs

def numText : PyFloat → Str
  | .fin d => decText d
  | .nan => "NaN".toList
  | .inf false => "Infinity".toList
  | .inf true => "-Infinity".toList

/-- `\uXXXX`. -/
def uEscape (n : Nat) : Str :=
  ['\\', 'u', Nat.digitChar (n / 4096 % 16), Nat.digitChar (n / 256 % 16), Nat.digitChar (n / 16 % 16),
    Nat.digitChar (n % 16)]

/-- The UTF-16 code units of a code point. -/
def units (n : Nat) : List Nat :=
  if n < 0x10000 then [n] else [0xD800 + (n - 0x10000) / 0x400, 0xDC00 + (n - 0x10000) % 0x400]

def escape (n : Nat) : Str :=
  if n = 34 then ['\\', '"']
  else if n = 92 then ['\\', '\\']
  else if n = 10 then ['\\', 'n']
  else if n = 13 then ['\\', 'r']
  else if n = 9 then ['\\', 't']
  else if n = 12 then ['\\', 'f']
  else if n = 8 then ['\\', 'b']
  else if 32 ≤ n ∧ n ≤ 126 then [Char.ofNat n]
  else (units n).flatMap uEscape

def strText (s : List CodePoint) : Str := '"' :: (s.flatMap escape ++ ['"'])

mutual

def dumps : Json → Str
  | null => "null".toList
  | bool true => "true".toList
  | bool false => "false".toList
  | int n => intText n
  | float x => numText x
  | str s => strText s
  | arr l => '[' :: dumpsElems l
  | obj l => '{' :: dumpsMembers l

/-- The elements, separated, and the closing bracket. -/
def dumpsElems : List Json → Str
  | [] => [']']
  | x :: l => dumps x ++ dumpsMore l

def dumpsMore : List Json → Str
  | [] => [']']
  | x :: l => ", ".toList ++ (dumps x ++ dumpsMore l)

def dumpsMembers : List (List CodePoint × Json) → Str
  | [] => ['}']
  | (k, x) :: l => strText k ++ (": ".toList ++ (dumps x ++ dumpsRest l))

def dumpsRest : List (List CodePoint × Json) → Str
  | [] => ['}']
  | (k, x) :: l => ", ".toList ++ (strText k ++ (": ".toList ++ (dumps x ++ dumpsRest l)))

end

/-! ## `loads` -/

/-- How `loads` fails: `JSONDecodeError`, `ValueError` for a numeral over the digit
    limit, `RecursionError`. -/
inductive LoadError where
  | decode
  | digits
  | recursion
  deriving DecidableEq, Repr

abbrev Parse (α : Type) := Except LoadError (α × Str)

/-- JSON's white space. -/
def isWs (c : Char) : Bool := c == ' ' || c == '\t' || c == '\n' || c == '\r'

def skipWs (s : Str) : Str := s.dropWhile isWs

def hexVal (c : Char) : Option Nat :=
  if c.isDigit then some (c.toNat - 48)
  else if 'a' ≤ c ∧ c ≤ 'f' then some (c.toNat - 87)
  else if 'A' ≤ c ∧ c ≤ 'F' then some (c.toNat - 55)
  else none

def hex4 (a b c d : Char) : Option Nat := do
  return (← hexVal a) * 4096 + (← hexVal b) * 256 + (← hexVal c) * 16 + (← hexVal d)

/-- The one-letter escapes. -/
def unescape (c : Char) : Option Nat :=
  if c = '"' then some 34
  else if c = '\\' then some 92
  else if c = '/' then some 47
  else if c = 'b' then some 8
  else if c = 'f' then some 12
  else if c = 'n' then some 10
  else if c = 'r' then some 13
  else if c = 't' then some 9
  else none

/-- The rest of a string literal: its code units, an escape being one, up to the quote. -/
def stringBody : Str → Parse (List Nat)
  | [] => .error .decode
  | '"' :: t => .ok ([], t)
  | '\\' :: 'u' :: a :: b :: c :: d :: t =>
    match hex4 a b c d with
    | none => .error .decode
    | some u => (stringBody t).map fun r => (u :: r.1, r.2)
  | '\\' :: c :: t =>
    match unescape c with
    | none => .error .decode
    | some u => (stringBody t).map fun r => (u :: r.1, r.2)
  | c :: t => if c.toNat < 32 then .error .decode else (stringBody t).map fun r => (c.toNat :: r.1, r.2)

/-- An escaped high surrogate followed by an escaped low one is one character. -/
def pair : List Nat → List CodePoint
  | [] => []
  | [u] => [u]
  | u :: v :: l =>
    if 0xD800 ≤ u ∧ u < 0xDC00 ∧ 0xDC00 ≤ v ∧ v < 0xE000 then
      (0x10000 + (u - 0xD800) * 0x400 + (v - 0xDC00)) :: pair l
    else u :: pair (v :: l)

def string (s : Str) : Parse (List CodePoint) := (stringBody s).map fun r => (pair r.1, r.2)

/-- `m · 10 ^ -k` as a decimal. -/
def mkDecimal (m : Int) (k : Int) : Decimal :=
  if 1 ≤ k then ⟨m, (k - 1).toNat⟩ else ⟨m * 10 ^ (1 - k).toNat, 0⟩

/-- `([eE][-+]?[0-9]+)?`: the exponent, if one is written in full. -/
def exponent (s : Str) : Option (Int × Str) :=
  match s with
  | e :: t =>
    if e = 'e' ∨ e = 'E' then
      let (neg, u) := match t with
        | '-' :: u => (true, u)
        | '+' :: u => (false, u)
        | u => (false, u)
      let ds := u.takeWhile Char.isDigit
      if ds.isEmpty then none
      else
        let n : Int := Nat.ofDigitChars 10 ds 0
        some (if neg then -n else n, u.dropWhile Char.isDigit)
    else none
  | [] => none

/-- `(\.[0-9]+)?`: the digits after the point, if any. -/
def fraction (s : Str) : Option (Str × Str) :=
  match s with
  | '.' :: t =>
    let ds := t.takeWhile Char.isDigit
    if ds.isEmpty then none else some (ds, t.dropWhile Char.isDigit)
  | _ => none

/-- `0|[1-9][0-9]*`. -/
def integer (s : Str) : Option (Str × Str) :=
  match s with
  | '0' :: t => some (['0'], t)
  | c :: t => if c.isDigit then some (c :: t.takeWhile Char.isDigit, t.dropWhile Char.isDigit) else none
  | [] => none

def signed (neg : Bool) (n : Nat) : Int := if neg then -n else n

/-- A numeral: an `int` unless a fraction or an exponent is written. -/
def number (neg : Bool) (s : Str) : Parse Json :=
  match integer s with
  | none => .error .decode
  | some (ds, t) =>
    match fraction t with
    | some (fs, u) =>
      let m := signed neg (Nat.ofDigitChars 10 (ds ++ fs) 0)
      match exponent u with
      | some (e, v) => .ok (float (.fin (mkDecimal m (fs.length - e))), v)
      | none => .ok (float (.fin (mkDecimal m fs.length)), u)
    | none =>
      match exponent t with
      | some (e, v) => .ok (float (.fin (mkDecimal (signed neg (Nat.ofDigitChars 10 ds 0)) (-e))), v)
      | none => if 4300 < ds.length then .error .digits else .ok (int (signed neg (Nat.ofDigitChars 10 ds 0)), t)

/-- A value that is not a container. -/
def atom (s : Str) : Parse Json :=
  match s with
  | 'n' :: 'u' :: 'l' :: 'l' :: t => .ok (null, t)
  | 't' :: 'r' :: 'u' :: 'e' :: t => .ok (bool true, t)
  | 'f' :: 'a' :: 'l' :: 's' :: 'e' :: t => .ok (bool false, t)
  | 'N' :: 'a' :: 'N' :: t => .ok (float .nan, t)
  | 'I' :: 'n' :: 'f' :: 'i' :: 'n' :: 'i' :: 't' :: 'y' :: t => .ok (float (.inf false), t)
  | '-' :: 'I' :: 'n' :: 'f' :: 'i' :: 'n' :: 'i' :: 't' :: 'y' :: t => .ok (float (.inf true), t)
  | '-' :: t => number true t
  | t => number false t

mutual

/-- One value, with fuel for the scan and `d` levels of nesting left. -/
def value : Nat → Nat → Str → Parse Json
  | 0, _, _ => .error .decode
  | n + 1, d, s =>
    match s with
    | '"' :: t => (string t).map fun r => (str r.1, r.2)
    | '[' :: t =>
      match d with
      | 0 => .error .recursion
      | d + 1 =>
        match skipWs t with
        | ']' :: u => .ok (arr [], u)
        | u => (elems n d u).map fun r => (arr r.1, r.2)
    | '{' :: t =>
      match d with
      | 0 => .error .recursion
      | d + 1 =>
        match skipWs t with
        | '}' :: u => .ok (obj [], u)
        | u => (members n d u).map fun r => (obj r.1, r.2)
    | t => atom t

/-- An element and those after it, up to the bracket. -/
def elems : Nat → Nat → Str → Parse (List Json)
  | 0, _, _ => .error .decode
  | n + 1, d, s =>
    match value n d s with
    | .error e => .error e
    | .ok (x, t) =>
      match skipWs t with
      | ']' :: u => .ok ([x], u)
      | ',' :: u => (elems n d (skipWs u)).map fun r => (x :: r.1, r.2)
      | _ => .error .decode

/-- A member and those after it, up to the brace. -/
def members : Nat → Nat → Str → Parse (List (List CodePoint × Json))
  | 0, _, _ => .error .decode
  | n + 1, d, s =>
    match s with
    | '"' :: t =>
      match string t with
      | .error e => .error e
      | .ok (k, u) =>
        match skipWs u with
        | ':' :: v =>
          match value n d (skipWs v) with
          | .error e => .error e
          | .ok (x, w) =>
            match skipWs w with
            | '}' :: u => .ok ([(k, x)], u)
            | ',' :: u => (members n d (skipWs u)).map fun r => ((k, x) :: r.1, r.2)
            | _ => .error .decode
        | _ => .error .decode
    | _ => .error .decode

end

/-- `json.loads` of a text, `limit` being how deep the scanner may nest. Each recursive
    call of the scan consumes a character or is the first in its container, so the fuel
    never runs out. -/
def loads (limit : Nat) (s : Str) : Except LoadError Json :=
  match value (2 * s.length + 2) limit (skipWs s) with
  | .error e => .error e
  | .ok (v, t) => if (skipWs t).isEmpty then .ok v else .error .decode

end Json

end CivicPulse.Text
