/-
  CivicPulse.Text.Encoding — the text of some bytes, as `json.loads` reads them.

  The encoding is told by a byte order mark, or by which of the first bytes are zero; it is
  UTF-8 otherwise. Surrogates pass the decoders (`surrogatepass`), so one may come out
  alone.
  - `decode_printable`: printable text is read back from its bytes.
-/

import CivicPulse.Text.Lines

namespace CivicPulse.Text

/-! ## UTF-8 -/

/-- The bytes of a text. -/
def utf8Bytes (s : Str) : List UInt8 := s.flatMap String.utf8EncodeChar

/-- A byte after the first one of a character, and the six bits it holds. -/
def isTail (b : UInt8) : Bool := 0x80 ≤ b && b < 0xC0

def low (b : UInt8) : Nat := b.toNat - 0x80

def decodeUtf8 : List UInt8 → Option (List CodePoint)
  | [] => some []
  | a :: l =>
    if a < 0x80 then (decodeUtf8 l).map (a.toNat :: ·)
    else match l with
    | [] => none
    | b :: l =>
      if !isTail b then none
      else if 0xC2 ≤ a ∧ a < 0xE0 then (decodeUtf8 l).map (((a.toNat - 0xC0) * 64 + low b) :: ·)
      else match l with
      | [] => none
      | c :: l =>
        if !isTail c then none
        else if 0xE0 ≤ a ∧ a < 0xF0 then
          let n := ((a.toNat - 0xE0) * 64 + low b) * 64 + low c
          if 0x800 ≤ n then (decodeUtf8 l).map (n :: ·) else none
        else match l with
        | [] => none
        | d :: l =>
          if !isTail d then none
          else if 0xF0 ≤ a ∧ a < 0xF5 then
            let n := (((a.toNat - 0xF0) * 64 + low b) * 64 + low c) * 64 + low d
            if 0x10000 ≤ n ∧ n < 0x110000 then (decodeUtf8 l).map (n :: ·) else none
          else none

/-! ## UTF-16 and UTF-32 -/

/-- Two bytes as a number, the greater one first (`big`) or last. -/
def word (big : Bool) (a b : UInt8) : Nat := if big then a.toNat * 256 + b.toNat else b.toNat * 256 + a.toNat

def words (big : Bool) : List UInt8 → Option (List Nat)
  | [] => some []
  | [_] => none
  | a :: b :: l => (words big l).map (word big a b :: ·)

/-- A high surrogate and a low one after it are one character. -/
def decodeUtf16 (big : Bool) (l : List UInt8) : Option (List CodePoint) := (words big l).map Json.pair

def decodeUtf32 (big : Bool) : List UInt8 → Option (List CodePoint)
  | [] => some []
  | a :: b :: c :: d :: l =>
    let n := if big then word big a b * 65536 + word big c d else word big c d * 65536 + word big a b
    if n < 0x110000 then (decodeUtf32 big l).map (n :: ·) else none
  | _ => none

/-! ## Detection -/

inductive Encoding where
  | utf8
  | utf8Sig
  | utf16
  | utf16be
  | utf16le
  | utf32
  | utf32be
  | utf32le
  deriving DecidableEq

/-- `json.detect_encoding`. -/
def detectEncoding (b : List UInt8) : Encoding :=
  if [0, 0, 0xFE, 0xFF].isPrefixOf b || [0xFF, 0xFE, 0, 0].isPrefixOf b then .utf32
  else if [0xFE, 0xFF].isPrefixOf b || [0xFF, 0xFE].isPrefixOf b then .utf16
  else if [0xEF, 0xBB, 0xBF].isPrefixOf b then .utf8Sig
  else match b with
    | x :: y :: z :: w :: _ =>
      if x = 0 then if y ≠ 0 then .utf16be else .utf32be
      else if y = 0 then if z ≠ 0 ∨ w ≠ 0 then .utf16le else .utf32le
      else .utf8
    | [x, y] =>
      if x = 0 then .utf16be
      else if y = 0 then .utf16le
      else .utf8
    | _ => .utf8

/-- `b.decode(detect_encoding(b), "surrogatepass")`; a byte order mark is no part of the
    text. -/
def decode (b : List UInt8) : Option (List CodePoint) :=
  match detectEncoding b with
  | .utf8 => decodeUtf8 b
  | .utf8Sig => decodeUtf8 (b.drop 3)
  | .utf16 => decodeUtf16 (b.head? == some 0xFE) (b.drop 2)
  | .utf16be => decodeUtf16 true b
  | .utf16le => decodeUtf16 false b
  | .utf32 => decodeUtf32 (b.head? == some 0) (b.drop 4)
  | .utf32be => decodeUtf32 true b
  | .utf32le => decodeUtf32 false b

/-- An object behind a byte order mark, and a lone surrogate in two encodings. -/
example : decode [0xEF, 0xBB, 0xBF, 123, 125] = some [123, 125] ∧ decode [0xED, 0xA0, 0x80] = some [0xD800] ∧
    decode [0xFF, 0xFE, 0, 0xD8] = some [0xD800] := by decide

/-! ## Printable text -/

/-- From the space to the tilde, as a byte. -/
def PrintableByte (b : UInt8) : Prop := 32 ≤ b.toNat ∧ b.toNat < 127

theorem encode_printable {c : Char} (h : Printable c) :
    ∃ b, String.utf8EncodeChar c = [b] ∧ PrintableByte b ∧ b.toNat = c.toNat := by
  obtain ⟨hlo, hhi⟩ := h
  have hbyte : (UInt8.ofNat c.toNat).toNat = c.toNat := by
    rw [UInt8.toNat_ofNat']
    omega
  refine ⟨UInt8.ofNat c.toNat, ?_, ?_, hbyte⟩
  · unfold String.utf8EncodeChar
    exact if_pos (show c.toNat ≤ 0x7f by omega)
  · rw [PrintableByte, hbyte]
    omega

theorem decodeUtf8_cons {b : UInt8} (h : PrintableByte b) (l : List UInt8) :
    decodeUtf8 (b :: l) = (decodeUtf8 l).map (b.toNat :: ·) := by
  have hb : b < 0x80 := UInt8.lt_iff_toNat_lt.mpr (by have := h.2; simp; omega)
  rw [decodeUtf8.eq_def]
  exact if_pos hb

/-- Bytes of printable characters are UTF-8 to `json.loads`. -/
theorem detect_printable {b : List UInt8} (h : ∀ x ∈ b, PrintableByte x) : detectEncoding b = .utf8 := by
  have hne : ∀ n : UInt8, ¬ (32 ≤ n.toNat ∧ n.toNat < 127) → ∀ x ∈ b, x ≠ n := fun n hn x hx e => hn (e ▸ h x hx)
  have h0 := hne 0 (by decide)
  rcases b with _ | ⟨x, l⟩
  · rfl
  have hx0 := h0 x List.mem_cons_self
  have hmark : ∀ n : UInt8, ¬ (32 ≤ n.toNat ∧ n.toNat < 127) → ∀ m, (n :: m).isPrefixOf (x :: l) = false := by
    intro n hn m
    have hx := hne n hn x List.mem_cons_self
    rw [List.isPrefixOf, beq_eq_false_iff_ne.mpr (Ne.symm hx), Bool.false_and]
  unfold detectEncoding
  rw [hmark 0 (by decide), hmark 0xFF (by decide), hmark 0xFE (by decide), hmark 0xFF (by decide),
    hmark 0xEF (by decide)]
  rcases l with _ | ⟨y, l⟩
  · rfl
  have hy0 := h0 y (by simp)
  rcases l with _ | ⟨z, _ | ⟨w, l⟩⟩
  · simp [hx0, hy0]
  · rfl
  · simp [hx0, hy0]

theorem utf8Bytes_printable {s : Str} (h : ∀ c ∈ s, Printable c) :
    (∀ b ∈ utf8Bytes s, PrintableByte b) ∧ decodeUtf8 (utf8Bytes s) = some (codes s) := by
  induction s with
  | nil => exact ⟨fun _ hb => (by cases hb), rfl⟩
  | cons c s ih =>
    obtain ⟨b, hb, hprint, hcode⟩ := encode_printable (h c List.mem_cons_self)
    obtain ⟨hall, hdec⟩ := ih fun c hc => h c (List.mem_cons_of_mem _ hc)
    have hcons : utf8Bytes (c :: s) = b :: utf8Bytes s := by rw [utf8Bytes, List.flatMap_cons, hb]; rfl
    rw [hcons]
    refine ⟨List.forall_mem_cons.mpr ⟨hprint, hall⟩, ?_⟩
    rw [decodeUtf8_cons hprint, hdec, hcode]
    rfl

theorem decode_printable {s : Str} (h : ∀ c ∈ s, Printable c) : decode (utf8Bytes s) = some (codes s) := by
  obtain ⟨hall, hdec⟩ := utf8Bytes_printable h
  rw [decode, detect_printable hall]
  exact hdec

end CivicPulse.Text
