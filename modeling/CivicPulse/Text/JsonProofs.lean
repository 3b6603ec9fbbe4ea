/-
  CivicPulse.Text.JsonProofs — what `dumps` writes, `loads` reads back.

  - `stringBody_escape` / `string_escapes`: string literals.
  - `number_natText` / `number_dec`: numerals.
  - `scan_dumps`: a value in any context, by induction on the scanner's fuel.
  - `loads_dumps`: the round trip, for values without surrogates whose numerals keep to
    the digit limit and whose nesting keeps to the scanner's.
-/

import CivicPulse.Text.Json

namespace CivicPulse.Text.Json

/-! ## The values that survive -/

mutual

/-- No string holds a surrogate and no integer is over the digit limit. -/
def plain : Json → Bool
  | null => true
  | bool _ => true
  | int n => (natText n.natAbs).length ≤ 4300
  | float _ => true
  | str s => s.all isScalar
  | arr l => plainElems l
  | obj l => plainMembers l

def plainElems : List Json → Bool
  | [] => true
  | x :: l => plain x && plainElems l

def plainMembers : List (List CodePoint × Json) → Bool
  | [] => true
  | (k, x) :: l => k.all isScalar && plain x && plainMembers l

end

mutual

/-- How deep the containers nest. -/
def depth : Json → Nat
  | arr l => depthElems l + 1
  | obj l => depthMembers l + 1
  | _ => 0

def depthElems : List Json → Nat
  | [] => 0
  | x :: l => max (depth x) (depthElems l)

def depthMembers : List (List CodePoint × Json) → Nat
  | [] => 0
  | (_, x) :: l => max (depth x) (depthMembers l)

end

/-! ## Strings -/

theorem scalar_toNat (c : Char) : isScalar c.toNat = true := by
  simp only [isScalar, Bool.or_eq_true, Bool.and_eq_true, decide_eq_true_eq]
  rcases c.valid with h | h
  · exact .inl h
  · exact .inr h

theorem toNat_ofNat {n : CodePoint} (hn : isScalar n = true) : (Char.ofNat n).toNat = n := by
  have hv : n.isValidChar := by
    simpa only [isScalar, Bool.or_eq_true, Bool.and_eq_true, decide_eq_true_eq] using hn
  unfold Char.ofNat
  rw [dif_pos hv]
  rfl

theorem codes_scalar (s : Str) : (codes s).all isScalar = true := by
  simp [codes, scalar_toNat]

theorem hexVal_digitChar : ∀ n < 16, hexVal (Nat.digitChar n) = some n := by decide

theorem stringBody_uEscape {u : Nat} (hu : u < 65536) (t : Str) :
    stringBody (uEscape u ++ t) = (stringBody t).map fun r => (u :: r.1, r.2) := by
  have h : hex4 (Nat.digitChar (u / 4096 % 16)) (Nat.digitChar (u / 256 % 16)) (Nat.digitChar (u / 16 % 16))
      (Nat.digitChar (u % 16)) = some u := by
    simp only [hex4, hexVal_digitChar _ (Nat.mod_lt _ (by decide : 0 < 16)), Option.bind_eq_bind, Option.bind_some,
      Option.pure_def, Option.some.injEq]
    omega
  simp only [uEscape, List.cons_append, List.nil_append, stringBody, h]

/-- A printable character that is neither a quote nor a backslash stands for itself. -/
theorem stringBody_char {c : Char} (h1 : c ≠ '"') (h2 : c ≠ '\\') (h3 : 32 ≤ c.toNat) (t : Str) :
    stringBody (c :: t) = (stringBody t).map fun r => (c.toNat :: r.1, r.2) := by
  have h : ¬ c.toNat < 32 := by omega
  rw [stringBody.eq_def]
  split
  · simp_all
  · simp_all
  · simp_all
  · simp_all
  · rename_i heq
    simp only [List.cons.injEq] at heq
    obtain ⟨rfl, rfl⟩ := heq
    rw [if_neg h]

theorem units_lt {n : Nat} (hn : isScalar n = true) : ∀ u ∈ units n, u < 65536 := by
  simp only [isScalar, Bool.or_eq_true, Bool.and_eq_true, decide_eq_true_eq] at hn
  intro u hu
  simp only [units] at hu
  split at hu
  · simp only [List.mem_singleton] at hu; omega
  · simp only [List.mem_cons, List.not_mem_nil, or_false] at hu
    omega

theorem stringBody_uEscapes (us : List Nat) (h : ∀ u ∈ us, u < 65536) (t : Str) :
    stringBody (us.flatMap uEscape ++ t) = (stringBody t).map fun r => (us ++ r.1, r.2) := by
  induction us with
  | nil => cases h' : stringBody t <;> simp [h', Except.map]
  | cons u us ih =>
    rw [List.flatMap_cons, List.append_assoc, stringBody_uEscape (h u (by simp)), ih (fun v hv => h v (by simp [hv]))]
    cases stringBody t <;> simp [Except.map]

/-- One escaped code point reads back as its code units. -/
theorem stringBody_escape {n : Nat} (hn : isScalar n = true) (t : Str) :
    stringBody (escape n ++ t) = (stringBody t).map fun r => (units n ++ r.1, r.2) := by
  have hsmall : n < 127 → units n = [n] := fun h => by simp [units]; omega
  unfold escape
  split
  · subst n; simp [stringBody, unescape, hsmall]
  split
  · subst n; simp [stringBody, unescape, hsmall]
  split
  · subst n; simp [stringBody, unescape, hsmall]
  split
  · subst n; simp [stringBody, unescape, hsmall]
  split
  · subst n; simp [stringBody, unescape, hsmall]
  split
  · subst n; simp [stringBody, unescape, hsmall]
  split
  · subst n; simp [stringBody, unescape, hsmall]
  split
  · rename_i h1 h2 _ _ _ _ _ hr
    have hto : (Char.ofNat n).toNat = n := toNat_ofNat hn
    have hne : ∀ c : Char, n ≠ c.toNat → Char.ofNat n ≠ c := fun c hc e => hc (by rw [← e, hto])
    show stringBody (Char.ofNat n :: t) = _
    rw [stringBody_char (hne _ h1) (hne _ h2) (by omega), hto, hsmall (by omega)]
    rfl
  · exact stringBody_uEscapes (units n) (units_lt hn) t

theorem pair_units {n : Nat} (hn : isScalar n = true) (l : List Nat) : pair (units n ++ l) = n :: pair l := by
  simp only [isScalar, Bool.or_eq_true, Bool.and_eq_true, decide_eq_true_eq] at hn
  unfold units
  split
  · rcases l with _ | ⟨v, l⟩
    · rfl
    · have h : ¬ (0xD800 ≤ n ∧ n < 0xDC00 ∧ 0xDC00 ≤ v ∧ v < 0xE000) := by omega
      simp only [List.cons_append, List.nil_append, pair, if_neg h]
  · have h : 0xD800 ≤ 0xD800 + (n - 0x10000) / 0x400 ∧ 0xD800 + (n - 0x10000) / 0x400 < 0xDC00 ∧
        0xDC00 ≤ 0xDC00 + (n - 0x10000) % 0x400 ∧ 0xDC00 + (n - 0x10000) % 0x400 < 0xE000 := by omega
    have e : (0x10000 + (0xD800 + (n - 0x10000) / 0x400 - 0xD800) * 0x400 +
        (0xDC00 + (n - 0x10000) % 0x400 - 0xDC00) : Nat) = n := by omega
    simp only [List.cons_append, List.nil_append, pair, if_pos h, e]

theorem pair_flatMap_units (s : List CodePoint) (hs : s.all isScalar = true) : pair (s.flatMap units) = s := by
  induction s with
  | nil => rfl
  | cons n s ih =>
    simp only [List.all_cons, Bool.and_eq_true] at hs
    rw [List.flatMap_cons, pair_units hs.1, ih hs.2]

theorem string_escapes {s : List CodePoint} (hs : s.all isScalar = true) (rest : Str) :
    string (s.flatMap escape ++ '"' :: rest) = .ok (s, rest) := by
  have h : stringBody (s.flatMap escape ++ '"' :: rest) = .ok (s.flatMap units, rest) := by
    induction s with
    | nil => rfl
    | cons n s ih =>
      simp only [List.all_cons, Bool.and_eq_true] at hs
      rw [List.flatMap_cons, List.append_assoc, stringBody_escape hs.1, ih hs.2]
      rfl
  simp only [string, h, Except.map, pair_flatMap_units s hs]

/-! ## Numerals -/

/-- The text after a numeral does not go on with it. -/
def stops : Str → Bool
  | [] => true
  | c :: _ => !c.isDigit && c != '.' && c != 'e' && c != 'E'

theorem takeWhile_digits {ds : Str} (hd : ∀ c ∈ ds, c.isDigit = true) {rest : Str}
    (hr : ∀ c ∈ rest.head?, c.isDigit = false) :
    (ds ++ rest).takeWhile Char.isDigit = ds ∧ (ds ++ rest).dropWhile Char.isDigit = rest := by
  have h0 : rest.takeWhile Char.isDigit = [] ∧ rest.dropWhile Char.isDigit = rest := by
    rcases rest with _ | ⟨c, r⟩
    · exact ⟨rfl, rfl⟩
    · have := hr c rfl
      simp [this]
  rw [List.takeWhile_append_of_pos hd, List.dropWhile_append_of_pos hd, h0.1, h0.2]
  simp

theorem stops_head {rest : Str} (h : stops rest = true) : ∀ c ∈ rest.head?, c.isDigit = false := by
  intro c hc
  rcases rest with _ | ⟨d, r⟩
  · cases hc
  · simp only [List.head?_cons, Option.mem_def, Option.some.injEq] at hc
    subst hc
    simp only [stops, Bool.and_eq_true, Bool.not_eq_true'] at h
    exact h.1.1.1

theorem exponent_stops {rest : Str} (h : stops rest = true) : exponent rest = none := by
  rcases rest with _ | ⟨c, r⟩
  · rfl
  · simp only [stops, Bool.and_eq_true, bne_iff_ne, ne_eq] at h
    simp [exponent, h.1.2, h.2]

theorem fraction_stops {rest : Str} (h : stops rest = true) : fraction rest = none := by
  rcases rest with _ | ⟨c, r⟩
  · rfl
  · simp only [stops, Bool.and_eq_true, bne_iff_ne, ne_eq] at h
    simp [fraction, h.1.1.2]

/-- The numeral of a positive number does not start with a zero. -/
theorem natText_head {n : Nat} (hn : 0 < n) : ∃ c t, natText n = c :: t ∧ c ≠ '0' := by
  induction n using Nat.strongRecOn with
  | ind n ih =>
    by_cases h : n < 10
    · refine ⟨Nat.digitChar n, [], Nat.toDigits_of_lt_base h, ?_⟩
      have : ∀ k < 10, 0 < k → Nat.digitChar k ≠ '0' := by decide
      exact this n h hn
    · obtain ⟨c, t, hc, h0⟩ := ih (n / 10) (by omega) (by omega)
      refine ⟨c, t ++ [Nat.digitChar (n % 10)], ?_, h0⟩
      show Nat.toDigits 10 n = _
      rw [Nat.toDigits_of_base_le (by decide) (by omega)]
      show natText (n / 10) ++ _ = _
      rw [hc]; rfl

theorem integer_natText (n : Nat) {rest : Str} (hr : ∀ c ∈ rest.head?, c.isDigit = false) :
    integer (natText n ++ rest) = some (natText n, rest) := by
  rcases Nat.eq_zero_or_pos n with rfl | hn
  · rfl
  · obtain ⟨c, t, hc, h0⟩ := natText_head hn
    have hd : ∀ x ∈ natText n, x.isDigit = true := digits_natText
    rw [hc] at hd ⊢
    obtain ⟨h1, h2⟩ := @takeWhile_digits t (fun x hx => hd x (by simp [hx])) rest hr
    have hcd := hd c (by simp)
    simp only [List.cons_append, integer, hcd, if_true, h1, h2]

theorem number_natText (neg : Bool) {n : Nat} (hn : (natText n).length ≤ 4300) {rest : Str} (hr : stops rest = true) :
    number neg (natText n ++ rest) = .ok (int (signed neg n), rest) := by
  have hlim : ¬ 4300 < (natText n).length := by omega
  simp only [number, integer_natText n (stops_head hr), fraction_stops hr, exponent_stops hr, if_neg hlim]
  rw [show Nat.ofDigitChars 10 (natText n) 0 = n from Nat.ofDigitChars_ten_toDigits]

theorem fixDigits_isDigit (k n : Nat) : ∀ c ∈ fixDigits k n, c.isDigit = true := by
  induction k generalizing n with
  | zero => intro c hc; cases hc
  | succ k ih =>
    intro c hc
    rcases List.mem_append.mp hc with hc | hc
    · exact ih _ c hc
    · have : ∀ m < 10, (Nat.digitChar m).isDigit = true := by decide
      rw [List.mem_singleton.mp hc]
      exact this _ (Nat.mod_lt _ (by decide))

theorem fixDigits_length (k n : Nat) : (fixDigits k n).length = k := by
  induction k generalizing n with
  | zero => rfl
  | succ k ih => simp [fixDigits, ih]

theorem ofDigitChars_fixDigits (k n : Nat) : Nat.ofDigitChars 10 (fixDigits k n) 0 = n % 10 ^ k := by
  induction k generalizing n with
  | zero => simp [fixDigits, Nat.mod_one]
  | succ k ih =>
    rw [fixDigits, Nat.ofDigitChars_append, ih, Nat.ofDigitChars_cons_digitChar_of_lt_ten (Nat.mod_lt _ (by decide)),
      Nat.ofDigitChars_nil, Nat.pow_succ']
    rw [Nat.mod_mul, Nat.add_comm]

theorem number_dec (neg : Bool) (a p : Nat) {rest : Str} (hr : stops rest = true) :
    number neg (natText (a / 10 ^ (p + 1)) ++ ('.' :: fixDigits (p + 1) a ++ rest)) =
      .ok (float (.fin ⟨signed neg a, p⟩), rest) := by
  have hne : (fixDigits (p + 1) a).isEmpty = false := by simp [fixDigits]
  obtain ⟨h1, h2⟩ := takeWhile_digits (fixDigits_isDigit (p + 1) a) (stops_head hr)
  have hf : fraction ('.' :: fixDigits (p + 1) a ++ rest) = some (fixDigits (p + 1) a, rest) := by
    simp only [List.cons_append, fraction, h1, h2, hne, Bool.false_eq_true, if_false]
  have hv : Nat.ofDigitChars 10 (natText (a / 10 ^ (p + 1)) ++ fixDigits (p + 1) a) 0 = a := by
    rw [Nat.ofDigitChars_append, Nat.ofDigitChars_eq_ofDigitChars_zero, fixDigits_length, ofDigitChars_fixDigits,
      show Nat.ofDigitChars 10 (natText (a / 10 ^ (p + 1))) 0 = a / 10 ^ (p + 1) from Nat.ofDigitChars_ten_toDigits]
    exact Nat.div_add_mod a _
  have hdot : ∀ c ∈ ('.' :: fixDigits (p + 1) a ++ rest).head?, c.isDigit = false := by
    intro c hc
    simp only [List.cons_append, List.head?_cons, Option.mem_def, Option.some.injEq] at hc
    subst hc; rfl
  simp only [number, integer_natText _ hdot, hf, exponent_stops hr, hv, fixDigits_length, mkDecimal]
  have h : (1 : Int) ≤ ((p + 1 : Nat) : Int) := by omega
  rw [if_pos h]
  simp

/-- A longer integer is refused before it is read. -/
theorem number_long (neg : Bool) {c : Char} {ds : Str} (hc : c.isDigit = true) (h0 : c ≠ '0')
    (hds : ∀ d ∈ ds, d.isDigit = true) (hlong : 4300 < (c :: ds).length) : number neg (c :: ds) = .error .digits := by
  obtain ⟨h1, h2⟩ := @takeWhile_digits ds hds [] (fun _ h => by cases h)
  rw [List.append_nil] at h1 h2
  have hint : integer (c :: ds) = some (c :: ds, []) := by simp only [integer, hc, if_true, h1, h2]
  simp only [number, hint, fraction_stops (show stops [] = true from rfl), exponent_stops (show stops [] = true from rfl),
    if_pos hlong]

/-! ## Values -/

/-- A text whose first character is a digit or a minus sign is scanned as an atom. -/
theorem value_atom (n d : Nat) {c : Char} {t : Str} (h1 : c ≠ '"') (h2 : c ≠ '[') (h3 : c ≠ '{') :
    value (n + 1) d (c :: t) = atom (c :: t) := by
  rw [value.eq_def]
  simp only
  split <;> simp_all

theorem digit_ne {c d : Char} (hc : c.isDigit = true) (hd : d.isDigit = false) : c ≠ d :=
  fun e => by rw [e, hd] at hc; cases hc

theorem atom_digit {c : Char} {t : Str} (hc : c.isDigit = true) : atom (c :: t) = number false (c :: t) := by
  have h : ∀ d : Char, d.isDigit = false → c ≠ d := fun d hd => digit_ne hc hd
  rw [atom.eq_def]
  split <;> rename_i heq <;> simp only [List.cons.injEq] at heq <;> first
    | exact absurd heq.1 (h _ (by decide))
    | rfl

theorem atom_minus {c : Char} {t : Str} (hc : c.isDigit = true) : atom ('-' :: c :: t) = number true (c :: t) := by
  have h : c ≠ 'I' := digit_ne hc (by decide)
  simp [atom, h]

theorem value_signed (n d : Nat) {ds : Str} (hne : ds ≠ []) (hds : ∀ c ∈ ds, c.isDigit = true) (t : Str) :
    value (n + 1) d (ds ++ t) = number false (ds ++ t) ∧ value (n + 1) d ('-' :: (ds ++ t)) = number true (ds ++ t) := by
  rcases ds with _ | ⟨c, ds⟩
  · exact absurd rfl hne
  · have hc := hds c (by simp)
    refine ⟨?_, ?_⟩
    · rw [List.cons_append, value_atom n d (digit_ne hc (by decide)) (digit_ne hc (by decide)) (digit_ne hc (by decide)),
        atom_digit hc]
    · rw [value_atom n d (by decide) (by decide) (by decide), List.cons_append, atom_minus hc]

theorem value_int (n d : Nat) {i : Int} (hi : (natText i.natAbs).length ≤ 4300) {rest : Str} (hr : stops rest = true) :
    value (n + 1) d (intText i ++ rest) = .ok (int i, rest) := by
  obtain ⟨h1, h2⟩ := value_signed n d (natText_ne_nil i.natAbs) digits_natText rest
  cases i with
  | ofNat k => exact h1.trans (number_natText false hi hr)
  | negSucc k => exact h2.trans (number_natText true hi hr)

theorem value_dec (n d : Nat) (x : Decimal) {rest : Str} (hr : stops rest = true) :
    value (n + 1) d (decText x ++ rest) = .ok (float (.fin x), rest) := by
  obtain ⟨m, p⟩ := x
  obtain ⟨h1, h2⟩ := value_signed n d (natText_ne_nil (m.natAbs / 10 ^ (p + 1))) digits_natText
    ('.' :: fixDigits (p + 1) m.natAbs ++ rest)
  unfold decText
  by_cases hm : m < 0
  · rw [if_pos hm]
    have h := h2.trans (number_dec true m.natAbs p hr)
    simp only [List.append_assoc, List.cons_append, List.nil_append, signed, if_true] at h ⊢
    rw [h, show -(m.natAbs : Int) = m by omega]
  · rw [if_neg hm]
    have h := h1.trans (number_dec false m.natAbs p hr)
    simp only [List.append_assoc, List.cons_append, List.nil_append, signed, Bool.false_eq_true, if_false] at h ⊢
    rw [h, show (m.natAbs : Int) = m by omega]

theorem value_num (n d : Nat) (x : PyFloat) {rest : Str} (hr : stops rest = true) :
    value (n + 1) d (numText x ++ rest) = .ok (float x, rest) := by
  cases x with
  | fin x => exact value_dec n d x hr
  | nan => rfl
  | inf neg => cases neg <;> rfl

/-! ## Containers -/

theorem skipWs_cons {c : Char} (h : isWs c = false) (t : Str) : skipWs (c :: t) = c :: t := by
  simp [skipWs, h]

theorem skipWs_blank (t : Str) : skipWs (' ' :: t) = skipWs t := by
  simp [skipWs, isWs]

theorem dumps_null : dumps null = ['n', 'u', 'l', 'l'] := by decide
theorem dumps_true : dumps (bool true) = ['t', 'r', 'u', 'e'] := by decide
theorem dumps_fin (x : Decimal) : dumps (float (.fin x)) = decText x := by unfold dumps; rfl
theorem dumps_false : dumps (bool false) = ['f', 'a', 'l', 's', 'e'] := by decide

/-- What a value's text can start with: none of it is white space. -/
theorem dumps_head (v : Json) : ∃ c t, dumps v = c :: t ∧ isWs c = false ∧ c ≠ ']' ∧ c ≠ '}' := by
  have digit : ∀ c : Char, c.isDigit = true → isWs c = false ∧ c ≠ ']' ∧ c ≠ '}' := fun c hc => by
    have h : ∀ d : Char, d.isDigit = false → c ≠ d := fun d hd => digit_ne hc hd
    refine ⟨?_, h _ (by decide), h _ (by decide)⟩
    simp [isWs, h ' ' (by decide), h '\t' (by decide), h '\n' (by decide), h '\r' (by decide)]
  have nat : ∀ (n : Nat) (u : Str), ∃ c t, natText n ++ u = c :: t ∧ isWs c = false ∧ c ≠ ']' ∧ c ≠ '}' := by
    intro n u
    rcases h : natText n with _ | ⟨c, t⟩
    · exact absurd h (natText_ne_nil n)
    · exact ⟨c, t ++ u, rfl, digit c (digits_natText c (h ▸ List.mem_cons_self))⟩
  cases v with
  | null => exact ⟨_, _, rfl, by decide⟩
  | bool b => cases b <;> exact ⟨_, _, rfl, by decide⟩
  | int n =>
    cases n with
    | ofNat k => simpa [dumps, intText] using nat k []
    | negSucc k => exact ⟨'-', natText (k + 1), by simp only [dumps, intText], by decide⟩
  | float x =>
    cases x with
    | fin x =>
      rw [dumps_fin, decText]
      by_cases hm : x.mant < 0
      · rw [if_pos hm, List.append_assoc]
        exact ⟨'-', _, by rw [List.cons_append, List.nil_append], by decide⟩
      · rw [if_neg hm, List.nil_append]
        exact nat _ _
    | nan => exact ⟨_, _, rfl, by decide⟩
    | inf neg => cases neg <;> exact ⟨_, _, rfl, by decide⟩
  | str s => exact ⟨_, _, rfl, by decide⟩
  | arr l => exact ⟨_, _, by rw [dumps], by decide⟩
  | obj l => exact ⟨_, _, by rw [dumps], by decide⟩

theorem skipWs_dumps (v : Json) (rest : Str) : skipWs (dumps v ++ rest) = dumps v ++ rest := by
  obtain ⟨c, t, h, hc, -⟩ := dumps_head v
  rw [h, List.cons_append, skipWs_cons hc]

theorem value_str (n d : Nat) {s : List CodePoint} (hs : s.all isScalar = true) (rest : Str) :
    value (n + 1) d (strText s ++ rest) = .ok (str s, rest) := by
  have h := string_escapes hs rest
  simp only [strText, List.cons_append, List.append_assoc, List.nil_append, value, h, Except.map]

/-- With fuel `n`, a value's text reads back, whatever follows that does not go on with a
    numeral. -/
def ValueAt (n : Nat) : Prop :=
  ∀ v d, plain v = true → depth v ≤ d → 2 * (dumps v).length ≤ n → ∀ rest, stops rest = true →
    value n d (dumps v ++ rest) = .ok (v, rest)

def ElemsAt (n : Nat) : Prop :=
  ∀ x l d, plainElems (x :: l) = true → depthElems (x :: l) ≤ d → 2 * (dumpsElems (x :: l)).length + 1 ≤ n →
    ∀ rest, elems n d (dumpsElems (x :: l) ++ rest) = .ok (x :: l, rest)

def MembersAt (n : Nat) : Prop :=
  ∀ k x l d, plainMembers ((k, x) :: l) = true → depthMembers ((k, x) :: l) ≤ d →
    2 * (dumpsMembers ((k, x) :: l)).length + 1 ≤ n →
    ∀ rest, members n d (dumpsMembers ((k, x) :: l) ++ rest) = .ok ((k, x) :: l, rest)

theorem value_arr {n : Nat} (ih : ElemsAt n) (l : List Json) (d : Nat) (hp : plainElems l = true)
    (hd : depthElems l + 1 ≤ d) (hn : 2 * (dumpsElems l).length + 1 ≤ n) (rest : Str) :
    value (n + 1) d ('[' :: (dumpsElems l ++ rest)) = .ok (arr l, rest) := by
  obtain ⟨d, rfl⟩ : ∃ m, d = m + 1 := ⟨d - 1, by omega⟩
  simp only [value]
  rcases l with _ | ⟨x, l⟩
  · rfl
  · obtain ⟨c, t, hc, hw, hb, -⟩ := dumps_head x
    have h := ih x l d hp (by omega) hn rest
    simp only [dumpsElems, hc, List.cons_append, skipWs_cons hw] at h ⊢
    split
    · rename_i heq
      exact absurd (List.cons.inj heq).1 hb
    · rw [h]; rfl

theorem value_obj {n : Nat} (ih : MembersAt n) (l : List (List CodePoint × Json)) (d : Nat)
    (hp : plainMembers l = true) (hd : depthMembers l + 1 ≤ d) (hn : 2 * (dumpsMembers l).length + 1 ≤ n) (rest : Str) :
    value (n + 1) d ('{' :: (dumpsMembers l ++ rest)) = .ok (obj l, rest) := by
  obtain ⟨d, rfl⟩ : ∃ m, d = m + 1 := ⟨d - 1, by omega⟩
  simp only [value]
  rcases l with _ | ⟨⟨k, x⟩, l⟩
  · rfl
  · have h := ih k x l d hp (by omega) hn rest
    simp only [dumpsMembers, strText, List.cons_append, skipWs_cons (show isWs '"' = false by decide)] at h ⊢
    split
    · rename_i heq
      exact absurd (List.cons.inj heq).1 (by decide)
    · rw [h]; rfl

theorem valueAt_succ {n : Nat} (he : ElemsAt n) (hm : MembersAt n) : ValueAt (n + 1) := by
  intro v d hp hd hn rest hr
  cases v with
  | null => rw [dumps_null]; exact value_atom n d (by decide) (by decide) (by decide)
  | bool b =>
    cases b with
    | true => rw [dumps_true]; exact value_atom n d (by decide) (by decide) (by decide)
    | false => rw [dumps_false]; exact value_atom n d (by decide) (by decide) (by decide)
  | int i => rw [dumps]; exact value_int n d (by simpa [plain] using hp) hr
  | float x => rw [dumps]; exact value_num n d x hr
  | str s => rw [dumps]; exact value_str n d hp rest
  | arr l =>
    rw [dumps, List.length_cons] at hn
    rw [dumps, List.cons_append]
    exact value_arr he l d hp hd (by omega) rest
  | obj l =>
    rw [dumps, List.length_cons] at hn
    rw [dumps, List.cons_append]
    exact value_obj hm l d hp hd (by omega) rest

theorem elemsAt_succ {n : Nat} (hv : ValueAt n) (he : ElemsAt n) : ElemsAt (n + 1) := by
  intro x l d hp hd hn rest
  simp only [plainElems, Bool.and_eq_true] at hp
  simp only [depthElems, Nat.max_le] at hd
  simp only [dumpsElems, List.length_append] at hn
  have hmore : stops (dumpsMore l ++ rest) = true := by cases l <;> rfl
  have hpos : 0 < (dumpsMore l).length := by cases l <;> simp [dumpsMore]
  have hx := hv x d hp.1 hd.1 (by omega) (dumpsMore l ++ rest) hmore
  simp only [dumpsElems, List.append_assoc, elems, hx]
  rcases l with _ | ⟨y, l⟩
  · rfl
  · have hl := he y l d hp.2 hd.2 (by simp [dumpsMore, dumpsElems] at hn ⊢; omega) rest
    have hs := skipWs_dumps y (dumpsMore l ++ rest)
    simp only [dumpsElems, List.append_assoc] at hl
    show (elems n d (skipWs (' ' :: (dumps y ++ dumpsMore l ++ rest)))).map _ = _
    rw [skipWs_blank, List.append_assoc, hs, hl]
    rfl

theorem membersAt_succ {n : Nat} (hv : ValueAt n) (hm : MembersAt n) : MembersAt (n + 1) := by
  intro k x l d hp hd hn rest
  simp only [plainMembers, Bool.and_eq_true] at hp
  simp only [depthMembers, Nat.max_le] at hd
  simp only [dumpsMembers, List.length_append] at hn
  have hrest : stops (dumpsRest l ++ rest) = true := by rcases l with _ | ⟨⟨_, _⟩, _⟩ <;> rfl
  have hx := hv x d hp.1.2 hd.1 (by simp at hn; omega) (dumpsRest l ++ rest) hrest
  have hk := string_escapes hp.1.1 (": ".toList ++ (dumps x ++ (dumpsRest l ++ rest)))
  have hcolon : skipWs (": ".toList ++ (dumps x ++ (dumpsRest l ++ rest))) =
      ':' :: ' ' :: (dumps x ++ (dumpsRest l ++ rest)) := rfl
  have hblank : skipWs (' ' :: (dumps x ++ (dumpsRest l ++ rest))) = dumps x ++ (dumpsRest l ++ rest) :=
    (skipWs_blank _).trans (skipWs_dumps x _)
  simp only [dumpsMembers, strText, List.cons_append, List.append_assoc, List.nil_append, members, hk, hcolon, hblank,
    hx]
  rcases l with _ | ⟨⟨k', y⟩, l⟩
  · rfl
  · have hl := hm k' y l d hp.2 hd.2 (by simp [dumpsRest, dumpsMembers] at hn ⊢; omega) rest
    simp only [dumpsMembers, strText, List.cons_append, List.append_assoc, List.nil_append] at hl
    simp only [dumpsRest, strText, List.cons_append, List.append_assoc, List.nil_append]
    show (members n d (skipWs (' ' :: '"' :: _))).map _ = _
    rw [show ∀ t, skipWs (' ' :: '"' :: t) = '"' :: t from fun t => rfl, hl]
    rfl

theorem scan_dumps (n : Nat) : ValueAt n ∧ ElemsAt n ∧ MembersAt n := by
  induction n with
  | zero =>
    refine ⟨?_, ?_, ?_⟩
    · intro v d _ _ hn
      obtain ⟨c, t, hc, -⟩ := dumps_head v
      rw [hc] at hn
      simp at hn
    · intro x l d _ _ hn
      omega
    · intro k x l d _ _ hn
      omega
  | succ n ih => exact ⟨valueAt_succ ih.2.1 ih.2.2, elemsAt_succ ih.1 ih.2.1, membersAt_succ ih.1 ih.2.2⟩

/-- The round trip. -/
theorem loads_dumps {v : Json} (hp : plain v = true) {limit : Nat} (hd : depth v ≤ limit) :
    loads limit (dumps v) = .ok v := by
  have hw := skipWs_dumps v []
  have h := (scan_dumps (2 * (dumps v).length + 2)).1 v limit hp hd (by omega) [] rfl
  simp only [List.append_nil] at hw h
  simp only [loads, hw, h]
  rfl

theorem loads_long {c : Char} {ds : Str} (hc : c.isDigit = true) (h0 : c ≠ '0') (hds : ∀ d ∈ ds, d.isDigit = true)
    (hlong : 4300 < (c :: ds).length) (limit : Nat) : loads limit (c :: ds) = .error .digits := by
  have hws : isWs c = false := by
    have h : ∀ d : Char, d.isDigit = false → c ≠ d := fun d hd => digit_ne hc hd
    simp [isWs, h]
  have hne : c :: ds ≠ [] := List.cons_ne_nil c ds
  have hvalue := (value_signed (2 * (c :: ds).length + 1) limit hne (by simpa [hc] using hds) []).1
  rw [List.append_nil] at hvalue
  rw [loads, skipWs_cons hws, hvalue, number_long false hc h0 hds hlong]

end CivicPulse.Text.Json
