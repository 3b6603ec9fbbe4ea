/-
  CivicPulse.Text.Grammar — which texts the JSON scanner reads, and at which it raises
  something else than `JSONDecodeError`.

  `Value` is the grammar, with so many levels of nesting left. The scanner goes from left
  to right: `Meets` says at which places of a text it looks for a value, and with how many
  levels left. Two things it may find there end the scan with another exception: an integer
  of more than 4300 digits, and a bracket when no level is left.
  - `loads_ok_iff`: what is read is what the grammar has, whole.
  - `loads_error_iff`: how `loads` fails otherwise is told by the places it meets.
  No fuel is in any of the statements.
-/

import CivicPulse.Text.Objects

namespace CivicPulse.Text.Json

/-! ## The grammar -/

mutual

/-- `v` stands at the head of a text, with `d` levels of nesting left, and what is left after it. -/
inductive Value : Nat → Str → Json → Str → Prop
  | string {d : Nat} {s t : Str} {l : List CodePoint} : string s = .ok (l, t) → Value d ('"' :: s) (.str l) t
  | atom {d : Nat} {s t : Str} {v : Json} : atom s = .ok (v, t) → Value d s v t
  | emptyArr {d : Nat} {s t : Str} : skipWs s = ']' :: t → Value (d + 1) ('[' :: s) (.arr []) t
  | arr {d : Nat} {s t : Str} {l : List Json} : Elems d (skipWs s) l t → Value (d + 1) ('[' :: s) (.arr l) t
  | emptyObj {d : Nat} {s t : Str} : skipWs s = '}' :: t → Value (d + 1) ('{' :: s) (.obj []) t
  | obj {d : Nat} {s t : Str} {l : List (List CodePoint × Json)} : Members d (skipWs s) l t →
      Value (d + 1) ('{' :: s) (.obj l) t

/-- Elements up to the bracket. -/
inductive Elems : Nat → Str → List Json → Str → Prop
  | last {d : Nat} {s t u : Str} {v : Json} : Value d s v t → skipWs t = ']' :: u → Elems d s [v] u
  | more {d : Nat} {s t u w : Str} {v : Json} {l : List Json} : Value d s v t → skipWs t = ',' :: u →
      Elems d (skipWs u) l w → Elems d s (v :: l) w

/-- Members up to the brace. -/
inductive Members : Nat → Str → List (List CodePoint × Json) → Str → Prop
  | last {d : Nat} {s t u w x : Str} {k : List CodePoint} {v : Json} : string s = .ok (k, t) → skipWs t = ':' :: u →
      Value d (skipWs u) v w → skipWs w = '}' :: x → Members d ('"' :: s) [(k, v)] x
  | more {d : Nat} {s t u w x y : Str} {k : List CodePoint} {v : Json} {l : List (List CodePoint × Json)} :
      string s = .ok (k, t) → skipWs t = ':' :: u → Value d (skipWs u) v w → skipWs w = ',' :: x →
      Members d (skipWs x) l y → Members d ('"' :: s) ((k, v) :: l) y

end

mutual

/-- Reading the value at the head of a text with so many levels left, the scanner looks for a
    value at the head of the other text, with so many left. -/
inductive Meets : Nat → Str → Nat → Str → Prop
  | here {d : Nat} {s : Str} : Meets d s d s
  | arr {d d' : Nat} {s t : Str} : MeetsElem d (skipWs s) d' t → Meets (d + 1) ('[' :: s) d' t
  | obj {d d' : Nat} {s t : Str} : MeetsMember d (skipWs s) d' t → Meets (d + 1) ('{' :: s) d' t

/-- Reading elements. -/
inductive MeetsElem : Nat → Str → Nat → Str → Prop
  | this {d d' : Nat} {s t : Str} : Meets d s d' t → MeetsElem d s d' t
  | later {d d' : Nat} {s t u w : Str} {v : Json} : Value d s v u → skipWs u = ',' :: w →
      MeetsElem d (skipWs w) d' t → MeetsElem d s d' t

/-- Reading members. -/
inductive MeetsMember : Nat → Str → Nat → Str → Prop
  | this {d d' : Nat} {s t u w : Str} {k : List CodePoint} : string s = .ok (k, u) → skipWs u = ':' :: w →
      Meets d (skipWs w) d' t → MeetsMember d ('"' :: s) d' t
  | later {d d' : Nat} {s t u w x y : Str} {k : List CodePoint} {v : Json} : string s = .ok (k, u) → skipWs u = ':' :: w →
      Value d (skipWs w) v x → skipWs x = ',' :: y → MeetsMember d (skipWs y) d' t → MeetsMember d ('"' :: s) d' t

end

/-! ## What ends a scan -/

/-- A digit stands at the head of a text. -/
def Digit (t : Str) : Prop := ∃ c u, t = c :: u ∧ c.isDigit = true

/-- A point and a digit. -/
def Fraction (t : Str) : Prop := ∃ u, t = '.' :: u ∧ Digit u

/-- `e` or `E`, a sign or none, and a digit. -/
def Exponent (t : Str) : Prop :=
  ∃ e sign u, t = e :: (sign ++ u) ∧ (e = 'e' ∨ e = 'E') ∧ (sign = [] ∨ sign = ['-'] ∨ sign = ['+']) ∧ Digit u

/-- An integer of more than 4300 digits, without a sign. -/
def LongDigits (s : Str) : Prop :=
  ∃ ds t, s = ds ++ t ∧ 4300 < ds.length ∧ (∀ c ∈ ds, c.isDigit = true) ∧ ds.head? ≠ some '0' ∧
    ¬ Digit t ∧ ¬ Fraction t ∧ ¬ Exponent t

def LongInteger (s : Str) : Prop := LongDigits s ∨ ∃ t, s = '-' :: t ∧ LongDigits t

/-- An array or an object begins. -/
def Opens (s : Str) : Prop := s.head? = some '[' ∨ s.head? = some '{'

/-- What makes the scanner raise this error where it looks for a value, with so many levels
    left: an integer over the digit limit, or a bracket when no level is left. -/
def Stops : LoadError → Nat → Str → Prop
  | .decode, _, _ => False
  | .digits, _, s => LongInteger s
  | .recursion, d, s => d = 0 ∧ Opens s

/-! ## Numerals -/

theorem digits_empty_iff (t : Str) : (t.takeWhile Char.isDigit).isEmpty = true ↔ ¬ Digit t := by
  cases t with
  | nil => exact iff_of_true rfl fun ⟨_, _, h, _⟩ => by cases h
  | cons c t =>
    by_cases hc : c.isDigit = true
    · rw [List.takeWhile_cons_of_pos hc]
      exact iff_of_false Bool.false_ne_true fun h => h ⟨c, t, rfl, hc⟩
    · rw [List.takeWhile_cons_of_neg hc]
      exact iff_of_true rfl fun ⟨_, _, h, hd⟩ => by cases h; exact hc hd

theorem fraction_none_iff (t : Str) : fraction t = none ↔ ¬ Fraction t := by
  unfold fraction
  split
  · rename_i u
    have hdigit : Fraction ('.' :: u) ↔ Digit u :=
      ⟨fun ⟨v, h, hv⟩ => (List.cons.inj h).2 ▸ hv, fun h => ⟨u, rfl, h⟩⟩
    rw [hdigit, ← digits_empty_iff]
    dsimp only
    split
    · rename_i h
      exact iff_of_true rfl h
    · rename_i h
      exact iff_of_false (fun h => by cases h) h
  · rename_i h
    exact iff_of_true rfl fun ⟨u, he, _⟩ => h u he

theorem exponent_none_iff (t : Str) : exponent t = none ↔ ¬ Exponent t := by
  have hnone : ∀ (x : Int) (u : Str), (if (u.takeWhile Char.isDigit).isEmpty then none else
      some (x, u.dropWhile Char.isDigit)) = none ↔ ¬ Digit u := by
    intro x u
    rw [← digits_empty_iff]
    split
    · rename_i h
      exact iff_of_true rfl h
    · rename_i h
      exact iff_of_false (fun h => by cases h) h
  have hsign : ∀ {u v : Str} {sign : Str}, (sign = [] ∨ sign = ['-'] ∨ sign = ['+']) → u = sign ++ v → Digit v →
      (∀ w, u = '-' :: w → Digit w) ∧ (∀ w, u = '+' :: w → Digit w) ∧
        ((∀ w, u ≠ '-' :: w) → (∀ w, u ≠ '+' :: w) → Digit u) := by
    rintro u v sign hs rfl hv
    obtain ⟨c, v, rfl, hc⟩ := hv
    rcases hs with rfl | rfl | rfl
    · refine ⟨fun w h => ?_, fun w h => ?_, fun _ _ => ⟨c, v, rfl, hc⟩⟩
      · cases h
        exact absurd hc (by decide)
      · cases h
        exact absurd hc (by decide)
    · exact ⟨fun w h => (by cases h; exact ⟨c, v, rfl, hc⟩), fun w h => (by cases h), fun h => absurd rfl (h _)⟩
    · exact ⟨fun w h => (by cases h), fun w h => (by cases h; exact ⟨c, v, rfl, hc⟩), fun _ h => absurd rfl (h _)⟩
  unfold exponent
  split
  · rename_i e t
    split
    · rename_i he
      dsimp only
      split
      · rename_i w
        rw [hnone]
        refine not_congr ⟨fun h => ⟨e, ['-'], w, rfl, he, .inr (.inl rfl), h⟩, fun ⟨_, _, _, h, _, hs, hv⟩ => ?_⟩
        exact (hsign hs (List.cons.inj h).2 hv).1 w rfl
      · rename_i w
        rw [hnone]
        refine not_congr ⟨fun h => ⟨e, ['+'], w, rfl, he, .inr (.inr rfl), h⟩, fun ⟨_, _, _, h, _, hs, hv⟩ => ?_⟩
        exact (hsign hs (List.cons.inj h).2 hv).2.1 w rfl
      · rename_i hminus hplus
        rw [hnone]
        refine not_congr ⟨fun h => ⟨e, [], t, rfl, he, .inl rfl, h⟩, fun ⟨_, _, _, h, _, hs, hv⟩ => ?_⟩
        exact (hsign hs (List.cons.inj h).2 hv).2.2 hminus hplus
    · rename_i he
      exact iff_of_true rfl fun ⟨e', _, _, h, he', _⟩ => he (by cases h; exact he')
  · exact iff_of_true rfl fun ⟨_, _, _, h, _⟩ => by cases h

theorem integer_long_iff (s ds t : Str) : (integer s = some (ds, t) ∧ 4300 < ds.length) ↔
    s = ds ++ t ∧ 4300 < ds.length ∧ (∀ c ∈ ds, c.isDigit = true) ∧ ds.head? ≠ some '0' ∧ ¬ Digit t := by
  have hhead : ∀ {t : Str}, ¬ Digit t ↔ ∀ c ∈ t.head?, c.isDigit = false := by
    intro t
    cases t with
    | nil => exact iff_of_true (fun ⟨_, _, h, _⟩ => by cases h) fun _ h => by cases h
    | cons c t =>
      constructor
      · intro h d hd
        obtain rfl : c = d := Option.some.inj hd
        by_contra hc
        exact h ⟨c, t, rfl, by simpa using hc⟩
      · rintro h ⟨d, u, he, hd⟩
        rw [h d (congrArg List.head? he)] at hd
        cases hd
  constructor
  · rintro ⟨h, hlong⟩
    unfold integer at h
    split at h
    · cases h
      exact absurd hlong (by decide)
    · rename_i c u hzero
      split at h
      · rename_i hc
        cases h
        refine ⟨?_, hlong, ?_, ?_, ?_⟩
        · rw [List.cons_append, List.takeWhile_append_dropWhile]
        · intro d hd
          rcases List.mem_cons.mp hd with rfl | hd
          · exact hc
          · exact List.mem_takeWhile_imp hd
        · intro h0
          exact hzero (Option.some.inj h0)
        · rintro ⟨d, v, hv, hd⟩
          have := List.head?_dropWhile_not Char.isDigit u
          rw [hv] at this
          simp [hd] at this
      · cases h
    · cases h
  · rintro ⟨rfl, hlong, hdigits, hzero, ht⟩
    refine ⟨?_, hlong⟩
    rcases ds with _ | ⟨c, ds⟩
    · exact absurd hlong (by decide)
    obtain ⟨htake, hdrop⟩ := takeWhile_digits (fun d hd => hdigits d (List.mem_cons_of_mem _ hd)) (hhead.mp ht)
    have hc : c.isDigit = true := hdigits c List.mem_cons_self
    have hne : c ≠ '0' := fun e => hzero (congrArg some e)
    rw [List.cons_append]
    unfold integer
    split
    · rename_i h
      exact absurd (List.cons.inj h).1 hne
    · rename_i h
      cases h
      rw [if_pos hc, htake, hdrop]
    · rename_i h
      cases h

theorem number_digits_iff (neg : Bool) (s : Str) : number neg s = .error .digits ↔ LongDigits s := by
  constructor
  · intro h
    unfold number at h
    split at h
    · cases h
    · rename_i ds t hint
      split at h
      · dsimp only at h
        split at h <;> cases h
      · rename_i hfrac
        split at h
        · cases h
        · rename_i hexp
          split at h
          · rename_i hlong
            obtain ⟨hs, hlen, hdigits, hzero, ht⟩ := (integer_long_iff s ds t).mp ⟨hint, hlong⟩
            exact ⟨ds, t, hs, hlen, hdigits, hzero, ht, (fraction_none_iff t).mp hfrac, (exponent_none_iff t).mp hexp⟩
          · cases h
  · rintro ⟨ds, t, hs, hlen, hdigits, hzero, ht, hfrac, hexp⟩
    obtain ⟨hint, hlong⟩ := (integer_long_iff s ds t).mpr ⟨hs, hlen, hdigits, hzero, ht⟩
    simp only [number, hint, (fraction_none_iff t).mpr hfrac, (exponent_none_iff t).mpr hexp, if_pos hlong]

/-! ## Atoms -/

theorem longDigits_head {s : Str} (h : LongDigits s) : ∃ c t, s = c :: t ∧ c.isDigit = true := by
  obtain ⟨ds, t, rfl, hlen, hdigits, -⟩ := h
  rcases ds with _ | ⟨c, ds⟩
  · exact absurd hlen (by decide)
  · exact ⟨c, ds ++ t, rfl, hdigits c List.mem_cons_self⟩

theorem atom_digits_iff (s : Str) : atom s = .error .digits ↔ LongInteger s := by
  constructor
  · intro h
    unfold atom at h
    split at h
    iterate 6 cases h
    · exact .inr ⟨_, rfl, (number_digits_iff true _).mp h⟩
    · exact .inl ((number_digits_iff false _).mp h)
  · rintro (h | ⟨t, rfl, h⟩)
    · obtain ⟨c, t, rfl, hc⟩ := longDigits_head h
      rw [atom_digit hc]
      exact (number_digits_iff false _).mpr h
    · obtain ⟨c, u, rfl, hc⟩ := longDigits_head h
      rw [atom_minus hc]
      exact (number_digits_iff true _).mpr h

theorem number_error {neg : Bool} {s : Str} {e : LoadError} (h : number neg s = .error e) : e = .decode ∨ e = .digits := by
  unfold number at h
  split at h
  · cases h
    exact .inl rfl
  · split at h
    · dsimp only at h
      split at h <;> cases h
    · split at h
      · cases h
      · split at h
        · cases h
          exact .inr rfl
        · cases h

theorem atom_error {s : Str} {e : LoadError} (h : atom s = .error e) : e = .decode ∨ e = .digits := by
  unfold atom at h
  split at h
  iterate 6 cases h
  · exact number_error h
  · exact number_error h

theorem stringBody_error {s : Str} {e : LoadError} (h : stringBody s = .error e) : e = .decode := by
  have hmap : ∀ {u : Nat} {r : Parse (List Nat)}, (r = .error e → e = .decode) →
      r.map (fun r => (u :: r.1, r.2)) = .error e → e = .decode := by
    intro u r hr h
    rcases r with e' | r
    · cases h
      exact hr rfl
    · cases h
  fun_induction stringBody s with
  | case1 => cases h; rfl
  | case2 => cases h
  | case3 => cases h; rfl
  | case4 a b c d t n hn ih => exact hmap ih h
  | case5 => cases h; rfl
  | case6 c t hc n hn ih => exact hmap ih h
  | case7 => cases h; rfl
  | case8 c t hq he hs hc ih => exact hmap ih h

theorem string_error {s : Str} {e : LoadError} (h : string s = .error e) : e = .decode := by
  unfold string at h
  rcases hs : stringBody s with e' | r
  · rw [hs] at h
    cases h
    exact stringBody_error hs
  · rw [hs] at h
    cases h

/-! ## Heads -/

/-- No atom begins with a quote or a bracket. -/
def punctuation (c : Char) : Bool := c == '"' || c == '[' || c == ']' || c == '{' || c == '}'

theorem atom_punctuation {c : Char} (h : punctuation c = true) (s : Str) : atom (c :: s) = .error .decode := by
  simp only [punctuation, Bool.or_eq_true, beq_iff_eq] at h
  rcases h with (((rfl | rfl) | rfl) | rfl) | rfl <;> rfl

theorem not_longInteger {c : Char} (h : punctuation c = true) (s : Str) : ¬ LongInteger (c :: s) := by
  rw [← atom_digits_iff, atom_punctuation h]
  intro h
  cases h

/-- No value begins with a closing bracket. -/
theorem not_value {d : Nat} {c : Char} {s t : Str} {v : Json} (hc : c = ']' ∨ c = '}') : ¬ Value d (c :: s) v t := by
  intro h
  have hp : punctuation c = true := by rcases hc with rfl | rfl <;> rfl
  cases h with
  | atom h =>
    rw [atom_punctuation hp] at h
    cases h
  | _ => rcases hc with hc | hc <;> cases hc

/-- Nothing stops the scan at a closing bracket or a quote. -/
theorem not_stops {d : Nat} {c : Char} {s : Str} {e : LoadError} (hc : c = ']' ∨ c = '}' ∨ c = '"') : ¬ Stops e d (c :: s) := by
  have hp : punctuation c = true := by rcases hc with rfl | rfl | rfl <;> rfl
  intro h
  cases e with
  | decode => exact h
  | digits => exact not_longInteger hp s h
  | recursion =>
    obtain ⟨-, h | h⟩ := h
    · rcases hc with rfl | rfl | rfl <;> cases h
    · rcases hc with rfl | rfl | rfl <;> cases h

/-- Where there are levels left, an opening bracket does not stop it either. -/
theorem not_stops_open {d : Nat} {c : Char} {s : Str} {e : LoadError} (hc : c = '[' ∨ c = '{') : ¬ Stops e (d + 1) (c :: s) := by
  have hp : punctuation c = true := by rcases hc with rfl | rfl <;> rfl
  intro h
  cases e with
  | decode => exact h
  | digits => exact not_longInteger hp s h
  | recursion => exact absurd h.1 (Nat.succ_ne_zero d)

/-! ## The scanner keeps to the grammar -/

/-- What a scan with enough fuel comes to: what it reads, and how it fails but for
    malformed text. -/
structure Scans {α : Type} (r : Parse α) (reads : α → Str → Prop) (meets : Nat → Str → Prop) : Prop where
  ok : ∀ v t, r = .ok (v, t) ↔ reads v t
  error : ∀ e, e ≠ .decode → (r = .error e ↔ ∃ d t, meets d t ∧ Stops e d t)

/-- Malformed text, where the scanner meets nothing else. -/
theorem scans_malformed {α : Type} {reads : α → Str → Prop} {meets : Nat → Str → Prop} (hr : ∀ v t, ¬ reads v t)
    (hm : ∀ e d t, meets d t → ¬ Stops e d t) : Scans (.error .decode : Parse α) reads meets where
  ok v t := iff_of_false (fun h => by cases h) (hr v t)
  error e he := iff_of_false (fun h => by cases h; exact he rfl) fun ⟨d, t, h, hs⟩ => hm e d t h hs

/-- With fuel `n`, on the texts for which it is enough. -/
structure ScansAt (n : Nat) : Prop where
  value : ∀ {d : Nat} {s : Str}, 2 * s.length + 1 ≤ n → Scans (value n d s) (Value d s) (Meets d s)
  elems : ∀ {d : Nat} {s : Str}, 2 * s.length + 2 ≤ n → Scans (elems n d s) (Elems d s) (MeetsElem d s)
  members : ∀ {d : Nat} {s : Str}, 2 * s.length + 2 ≤ n → Scans (members n d s) (Members d s) (MeetsMember d s)

theorem length_skipWs (s : Str) : (skipWs s).length ≤ s.length := (skipWs_rest s).length_le

theorem scans_string {d : Nat} (s : Str) :
    Scans ((string s).map fun r => (Json.str r.1, r.2)) (Value d ('"' :: s)) (Meets d ('"' :: s)) where
  ok v t := by
    constructor
    · intro h
      obtain ⟨⟨l, u⟩, hl, he⟩ := map_ok h
      cases he
      exact .string hl
    · intro h
      cases h with
      | string h => rw [h]; rfl
      | atom h => cases (atom_punctuation (c := '"') rfl s).symm.trans h
  error e he := by
    refine iff_of_false (fun h => ?_) fun ⟨d', t, hm, hs⟩ => ?_
    · rcases hl : string s with e' | r
      · rw [hl] at h
        cases h
        exact he (string_error hl)
      · rw [hl] at h
        cases h
    · cases hm
      exact not_stops (.inr (.inr rfl)) hs

theorem scans_atom {d : Nat} {s : Str} (hq : ∀ t, s ≠ '"' :: t) (ha : ∀ t, s ≠ '[' :: t) (ho : ∀ t, s ≠ '{' :: t) :
    Scans (atom s) (Value d s) (Meets d s) where
  ok v t := by
    constructor
    · exact .atom
    · intro h
      cases h with
      | atom h => exact h
      | string _ => exact absurd rfl (hq _)
      | emptyArr _ => exact absurd rfl (ha _)
      | arr _ => exact absurd rfl (ha _)
      | emptyObj _ => exact absurd rfl (ho _)
      | obj _ => exact absurd rfl (ho _)
  error e he := by
    have hhere : (∃ d' t, Meets d s d' t ∧ Stops e d' t) ↔ Stops e d s := by
      constructor
      · rintro ⟨d', t, hm, hs⟩
        cases hm with
        | here => exact hs
        | arr _ => exact absurd rfl (ha _)
        | obj _ => exact absurd rfl (ho _)
      · exact fun h => ⟨d, s, .here, h⟩
    rw [hhere]
    cases e with
    | decode => exact absurd rfl he
    | digits => exact atom_digits_iff s
    | recursion =>
      refine iff_of_false (fun h => ?_) ?_
      · rcases atom_error h with h | h <;> cases h
      · rintro ⟨-, h | h⟩
        · obtain ⟨t, rfl⟩ := List.head?_eq_some_iff.mp h
          exact ha t rfl
        · obtain ⟨t, rfl⟩ := List.head?_eq_some_iff.mp h
          exact ho t rfl

/-- A bracket with no level left. -/
theorem scans_deep {c : Char} (hc : c = '[' ∨ c = '{') (s : Str) :
    Scans (.error .recursion : Parse Json) (Value 0 (c :: s)) (Meets 0 (c :: s)) where
  ok v t := by
    refine iff_of_false (fun h => by cases h) fun h => ?_
    cases h with
    | string _ => rcases hc with hc | hc <;> cases hc
    | atom h =>
      rw [atom_punctuation (by rcases hc with rfl | rfl <;> rfl)] at h
      cases h
  error e he := by
    have hopens : Opens (c :: s) := hc.imp (congrArg some) (congrArg some)
    cases e with
    | decode => exact absurd rfl he
    | recursion => exact iff_of_true rfl ⟨0, c :: s, .here, rfl, hopens⟩
    | digits =>
      refine iff_of_false (fun h => by cases h) fun ⟨d', t, hm, hs⟩ => ?_
      cases hm
      exact not_longInteger (by rcases hc with rfl | rfl <;> rfl) s hs

/-- An error is the same whatever was to be read. -/
theorem error_eq_error {ε α β : Type} {e e' : ε} : (.error e' : Except ε α) = .error e ↔ (.error e' : Except ε β) = .error e :=
  ⟨fun h => congrArg Except.error (Except.error.inj h), fun h => congrArg Except.error (Except.error.inj h)⟩

theorem map_error {ε α β : Type} {f : α → β} {x : Except ε α} {e : ε} : x.map f = .error e ↔ x = .error e := by
  cases x with
  | error e' => exact error_eq_error
  | ok a => exact iff_of_false (fun h => by cases h) fun h => by cases h

theorem scans_emptyArr {d : Nat} {s u : Str} (h : skipWs s = ']' :: u) :
    Scans (.ok (arr [], u)) (Value (d + 1) ('[' :: s)) (Meets (d + 1) ('[' :: s)) where
  ok v t := by
    constructor
    · intro he
      cases he
      exact .emptyArr h
    · intro hv
      cases hv with
      | atom hv => cases (atom_punctuation (c := '[') rfl s).symm.trans hv
      | emptyArr hv =>
        cases h.symm.trans hv
        rfl
      | arr hv =>
        rw [h] at hv
        cases hv with
        | last hv _ => exact absurd hv (not_value (.inl rfl))
        | more hv _ _ => exact absurd hv (not_value (.inl rfl))
  error e he := by
    refine iff_of_false (fun h => by cases h) fun ⟨d', t, hm, hs⟩ => ?_
    cases hm with
    | here => exact not_stops_open (.inl rfl) hs
    | arr hm =>
      rw [h] at hm
      cases hm with
      | later hv _ _ => exact not_value (.inl rfl) hv
      | this hm =>
        cases hm
        exact not_stops (.inl rfl) hs

theorem scans_arr {d : Nat} {s : Str} {r : Parse (List Json)} (h : ∀ u, skipWs s ≠ ']' :: u)
    (hr : Scans r (Elems d (skipWs s)) (MeetsElem d (skipWs s))) :
    Scans (r.map fun r => (arr r.1, r.2)) (Value (d + 1) ('[' :: s)) (Meets (d + 1) ('[' :: s)) where
  ok v t := by
    constructor
    · intro he
      obtain ⟨⟨l, u⟩, rfl, he⟩ := map_ok he
      cases he
      exact .arr ((hr.ok l u).mp rfl)
    · intro hv
      cases hv with
      | atom hv => cases (atom_punctuation (c := '[') rfl s).symm.trans hv
      | emptyArr hv => exact absurd hv (h _)
      | arr hv => rw [(hr.ok _ _).mpr hv]; rfl
  error e he := by
    rw [map_error, hr.error e he]
    constructor
    · rintro ⟨d', t, hm, hs⟩
      exact ⟨d', t, .arr hm, hs⟩
    · rintro ⟨d', t, hm, hs⟩
      cases hm with
      | here => exact absurd hs (not_stops_open (.inl rfl))
      | arr hm => exact ⟨d', t, hm, hs⟩

theorem scans_emptyObj {d : Nat} {s u : Str} (h : skipWs s = '}' :: u) :
    Scans (.ok (obj [], u)) (Value (d + 1) ('{' :: s)) (Meets (d + 1) ('{' :: s)) where
  ok v t := by
    constructor
    · intro he
      cases he
      exact .emptyObj h
    · intro hv
      cases hv with
      | atom hv => cases (atom_punctuation (c := '{') rfl s).symm.trans hv
      | emptyObj hv =>
        cases h.symm.trans hv
        rfl
      | obj hv =>
        rw [h] at hv
        cases hv
  error e he := by
    refine iff_of_false (fun h => by cases h) fun ⟨d', t, hm, hs⟩ => ?_
    cases hm with
    | here => exact not_stops_open (.inr rfl) hs
    | obj hm =>
      rw [h] at hm
      cases hm

theorem scans_obj {d : Nat} {s : Str} {r : Parse (List (List CodePoint × Json))} (h : ∀ u, skipWs s ≠ '}' :: u)
    (hr : Scans r (Members d (skipWs s)) (MeetsMember d (skipWs s))) :
    Scans (r.map fun r => (obj r.1, r.2)) (Value (d + 1) ('{' :: s)) (Meets (d + 1) ('{' :: s)) where
  ok v t := by
    constructor
    · intro he
      obtain ⟨⟨l, u⟩, rfl, he⟩ := map_ok he
      cases he
      exact .obj ((hr.ok l u).mp rfl)
    · intro hv
      cases hv with
      | atom hv => cases (atom_punctuation (c := '{') rfl s).symm.trans hv
      | emptyObj hv => exact absurd hv (h _)
      | obj hv => rw [(hr.ok _ _).mpr hv]; rfl
  error e he := by
    rw [map_error, hr.error e he]
    constructor
    · rintro ⟨d', t, hm, hs⟩
      exact ⟨d', t, .obj hm, hs⟩
    · rintro ⟨d', t, hm, hs⟩
      cases hm with
      | here => exact absurd hs (not_stops_open (.inr rfl))
      | obj hm => exact ⟨d', t, hm, hs⟩

theorem scans_value {n : Nat} (ih : ScansAt n) {d : Nat} {s : Str} (hn : 2 * s.length + 1 ≤ n + 1) :
    Scans (value (n + 1) d s) (Value d s) (Meets d s) := by
  unfold value
  split
  · exact scans_string _
  · rename_i s
    have hlen : 2 * (skipWs s).length + 2 ≤ n := by
      have := length_skipWs s
      rw [List.length_cons] at hn
      omega
    split
    · exact scans_deep (.inl rfl) s
    · split
      · exact scans_emptyArr ‹_›
      · exact scans_arr ‹_› (ih.elems hlen)
  · rename_i s
    have hlen : 2 * (skipWs s).length + 2 ≤ n := by
      have := length_skipWs s
      rw [List.length_cons] at hn
      omega
    split
    · exact scans_deep (.inr rfl) s
    · split
      · exact scans_emptyObj ‹_›
      · exact scans_obj ‹_› (ih.members hlen)
  · rename_i hq ha ho
    exact scans_atom hq ha ho

/-! ## Elements and members -/

section

variable {n d : Nat} {s t : Str} {x : Json}

/-- Where a value was read, no other is there, and nothing in it stopped the scan. -/
theorem Scans.read {α : Type} {r : Parse α} {reads : α → Str → Prop} {meets : Nat → Str → Prop} {v : α} (h : Scans r reads meets)
    (hr : r = .ok (v, t)) : (∀ v' t', reads v' t' → v' = v ∧ t' = t) ∧ ∀ e d' t', meets d' t' → ¬ Stops e d' t' := by
  refine ⟨fun v' t' hv => ?_, fun e d' t' hm hs => ?_⟩
  · have := hr.symm.trans ((h.ok v' t').mpr hv)
    cases this
    exact ⟨rfl, rfl⟩
  · have he : e ≠ .decode := by
      rintro rfl
      exact hs
    cases hr.symm.trans ((h.error e he).mpr ⟨d', t', hm, hs⟩)

/-- Where none was read, there is none. -/
theorem Scans.unread {α : Type} {r : Parse α} {reads : α → Str → Prop} {meets : Nat → Str → Prop} {e : LoadError}
    (h : Scans r reads meets) (hr : r = .error e) : ∀ v t, ¬ reads v t := by
  intro v t hv
  cases hr.symm.trans ((h.ok v t).mpr hv)

theorem length_lt_of_skipWs {c : Char} {t u : Str} (h : skipWs t = c :: u) : (skipWs u).length < t.length := by
  have h1 := length_skipWs u
  have h2 := length_skipWs t
  rw [h, List.length_cons] at h2
  omega

theorem Scans.congr {α : Type} {r : Parse α} {reads reads' : α → Str → Prop} {meets meets' : Nat → Str → Prop} (h : Scans r reads meets)
    (hr : ∀ v t, reads v t ↔ reads' v t) (hm : ∀ d t, meets d t ↔ meets' d t) : Scans r reads' meets' where
  ok v t := (h.ok v t).trans (hr v t)
  error e he := (h.error e he).trans (exists_congr fun d => exists_congr fun t => and_congr_left' (hm d t))

section

variable {α : Type} {close : Char} {one : Json → α} {more : Json → α → α} {val : Json → Str → Prop} {rest : Str → α → Str → Prop}
  {meets : Nat → Str → Prop} {restMeets : Str → Nat → Str → Prop} {r : Parse Json} {u : Str}

/-- A value, and then the closing character or a comma and the rest, as elements and members
    are. -/
def Chain (close : Char) (one : Json → α) (more : Json → α → α) (val : Json → Str → Prop) (rest : Str → α → Str → Prop) (l : α) (w : Str) :
    Prop :=
  ∃ x t, val x t ∧ (skipWs t = close :: w ∧ l = one x ∨ ∃ u l', skipWs t = ',' :: u ∧ rest u l' w ∧ l = more x l')

/-- The scanner comes to a text in the value, or in the rest after a comma. -/
def ChainMeets (meets : Nat → Str → Prop) (val : Json → Str → Prop) (restMeets : Str → Nat → Str → Prop) (d : Nat) (y : Str) : Prop :=
  meets d y ∨ ∃ x t u, val x t ∧ skipWs t = ',' :: u ∧ restMeets u d y

theorem chain_unread {e₀ : LoadError} (h : Scans r val meets) (hr : r = .error e₀) :
    Scans (.error e₀ : Parse α) (Chain close one more val rest) (ChainMeets meets val restMeets) where
  ok l w := by
    refine iff_of_false (fun h => by cases h) ?_
    rintro ⟨x, t, hv, -⟩
    exact h.unread hr x t hv
  error e he := by
    have hsame : (.error e₀ : Parse α) = .error e ↔ r = .error e := by rw [hr, error_eq_error]
    rw [hsame, h.error e he]
    constructor
    · rintro ⟨d, y, hm, hs⟩
      exact ⟨d, y, .inl hm, hs⟩
    · rintro ⟨d, y, hm | ⟨x, t, u, hv, -⟩, hs⟩
      · exact ⟨d, y, hm, hs⟩
      · exact absurd hv (h.unread hr x t)

theorem chain_closed (one : Json → α) (h : Scans r val meets) (hr : r = .ok (x, t)) (hclose : skipWs t = close :: u) (hne : close ≠ ',') :
    Scans (.ok (one x, u)) (Chain close one more val rest) (ChainMeets meets val restMeets) where
  ok l w := by
    constructor
    · intro he
      cases he
      exact ⟨x, t, (h.ok x t).mp hr, .inl ⟨hclose, rfl⟩⟩
    · rintro ⟨x', t', hv, htail⟩
      obtain ⟨rfl, rfl⟩ := (h.read hr).1 _ _ hv
      rcases htail with ⟨hw, rfl⟩ | ⟨u', l', hw, -⟩
      · cases hclose.symm.trans hw
        rfl
      · exact absurd (List.cons.inj (hclose.symm.trans hw)).1 hne
  error e he := by
    refine iff_of_false (fun h => by cases h) ?_
    rintro ⟨d, y, hm | ⟨x', t', u', hv, hw, -⟩, hs⟩
    · exact (h.read hr).2 e d y hm hs
    · obtain ⟨rfl, rfl⟩ := (h.read hr).1 _ _ hv
      exact absurd (List.cons.inj (hclose.symm.trans hw)).1 hne

theorem chain_more {q : Parse α} (more : Json → α → α) (h : Scans r val meets) (hr : r = .ok (x, t)) (hcomma : skipWs t = ',' :: u) (hne : close ≠ ',')
    (hq : Scans q (rest u) (restMeets u)) :
    Scans (q.map fun r => (more x r.1, r.2)) (Chain close one more val rest) (ChainMeets meets val restMeets) where
  ok l w := by
    constructor
    · intro he
      obtain ⟨⟨l', w'⟩, hl, he⟩ := map_ok he
      cases he
      exact ⟨x, t, (h.ok x t).mp hr, .inr ⟨u, l', hcomma, (hq.ok l' w').mp hl, rfl⟩⟩
    · rintro ⟨x', t', hv, htail⟩
      obtain ⟨rfl, rfl⟩ := (h.read hr).1 _ _ hv
      rcases htail with ⟨hw, -⟩ | ⟨u', l', hw, hl, rfl⟩
      · exact absurd (List.cons.inj (hcomma.symm.trans hw)).1.symm hne
      · cases hcomma.symm.trans hw
        rw [(hq.ok l' w).mpr hl]
        rfl
  error e he := by
    rw [map_error, hq.error e he]
    constructor
    · rintro ⟨d, y, hm, hs⟩
      exact ⟨d, y, .inr ⟨x, t, u, (h.ok x t).mp hr, hcomma, hm⟩, hs⟩
    · rintro ⟨d, y, hm | ⟨x', t', u', hv, hw, hm⟩, hs⟩
      · exact absurd hs ((h.read hr).2 e d y hm)
      · obtain ⟨rfl, rfl⟩ := (h.read hr).1 _ _ hv
        cases hcomma.symm.trans hw
        exact ⟨d, y, hm, hs⟩

theorem chain_neither (h : Scans r val meets) (hr : r = .ok (x, t)) (hclose : ∀ u, skipWs t ≠ close :: u) (hcomma : ∀ u, skipWs t ≠ ',' :: u) :
    Scans (.error .decode : Parse α) (Chain close one more val rest) (ChainMeets meets val restMeets) := by
  refine scans_malformed ?_ ?_
  · rintro l w ⟨x', t', hv, htail⟩
    obtain ⟨rfl, rfl⟩ := (h.read hr).1 _ _ hv
    rcases htail with ⟨hw, -⟩ | ⟨u', l', hw, -⟩
    · exact hclose _ hw
    · exact hcomma _ hw
  · rintro e d y (hm | ⟨x', t', u', hv, hw, -⟩)
    · exact (h.read hr).2 e d y hm
    · obtain ⟨rfl, rfl⟩ := (h.read hr).1 _ _ hv
      exact absurd hw (hcomma _)

end

theorem elems_iff {l : List Json} {w : Str} :
    Chain ']' (fun x => [x]) (fun x l => x :: l) (Value d s) (fun u => Elems d (skipWs u)) l w ↔ Elems d s l w := by
  constructor
  · rintro ⟨x, t, hv, ⟨hw, rfl⟩ | ⟨u, l, hw, hl, rfl⟩⟩
    · exact .last hv hw
    · exact .more hv hw hl
  · intro h
    cases h with
    | last hv hw => exact ⟨_, _, hv, .inl ⟨hw, rfl⟩⟩
    | more hv hw hl => exact ⟨_, _, hv, .inr ⟨_, _, hw, hl, rfl⟩⟩

theorem meetsElem_iff {d' : Nat} {y : Str} :
    ChainMeets (Meets d s) (Value d s) (fun u => MeetsElem d (skipWs u)) d' y ↔ MeetsElem d s d' y := by
  constructor
  · rintro (hm | ⟨x, t, u, hv, hw, hm⟩)
    · exact .this hm
    · exact .later hv hw hm
  · intro h
    cases h with
    | this hm => exact .inl hm
    | later hv hw hm => exact .inr ⟨_, _, _, hv, hw, hm⟩

theorem scans_elems (ih : ScansAt n) (hn : 2 * s.length + 2 ≤ n + 1) :
    Scans (elems (n + 1) d s) (Elems d s) (MeetsElem d s) := by
  have hvalue := ih.value (d := d) (s := s) (by omega)
  suffices h : Scans (elems (n + 1) d s) (Chain ']' (fun x => [x]) (fun x l => x :: l) (Value d s) fun u => Elems d (skipWs u))
      (ChainMeets (Meets d s) (Value d s) fun u => MeetsElem d (skipWs u)) from h.congr (fun _ _ => elems_iff) fun _ _ => meetsElem_iff
  unfold elems
  split
  · exact chain_unread hvalue ‹_›
  · rename_i x t hread
    have hlen : t.length ≤ s.length := ((scan_rest n).value hread).length_le
    split
    · exact chain_closed (fun x => [x]) hvalue hread ‹_› (by decide)
    · rename_i u hcomma
      have hrest := ih.elems (d := d) (s := skipWs u) (by have := length_lt_of_skipWs hcomma; omega)
      exact chain_more (fun x l => x :: l) hvalue hread hcomma (by decide) hrest
    · exact chain_neither hvalue hread ‹_› ‹_›

/-- What `members` does after a key and its colon. -/
def afterColon (n d : Nat) (k : List CodePoint) (v : Str) : Parse (List (List CodePoint × Json)) :=
  match value n d (skipWs v) with
  | .error e => .error e
  | .ok (x, w) => match skipWs w with
    | '}' :: t => .ok ([(k, x)], t)
    | ',' :: t => (members n d (skipWs t)).map fun r => ((k, x) :: r.1, r.2)
    | _ => .error .decode

/-- A member's key and its colon are where they were read. -/
theorem members_iff {k : List CodePoint} {u v : Str} (hk : string s = .ok (k, u)) (hcolon : skipWs u = ':' :: v)
    {l : List (List CodePoint × Json)} {w : Str} :
    Chain '}' (fun x => [(k, x)]) (fun x l => (k, x) :: l) (Value d (skipWs v)) (fun u => Members d (skipWs u)) l w ↔
      Members d ('"' :: s) l w := by
  constructor
  · rintro ⟨x, t, hv, ⟨hw, rfl⟩ | ⟨u, l, hw, hl, rfl⟩⟩
    · exact .last hk hcolon hv hw
    · exact .more hk hcolon hv hw hl
  · intro h
    cases h with
    | last hk' hc hv hw =>
      cases hk.symm.trans hk'
      cases hcolon.symm.trans hc
      exact ⟨_, _, hv, .inl ⟨hw, rfl⟩⟩
    | more hk' hc hv hw hl =>
      cases hk.symm.trans hk'
      cases hcolon.symm.trans hc
      exact ⟨_, _, hv, .inr ⟨_, _, hw, hl, rfl⟩⟩

theorem meetsMember_iff {k : List CodePoint} {u v : Str} (hk : string s = .ok (k, u)) (hcolon : skipWs u = ':' :: v) {d' : Nat} {y : Str} :
    ChainMeets (Meets d (skipWs v)) (Value d (skipWs v)) (fun u => MeetsMember d (skipWs u)) d' y ↔ MeetsMember d ('"' :: s) d' y := by
  constructor
  · rintro (hm | ⟨x, t, u, hv, hw, hm⟩)
    · exact .this hk hcolon hm
    · exact .later hk hcolon hv hw hm
  · intro h
    cases h with
    | this hk' hc hm =>
      cases hk.symm.trans hk'
      cases hcolon.symm.trans hc
      exact .inl hm
    | later hk' hc hv hw hm =>
      cases hk.symm.trans hk'
      cases hcolon.symm.trans hc
      exact .inr ⟨_, _, _, hv, hw, hm⟩

theorem scans_member {k : List CodePoint} {u v : Str} (ih : ScansAt n) (hn : 2 * s.length + 2 ≤ n) (hk : string s = .ok (k, u))
    (hcolon : skipWs u = ':' :: v) :
    Scans (afterColon n d k v) (Members d ('"' :: s)) (MeetsMember d ('"' :: s)) := by
  have hlen : (skipWs v).length < s.length := Nat.lt_of_lt_of_le (length_lt_of_skipWs hcolon) (string_rest hk).length_le
  have hvalue := ih.value (d := d) (s := skipWs v) (by omega)
  suffices h : Scans (afterColon n d k v)
      (Chain '}' (fun x => [(k, x)]) (fun x l => (k, x) :: l) (Value d (skipWs v)) fun u => Members d (skipWs u))
      (ChainMeets (Meets d (skipWs v)) (Value d (skipWs v)) fun u => MeetsMember d (skipWs u)) from
    h.congr (fun _ _ => members_iff hk hcolon) fun _ _ => meetsMember_iff hk hcolon
  unfold afterColon
  split
  · exact chain_unread hvalue ‹_›
  · rename_i x t hread
    have hrest : t.length ≤ (skipWs v).length := ((scan_rest n).value hread).length_le
    split
    · exact chain_closed (fun x => [(k, x)]) hvalue hread ‹_› (by decide)
    · rename_i w hcomma
      have hmembers := ih.members (d := d) (s := skipWs w) (by have := length_lt_of_skipWs hcomma; omega)
      exact chain_more (fun x l => (k, x) :: l) hvalue hread hcomma (by decide) hmembers
    · exact chain_neither hvalue hread ‹_› ‹_›

theorem scans_members (ih : ScansAt n) (hn : 2 * s.length + 2 ≤ n + 1) :
    Scans (members (n + 1) d s) (Members d s) (MeetsMember d s) := by
  unfold members
  split
  · rename_i s
    rw [List.length_cons] at hn
    split
    · rename_i e hk
      obtain rfl := string_error hk
      refine scans_malformed (fun l t h => ?_) fun e d' t hm => ?_
      · cases h with
        | last hk' _ _ _ => cases hk.symm.trans hk'
        | more hk' _ _ _ _ => cases hk.symm.trans hk'
      · cases hm with
        | this hk' _ _ => cases hk.symm.trans hk'
        | later hk' _ _ _ _ => cases hk.symm.trans hk'
    · rename_i k u hk
      split
      · rename_i v hcolon
        exact scans_member ih (by omega) hk hcolon
      · rename_i hno
        refine scans_malformed (fun l t h => ?_) fun e d' t hm => ?_
        · cases h with
          | last hk' hc _ _ =>
            cases hk.symm.trans hk'
            exact hno _ hc
          | more hk' hc _ _ _ =>
            cases hk.symm.trans hk'
            exact hno _ hc
        · cases hm with
          | this hk' hc _ =>
            cases hk.symm.trans hk'
            exact absurd hc (hno _)
          | later hk' hc _ _ _ =>
            cases hk.symm.trans hk'
            exact absurd hc (hno _)
  · rename_i hquote
    refine scans_malformed (fun l t h => ?_) fun e d' t hm => ?_
    · cases h with
      | last _ _ _ _ => exact hquote _ rfl
      | more _ _ _ _ _ => exact hquote _ rfl
    · cases hm with
      | this _ _ _ => exact absurd rfl (hquote _)
      | later _ _ _ _ _ => exact absurd rfl (hquote _)

end

theorem scans (n : Nat) : ScansAt n := by
  induction n with
  | zero => exact ⟨fun h => (by omega), fun h => (by omega), fun h => (by omega)⟩
  | succ n ih => exact ⟨fun h => scans_value ih h, fun h => scans_elems ih h, fun h => scans_members ih h⟩

/-! ## Whole texts -/

/-- A text is a value, `limit` levels deep at most, between white space. -/
def Reads (limit : Nat) (s : Str) (v : Json) : Prop := ∃ t, Value limit (skipWs s) v t ∧ skipWs t = []

theorem loads_ok_iff {limit : Nat} {s : Str} {v : Json} : loads limit s = .ok v ↔ Reads limit s v := by
  have hscan := (scans (2 * s.length + 2)).value (d := limit) (s := skipWs s) (by have := length_skipWs s; omega)
  unfold loads
  split
  · rename_i e he
    exact iff_of_false (fun h => by cases h) fun ⟨t, hv, _⟩ => hscan.unread he _ _ hv
  · rename_i x t hx
    obtain ⟨hsame, -⟩ := hscan.read hx
    split
    · rename_i ht
      rw [List.isEmpty_iff] at ht
      constructor
      · intro h
        cases h
        exact ⟨t, (hscan.ok _ _).mp hx, ht⟩
      · rintro ⟨t', hv, -⟩
        rw [(hsame _ _ hv).1]
    · rename_i ht
      rw [List.isEmpty_iff] at ht
      refine iff_of_false (fun h => by cases h) fun ⟨t', hv, ht'⟩ => ?_
      obtain ⟨-, rfl⟩ := hsame _ _ hv
      exact ht ht'

/-- Reading the text, the scanner comes to what makes it raise this error. -/
def Stuck (e : LoadError) (limit : Nat) (s : Str) : Prop := ∃ d t, Meets limit (skipWs s) d t ∧ Stops e d t

/-- Where `loads` fails otherwise than on malformed text. -/
theorem loads_error_iff {limit : Nat} {s : Str} {e : LoadError} (he : e ≠ .decode) :
    loads limit s = .error e ↔ Stuck e limit s := by
  have hscan := (scans (2 * s.length + 2)).value (d := limit) (s := skipWs s) (by have := length_skipWs s; omega)
  rw [Stuck, ← hscan.error e he]
  unfold loads
  split
  · rename_i e' h'
    rw [h']
    exact error_eq_error
  · rename_i x t hx
    rw [hx]
    refine iff_of_false (fun h => ?_) fun h => by cases h
    split at h
    · cases h
    · cases h
      exact he rfl

/-- Reading the text, the scanner raises nothing but `JSONDecodeError`. -/
def Within (limit : Nat) (s : Str) : Prop := ¬ Stuck .digits limit s ∧ ¬ Stuck .recursion limit s

end CivicPulse.Text.Json
