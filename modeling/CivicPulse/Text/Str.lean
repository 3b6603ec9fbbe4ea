/-
  CivicPulse.Text.Str — the methods of Python's `str` the program uses.

  A `str` is the list of its characters (Unicode scalar values). `isSpace` is
  `str.isspace` of one character: what `strip` and `split` drop and what `\s` matches.

  - `strip_idem` / `length_strip_le`: stripping again changes nothing, and never
    lengthens.
  - `rdropWhile_append_cons` / `mem_rdropWhile_append`: what is stripped from the right of
    a concatenation.
  - `contains_collapse`: a word without white space occurs in a text exactly when it
    occurs in the text with its white space collapsed to single spaces.
  - `join_bar_eq`: when two pairs joined by a separator character give one text.
  - `natText_inj` / `digits_natText` / `intOfText_natText`: decimal numerals.
-/

import Mathlib.Data.List.Infix
import Mathlib.Data.List.DropRight

namespace CivicPulse.Text

abbrev Str := List Char

def isSpace (c : Char) : Bool :=
  let n := c.toNat
  (9 ≤ n && n ≤ 13) || (0x1C ≤ n && n ≤ 0x20) || n == 0x85 || n == 0xA0 || n == 0x1680 ||
    (0x2000 ≤ n && n ≤ 0x200A) || n == 0x2028 || n == 0x2029 || n == 0x202F || n == 0x205F || n == 0x3000

/-- Drop the characters `p` holds of at both ends. -/
def stripBy (p : Char → Bool) (s : Str) : Str := (s.dropWhile p).rdropWhile p

def strip (s : Str) : Str := stripBy isSpace s

def rstrip (s : Str) : Str := s.rdropWhile isSpace

/-- `s.split()`: the maximal runs of characters that are not white space. -/
def split (s : Str) : List Str := (s.splitOnP isSpace).filter (!·.isEmpty)

/-- `sep.join(ws)`. -/
def join (sep : Str) (ws : List Str) : Str := sep.intercalate ws

/-- `w in s`. -/
def contains (s w : Str) : Bool := decide (w <:+: s)

/-- `" ".join(s.split())`. -/
def collapse (s : Str) : Str := join [' '] (split s)

/-- The decimal numeral of a natural number, as `str(n)` writes it. -/
def natText (n : Nat) : Str := Nat.toDigits 10 n

def intText : Int → Str
  | .ofNat n => natText n
  | .negSucc n => '-' :: natText (n + 1)

/-- ASCII white space, which `int` of bytes ignores at both ends. -/
def isAsciiSpace (c : Char) : Bool := c == ' ' || (9 ≤ c.toNat && c.toNat ≤ 13)

/-- At most 4300 decimal digits, single underscores between them. -/
def natOfText (s : Str) : Option Nat :=
  let parts := s.splitOnP (· == '_')
  if parts.all (fun p => !p.isEmpty && p.all Char.isDigit) && decide (parts.flatten.length ≤ 4300) then
    some (Nat.ofDigitChars 10 parts.flatten 0)
  else none

/-- `int(s)`, for `s` in ASCII. -/
def intOfText (s : Str) : Option Int :=
  match stripBy isAsciiSpace s with
  | '-' :: ds => (natOfText ds).map fun n => -(n : Int)
  | '+' :: ds => (natOfText ds).map Int.ofNat
  | ds => (natOfText ds).map Int.ofNat

@[simp] theorem contains_iff (s w : Str) : contains s w = true ↔ w <:+: s := by simp [contains]

/-! ## Characters -/

theorem toLower_eq {c : Char} (h : c.toNat < 65 ∨ 90 < c.toNat) : c.toLower = c := by
  unfold Char.toLower
  refine dif_neg fun hc => ?_
  have h1 : 65 ≤ c.toNat := hc.1
  have h2 : c.toNat ≤ 90 := hc.2
  omega

theorem toLower_space {c : Char} (h : isSpace c = true) : c.toLower = c := by
  refine toLower_eq ?_
  simp only [isSpace, Bool.or_eq_true, Bool.and_eq_true, decide_eq_true_eq, beq_iff_eq] at h
  omega

/-! ## Stripping -/

section Strip

variable {p : Char → Bool}

theorem stripBy_isInfix (s : Str) : stripBy p s <:+: s :=
  (List.rdropWhile_prefix p _).isInfix.trans (List.dropWhile_suffix p).isInfix

theorem stripBy_idem (s : Str) : stripBy p (stripBy p s) = stripBy p s := by
  have hhead : (stripBy p s).dropWhile p = stripBy p s := by
    unfold stripBy
    rcases h : s.dropWhile p with _ | ⟨c, t⟩
    · simp
    · have hc : p c = false := by
        have := List.head_dropWhile_not p (l := s) (by simp [h])
        simpa [h] using this
      rcases h' : (c :: t).rdropWhile p with _ | ⟨d, u⟩
      · rfl
      · obtain ⟨v, hv⟩ : (d :: u) <+: c :: t := h' ▸ List.rdropWhile_prefix p _
        simp only [List.cons_append, List.cons.injEq] at hv
        simp [hv.1, hc]
  calc stripBy p (stripBy p s) = (stripBy p s).rdropWhile p := by rw [stripBy, hhead]
    _ = stripBy p s := List.rdropWhile_idempotent p _

theorem length_stripBy_le (s : Str) : (stripBy p s).length ≤ s.length := (stripBy_isInfix s).length_le

theorem mem_of_mem_stripBy {s : Str} {c : Char} (h : c ∈ stripBy p s) : c ∈ s := (stripBy_isInfix s).subset h

theorem stripBy_cons {d : Char} (hd : p d = false) (s : Str) : stripBy p (d :: s) = (d :: s).rdropWhile p := by
  rw [stripBy, List.dropWhile_cons_of_neg (by simp [hd])]

theorem rdropWhile_stripBy (s : Str) : (stripBy p s).rdropWhile p = stripBy p s := List.rdropWhile_idempotent p _

/-- Nothing before a character that stays is dropped from the right. -/
theorem rdropWhile_append_cons {d : Char} (hd : p d = false) (a s : Str) :
    (a ++ d :: s).rdropWhile p = a ++ d :: s.rdropWhile p := by
  induction s using List.reverseRecOn with
  | nil =>
    rw [List.rdropWhile_concat_neg _ _ _ (by simp [hd])]
    rfl
  | append_singleton s c ih =>
    have hsplit : a ++ d :: (s ++ [c]) = a ++ d :: s ++ [c] := by simp
    by_cases hc : p c = true
    · rw [hsplit, List.rdropWhile_concat_pos _ _ _ hc, List.rdropWhile_concat_pos _ _ _ hc, ih]
    · rw [hsplit, List.rdropWhile_concat_neg _ _ _ hc, List.rdropWhile_concat_neg _ _ _ hc]
      simp

theorem rdropWhile_append_of_all {s : Str} (h : ∀ c ∈ s, p c = true) (a : Str) :
    (a ++ s).rdropWhile p = a.rdropWhile p := by
  induction s using List.reverseRecOn with
  | nil => rw [List.append_nil]
  | append_singleton s c ih =>
    rw [← List.append_assoc, List.rdropWhile_concat_pos _ _ _ (h c (by simp))]
    exact ih fun d hd => h d (by simp [hd])

/-- Whether a character that `a` lacks is left at the right of `a` does not depend on `a`. -/
theorem mem_rdropWhile_append {a s : Str} {c : Char} (hc : c ∉ a) :
    c ∈ (a ++ s).rdropWhile p ↔ c ∈ s.rdropWhile p := by
  by_cases h : ∀ d ∈ s, p d = true
  · have hs : s.rdropWhile p = [] := List.rdropWhile_eq_nil_iff.mpr h
    have ha : c ∉ a.rdropWhile p := fun hm => hc ((List.rdropWhile_prefix p a).subset hm)
    simp [rdropWhile_append_of_all h, hs, ha]
  · obtain ⟨d, hd, hpd⟩ : ∃ d ∈ s, p d = false := by simpa using h
    obtain ⟨y, z, rfl⟩ := List.append_of_mem hd
    rw [← List.append_assoc, rdropWhile_append_cons hpd, rdropWhile_append_cons hpd]
    simp [hc]

theorem stripBy_split (s : Str) :
    ∃ a b, (∀ c ∈ a, p c = true) ∧ (∀ c ∈ b, p c = true) ∧ s = a ++ (stripBy p s ++ b) := by
  refine ⟨s.takeWhile p, (s.dropWhile p).rtakeWhile p, fun c hc => List.mem_takeWhile_imp hc,
    fun c hc => List.mem_rtakeWhile_imp hc, ?_⟩
  rw [stripBy, List.rdropWhile_append_rtakeWhile, List.takeWhile_append_dropWhile]

theorem stripBy_append {a b : Str} (ha : ∀ c ∈ a, p c = true) (hb : ∀ c ∈ b, p c = true) (s : Str) :
    stripBy p (a ++ (s ++ b)) = stripBy p s := by
  have hb' : b.dropWhile p = [] := List.dropWhile_eq_nil_iff.mpr hb
  rw [stripBy, stripBy, List.dropWhile_append_of_pos ha, List.dropWhile_append]
  split
  · rename_i h
    rw [hb', List.isEmpty_iff.mp h]
  · rw [rdropWhile_append_of_all hb]

/-- A text that nothing is stripped from has a first and a last character that stay. -/
theorem stripBy_eq_self_iff {s : Str} :
    stripBy p s = s ↔ (∀ c, s.head? = some c → p c = false) ∧ ∀ c, s.getLast? = some c → p c = false := by
  rcases s with _ | ⟨d, s⟩
  · simp [stripBy]
  have hlast : ∀ c, (d :: s).getLast? = some c ↔ (d :: s).getLast (by simp) = c := by
    intro c
    rw [List.getLast?_eq_getLast_of_ne_nil (by simp), Option.some.injEq]
  constructor
  · intro h
    have hd : p d = false := by
      rw [Bool.eq_false_iff]
      intro hd
      have hlen := congrArg List.length h
      rw [stripBy, List.dropWhile_cons_of_pos hd] at hlen
      have := (List.rdropWhile_prefix p (s.dropWhile p)).length_le.trans (List.dropWhile_suffix p).length_le
      rw [hlen, List.length_cons] at this
      omega
    rw [stripBy_cons hd, List.rdropWhile_eq_self_iff] at h
    refine ⟨fun c hc => ?_, fun c hc => ?_⟩
    · obtain rfl : d = c := by simpa using hc
      exact hd
    · rw [← (hlast c).mp hc]
      simpa using h (by simp)
  · intro h
    rw [stripBy_cons (h.1 d rfl), List.rdropWhile_eq_self_iff]
    intro _
    simpa using h.2 _ ((hlast _).mpr rfl)

theorem stripBy_plain {s : Str} (h : ∀ c ∈ s, p c = false) : stripBy p s = s :=
  stripBy_eq_self_iff.mpr ⟨fun c hc => h c (List.mem_of_head? hc), fun c hc => h c (List.mem_of_getLast? hc)⟩

theorem stripBy_self {c d : Char} (hc : p c = false) (hd : p d = false) (m : Str) :
    stripBy p (c :: (m ++ [d])) = c :: (m ++ [d]) := by
  refine stripBy_eq_self_iff.mpr ⟨fun x hx => ?_, fun x hx => ?_⟩
  · cases hx
    exact hc
  · rw [← List.cons_append, List.getLast?_concat] at hx
    cases hx
    exact hd

end Strip

theorem strip_idem (s : Str) : strip (strip s) = strip s := stripBy_idem s

theorem length_strip_le (s : Str) : (strip s).length ≤ s.length := length_stripBy_le s

theorem length_rstrip_le (s : Str) : (rstrip s).length ≤ s.length := (List.rdropWhile_prefix isSpace _).length_le

/-! ## Words and white space -/

/-- A word with no separator is a prefix of a text exactly when it is one of the
    text's first field. -/
theorem isPrefix_takeWhile {p : Char → Bool} {w : Str} (hw : ∀ c ∈ w, p c = false) (s : Str) :
    w <+: s ↔ w <+: s.takeWhile (!p ·) := by
  induction s generalizing w with
  | nil => rfl
  | cons a s ih =>
    rcases w with _ | ⟨b, w⟩
    · simp
    · by_cases ha : p a = true
      · have hb : p b = false := hw b (by simp)
        have hne : b ≠ a := fun e => by rw [e, ha] at hb; cases hb
        simp [ha, List.cons_prefix_cons, hne]
      · have ih' := ih (w := w) (fun c hc => hw c (by simp [hc]))
        simp only [List.takeWhile_cons, ha, Bool.not_false, if_true, List.cons_prefix_cons, ih']

theorem head_splitOnP (p : Char → Bool) (s : Str) : ∃ t, s.splitOnP p = s.takeWhile (!p ·) :: t := by
  induction s with
  | nil => exact ⟨[], rfl⟩
  | cons a s ih =>
    obtain ⟨t, ht⟩ := ih
    rw [List.splitOnP_cons_eq_if_modifyHead]
    by_cases ha : p a = true
    · exact ⟨s.splitOnP p, by simp [ha]⟩
    · exact ⟨t, by simp [ha, ht]⟩

/-- A nonempty word with no separator occurs in a text exactly when it occurs in one
    of its fields. -/
theorem infix_splitOnP {p : Char → Bool} {w : Str} (hne : w ≠ []) (hw : ∀ c ∈ w, p c = false) (s : Str) :
    w <:+: s ↔ ∃ x ∈ s.splitOnP p, w <:+: x := by
  induction s with
  | nil => simp
  | cons a s ih =>
    rw [List.infix_cons_iff, ih, List.splitOnP_cons_eq_if_modifyHead, isPrefix_takeWhile hw]
    obtain ⟨t, ht⟩ := head_splitOnP p s
    by_cases ha : p a = true
    · simp [ha, hne]
    · simp [ha, ht, List.infix_cons_iff, or_assoc]

theorem infix_split {w : Str} (hne : w ≠ []) (hw : ∀ c ∈ w, isSpace c = false) (s : Str) :
    w <:+: s ↔ ∃ x ∈ split s, w <:+: x := by
  rw [infix_splitOnP hne hw]
  simp only [split, List.mem_filter]
  constructor
  · rintro ⟨x, hx, h⟩
    refine ⟨x, ⟨hx, ?_⟩, h⟩
    rcases x with _ | _
    · exact absurd (List.infix_nil.mp h) hne
    · rfl
  · rintro ⟨x, ⟨hx, _⟩, h⟩
    exact ⟨x, hx, h⟩

theorem mem_split {s x : Str} (h : x ∈ split s) : ∀ c ∈ x, isSpace c = false := by
  have key : ∀ (t : Str), ∀ x ∈ t.splitOnP isSpace, ∀ c ∈ x, isSpace c = false := by
    intro t
    induction t with
    | nil => simp
    | cons a t ih =>
      obtain ⟨u, hu⟩ := head_splitOnP isSpace t
      rw [List.splitOnP_cons_eq_if_modifyHead]
      by_cases ha : isSpace a = true
      · simpa [ha] using ih
      · intro x hx c hc
        simp only [ha, Bool.false_eq_true, if_false, hu, List.modifyHead_cons, List.mem_cons] at hx
        rw [hu] at ih
        rcases hx with rfl | hx
        · rcases List.mem_cons.mp hc with rfl | hc
          · simpa using ha
          · exact ih _ (List.mem_cons_self) c hc
        · exact ih x (List.mem_cons_of_mem _ hx) c hc
  exact key s x (List.mem_filter.mp h).1

/-- A word with no white space survives collapsing, and none appears by it. -/
theorem contains_collapse {w : Str} (hne : w ≠ []) (hw : ∀ c ∈ w, isSpace c = false) (s : Str) :
    contains (collapse s) w = contains s w := by
  rw [Bool.eq_iff_iff, contains_iff, contains_iff, infix_split hne hw s]
  by_cases hs : split s = []
  · simp [collapse, join, hs, hne]
  · have hsp : ∀ l ∈ split s, ' ' ∉ l := fun l hl hm => by
      have := mem_split hl ' ' hm
      exact absurd this (by decide)
    have hw' : ∀ c ∈ w, (c == ' ') = false := fun c hc => by
      have := hw c hc
      rcases e : c == ' ' with _ | _
      · rfl
      · rw [beq_iff_eq.mp e] at this; exact absurd this (by decide)
    rw [infix_splitOnP hne hw', ← List.splitOn_eq_splitOnP]
    simp only [collapse, join, List.splitOn_intercalate ' ' hsp hs]

/-! ## Joining two fields with a separator -/

/-- `a ++ c :: b = a' ++ c :: b'` leaves the two pairs equal, or moves a block ending
    in the separator from one side to the other. -/
theorem join_bar_eq (c : Char) (a b a' b' : Str) :
    a ++ c :: b = a' ++ c :: b' ↔
      (a = a' ∧ b = b') ∨ (∃ m, a' = a ++ c :: m ∧ b = m ++ c :: b') ∨ ∃ m, a = a' ++ c :: m ∧ b' = m ++ c :: b := by
  constructor
  · intro h
    rcases List.append_eq_append_iff.mp h with ⟨d, hd, he⟩ | ⟨d, hd, he⟩
    · rcases d with _ | ⟨x, m⟩
      · left; simp at hd he; exact ⟨hd.symm, he⟩
      · simp only [List.cons_append, List.cons.injEq] at he
        obtain ⟨rfl, he⟩ := he
        exact .inr (.inl ⟨m, hd, he⟩)
    · rcases d with _ | ⟨x, m⟩
      · left; simp at hd he; exact ⟨hd, he.symm⟩
      · simp only [List.cons_append, List.cons.injEq] at he
        obtain ⟨rfl, he⟩ := he
        exact .inr (.inr ⟨m, hd, he⟩)
  · rintro (⟨rfl, rfl⟩ | ⟨m, rfl, rfl⟩ | ⟨m, rfl, rfl⟩) <;> simp

/-! ## Numerals -/

theorem natText_inj {m n : Nat} (h : natText m = natText n) : m = n := by
  have := congrArg (Nat.ofDigitChars 10 · 0) h
  simpa [natText, Nat.ofDigitChars_ten_toDigits] using this

theorem digits_natText {n : Nat} : ∀ c ∈ natText n, c.isDigit = true :=
  fun _ hc => Nat.isDigit_of_mem_toDigits (by decide) (by decide) hc

theorem natText_ne_nil (n : Nat) : natText n ≠ [] := Nat.toDigits_ne_nil

theorem intText_inj {m n : Int} (h : intText m = intText n) : m = n := by
  have hdash : ∀ k, '-' ∉ natText k := fun k hk => absurd (digits_natText _ hk) (by decide)
  cases m with
  | ofNat a =>
    cases n with
    | ofNat b => exact congrArg Int.ofNat (natText_inj h)
    | negSucc b => exact absurd ((show natText a = '-' :: _ from h) ▸ List.mem_cons_self) (hdash a)
  | negSucc a =>
    cases n with
    | ofNat b => exact absurd ((show natText b = '-' :: _ from h.symm) ▸ List.mem_cons_self) (hdash b)
    | negSucc b =>
      have := natText_inj (List.cons.inj h).2
      simp only [Nat.add_right_cancel_iff] at this
      rw [this]

theorem mem_intText {n : Int} {c : Char} (h : c ∈ intText n) : c.isDigit = true ∨ c = '-' := by
  cases n with
  | ofNat a => exact .inl (digits_natText c h)
  | negSucc a => rcases List.mem_cons.mp h with rfl | h
                 · exact .inr rfl
                 · exact .inl (digits_natText c h)

/-- A numeral reads back, if it is not over the limit. -/
theorem natOfText_natText {n : Nat} (h : (natText n).length ≤ 4300) : natOfText (natText n) = some n := by
  have hsplit : (natText n).splitOnP (· == '_') = [natText n] := by
    refine List.splitOnP_eq_singleton fun c hc => ?_
    have := digits_natText c hc
    rcases e : c == '_' with _ | _
    · rfl
    · rw [beq_iff_eq.mp e] at this
      exact absurd this (by decide)
  have hall : ([natText n] : List Str).all (fun p => !p.isEmpty && p.all Char.isDigit) = true := by
    simp [natText_ne_nil n, List.all_eq_true.mpr digits_natText]
  simp only [natOfText, hsplit, hall, List.flatten_cons, List.flatten_nil, List.append_nil, h, decide_true, Bool.and_self,
    if_true]
  exact congrArg some Nat.ofDigitChars_ten_toDigits

theorem intOfText_natText {n : Nat} (h : (natText n).length ≤ 4300) : intOfText (natText n) = some (n : Int) := by
  have hspace : ∀ c : Char, c.isDigit = true → isAsciiSpace c = false := by
    intro c hc
    simp only [Char.isDigit, Bool.and_eq_true, decide_eq_true_eq, ge_iff_le, UInt32.le_iff_toNat_le] at hc
    have h1 : 48 ≤ c.toNat := hc.1
    have hne : c ≠ ' ' := by
      intro e
      rw [e] at h1
      exact absurd h1 (by decide)
    simp only [isAsciiSpace, Bool.or_eq_false_iff, beq_eq_false_iff_ne, ne_eq, Bool.and_eq_false_iff, decide_eq_false_iff_not]
    exact ⟨hne, .inr (by omega)⟩
  have hdigits := digits_natText (n := n)
  have hread := natOfText_natText h
  obtain ⟨c, ds, hcs⟩ := List.exists_cons_of_ne_nil (natText_ne_nil n)
  rw [hcs] at hdigits hread ⊢
  have hstrip : stripBy isAsciiSpace (c :: ds) = c :: ds := stripBy_plain fun d hd => hspace d (hdigits d hd)
  have hc : c.isDigit = true := hdigits c List.mem_cons_self
  have hm : c ≠ '-' := by
    intro e
    rw [e] at hc
    exact absurd hc (by decide)
  have hp : c ≠ '+' := by
    intro e
    rw [e] at hc
    exact absurd hc (by decide)
  rw [intOfText, hstrip]
  split
  · rename_i heq
    exact absurd (List.cons.inj heq).1 hm
  · rename_i heq
    exact absurd (List.cons.inj heq).1 hp
  · rw [hread]
    rfl

end CivicPulse.Text
