/-
  CivicPulse.Text.Regex — the part of Python's `re` the program's patterns need.

  A backtracking matcher: `ends r p` lists the positions a match of `r` starting at `p`
  can end at, in the order the search tries them, so the match is the first. A position
  is the character before it and the text after it (`\b` and `^` look back by one).

  `tokens` scans a text from the left as `re.sub` and `re.finditer` do: at each position
  the match, if there is a nonempty one, else one character that belongs to no match.
  `sub` rewrites the matches; `finditer` lists them with where they start.
  - `mem_seq` … `mem_many`: what a position in `ends` says, pattern by pattern.
  - `matchAt_seq` … `matchAt_lit`: the match itself, the first of them.
  - `tokens_cons`: the scan's equation.
  - `tokens_text`: the tokens of a text, put together again, are the text.
  - `sub_inside`: rewriting characters in the matches changes none outside them.
-/

import Mathlib.Data.List.Forall2
import CivicPulse.Text.Str

namespace CivicPulse.Text

inductive Re where
  /-- One character of a class. -/
  | set (p : Char → Bool)
  /-- A literal, each of its characters compared by `eq`. -/
  | lit (eq : Char → Char → Bool) (w : Str)
  /-- `[p]*`, the longest run first. -/
  | many (p : Char → Bool)
  /-- `r?`, greedy. -/
  | opt (r : Re)
  | alt (r s : Re)
  | seq (r s : Re)
  /-- `\b` for the word characters `w`. -/
  | wordB (w : Char → Bool)
  /-- `^` and `$` (which also matches before a final line feed). -/
  | bos
  | eos

namespace Re

abbrev Pos := Option Char × Str

def endsLit (eq : Char → Char → Bool) : Str → Pos → List Pos
  | [], p => [p]
  | a :: w, (_, c :: s) => if eq a c then endsLit eq w (some c, s) else []
  | _ :: _, (_, []) => []

def endsMany (p : Char → Bool) (prev : Option Char) : Str → List Pos
  | [] => [(prev, [])]
  | c :: s => if p c then endsMany p (some c) s ++ [(prev, c :: s)] else [(prev, c :: s)]

def ends : Re → Pos → List Pos
  | set p, (_, c :: s) => if p c then [(some c, s)] else []
  | set _, (_, []) => []
  | lit eq w, q => endsLit eq w q
  | many p, (prev, s) => endsMany p prev s
  | opt r, q => ends r q ++ [q]
  | alt r s, q => ends r q ++ ends s q
  | seq r s, q => (ends r q).flatMap (ends s)
  | wordB w, q => if q.1.any w != q.2.head?.any w then [q] else []
  | bos, q => if q.1.isNone then [q] else []
  | eos, q => if q.2.isEmpty || q.2 == ['\n'] then [q] else []

/-- Where the match starting here ends, if there is one. -/
def matchAt (r : Re) (q : Pos) : Option Pos := (r.ends q).head?

/-- Letters of a pattern under `re.IGNORECASE`: both cases, and the four other characters
    Python pairs with an ASCII letter. -/
def eqIgnoreCase (a c : Char) : Bool :=
  c.toLower == a || (a == 'i' && (c == 'İ' || c == 'ı')) || (a == 's' && c == 'ſ') || (a == 'k' && c == '\u212A')

/-! ## Scanning -/

/-- The scan, with fuel for the characters left. -/
def scan (r : Re) : Nat → Pos → List (Char ⊕ Str)
  | 0, _ => []
  | _ + 1, (_, []) => []
  | n + 1, (prev, c :: s) => match r.matchAt (prev, c :: s) with
    | some q => if q.2.length ≤ s.length then
        .inr ((c :: s).take (s.length + 1 - q.2.length)) :: scan r n q
      else .inl c :: scan r n (some c, s)
    | none => .inl c :: scan r n (some c, s)

def tokensFrom (r : Re) (q : Pos) : List (Char ⊕ Str) := scan r q.2.length q

def tokens (r : Re) (s : Str) : List (Char ⊕ Str) := tokensFrom r (none, s)

/-- `r.sub(f, s)`. -/
def sub (r : Re) (f : Str → Str) (s : Str) : Str := (tokens r s).flatMap (Sum.elim (fun c => [c]) f)

/-- The matches in a scan that starts at offset `n`. -/
def spans : Nat → List (Char ⊕ Str) → List (Nat × Str)
  | _, [] => []
  | n, .inl _ :: l => spans (n + 1) l
  | n, .inr m :: l => (n, m) :: spans (n + m.length) l

/-- `r.finditer(s)`: each match with where it starts. -/
def finditer (r : Re) (s : Str) : List (Nat × Str) := spans 0 (tokens r s)

/-! ## What a match is -/

section Mem

variable {r s : Re} {p : Char → Bool} {prev : Option Char} {t : Str} {q q' : Pos}

theorem mem_set : q' ∈ (set p).ends (prev, t) ↔ ∃ c u, t = c :: u ∧ p c = true ∧ q' = (some c, u) := by
  rcases t with _ | ⟨c, u⟩
  · simp [ends]
  · simp only [ends]
    split <;> simp_all

@[simp] theorem mem_opt : q' ∈ (opt r).ends q ↔ q' ∈ r.ends q ∨ q' = q := by simp [ends]
@[simp] theorem mem_alt : q' ∈ (alt r s).ends q ↔ q' ∈ r.ends q ∨ q' ∈ s.ends q := by simp [ends]
@[simp] theorem mem_seq : q' ∈ (seq r s).ends q ↔ ∃ m ∈ r.ends q, q' ∈ s.ends m := by simp [ends]

theorem mem_wordB {w : Char → Bool} : q' ∈ (wordB w).ends q ↔ q' = q ∧ q.1.any w ≠ q.2.head?.any w := by
  simp only [ends]
  split <;> simp_all

theorem mem_bos : q' ∈ bos.ends q ↔ q' = q ∧ q.1 = none := by
  simp only [ends]
  split <;> simp_all

theorem mem_eos : q' ∈ eos.ends q ↔ q' = q ∧ (q.2 = [] ∨ q.2 = ['\n']) := by
  simp only [ends]
  split <;> simp_all

/-- The last character of `w`, or `prev` when there is none. -/
def lastOr (prev : Option Char) (w : Str) : Option Char := (w.getLast?).or prev

@[simp] theorem lastOr_cons (c : Char) (w : Str) : lastOr prev (c :: w) = lastOr (some c) w := by
  rcases w with _ | ⟨d, w⟩
  · rfl
  · simp [lastOr, List.getLast?_cons]

@[simp] theorem lastOr_nil : lastOr prev [] = prev := rfl

theorem lastOr_some (c : Char) (w : Str) : ∃ d, lastOr (some c) w = some d := by
  induction w generalizing c with
  | nil => exact ⟨c, rfl⟩
  | cons d w ih =>
    rw [lastOr_cons]
    exact ih d

theorem mem_lit {eq : Char → Char → Bool} {w : Str} :
    q' ∈ (lit eq w).ends (prev, t) ↔
      ∃ v u, t = v ++ u ∧ List.Forall₂ (fun a c => eq a c = true) w v ∧ q' = (lastOr prev v, u) := by
  show q' ∈ endsLit eq w (prev, t) ↔ _
  induction w generalizing prev t with
  | nil =>
    simp only [endsLit, List.mem_singleton]
    constructor
    · rintro rfl; exact ⟨[], t, rfl, .nil, rfl⟩
    · rintro ⟨v, u, rfl, hv, rfl⟩; cases hv; rfl
  | cons a w ih =>
    rcases t with _ | ⟨c, t⟩
    · simp only [endsLit, List.not_mem_nil, false_iff]
      rintro ⟨v, u, he, hv, -⟩
      cases hv; cases he
    · simp only [endsLit]
      by_cases h : eq a c = true
      · rw [if_pos h, ih]
        constructor
        · rintro ⟨v, u, rfl, hv, rfl⟩
          exact ⟨c :: v, u, rfl, .cons h hv, by simp⟩
        · rintro ⟨v, u, he, hv, rfl⟩
          cases hv with
          | cons _ hv =>
            simp only [List.cons_append, List.cons.injEq] at he
            obtain ⟨rfl, rfl⟩ := he
            exact ⟨_, u, rfl, hv, by simp⟩
      · rw [if_neg h]
        constructor
        · intro h'; cases h'
        · rintro ⟨v, u, he, hv, -⟩
          cases hv with
          | cons h' _ =>
            simp only [List.cons_append, List.cons.injEq] at he
            exact absurd (he.1 ▸ h') h

/-- A literal compared exactly. -/
theorem mem_word {w : Str} : q' ∈ (lit (· == ·) w).ends (prev, t) ↔ ∃ u, t = w ++ u ∧ q' = (lastOr prev w, u) := by
  have heq : (fun a c : Char => (a == c) = true) = Eq := by
    funext a c
    rw [beq_iff_eq]
  rw [mem_lit, heq, List.forall₂_eq_eq_eq]
  constructor
  · rintro ⟨v, u, rfl, rfl, rfl⟩
    exact ⟨u, rfl, rfl⟩
  · rintro ⟨u, rfl, rfl⟩
    exact ⟨w, u, rfl, rfl, rfl⟩

theorem mem_many : q' ∈ (many p).ends (prev, t) ↔
    ∃ v u, t = v ++ u ∧ (∀ c ∈ v, p c = true) ∧ q' = (lastOr prev v, u) := by
  show q' ∈ endsMany p prev t ↔ _
  induction t generalizing prev with
  | nil =>
    simp only [endsMany, List.mem_singleton]
    constructor
    · rintro rfl; exact ⟨[], [], rfl, by simp, rfl⟩
    · rintro ⟨v, u, he, -, rfl⟩
      obtain ⟨rfl, rfl⟩ := List.append_eq_nil_iff.mp he.symm
      rfl
  | cons c t ih =>
    simp only [endsMany]
    constructor
    · intro h
      by_cases hc : p c = true
      · rw [if_pos hc, List.mem_append, List.mem_singleton, ih] at h
        rcases h with ⟨v, u, rfl, hv, rfl⟩ | rfl
        · exact ⟨c :: v, u, rfl, by simpa [hc] using hv, by simp⟩
        · exact ⟨[], c :: t, rfl, by simp, rfl⟩
      · rw [if_neg hc, List.mem_singleton] at h
        subst h; exact ⟨[], c :: t, rfl, by simp, rfl⟩
    · rintro ⟨v, u, he, hv, rfl⟩
      rcases v with _ | ⟨d, v⟩
      · simp only [List.nil_append] at he
        subst he
        split <;> simp
      · simp only [List.cons_append, List.cons.injEq] at he
        obtain ⟨rfl, rfl⟩ := he
        rw [if_pos (hv c (by simp)), List.mem_append, ih]
        exact .inl ⟨v, u, rfl, fun d hd => hv d (by simp [hd]), by simp⟩

end Mem

/-! ## The first match -/

section First

variable {r s : Re} {p : Char → Bool} {prev : Option Char} {u v : Str} {q m q' : Pos}

theorem matchAt_seq (hr : r.matchAt q = some m) (hs : s.matchAt m = some q') : (seq r s).matchAt q = some q' := by
  obtain ⟨l, hl⟩ := List.head?_eq_some_iff.mp hr
  obtain ⟨l', hl'⟩ := List.head?_eq_some_iff.mp hs
  show ((r.ends q).flatMap s.ends).head? = some q'
  rw [hl, List.flatMap_cons, hl']
  rfl

theorem matchAt_alt : (alt r s).matchAt q = (r.matchAt q).or (s.matchAt q) := List.head?_append

theorem matchAt_opt : (opt r).matchAt q = some ((r.matchAt q).getD q) := by
  show (r.ends q ++ [q]).head? = some (((r.ends q).head?).getD q)
  cases r.ends q <;> rfl

theorem matchAt_set {c : Char} (hc : p c = true) : (set p).matchAt (prev, c :: u) = some (some c, u) := by
  rw [matchAt, ends, if_pos hc]
  rfl

/-- The longest run is tried first. -/
theorem matchAt_many (hv : ∀ c ∈ v, p c = true) (hu : ∀ c ∈ u.head?, p c = false) :
    (many p).matchAt (prev, v ++ u) = some (lastOr prev v, u) := by
  show (endsMany p prev (v ++ u)).head? = _
  induction v generalizing prev with
  | nil =>
    rcases u with _ | ⟨c, u⟩
    · rfl
    · simp [endsMany, hu c rfl]
  | cons c v ih =>
    rw [List.cons_append, endsMany, if_pos (hv c List.mem_cons_self), List.head?_append,
      ih fun d hd => hv d (List.mem_cons_of_mem _ hd), lastOr_cons]
    rfl

theorem matchAt_run (s : Str) : (many p).matchAt (prev, s) = some (lastOr prev (s.takeWhile p), s.dropWhile p) := by
  have hstop : ∀ c ∈ (s.dropWhile p).head?, p c = false := by
    intro c hc
    have hnot := List.head?_dropWhile_not p s
    rw [Option.mem_def.mp hc] at hnot
    exact hnot
  have hrun : ∀ c ∈ s.takeWhile p, p c = true := fun c hc => List.mem_takeWhile_imp hc
  have hmany : (many p).matchAt (prev, s.takeWhile p ++ s.dropWhile p) = _ := matchAt_many hrun hstop
  rwa [List.takeWhile_append_dropWhile] at hmany

theorem matchAt_lit {eq : Char → Char → Bool} {w : Str} (h : List.Forall₂ (fun a c => eq a c = true) w v) :
    (lit eq w).matchAt (prev, v ++ u) = some (lastOr prev v, u) := by
  show (endsLit eq w (prev, v ++ u)).head? = _
  induction h generalizing prev with
  | nil => rfl
  | cons hac _ ih => rw [List.cons_append, endsLit, if_pos hac, ih, lastOr_cons]

theorem matchAt_word (w : Str) : (lit (· == ·) w).matchAt (prev, w ++ u) = some (lastOr prev w, u) :=
  matchAt_lit (List.forall₂_same.mpr fun _ _ => beq_self_eq_true _)

theorem matchAt_eq_none : r.matchAt q = none ↔ ∀ m, m ∉ r.ends q :=
  List.head?_eq_none_iff.trans List.eq_nil_iff_forall_not_mem

end First

/-! ## What the scan does -/

theorem scan_fuel (r : Re) : ∀ (n : Nat) (q : Pos), q.2.length ≤ n → scan r n q = tokensFrom r q := by
  -- both sides run with enough fuel; induct on the larger one
  suffices ∀ (n m : Nat) (q : Pos), q.2.length ≤ n → q.2.length ≤ m → scan r n q = scan r m q from
    fun n q h => this n _ q h (Nat.le_refl _)
  intro n
  induction n with
  | zero =>
    rintro m ⟨prev, s⟩ hn _
    obtain rfl : s = [] := List.length_eq_zero_iff.mp (by simpa using hn)
    cases m <;> rfl
  | succ n ih =>
    rintro m ⟨prev, s⟩ hn hm
    rcases s with _ | ⟨c, s⟩
    · cases m <;> rfl
    · obtain ⟨m, rfl⟩ : ∃ k, m = k + 1 := ⟨m - 1, by simp at hm; omega⟩
      simp only [List.length_cons, Nat.add_le_add_iff_right] at hn hm
      simp only [scan]
      split
      · split
        · rename_i q _ h
          rw [ih m q (by omega) (by omega)]
        · rw [ih m (some c, s) hn hm]
      · rw [ih m (some c, s) hn hm]

@[simp] theorem tokensFrom_nil (r : Re) (prev : Option Char) : tokensFrom r (prev, []) = [] := rfl

theorem tokens_cons (r : Re) (prev : Option Char) (c : Char) (s : Str) :
    tokensFrom r (prev, c :: s) = match r.matchAt (prev, c :: s) with
      | some q => if q.2.length ≤ s.length then
          .inr ((c :: s).take (s.length + 1 - q.2.length)) :: tokensFrom r q
        else .inl c :: tokensFrom r (some c, s)
      | none => .inl c :: tokensFrom r (some c, s) := by
  show scan r (s.length + 1) (prev, c :: s) = _
  simp only [scan]
  split
  · split
    · rename_i q _ h
      rw [scan_fuel r _ q h]
    · rw [scan_fuel r _ (some c, s) (Nat.le_refl _)]
  · rw [scan_fuel r _ (some c, s) (Nat.le_refl _)]

theorem tokensFrom_match {r : Re} {prev b : Option Char} {m t : Str} (hm : m ≠ [])
    (h : r.matchAt (prev, m ++ t) = some (b, t)) :
    tokensFrom r (prev, m ++ t) = .inr m :: tokensFrom r (b, t) := by
  rcases m with _ | ⟨c, m⟩
  · exact absurd rfl hm
  · have hle : t.length ≤ (m ++ t).length := by simp
    have htake : (c :: (m ++ t)).take ((m ++ t).length + 1 - t.length) = c :: m := by
      rw [show (m ++ t).length + 1 - t.length = (c :: m).length by simp; omega, ← List.cons_append, List.take_left]
    rw [List.cons_append] at h ⊢
    rw [tokens_cons, h]
    simp only [if_pos hle, htake]

/-- No match starts in `a`. -/
theorem tokensFrom_append {r : Re} {prev : Option Char} {a t : Str}
    (h : ∀ v w, a = v ++ w → w ≠ [] → r.matchAt (lastOr prev v, w ++ t) = none) :
    tokensFrom r (prev, a ++ t) = a.map .inl ++ tokensFrom r (lastOr prev a, t) := by
  induction a generalizing prev with
  | nil => rfl
  | cons c a ih =>
    have hhead : r.matchAt (prev, c :: (a ++ t)) = none := h [] (c :: a) rfl (List.cons_ne_nil _ _)
    rw [List.cons_append, tokens_cons, hhead, lastOr_cons]
    refine congrArg (Sum.inl c :: ·) (ih fun v w he hw => ?_)
    rw [← lastOr_cons]
    exact h (c :: v) w (by rw [he]; rfl) hw

theorem ends_suffix {r : Re} {q q' : Pos} (h : q' ∈ r.ends q) : q'.2 <:+ q.2 := by
  induction r generalizing q q' with
  | set p =>
    obtain ⟨prev, t⟩ := q
    obtain ⟨c, u, rfl, -, rfl⟩ := mem_set.mp h
    exact List.suffix_cons c u
  | lit eq w =>
    obtain ⟨prev, t⟩ := q
    obtain ⟨v, u, rfl, -, rfl⟩ := mem_lit.mp h
    exact List.suffix_append v u
  | many p =>
    obtain ⟨prev, t⟩ := q
    obtain ⟨v, u, rfl, -, rfl⟩ := mem_many.mp h
    exact List.suffix_append v u
  | opt r ih =>
    rcases mem_opt.mp h with h | rfl
    · exact ih h
    · exact List.suffix_rfl
  | alt r s ihr ihs =>
    rcases mem_alt.mp h with h | h
    · exact ihr h
    · exact ihs h
  | seq r s ihr ihs =>
    obtain ⟨m, hm, hq⟩ := mem_seq.mp h
    exact (ihs hq).trans (ihr hm)
  | wordB w =>
    obtain ⟨rfl, -⟩ := mem_wordB.mp h
    exact List.suffix_rfl
  | bos =>
    obtain ⟨rfl, -⟩ := mem_bos.mp h
    exact List.suffix_rfl
  | eos =>
    obtain ⟨rfl, -⟩ := mem_eos.mp h
    exact List.suffix_rfl

theorem matchAt_suffix {r : Re} {q q' : Pos} (h : r.matchAt q = some q') : q'.2 <:+ q.2 :=
  ends_suffix (List.mem_of_mem_head? h)

/-! ## The text behind the tokens -/

/-- Tokens put together, the matches as `f` rewrites them. -/
def join (f : Str → Str) (l : List (Char ⊕ Str)) : Str := l.flatMap (Sum.elim (fun c => [c]) f)

@[simp] theorem join_nil (f : Str → Str) : join f [] = [] := rfl
@[simp] theorem join_inl (f : Str → Str) (c : Char) (l : List (Char ⊕ Str)) : join f (.inl c :: l) = c :: join f l := rfl
@[simp] theorem join_inr (f : Str → Str) (m : Str) (l : List (Char ⊕ Str)) : join f (.inr m :: l) = f m ++ join f l := rfl

theorem join_append (f : Str → Str) (l l' : List (Char ⊕ Str)) : join f (l ++ l') = join f l ++ join f l' := List.flatMap_append

theorem join_plain (f : Str → Str) (s : Str) : join f (s.map .inl) = s := by
  induction s with
  | nil => rfl
  | cons c s ih => rw [List.map_cons, join_inl, ih]

theorem tokensFrom_text (r : Re) (q : Pos) : join id (tokensFrom r q) = q.2 := by
  induction h : q.2.length using Nat.strongRecOn generalizing q with
  | ind n ih =>
    obtain ⟨prev, s⟩ := q
    rcases s with _ | ⟨c, s⟩
    · rfl
    · have hnext : join id (tokensFrom r (some c, s)) = s := ih s.length (by rw [← h]; simp) _ rfl
      rw [tokens_cons]
      rcases hm : r.matchAt (prev, c :: s) with _ | ⟨b, u⟩
      · simp only [join_inl, hnext]
      · obtain ⟨m, hsplit⟩ : u <:+ c :: s := matchAt_suffix hm
        by_cases hle : u.length ≤ s.length
        · have hrest : join id (tokensFrom r (b, u)) = u := ih u.length (by rw [← h]; simp; omega) _ rfl
          have hlen := congrArg List.length hsplit
          rw [List.length_append, List.length_cons] at hlen
          have htake : (c :: s).take (s.length + 1 - u.length) = m := by
            rw [← hsplit, show s.length + 1 - u.length = m.length by omega, List.take_left]
          simp only [if_pos hle, join_inr, hrest, htake, id]
          exact hsplit
        · simp only [if_neg hle, join_inl, hnext]

theorem tokens_text (r : Re) (s : Str) : join id (tokens r s) = s := tokensFrom_text r (none, s)

/-- A text no suffix of which starts a match. -/
theorem tokensFrom_plain {r : Re} {q : Pos} (h : ∀ prev u, u <:+ q.2 → r.matchAt (prev, u) = none) :
    tokensFrom r q = q.2.map .inl := by
  obtain ⟨prev, s⟩ := q
  have hnone : ∀ v w, s = v ++ w → w ≠ [] → r.matchAt (lastOr prev v, w ++ []) = none := by
    intro v w he _
    rw [List.append_nil]
    exact h _ _ (he ▸ List.suffix_append v w)
  simpa using tokensFrom_append hnone

theorem spans_inl (n : Nat) (s : Str) (l : List (Char ⊕ Str)) : spans n (s.map .inl ++ l) = spans (n + s.length) l := by
  induction s generalizing n with
  | nil => rfl
  | cons c s ih =>
    show spans (n + 1) (s.map .inl ++ l) = _
    rw [ih, List.length_cons]
    congr 1
    omega

/-- Where the spans of a scan lie in its text. -/
theorem spans_text {n k : Nat} {m : Str} {l : List (Char ⊕ Str)} (h : (k, m) ∈ spans n l) :
    ∃ a b, join id l = a ++ m ++ b ∧ k = n + a.length := by
  induction l generalizing n with
  | nil => cases h
  | cons t l ih =>
    rcases t with c | m'
    · obtain ⟨a, b, he, rfl⟩ := ih (n := n + 1) h
      exact ⟨c :: a, b, by simp [he], by simp; omega⟩
    · rcases List.mem_cons.mp h with he | h
      · obtain ⟨rfl, rfl⟩ := Prod.mk.inj he
        exact ⟨[], join id l, rfl, rfl⟩
      · obtain ⟨a, b, he, rfl⟩ := ih h
        exact ⟨m' ++ a, b, by simp [he], by simp; omega⟩

theorem finditer_text {r : Re} {s m : Str} {k : Nat} (h : (k, m) ∈ finditer r s) :
    ∃ a b, s = a ++ m ++ b ∧ k = a.length := by
  obtain ⟨a, b, he, hk⟩ := spans_text h
  rw [tokens_text] at he
  exact ⟨a, b, he, by omega⟩

theorem spans_inside (f : Char → Char) {l : List (Char ⊕ Str)} {i : Nat}
    (h : (join (·.map f) l)[i]? ≠ (join id l)[i]?) (n : Nat) :
    ∃ m ∈ spans n l, m.1 ≤ n + i ∧ n + i < m.1 + m.2.length := by
  induction l generalizing i n with
  | nil => exact absurd rfl h
  | cons t l ih =>
    rcases t with c | m
    · rcases i with _ | i
      · exact absurd rfl h
      · obtain ⟨x, hx, h1, h2⟩ := ih (i := i) (by simpa using h) (n + 1)
        exact ⟨x, hx, by omega, by omega⟩
    · by_cases hi : i < m.length
      · exact ⟨(n, m), List.mem_cons_self, by simp, by simp only; omega⟩
      · have hrest : (join (·.map f) l)[i - m.length]? ≠ (join id l)[i - m.length]? := by
          simpa [List.getElem?_append_right (Nat.le_of_not_lt hi), List.getElem?_append, hi] using h
        obtain ⟨x, hx, h1, h2⟩ := ih hrest (n + m.length)
        exact ⟨x, List.mem_cons_of_mem _ hx, by omega, by omega⟩

/-- A character that rewriting the matches changes lies in a match. -/
theorem sub_inside {r : Re} {f : Char → Char} {s : Str} {i : Nat} (h : (sub r (·.map f) s)[i]? ≠ s[i]?) :
    ∃ m ∈ finditer r s, m.1 ≤ i ∧ i < m.1 + m.2.length := by
  have h' : (join (·.map f) (tokens r s))[i]? ≠ (join id (tokens r s))[i]? := by rwa [tokens_text]
  obtain ⟨m, hm, h1, h2⟩ := spans_inside f h' 0
  exact ⟨m, hm, by omega, by omega⟩

theorem join_eq_of_spans {f : Str → Str} {n : Nat} {l : List (Char ⊕ Str)} (h : spans n l = []) :
    join f l = join id l := by
  induction l generalizing n with
  | nil => rfl
  | cons t l ih =>
    rcases t with c | m
    · rw [join_inl, join_inl, ih h]
    · cases h

/-- Text without a match is left as it is. -/
theorem sub_eq {r : Re} {f : Str → Str} {s : Str} (h : finditer r s = []) : sub r f s = s :=
  (join_eq_of_spans h).trans (tokens_text r s)

theorem sub_plain {r : Re} {s : Str} (h : ∀ prev u, u <:+ s → r.matchAt (prev, u) = none) (f : Str → Str) :
    sub r f s = s := by
  have htok : tokens r s = s.map .inl := tokensFrom_plain h
  have hnone : finditer r s = [] := by
    rw [finditer, htok, ← List.append_nil (s.map Sum.inl), spans_inl]
    rfl
  exact sub_eq hnone

end Re

end CivicPulse.Text
