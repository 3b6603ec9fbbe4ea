/-
  CivicPulse.Triage.Prompt — the prompt sent to a hosted model
  (`app/providers/triage/prompt.py`).

  Citizen text goes between delimiters; `sanitize` rewrites the brackets of every match
  of `tag` in it. A match is an opening (`<`, a slash perhaps, white space, one of the
  five names up to a word boundary) and everything up to the next `>`, whatever it is.
  - `opens_iff`: what an opening is, character by character.
  - `tokens_tag`: the scan for tags: at an opening with a `>` after it, a match up to
    that `>`; otherwise one character.
  - `sanitize_sim`: sanitizing changes only angle brackets, each into its guillemet.
-/

import CivicPulse.Platform
import CivicPulse.Text.Regex

namespace CivicPulse

open Text

namespace Prompt

def tagNames : List Str :=
  ["complaint".toList, "location".toList, "system".toList, "assistant".toList, "user".toList]

section

variable [Platform]

/-- `\w`. -/
def isWord (c : Char) : Bool := isAlnum c || c == '_'

/-- `(complaint|location|system|assistant|user)`. -/
def nameRe : Re := (tagNames.map (Re.lit Re.eqIgnoreCase)).foldr .alt (.set fun _ => false)

/-- `</?\s*(…)\b`. -/
def opening : Re :=
  .seq (.lit (· == ·) ['<']) (.seq (.opt (.set (· == '/'))) (.seq (.many isSpace) (.seq nameRe (.wordB isWord))))

/-- `[^>]*>`. -/
def closing : Re := .seq (.many (· != '>')) (.set (· == '>'))

/-- `_TAG`. -/
def tag : Re := .seq opening closing

/-- `.replace("<", "‹").replace(">", "›")`. -/
def neutral (c : Char) : Char := if c = '<' then '‹' else if c = '>' then '›' else c

def sanitize (value : Str) : Str := tag.sub (·.map neutral) value

def buildUserPrompt (text location : Str) : Str :=
  "<location>".toList ++ sanitize location ++ "</location>\n<complaint>\n".toList ++ sanitize text ++
    "\n</complaint>\nReturn the JSON object now.".toList

end

/-! ## Openings -/

section Opening

/-- What is between the `<` and the word boundary. -/
def Inner (p : Str) : Prop :=
  ∃ sl sp nm, p = sl ++ (sp ++ nm) ∧ (sl = [] ∨ sl = ['/']) ∧ (∀ c ∈ sp, isSpace c = true) ∧
    ∃ n ∈ tagNames, List.Forall₂ (fun a c => Re.eqIgnoreCase a c = true) n nm

def bracket (c : Char) : Bool := c == '<' || c == '>' || c == '‹' || c == '›'

/-- No letter of a name, in any case, is white space or a bracket. -/
theorem letter_plain {a c : Char} (ha : a ∈ tagNames.flatten) (h : Re.eqIgnoreCase a c = true) :
    isSpace c = false ∧ bracket c = false := by
  have hall : (tagNames.flatten ++ ['İ', 'ı', 'ſ', '\u212A']).all (fun b => !isSpace b && !bracket b) = true := by decide
  have hletters : ∀ b ∈ tagNames.flatten ++ ['İ', 'ı', 'ſ', '\u212A'], isSpace b = false ∧ bracket b = false := by
    simpa only [List.all_eq_true, Bool.and_eq_true, Bool.not_eq_true'] using hall
  by_contra hbad
  have hlow : c.toLower = c := by
    rw [not_and_or, Bool.not_eq_false, Bool.not_eq_false] at hbad
    rcases hbad with hs | hb
    · exact toLower_space hs
    · simp only [bracket, Bool.or_eq_true, beq_iff_eq] at hb
      rcases hb with ((rfl | rfl) | rfl) | rfl <;> decide
  simp only [Re.eqIgnoreCase, hlow, Bool.or_eq_true, Bool.and_eq_true, beq_iff_eq] at h
  rcases h with ((rfl | ⟨_, rfl | rfl⟩) | ⟨_, rfl⟩) | ⟨_, rfl⟩
  · exact hbad (hletters c (List.mem_append_left _ ha))
  all_goals exact hbad (hletters _ (by decide))

theorem name_plain {n nm : Str} (hn : n ∈ tagNames) (h : List.Forall₂ (fun a c => Re.eqIgnoreCase a c = true) n nm) :
    ∀ c ∈ nm, isSpace c = false ∧ bracket c = false := by
  have hsub : ∀ a ∈ n, a ∈ tagNames.flatten := fun a ha => List.mem_flatten.mpr ⟨n, hn, ha⟩
  clear hn
  induction h with
  | nil => intro c hc; cases hc
  | cons hac _ ih =>
    intro c hc
    rcases List.mem_cons.mp hc with rfl | hc
    · exact letter_plain (hsub _ List.mem_cons_self) hac
    · exact ih (fun a ha => hsub a (List.mem_cons_of_mem _ ha)) c hc

theorem Inner.no_bracket {p : Str} (h : Inner p) : ∀ c ∈ p, bracket c = false := by
  obtain ⟨sl, sp, nm, rfl, hsl, hsp, n, hn, hnm⟩ := h
  intro c hc
  rcases List.mem_append.mp hc with hc | hc
  · rcases hsl with rfl | rfl
    · cases hc
    · rw [List.mem_singleton.mp hc]; decide
  · rcases List.mem_append.mp hc with hc | hc
    · have := hsp c hc
      rcases hb : bracket c with _ | _
      · rfl
      · simp only [bracket, Bool.or_eq_true, beq_iff_eq] at hb
        rcases hb with ((rfl | rfl) | rfl) | rfl <;> exact absurd this (by decide)
    · exact (name_plain hn hnm c hc).2

/-- It ends in a letter. -/
theorem Inner.last {p : Str} (h : Inner p) : ∃ q c, p = q ++ [c] ∧ isSpace c = false := by
  obtain ⟨sl, sp, nm, rfl, -, -, n, hn, hnm⟩ := h
  rcases List.eq_nil_or_concat nm with rfl | ⟨t, c, rfl⟩
  · cases hnm
    exact absurd hn (by decide)
  · refine ⟨sl ++ (sp ++ t), c, by simp, ?_⟩
    exact (name_plain hn hnm c (by simp)).1

variable [Platform]

/-- The tag's opening starts here. -/
def opens (s : Str) : Bool := !(opening.ends (none, s)).isEmpty

theorem isWord_ascii {c : Char} (hc : c.toNat < 128) : isWord c = (c.isAlphanum || c == '_') := by
  rw [isWord, Platform.isAlnum_ascii c hc]

theorem isWord_bracket {c : Char} (h : bracket c = true) : isWord c = false := by
  simp only [bracket, Bool.or_eq_true, beq_iff_eq] at h
  rcases h with ((rfl | rfl) | rfl) | rfl
  · rw [isWord_ascii (by decide)]; decide
  · rw [isWord_ascii (by decide)]; decide
  · simp [isWord, Platform.isAlnum_guillemets.1]
  · simp [isWord, Platform.isAlnum_guillemets.2]

/-- A letter whose lower case is an ASCII letter is a word character. -/
theorem isWord_of_toLower {c : Char} (h : c.toLower ∈ ['t', 'n', 'm', 'r']) : isWord c = true := by
  have key : c.toNat < 128 ∧ c.isAlphanum = true := by
    unfold Char.toLower at h
    split at h
    · rename_i hc
      have h1 : 65 ≤ c.toNat := hc.1
      have h2 : c.toNat ≤ 90 := hc.2
      have h3 : c.isUpper = true := decide_eq_true hc
      refine ⟨by omega, ?_⟩
      show (c.isUpper || c.isLower || c.isDigit) = true
      rw [h3]
      rfl
    · simp only [List.mem_cons, List.not_mem_nil, or_false] at h
      rcases h with rfl | rfl | rfl | rfl <;> decide
  rw [isWord_ascii key.1, key.2]
  rfl

/-- A name ends in a word character. -/
theorem name_last {n nm : Str} (hn : n ∈ tagNames) (h : List.Forall₂ (fun a c => Re.eqIgnoreCase a c = true) n nm) :
    nm.getLast?.any isWord = true := by
  have hl : ∃ m a, n = m ++ [a] ∧ a ∈ ['t', 'n', 'm', 'r'] := by
    have hall : ∀ n ∈ tagNames, n = n.dropLast ++ [n.getLast?.getD 'x'] ∧ n.getLast?.getD 'x' ∈ ['t', 'n', 'm', 'r'] := by
      decide
    exact ⟨_, _, (hall n hn).1, (hall n hn).2⟩
  obtain ⟨m, a, rfl, ha⟩ := hl
  have hv := List.forall₂_drop m.length h
  rw [List.drop_left] at hv
  rw [← List.take_append_drop m.length nm]
  generalize nm.drop m.length = v at hv
  cases hv with
  | cons hac hnil =>
    cases hnil
    rename_i c
    have hc : c.toLower = a := by
      simp only [Re.eqIgnoreCase, Bool.or_eq_true, Bool.and_eq_true, beq_iff_eq] at hac
      rcases hac with ((h | ⟨rfl, _⟩) | ⟨rfl, _⟩) | ⟨rfl, _⟩
      · exact h
      all_goals exact absurd ha (by decide)
    simp [isWord_of_toLower (hc ▸ ha)]

omit [Platform] in
theorem mem_nameRe {q q' : Re.Pos} : q' ∈ nameRe.ends q ↔ ∃ n ∈ tagNames, q' ∈ (Re.lit Re.eqIgnoreCase n).ends q := by
  have h : ∀ l : List Str, q' ∈ ((l.map (Re.lit Re.eqIgnoreCase)).foldr Re.alt (.set fun _ => false)).ends q ↔
      ∃ n ∈ l, q' ∈ (Re.lit Re.eqIgnoreCase n).ends q := by
    intro l
    induction l with
    | nil =>
      obtain ⟨prev, t⟩ := q
      cases t <;> simp [Re.ends]
    | cons n l ih => simp only [List.map_cons, List.foldr_cons, Re.mem_alt, ih, List.exists_mem_cons_iff]
  exact h tagNames

theorem mem_opening {prev : Option Char} {s : Str} {q : Re.Pos} :
    q ∈ opening.ends (prev, s) ↔
      ∃ p u, s = '<' :: (p ++ u) ∧ Inner p ∧ u.head?.any isWord = false ∧ q = (p.getLast?, u) := by
  have hname : ∀ {n nm : Str} (b : Option Char), n ∈ tagNames →
      List.Forall₂ (fun a c => Re.eqIgnoreCase a c = true) n nm →
      (Re.lastOr b nm).any isWord = true ∧ ∀ w : Str, Re.lastOr b nm = (w ++ nm).getLast? := by
    intro n nm b hn hnm
    rcases List.eq_nil_or_concat nm with rfl | ⟨t, c, rfl⟩
    · cases hnm
      exact absurd hn (by decide)
    · have h := name_last hn hnm
      rw [List.concat_eq_append] at h ⊢
      simp only [Re.lastOr, List.getLast?_append, List.getLast?_singleton, Option.some_or] at h ⊢
      exact ⟨h, fun _ => trivial⟩
  simp only [opening, Re.mem_seq, Re.mem_opt, mem_nameRe]
  constructor
  · intro h
    obtain ⟨q1, h1, q2, h2, q3, h3, q4, ⟨n, hn, h4⟩, h5⟩ := h
    obtain ⟨s1, rfl, rfl⟩ := Re.mem_word.mp h1
    obtain ⟨sl, s2, rfl, hsl, hq2⟩ : ∃ sl s2, s1 = sl ++ s2 ∧ (sl = [] ∨ sl = ['/']) ∧ q2.2 = s2 := by
      rcases h2 with h2 | rfl
      · obtain ⟨c, t, rfl, hc, rfl⟩ := Re.mem_set.mp h2
        exact ⟨['/'], t, by simp [beq_iff_eq.mp hc], .inr rfl, rfl⟩
      · exact ⟨[], s1, rfl, .inl rfl, rfl⟩
    obtain ⟨b2, t2⟩ := q2
    obtain rfl : t2 = s2 := hq2
    obtain ⟨sp, s3, rfl, hsp, rfl⟩ := Re.mem_many.mp h3
    obtain ⟨nm, u, rfl, hnm, rfl⟩ := Re.mem_lit.mp h4
    obtain ⟨rfl, hb⟩ := Re.mem_wordB.mp h5
    obtain ⟨hw, hlast⟩ := hname (Re.lastOr b2 sp) hn hnm
    refine ⟨sl ++ (sp ++ nm), u, by simp, ⟨sl, sp, nm, rfl, hsl, hsp, n, hn, hnm⟩, ?_, ?_⟩
    · simpa [hw] using hb
    · rw [hlast (sl ++ sp), List.append_assoc]
  · intro h
    obtain ⟨p, u, rfl, ⟨sl, sp, nm, rfl, hsl, hsp, n, hn, hnm⟩, hu, rfl⟩ := h
    have h1 : (some '<', sl ++ (sp ++ (nm ++ u))) ∈ (Re.lit (· == ·) ['<']).ends (prev, '<' :: ((sl ++ (sp ++ nm)) ++ u)) :=
      Re.mem_word.mpr ⟨sl ++ (sp ++ (nm ++ u)), by simp, rfl⟩
    obtain ⟨b2, h2⟩ : ∃ b2, (b2, sp ++ (nm ++ u)) ∈ (Re.opt (.set (· == '/'))).ends (some '<', sl ++ (sp ++ (nm ++ u))) := by
      rcases hsl with rfl | rfl
      · exact ⟨some '<', Re.mem_opt.mpr (.inr rfl)⟩
      · exact ⟨some '/', Re.mem_opt.mpr (.inl (Re.mem_set.mpr ⟨'/', _, rfl, rfl, rfl⟩))⟩
    obtain ⟨hw, hlast⟩ := hname (Re.lastOr b2 sp) hn hnm
    have h2' := Re.mem_opt.mp h2
    refine ⟨_, h1, _, h2', _, Re.mem_many.mpr ⟨sp, nm ++ u, rfl, hsp, rfl⟩, _, ⟨n, hn, Re.mem_lit.mpr ⟨nm, u, rfl, hnm, rfl⟩⟩,
      Re.mem_wordB.mpr ⟨?_, ?_⟩⟩
    · rw [hlast (sl ++ sp), List.append_assoc]
    · simp [hw, hu]

/-- An opening, character by character. -/
theorem opens_iff {s : Str} : opens s = true ↔ ∃ p u, s = '<' :: (p ++ u) ∧ Inner p ∧ u.head?.any isWord = false := by
  have h : opens s = true ↔ ∃ q, q ∈ opening.ends (none, s) := by
    rw [opens, Bool.not_eq_true', List.isEmpty_eq_false_iff_exists_mem]
  rw [h]
  constructor
  · intro h
    obtain ⟨q, hq⟩ := h
    obtain ⟨p, u, hs, hp, hu, -⟩ := mem_opening.mp hq
    exact ⟨p, u, hs, hp, hu⟩
  · intro h
    obtain ⟨p, u, hs, hp, hu⟩ := h
    exact ⟨_, mem_opening.mpr ⟨p, u, hs, hp, hu, rfl⟩⟩

/-! ## The scan -/

omit [Platform] in
theorem ends_closing {b : Option Char} {s : Str} :
    closing.ends (b, s) = if '>' ∈ s then [(some '>', (s.dropWhile (· != '>')).tail)] else [] := by
  have key : ∀ (b : Option Char) (s : Str), (Re.endsMany (· != '>') b s).flatMap (Re.ends (.set (· == '>'))) =
      if '>' ∈ s then [(some '>', (s.dropWhile (· != '>')).tail)] else [] := by
    intro b s
    induction s generalizing b with
    | nil => rfl
    | cons c s ih =>
      by_cases hc : c = '>'
      · subst hc
        simp [Re.endsMany, Re.ends]
      · have hc' : ¬ '>' = c := fun e => hc e.symm
        simp [Re.endsMany, Re.ends, hc, hc', ih]
  exact key b s

/-- The text up to and with the first `>`, and the text after it. -/
def upto (s : Str) : Str := s.takeWhile (· != '>') ++ ['>']

def beyond (s : Str) : Str := (s.dropWhile (· != '>')).tail

theorem matchAt_tag (prev : Option Char) (s : Str) :
    tag.matchAt (prev, s) = if opens s = true ∧ '>' ∈ s then some (some '>', beyond s) else none := by
  -- every way to open leaves a text with the same first `>`
  have hends : ∀ q ∈ opening.ends (prev, s), closing.ends q = if '>' ∈ s then [(some '>', beyond s)] else [] := by
    intro q hq
    obtain ⟨p, u, rfl, hp, -, rfl⟩ := mem_opening.mp hq
    have hp' : ∀ c ∈ '<' :: p, (c != '>') = true := by
      intro c hc
      rcases List.mem_cons.mp hc with rfl | hc
      · decide
      · have := hp.no_bracket c hc
        simp only [bracket, Bool.or_eq_false_iff] at this
        simpa using this.1.1.2
    have hmem : '>' ∈ '<' :: (p ++ u) ↔ '>' ∈ u := by
      rw [← List.cons_append, List.mem_append]
      refine ⟨fun h => h.resolve_left fun hin => absurd (hp' _ hin) (by decide), .inr⟩
    rw [ends_closing, beyond, ← List.cons_append, List.dropWhile_append_of_pos hp', List.cons_append]
    simp only [hmem]
  have hopen : opens s = true ↔ opening.ends (prev, s) ≠ [] := by
    rw [opens_iff]
    constructor
    · intro h hnil
      obtain ⟨p, u, hs, hp, hu⟩ := h
      have : (p.getLast?, u) ∈ opening.ends (prev, s) := mem_opening.mpr ⟨p, u, hs, hp, hu, rfl⟩
      rw [hnil] at this
      cases this
    · intro h
      obtain ⟨q, hq⟩ := List.exists_mem_of_ne_nil _ h
      obtain ⟨p, u, hs, hp, hu, -⟩ := mem_opening.mp hq
      exact ⟨p, u, hs, hp, hu⟩
  show ((opening.ends (prev, s)).flatMap closing.ends).head? = _
  rcases h : opening.ends (prev, s) with _ | ⟨q, l⟩
  · rw [h] at hopen
    simp [hopen]
  · rw [h] at hopen hends
    rw [List.flatMap_cons, hends q List.mem_cons_self]
    by_cases hm : '>' ∈ s
    · simp [hopen, hm]
    · have hl : l.flatMap closing.ends = [] := by
        rw [List.flatMap_eq_nil_iff]
        intro q' hq'
        rw [hends q' (List.mem_cons_of_mem _ hq'), if_neg hm]
      simp [hm, hl]

omit [Platform] in
theorem upto_beyond {s : Str} (h : '>' ∈ s) : s = upto s ++ beyond s := by
  induction s with
  | nil => cases h
  | cons c s ih =>
    by_cases hc : c = '>'
    · subst hc
      simp [upto, beyond]
    · have hm : '>' ∈ s := (List.mem_cons.mp h).resolve_left fun e => hc e.symm
      have := ih hm
      simp only [upto, beyond] at this ⊢
      simpa [hc] using this

theorem tokens_tag (prev : Option Char) (c : Char) (s : Str) :
    tag.tokensFrom (prev, c :: s) =
      if opens (c :: s) = true ∧ '>' ∈ c :: s then .inr (upto (c :: s)) :: tag.tokensFrom (some '>', beyond (c :: s))
      else .inl c :: tag.tokensFrom (some c, s) := by
  by_cases h : opens (c :: s) = true ∧ '>' ∈ c :: s
  · have hne : upto (c :: s) ≠ [] := by simp [upto]
    have hmatch : tag.matchAt (prev, upto (c :: s) ++ beyond (c :: s)) = some (some '>', beyond (c :: s)) := by
      rw [← upto_beyond h.2, matchAt_tag, if_pos h]
    have htokens := Re.tokensFrom_match hne hmatch
    rw [if_pos h]
    rwa [← upto_beyond h.2] at htokens
  · rw [Re.tokens_cons, matchAt_tag, if_neg h, if_neg h]

/-- The scan does not look back. -/
def toks (s : Str) : List (Char ⊕ Str) := tag.tokens s

theorem tokensFrom_tag (b : Option Char) (s : Str) : tag.tokensFrom (b, s) = toks s := by
  cases s with
  | nil => rfl
  | cons c s => exact (tokens_tag b c s).trans (tokens_tag none c s).symm

theorem toks_cons (c : Char) (s : Str) :
    toks (c :: s) =
      if opens (c :: s) = true ∧ '>' ∈ c :: s then .inr (upto (c :: s)) :: toks (beyond (c :: s))
      else .inl c :: toks s := by
  rw [toks, Re.tokens, tokens_tag, tokensFrom_tag, tokensFrom_tag]

/-- No tag starts in text without `<`. -/
theorem toks_append {a : Str} (h : '<' ∉ a) (r : Str) : toks (a ++ r) = a.map .inl ++ toks r := by
  have hnone : ∀ v w, a = v ++ w → w ≠ [] → tag.matchAt (Re.lastOr none v, w ++ r) = none := by
    intro v w he hw
    rw [matchAt_tag, if_neg]
    intro ho
    obtain ⟨c, w, rfl⟩ := List.exists_cons_of_ne_nil hw
    obtain ⟨p, u, hp, -⟩ := opens_iff.mp ho.1
    obtain rfl : c = '<' := (List.cons.inj hp).1
    exact h (by simp [he])
  rw [toks, Re.tokens, Re.tokensFrom_append hnone, tokensFrom_tag]

/-! ## Sanitizing -/

theorem sanitize_cons (c : Char) (s : Str) :
    sanitize (c :: s) =
      if opens (c :: s) = true ∧ '>' ∈ c :: s then (upto (c :: s)).map neutral ++ sanitize (beyond (c :: s))
      else c :: sanitize s := by
  show (toks (c :: s)).flatMap _ = _
  rw [toks_cons]
  split
  · rfl
  · rfl

omit [Platform] in
theorem beyond_length {s : Str} (h : '>' ∈ s) : (beyond s).length < s.length := by
  have := congrArg List.length (upto_beyond h)
  simp only [upto, List.length_append, List.length_singleton] at this
  omega

/-- Character by character, the text or its neutral form. -/
abbrev Sim : Str → Str → Prop := List.Forall₂ fun c d => d = c ∨ d = neutral c

theorem sanitize_sim (v : Str) : Sim v (sanitize v) := by
  induction h : v.length using Nat.strongRecOn generalizing v with
  | ind n ih =>
    rcases v with _ | ⟨c, s⟩
    · exact .nil
    · rw [sanitize_cons]
      split
      · rename_i ho
        have hrest := ih _ (h ▸ beyond_length ho.2) (beyond (c :: s)) rfl
        have hmap : ∀ t : Str, Sim t (t.map neutral) := fun t => List.forall₂_map_right_iff.mpr (List.forall₂_same.mpr
          fun _ _ => .inr rfl)
        have : Sim (upto (c :: s) ++ beyond (c :: s)) ((upto (c :: s)).map neutral ++ sanitize (beyond (c :: s))) :=
          List.rel_append (hmap (upto (c :: s))) hrest
        rwa [← upto_beyond ho.2] at this
      · exact .cons (.inl rfl) (ih s.length (by rw [← h]; simp) s rfl)

theorem length_sanitize (v : Str) : (sanitize v).length = v.length := (sanitize_sim v).length_eq.symm

/-- Text with no `>` holds no tag. -/
theorem sanitize_eq {v : Str} (h : '>' ∉ v) : sanitize v = v := by
  induction v with
  | nil => rfl
  | cons c s ih =>
    rw [sanitize_cons, if_neg fun ho => h ho.2, ih fun hm => h (List.mem_cons_of_mem _ hm)]

end Opening

end Prompt

end CivicPulse
