/-
  CivicPulse.Triage.Sanitize — `sanitize` leaves no tag, and changes no more than the tags
  (`app/providers/triage/prompt.py`).

  - `opens_of_inner`: an opening of the rewritten text was one of the text, since what is
    between `<` and the word boundary holds no bracket.
  - `sanitize_untagged`: so one pass leaves no tag, a text of plain characters.
  - `sanitize_once`: that, and that only brackets inside a match change.
-/

import CivicPulse.Triage.Prompt

namespace CivicPulse

open Text

namespace Prompt

variable [Platform]

/-! ## Brackets -/

omit [Platform] in
theorem neutral_bracket {c d : Char} (h : d = c ∨ d = neutral c) : d = c ∨ bracket c = true ∧ bracket d = true := by
  rcases h with rfl | rfl
  · exact .inl rfl
  · unfold neutral
    split
    · subst c; exact .inr (by decide)
    · split
      · subst c; exact .inr (by decide)
      · exact .inl rfl

omit [Platform] in
theorem neutral_ne (c : Char) : neutral c ≠ '<' := by
  unfold neutral
  split
  · decide
  · split
    · decide
    · assumption

omit [Platform] in
theorem neutral_no_opening (s : Str) : '<' ∉ s.map neutral := by
  intro hm
  obtain ⟨c, -, hc⟩ := List.mem_map.mp hm
  exact neutral_ne c hc

omit [Platform] in
theorem neutral_gt (c : Char) : neutral c ≠ '>' := by
  unfold neutral
  split
  · decide
  · split
    · decide
    · assumption

omit [Platform] in
/-- Rewriting closes no tag. -/
theorem Sim.gt_mem {s s' : Str} (h : Sim s s') (hm : '>' ∈ s') : '>' ∈ s := by
  induction h with
  | nil => exact hm
  | @cons c d s s' hcd _ ih =>
    rcases List.mem_cons.mp hm with rfl | hm
    · rcases hcd with rfl | hd
      · exact List.mem_cons_self
      · exact absurd hd.symm (neutral_gt c)
    · exact List.mem_cons_of_mem _ (ih hm)

omit [Platform] in
theorem Sim.eq_of_plain {s s' : Str} (h : Sim s s') (hb : ∀ c ∈ s', bracket c = false) : s = s' := by
  induction h with
  | nil => rfl
  | cons hcd _ ih =>
    rcases neutral_bracket hcd with rfl | ⟨-, hd⟩
    · rw [ih fun c hc => hb c (List.mem_cons_of_mem _ hc)]
    · rw [hb _ List.mem_cons_self] at hd
      cases hd

/-! ## Openings after the rewriting -/

/-- An opening of the rewritten text was one of the text: what lies before the word
    boundary holds no bracket, so it is the text's own. -/
theorem opens_of_inner {s s' p u : Str} (hs : Sim s s') (he : s' = p ++ u) (hp : Inner p) (hu : u.head?.any isWord = false) :
    opens ('<' :: s) = true := by
  subst he
  have htake := List.forall₂_take_append _ _ _ hs
  have hdrop := List.forall₂_drop_append _ _ _ hs
  rw [← List.take_append_drop p.length s, Sim.eq_of_plain htake hp.no_bracket]
  refine opens_iff.mpr ⟨p, _, rfl, hp, ?_⟩
  generalize s.drop p.length = x at hdrop
  cases hdrop with
  | nil => rfl
  | cons hcd _ =>
    rcases neutral_bracket hcd with rfl | ⟨hc, -⟩
    · simpa using hu
    · simp [isWord_bracket hc]

/-- No tag starts anywhere in a sanitized text. -/
theorem sanitize_closed {v a b : Str} (h : sanitize v = a ++ b) : ¬ (opens b = true ∧ '>' ∈ b) := by
  induction hn : v.length using Nat.strongRecOn generalizing v a with
  | ind n ih =>
    rcases v with _ | ⟨c, s⟩
    · obtain ⟨-, rfl⟩ := List.append_eq_nil_iff.mp h.symm
      intro hb
      cases hb.2
    · rw [sanitize_cons] at h
      split at h
      · rename_i ho
        -- the rewritten match holds no `<`, so the tag would start after it
        intro hb
        rcases List.append_eq_append_iff.mp h with ⟨y, -, hy⟩ | ⟨y, hy, rfl⟩
        · exact ih _ (hn ▸ beyond_length ho.2) hy rfl hb
        · rcases y with _ | ⟨d, y⟩
          · exact ih _ (hn ▸ beyond_length ho.2) (a := []) rfl rfl hb
          · obtain ⟨p, u, he, -⟩ := opens_iff.mp hb.1
            obtain rfl : d = '<' := (List.cons.inj he).1
            refine neutral_no_opening (upto (c :: s)) ?_
            rw [hy]
            exact List.mem_append_right _ List.mem_cons_self
      · rename_i ho
        rcases a with _ | ⟨d, a⟩
        · intro hb
          rw [List.nil_append] at h
          subst h
          obtain ⟨p, u, he, hp, hu⟩ := opens_iff.mp hb.1
          obtain rfl : c = '<' := (List.cons.inj he).1
          have hs : sanitize s = p ++ u := (List.cons.inj he).2
          have hgt : '>' ∈ sanitize s := (List.mem_cons.mp hb.2).resolve_left (by decide)
          exact ho ⟨opens_of_inner (sanitize_sim s) hs hp hu, List.mem_cons_of_mem _ ((sanitize_sim s).gt_mem hgt)⟩
        · exact ih s.length (by rw [← hn]; simp) (List.cons.inj h).2 rfl

theorem toks_of_closed {s : Str} (h : ∀ a b, s = a ++ b → ¬ (opens b = true ∧ '>' ∈ b)) : toks s = s.map .inl := by
  induction s with
  | nil => rfl
  | cons c s ih =>
    rw [toks_cons, if_neg (h [] _ rfl), ih fun a b he => h (c :: a) b (by rw [he]; rfl)]
    rfl

theorem sanitize_untagged (v : Str) : toks (sanitize v) = (sanitize v).map .inl :=
  toks_of_closed fun _ _ h => sanitize_closed h

/-! ## The pass as a whole -/

/-- What one pass of the substitution makes of `s`. -/
structure Sanitized (s t : Str) : Prop where
  no_match : tag.finditer t = []
  none_at : ∀ a b, t = a ++ b → tag.matchAt (a.getLast?, b) = none
  again : sanitize t = t
  length : t.length = s.length
  brackets : List.Forall₂ (fun c d => d = c ∨ (c = '<' ∧ d = '‹') ∨ (c = '>' ∧ d = '›')) s t
  inside : ∀ i : Nat, t[i]? ≠ s[i]? →
    ∃ a m b, s = a ++ m ++ b ∧ (a.length, m) ∈ tag.finditer s ∧ a.length ≤ i ∧ i < a.length + m.length
  unmatched : tag.finditer s = [] → t = s

omit [Platform] in
theorem neutral_cases (c : Char) : neutral c = c ∨ (c = '<' ∧ neutral c = '‹') ∨ (c = '>' ∧ neutral c = '›') := by
  unfold neutral
  split
  · exact .inr (.inl ⟨‹_›, rfl⟩)
  · split
    · exact .inr (.inr ⟨‹_›, rfl⟩)
    · exact .inl rfl

theorem sanitize_brackets (s : Str) :
    List.Forall₂ (fun c d => d = c ∨ (c = '<' ∧ d = '‹') ∨ (c = '>' ∧ d = '›')) s (sanitize s) := by
  refine (sanitize_sim s).imp fun c d hcd => ?_
  rcases hcd with rfl | rfl
  · exact .inl rfl
  · exact neutral_cases c

/-- One pass removes every tag, and changes nothing but brackets inside matches. -/
theorem sanitize_once (s : Str) : Sanitized s (sanitize s) := by
  have hnone : tag.finditer (sanitize s) = [] := by
    show Re.spans 0 (toks (sanitize s)) = []
    rw [sanitize_untagged, ← List.append_nil ((sanitize s).map _), Re.spans_inl]
    rfl
  exact {
    no_match := hnone
    none_at := fun a b h => by rw [matchAt_tag, if_neg (sanitize_closed h)]
    again := Re.sub_eq hnone
    length := length_sanitize s
    brackets := sanitize_brackets s
    inside := fun i hi => by
      obtain ⟨⟨k, m⟩, hm, h1, h2⟩ := Re.sub_inside hi
      obtain ⟨a, b, he, rfl⟩ := Re.finditer_text hm
      exact ⟨a, m, b, he, hm, h1, h2⟩
    unmatched := Re.sub_eq }

end Prompt

end CivicPulse
