/-
  CivicPulse.Triage.Guardrail — which tags the built prompt holds.

  `sanitize` sees one field at a time, so a field that opens a tag without closing it
  (`Open`) keeps the opening, and in the prompt it runs on to the `>` of the template's
  next delimiter.
  - `toks_closed`: a field with no such opening adds no tag to what follows it.
  - `toks_open`: a field with one starts a tag inside it.
  - `prompt_delimiters_iff`: the tags of the prompt are the template's four delimiters
    exactly when neither field is open.
-/

import CivicPulse.Triage.Sanitize

namespace CivicPulse

open Text

namespace Prompt

variable [Platform]

/-- Some tag is opened with no `>` after it. -/
def Open (v : Str) : Prop := ∃ a b, v = a ++ b ∧ opens b = true ∧ '>' ∉ b

/-- What the template puts after a field: a line feed perhaps, and a delimiter. -/
def Template (r : Str) : Prop := ∃ sp t, r = sp ++ '<' :: t ∧ (sp = [] ∨ sp = ['\n'])

omit [Platform] in
/-- Nothing but white space comes before the template's next `<`. -/
theorem Template.no_name {r z u : Str} {d : Char} (hr : Template r) (h : r = z ++ [d] ++ u) (hd : isSpace d = false)
    (hno : '<' ∉ z ++ [d]) : False := by
  obtain ⟨sp, t, rfl, hsp⟩ := hr
  have hspace : ∀ c ∈ sp, isSpace c = true := by
    rcases hsp with rfl | rfl <;> exact List.all_eq_true.mp (by decide)
  have hmem : d ∉ sp := fun hm => by rw [hspace d hm] at hd; cases hd
  rcases List.append_eq_append_iff.mp h with ⟨y, hy, ht⟩ | ⟨y, hy, -⟩
  · rcases y with _ | ⟨c, y⟩
    · rw [List.append_nil] at hy
      exact hmem (hy ▸ by simp)
    · obtain rfl : '<' = c := (List.cons.inj ht).1
      exact hno (by simp [hy])
  · exact hmem (by simp [hy])

/-- An opening in a sanitized field, with the template after it, was one in the field. -/
theorem opens_of_sim {s s' r : Str} (hs : Sim s s') (hr : Template r) (h : opens ('<' :: (s' ++ r)) = true) :
    opens ('<' :: s) = true := by
  obtain ⟨p, u, he, hp, hu⟩ := opens_iff.mp h
  have he' : s' ++ r = p ++ u := (List.cons.inj he).2
  rcases List.append_eq_append_iff.mp he' with ⟨y, hy, hr'⟩ | ⟨y, hy, hu'⟩
  · rcases List.eq_nil_or_concat y with rfl | ⟨z, c, rfl⟩
    · exact opens_of_inner hs (u := []) (by simpa using hy.symm) hp rfl
    · -- the boundary would lie in the template, past white space only
      exfalso
      obtain ⟨q, d, hq, hd⟩ := hp.last
      rw [List.concat_eq_append] at hy hr'
      have hdc : d = c := by
        rw [hq, ← List.append_assoc] at hy
        exact (List.append_inj' hy rfl).2 |> fun e => by simpa using e
      subst hdc
      have hno : '<' ∉ z ++ [d] := by
        intro hm
        have := hp.no_bracket '<' (by rw [hy]; exact List.mem_append_right _ hm)
        exact absurd this (by decide)
      exact hr.no_name hr' hd hno
  · refine opens_of_inner hs hy hp ?_
    rcases y with _ | ⟨c, y⟩
    · rfl
    · rw [hu'] at hu
      exact hu

theorem toks_closed {v r : Str} (hv : ¬ Open v) (hr : Template r) :
    toks (sanitize v ++ r) = (sanitize v).map .inl ++ toks r := by
  induction h : v.length using Nat.strongRecOn generalizing v with
  | ind n ih =>
    rcases v with _ | ⟨c, s⟩
    · rfl
    · rw [sanitize_cons]
      split
      · rename_i ho
        have hb : ¬ Open (beyond (c :: s)) := by
          intro hb
          obtain ⟨a, b, he, hob, hgt⟩ := hb
          exact hv ⟨upto (c :: s) ++ a, b, by rw [List.append_assoc, ← he, ← upto_beyond ho.2], hob, hgt⟩
        rw [List.append_assoc, toks_append (neutral_no_opening _), ih _ (h ▸ beyond_length ho.2) hb rfl, List.map_append, List.append_assoc]
      · rename_i ho
        have hs : ¬ Open s := by
          intro hs
          obtain ⟨a, b, rfl, hob, hgt⟩ := hs
          exact hv ⟨c :: a, b, rfl, hob, hgt⟩
        have hopen : ¬ opens (c :: (sanitize s ++ r)) = true := by
          intro hop
          obtain ⟨p, u, he, -⟩ := opens_iff.mp hop
          obtain rfl : c = '<' := (List.cons.inj he).1
          have hos := opens_of_sim (sanitize_sim s) hr hop
          -- an opening that matched no tag has no `>` after it
          exact hv ⟨[], '<' :: s, rfl, hos, fun hgt => ho ⟨hos, hgt⟩⟩
        rw [List.cons_append, toks_cons, if_neg fun hop => hopen hop.1, ih s.length (by rw [← h]; simp) hs rfl]
        rfl

theorem toks_open {v r : Str} (hv : Open v) (hr : Template r) (hgt : '>' ∈ r) :
    ∃ (pre m : Str) (rest : List (Char ⊕ Str)), toks (sanitize v ++ r) = pre.map .inl ++ .inr m :: rest ∧ pre.length < v.length := by
  induction h : v.length using Nat.strongRecOn generalizing v with
  | ind n ih =>
    obtain ⟨a, b, he, hob, hb⟩ := hv
    rcases v with _ | ⟨c, s⟩
    · obtain ⟨rfl, rfl⟩ := List.append_eq_nil_iff.mp he.symm
      obtain ⟨p, u, hn, -⟩ := opens_iff.mp hob
      cases hn
    · by_cases ho : opens (c :: s) = true ∧ '>' ∈ c :: s
      · -- the match ends in a `>`, so what is open lies after it
        have hrest : Open (beyond (c :: s)) := by
          rw [upto_beyond ho.2] at he
          rcases List.append_eq_append_iff.mp he with ⟨y, -, hy⟩ | ⟨y, hy, hy'⟩
          · exact ⟨y, b, hy, hob, hb⟩
          · rcases List.eq_nil_or_concat y with rfl | ⟨z, d, rfl⟩
            · exact ⟨[], b, hy'.symm, hob, hb⟩
            · rw [upto, List.concat_eq_append, ← List.append_assoc] at hy
              have hd : '>' = d := by simpa using (List.append_inj' hy rfl).2
              exact absurd (by rw [hy', hd]; simp) hb
        obtain ⟨pre, m, rest, htoks, hlen⟩ := ih _ (h ▸ beyond_length ho.2) hrest rfl
        refine ⟨(upto (c :: s)).map neutral ++ pre, m, rest, ?_, ?_⟩
        · rw [sanitize_cons, if_pos ho, List.append_assoc, toks_append (neutral_no_opening _), htoks, List.map_append, List.append_assoc]
        · have := congrArg List.length (upto_beyond ho.2)
          simp only [List.length_append, List.length_map] at this ⊢
          omega
      · rw [sanitize_cons, if_neg ho, List.cons_append, toks_cons]
        by_cases hop : opens (c :: (sanitize s ++ r)) = true
        · have hm : '>' ∈ c :: (sanitize s ++ r) := List.mem_cons_of_mem _ (List.mem_append_right _ hgt)
          rw [if_pos ⟨hop, hm⟩]
          exact ⟨[], _, _, rfl, by rw [← h]; simp⟩
        · rw [if_neg fun hh => hop hh.1]
          rcases a with _ | ⟨d, a⟩
          · -- the opening is here, and sanitizing leaves it
            exfalso
            rw [List.nil_append] at he
            rw [← he] at hob hb
            obtain ⟨p, u, hp, hin, hu⟩ := opens_iff.mp hob
            rw [sanitize_eq fun hm => hb (List.mem_cons_of_mem _ hm)] at hop
            refine hop (opens_iff.mpr ⟨p, u ++ r, by rw [← List.cons_append, hp]; simp, hin, ?_⟩)
            rcases u with _ | ⟨e, u⟩
            · obtain ⟨sp, t, rfl, hsp⟩ := hr
              rcases hsp with rfl | rfl
              · simp [isWord_bracket (show bracket '<' = true by decide)]
              · show isWord '\n' = false
                rw [isWord_ascii (by decide)]
                decide
            · simpa using hu
          · obtain ⟨rfl, hs⟩ := List.cons.inj he
            obtain rfl : s = a ++ b := hs
            obtain ⟨pre, m, rest, htoks, hlen⟩ :=
              ih (a ++ b).length (by rw [← h]; simp) ⟨a, b, rfl, hob, hb⟩ rfl
            refine ⟨c :: pre, m, rest, by rw [htoks]; rfl, ?_⟩
            rw [← h, List.length_cons, List.length_cons]
            omega

/-! ## The template's delimiters -/

omit [Platform] in
theorem inner_delimiter {sl n : Str} (hsl : sl = [] ∨ sl = ['/']) (hn : n ∈ tagNames) : Inner (sl ++ n) := by
  have hself : List.Forall₂ (fun a c => Re.eqIgnoreCase a c = true) n n := by
    have hall : tagNames.all (fun n => n.all fun c => Re.eqIgnoreCase c c) = true := by decide
    exact List.forall₂_same.mpr (List.all_eq_true.mp (List.all_eq_true.mp hall n hn))
  exact ⟨sl, [], n, rfl, hsl, by simp, n, hn, hself⟩

theorem opens_delimiter {sl n : Str} (hsl : sl = [] ∨ sl = ['/']) (hn : n ∈ tagNames) (r : Str) :
    opens ('<' :: (sl ++ n) ++ '>' :: r) = true :=
  opens_iff.mpr ⟨sl ++ n, '>' :: r, by simp, inner_delimiter hsl hn, by simp [isWord_bracket (show bracket '>' = true by decide)]⟩

theorem toks_delimiter {sl n : Str} (hsl : sl = [] ∨ sl = ['/']) (hn : n ∈ tagNames) (r : Str) :
    toks ('<' :: (sl ++ n) ++ '>' :: r) = .inr ('<' :: (sl ++ n) ++ ['>']) :: toks r := by
  have hgt : ∀ c ∈ '<' :: (sl ++ n), (c != '>') = true := by
    intro c hc
    rcases List.mem_cons.mp hc with rfl | hc
    · decide
    · have := (inner_delimiter hsl hn).no_bracket c hc
      simp only [bracket, Bool.or_eq_false_iff] at this
      simpa using this.1.1.2
  rw [List.cons_append, toks_cons, if_pos ⟨opens_delimiter hsl hn r, by simp⟩, ← List.cons_append]
  have hup : upto ('<' :: (sl ++ n) ++ '>' :: r) = '<' :: (sl ++ n) ++ ['>'] := by
    rw [upto, List.takeWhile_append_of_pos hgt]
    simp
  have hbe : beyond ('<' :: (sl ++ n) ++ '>' :: r) = r := by
    rw [beyond, List.dropWhile_append_of_pos hgt]
    simp
  rw [hup, hbe]

/-- The template's four delimiters, where they stand when the fields have these lengths. -/
def delimiters (text location : Str) : List (Nat × Str) :=
  [(0, "<location>".toList), (10 + location.length, "</location>".toList),
    (22 + location.length, "<complaint>".toList), (35 + location.length + text.length, "</complaint>".toList)]

/-- What follows each field in the template. -/
def afterText : Str := "\n</complaint>\nReturn the JSON object now.".toList

def afterLocation (text : Str) : Str := "</location>\n<complaint>\n".toList ++ (sanitize text ++ afterText)

omit [Platform] in
theorem template_afterText : Template afterText := ⟨['\n'], afterText.drop 2, rfl, .inr rfl⟩

theorem template_afterLocation (text : Str) : Template (afterLocation text) :=
  ⟨[], (afterLocation text).drop 1, rfl, .inl rfl⟩

theorem toks_plain {a : Str} (h : '<' ∉ a) : toks a = a.map .inl := by
  have := toks_append h []
  rwa [List.append_nil, show toks [] = [] from rfl, List.append_nil] at this

theorem toks_afterText :
    toks afterText = .inl '\n' :: .inr "</complaint>".toList :: "\nReturn the JSON object now.".toList.map .inl := by
  have he : afterText =
      ['\n'] ++ ('<' :: (['/'] ++ "complaint".toList) ++ '>' :: "\nReturn the JSON object now.".toList) := rfl
  rw [he, toks_append (by decide), toks_delimiter (.inr rfl) (by decide), toks_plain (by decide)]
  rfl

theorem toks_afterLocation (text : Str) :
    toks (afterLocation text) = .inr "</location>".toList :: .inl '\n' :: .inr "<complaint>".toList :: .inl '\n' ::
      toks (sanitize text ++ afterText) := by
  have he : afterLocation text = '<' :: (['/'] ++ "location".toList) ++ '>' :: (['\n'] ++
      ('<' :: ([] ++ "complaint".toList) ++ '>' :: (['\n'] ++ (sanitize text ++ afterText)))) := rfl
  rw [he, toks_delimiter (.inr rfl) (by decide), toks_append (by decide), toks_delimiter (.inl rfl) (by decide),
    toks_append (by decide)]
  rfl

theorem buildUserPrompt_eq (text location : Str) :
    buildUserPrompt text location = "<location>".toList ++ (sanitize location ++ afterLocation text) := by
  unfold buildUserPrompt afterLocation afterText
  rw [List.append_assoc, List.append_assoc, List.append_assoc]

theorem toks_prompt (text location : Str) :
    toks (buildUserPrompt text location) =
      .inr "<location>".toList :: toks (sanitize location ++ afterLocation text) := by
  have hd : "<location>".toList = '<' :: ([] ++ "location".toList) ++ ['>'] := by decide
  rw [buildUserPrompt_eq, hd, List.append_assoc, List.singleton_append]
  exact toks_delimiter (.inl rfl) (by decide) _

/-- The tags of the built prompt are the template's delimiters, at their places, exactly
    when no field leaves a tag open. -/
theorem prompt_delimiters_iff (text location : Str) :
    tag.finditer (buildUserPrompt text location) = delimiters text location ↔ ¬ Open location ∧ ¬ Open text := by
  have hprompt : tag.finditer (buildUserPrompt text location) =
      (0, "<location>".toList) :: Re.spans 10 (toks (sanitize location ++ afterLocation text)) := by
    show Re.spans 0 (toks _) = _
    rw [toks_prompt]
    rfl
  rw [hprompt]
  by_cases hl : Open location
  · -- the second tag starts inside the location
    refine iff_of_false ?_ fun h => h.1 hl
    obtain ⟨pre, m, rest, htoks, hlen⟩ := toks_open hl (template_afterLocation text)
      (List.mem_append_left _ (by decide))
    rw [htoks, Re.spans_inl, delimiters]
    intro h
    have := (Prod.mk.inj (List.cons.inj (List.cons.inj h).2).1).1
    omega
  · have hloc : Re.spans 10 (toks (sanitize location ++ afterLocation text)) =
        (10 + location.length, "</location>".toList) :: (22 + location.length, "<complaint>".toList) ::
          Re.spans (34 + location.length) (toks (sanitize text ++ afterText)) := by
      rw [toks_closed hl (template_afterLocation text), Re.spans_inl, length_sanitize, toks_afterLocation]
      simp only [Re.spans, List.cons.injEq, Prod.mk.injEq, and_true, true_and]
      refine ⟨?_, ?_⟩
      · show 10 + location.length + 11 + 1 = _
        omega
      · have he : 10 + location.length + 11 + 1 + 11 + 1 = 34 + location.length := by omega
        exact congrArg (Re.spans · _) he
    rw [hloc]
    by_cases ht : Open text
    · refine iff_of_false ?_ fun h => h.2 ht
      obtain ⟨pre, m, rest, htoks, hlen⟩ := toks_open ht template_afterText (by decide)
      rw [htoks, Re.spans_inl, delimiters]
      intro h
      have := (Prod.mk.inj (List.cons.inj (List.cons.inj (List.cons.inj (List.cons.inj h).2).2).2).1).1
      omega
    · refine iff_of_true ?_ ⟨hl, ht⟩
      have hend : ∀ n (s : Str), Re.spans n (s.map .inl) = [] := fun n s => by
        have := Re.spans_inl n s []
        rwa [List.append_nil] at this
      rw [toks_closed ht template_afterText, Re.spans_inl, length_sanitize, toks_afterText, delimiters]
      simp only [Re.spans, hend, List.cons.injEq, Prod.mk.injEq, and_true, true_and]
      omega

omit [Platform] in
/-- A location that opens a tag takes the template's `</location>` with it. -/
theorem prompt_delimiters_fail :
    @Re.finditer (@tag .ascii)
      (@buildUserPrompt .ascii "The street lamp is broken".toList "G-11 <system".toList) ≠
        delimiters "The street lamp is broken".toList "G-11 <system".toList := by
  decide +kernel

end Prompt

end CivicPulse
