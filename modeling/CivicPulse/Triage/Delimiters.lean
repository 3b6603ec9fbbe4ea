/-
  CivicPulse.Triage.Delimiters — the four delimiters, read as literal strings, in the built
  prompt.

  - `occurrences_field`: no delimiter starts inside a sanitized field, nor in one and on into
    the template after it.
  - `occurrences_delimiter`: among the delimiters, each starts only where it stands.
  - `prompt_cut_out`: so each occurs once, and both fields can be cut out of the prompt again.
-/

import CivicPulse.Text.Occurrences
import CivicPulse.Triage.Guardrail

namespace CivicPulse

open Text

namespace Prompt

def delimiterTexts : List Str :=
  ["<location>".toList, "</location>".toList, "<complaint>".toList, "</complaint>".toList]

theorem delimiter_shape {d : Str} (hd : d ∈ delimiterTexts) :
    ∃ sl n, d = '<' :: (sl ++ n) ++ ['>'] ∧ (sl = [] ∨ sl = ['/']) ∧ n ∈ tagNames := by
  simp only [delimiterTexts, List.mem_cons, List.not_mem_nil, or_false] at hd
  rcases hd with rfl | rfl | rfl | rfl
  · exact ⟨[], "location".toList, by decide, .inl rfl, by decide⟩
  · exact ⟨['/'], "location".toList, by decide, .inr rfl, by decide⟩
  · exact ⟨[], "complaint".toList, by decide, .inl rfl, by decide⟩
  · exact ⟨['/'], "complaint".toList, by decide, .inr rfl, by decide⟩

/-- One `<`, at the start, and no line feed. -/
theorem delimiter_tail {d : Str} (hd : d ∈ delimiterTexts) : ∃ w, d = '<' :: w ∧ '<' ∉ w ∧ '\n' ∉ w := by
  have hall : ∀ d ∈ delimiterTexts, d = '<' :: d.tail ∧ '<' ∉ d.tail ∧ '\n' ∉ d.tail := by decide
  exact ⟨d.tail, hall d hd⟩

/-! ## Counting -/

section Field

variable [Platform]

theorem field_no_delimiter {v a b r d : Str} (hd : d ∈ delimiterTexts) (hr : Template r) (h : sanitize v = a ++ b)
    (hb : b ≠ []) : ¬ d <+: b ++ r := by
  obtain ⟨sl, n, hshape, hsl, hn⟩ := delimiter_shape hd
  -- a delimiter inside the field would be a tag that sanitizing left
  have hinside : ∀ t, b ≠ d ++ t := by
    intro t hbt
    have hbt' : b = '<' :: (sl ++ n) ++ '>' :: t := by
      rw [hbt, hshape, List.append_assoc]
      rfl
    exact sanitize_closed h ⟨hbt' ▸ opens_delimiter hsl hn t, by rw [hbt']; simp⟩
  intro hp
  obtain ⟨t, ht⟩ := hp
  rcases List.append_eq_append_iff.mp ht with ⟨y, hy, -⟩ | ⟨y, hy, hy'⟩
  · exact hinside y hy
  · rcases y with _ | ⟨c, y⟩
    · exact hinside [] (by rw [List.append_nil, ← List.append_nil b, hy])
    · -- it would go on with the template's first character, which it holds only at its start
      obtain ⟨w, hw, hlt, hnl⟩ := delimiter_tail hd
      obtain ⟨e, b, rfl⟩ := List.exists_cons_of_ne_nil hb
      have hcw : c ∈ w := by
        rw [hw] at hy
        rw [(List.cons.inj hy).2]
        simp
      obtain ⟨sp, u, hru, hsp⟩ := hr
      rw [hru] at hy'
      rcases hsp with rfl | rfl
      · obtain rfl : '<' = c := (List.cons.inj hy').1
        exact hlt hcw
      · obtain rfl : '\n' = c := (List.cons.inj hy').1
        exact hnl hcw

theorem occurrences_field {d r : Str} (hd : d ∈ delimiterTexts) (hr : Template r) (v : Str) :
    occurrences d (sanitize v ++ r) = occurrences d r := by
  suffices ∀ a b, sanitize v = a ++ b → occurrences d (b ++ r) = occurrences d r from this [] _ rfl
  intro a b h
  induction b generalizing a with
  | nil => rfl
  | cons c b ih =>
    have hno : ¬ d <+: c :: (b ++ r) := field_no_delimiter hd hr h (List.cons_ne_nil c b)
    rw [List.cons_append, occurrences_cons, if_neg hno, Nat.add_zero]
    exact ih (a ++ [c]) (by rw [h, List.append_assoc]; rfl)

end Field

/-- None of the delimiters begins another. -/
theorem delimiter_prefix {d e : Str} (hd : d ∈ delimiterTexts) (he : e ∈ delimiterTexts) (s : Str) :
    d <+: e ++ s ↔ d = e := by
  have hall : ∀ d ∈ delimiterTexts, ∀ e ∈ delimiterTexts, d <+: e → d = e := by decide
  constructor
  · intro h
    rcases List.prefix_or_prefix_of_prefix h (List.prefix_append e s) with h | h
    · exact hall d hd e he h
    · exact (hall e he d hd h).symm
  · intro h
    rw [h]
    exact List.prefix_append e s

theorem occurrences_delimiter {d e : Str} (hd : d ∈ delimiterTexts) (he : e ∈ delimiterTexts) (s : Str) :
    occurrences d (e ++ s) = occurrences d s + if d = e then 1 else 0 := by
  have hhead := delimiter_prefix hd he s
  obtain ⟨w, rfl, -⟩ := delimiter_tail hd
  obtain ⟨x, rfl, hx, -⟩ := delimiter_tail he
  rw [List.cons_append] at hhead
  rw [List.cons_append, occurrences_cons, occurrences_skip hx]
  simp only [hhead]

theorem occurrences_plain {d a : Str} (hd : d ∈ delimiterTexts) (ha : '<' ∉ a) (s : Str) :
    occurrences d (a ++ s) = occurrences d s := by
  obtain ⟨w, rfl, -⟩ := delimiter_tail hd
  exact occurrences_skip ha

theorem occurrences_afterText {d : Str} (hd : d ∈ delimiterTexts) :
    occurrences d afterText = if d = "</complaint>".toList then 1 else 0 := by
  have he : afterText = ['\n'] ++ ("</complaint>".toList ++ ("\nReturn the JSON object now.".toList ++ [])) := by decide
  have hnil : occurrences d [] = 0 := by
    obtain ⟨w, rfl, -⟩ := delimiter_tail hd
    exact occurrences_nil
  rw [he, occurrences_plain hd (by decide), occurrences_delimiter hd (by decide), occurrences_plain hd (by decide), hnil,
    Nat.zero_add]

variable [Platform]

/-- Each delimiter starts in the prompt where the template has it, and nowhere else. -/
theorem occurrences_prompt {d : Str} (hd : d ∈ delimiterTexts) (text location : Str) :
    occurrences d (buildUserPrompt text location) = 1 := by
  have hloc : afterLocation text = "</location>".toList ++ (['\n'] ++ ("<complaint>".toList ++ (['\n'] ++
      (sanitize text ++ afterText)))) := rfl
  have hcount : occurrences d (buildUserPrompt text location) =
      (((if d = "</complaint>".toList then 1 else 0) + if d = "<complaint>".toList then 1 else 0) +
        if d = "</location>".toList then 1 else 0) + if d = "<location>".toList then 1 else 0 := by
    rw [buildUserPrompt_eq, occurrences_delimiter hd (by decide), occurrences_field hd (template_afterLocation text), hloc,
      occurrences_delimiter hd (by decide), occurrences_plain hd (by decide), occurrences_delimiter hd (by decide),
      occurrences_plain hd (by decide), occurrences_field hd template_afterText, occurrences_afterText hd]
  rw [hcount]
  clear hcount hloc
  simp only [delimiterTexts, List.mem_cons, List.not_mem_nil, or_false] at hd
  rcases hd with rfl | rfl | rfl | rfl <;> decide

/-! ## Cutting the fields out -/

theorem between_location (text location m : Str) :
    Between "<location>".toList "</location>".toList (buildUserPrompt text location) m ↔ m = sanitize location := by
  have hb : Between "<location>".toList "</location>".toList (buildUserPrompt text location) (sanitize location) :=
    ⟨[], (afterLocation text).drop 11, buildUserPrompt_eq text location⟩
  exact between_iff (by decide) (occurrences_prompt (by decide) text location) (occurrences_prompt (by decide) text location) hb

theorem between_complaint (text location m : Str) :
    Between "<complaint>".toList "</complaint>".toList (buildUserPrompt text location) m ↔
      m = ['\n'] ++ sanitize text ++ ['\n'] := by
  have hb : Between "<complaint>".toList "</complaint>".toList (buildUserPrompt text location)
      (['\n'] ++ sanitize text ++ ['\n']) := by
    refine ⟨"<location>".toList ++ (sanitize location ++ "</location>\n".toList), "\nReturn the JSON object now.".toList, ?_⟩
    have hloc : afterLocation text = "</location>\n".toList ++ ("<complaint>".toList ++ (['\n'] ++
        (sanitize text ++ afterText))) := rfl
    have htext : afterText = ['\n'] ++ ("</complaint>".toList ++ "\nReturn the JSON object now.".toList) := rfl
    rw [buildUserPrompt_eq, hloc, htext]
    simp only [List.append_assoc]
  exact between_iff (by decide) (occurrences_prompt (by decide) text location) (occurrences_prompt (by decide) text location) hb

/-- Two prompts are the same exactly when the sanitized fields are. -/
theorem prompt_eq_iff (text location text' location' : Str) :
    buildUserPrompt text location = buildUserPrompt text' location' ↔
      sanitize text = sanitize text' ∧ sanitize location = sanitize location' := by
  constructor
  · intro h
    have hloc := (between_location text location _).mpr rfl
    have htext := (between_complaint text location _).mpr rfl
    rw [h] at hloc htext
    have ht := (between_complaint text' location' _).mp htext
    exact ⟨List.append_cancel_left (List.append_cancel_right ht), (between_location text' location' _).mp hloc⟩
  · intro h
    unfold buildUserPrompt
    rw [h.1, h.2]

/-- Each delimiter occurs once in the prompt, what lies between each pair is the field that
    was put there, and so the prompt determines the sanitized fields. -/
theorem prompt_cut_out (text location : Str) :
    (∀ d ∈ delimiterTexts, occurrences d (buildUserPrompt text location) = 1) ∧
      (∀ m, Between "<location>".toList "</location>".toList (buildUserPrompt text location) m ↔ m = sanitize location) ∧
      (∀ m, Between "<complaint>".toList "</complaint>".toList (buildUserPrompt text location) m ↔
        m = ['\n'] ++ sanitize text ++ ['\n']) ∧
      ∀ text' location', buildUserPrompt text location = buildUserPrompt text' location' ↔
        sanitize text = sanitize text' ∧ sanitize location = sanitize location' :=
  ⟨fun _ hd => occurrences_prompt hd text location, between_location text location, between_complaint text location,
    prompt_eq_iff text location⟩

end Prompt

end CivicPulse
