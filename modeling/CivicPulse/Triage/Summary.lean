/-
  CivicPulse.Triage.Summary — for which complaints the keyword classifier has an answer.

  The summary's validator accepts one line. White space in the text is collapsed, but the
  location goes into the summary with the line breaks it has inside, as far as they are
  left of the cut at 139 characters.
  - `mem_ws_sub`: the collapsed text has no white space but single spaces.
  - `mem_strip_summaryOf`: a line break of the validated summary is one of the location.
  - `triage_isOk_iff`: the validator's verdict on the built summary.
  - `rules_answer_iff`: the classifier answers exactly when the shown part of the location
    is one line; `rules_refuse_line_break` is a location that is not.
-/

import CivicPulse.Triage.Rules

namespace CivicPulse.Rules

open Text

/-! ## Collapsed white space -/

theorem matchAt_ws {c : Char} (hc : isSpace c = true) (prev : Option Char) (s : Str) :
    ∃ q, ws.matchAt (prev, c :: s) = some q ∧ q.2 <:+ s := by
  have hfirst : (Re.set isSpace).matchAt (prev, c :: s) = some (some c, s) := Re.matchAt_set hc
  exact ⟨_, Re.matchAt_seq hfirst (Re.matchAt_run s), List.dropWhile_suffix isSpace⟩

/-- A character outside the matches is one of the text, and no white space. -/
theorem mem_tokens {c : Char} (n : Nat) : ∀ (q : Re.Pos), q.2.length ≤ n → .inl c ∈ ws.tokensFrom q →
    isSpace c = false ∧ c ∈ q.2 := by
  induction n with
  | zero =>
    intro q hq h
    obtain ⟨prev, s⟩ := q
    obtain rfl : s = [] := List.length_eq_zero_iff.mp (Nat.le_zero.mp hq)
    rw [Re.tokensFrom_nil] at h
    cases h
  | succ n ih =>
    intro q hq h
    obtain ⟨prev, s⟩ := q
    rcases s with _ | ⟨d, s⟩
    · rw [Re.tokensFrom_nil] at h
      cases h
    · have hs : s.length ≤ n := by simpa using hq
      rw [Re.tokens_cons] at h
      by_cases hd : isSpace d = true
      · obtain ⟨q, hm, hsuff⟩ := matchAt_ws hd prev s
        simp only [hm, hsuff.length_le, if_true, List.mem_cons, reduceCtorEq, false_or] at h
        obtain ⟨hc, hmem⟩ := ih q (hsuff.length_le.trans hs) h
        exact ⟨hc, List.mem_cons_of_mem _ (hsuff.subset hmem)⟩
      · have hm : ws.matchAt (prev, d :: s) = none := by simp [Re.matchAt, ws, Re.ends, hd]
        simp only [hm, List.mem_cons, Sum.inl.injEq] at h
        rcases h with h | h
        · rw [h]
          exact ⟨by simpa using hd, List.mem_cons_self⟩
        · obtain ⟨hc, hmem⟩ := ih (some d, s) hs h
          exact ⟨hc, List.mem_cons_of_mem _ hmem⟩

theorem mem_ws_sub {s : Str} {c : Char} (h : c ∈ ws.sub (fun _ => [' ']) s) : (isSpace c = false ∧ c ∈ s) ∨ c = ' ' := by
  obtain ⟨t, ht, hc⟩ := List.mem_flatMap.mp h
  cases t with
  | inl d =>
    obtain rfl : c = d := by simpa using hc
    exact .inl (mem_tokens _ _ (Nat.le_refl _) ht)
  | inr m => exact .inr (by simpa using hc)

/-! ## The cut -/

/-- A break that is neither before nor behind the location is one of the part of the
    location that the cut leaves. -/
theorem mem_rstrip_take {a l r : Str} {c : Char} (ha : c ∉ a) (hr : c ∉ ':' :: r) (hl : rstrip l = l) (n : Nat) :
    c ∈ rstrip ((a ++ (l ++ ':' :: r)).take n) ↔ c ∈ rstrip (l.take (n - a.length)) := by
  have ha' : c ∉ a.take n := fun h => ha (List.mem_of_mem_take h)
  rw [List.take_append, rstrip, mem_rdropWhile_append ha', List.take_append]
  rcases hm : n - a.length - l.length with _ | m
  · rw [List.take_zero, List.append_nil]
    rfl
  · have hlen : l.length ≤ n - a.length := by omega
    have hr' : c ∉ ':' :: (r.take m).rdropWhile isSpace := by
      intro h
      rcases List.mem_cons.mp h with h | h
      · exact hr (h ▸ List.mem_cons_self)
      · exact hr (List.mem_cons_of_mem _ (List.mem_of_mem_take ((List.rdropWhile_prefix _ _).subset h)))
    rw [List.take_of_length_le hlen, List.take_succ_cons, rdropWhile_append_cons (by decide), hl]
    simp only [List.mem_append, hr', or_false]

/-- What stands before the location. -/
def head (category : Category) : Str := capitalize (value category) ++ " issue at ".toList

/-- The part of a location that a cut summary still shows. -/
def shown (category : Category) (location : Str) : Str :=
  rstrip ((strip location).take (SUMMARY_MAX - 1 - (head category).length))

theorem head_cons (category : Category) : ∃ d s, head category = d :: s ∧ isSpace d = false := by
  cases category <;> exact ⟨_, _, rfl, by decide⟩

theorem not_mem_head (category : Category) {c : Char} (hc : isSpace c = true) (hne : c ≠ ' ') : c ∉ head category := by
  have hall : (head category).all (fun d => !isSpace d || d == ' ') = true := by cases category <;> decide
  intro hm
  have := List.all_eq_true.mp hall c hm
  simp [hc, hne] at this

theorem nul_not_mem_head (category : Category) : '\x00' ∉ head category := by cases category <;> decide

/-- Where the validated summary breaks a line, the shown part of the location does. -/
theorem mem_strip_summaryOf (category : Category) (text location : Str) {c : Char} (hc : isSpace c = true)
    (hne : c ≠ ' ') : c ∈ strip (summaryOf category text location) ↔ c ∈ shown category location := by
  obtain ⟨d, s, hd, hds⟩ := head_cons category
  have hhead : c ∉ head category := not_mem_head category hc hne
  have htail : c ∉ ':' :: ' ' :: strip (ws.sub (fun _ => [' ']) text) := by
    intro h
    rcases List.mem_cons.mp h with h | h
    · exact absurd (h ▸ hc) (by decide)
    rcases List.mem_cons.mp h with h | h
    · exact hne h
    · rcases mem_ws_sub (mem_of_mem_stripBy h) with ⟨h, -⟩ | h
      · rw [hc] at h
        cases h
      · exact hne h
  have hfull : capitalize (value category) ++ " issue at ".toList ++ strip location ++ ": ".toList ++
      strip (ws.sub (fun _ => [' ']) text) =
      head category ++ (strip location ++ ':' :: ' ' :: strip (ws.sub (fun _ => [' ']) text)) := by
    simp [head]
  have hcut := mem_rstrip_take hhead htail (show rstrip (strip location) = strip location from rdropWhile_stripBy location)
  simp only [summaryOf, hfull]
  clear htail hfull
  generalize ' ' :: strip (ws.sub (fun _ => [' ']) text) = rest at hcut ⊢
  split
  · -- the summary is cut: nothing more is stripped from it
    have hkeep : ∀ x : Str, strip (rstrip (d :: x) ++ ['…']) = rstrip (d :: x) ++ ['…'] := by
      intro x
      have hx : rstrip (d :: x) = d :: rstrip x := rdropWhile_append_cons hds [] x
      rw [hx]
      exact (stripBy_cons hds _).trans (rdropWhile_append_cons (by decide) (d :: rstrip x) [])
    have htake : (head category ++ (strip location ++ ':' :: rest)).take (SUMMARY_MAX - 1) =
        d :: (s ++ (strip location ++ ':' :: rest)).take (SUMMARY_MAX - 2) := by
      rw [hd]
      rfl
    have hdots : c ∉ ['…'] := by
      intro h
      obtain rfl : c = '…' := by simpa using h
      exact absurd hc (by decide)
    rw [htake, hkeep, List.mem_append, or_iff_left hdots, ← htake]
    exact hcut _
  · -- it is whole, and so is the location in it
    rename_i hshort
    have hall := hcut (head category ++ (strip location ++ ':' :: rest)).length
    have hstrip : strip (head category ++ (strip location ++ ':' :: rest)) =
        rstrip (head category ++ (strip location ++ ':' :: rest)) := by
      rw [hd]
      exact stripBy_cons hds _
    simp only [List.length_append, List.length_cons] at hshort
    rw [List.take_length, List.take_of_length_le (by simp only [List.length_append, List.length_cons]; omega)] at hall
    rw [hstrip, hall, shown, List.take_of_length_le (by omega)]

/-- What a summary is made of. -/
theorem mem_summaryOf {category : Category} {text location : Str} {c : Char} (h : c ∈ summaryOf category text location) :
    c ∈ head category ∨ c ∈ location ∨ c ∈ text ∨ c ∈ [':', ' ', '…'] := by
  have hfull : c ∈ head category ++ strip location ++ ": ".toList ++ strip (ws.sub (fun _ => [' ']) text) ∨ c = '…' := by
    simp only [summaryOf] at h
    split at h
    · rcases List.mem_append.mp h with h | h
      · exact .inl (List.mem_of_mem_take ((List.rdropWhile_prefix _ _).subset h))
      · exact .inr (List.mem_singleton.mp h)
    · exact .inl h
  simp only [List.mem_append] at hfull
  rcases hfull with (((h | h) | h) | h) | h
  · exact .inl h
  · exact .inr (.inl (mem_of_mem_stripBy h))
  · exact .inr (.inr (.inr (List.mem_append_left ['…'] h)))
  · rcases mem_ws_sub (mem_of_mem_stripBy h) with ⟨-, h⟩ | rfl
    · exact .inr (.inr (.inl h))
    · exact .inr (.inr (.inr (by decide)))
  · rw [h]
    exact .inr (.inr (.inr (by decide)))

/-! ## The validator -/

theorem length_summaryOf (category : Category) (text location : Str) :
    (summaryOf category text location).length ≤ SUMMARY_MAX := by
  simp only [summaryOf]
  split
  · have hcut := (length_rstrip_le ((capitalize (value category) ++ " issue at ".toList ++ strip location ++ ": ".toList ++
      strip (ws.sub (fun _ => [' ']) text)).take (SUMMARY_MAX - 1))).trans (List.length_take_le _ _)
    rw [List.length_append, List.length_singleton]
    simp only [SUMMARY_MAX] at hcut ⊢
    omega
  · omega

theorem strip_summaryOf_ne_nil (category : Category) (text location : Str) :
    strip (summaryOf category text location) ≠ [] := by
  obtain ⟨d, s, hd, hds⟩ := head_cons category
  -- the first letter of the category stays
  have hfirst : ∃ t, summaryOf category text location = d :: t := by
    simp only [summaryOf, show capitalize (value category) ++ " issue at ".toList = d :: s from hd, List.cons_append]
    split
    · refine ⟨_, congrArg (· ++ ['…']) (rdropWhile_append_cons hds [] _)⟩
    · exact ⟨_, rfl⟩
  obtain ⟨t, ht⟩ := hfirst
  intro h
  rw [ht, strip, stripBy_cons hds, show (d :: t).rdropWhile isSpace = d :: t.rdropWhile isSpace from
    rdropWhile_append_cons hds [] t] at h
  cases h

theorem confidenceOf_bounds (category : Category) (matched : Nat) :
    (confidenceOf category matched).geZero = true ∧ (confidenceOf category matched).leOne = true := by
  unfold confidenceOf
  split
  · exact ⟨rfl, rfl⟩
  · constructor
    · have hmin : 0 ≤ min 9 (5 + (matched : Int)) := by omega
      show (decide (0 ≤ min 9 (5 + (matched : Int))) || _) = true
      rw [decide_eq_true hmin, Bool.true_or]
    · have hmin : (min 9 (5 + (matched : Int))).toNat ≤ 9 := by omega
      show decide ((min 9 (5 + (matched : Int))).toNat * 2 ^ 53 ≤ (2 ^ 53 + 1) * 10 ^ (0 + 1)) = true
      rw [decide_eq_true_eq]
      omega

/-- Of the validator's checks only the one for line breaks can fail. -/
theorem triage_isOk_iff [Platform] (text location : Str) : (∃ r, triage text location = .ok r) ↔
    '\n' ∉ strip (summaryOf (categoryOf (lower text)) text location) ∧
      '\r' ∉ strip (summaryOf (categoryOf (lower text)) text location) := by
  have hlen := length_summaryOf (categoryOf (lower text)) text location
  have hne := strip_summaryOf_ne_nil (categoryOf (lower text)) text location
  have hconf := confidenceOf_bounds (categoryOf (lower text)) (score (lower text) (KEYWORDS (best (lower text))))
  simp only [triage, TriageResult.ofFields, dif_pos hlen]
  constructor
  · intro h
    obtain ⟨r, h⟩ := h
    split at h
    · assumption
    · cases h
  · intro h
    rw [dif_pos h, dif_pos hne, dif_pos hconf]
    exact ⟨_, rfl⟩

/-- The classifier answers an accepted complaint, with a summary of one line, exactly when
    what the summary shows of the location is one line. -/
theorem rules_answer_iff [Platform] (data : ComplaintCreate) :
    (∃ r, triage data.text.str data.location.str = .ok r ∧ r.summary ≠ [] ∧ r.summary.length ≤ SUMMARY_MAX ∧
      '\n' ∉ r.summary ∧ '\r' ∉ r.summary) ↔
    '\n' ∉ shown (categoryOf (lower data.text.str)) data.location.str ∧
      '\r' ∉ shown (categoryOf (lower data.text.str)) data.location.str := by
  have hn := mem_strip_summaryOf (categoryOf (lower data.text.str)) data.text.str data.location.str (c := '\n')
    (by decide) (by decide)
  have hr := mem_strip_summaryOf (categoryOf (lower data.text.str)) data.text.str data.location.str (c := '\r')
    (by decide) (by decide)
  rw [← hn, ← hr, ← triage_isOk_iff]
  constructor
  · intro h
    obtain ⟨r, h, -⟩ := h
    exact ⟨r, h⟩
  · intro h
    obtain ⟨r, h⟩ := h
    exact ⟨r, h, r.ne_nil, r.length_le, r.oneLine⟩

/-! ## A location on two lines -/

def twoLines : Json := .obj [(codes "text".toList, .str (codes "Water pipe burst".toList)),
  (codes "location".toList, .str (codes "G-11/3\nStreet 12".toList))]

theorem rules_refuse_line_break : ∃ data, ComplaintCreate.modelValidate twoLines = .ok data ∧
    @triage Platform.ascii data.text.str data.location.str = .error .validationError := by
  refine ⟨⟨⟨"Water pipe burst".toList, by decide, by decide, by decide⟩,
    ⟨"G-11/3\nStreet 12".toList, by decide, by decide, by decide⟩, none⟩, by decide +kernel, ?_⟩
  have hcat : categoryOf ((@lower Platform.ascii) "Water pipe burst".toList) = .water := by decide +kernel
  have hbreak : '\n' ∈ strip (summaryOf .water "Water pipe burst".toList "G-11/3\nStreet 12".toList) :=
    (mem_strip_summaryOf .water _ _ (by decide) (by decide)).mpr (by decide +kernel)
  simp only [triage, hcat, TriageResult.ofFields, dif_pos (length_summaryOf _ _ _)]
  rw [dif_neg fun h => h.1 hbreak]

end CivicPulse.Rules
