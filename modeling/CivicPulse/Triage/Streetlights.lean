/-
  CivicPulse.Triage.Streetlights — which category wins a tie
  (`app/providers/triage/rules.py`).

  `max` returns the first category with the highest score, and STREETLIGHTS is declared
  last, so it loses every tie; the comment above the scores wants it to win over "electric".
  - `best_argmax`: the winner is the first maximum in declaration order.
  - `categoryOf_streetlights_iff`: the last category wins only with more matches than each
    of the others.
  - `streetlights_win_iff`: of the texts in which no category matches more keywords than
    STREETLIGHTS, it wins exactly those without a tie; `streetlights_lose_tie` has one.
-/

import Mathlib.Data.List.MinMax
import CivicPulse.Triage.Summary

namespace CivicPulse.Rules

open Text

/-! ## The winner -/

theorem foldl_argAux_some {α : Type*} (f : α → Nat) (l : List α) (b : α) :
    l.foldl (List.argAux fun b c => f c < f b) (some b) = some (l.foldl (fun b c => if f b < f c then c else b) b) := by
  induction l generalizing b with
  | nil => rfl
  | cons c l ih =>
    have hstep : List.argAux (fun b c => f c < f b) (some b) c = some (if f b < f c then c else b) := by
      show (if f b < f c then some c else some b) = _
      split <;> rfl
    rw [List.foldl_cons, hstep, ih]
    rfl

theorem best_argmax (lowered : Str) :
    scoredCategories.argmax (fun c => score lowered (KEYWORDS c)) = some (best lowered) := by
  let worse : Category → Category → Prop := fun b c => score lowered (KEYWORDS c) < score lowered (KEYWORDS b)
  -- starting at WATER is starting with nothing, since it is the first key
  have hself : List.argAux worse (some .water) .water = some .water :=
    List.argAux_self worse ⟨fun c => Nat.lt_irrefl (score lowered (KEYWORDS c))⟩ _
  calc scoredCategories.argmax (fun c => score lowered (KEYWORDS c))
      = scoredCategories.tail.foldl (List.argAux worse) (some .water) := rfl
    _ = scoredCategories.tail.foldl (List.argAux worse) (List.argAux worse (some .water) .water) := by rw [hself]
    _ = scoredCategories.foldl (List.argAux worse) (some .water) := rfl
    _ = some (best lowered) := foldl_argAux_some (fun c => score lowered (KEYWORDS c)) scoredCategories .water

theorem mem_scoredCategories {c : Category} (h : c ≠ .other) : c ∈ scoredCategories := by
  cases c <;> first | exact absurd rfl h | decide

theorem score_other (lowered : Str) : score lowered (KEYWORDS .other) = 0 := rfl

theorem score_le_best (lowered : Str) (c : Category) :
    score lowered (KEYWORDS c) ≤ score lowered (KEYWORDS (best lowered)) := by
  by_cases hc : c = .other
  · rw [hc, score_other]
    exact Nat.zero_le _
  · exact List.le_of_mem_argmax (f := fun c => score lowered (KEYWORDS c)) (mem_scoredCategories hc) (best_argmax lowered)

/-- The last declared category wins over those with fewer matches only. -/
theorem best_streetlights_iff {lowered : Str} (h : 0 < score lowered (KEYWORDS .streetlights)) :
    best lowered = .streetlights ↔
      ∀ c ≠ Category.streetlights, score lowered (KEYWORDS c) < score lowered (KEYWORDS .streetlights) := by
  have hmax := best_argmax lowered
  rw [show scoredCategories = [.water, .electricity, .sanitation, .roads] ++ [.streetlights] from rfl,
    List.argmax_concat] at hmax
  constructor
  · intro hb c hc
    rcases he : List.argmax (fun c => score lowered (KEYWORDS c)) [.water, .electricity, .sanitation, .roads] with _ | m
    · exact absurd (List.argmax_eq_none.mp he) (by decide)
    · have hm := List.argmax_mem he
      rw [he, hb] at hmax
      -- the first four's winner was replaced, so it scored less
      have hlt : score lowered (KEYWORDS m) < score lowered (KEYWORDS .streetlights) := by
        by_contra hge
        have hsome : some m = some Category.streetlights := by simpa only [if_neg hge] using hmax
        rw [Option.some.inj hsome] at hm
        exact absurd hm (by decide)
      by_cases ho : c = .other
      · rw [ho, score_other]
        exact h
      · have hin : c ∈ [Category.water, .electricity, .sanitation, .roads] := by
          cases c <;> first | exact absurd rfl hc | exact absurd rfl ho | decide
        exact Nat.lt_of_le_of_lt (List.le_of_mem_argmax (f := fun c => score lowered (KEYWORDS c)) hin he) hlt
  · intro hlt
    by_contra hb
    exact absurd (score_le_best lowered .streetlights) (Nat.not_le.mpr (hlt _ hb))

theorem categoryOf_streetlights_iff {lowered : Str} (h : 0 < score lowered (KEYWORDS .streetlights)) :
    categoryOf lowered = .streetlights ↔
      ∀ c ≠ Category.streetlights, score lowered (KEYWORDS c) < score lowered (KEYWORDS .streetlights) := by
  have hpos : 0 < score lowered (KEYWORDS (best lowered)) := Nat.lt_of_lt_of_le h (score_le_best lowered .streetlights)
  rw [categoryOf, if_pos hpos, best_streetlights_iff h]

/-! ## A location on one line -/

theorem triage_isOk_of_line [Platform] (text : Str) {location : Str} (hline : '\n' ∉ location ∧ '\r' ∉ location) :
    ∃ r, triage text location = .ok r := by
  have hshown : ∀ (category : Category) {c : Char}, c ∈ shown category location → c ∈ location := by
    intro category c hc
    exact mem_of_mem_stripBy (List.mem_of_mem_take ((List.rdropWhile_prefix _ _).subset hc))
  refine (triage_isOk_iff text location).mpr ⟨?_, ?_⟩
  · rw [mem_strip_summaryOf _ _ _ (by decide) (by decide)]
    exact fun h => hline.1 (hshown _ h)
  · rw [mem_strip_summaryOf _ _ _ (by decide) (by decide)]
    exact fun h => hline.2 (hshown _ h)

/-- A text with a STREETLIGHTS keyword, in which no category matches more of its own, is
    classified STREETLIGHTS exactly when no other category matches as many. -/
theorem streetlights_win_iff [Platform] (text location : Str) (hline : '\n' ∉ location ∧ '\r' ∉ location)
    (hkeyword : 0 < score (lower text) (KEYWORDS .streetlights))
    (hmost : ∀ c, score (lower text) (KEYWORDS c) ≤ score (lower text) (KEYWORDS .streetlights)) :
    (∃ r, triage text location = .ok r ∧ r.category = .streetlights) ↔
      ∀ c ≠ Category.streetlights, score (lower text) (KEYWORDS c) ≠ score (lower text) (KEYWORDS .streetlights) := by
  obtain ⟨r, hr⟩ := triage_isOk_of_line text hline
  have hiff : (∃ r, triage text location = .ok r ∧ r.category = .streetlights) ↔
      categoryOf (lower text) = .streetlights := by
    constructor
    · intro h
      obtain ⟨r', hr', hc⟩ := h
      rw [← (triage_ok hr').1, hc]
    · intro h
      exact ⟨r, hr, (triage_ok hr).1.trans h⟩
  rw [hiff, categoryOf_streetlights_iff hkeyword]
  constructor
  · intro h c hc
    exact Nat.ne_of_lt (h c hc)
  · intro h c hc
    exact Nat.lt_of_le_of_ne (hmost c) (h c hc)

theorem streetlights_win_lamp : ∃ r, @triage .ascii "The lamp in our lane is out".toList "Street 9".toList = .ok r ∧
    r.category = .streetlights := by
  have hscore : ∀ c, score ((@lower .ascii) "The lamp in our lane is out".toList) (KEYWORDS c) =
      if c = .streetlights then 1 else 0 := by
    intro c
    cases c <;> decide +kernel
  refine (@streetlights_win_iff .ascii _ _ (by decide) ?_ ?_).mpr ?_
  · rw [hscore]
    decide
  · intro c
    rw [hscore, hscore]
    split <;> decide
  · intro c hc
    rw [hscore, hscore, if_neg hc]
    decide

/-- One keyword each of ELECTRICITY and STREETLIGHTS: the "electric" word wins. -/
theorem streetlights_lose_tie :
    (∀ c, score ((@lower .ascii) "Electric lamp not working".toList) (KEYWORDS c) ≤
      score ((@lower .ascii) "Electric lamp not working".toList) (KEYWORDS .streetlights)) ∧
    0 < score ((@lower .ascii) "Electric lamp not working".toList) (KEYWORDS .streetlights) ∧
    ∃ r, @triage .ascii "Electric lamp not working".toList "Street 12".toList = .ok r ∧ r.category = .electricity := by
  refine ⟨?_, by decide +kernel, ?_⟩
  · intro c
    cases c <;> decide +kernel
  · obtain ⟨r, hr⟩ := @triage_isOk_of_line .ascii "Electric lamp not working".toList "Street 12".toList (by decide)
    refine ⟨r, hr, (@triage_ok .ascii _ _ r hr).1.trans ?_⟩
    decide +kernel

end CivicPulse.Rules
