/-
  CivicPulse.Runs.RetryAfter — how long a client that was denied is told to wait.

  `retry_after` is a ceiling by hand: `int(left + 0.999)` of the seconds left of the window,
  one at least.
  - `left_le_retryAfter_iff`: it is enough unless more than a second and a fraction of less
    than a millisecond is left.
  - `retry_after_enough_iff`: then, and only then, a client that waits as long is counted in
    a later window, where its first hit is allowed.
-/

import CivicPulse.Runs.RateLimit

namespace CivicPulse

open Text Lang

namespace RateLimiter

variable {l : RateLimiter} {now : ℚ}

/-- What is left of the window. -/
def left (l : RateLimiter) (now : ℚ) : ℚ := l.windowStart now + l.window - now

/-- The whole seconds that are left, with the one that has begun. -/
theorem left_eq (l : RateLimiter) (now : ℚ) :
    l.left now = ((l.windowStart now + l.window - ⌊now⌋ : Int) : ℚ) - Int.fract now := by
  rw [left, Int.fract]
  push_cast
  ring

theorem left_pos (hw : 0 < l.window) : 0 < l.left now := by
  have h := ((windowOf_iff hw).mp (rfl : l.windowOf now = l.windowOf now)).2
  rw [left, windowStart_eq]
  push_cast
  linarith

theorem left_le (hw : 0 < l.window) : l.left now ≤ l.window := by
  have h := ((windowOf_iff hw).mp (rfl : l.windowOf now = l.windowOf now)).1
  rw [left, windowStart_eq]
  push_cast
  linarith

theorem retryAfter_eq (hw : 0 < l.window) :
    l.retryAfter now = max 1 (l.windowStart now + l.window - ⌊now⌋ - if Int.fract now ≤ 999 / 1000 then 0 else 1) := by
  have hpos : 0 < l.left now := left_pos hw
  have hleft := left_eq l now
  have hfract := Int.fract_lt_one now
  have hnonneg := Int.fract_nonneg now
  have hsum : (l.windowStart now + l.window - now + 999 / 1000 : ℚ) = l.left now + 999 / 1000 := rfl
  rw [retryAfter, truncate, hsum, if_pos (by linarith), hleft]
  congr 1
  rw [Int.floor_eq_iff]
  split
  · push_cast
    constructor
    · linarith
    · linarith
  · push_cast
    constructor
    · linarith
    · linarith

/-- How long to wait is never more than the window. -/
theorem retryAfter_le (hw : 0 < l.window) : l.retryAfter now ≤ l.window := by
  have hle : l.windowStart now ≤ ⌊now⌋ := by
    refine Int.le_floor.mpr ?_
    have : l.left now ≤ l.window := left_le hw
    rw [left] at this
    linarith
  rw [retryAfter_eq hw]
  split <;> omega

/-- The ceiling by hand is one, up to its last millisecond. -/
theorem left_le_retryAfter_iff (hw : 0 < l.window) :
    l.left now ≤ l.retryAfter now ↔ l.left now ≤ 1 ∨ Int.fract now ≤ 999 / 1000 := by
  have hleft := left_eq l now
  have hfract := Int.fract_lt_one now
  have hnonneg := Int.fract_nonneg now
  rw [retryAfter_eq hw]
  push_cast
  rw [le_max_iff]
  refine or_congr_right ?_
  split
  · rename_i h
    refine iff_of_true ?_ h
    rw [hleft]
    push_cast
    linarith
  · rename_i h
    refine iff_of_false ?_ h
    rw [hleft]
    push_cast
    linarith

theorem over_iff (now : ℚ) (r : Int) : l.windowStart now + l.window ≤ now + r ↔ l.left now ≤ r := by
  rw [left]
  constructor
  · intro h
    linarith
  · intro h
    linarith

/-- A window that is over is not the window any more. -/
theorem windowOf_over (hw : 0 < l.window) {t : ℚ} (h : l.windowStart now + l.window ≤ t) : l.windowOf now < l.windowOf t := by
  have hpos : (0 : ℚ) < l.window := by exact_mod_cast hw
  refine Int.lt_iff_add_one_le.mpr (Int.le_floor.mpr ((le_div_iff₀ hpos).mpr ?_))
  rw [windowStart_eq] at h
  push_cast at h ⊢
  linarith

end RateLimiter

variable [Platform] {l : RateLimiter} {E : Env} {i : Nat} {w w₀ : World}

/-- Who is denied is told the seconds that are left, as the limiter rounds them. -/
theorem hit_denied {identity : Str} {now : ℚ} {d : RateDecision} {w' : World}
    (h : (l.hit identity (some now)).run (machine E) i w = (.ok d, w')) (hd : d.allowed = false) : d.retryAfter = l.retryAfter now := by
  rcases hit_cases (E := E) (l := l) (i := i) identity now w with ⟨count, w₁, h'⟩ | ⟨w₁, h'⟩
  · rw [h'] at h
    obtain rfl : l.decide now count = d := Except.ok.inj (Prod.mk.inj h).1
    rw [RateLimiter.decide]
    split <;> rfl
  · rw [h'] at h
    obtain rfl : ⟨true, l.limit, 0⟩ = d := Except.ok.inj (Prod.mk.inj h).1
    cases hd

/-- A client that is told to wait for `r` seconds, and does. -/
structure WaitingIsEnough [Platform] (l : RateLimiter) (identity : Str) (now : ℚ) (r : Int) : Prop where
  pos : 1 ≤ r
  le : r ≤ l.window
  ended : l.windowStart now + l.window ≤ now + r
  later : l.windowOf now < l.windowOf (now + r)
  /-- Its first hit of the later window, whoever hit what before. -/
  allowed : ∀ (E : Env), E.Steady → ∀ (w₀ : World), (∀ identity start, w₀.redis (RateLimiter.key identity start) = none) →
    ∀ (hs : List Hit) (w : World), Hits l E w₀ hs w → w.now E = now + r → l.decisions hs identity (l.windowOf (now + r)) = [] →
      ∀ i, ∃ d w', (l.hit identity (some (now + r))).run (machine E) i w = (.ok d, w') ∧ d.allowed = true

/-- The first hit of a window. -/
theorem first_allowed (hE : E.Steady) (hlimit : 1 ≤ l.limit) (hwindow : 1 ≤ l.window)
    (h₀ : ∀ identity start, w₀.redis (RateLimiter.key identity start) = none) {hs : List Hit} (h : Hits l E w₀ hs w) {identity : Str}
    (hfirst : l.decisions hs identity (l.windowOf (w.now E)) = []) (i : Nat) :
    ∃ d w', (l.hit identity (some (w.now E))).run (machine E) i w = (.ok d, w') ∧ d.allowed = true := by
  have hw : 0 < l.window := by omega
  have hc : Counted l hs w.redis := hits_counted hE hw (counted_initial h₀) h
  have hcounter := hc.counter hw identity (w.now E)
  rw [hfirst] at hcounter
  obtain ⟨w', hrun, -, -⟩ := hit_given (i := i) hE hw hcounter
  exact ⟨_, w', hrun, (RateLimiter.allowed_iff _ _).mpr hlimit⟩

/-- Waiting is enough unless more than a second is left, and less than a millisecond over
    whole seconds. -/
theorem retry_after_enough_iff (hlimit : 1 ≤ l.limit) (hwindow : 1 ≤ l.window) {identity : Str} {now : ℚ} {d : RateDecision}
    {w' : World} (hrun : (l.hit identity (some now)).run (machine E) i w = (.ok d, w')) (hdenied : d.allowed = false) :
    WaitingIsEnough l identity now d.retryAfter ↔ l.left now ≤ 1 ∨ Int.fract now ≤ 999 / 1000 := by
  have hw : 0 < l.window := by omega
  rw [hit_denied hrun hdenied, ← RateLimiter.left_le_retryAfter_iff hw, ← RateLimiter.over_iff]
  constructor
  · exact WaitingIsEnough.ended
  · intro hover
    refine ⟨le_max_left _ _, RateLimiter.retryAfter_le hw, hover, RateLimiter.windowOf_over hw hover, ?_⟩
    intro E hE w₀ h₀ hs w h hnow hfirst i
    rw [← hnow] at hfirst ⊢
    exact first_allowed hE hlimit hwindow h₀ h hfirst i

omit [Platform] in
section

/-- One hit in a minute. -/
def oneAMinute : RateLimiter := ⟨1, 60⟩

def client : Str := "9.9.9.9".toList

def quiet : Env := .calm fun _ _ _ => .error .triageTimeout

/-- Two hits at the same time. -/
def hitTwice (now : ℚ) : Except Exc RateDecision × World :=
  (oneAMinute.hit client (some now)).run (@machine .ascii quiet) 0
    ((oneAMinute.hit client (some now)).run (@machine .ascii quiet) 0 (.initial .empty)).2

/-- Half a millisecond before the first second is over, 59.0005 seconds are left: the client is
    told to wait for 59. -/
theorem waiting_not_enough : ∃ d, (hitTwice (1999 / 2000)).1 = .ok d ∧ d.allowed = false ∧ d.retryAfter = 59 ∧
    ¬ @WaitingIsEnough .ascii oneAMinute client (1999 / 2000) d.retryAfter := by
  refine ⟨⟨false, 0, 59⟩, by decide +kernel, rfl, rfl, fun h => ?_⟩
  have hstart : oneAMinute.windowStart (1999 / 2000) = 0 := by decide +kernel
  have hover := @WaitingIsEnough.ended .ascii _ _ _ _ h
  rw [hstart] at hover
  norm_num [oneAMinute] at hover

theorem retry_after_enough_half : ∃ d, (hitTwice (1 / 2)).1 = .ok d ∧ d.retryAfter = 60 ∧
    @WaitingIsEnough .ascii oneAMinute client (1 / 2) d.retryAfter := by
  have hrun : (hitTwice (1 / 2)).1 = .ok ⟨false, 0, 60⟩ := by decide +kernel
  refine ⟨_, hrun, rfl, (@retry_after_enough_iff .ascii oneAMinute quiet 0 _ (by decide) (by decide) client (1 / 2) _ _
    (Prod.ext hrun rfl) rfl).mpr (.inr (by norm_num))⟩

end

end CivicPulse
