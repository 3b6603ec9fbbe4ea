/-
  CivicPulse.Runs.RateLimit — the fixed-window limiter, hit by any clients on any
  replicas, over a Redis that answers and whose clock is the hits' clock.

  - `key_inj`: a counter is one client's in one window, whatever is in its name.
  - `counted_hit` / `hits_counted`: a hit keeps `Counted`, so every sequence of hits does.
  - `rate_limit_exact`: of a client's hits in a window exactly the first `limit` are
    allowed, the counter outlives the window, and no interval of a window's length sees
    more than `2 * limit` allowed hits.
-/

import Mathlib.Algebra.Order.Floor.Ring
import CivicPulse.Services.Cache

namespace CivicPulse

open Text Lang

/-! ## Keys -/

namespace RateLimiter

/-- The client ends at the last colon. -/
theorem key_inj {a b : Str} {s t : Int} (h : key a s = key b t) : a = b ∧ s = t := by
  have hcolon : ∀ n : Int, ':' ∉ intText n := by
    intro n hn
    rcases mem_intText hn with h | h
    · exact absurd h (by decide)
    · exact absurd h (by decide)
  have hjoin : a ++ ':' :: intText s = b ++ ':' :: intText t := by
    unfold key at h
    rw [List.append_assoc, List.append_assoc] at h
    exact List.append_cancel_left h
  rcases (join_bar_eq ':' _ _ _ _).mp hjoin with ⟨ha, hs⟩ | ⟨m, -, hm⟩ | ⟨m, -, hm⟩
  · exact ⟨ha, intText_inj hs⟩
  · exact absurd (by rw [hm]; simp) (hcolon s)
  · exact absurd (by rw [hm]; simp) (hcolon t)

/-! ## Windows -/

/-- The window an instant is in: `[k * W, (k + 1) * W)`. -/
def windowOf (l : RateLimiter) (t : ℚ) : Int := ⌊t / l.window⌋

theorem windowStart_eq (l : RateLimiter) (t : ℚ) : l.windowStart t = l.windowOf t * l.window := rfl

theorem windowOf_iff {l : RateLimiter} (hw : 0 < l.window) {t : ℚ} {k : Int} :
    l.windowOf t = k ↔ k * l.window ≤ t ∧ t < (k + 1) * l.window := by
  have hpos : (0 : ℚ) < l.window := by exact_mod_cast hw
  rw [windowOf, Int.floor_eq_iff, le_div_iff₀ hpos, div_lt_iff₀ hpos]

/-- An interval of a window's length meets at most two windows. -/
theorem windowOf_interval {l : RateLimiter} (hw : 0 < l.window) {a t : ℚ} (h : a ≤ t ∧ t ≤ a + l.window) :
    l.windowOf t = l.windowOf a ∨ l.windowOf t = l.windowOf a + 1 := by
  have hpos : (0 : ℚ) < l.window := by exact_mod_cast hw
  have hle : l.windowOf a ≤ l.windowOf t := Int.floor_le_floor (div_le_div_of_nonneg_right h.1 hpos.le)
  have hge : l.windowOf t ≤ l.windowOf a + 1 := by
    have hdiv : t / l.window ≤ a / l.window + 1 := by
      rw [div_le_iff₀ hpos, add_mul, div_mul_cancel₀ _ hpos.ne', one_mul]
      exact h.2
    calc l.windowOf t ≤ ⌊a / l.window + 1⌋ := Int.floor_le_floor hdiv
      _ = l.windowOf a + 1 := Int.floor_add_one _
  omega

end RateLimiter

/-! ## Hits -/

theorem countP_le_countP_add {α : Type} {p q r : α → Bool} (h : ∀ a, p a = true → q a = true ∨ r a = true) (l : List α) :
    l.countP p ≤ l.countP q + l.countP r := by
  induction l with
  | nil => simp
  | cons a l ih =>
    have ha := h a
    simp only [List.countP_cons]
    split <;> split <;> split <;> simp_all <;> omega

/-- Who was counted, when, and what was decided. -/
structure Hit where
  identity : Str
  at_ : ℚ
  decision : RateDecision

/-! ## Counting -/

namespace RateLimiter

variable (l : RateLimiter)

/-- The decisions on a client's hits in a window, oldest first. -/
def decisions (hs : List Hit) (identity : Str) (k : Int) : List RateDecision :=
  (hs.reverse.filter fun h => h.identity = identity ∧ l.windowOf h.at_ = k).map (·.decision)

variable {l}

theorem decisions_cons (identity' : Str) (t : ℚ) (d : RateDecision) (hs : List Hit) (identity : Str) (k : Int) :
    l.decisions (⟨identity', t, d⟩ :: hs) identity k =
      l.decisions hs identity k ++ if identity' = identity ∧ l.windowOf t = k then [d] else [] := by
  unfold decisions
  rw [List.reverse_cons, List.filter_append, List.map_append]
  congr 1
  by_cases e : identity' = identity ∧ l.windowOf t = k
  · simp [e]
  · simp [e]

end RateLimiter

variable (l : RateLimiter)

/-- Every counter holds its window's hits, and lives past its end; the `j`-th hit was decided
    on the count `j + 1`. -/
structure Counted (hs : List Hit) (r : Redis) : Prop where
  absent : ∀ identity k, l.decisions hs identity k = [] → r (RateLimiter.key identity (k * l.window)) = none
  present : ∀ identity k, l.decisions hs identity k ≠ [] → ∃ t : ℚ, (k + 1) * l.window < t ∧
    r (RateLimiter.key identity (k * l.window)) = some ⟨.int (l.decisions hs identity k).length, some t⟩
  numbered : ∀ identity k (j : Nat) d, (l.decisions hs identity k)[j]? = some d → ∃ t, d = l.decide t (j + 1)

variable {l} {hs : List Hit}

/-- The counter a hit meets. -/
theorem Counted.counter {r : Redis} (hc : Counted l hs r) (hw : 0 < l.window) (identity : Str) (t : ℚ) :
    Redis.Counter r t (RateLimiter.key identity (l.windowStart t)) (l.decisions hs identity (l.windowOf t)).length := by
  rw [RateLimiter.windowStart_eq]
  by_cases h : l.decisions hs identity (l.windowOf t) = []
  · exact .inl ⟨hc.absent _ _ h, by rw [h]; rfl⟩
  · obtain ⟨T, hT, hr⟩ := hc.present _ _ h
    exact .inr ⟨T, hr, ((RateLimiter.windowOf_iff hw).mp rfl).2.trans hT⟩

/-- One hit keeps `Counted`. -/
theorem counted_hit {r r' : Redis} (hc : Counted l hs r) (hw : 0 < l.window) {identity : Str} {t : ℚ}
    (hkey : r' (RateLimiter.key identity (l.windowStart t)) =
      some ⟨.int ((l.decisions hs identity (l.windowOf t)).length + 1), some (t + (l.window + 1 : Int))⟩)
    (hne : ∀ k, k ≠ RateLimiter.key identity (l.windowStart t) → r' k = r k) :
    Counted l (⟨identity, t, l.decide t ((l.decisions hs identity (l.windowOf t)).length + 1)⟩ :: hs) r' := by
  rw [RateLimiter.windowStart_eq] at hkey hne
  -- another client's counter, or another window's, is as it was
  have other : ∀ identity' k, ¬ (identity = identity' ∧ l.windowOf t = k) →
      r' (RateLimiter.key identity' (k * l.window)) = r (RateLimiter.key identity' (k * l.window)) := by
    intro identity' k h
    refine hne _ fun he => h ?_
    obtain ⟨rfl, hk⟩ := RateLimiter.key_inj he
    exact ⟨rfl, (Int.eq_of_mul_eq_mul_right hw.ne' hk).symm⟩
  refine ⟨?_, ?_, ?_⟩
  · intro identity' k h
    rw [RateLimiter.decisions_cons] at h
    split at h
    · simp at h
    · rename_i hno
      rw [other _ _ hno]
      exact hc.absent _ _ (by simpa using h)
  · intro identity' k h
    rw [RateLimiter.decisions_cons] at h ⊢
    split
    · rename_i heq
      obtain ⟨rfl, rfl⟩ := heq
      refine ⟨_, ?_, by simpa using hkey⟩
      have := ((RateLimiter.windowOf_iff hw).mp (rfl : l.windowOf t = l.windowOf t)).1
      linarith
    · rename_i hno
      rw [other _ _ hno, List.append_nil]
      exact hc.present _ _ (by simpa [hno] using h)
  · intro identity' k j d h
    rw [RateLimiter.decisions_cons] at h
    by_cases hj : j < (l.decisions hs identity' k).length
    · rw [List.getElem?_append_left hj] at h
      exact hc.numbered _ _ _ _ h
    · rw [List.getElem?_append_right (by omega)] at h
      split at h
      · rename_i heq
        obtain ⟨rfl, rfl⟩ := heq
        have hz : j = (l.decisions hs identity (l.windowOf t)).length := by
          have := (List.getElem?_eq_some_iff.mp h).1
          simp only [List.length_singleton] at this
          omega
        subst hz
        simp only [Nat.sub_self, List.getElem?_cons_zero, Option.some.injEq] at h
        exact ⟨t, h.symm⟩
      · simp at h

/-! ## Sequences of hits -/

/-- Redis answers every command and keeps what it holds until it expires. -/
structure Env.Steady (E : Env) : Prop where
  healthy : E.Healthy
  keeps : ∀ n, E.evict n = []

variable [Platform] (E : Env) (l)

/-- A sequence of hits, newest first. Redis counts a hit at the hit's own `now`: one that is
    given, or the one the hit reads when no time passes until its pipeline runs. -/
inductive Hits (w₀ : World) : List Hit → World → Prop
  | nil : Hits w₀ [] w₀
  | given {hs w} (i : Nat) (identity : Str) (d : RateDecision) (w' : World) : Hits w₀ hs w →
      (l.hit identity (some (w.now E))).run (machine E) i w = (.ok d, w') →
      Hits w₀ (⟨identity, w.now E, d⟩ :: hs) w'
  | timed {hs w} (i : Nat) (identity : Str) (d : RateDecision) (w' : World) : Hits w₀ hs w →
      E.delay (w.ticks + 1) = 0 → (l.hit identity none).run (machine E) i w = (.ok d, w') →
      Hits w₀ (⟨identity, w.now E, d⟩ :: hs) w'

variable {E l} {w : World} {i : Nat}

omit [Platform] in
theorem cache_steady (hE : E.Steady) : w.cache E = w.redis := by
  rw [World.cache, hE.keeps]
  funext k
  simp [Redis.drop]

theorem exec_incrExpire (hE : E.Steady) (key : Str) (ttl : Int) :
    (World.exec E i (.incrExpire key ttl) w).1 = (Redis.incrExpire (w.now E) key ttl w.redis).1 ∧
      (World.exec E i (.incrExpire key ttl) w).2.redis = (Redis.incrExpire (w.now E) key ttl w.redis).2 := by
  have hcmd : Redis.faulty (E.fault w.ticks) (Redis.incrExpire (w.now E) key ttl) (w.cache E) =
      Redis.incrExpire (w.now E) key ttl w.redis := by
    rw [hE.healthy, cache_steady hE, Redis.faulty_none]
  exact ⟨congrArg Prod.fst hcmd, congrArg Prod.snd hcmd⟩

/-- A hit whose counter is at `n` counts one more and is decided on `n + 1`. -/
theorem hit_given (hE : E.Steady) (hw : 0 < l.window) {identity : Str} {n : Int}
    (hn : Redis.Counter w.redis (w.now E) (RateLimiter.key identity (l.windowStart (w.now E))) n) :
    ∃ w', (l.hit identity (some (w.now E))).run (machine E) i w = (.ok (l.decide (w.now E) (n + 1)), w') ∧
      w'.redis (RateLimiter.key identity (l.windowStart (w.now E))) =
        some ⟨.int (n + 1), some (w.now E + (l.window + 1 : Int))⟩ ∧
      ∀ k, k ≠ RateLimiter.key identity (l.windowStart (w.now E)) → w'.redis k = w.redis k := by
  obtain ⟨ha, hkey, hne⟩ := Redis.incrExpire_counter (show 0 < l.window + 1 by omega) hn
  obtain ⟨hans, hredis⟩ := exec_incrExpire (i := i) hE (RateLimiter.key identity (l.windowStart (w.now E))) (l.window + 1)
  refine ⟨(World.exec E i (.incrExpire (RateLimiter.key identity (l.windowStart (w.now E))) (l.window + 1)) w).2, ?_,
    by rw [hredis]; exact hkey, by rw [hredis]; exact hne⟩
  unfold RateLimiter.hit
  simp only [Prog.ret_bind, exceptRedis_op, Prog.run_op]
  rw [show ((machine E).exec i (.incrExpire _ _) w).1 = .ok (n + 1) from hans.trans ha]
  rfl

/-- A hit that reads the clock is the hit given what it read. -/
theorem hit_timed (identity : Str) (h0 : E.delay (w.ticks + 1) = 0) :
    (World.exec E i .time w).2.now E = w.now E ∧
      (l.hit identity none).run (machine E) i w =
        (l.hit identity (some (w.now E))).run (machine E) i (World.exec E i .time w).2 := by
  refine ⟨?_, rfl⟩
  show w.now E + E.delay (w.ticks + 1) = w.now E
  rw [h0, add_zero]

/-- A hit is decided on a count, or allowed because Redis gave none. -/
theorem hit_cases (identity : Str) (t : ℚ) (w : World) :
    (∃ count w', (l.hit identity (some t)).run (machine E) i w = (.ok (l.decide t count), w')) ∨
      ∃ w', (l.hit identity (some t)).run (machine E) i w = (.ok ⟨true, l.limit, 0⟩, w') := by
  have hans : Redis.Answers (World.exec E i (.incrExpire (RateLimiter.key identity (l.windowStart t)) (l.window + 1)) w).1 :=
    Redis.answers_faulty (fun _ => Redis.answers_incrExpire) _ _
  unfold RateLimiter.hit
  simp only [Prog.ret_bind, exceptRedis_op, Prog.run_op]
  generalize (World.exec E i (.incrExpire (RateLimiter.key identity (l.windowStart t)) (l.window + 1)) w) = r at hans ⊢
  obtain ⟨a, w'⟩ := r
  cases a with
  | ok count => exact .inl ⟨count, _, rfl⟩
  | error e =>
    simp only [ofExcept_error, Prog.raise_bind]
    rw [exceptRedis_raise (hans e rfl)]
    exact .inr ⟨_, rfl⟩

/-- A hit is decided, whatever Redis does. -/
theorem hit_returns (identity : Str) (now : Option ℚ) :
    ∃ d w', (l.hit identity now).run (machine E) i w = (.ok d, w') := by
  have given : ∀ (t : ℚ) (w : World), ∃ d w', (l.hit identity (some t)).run (machine E) i w = (.ok d, w') := by
    intro t w
    rcases hit_cases (E := E) (l := l) (i := i) identity t w with ⟨count, w', h⟩ | ⟨w', h⟩
    · exact ⟨_, w', h⟩
    · exact ⟨_, w', h⟩
  cases now with
  | some t => exact given t w
  | none => exact given (w.now E) (World.exec E i .time w).2

/-- A hit keeps `Counted`. -/
theorem counted_given (hE : E.Steady) (hw : 0 < l.window) (hc : Counted l hs w.redis) {identity : Str} {d : RateDecision}
    {w' : World} (hrun : (l.hit identity (some (w.now E))).run (machine E) i w = (.ok d, w')) :
    Counted l (⟨identity, w.now E, d⟩ :: hs) w'.redis := by
  obtain ⟨w'', hrun', hkey, hne⟩ := hit_given (i := i) hE hw (hc.counter hw identity _)
  rw [hrun] at hrun'
  cases hrun'
  exact counted_hit hc hw hkey hne

/-- A sequence of hits does. -/
theorem hits_counted (hE : E.Steady) (hw : 0 < l.window) {w₀ : World} (h₀ : Counted l [] w₀.redis)
    (h : Hits l E w₀ hs w) : Counted l hs w.redis := by
  induction h with
  | nil => exact h₀
  | given i identity d w' _ hrun ih => exact counted_given hE hw ih hrun
  | @timed hs w i identity d w' _ h0 hrun ih =>
    obtain ⟨hnow, hsame⟩ := hit_timed (l := l) (i := i) identity h0
    rw [← hnow] at hsame ⊢
    refine counted_given hE hw ?_ (hsame.symm.trans hrun)
    rw [show (World.exec E i .time w).2.redis = w.redis from cache_steady hE]
    exact ih

/-! ## The limit -/

namespace RateLimiter

omit [Platform] in
theorem allowed_iff (t : ℚ) (c : Int) : (l.decide t c).allowed = true ↔ c ≤ l.limit := by
  unfold decide
  split
  · rename_i h
    simp only [Bool.false_eq_true, false_iff]
    omega
  · rename_i h
    simp only [true_iff]
    omega

omit [Platform] in
theorem remaining_eq {t : ℚ} {c : Int} (h : (l.decide t c).allowed = true) : (l.decide t c).remaining = l.limit - c := by
  have hle := (allowed_iff t c).mp h
  rw [decide, if_neg (by omega)]

end RateLimiter

omit [Platform] in
/-- Exactly the first `limit` hits of a window are allowed. -/
theorem Counted.allowed {r : Redis} (hc : Counted l hs r) (identity : Str) (k : Int) :
    (l.decisions hs identity k).map (·.allowed) =
      List.replicate (min (l.decisions hs identity k).length l.limit.toNat) true ++
        List.replicate ((l.decisions hs identity k).length - l.limit.toNat) false := by
  refine List.ext_getElem (by simp; omega) fun j hj _ => ?_
  rw [List.length_map] at hj
  obtain ⟨t, ht⟩ := hc.numbered identity k j _ (List.getElem?_eq_getElem hj)
  have hiff := RateLimiter.allowed_iff (l := l) t (j + 1)
  rw [List.getElem_map, List.getElem_append, ht]
  split
  · rename_i hlt
    rw [List.length_replicate] at hlt
    rw [List.getElem_replicate]
    exact hiff.mpr (by omega)
  · rename_i hge
    rw [List.length_replicate] at hge
    rw [List.getElem_replicate, Bool.eq_false_iff]
    exact fun h => hge (by have := hiff.mp h; omega)

omit [Platform] in
/-- A window allows at most `limit` hits of a client. -/
theorem Counted.countP_allowed {r : Redis} (hc : Counted l hs r) (identity : Str) (k : Int) :
    hs.countP (fun h => decide (h.identity = identity ∧ l.windowOf h.at_ = k) && h.decision.allowed) ≤ l.limit.toNat := by
  have hcount : hs.countP (fun h => decide (h.identity = identity ∧ l.windowOf h.at_ = k) && h.decision.allowed) =
      ((l.decisions hs identity k).map (·.allowed)).count true := by
    simp [RateLimiter.decisions, List.count, List.countP_map, List.countP_filter, Function.comp_def, Bool.and_comm]
  rw [hcount, hc.allowed]
  simp [List.count_replicate]

omit [Platform] in
theorem counted_initial {r : Redis} (h : ∀ identity start, r (RateLimiter.key identity start) = none) : Counted l [] r :=
  ⟨fun _ _ _ => h _ _, fun _ _ hn => absurd rfl hn, fun _ _ _ _ hd => by cases hd⟩

/-- What the limiter's decisions on a sequence of hits, and the counters it leaves, are. -/
structure ExactLimit (l : RateLimiter) (hs : List Hit) (r : Redis) : Prop where
  allowed : ∀ identity k, (l.decisions hs identity k).map (·.allowed) =
    List.replicate (min (l.decisions hs identity k).length l.limit.toNat) true ++
      List.replicate ((l.decisions hs identity k).length - l.limit.toNat) false
  remaining : ∀ identity k (j : Nat) d, (l.decisions hs identity k)[j]? = some d → d.allowed = true →
    d.remaining = l.limit - (j + 1)
  kept : ∀ identity k (t : ℚ), l.decisions hs identity k ≠ [] → t < (k + 1) * l.window →
    ∃ e, r.live t (RateLimiter.key identity (k * l.window)) = some e ∧ e.val = .int (l.decisions hs identity k).length
  interval : ∀ identity (a : ℚ), ((hs.countP fun h => decide (h.identity = identity ∧ a ≤ h.at_ ∧ h.at_ ≤ a + l.window) &&
    h.decision.allowed : Nat) : Int) ≤ 2 * l.limit

/-- Rate limiting is exact for each client and window. -/
theorem rate_limit_exact (hE : E.Steady) (hlimit : 0 ≤ l.limit) (hwindow : 1 ≤ l.window) {w₀ : World}
    (h₀ : ∀ identity start, w₀.redis (RateLimiter.key identity start) = none) (h : Hits l E w₀ hs w) :
    ExactLimit l hs w.redis := by
  have hw : 0 < l.window := by omega
  have hc : Counted l hs w.redis := hits_counted hE hw (counted_initial h₀) h
  refine ⟨hc.allowed, ?_, ?_, ?_⟩
  · intro identity k j d hd ha
    obtain ⟨t, rfl⟩ := hc.numbered identity k j d hd
    exact RateLimiter.remaining_eq ha
  · intro identity k t hne ht
    obtain ⟨T, hT, hr⟩ := hc.present identity k hne
    exact ⟨_, by rw [Redis.live, hr, Option.filter_some, if_pos (by simpa using ht.trans hT)], rfl⟩
  · intro identity a
    -- the interval meets the window of `a` and the next one
    have hsplit := countP_le_countP_add (l := hs)
      (p := fun h => decide (h.identity = identity ∧ a ≤ h.at_ ∧ h.at_ ≤ a + l.window) && h.decision.allowed)
      (q := fun h => decide (h.identity = identity ∧ l.windowOf h.at_ = l.windowOf a) && h.decision.allowed)
      (r := fun h => decide (h.identity = identity ∧ l.windowOf h.at_ = l.windowOf a + 1) && h.decision.allowed)
      (fun h hh => by
        simp only [Bool.and_eq_true, decide_eq_true_eq] at hh ⊢
        exact (RateLimiter.windowOf_interval hw hh.1.2).imp (fun e => ⟨⟨hh.1.1, e⟩, hh.2⟩) fun e => ⟨⟨hh.1.1, e⟩, hh.2⟩)
    have h1 := hc.countP_allowed identity (l.windowOf a)
    have h2 := hc.countP_allowed identity (l.windowOf a + 1)
    omega

omit [Platform] in
section

def calmly : Env := .calm fun _ _ _ => .error .triageTimeout

/-- A hit of a client whose name has colons, where two are allowed. -/
def knock (w : World) : Except Exc RateDecision × World :=
  ((⟨2, 60⟩ : RateLimiter).hit "::1".toList none).run (@machine .ascii calmly) 0 w

theorem knock_returns {hs : List Hit} {w : World} (h : @Hits ⟨2, 60⟩ .ascii calmly (.initial .empty) hs w) :
    ∃ d, (knock w).1 = .ok d ∧ @Hits ⟨2, 60⟩ .ascii calmly (.initial .empty) (⟨"::1".toList, @World.now calmly w, d⟩ :: hs) (knock w).2 := by
  obtain ⟨d, w', hrun⟩ := @hit_returns ⟨2, 60⟩ .ascii calmly w 0 "::1".toList none
  have hd : (knock w).1 = .ok d := congrArg Prod.fst hrun
  have hw : knock w = (.ok d, (knock w).2) := Prod.ext hd rfl
  exact ⟨d, hd, @Hits.timed ⟨2, 60⟩ .ascii calmly _ _ _ 0 _ d _ h rfl hw⟩

/-- Of three hits, the third is not allowed. -/
theorem rate_limit_exact_three : ∃ hs w, hs.reverse.map (fun h => (h.identity, h.decision.allowed)) =
      [("::1".toList, true), ("::1".toList, true), ("::1".toList, false)] ∧
    @Hits ⟨2, 60⟩ .ascii calmly (.initial .empty) hs w ∧ ExactLimit ⟨2, 60⟩ hs w.redis := by
  have hallowed : [knock (.initial .empty), knock (knock (.initial .empty)).2, knock (knock (knock (.initial .empty)).2).2].map
      (fun r => r.1.toOption.map (·.allowed)) = [some true, some true, some false] := by decide +kernel
  obtain ⟨d₁, hd₁, h₁⟩ := knock_returns (@Hits.nil ⟨2, 60⟩ .ascii calmly _)
  obtain ⟨d₂, hd₂, h₂⟩ := knock_returns h₁
  obtain ⟨d₃, hd₃, h₃⟩ := knock_returns h₂
  refine ⟨_, _, ?_, h₃, @rate_limit_exact ⟨2, 60⟩ _ .ascii calmly _ ⟨fun _ => rfl, fun _ => rfl⟩ (by decide) (by decide) _ (fun _ _ => rfl) h₃⟩
  simp only [List.map_cons, hd₁, hd₂, hd₃, Except.toOption, Option.map_some, List.map_nil, List.cons.injEq, Option.some.injEq, and_true] at hallowed
  obtain ⟨ha₁, ha₂, ha₃⟩ := hallowed
  simp [ha₁, ha₂, ha₃]

end

end CivicPulse
