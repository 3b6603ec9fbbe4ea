/-
  CivicPulse.Http.Limits — what the limiter is for: how many complaints a client can file.

  A submission reads the clock, counts itself under its client and the window it has read,
  and begins its session if the count is within the limit. Between the clock and the count
  anything may happen; the counter lives for a second longer than its window, and a count
  that comes later than that would begin again at one. `timely` runs are those in which
  none does.
  - `Tickets`: every submission's count is its own, and at most the counter.
  - `submissions_limited`: of the submissions of one client whose clocks are in one window,
    at most `limit` are committed.
-/

import Mathlib.Data.Int.Interval
import CivicPulse.Http.Responses
import CivicPulse.Runs.RateLimit
import CivicPulse.Store.Frame

namespace CivicPulse

open Text Lang

open Function (update)

/-! ## The window of a counter -/

/-- What stands after the last colon of a key. -/
def stampOf (key : Str) : Int := Platform.readInt (key.reverse.takeWhile (· != ':')).reverse

theorem stampOf_key (identity : Str) (start : Int) : stampOf (RateLimiter.key identity start) = start := by
  have hcolon : ∀ c ∈ (intText start).reverse, (c != ':') = true := by
    intro c hc
    have hne : c ≠ ':' := by
      rintro rfl
      rcases mem_intText (List.mem_reverse.mp hc) with h | h
      · exact absurd h (by decide)
      · exact absurd h (by decide)
    simpa using hne
  have hkey : (RateLimiter.key identity start).reverse = (intText start).reverse ++ ':' :: ("ratelimit:".toList ++ identity).reverse := by
    unfold RateLimiter.key
    simp only [List.reverse_append, List.reverse_cons, List.append_assoc, List.cons_append, List.nil_append]
  have hsegment : ((RateLimiter.key identity start).reverse.takeWhile (· != ':')).reverse = intText start := by
    rw [hkey, List.takeWhile_append_of_pos hcolon, List.takeWhile_cons_of_neg (by decide), List.append_nil, List.reverse_reverse]
  rw [stampOf, hsegment]
  exact Platform.readInt_intText start

/-- A submission is counted before its window has been over for a second. -/
def timely (l : RateLimiter) (E : Env) (_ : Nat) (o : Op) (w : World) : Bool :=
  match o with
  | .incrExpire key _ => w.now E < stampOf key + l.window + 1
  | _ => true

namespace Request

/-! ## Tickets -/

/-- How far a submission is with the limiter. -/
inductive Ticket where
  | blank (identity : Str)
  | timed (identity : Str) (t : ℚ)
  | counted (identity : Str) (t : ℚ) (count : Int)

namespace Ticket

def clock : Ticket → Option ℚ
  | blank _ => none
  | timed _ t | counted _ t _ => some t

def Admitted (l : RateLimiter) : Ticket → Prop
  | counted _ _ count => count ≤ l.limit
  | _ => False

end Ticket

/-- Operations away from the limiter. -/
def Spares (o : Op) : Prop := o ≠ .time ∧ ∀ identity start, ¬ o.Touches (RateLimiter.key identity start)

/-- A submission reads the clock, is counted once, and does the rest if it is admitted. -/
def tickets (l : RateLimiter) : Protocol sig (Option Ticket) where
  can
    | some (.blank _), o => o = .time
    | some (.timed identity t), o => o = .incrExpire (RateLimiter.key identity (l.windowStart t)) (l.window + 1)
    | some (.counted _ _ count), o => Spares o ∧ count ≤ l.limit
    | none, o => Spares o
  step
    | some (.blank identity), o, r, n' => ∃ t : ℚ, (⟨o, r⟩ : Σ o : Op, o.Ans) = ⟨.time, t⟩ ∧ n' = some (.timed identity t)
    | some (.timed identity t), o, r, n' => ∃ (k : Str) (ttl count : Int), (⟨o, r⟩ : Σ o : Op, o.Ans) = ⟨.incrExpire k ttl, .ok count⟩ ∧
        n' = some (.counted identity t count)
    | n, _, _, n' => n' = n

/-- A submission begins with a blank ticket; other calls have none. -/
def ticket (g : Gate) (c : App × Route) : Option Ticket := c.2.submitter.map fun peer => .blank (clientIp peer g.trustProxyHeaders)

/-! ## The API keeps to its tickets -/

section

variable {α : Type} {A : Op → Prop}

/-- The limiter's keys begin with an `r`. -/
theorem limiter_key_ne {k : Str} (h : k.head? = some 't') (identity : Str) (start : Int) : RateLimiter.key identity start ≠ k := by
  intro e
  rw [← e] at h
  cases h

theorem triage_spares [Platform] {text location : Str} {o : Op} (h : OfTriage (cacheKey text location) o) : Spares o := by
  have hcache : ∀ identity start, RateLimiter.key identity start ≠ cacheKey text location := limiter_key_ne rfl
  cases o with
  | get k => exact ⟨nofun, fun _ _ h => h⟩
  | set k v ex => exact ⟨nofun, fun identity start e => hcache identity start (e.trans h)⟩
  | delete ks =>
    refine ⟨nofun, fun identity start hm => ?_⟩
    rw [show ks = [cacheKey text location] from h] at hm
    exact hcache identity start (List.mem_singleton.mp hm)
  | incr k =>
    refine ⟨nofun, fun identity start e => ?_⟩
    have e : RateLimiter.key identity start = k := e
    rcases h with rfl | rfl
    · exact limiter_key_ne rfl identity start e
    · exact limiter_key_ne rfl identity start e
  | pushTrim k v n => exact ⟨nofun, fun identity start e => limiter_key_ne (k := RECENT_KEY) rfl identity start (e.trans h)⟩
  | triage role p text location => exact ⟨nofun, fun _ _ h => h⟩
  | perfCounter => exact ⟨nofun, fun _ _ h => h⟩
  | utcnow => exact ⟨nofun, fun _ _ h => h⟩
  | warn msg extra => exact ⟨nofun, fun _ _ h => h⟩
  | _ => exact h.elim

/-- A request keeps away from the limiter. -/
theorem serve_spares [Platform] (c : App × Call) : (serve c).Uses Spares := by
  have hplain : ∀ o : Op, o ≠ .time → (∀ k, ¬ o.Touches k) → Spares o := fun o ho h => ⟨ho, fun _ _ => h _⟩
  have hwarn : ∀ msg extra, Spares (.warn msg extra) := fun _ _ => hplain _ nofun fun _ h => h
  have hselect : ∀ q, Spares (.select q) := fun _ => hplain _ nofun fun _ h => h
  refine serve_uses c (fun _ _ _ => triage_spares) (fun o ho => ?_) ?_ hwarn (hplain _ nofun fun _ h => h) fun _ => ?_
  · cases o with
    | select q => exact hselect q
    | selectForUpdate id => exact hplain _ nofun fun _ h => h
    | insert d => exact hplain _ nofun fun _ h => h
    | updateStatus id s => exact hplain _ nofun fun _ h => h
    | commit => exact hplain _ nofun fun _ h => h
    | rollback => exact hplain _ nofun fun _ h => h
    | close => exact hplain _ nofun fun _ h => h
    | _ => exact ho.elim
  · exact ⟨nofun, fun identity start hm => key_ne_stats identity start (List.mem_singleton.mp hm)⟩
  · exact StatsService.uses_get (Repository.uses_aggregates (hselect _) fun _ => hselect _) (hplain _ nofun fun _ h => h)
      (hplain _ nofun fun _ h => h) (fun v ex => ⟨nofun, key_ne_stats⟩) hwarn _

end

section

variable [Platform] (g : Gate)

/-- A call that is let in does the rest. -/
theorem admitted_follows (n : Option Ticket) (hn : ∀ o, Spares o → (tickets g.limiter).can n o)
    (hstay : ∀ o, Spares o → ∀ r n', (tickets g.limiter).step n o r n' → n' = n) (c : App × Route) (d : App × Call) :
    Follows (tickets g.limiter) (fun _ _ => True) n ((serve d).exits (answer c)) :=
  Follows.of_uses hn hstay (fun _ => trivial) (Prog.uses_exits _ (serve_spares d))

theorem decision_follows (c : App × Route) {identity : Str} {t : ℚ} {count : Int} :
    Follows (tickets g.limiter) (fun _ _ => True) (some (.counted identity t count))
      ((tryCatch (do (if (g.limiter.decide t count).allowed then return ()
                        else throw (.rateLimitExceededError (g.limiter.decide t count).retryAfter) : Code Unit)
                     return .inr (c.1, c.2.call)) fun e => return .inl (handler e)) >>=
        Sum.elim .ret fun d => (serve d).exits (answer c)) := by
  by_cases h : (g.limiter.decide t count).allowed = true
  · rw [if_pos h]
    have hle : count ≤ g.limiter.limit := (RateLimiter.allowed_iff t count).mp h
    exact admitted_follows g (some (.counted identity t count)) (fun o ho => ⟨ho, hle⟩) (fun o ho r n' hs => hs) c (c.1, c.2.call)
  · rw [if_neg h]
    exact trivial

theorem api_follows (c : App × Route) : Follows (tickets g.limiter) (fun _ _ => True) (ticket g c) (api g c) := by
  rw [api_eq, fronted, front, ticket]
  cases c.2.submitter with
  | some peer =>
    refine ⟨rfl, fun now n' hs => ?_⟩
    obtain ⟨t, ht, rfl⟩ := hs
    cases ht
    refine ⟨rfl, fun r n' hs => ?_⟩
    obtain ⟨k, ttl, count, hr, rfl⟩ := hs
    cases hr
    exact decision_follows g c
  | none => exact admitted_follows g none (fun o ho => ho) (fun o ho r n' hs => hs) _ _

end

/-! ## Tickets and counters -/

variable {l : RateLimiter} {w w' : World} {ns ns' : Nat → Option (Option Ticket)} {i : Nat}

/-- The counter of a client in a window is at `N`, and outlives the window by a second. -/
def CounterAt (l : RateLimiter) (r : Redis) (identity : Str) (k N : Int) : Prop :=
  0 ≤ N ∧ ((r (RateLimiter.key identity (k * l.window)) = none ∧ N = 0) ∨
    ∃ T : ℚ, (k + 1) * l.window + 1 ≤ T ∧ r (RateLimiter.key identity (k * l.window)) = some ⟨.int N, some T⟩)

structure Tickets (l : RateLimiter) (w : World) (ns : Nat → Option (Option Ticket)) : Prop where
  counters : ∀ identity k, ∃ N, CounterAt l w.redis identity k N
  late : ∀ i n t, ns i = some (some n) → n.clock = some t → t ≤ w.clock
  counted : ∀ i identity t count, ns i = some (some (.counted identity t count)) →
    1 ≤ count ∧ ∀ N, CounterAt l w.redis identity (l.windowOf t) N → count ≤ N
  distinct : ∀ i j identity t t' count, i ≠ j → ns i = some (some (.counted identity t count)) →
    ns j = some (some (.counted identity t' count)) → l.windowOf t ≠ l.windowOf t'
  read : ∀ i n t, ns i = some (some n) → (⟨.time, t⟩ : Σ o : Op, o.Ans) ∈ w.trace i → n.clock = some t
  committed : ∀ i n, ns i = some (some n) → commitsOf w.db i ≠ [] → n.Admitted l
  idle : ∀ i, ns i = none → w.trace i = [] ∧ commitsOf w.db i = []

section

variable [Platform] {E : Env} {o : Op} {n n' : Option Ticket}

/-- Only its own commit adds to a session's commits. -/
theorem commitsOf_exec {j : Nat} (h : commitsOf (World.exec E i o w).2.db j ≠ []) : commitsOf w.db j ≠ [] ∨ j = i ∧ o = .commit := by
  by_cases ho : o = .commit
  · subst ho
    by_cases hj : j = i
    · exact .inr ⟨hj, rfl⟩
    · refine .inl fun hnone => h ?_
      rcases World.commit_cases (E := E) (i := i) (w := w) with ⟨hdb, -⟩ | ⟨-, hdb⟩
      · rw [hdb]
        exact hnone
      · rw [hdb, Db.commit]
        split
        · exact hnone
        · rw [commitsOf, List.filter_cons_of_neg (by simpa using fun e : i = j => hj e.symm)]
          exact hnone
  · refine .inl fun hnone => h ?_
    have hdb := World.exec_db (E := E) (i := i) (w := w) o
    generalize (World.exec E i o w).2.db = db' at hdb ⊢
    cases hdb with
    | commit => exact absurd rfl ho
    | _ => exact hnone

/-- The counters are as they were. -/
theorem counter_exec (hE : E.Steady) (ho : ∀ identity start, ¬ o.Touches (RateLimiter.key identity start)) (identity : Str) (k N : Int) :
    CounterAt l (World.exec E i o w).2.redis identity k N ↔ CounterAt l w.redis identity k N := by
  have hkey := World.exec_untouched (E := E) (i := i) (w := w) (by rw [hE.keeps]; exact List.not_mem_nil) (ho identity (k * l.window))
  rw [CounterAt, CounterAt, hkey]

theorem commitsOf_exec_ne {j : Nat} (hj : j ≠ i) (h : commitsOf (World.exec E i o w).2.db j ≠ []) : commitsOf w.db j ≠ [] :=
  (commitsOf_exec h).resolve_right fun e => hj e.1

/-- An operation away from the counters. -/
theorem Tickets.untouched (hE : E.Steady) (h : Tickets l w ns) (hi : ns i = some n)
    (ho : ∀ identity start, ¬ o.Touches (RateLimiter.key identity start))
    (hlate : ∀ m t, n' = some m → m.clock = some t → t ≤ (World.exec E i o w).2.clock)
    (hsame : ∀ identity t count, n' = some (.counted identity t count) → n = some (.counted identity t count))
    (hread : ∀ m t, n' = some m → (⟨.time, t⟩ : Σ o : Op, o.Ans) ∈ (World.exec E i o w).2.trace i → m.clock = some t)
    (hcommitted : ∀ m, n' = some m → commitsOf (World.exec E i o w).2.db i ≠ [] → m.Admitted l) :
    Tickets l (World.exec E i o w).2 (update ns i (some n')) := by
  have hcounter := counter_exec (l := l) (i := i) (w := w) hE ho
  have hback : ∀ j identity t count, update ns i (some n') j = some (some (.counted identity t count)) →
      ns j = some (some (.counted identity t count)) := by
    intro j identity t count hj
    rcases update_some hj with ⟨rfl, e⟩ | ⟨-, hj⟩
    · rw [hi, hsame identity t count e.symm]
    · exact hj
  refine ⟨fun identity k => ?_, fun j m t hj ht => ?_, fun j identity t count hj => ?_, fun j j' identity t t' count hne hj hj' => ?_,
    fun j m t hj ht => ?_, fun j m hj hc => ?_, fun j hj => ?_⟩
  · obtain ⟨N, hN⟩ := h.counters identity k
    exact ⟨N, (hcounter identity k N).mpr hN⟩
  · rcases update_some hj with ⟨-, e⟩ | ⟨-, hj⟩
    · exact hlate m t e.symm ht
    · exact (h.late j m t hj ht).trans (World.clock_le_exec o)
  · obtain ⟨hpos, hle⟩ := h.counted j identity t count (hback j identity t count hj)
    exact ⟨hpos, fun N hN => hle N ((hcounter _ _ N).mp hN)⟩
  · exact h.distinct j j' identity t t' count hne (hback _ _ _ _ hj) (hback _ _ _ _ hj')
  · rcases update_some hj with ⟨rfl, e⟩ | ⟨hne, hj⟩
    · exact hread m t e.symm ht
    · rw [World.trace_exec_ne hne] at ht
      exact h.read j m t hj ht
  · rcases update_some hj with ⟨rfl, e⟩ | ⟨hne, hj⟩
    · exact hcommitted m e.symm hc
    · exact h.committed j m hj (commitsOf_exec_ne hne hc)
  · obtain ⟨hne, hj⟩ := update_none hj
    obtain ⟨htrace, hcommits⟩ := h.idle j hj
    refine ⟨(World.trace_exec_ne hne o).trans htrace, ?_⟩
    by_contra hc
    exact commitsOf_exec_ne hne hc hcommits

omit [Platform] in
theorem CounterAt.unique {r : Redis} {identity : Str} {k N : Int} {e : Entry}
    (hr : r (RateLimiter.key identity (k * l.window)) = some e) (h : CounterAt l r identity k N) : e.val = .int N := by
  rcases h.2 with ⟨hnone, -⟩ | ⟨T, -, hsome⟩
  · rw [hr] at hnone
    cases hnone
  · rw [hr] at hsome
    cases hsome
    rfl

omit [Platform] in
/-- A counter that a timely count meets is alive. -/
theorem CounterAt.counter {identity : Str} {t : ℚ} {N : Int} (h : CounterAt l w.redis identity (l.windowOf t) N)
    (hnow : w.now E < (l.windowStart t : ℚ) + l.window + 1) :
    Redis.Counter w.redis (w.now E) (RateLimiter.key identity (l.windowStart t)) N := by
  rcases h.2 with ⟨hnone, hN⟩ | ⟨T, hT, hsome⟩
  · exact .inl ⟨hnone, hN⟩
  · refine .inr ⟨T, hsome, ?_⟩
    rw [RateLimiter.windowStart_eq, Int.cast_mul] at hnow
    linarith

omit [Platform] in
/-- Another client's counter, or another window's, is as it was. -/
theorem counter_other (hw : 0 < l.window) {r r' : Redis} {identity identity' : Str} {k k' : Int} (N : Int)
    (hne : ∀ key, key ≠ RateLimiter.key identity (k * l.window) → r' key = r key) (h : ¬ (identity' = identity ∧ k' = k)) :
    CounterAt l r' identity' k' N ↔ CounterAt l r identity' k' N := by
  have hkey : RateLimiter.key identity' (k' * l.window) ≠ RateLimiter.key identity (k * l.window) := by
    intro e
    obtain ⟨hid, hk⟩ := RateLimiter.key_inj e
    exact h ⟨hid, Int.eq_of_mul_eq_mul_right hw.ne' hk⟩
  rw [CounterAt, CounterAt, hne _ hkey]

omit [Platform] in
/-- One more count of a client in a window. -/
theorem Tickets.counts (hw : 0 < l.window) (h : Tickets l w ns) {identity : Str} {t T : ℚ} {N : Int}
    (hi : ns i = some (some (.timed identity t))) (hN : CounterAt l w.redis identity (l.windowOf t) N)
    (hkey : w'.redis (RateLimiter.key identity (l.windowOf t * l.window)) = some ⟨.int (N + 1), some T⟩)
    (hT : (l.windowOf t + 1 : ℚ) * l.window + 1 ≤ T)
    (hne : ∀ key, key ≠ RateLimiter.key identity (l.windowOf t * l.window) → w'.redis key = w.redis key)
    (hclock : w.clock ≤ w'.clock)
    (htrace : ∀ j t, (⟨.time, t⟩ : Σ o : Op, o.Ans) ∈ w'.trace j → (⟨.time, t⟩ : Σ o : Op, o.Ans) ∈ w.trace j)
    (hidle : ∀ j, j ≠ i → w'.trace j = w.trace j) (hcommits : ∀ j, commitsOf w'.db j ≠ [] → commitsOf w.db j ≠ []) :
    Tickets l w' (update ns i (some (some (.counted identity t (N + 1))))) := by
  have hnew : ∀ N', CounterAt l w'.redis identity (l.windowOf t) N' → N' = N + 1 := by
    intro N' hN'
    have := hN'.unique hkey
    simpa using this.symm
  refine ⟨fun identity' k => ?_, fun j m t' hj ht => ?_, fun j identity' t' count hj => ?_, fun j j' identity' u u' count hjj hj hj' => ?_,
    fun j m t' hj ht => ?_, fun j m hj hc => ?_, fun j hj => ?_⟩
  · by_cases e : identity' = identity ∧ k = l.windowOf t
    · obtain ⟨rfl, rfl⟩ := e
      exact ⟨N + 1, by have := hN.1; omega, .inr ⟨T, hT, hkey⟩⟩
    · obtain ⟨N', hN'⟩ := h.counters identity' k
      exact ⟨N', (counter_other hw N' hne e).mpr hN'⟩
  · rcases update_some hj with ⟨-, e⟩ | ⟨-, hj⟩
    · cases e
      exact (h.late i _ t' hi ht).trans hclock
    · exact (h.late j m t' hj ht).trans hclock
  · rcases update_some hj with ⟨-, e⟩ | ⟨-, hj⟩
    · cases e
      exact ⟨by have := hN.1; omega, fun N' hN' => (hnew N' hN').ge⟩
    · obtain ⟨hpos, hle⟩ := h.counted j identity' t' count hj
      refine ⟨hpos, fun N' hN' => ?_⟩
      by_cases e : identity' = identity ∧ l.windowOf t' = l.windowOf t
      · obtain ⟨rfl, hk⟩ := e
        rw [hk] at hle hN'
        have := hle N hN
        have := hnew N' hN'
        omega
      · exact hle N' ((counter_other hw N' hne e).mp hN')
  · -- an earlier count is at most the counter that the new one has met
    have hlt : ∀ j u count, j ≠ i → ns j = some (some (.counted identity u count)) → l.windowOf u = l.windowOf t → count ≠ N + 1 := by
      intro j u count _ hj hu
      have hle := (h.counted j identity u count hj).2 N (by rw [hu]; exact hN)
      omega
    rcases update_some hj with ⟨rfl, e⟩ | ⟨hji, hold⟩
    · cases e
      rw [Function.update_of_ne (Ne.symm hjj)] at hj'
      exact fun e => hlt j' u' _ (Ne.symm hjj) hj' e.symm rfl
    · rcases update_some hj' with ⟨rfl, e⟩ | ⟨-, hold'⟩
      · cases e
        exact fun e => hlt j u _ hji hold e rfl
      · exact h.distinct j j' identity' u u' count hjj hold hold'
  · rcases update_some hj with ⟨rfl, e⟩ | ⟨-, hj⟩
    · cases e
      exact h.read j (.timed identity t) t' hi (htrace j t' ht)
    · exact h.read j m t' hj (htrace j t' ht)
  · rcases update_some hj with ⟨rfl, e⟩ | ⟨-, hj⟩
    · exact (h.committed j _ hi (hcommits j hc)).elim
    · exact h.committed j m hj (hcommits j hc)
  · obtain ⟨hji, hj⟩ := update_none hj
    obtain ⟨hempty, hnone⟩ := h.idle j hj
    refine ⟨(hidle j hji).trans hempty, ?_⟩
    by_contra hc
    exact hcommits j hc hnone

/-- Each operation of a call keeps the tickets and the counters. -/
theorem tickets_exec (hE : E.Steady) (hw : 0 < l.window) (h : Tickets l w ns) (hi : ns i = some n) (hcan : (tickets l).can n o)
    (htimely : timely l E i o w = true) :
    ∃ n', (tickets l).step n o (World.exec E i o w).1 n' ∧ Tickets l (World.exec E i o w).2 (update ns i (some n')) := by
  have spares : ∀ (n : Option Ticket), ns i = some n → Spares o → (∀ m, n = some m → o = .commit → m.Admitted l) →
      Tickets l (World.exec E i o w).2 (update ns i (some n)) := by
    intro n hi ho hadmitted
    refine h.untouched hE hi ho.2 (fun m t hm ht => ?_) (fun _ _ _ e => e) (fun m t hm ht => ?_) fun m hm hc => ?_
    · exact (h.late i m t (hm ▸ hi) ht).trans (World.clock_le_exec o)
    · rw [World.trace_exec] at ht
      rcases List.mem_cons.mp ht with e | ht
      · cases e
        exact absurd rfl ho.1
      · exact h.read i m t (hm ▸ hi) ht
    · rcases commitsOf_exec hc with hc | ⟨-, rfl⟩
      · exact h.committed i m (hm ▸ hi) hc
      · exact hadmitted m hm rfl
  match n, hcan with
  | none, ho => exact ⟨none, rfl, spares none hi ho fun _ e => by cases e⟩
  | some (.counted identity t count), ⟨ho, hle⟩ =>
    exact ⟨_, rfl, spares _ hi ho fun m e _ => by cases e; exact hle⟩
  | some (.blank identity), ho =>
    subst ho
    refine ⟨_, ⟨w.now E, rfl, rfl⟩, h.untouched hE hi (fun _ _ h => h) (fun m t hm ht => ?_) (fun _ _ _ e => by cases e)
      (fun m t hm ht => ?_) fun m hm hc => ?_⟩
    · cases hm
      cases ht
      exact le_refl _
    · cases hm
      rw [World.trace_exec] at ht
      rcases List.mem_cons.mp ht with e | ht
      · cases e
        rfl
      · cases h.read i _ t hi ht
    · rcases commitsOf_exec hc with hc | ⟨-, e⟩
      · exact (h.committed i _ hi hc).elim
      · cases e
  | some (.timed identity t), ho =>
    subst ho
    obtain ⟨N, hN⟩ := h.counters identity (l.windowOf t)
    have hnow : w.now E < (l.windowStart t : ℚ) + l.window + 1 := by
      have := of_decide_eq_true htimely
      rwa [stampOf_key] at this
    obtain ⟨ha, hkey, hne⟩ := Redis.incrExpire_counter (show 0 < l.window + 1 by omega) (hN.counter hnow)
    obtain ⟨hans, hredis⟩ := exec_incrExpire (i := i) (w := w) hE (RateLimiter.key identity (l.windowStart t)) (l.window + 1)
    rw [ha] at hans
    refine ⟨_, ⟨_, _, N + 1, by rw [hans], rfl⟩, h.counts (T := w.now E + (l.window + 1 : Int)) hw hi hN (hredis ▸ hkey) ?_ (hredis ▸ hne)
      (World.clock_le_exec _) (fun j t' ht => ?_) (fun j hj => World.trace_exec_ne hj _) fun j hc => ?_⟩
    · have hlate := h.late i _ t hi rfl
      have hnow' := add_le_add hlate (E.delay_nonneg w.ticks)
      have hstart := ((RateLimiter.windowOf_iff hw).mp (rfl : l.windowOf t = l.windowOf t)).1
      rw [World.now, Int.cast_add, Int.cast_one]
      linarith
    · by_cases e : j = i
      · subst e
        rw [World.trace_exec] at ht
        rcases List.mem_cons.mp ht with e | ht
        · cases e
        · exact ht
      · rwa [World.trace_exec_ne e] at ht
    · exact (commitsOf_exec hc).resolve_right fun e => by cases e.2

/-! ## Runs -/

omit [Platform] in
theorem tickets_initial {t₀ : Table} (h₀ : w.db = opened t₀) (hlog : w.log = [])
    (hredis : ∀ identity start, w.redis (RateLimiter.key identity start) = none) : Tickets l w fun _ => none where
  counters identity k := ⟨0, le_refl _, .inl ⟨hredis _ _, rfl⟩⟩
  late _ _ _ h := by cases h
  counted _ _ _ _ h := by cases h
  distinct _ _ _ _ _ _ _ h := by cases h
  read _ _ _ h := by cases h
  committed _ _ h := by cases h
  idle i _ := by
    rw [World.trace, hlog, commitsOf, h₀]
    exact ⟨rfl, rfl⟩

omit [Platform] in
theorem Tickets.start (h : Tickets l w ns) (hi : ns i = none) (g : Gate) (c : App × Route) :
    Tickets l w (update ns i (some (ticket g c))) := by
  obtain ⟨htrace, hcommits⟩ := h.idle i hi
  have hblank : ∀ m, ticket g c = some m → ∃ identity, m = .blank identity := by
    intro m hm
    obtain ⟨peer, -, hpeer⟩ := Option.map_eq_some_iff.mp hm
    exact ⟨_, hpeer.symm⟩
  have hback : ∀ {j m}, update ns i (some (ticket g c)) j = some (some m) → (j = i ∧ ∃ identity, m = .blank identity) ∨ ns j = some (some m) := by
    intro j m hj
    rcases update_some hj with ⟨e, hm⟩ | ⟨-, hj⟩
    · exact .inl ⟨e, hblank m hm.symm⟩
    · exact .inr hj
  refine ⟨h.counters, fun j m t hj ht => ?_, fun j identity t count hj => ?_, fun j j' identity t t' count hne hj hj' => ?_,
    fun j m t hj ht => ?_, fun j m hj hc => ?_, fun j hj => h.idle j (update_none hj).2⟩
  · rcases hback hj with ⟨-, identity, rfl⟩ | hj
    · cases ht
    · exact h.late j m t hj ht
  · rcases hback hj with ⟨-, identity, e⟩ | hj
    · cases e
    · exact h.counted j identity t count hj
  · rcases hback hj with ⟨-, identity, e⟩ | hold
    · cases e
    · rcases hback hj' with ⟨-, identity, e⟩ | hold'
      · cases e
      · exact h.distinct j j' identity t t' count hne hold hold'
  · rcases hback hj with ⟨rfl, -⟩ | hj
    · rw [htrace] at ht
      cases ht
    · exact h.read j m t hj ht
  · rcases hback hj with ⟨rfl, -⟩ | hj
    · exact absurd hcommits hc
    · exact h.committed j m hj hc

/-- Whose ticket it is. -/
def Ticket.identity : Ticket → Str
  | .blank identity | .timed identity _ | .counted identity _ _ => identity

omit [Platform] in
theorem step_identity {r : o.Ans} (h : (tickets l).step n o r n') : n'.map Ticket.identity = n.map Ticket.identity := by
  match n, h with
  | none, h => rw [show n' = none from h]
  | some (.counted identity t count), h => rw [show n' = _ from h]
  | some (.blank identity), ⟨t, _, h⟩ => rw [h]; rfl
  | some (.timed identity t), ⟨k, ttl, count, _, h⟩ => rw [h]; rfl

def countOf (ns : Nat → Option (Option Ticket)) (i : Nat) : Int :=
  match ns i with
  | some (some (.counted _ _ count)) => count
  | _ => 0

/-- Runs in which nobody is counted too late. -/
abbrev prompt (g : Gate) (E : Env) : Machine sig := (machine E).restrict (timely g.limiter E)

def limits (g : Gate) (E : Env) : Outline (prompt g E) (App × Route) Answer (Option Ticket) where
  toProtocol := tickets g.limiter
  post _ _ _ := True
  inv := Tickets g.limiter
  belongs c n := n.map Ticket.identity = (ticket g c).map Ticket.identity

theorem limits_sound (g : Gate) (hE : E.Steady) (hw : 0 < g.limiter.window) : (limits g E).Sound (api g) where
  start := by
    intro w ns i c h hi
    exact ⟨ticket g c, h.start hi g c, rfl, api_follows g c⟩
  exec := by
    intro w ns i n o h hi hcan hen
    have hboth : World.enabled i o w = true ∧ timely g.limiter E i o w = true := Bool.and_eq_true_iff.mp hen
    obtain ⟨n', hs, h'⟩ := tickets_exec hE hw h hi hcan hboth.2
    exact ⟨n', hs, h', fun c hc => (step_identity hs).trans hc⟩

/-- A submission of the client that has read the clock in the window and is committed. -/
def Submitted (g : Gate) (P : Pool (prompt g E) (App × Route) Answer) (identity : Str) (k : Int) (i : Nat) : Prop :=
  ∃ app peer body p t, P.threads i = some ⟨(app, .createComplaint peer body), p⟩ ∧ clientIp peer g.trustProxyHeaders = identity ∧
    (⟨.time, t⟩ : Σ o : Op, o.Ans) ∈ P.shared.trace i ∧ g.limiter.windowOf t = k ∧ commitsOf P.shared.db i ≠ []

theorem submitted_count {g : Gate} {P : Pool (prompt g E) (App × Route) Answer} (hP : (limits g E).At P ns) {identity : Str} {k : Int}
    (h : Submitted g P identity k i) :
    ∃ t count, ns i = some (some (.counted identity t count)) ∧ g.limiter.windowOf t = k ∧ count ≤ g.limiter.limit := by
  obtain ⟨app, peer, body, p, t, ht, rfl, hread, rfl, hc⟩ := h
  obtain ⟨n, hn, hb, -⟩ := hP.busy i _ ht
  obtain ⟨m, rfl⟩ : ∃ m, n = some m := by
    cases n with
    | none => cases hb
    | some m => exact ⟨m, rfl⟩
  have hid : m.identity = clientIp peer g.trustProxyHeaders := Option.some.inj hb
  have hclock := hP.inv.read i m t hn hread
  have hadmitted := hP.inv.committed i m hn hc
  cases m with
  | blank identity => exact hadmitted.elim
  | timed identity t => exact hadmitted.elim
  | counted identity' t' count =>
    obtain rfl : t' = t := Option.some.inj hclock
    obtain rfl : identity' = _ := hid
    exact ⟨t', count, hn, rfl, hadmitted⟩

omit [Platform] in
/-- There are at most `n` different numbers from 1 to `n`. -/
theorem length_le_of_injOn {f : Nat → Int} {n : Int} {is : List Nat} (hn : is.Nodup) (hpos : ∀ i ∈ is, 1 ≤ f i ∧ f i ≤ n)
    (hinj : ∀ i ∈ is, ∀ j ∈ is, f i = f j → i = j) : (is.length : Int) ≤ max n 0 := by
  have hnodup : (is.map f).Nodup := hn.map_on hinj
  have hsub : (is.map f).toFinset ⊆ Finset.Icc 1 n := by
    intro c hc
    obtain ⟨i, hi, rfl⟩ := List.mem_map.mp (List.mem_toFinset.mp hc)
    exact Finset.mem_Icc.mpr (hpos i hi)
  have hcard := Finset.card_le_card hsub
  rw [List.toFinset_card_of_nodup hnodup, List.length_map, Int.card_Icc] at hcard
  omega

/-- Whatever the clients do, and in whatever order: no more than `limit` submissions of a
    client in a window are committed. -/
theorem submissions_limited {g : Gate} (hE : E.Steady) (hlimit : 0 ≤ g.limiter.limit) (hwindow : 1 ≤ g.limiter.window) {t₀ : Table}
    {w₀ : World} (h₀ : w₀.db = opened t₀) (hlog : w₀.log = []) (hredis : ∀ identity start, w₀.redis (RateLimiter.key identity start) = none)
    {P : Pool (prompt g E) (App × Route) Answer} (hP : Pool.Steps (api g) (.fresh w₀) P) (identity : Str) (k : Int) (is : List Nat)
    (hn : is.Nodup) (his : ∀ i ∈ is, Submitted g P identity k i) : (is.length : Int) ≤ g.limiter.limit := by
  obtain ⟨ns, hAt⟩ := Outline.keeps (limits_sound g hE (by omega)) hP (Outline.fresh_holds (tickets_initial h₀ hlog hredis))
  have hcount : ∀ i ∈ is, ∃ t, ns i = some (some (.counted identity t (countOf ns i))) ∧ g.limiter.windowOf t = k ∧
      countOf ns i ≤ g.limiter.limit := by
    intro i hi
    obtain ⟨t, count, hcount, hk, hle⟩ := submitted_count hAt (his i hi)
    have hcountOf : countOf ns i = count := by rw [countOf, hcount]
    rw [hcountOf]
    exact ⟨t, hcount, hk, hle⟩
  have hpos : ∀ i ∈ is, 1 ≤ countOf ns i ∧ countOf ns i ≤ g.limiter.limit := by
    intro i hi
    obtain ⟨t, hi', -, hle⟩ := hcount i hi
    exact ⟨(hAt.inv.counted i identity t _ hi').1, hle⟩
  have hinj : ∀ i ∈ is, ∀ j ∈ is, countOf ns i = countOf ns j → i = j := by
    intro i hi j hj e
    by_contra hne
    obtain ⟨t, hi', hk, -⟩ := hcount i hi
    obtain ⟨t', hj', hk', -⟩ := hcount j hj
    rw [← e] at hj'
    exact hAt.inv.distinct i j identity t t' _ hne hi' hj' (hk.trans hk'.symm)
  have hle := length_le_of_injOn hn hpos hinj
  rwa [max_eq_left hlimit] at hle

end

/-! ## Two submissions -/

/-- One submission a minute, and a client that submits twice: the second is refused. -/
def hasty : Pool (@prompt .ascii ⟨⟨1, 60⟩, true⟩ (.calm fun _ _ _ => .error .triageTimeout)) (App × Route) Answer :=
  Pool.schedule (@api .ascii ⟨⟨1, 60⟩, true⟩)
    (.start 0 (replica, .createComplaint someone leak) :: .start 1 (replica, .createComplaint someone leak) ::
      (List.replicate 24 [.exec 0, .exec 1]).flatten)
    (.fresh (.initial potholes))

def Route.createdBy (identity : Str) : Route → Bool
  | .createComplaint peer _ => clientIp peer true == identity
  | _ => false

/-- The clock has been read, and showed 0. -/
def readZero : (Σ o : Op, o.Ans) → Bool
  | ⟨.time, t⟩ => t == (0 : ℚ)
  | _ => false

/-- The first is committed. -/
theorem hasty_submits : @Submitted .ascii _ ⟨⟨1, 60⟩, true⟩ hasty "10.0.0.7".toList 0 0 := by
  obtain ⟨hcall, hread, hcommits⟩ : ((hasty.threads 0).any fun t => Route.createdBy "10.0.0.7".toList t.call.2) = true ∧
      (hasty.shared.trace 0).any readZero = true ∧ (commitsOf hasty.shared.db 0).isEmpty = false := by decide +kernel
  obtain ⟨⟨⟨app, r⟩, p⟩, ht, hcall⟩ := (Option.any_eq_true _ _).mp hcall
  obtain ⟨⟨o, a⟩, hmem, ho⟩ := List.any_eq_true.mp hread
  cases r with
  | createComplaint peer body =>
    cases o with
    | time =>
      have ho : ((a : ℚ) == 0) = true := ho
      obtain rfl : (a : ℚ) = 0 := by simpa using ho
      exact ⟨app, peer, body, p, 0, ht, beq_iff_eq.mp hcall, hmem, by decide +kernel, by simpa using hcommits⟩
    | _ => cases ho
  | _ => cases hcall

theorem submissions_limited_hasty : (List.range 2).map (fun i => (hasty.result i).map (·.succeeds)) = [some true, some false] ∧
    @Submitted .ascii _ ⟨⟨1, 60⟩, true⟩ hasty "10.0.0.7".toList 0 0 ∧ (([0] : List Nat).length : Int) ≤ 1 :=
  ⟨by decide +kernel, hasty_submits, @submissions_limited .ascii _ ⟨⟨1, 60⟩, true⟩ ⟨fun _ => rfl, fun _ => rfl⟩ (by decide) (by decide) potholes
    (.initial potholes) rfl rfl (fun _ _ => rfl) hasty (Pool.schedule_steps _ _ _) "10.0.0.7".toList 0 [0] (List.nodup_singleton 0)
    fun i hi => by rw [List.mem_singleton.mp hi]; exact hasty_submits⟩

end Request

end CivicPulse
