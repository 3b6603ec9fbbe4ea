/-
  CivicPulse.Http.Refusals — the limiter refuses nobody who has not used the limit up.

  Commands that fail, counters that are evicted or expire early, counts that come late: all of
  them only forget submissions, and a Redis that does not answer lets a submission through. A
  complaint that does not validate is counted like any other.
  - `serve_tame`: what stands behind the limiter raises no `RateLimitExceededError`, so a
    response with status 429 is the limiter's.
  - `Visited`: a counter is at most the number of submissions that Redis has counted by it.
  - `refusals_earned`: whoever is refused has been preceded by `limit` others of the same
    client, in the same window.
-/

import CivicPulse.Http.Limits

namespace CivicPulse

open Text Lang

open Function (update)

/-! ## Operations of a run -/

/-- The `n`-th operation, who performed it and what it was answered. -/
def World.Performed (w : World) (n : Nat) (ev : Event) : Prop := ∃ later earlier, w.log = later ++ ev :: earlier ∧ w.ticks = n + 1 + later.length

section

variable [Platform] {E : Env} {i : Nat} {w : World}

theorem World.performed_now (o : Op) : (exec E i o w).2.Performed w.ticks ⟨i, o, (exec E i o w).1⟩ := ⟨[], w.log, rfl, rfl⟩

theorem World.Performed.later {n : Nat} {ev : Event} (h : w.Performed n ev) (o : Op) : (exec E i o w).2.Performed n ev := by
  obtain ⟨later, earlier, hlog, hticks⟩ := h
  refine ⟨⟨i, o, (exec E i o w).1⟩ :: later, earlier, congrArg (List.cons _) hlog, ?_⟩
  show w.ticks + 1 = n + 1 + (later.length + 1)
  omega

end

namespace Request

/-! ## Who answers 429 -/

/-- Anything but a `RateLimitExceededError`. -/
def Tame {α : Type} (r : Except Exc α) : Prop := ∀ n, r ≠ .error (.rateLimitExceededError n)

def Honest : (o : Op) → o.Ans → Prop
  | .get _, r => Tame r
  | .set _ _ _, r => Tame r
  | .delete _, r => Tame r
  | .incr _, r => Tame r
  | .pushTrim _ _ _, r => Tame r
  | .lrange _ _, r => Tame r
  | .incrExpire _ _, r => Tame r
  | .ping, r => Tame r
  | .select _, r => Tame r
  | .selectForUpdate _, r => Tame r
  | .insert _, r => Tame r
  | .updateStatus _ _, r => Tame r
  | .insertRow _, r => Tame r
  | .advisoryLock _, r => Tame r
  | .commit, r => Tame r
  | .triage _ _ _ _, r => Tame r
  | _, _ => True

abbrev TameCode {α : Type} (p : Code α) : Prop := Lets (S := sig) Honest Tame p

section

variable {α β : Type}

theorem tame_ok (a : α) : Tame (.ok a : Except Exc α) := fun n h => by cases h

theorem tame_ofExcept {r : Except Exc α} (h : Tame r) : TameCode (ofExcept r) := by
  cases r with
  | ok a => exact tame_ok a
  | error e => exact h

theorem tame_bind {p : Code α} {f : α → Code β} (hp : TameCode p) (hf : ∀ a, TameCode (f a)) : TameCode (p >>= f) := by
  refine Lets.bind (Lets.mono (fun r hr => ?_) hp)
  cases r with
  | ok a => exact hf a
  | error e => exact fun n h => hr n (by cases h; rfl)

theorem tame_tryCatch {p : Code α} {g : Exc → Code α} (hp : TameCode p) (hg : ∀ e, Tame (.error e : Except Exc α) → TameCode (g e)) :
    TameCode (tryCatch p g) := by
  refine Lets.tryCatch (Lets.mono (fun r hr => ?_) hp)
  cases r with
  | ok a => exact tame_ok a
  | error e => exact hg e hr

theorem tame_exceptRedis {p : Code α} {h : Exc → Code α} (hp : TameCode p) (hh : ∀ e, TameCode (h e)) : TameCode (exceptRedis p h) := by
  refine tame_tryCatch hp fun e he => ?_
  split
  · exact hh e
  · exact he

theorem tame_warn (msg : Str) (extra : List (Str × Str)) : TameCode (warn msg extra) := fun _ _ => tame_ok ()

/-- One operation whose failure is passed on. -/
theorem tame_map {f : α → β} {p : Code α} (hp : TameCode p) : TameCode (f <$> p) := tame_bind hp fun _ => tame_ok _

theorem tame_repository {body : Code α} (h : TameCode body) : TameCode (repository body) := by
  refine tame_bind (tame_tryCatch (tame_tryCatch h fun e he => ?_) fun e he => ?_) fun a => ?_
  · exact fun _ _ => he
  · exact fun _ _ => he
  · exact fun _ _ => tame_ok a

/-! ## Requests -/

theorem tame_incr (k : Str) : TameCode (JsonCache.incr k) :=
  tame_exceptRedis (fun _ hr => tame_map (tame_ofExcept hr)) fun _ => tame_ok ()

theorem tame_set (k : Str) (v : Json) (ttl : Int) : TameCode (JsonCache.set k v ttl) :=
  tame_exceptRedis (fun _ hr => tame_ofExcept hr) fun _ => tame_warn _ _

theorem tame_delete (ks : List Str) : TameCode (JsonCache.delete ks) :=
  tame_exceptRedis (fun _ hr => tame_ofExcept hr) fun _ => tame_warn _ _

theorem tame_push (k : Str) (v : Json) (cap : Int) : TameCode (JsonCache.pushCapped k v cap) :=
  tame_exceptRedis (fun _ hr => tame_ofExcept hr) fun _ => tame_ok ()

variable [Platform]

theorem tame_get (k : Str) : TameCode (JsonCache.get k) := by
  refine tame_bind (tame_exceptRedis (fun _ hr => tame_ofExcept hr) fun e => ?_) fun raw => ?_
  · exact tame_bind (tame_warn _ _) fun _ => tame_ok _
  · cases raw with
    | none => exact tame_ok _
    | some raw =>
      refine tame_ofExcept fun n h => ?_
      rcases jsonLoadsBytes_error h with h | h | h | h <;> cases h

omit [Platform] in
theorem tame_aggregates : TameCode Repository.aggregates := by
  have hgrouped : ∀ col, TameCode (Repository.grouped col) := fun col _ hr => tame_bind (tame_ofExcept hr) fun _ => tame_ok _
  refine fun _ hr => tame_bind (tame_ofExcept hr) fun _ => tame_bind (hgrouped _) fun _ => ?_
  exact tame_bind (hgrouped _) fun _ => tame_bind (hgrouped _) fun _ => tame_bind (hgrouped _) fun _ => tame_ok _

theorem tame_stats (ttl : Int) : TameCode (StatsService.get ttl) := by
  have hcompute : TameCode (StatsService.compute ttl) :=
    tame_bind tame_aggregates fun _ _ _ => tame_bind (tame_set _ _ _) fun _ => tame_ok _
  have hvalid : ∀ j, TameCode (do return (← ofExcept (StatsOut.modelValidate j), true) : Code (StatsOut × Bool)) := by
    intro j
    refine tame_bind (tame_ofExcept fun n h => ?_) fun _ => tame_ok _
    unfold StatsOut.modelValidate at h
    split at h
    · split at h <;> cases h
    · cases h
  refine tame_bind (tame_get _) fun j => ?_
  cases j with
  | null => exact hcompute
  | _ => exact hvalid _

theorem tame_record (id : Str) (o : TriageOutcome) : TameCode (TriageService.record id o) :=
  fun _ _ => tame_bind (tame_push _ _ _) fun _ => tame_ok _

omit [Platform] in
theorem tame_subscript (key : Str) (j : Json) : Tame (subscript key j) := by
  intro n h
  unfold subscript at h
  split at h
  · split at h <;> cases h
  · cases h

theorem tame_result (key : Str) (j : Json) : Tame ((subscript key j).bind TriageResult.modelValidate) := by
  intro n h
  cases hs : subscript key j with
  | error e =>
    rw [hs] at h
    cases h
    exact tame_subscript key j n hs
  | ok r =>
    rw [hs] at h
    cases TriageResult.modelValidate_error h

theorem tame_fromCache (id key : Str) (started : ℚ) : TameCode (TriageService.fromCache id key started) := by
  have houtcome : ∀ j, TameCode (TriageService.outcomeOf started j) := fun j =>
    tame_bind (tame_ofExcept (tame_result _ _)) fun _ => tame_bind (tame_ofExcept (tame_subscript _ _)) fun _ =>
      tame_bind (fun _ _ => tame_ok _) fun _ => tame_ok _
  refine tame_bind (tame_get _) fun cached => ?_
  split
  · exact tame_ok _
  · refine tame_tryCatch (tame_bind (houtcome _) fun _ => tame_bind (tame_incr _) fun _ => tame_bind (tame_record _ _) fun _ =>
      tame_ok _) fun e he => ?_
    split
    · exact tame_bind (tame_delete _) fun _ => tame_ok _
    · exact he

omit [Platform] in
theorem tame_ask (svc : TriageService) (id key : Str) (started : ℚ) (text location : Str) :
    TameCode (svc.ask id key started text location) := by
  refine tame_tryCatch ?_ fun e _ => ?_
  · refine tame_bind (fun _ hr => tame_ofExcept hr) fun result => tame_bind (fun _ _ => tame_ok _) fun _ => ?_
    refine tame_bind (tame_ofExcept ?_) fun _ => tame_bind (tame_set _ _ _) fun _ => tame_ok _
    cases result with
    | none => exact fun n h => by cases h
    | some r => exact tame_ok _
  · exact tame_bind (tame_warn _ _) fun _ => tame_bind (fun _ hr => tame_ofExcept hr) fun _ =>
      tame_bind (fun _ _ => tame_ok _) fun _ => tame_ok _

theorem tame_triage (svc : TriageService) (id text location : Str) : TameCode (svc.triage id text location) := by
  refine fun _ _ => tame_bind (tame_fromCache _ _ _) fun answered => ?_
  cases answered with
  | some o => exact tame_ok o
  | none => exact tame_bind (tame_incr _) fun _ => tame_bind (tame_ask _ _ _ _ _ _) fun _ => tame_record _ _

omit [Platform] in
theorem tame_committed (row : Complaint) : TameCode (do Repository.commit; StatsService.invalidate; return row : Code Complaint) :=
  fun _ hr => tame_bind (tame_ofExcept hr) fun _ => tame_bind (tame_delete _) fun _ => tame_ok row

/-- What stands behind the limiter answers otherwise. -/
theorem serve_tame (c : App × Call) : TameCode (serve c) := by
  obtain ⟨app, call⟩ := c
  refine tame_repository ?_
  cases call with
  | create data =>
    refine tame_map fun _ _ => tame_bind (tame_triage _ _ _ _) fun outcome => ?_
    split
    · exact fun n h => by cases h
    · exact fun _ hr => tame_bind (tame_ofExcept hr) fun row => tame_committed row
  | changeStatus id target =>
    refine tame_map fun _ hr => tame_bind (tame_ofExcept hr) fun found => ?_
    cases found with
    | none => exact fun n h => by cases h
    | some row =>
      show TameCode (if _ then _ else _)
      split
      · exact fun _ hr => tame_bind (tame_bind (tame_ofExcept hr) fun _ => tame_ok _) fun row => tame_committed row
      · exact fun _ _ n h => by cases h
  | stats => exact tame_map (tame_stats _)
  | get id =>
    refine tame_map (tame_bind (fun _ hr => tame_ofExcept hr) fun found => ?_)
    cases found with
    | none => exact fun n h => by cases h
    | some row => exact tame_ok row
  | list f page pageSize =>
    exact tame_map fun _ hr => tame_bind (tame_ofExcept hr) fun _ _ hr => tame_bind (tame_ofExcept hr) fun _ => tame_ok _
  | invalid errors => exact fun n h => by cases h

end

/-! ## What the machine answers -/

/-- No provider raises the limiter's exception. -/
def Modest (E : Env) : Prop := ∀ n name text location, Tame (E.reply n name text location)

section

variable {α : Type} {E : Env} {i : Nat} {w : World}

theorem tame_redis {r : Except Exc α} (h : Redis.Answers r) : Tame r := by
  intro n hr
  have := h _ hr
  cases this

theorem tame_dbOp {stmt : Db → Except Exc α × Db} (h : ∀ db, Tame (stmt db).1) : Tame (w.dbOp E stmt).1 := by
  unfold World.dbOp
  split
  · exact fun n h => by cases h
  · exact h _

theorem tame_refused : Tame (.error World.refused : Except Exc α) := fun n h => by cases h

variable [Platform]

theorem exec_honest (hE : Modest E) (o : Op) : Honest o (World.exec E i o w).1 := by
  cases o with
  | get k => exact tame_redis (Redis.answers_faulty (fun _ => Redis.answers_get) _ _)
  | set k v ex => exact tame_redis (Redis.answers_faulty (fun _ => Redis.answers_set) _ _)
  | delete ks => exact tame_redis (Redis.answers_faulty (fun _ => Redis.answers_ok _) _ _)
  | incr k => exact tame_redis (Redis.answers_faulty (fun _ => Redis.answers_incr) _ _)
  | pushTrim k v n => exact tame_redis (Redis.answers_faulty (fun _ => Redis.answers_pushTrim) _ _)
  | lrange k n =>
    refine tame_redis (Redis.answers_faulty (fun r => ?_) _ _)
    unfold Redis.lrange
    split
    · exact Redis.answers_ok _
    · exact Redis.answers_ok _
    · exact Redis.answers_error _
  | incrExpire k ttl => exact tame_redis (Redis.answers_faulty (fun _ => Redis.answers_incrExpire) _ _)
  | ping => exact tame_redis (Redis.answers_faulty (fun _ => Redis.answers_ok _) _ _)
  | select q =>
    refine tame_dbOp fun db => ?_
    unfold World.selectStmt
    split
    · exact tame_ok _
    · exact tame_refused
  | selectForUpdate id =>
    refine tame_dbOp fun db => ?_
    unfold World.selectForUpdateStmt
    split <;> exact tame_ok _
  | insert d =>
    refine tame_dbOp fun db => ?_
    unfold World.insertStmt
    split
    · exact tame_refused
    · split
      · split
        · exact tame_refused
        · exact tame_ok _
      · exact tame_refused
  | updateStatus id s => exact tame_dbOp fun db => tame_ok _
  | insertRow c =>
    refine tame_dbOp fun db => ?_
    unfold World.insertRowStmt
    split
    · split
      · exact tame_refused
      · exact tame_ok _
    · exact tame_refused
  | advisoryLock key => exact tame_dbOp fun db => tame_ok _
  | commit => exact tame_dbOp fun db => tame_ok _
  | triage role p text location =>
    cases p with
    | rules =>
      intro n h
      rw [World.exec_rules] at h
      cases hr : Rules.triage text location with
      | ok r =>
        rw [hr] at h
        cases h
      | error e =>
        rw [hr] at h
        unfold Rules.triage at hr
        rw [TriageResult.ofFields_error hr] at h
        cases h
    | external name => exact hE _ _ _ _
  | _ => trivial

end

/-! ## Visits -/

/-- Redis has executed the command: it has answered, or no more than its answer was lost. -/
def Took (f : Option Redis.Fault) : Except Exc Int → Prop
  | .ok _ => True
  | .error _ => ∃ cls, f = some (.late cls)

/-- How far a submission is with the limiter; the operation that was to count it, and what
    that was answered. -/
inductive Visit where
  | blank (identity : Str)
  | timed (identity : Str) (t : ℚ)
  | counted (identity : Str) (t : ℚ) (n : Nat) (answer : Except Exc Int)

def Visit.identity : Visit → Str
  | blank identity | timed identity _ | counted identity _ _ _ => identity

/-- The operation leaves the limiter's counters to themselves. -/
def LeavesCounters (o : Op) : Prop := ∀ identity start, ¬ o.Touches (RateLimiter.key identity start)

def visits (l : RateLimiter) : Protocol sig (Option Visit) where
  can
    | some (.blank _), o => o = .time
    | some (.timed identity t), o => o = .incrExpire (RateLimiter.key identity (l.windowStart t)) (l.window + 1)
    | some (.counted _ _ _ _), o => LeavesCounters o
    | none, o => LeavesCounters o
  step n o r n' := Honest o r ∧ match n with
    | some (.blank identity) => ∃ t : ℚ, (⟨o, r⟩ : Σ o : Op, o.Ans) = ⟨.time, t⟩ ∧ n' = some (.timed identity t)
    | some (.timed identity t) => ∃ (k : Str) (ttl : Int) (m : Nat) (a : Except Exc Int), (⟨o, r⟩ : Σ o : Op, o.Ans) = ⟨.incrExpire k ttl, a⟩ ∧
        n' = some (.counted identity t m a)
    | n => n' = n

/-- A submission's visit begins blank; other calls make none. -/
def visit (g : Gate) (c : App × Route) : Option Visit := c.2.submitter.map fun peer => .blank (clientIp peer g.trustProxyHeaders)

/-- A response with status 429 is what a count beyond the limit comes to. -/
def Refused (l : RateLimiter) (n : Option Visit) (r : Except Exc Answer) : Prop :=
  ∀ resp, r = .ok (.response resp) → resp.status = 429 → ∃ identity t m count, n = some (.counted identity t m (.ok count)) ∧ l.limit < count

section

variable {g : Gate} {n : Option Visit}

theorem handler_tame {e : Exc} (h : Tame (.error e : Except Exc Reply)) {resp : Response} (hresp : handler e = .response resp) :
    resp.status ≠ 429 := by
  unfold handler at hresp
  split at hresp
  · cases hresp
    exact (by decide : 400 ≠ 429)
  · cases hresp
    exact (by decide : 404 ≠ 429)
  · cases hresp
    exact (by decide : 409 ≠ 429)
  · exact absurd rfl (h _)
  · cases hresp

theorem answer_tame (c : App × Route) {x : Except Exc Reply} (h : Tame x) {resp : Response} (hresp : answer c x = .response resp) :
    resp.status ≠ 429 := by
  cases x with
  | error e => exact handler_tame h hresp
  | ok reply =>
    have hstatus : c.2.status ≠ 429 := by
      obtain ⟨app, r⟩ := c
      cases r <;> simp [Route.status]
    cases reply <;> cases hresp <;> exact hstatus

variable [Platform]

/-- Whoever is let in is not refused any more. -/
theorem visits_admitted (hn : ∀ o, LeavesCounters o → (visits g.limiter).can n o)
    (hstay : ∀ o r n', (visits g.limiter).step n o r n' → LeavesCounters o → n' = n) (c : App × Route) (d : App × Call) :
    Follows (visits g.limiter) (Refused g.limiter) n ((serve d).exits (answer c)) := by
  have hends := Lets.exits (f := answer c) (serve_tame d)
  refine Follows.mono (fun n' r h => ?_) (Lets.follows (T := visits g.limiter) (A := LeavesCounters) hn
    (fun o ho r n' hs => ⟨hs.1, hstay o r n' hs ho⟩) (Prog.uses_mono (fun o ho => ho.2) (Prog.uses_exits _ (serve_spares d))) hends)
  obtain ⟨-, x, hx, hr⟩ := h
  intro resp hresp h429
  rw [hr] at hresp
  exact absurd h429 (answer_tame c hx (Except.ok.inj hresp))

theorem visits_decided (c : App × Route) {identity : Str} {t : ℚ} {m : Nat} {count : Int} :
    Follows (visits g.limiter) (Refused g.limiter) (some (.counted identity t m (.ok count)))
      ((tryCatch (do (if (g.limiter.decide t count).allowed then return ()
                        else throw (.rateLimitExceededError (g.limiter.decide t count).retryAfter) : Code Unit)
                     return .inr (c.1, c.2.call)) fun e => return .inl (handler e)) >>=
        Sum.elim .ret fun d => (serve d).exits (answer c)) := by
  by_cases h : (g.limiter.decide t count).allowed = true
  · rw [if_pos h]
    exact visits_admitted (n := some (.counted identity t m (.ok count))) (fun o ho => ho) (fun o r n' hs _ => hs.2) c (c.1, c.2.call)
  · rw [if_neg h]
    have hlt : g.limiter.limit < count := by
      by_contra hle
      exact h ((RateLimiter.allowed_iff t count).mpr (by omega))
    exact fun resp _ _ => ⟨identity, t, m, count, rfl, hlt⟩

theorem visits_api (c : App × Route) : Follows (visits g.limiter) (Refused g.limiter) (visit g c) (api g c) := by
  rw [api_eq, fronted, front, visit]
  cases c.2.submitter with
  | none => exact visits_admitted (n := none) (fun o ho => ho) (fun o r n' hs _ => hs.2) _ _
  | some peer =>
    refine ⟨rfl, fun now n' hs => ?_⟩
    obtain ⟨-, t, ht, rfl⟩ := hs
    cases ht
    refine ⟨rfl, fun r n' hs => ?_⟩
    obtain ⟨hr, k, ttl, m, a, ha, rfl⟩ := hs
    cases ha
    cases r with
    | ok count => exact visits_decided c
    | error e =>
      have hadmitted : Follows (visits g.limiter) (Refused g.limiter) (some (.counted (clientIp peer g.trustProxyHeaders) now m (.error e)))
          ((serve (c.1, c.2.call)).exits (answer c)) :=
        visits_admitted (n := some (.counted _ now m (.error e))) (fun o ho => ho) (fun o r n' hs _ => hs.2) _ _
      have he : Tame (.error e : Except Exc Reply) := fun n h => hr n (by cases h; rfl)
      have hraised : Refused g.limiter (some (.counted (clientIp peer g.trustProxyHeaders) now m (.error e))) (.ok (handler e)) :=
        fun resp hresp h429 => absurd h429 (handler_tame he (Except.ok.inj hresp))
      -- only a `RedisError` is caught
      cases e with
      | redisError cls =>
        refine ⟨fun _ _ h => h, fun _ n' hs => ?_⟩
        obtain rfl : n' = _ := hs.2
        exact hadmitted
      | _ => exact hraised

end

/-! ## Counters count visits -/

section

variable {now : ℚ} {key : Str} {r : Redis} {m : Int}

/-- What stands under the key is a number up to `m`, if anything. -/
def UpTo (r : Redis) (key : Str) (m : Int) : Prop := ∀ e, r key = some e → ∃ N T, e = ⟨.int N, T⟩ ∧ N ≤ m

theorem upTo_put {N : Int} (hN : N ≤ m) (T : Option ℚ) : UpTo (r.put key ⟨.int N, T⟩) key m := by
  intro e he
  rw [Redis.put_self] at he
  cases he
  exact ⟨N, T, rfl, hN⟩

/-- One more; a counter is never of a wrong type. -/
theorem upTo_incr (h : UpTo r key m) (hm : 0 ≤ m) :
    UpTo (Redis.incr now key r).2 key (m + 1) ∧ ∃ c, (Redis.incr now key r).1 = .ok c ∧ c ≤ m + 1 := by
  unfold Redis.incr
  split
  · exact ⟨upTo_put (by omega) _, 1, rfl, by omega⟩
  · rename_i n t hl
    obtain ⟨N, T, hN, hle⟩ := h _ (Redis.live_some hl)
    cases hN
    exact ⟨upTo_put (by omega) _, _, rfl, by omega⟩
  · rename_i e hne hl
    obtain ⟨N, T, rfl, -⟩ := h _ (Redis.live_some hl)
    exact absurd rfl (hne N T)

theorem upTo_expire (h : UpTo r key m) (ttl : Int) : UpTo (Redis.expire now key ttl r) key m := by
  unfold Redis.expire
  split
  · exact h
  · rename_i e hl
    obtain ⟨N, T, rfl, hle⟩ := h e (Redis.live_some hl)
    split
    · exact upTo_put hle _
    · exact fun e' he => h e' (Redis.drop_some he)

theorem upTo_incrExpire (now : ℚ) (h : UpTo r key m) (hm : 0 ≤ m) (ttl : Int) :
    UpTo (Redis.incrExpire now key ttl r).2 key (m + 1) ∧ ∃ c, (Redis.incrExpire now key ttl r).1 = .ok c ∧ c ≤ m + 1 :=
  ⟨upTo_expire (upTo_incr h hm).1 ttl, (upTo_incr h hm).2⟩

end

section

variable [Platform] {E : Env} {l : RateLimiter} {w w' : World} {ns : Nat → Option (Option Visit)} {i : Nat} {n n' : Option Visit} {o : Op}

/-- The counter is one further, or the command was lost. -/
theorem exec_upTo {key : Str} {m : Int} (h : UpTo w.redis key m) (hm : 0 ≤ m) (ttl : Int) :
    (Took (E.fault w.ticks) (World.exec E i (.incrExpire key ttl) w).1 ∧ UpTo (World.exec E i (.incrExpire key ttl) w).2.redis key (m + 1) ∧
      ∀ c, (World.exec E i (.incrExpire key ttl) w).1 = .ok c → c ≤ m + 1) ∨
    (UpTo (World.exec E i (.incrExpire key ttl) w).2.redis key m ∧ ∀ c, (World.exec E i (.incrExpire key ttl) w).1 ≠ .ok c) := by
  have hcache : UpTo (w.cache E) key m := fun e he => h e (World.cache_some he)
  obtain ⟨hredis, c, hans, hc⟩ := upTo_incrExpire (w.now E) hcache hm ttl
  have hexec : ∀ f, E.fault w.ticks = f → World.exec E i (.incrExpire key ttl) w = ((Redis.faulty f (Redis.incrExpire (w.now E) key ttl) (w.cache E)).1,
      { (World.exec E i (.incrExpire key ttl) w).2 with
        redis := (Redis.faulty f (Redis.incrExpire (w.now E) key ttl) (w.cache E)).2 }) := by
    rintro f rfl
    rfl
  match hf : E.fault w.ticks with
  | none =>
    rw [hexec _ hf]
    refine .inl ⟨?_, hredis, fun c' hc' => ?_⟩
    · show Took none (Redis.incrExpire (w.now E) key ttl (w.cache E)).1
      rw [hans]
      trivial
    · have hc' : (Redis.incrExpire (w.now E) key ttl (w.cache E)).1 = .ok c' := hc'
      rw [hans] at hc'
      cases hc'
      exact hc
  | some (.late cls) =>
    rw [hexec _ hf]
    exact .inl ⟨⟨cls, rfl⟩, hredis, fun c hc => by cases hc⟩
  | some (.lost cls) =>
    rw [hexec _ hf]
    exact .inr ⟨hcache, nofun⟩

/-- Nobody else puts anything under the limiter's keys. -/
theorem exec_leaves {key : Str} (ho : ¬ o.Touches key) {e : Entry} (h : (World.exec E i o w).2.redis key = some e) : w.redis key = some e := by
  rcases World.exec_redis h with h | ⟨v, ex, rfl, -⟩ | rfl | ⟨v, n, rfl⟩ | ⟨ttl, rfl⟩
  · exact h
  · exact absurd rfl ho
  · exact absurd rfl ho
  · exact absurd rfl ho
  · exact absurd rfl ho

/-- Operation `n` has counted request `j` there. -/
def CountedAt (E : Env) (l : RateLimiter) (ns : Nat → Option (Option Visit)) (identity : Str) (start : Int) (n j : Nat) : Prop :=
  ∃ t a, ns j = some (some (.counted identity t n a)) ∧ l.windowStart t = start ∧ Took (E.fault n) a

/-- So many different requests have been counted there, that `N` is not beyond them. -/
def Backed (E : Env) (l : RateLimiter) (ns : Nat → Option (Option Visit)) (identity : Str) (start N : Int) : Prop :=
  ∃ is : List Nat, is.Nodup ∧ N ≤ is.length ∧ ∀ j ∈ is, ∃ n, CountedAt E l ns identity start n j

structure Visited (E : Env) (l : RateLimiter) (w : World) (ns : Nat → Option (Option Visit)) : Prop where
  counters : ∀ identity start, ∃ m, 0 ≤ m ∧ UpTo w.redis (RateLimiter.key identity start) m ∧ Backed E l ns identity start m
  earned : ∀ i identity t n count, ns i = some (some (.counted identity t n (.ok count))) →
    ∃ is : List Nat, is.Nodup ∧ i ∉ is ∧ count ≤ is.length + 1 ∧ ∀ j ∈ is, ∃ m < n, CountedAt E l ns identity (l.windowStart t) m j
  clock : ∀ i identity t, ns i = some (some (.timed identity t)) → (⟨.time, t⟩ : Σ o : Op, o.Ans) ∈ w.trace i
  performed : ∀ i identity t n a, ns i = some (some (.counted identity t n a)) → (⟨.time, t⟩ : Σ o : Op, o.Ans) ∈ w.trace i ∧
    w.Performed n ⟨i, .incrExpire (RateLimiter.key identity (l.windowStart t)) (l.window + 1), a⟩

/-- The request stands at a count. -/
def Visit.IsCounted (m : Option Visit) : Prop := ∃ identity t n a, m = some (.counted identity t n a)

omit [Platform] in
theorem CountedAt.update {identity : Str} {start : Int} {n j : Nat} (h : CountedAt E l ns identity start n j)
    (hkeep : ∀ m, ns i = some m → Visit.IsCounted m → m = n') : CountedAt E l (update ns i (some n')) identity start n j := by
  obtain ⟨t, a, hj, hrest⟩ := h
  by_cases e : j = i
  · refine ⟨t, a, ?_, hrest⟩
    rw [e] at hj ⊢
    rw [Function.update_self, ← hkeep _ hj ⟨_, _, _, _, rfl⟩]
  · exact ⟨t, a, (Function.update_of_ne e _ _).trans hj, hrest⟩

omit [Platform] in
theorem Backed.update {identity : Str} {start N : Int} (h : Backed E l ns identity start N)
    (hkeep : ∀ m, ns i = some m → Visit.IsCounted m → m = n') : Backed E l (update ns i (some n')) identity start N := by
  obtain ⟨is, hn, hle, his⟩ := h
  exact ⟨is, hn, hle, fun j hj => (his j hj).imp fun _ hc => hc.update hkeep⟩

omit [Platform] in
/-- Whoever has been counted has been so by an operation of the run. -/
theorem CountedAt.lt {identity : Str} {start : Int} {n j : Nat} (h : CountedAt E l ns identity start n j) (hv : Visited E l w ns) :
    n < w.ticks := by
  obtain ⟨t, a, hj, -⟩ := h
  obtain ⟨-, later, earlier, -, hticks⟩ := hv.performed j identity t n a hj
  omega

/-- An operation that counts nobody, after which the request stands at `n'`. -/
theorem Visited.still (h : Visited E l w ns) (ho : LeavesCounters o) (hkeep : ∀ m, ns i = some m → Visit.IsCounted m → m = n')
    (hnew : Visit.IsCounted n' → ns i = some n')
    (hclock : ∀ identity t, n' = some (.timed identity t) → (⟨.time, t⟩ : Σ o : Op, o.Ans) ∈ (World.exec E i o w).2.trace i) :
    Visited E l (World.exec E i o w).2 (update ns i (some n')) := by
  have hold : ∀ {j identity t n a}, update ns i (some n') j = some (some (.counted identity t n a)) → ns j = some (some (.counted identity t n a)) := by
    intro j identity t n a hj
    rcases update_some hj with ⟨rfl, e⟩ | ⟨-, hj⟩
    · rw [e]
      exact hnew ⟨_, _, _, _, e.symm⟩
    · exact hj
  refine ⟨fun identity start => ?_, fun j identity t n count hj => ?_, fun j identity t hj => ?_, fun j identity t n a hj => ?_⟩
  · obtain ⟨m, hm, hup, hbacked⟩ := h.counters identity start
    exact ⟨m, hm, fun e he => hup e (exec_leaves (ho identity start) he), hbacked.update hkeep⟩
  · obtain ⟨is, hn, hi, hle, his⟩ := h.earned j identity t n count (hold hj)
    exact ⟨is, hn, hi, hle, fun j' hj' => (his j' hj').imp fun _ hc => ⟨hc.1, hc.2.update hkeep⟩⟩
  · rcases update_some hj with ⟨rfl, e⟩ | ⟨-, hj⟩
    · exact hclock identity t e.symm
    · exact World.mem_trace_exec (h.clock j identity t hj)
  · obtain ⟨htime, hcount⟩ := h.performed j identity t n a (hold hj)
    exact ⟨World.mem_trace_exec htime, hcount.later o⟩

/-- A submission asks to be counted. -/
theorem Visited.count {identity : Str} {t : ℚ} (h : Visited E l w ns) (hi : ns i = some (some (.timed identity t))) {a : Except Exc Int}
    (ha : (World.exec E i (.incrExpire (RateLimiter.key identity (l.windowStart t)) (l.window + 1)) w).1 = a) :
    Visited E l (World.exec E i (.incrExpire (RateLimiter.key identity (l.windowStart t)) (l.window + 1)) w).2
      (update ns i (some (some (.counted identity t w.ticks a)))) := by
  obtain ⟨m, hm, hup, is, hn, hle, his⟩ := h.counters identity (l.windowStart t)
  have hcounted := exec_upTo (E := E) (i := i) hup hm (l.window + 1)
  rw [ha] at hcounted
  have hmem : i ∉ is := by
    intro hmem
    obtain ⟨_, _, _, hc, -⟩ := his i hmem
    rw [hi] at hc
    cases hc
  have hkeep : ∀ {n'} m', ns i = some m' → Visit.IsCounted m' → m' = n' := by
    intro n' m' hm' hc
    obtain ⟨_, _, _, _, rfl⟩ := hc
    rw [hi] at hm'
    cases hm'
  refine ⟨fun identity' start' => ?_, fun j identity' t' n count hj => ?_, fun j identity' t' hj => ?_, fun j identity' t' n a' hj => ?_⟩
  · by_cases hsame : identity' = identity ∧ start' = l.windowStart t
    · obtain ⟨rfl, rfl⟩ := hsame
      rcases hcounted with ⟨htook, hup', -⟩ | ⟨hup', -⟩
      · refine ⟨m + 1, by omega, hup', i :: is, List.nodup_cons.mpr ⟨hmem, hn⟩, by rw [List.length_cons]; omega, fun j hj => ?_⟩
        rcases List.mem_cons.mp hj with rfl | hj
        · exact ⟨w.ticks, t, _, Function.update_self .., rfl, htook⟩
        · exact (his j hj).imp fun _ hc => hc.update hkeep
      · exact ⟨m, hm, hup', is, hn, hle, fun j hj => (his j hj).imp fun _ hc => hc.update hkeep⟩
    · obtain ⟨m', hm', hup, hbacked⟩ := h.counters identity' start'
      refine ⟨m', hm', fun e he => hup e (exec_leaves (fun hk => hsame ?_) he), hbacked.update hkeep⟩
      exact RateLimiter.key_inj hk
  · rcases update_some hj with ⟨rfl, e⟩ | ⟨-, hj⟩
    · cases e
      rcases hcounted with ⟨-, -, hc⟩ | ⟨-, hc⟩
      · have hcount := hc count rfl
        exact ⟨is, hn, hmem, by omega, fun j hj => (his j hj).imp fun _ hc => ⟨hc.lt h, hc.update hkeep⟩⟩
      · exact absurd rfl (hc count)
    · obtain ⟨is', hn', hj', hle', his'⟩ := h.earned j identity' t' n count hj
      exact ⟨is', hn', hj', hle', fun k hk => (his' k hk).imp fun _ hc => ⟨hc.1, hc.2.update hkeep⟩⟩
  · rcases update_some hj with ⟨-, e⟩ | ⟨-, hj⟩
    · cases e
    · exact World.mem_trace_exec (h.clock j identity' t' hj)
  · rcases update_some hj with ⟨rfl, e⟩ | ⟨-, hj⟩
    · cases e
      refine ⟨World.mem_trace_exec (h.clock j identity t hi), ?_⟩
      rw [← ha]
      exact World.performed_now _
    · obtain ⟨htime, hcount⟩ := h.performed j identity' t' n a' hj
      exact ⟨World.mem_trace_exec htime, hcount.later _⟩

/-- Every operation of a request. -/
theorem visited_exec (hE : Modest E) (h : Visited E l w ns) (hi : ns i = some n) (hcan : (visits l).can n o) :
    ∃ n', (visits l).step n o (World.exec E i o w).1 n' ∧ Visited E l (World.exec E i o w).2 (update ns i (some n')) ∧
      n'.map Visit.identity = n.map Visit.identity := by
  have hhonest : Honest o (World.exec E i o w).1 := exec_honest hE o
  have hstay : ∀ m, ns i = some m → Visit.IsCounted m → m = n := by
    intro m hm _
    rw [hi] at hm
    exact (Option.some.inj hm).symm
  cases n with
  | none => exact ⟨none, ⟨hhonest, rfl⟩, h.still hcan hstay (fun _ => hi) (fun _ _ e => by cases e), rfl⟩
  | some v =>
    cases v with
    | blank identity =>
      obtain rfl : o = .time := hcan
      refine ⟨some (.timed identity (w.now E)), ⟨hhonest, _, rfl, rfl⟩, h.still (fun _ _ h => h) (fun m hm hc => ?_)
        (fun ⟨_, _, _, _, e⟩ => by cases e) (fun identity' t e => ?_), rfl⟩
      · obtain ⟨_, _, _, _, rfl⟩ := hc
        rw [hi] at hm
        cases hm
      · cases e
        rw [World.trace_exec]
        exact List.mem_cons_self
    | timed identity t =>
      obtain rfl : o = .incrExpire _ _ := hcan
      exact ⟨_, ⟨hhonest, _, _, w.ticks, _, rfl, rfl⟩, h.count hi rfl, rfl⟩
    | counted identity t m a =>
      exact ⟨some (.counted identity t m a), ⟨hhonest, rfl⟩, h.still hcan hstay (fun _ => hi) (fun _ _ e => by cases e), rfl⟩

/-! ## Runs -/

def refusing (g : Gate) (E : Env) : Outline (machine E) (App × Route) Answer (Option Visit) where
  toProtocol := visits g.limiter
  post _ := Refused g.limiter
  inv := Visited E g.limiter
  belongs c n := n.map Visit.identity = (visit g c).map Visit.identity

theorem refusing_sound (g : Gate) (hE : Modest E) : (refusing g E).Sound (api g) where
  start := by
    intro w ns i c h hi
    have hback : ∀ {j v}, update ns i (some (visit g c)) j = some (some v) → (∃ identity, v = .blank identity) ∨ ns j = some (some v) := by
      intro j v hj
      rcases update_some hj with ⟨-, e⟩ | ⟨-, hj⟩
      · obtain ⟨peer, -, hpeer⟩ := Option.map_eq_some_iff.mp e.symm
        exact .inl ⟨_, hpeer.symm⟩
      · exact .inr hj
    have hkeep : ∀ m, ns i = some m → Visit.IsCounted m → m = visit g c := by
      intro m hm _
      rw [hi] at hm
      cases hm
    refine ⟨visit g c, ⟨fun identity start => ?_, fun j identity t n count hj => ?_, fun j identity t hj => ?_,
      fun j identity t n a hj => ?_⟩, rfl, visits_api c⟩
    · obtain ⟨m, hm, hup, hbacked⟩ := h.counters identity start
      exact ⟨m, hm, hup, hbacked.update hkeep⟩
    · rcases hback hj with ⟨_, e⟩ | hj
      · cases e
      · obtain ⟨is, hn, hj', hle, his⟩ := h.earned j identity t n count hj
        exact ⟨is, hn, hj', hle, fun k hk => (his k hk).imp fun _ hc => ⟨hc.1, hc.2.update hkeep⟩⟩
    · rcases hback hj with ⟨_, e⟩ | hj
      · cases e
      · exact h.clock j identity t hj
    · rcases hback hj with ⟨_, e⟩ | hj
      · cases e
      · exact h.performed j identity t n a hj
  exec := by
    intro w ns i n o h hi hcan hen
    obtain ⟨n', hs, h', hid⟩ := visited_exec (E := E) hE h hi hcan
    exact ⟨n', hs, h', fun c hc => hid.trans hc⟩

/-- A submission of the client that Redis has counted, by the run's operation `n`, in the window
    that begins at `start`; its body need not validate. -/
structure CountedIn (g : Gate) (P : Pool (machine E) (App × Route) Answer) (identity : Str) (start : Int) (n i : Nat) : Prop where
  submits : ∃ c p peer, P.threads i = some ⟨c, p⟩ ∧ c.2.submitter = some peer ∧ clientIp peer g.trustProxyHeaders = identity
  clock : ∃ t, (⟨.time, t⟩ : Σ o : Op, o.Ans) ∈ P.shared.trace i ∧ g.limiter.windowStart t = start
  counted : ∃ a, P.shared.Performed n ⟨i, .incrExpire (RateLimiter.key identity start) (g.limiter.window + 1), a⟩ ∧ Took (E.fault n) a

theorem countedIn_of {g : Gate} {P : Pool (machine E) (App × Route) Answer} (hP : (refusing g E).At P ns) {identity : Str} {start : Int}
    {m : Nat} (h : CountedAt E g.limiter ns identity start m i) : CountedIn g P identity start m i := by
  obtain ⟨t, a, hi, rfl, htook⟩ := h
  obtain ⟨htime, hcount⟩ := hP.inv.performed i identity t m a hi
  refine ⟨?_, ⟨t, htime, rfl⟩, a, hcount, htook⟩
  cases ht : P.threads i with
  | none =>
    rw [hP.idle i ht] at hi
    cases hi
  | some u =>
    obtain ⟨m, hm, hb, -⟩ := hP.busy i u ht
    rw [hi] at hm
    cases hm
    obtain ⟨c, p⟩ := u
    obtain ⟨v, hv, hid⟩ := Option.map_eq_some_iff.mp (Eq.symm hb)
    obtain ⟨peer, hpeer, rfl⟩ := Option.map_eq_some_iff.mp hv
    exact ⟨c, p, peer, rfl, hpeer, hid⟩

/-- Whatever Redis and the clock do: a submission is refused only after Redis has counted
    `limit` other submissions of its client in the same window. -/
theorem refusals_earned {g : Gate} (hE : Modest E) {w₀ : World} (hredis : ∀ identity start, w₀.redis (RateLimiter.key identity start) = none)
    {P : Pool (machine E) (App × Route) Answer} (hP : Pool.Steps (api g) (.fresh w₀) P) {i : Nat} {c : App × Route} {resp : Response}
    (ht : P.threads i = some ⟨c, .ret (.response resp)⟩) (h429 : resp.status = 429) :
    ∃ identity start n, CountedIn g P identity start n i ∧
      ∃ is : List Nat, is.Nodup ∧ i ∉ is ∧ g.limiter.limit ≤ is.length ∧ ∀ j ∈ is, ∃ m < n, CountedIn g P identity start m j := by
  have hinit : Visited E g.limiter w₀ fun _ => none := by
    refine ⟨fun identity start => ⟨0, le_refl _, fun e he => ?_, [], List.nodup_nil, le_refl _, fun j hj => by cases hj⟩,
      fun _ _ _ _ _ h => (by cases h), fun _ _ _ h => (by cases h), fun _ _ _ _ _ h => by cases h⟩
    rw [hredis] at he
    cases he
  obtain ⟨ns, hAt⟩ := Outline.keeps (refusing_sound g hE) hP (Outline.fresh_holds hinit)
  obtain ⟨v, hv, hpost⟩ := hAt.returned ht
  obtain ⟨identity, t, n, count, rfl, hlt⟩ := hpost resp rfl h429
  obtain ⟨is, hnodup, hi, hle, his⟩ := hAt.inv.earned i identity t n count hv
  exact ⟨identity, g.limiter.windowStart t, n, countedIn_of hAt ⟨t, _, hv, rfl, trivial⟩, is, hnodup, hi, by omega,
    fun j hj => (his j hj).imp fun _ hc => ⟨hc.1, countedIn_of hAt hc.2⟩⟩

end

/-! ## A complaint that does not validate -/

def Answer.status : Answer → Option Nat
  | .response r => some r.status
  | .failed _ => none

/-- One complaint a minute, and the first one has no text. -/
def turnedAway : Pool (@machine .ascii (.calm fun _ _ _ => .error .triageTimeout)) (App × Route) Answer :=
  Pool.schedule (@api .ascii ⟨⟨1, 60⟩, true⟩)
    (.start 0 (replica, .invalidComplaint someone [⟨["body".toList, "text".toList], "Field required".toList⟩]) ::
      .start 1 (replica, .createComplaint someone leak) :: List.replicate 6 (.exec 0) ++ List.replicate 6 (.exec 1))
    (.fresh (.initial potholes))

/-- It has used the limit up all the same. -/
theorem refusals_earned_turned_away : (List.range 2).map (fun i => (turnedAway.result i).bind Answer.status) = [some 400, some 429] ∧
    ∃ identity start n, @CountedIn .ascii _ ⟨⟨1, 60⟩, true⟩ turnedAway identity start n 1 ∧
      ∃ is : List Nat, is.Nodup ∧ 1 ∉ is ∧ 1 ≤ is.length ∧
        ∀ j ∈ is, ∃ m < n, @CountedIn .ascii _ ⟨⟨1, 60⟩, true⟩ turnedAway identity start m j := by
  refine ⟨by decide +kernel, ?_⟩
  have hrefused : (turnedAway.result 1).bind Answer.status = some 429 := by decide +kernel
  obtain ⟨a, ha, hstatus⟩ := Option.bind_eq_some_iff.mp hrefused
  obtain ⟨c, hc⟩ := Pool.result_some ha
  cases a with
  | response resp =>
    obtain ⟨identity, start, n, h, is, hn, hi, hle, his⟩ := @refusals_earned .ascii _ ⟨⟨1, 60⟩, true⟩ (fun _ _ _ _ n h => by cases h)
      (.initial potholes) (fun _ _ => rfl) turnedAway (Pool.schedule_steps _ _ _) 1 c resp hc (Option.some.inj hstatus)
    have hone : (1 : Int) ≤ is.length := hle
    exact ⟨identity, start, n, h, is, hn, hi, by omega, his⟩
  | failed e => cases hstatus

end Request

end CivicPulse
