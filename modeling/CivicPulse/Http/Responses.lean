/-
  CivicPulse.Http.Responses — what concurrent clients of the API are told.

  A submission asks the limiter before its session begins; the limiter's commands touch
  neither the database nor the statistics, so the results about requests hold behind it.
  - `front_passes`: the check passes the route's request on, or answers 429.
  - `responses_linearize`: every 201, 200, 404 and 409 is the outcome of a step of the
    board, in an order that keeps to real time; whoever is told anything else has done
    nothing to it.
  - `committed_iff_success`: who is told of a success has committed, and nobody else.

  A cached entry may name its provider by a value that is no text. The database would cast
  it, and the response would fail on it after the commit. Both results are about runs whose
  entries begin as the service writes them, so that no `INSERT` has such a value (`Labels`).
  A `COMMIT` that fails is taken to have had no effect.
-/

import CivicPulse.Http.Api
import CivicPulse.Runs.Board
import CivicPulse.Runs.Labels

namespace CivicPulse

open Text Lang Board

open Function (update)

/-! ## Outcomes and responses -/

/-- What a client is told of an outcome. -/
def Board.Outcome.response (r : Route) : Outcome → Response
  | shown c => ⟨r.status, [], .complaint (toOut c)⟩
  | missing => ⟨404, [], .json (textObject [("detail".toList, "complaint not found".toList)])⟩
  | conflict current attempted =>
    ⟨409, [], .json (textObject [("detail".toList, (Exc.invalidTransitionError current attempted).message),
      ("current".toList, value current), ("attempted".toList, value attempted)])⟩

theorem answer_reply (c : App × Route) (out : Outcome) : answer c out.reply = .response (out.response c.2) := by
  cases out <;> rfl

/-- A response that is no error. -/
def Answer.succeeds : Answer → Bool
  | .response r => r.status < 400
  | .failed _ => false

def Route.writes : Route → Bool
  | .createComplaint _ _ | .changeStatus _ _ => true
  | _ => false

/-! ## The check -/

namespace Request

/-- The limiter's operations. -/
def Checks : Op → Prop
  | .time | .warn _ _ => True
  | .incrExpire k _ => ∃ identity start, k = RateLimiter.key identity start
  | _ => False

/-- Redis answers with a count, or fails. -/
def Counts : (o : Op) → o.Ans → Prop
  | .incrExpire _ _, r => Redis.Answers r
  | _, _ => True

/-- What the check comes to. -/
def Passes (c : App × Route) : Except Exc (Answer ⊕ (App × Call)) → Prop
  | .ok (.inr d) => d = (c.1, c.2.call)
  | .ok (.inl a) => ∃ peer n, c.2.submitter = some peer ∧ a = handler (.rateLimitExceededError n)
  | .error _ => False

theorem key_ne_stats (identity : Str) (start : Int) : RateLimiter.key identity start ≠ STATS_KEY := by
  intro h
  have := congrArg List.head? h
  cases this

theorem key_no_prefix (identity : Str) (start : Int) : ¬ CACHE_PREFIX <+: RateLimiter.key identity start := by
  rintro ⟨rest, h⟩
  have := congrArg List.head? h
  cases this

theorem enforceRateLimit_uses (g : Gate) (peer : Peer) : (enforceRateLimit g peer).Uses Checks := by
  refine Prog.uses_bind ⟨trivial, fun (now : ℚ) => ⟨⟨_, _, rfl⟩, fun r => ?_⟩⟩ fun decision => ?_
  · refine Prog.uses_tryCatch ?_ fun e => ?_
    · cases r <;> trivial
    · split
      · exact ⟨trivial, fun _ => trivial⟩
      · trivial
  · split <;> trivial

theorem front_uses (g : Gate) (c : App × Route) : (front g c).Uses Checks := by
  unfold front
  split
  · exact Prog.uses_tryCatch (Prog.uses_bind (enforceRateLimit_uses g _) fun _ => trivial) fun _ => trivial
  · trivial

/-- A decision lets the request through, or is a 429. -/
theorem decision_passes {c : App × Route} {peer : Peer} (hpeer : c.2.submitter = some peer) (d : RateDecision) :
    Lets Counts (Passes c)
      (tryCatch (do (if d.allowed then return () else throw (.rateLimitExceededError d.retryAfter) : Code Unit)
                    return .inr (c.1, c.2.call)) fun e => return .inl (handler e)) := by
  by_cases h : d.allowed = true
  · rw [if_pos h]
    exact rfl
  · rw [if_neg h]
    exact ⟨peer, d.retryAfter, hpeer, rfl⟩

theorem front_passes (g : Gate) (c : App × Route) : Lets Counts (Passes c) (front g c) := by
  unfold front
  split
  · rename_i peer hpeer
    intro now _ r hr
    cases r with
    | ok count => exact decision_passes hpeer _
    | error e =>
      have hredis : e.isRedisError = true := hr e rfl
      cases e with
      | redisError cls => exact fun _ _ => rfl
      | _ => cases hredis
  · exact rfl

/-! ## Requests behind their checks -/

section

variable [Platform] {E : Env} {t₀ : Table} {w : World} {i : Nat} {o : Op}

theorem counts_exec (ho : Checks o) : Counts o (World.exec E i o w).1 := by
  cases o with
  | incrExpire k ttl => exact Redis.answers_faulty (fun _ => Redis.answers_incrExpire) _ _
  | time => trivial
  | warn msg extra => trivial
  | _ => exact ho.elim

/-- The limiter touches neither the database nor the statistics. -/
theorem checks_exec (ho : Checks o) : (World.exec E i o w).2.db = w.db ∧
    ∀ e, (World.exec E i o w).2.redis STATS_KEY = some e → w.redis STATS_KEY = some e := by
  refine ⟨?_, fun e he => ?_⟩
  · cases o with
    | incrExpire k ttl => rfl
    | time => rfl
    | warn msg extra => rfl
    | _ => exact ho.elim
  · rcases World.exec_redis he with he | ⟨v, ex, rfl, hv⟩ | rfl | ⟨v, n, rfl⟩ | ⟨ttl, rfl⟩
    · exact he
    · exact ho.elim
    · exact ho.elim
    · exact ho.elim
    · obtain ⟨identity, start, hk⟩ := ho
      exact absurd hk.symm (key_ne_stats identity start)

theorem checks_inv {ls : Nat → Option Loc} (h : Inv (fun _ _ => True) t₀ w ls) (ho : Checks o) :
    Inv (fun _ _ => True) t₀ (World.exec E i o w).2 ls := by
  obtain ⟨hdb, hredis⟩ := checks_exec (E := E) (i := i) (w := w) ho
  refine ⟨by rw [hdb]; exact h.history, fun j hj => by rw [hdb]; exact h.idle j hj, fun j l hl => by rw [hdb]; exact h.fits j l hl,
    fun e he => ?_⟩
  rw [hdb]
  exact h.cache e (hredis e he)

theorem checks_linear {ls : Nat → Option (Loc × Note)} {es : List (Deed Operation Outcome)} (h : Linear t₀ w ls es) (ho : Checks o) :
    Linear t₀ (World.exec E i o w).2 ls es where
  path := by
    rw [(checks_exec (E := E) (i := i) (w := w) ho).1]
    exact h.path
  aligned := h.aligned.skip i
  entries := h.entries
  made := h.made
  noted := h.noted

/-- The clients' calls, each behind its check. -/
def checked (E : Env) (t₀ : Table) : Outline (machine E) (App × Route) Answer (Stage sig Answer (App × Call) (Loc × Note)) :=
  (annotated E t₀).behind serve Checks Counts Passes answer

theorem checked_sound (E : Env) (t₀ : Table) (g : Gate) : (checked E t₀).Sound (api g) := by
  rw [api_eq]
  refine Outline.fronted_sound (annotated_sound E t₀) (front_uses g) (fun o ho => counts_exec (E := E) ho) (front_passes g) ?_
  intro w ls i o ho hinv _
  obtain ⟨⟨hinv, -⟩, es, hes⟩ := hinv
  exact ⟨⟨checks_inv hinv ho, fun _ _ _ _ => trivial⟩, es, checks_linear hes ho⟩

/-- The clients' calls, and the values that they insert. -/
def labelledBehind (E : Env) : Outline (machine E) (App × Route) Answer (Stage sig Answer (App × Call) Unit) :=
  (Labels.labelled E).behind serve Checks Counts Passes answer

theorem labelledBehind_sound (E : Env) (g : Gate) : (labelledBehind E).Sound (api g) := by
  rw [api_eq]
  refine Outline.fronted_sound (Labels.labelled_sound E) (front_uses g) (fun o ho => counts_exec (E := E) ho) (front_passes g) ?_
  intro w ls i o ho h _
  refine Labels.labelled_exec h (Labels.plain_performs ?_)
  cases o with
  | incrExpire k ttl =>
    obtain ⟨identity, start, rfl⟩ := ho
    exact key_no_prefix identity start
  | time => trivial
  | warn msg extra => trivial
  | _ => exact ho.elim

/-! ## Runs -/

/-- Clients of any replicas, in any order. -/
def ApiRun (g : Gate) (E : Env) (w₀ : World) (P : Pool (machine E) (App × Route) Answer) : Prop := Pool.Steps (api g) (.fresh w₀) P

/-- The deeds are what the clients have done to the board and been told of it. -/
structure Told (t₀ : Table) (P : Pool (machine E) (App × Route) Answer) (es : List (Deed Operation Outcome)) : Prop where
  /-- The database has nothing to cast. -/
  labelled : ∀ ev ∈ P.shared.log, Labels.Named ev.op
  path : Path Step t₀.board es P.shared.db.table.board
  aligned : Aligned (performers P.shared) es
  asked : ∀ e ∈ es, ∃ t, P.threads e.tid = some t ∧ t.call.2.call.operation = some e.op
  /-- A call never ends in an exception. -/
  ended : ∀ i c x, P.threads i ≠ some ⟨c, .raise x⟩
  /-- Who asks for a step of the board is told how it came out; else nothing was done, and a
      submission was over the limit, or the call failed: a look or a move for the database. -/
  told : ∀ i c a, P.threads i = some ⟨c, .ret a⟩ → c.2.call.operation ≠ none →
    (∃ e ∈ es, e.tid = i ∧ a = .response (e.out.response c.2)) ∨ (∀ e ∈ es, e.tid ≠ i) ∧
      ((∃ peer body n, c.2 = .createComplaint peer body ∧ a = handler (.rateLimitExceededError n)) ∨
        ∃ x, a = handler x ∧ ((∃ peer body, c.2 = .createComplaint peer body) ∨ Broken x))

variable {g : Gate} {P : Pool (machine E) (App × Route) Answer} {es : List (Deed Operation Outcome)}
  {ss : Nat → Option (Stage sig Answer (App × Call) (Loc × Note))}

omit [Platform] in
/-- Whoever is refused a step of the board had a complaint that validates. -/
theorem refused_submission {c : App × Route} {a : Answer} (h : Passes c (.ok (.inl a))) (hop : c.2.call.operation ≠ none) :
    ∃ peer body n, c.2 = .createComplaint peer body ∧ a = handler (.rateLimitExceededError n) := by
  obtain ⟨peer, n, hpeer, ha⟩ := h
  obtain ⟨app, r⟩ := c
  cases r with
  | createComplaint peer' body => exact ⟨peer', body, n, rfl, ha⟩
  | invalidComplaint peer' errors => exact absurd rfl hop
  | _ => cases hpeer

theorem Linear.told (hP : (checked E t₀).At P ss) (hnamed : ∀ ev ∈ P.shared.log, Labels.Named ev.op)
    (h : Linear t₀ P.shared (admitted ss) es) : Told t₀ P es where
  labelled := hnamed
  path := h.path
  aligned := h.aligned
  asked e he := by
    obtain ⟨l, n, hl, -, -⟩ := h.entries e he
    cases ht : P.threads e.tid with
    | none =>
      rw [admitted_idle (hP.idle e.tid ht)] at hl
      cases hl
    | some t =>
      obtain ⟨st, hst, hb, -⟩ := hP.busy e.tid t ht
      cases st with
      | outside p =>
        rw [admitted_outside hst] at hl
        cases hl
      | inside d ln =>
        rw [admitted_inside hst] at hl
        cases hl
        obtain ⟨hd, hcall⟩ := hb
        obtain rfl : d = (t.call.1, t.call.2.call) := hd
        refine ⟨t, rfl, ?_⟩
        have hop := (h.own (admitted_inside hst) he rfl).1
        rw [show l.call = _ from hcall] at hop
        exact hop
  ended i c x ht := by
    obtain ⟨st, hst, hb, hpost⟩ := hP.busy i _ ht
    cases st with
    | outside p =>
      rcases hpost with ⟨b, -, h⟩ | ⟨e, rfl, -⟩
      · cases h
      · exact hb
    | inside d ln =>
      obtain ⟨r, -, h⟩ := hpost
      cases h
  told i c a ht hop := by
    obtain ⟨st, hst, hb, hpost⟩ := hP.busy i _ ht
    cases st with
    | outside p =>
      rcases hpost with ⟨b, rfl, h⟩ | ⟨e, -, h⟩
      · cases h
        refine .inr ⟨fun e he htid => ?_, .inl (refused_submission hb hop)⟩
        obtain ⟨l, n, hl, -, -⟩ := h.entries e he
        rw [htid, admitted_outside hst] at hl
        cases hl
      · cases h
    | inside d ln =>
      obtain ⟨l, n⟩ := ln
      obtain ⟨hd, hcall⟩ := hb
      obtain rfl : d = (c.1, c.2.call) := hd
      have hcall : l.call = (c.1, c.2.call) := hcall
      obtain ⟨r, ⟨hpost, hnote⟩, hr⟩ := hpost
      obtain rfl : a = answer c r := Except.ok.inj hr
      cases r with
      | ok reply =>
        obtain ⟨e, he, htid, hout⟩ := h.returned (admitted_inside hst) (by rw [hcall]; exact hnote) (by rw [hcall]; exact hop)
        exact .inl ⟨e, he, htid, by rw [← hout, answer_reply]⟩
      | error x =>
        rcases h.raised (admitted_inside hst) hpost (by rw [hcall]; exact hnote) with ⟨e, he, htid, hout⟩ | ⟨hnone, hbroken⟩
        · exact .inl ⟨e, he, htid, by rw [← hout, answer_reply]⟩
        · refine .inr ⟨hnone, .inr ⟨x, rfl, ?_⟩⟩
          rw [hcall] at hbroken
          obtain ⟨app, r⟩ := c
          cases r with
          | createComplaint peer body => exact .inl ⟨peer, body, rfl⟩
          | getComplaint id => exact .inr (hbroken (.inl ⟨id, rfl⟩))
          | changeStatus id s => exact .inr (hbroken (.inr ⟨id, s, rfl⟩))
          | listComplaints q => exact absurd rfl hop
          | getStats => exact absurd rfl hop
          | invalidComplaint peer errors => exact absurd rfl hop
          | invalid errors => exact absurd rfl hop

/-- The responses are outcomes of the board's steps, which take effect one by one; a call
    answered before another begins takes effect before it. -/
def ResponsesLinearizable (g : Gate) (E : Env) (t₀ : Table) (w₀ : World) (P : Pool (machine E) (App × Route) Answer) : Prop :=
  ∃ es, Told t₀ P es ∧ ∀ P₁, ApiRun g E w₀ P₁ → Pool.Steps (api g) P₁ P → ∀ i j t, P₁.threads i = some t → t.prog.Ended →
    P₁.threads j = none → ∀ e ∈ es, ∀ e' ∈ es, e.tid = i → e'.tid = j → e.at_ < e'.at_

theorem checked_run {w₀ : World} (h₀ : w₀.db = opened t₀) (hlog : w₀.log = []) (hP : ApiRun g E w₀ P) : (checked E t₀).Holds P := by
  have hinv : Inv (fun _ _ => True) t₀ w₀ fun _ => none := inv_initial h₀ fun _ => trivial
  exact Outline.keeps (checked_sound E t₀ g) hP
    (Outline.fresh_holds ⟨⟨hinv, fun _ _ h => by cases h⟩, [], linear_initial h₀ hlog⟩)

theorem labelled_run {w₀ : World} (hcache : Counters.Cached w₀.redis) (hlog : w₀.log = []) {C : Type} (f : C → App × Route)
    {Q : Pool (machine E) C Answer} (hQ : Pool.Steps (fun c => api g (f c)) (.fresh w₀) Q) : ∀ ev ∈ Q.shared.log, Labels.Named ev.op := by
  have hinit : Labels.Labelled w₀ := ⟨hcache, fun ev hev => by rw [hlog] at hev; cases hev⟩
  obtain ⟨ss, hAt⟩ := Outline.keeps ((labelledBehind_sound E g).comap f) hQ (Outline.fresh_holds hinit)
  exact hAt.inv.inserts

/-- From a cache whose triage entries name their providers by texts. -/
theorem responses_linearize {w₀ : World} (h₀ : w₀.db = opened t₀) (hlog : w₀.log = []) (hcache : Counters.Cached w₀.redis)
    (hP : ApiRun g E w₀ P) : ResponsesLinearizable g E t₀ w₀ P := by
  obtain ⟨ss, hAt⟩ := checked_run h₀ hlog hP
  obtain ⟨es, hes⟩ := hAt.inv.2
  refine ⟨es, hes.told hAt (labelled_run hcache hlog id hP), fun P₁ hP₁ hs i j t hi hend hj e he e' he' htid htid' => ?_⟩
  have hlog₀ : performers w₀ = [] := by rw [performers, hlog]; rfl
  exact hes.aligned.realtime (stamps E) hlog₀ hP₁ hs hi hend hj he he' htid htid'

/-! ## Commits -/

omit [Platform] in
theorem handler_refuses (x : Exc) : (handler x).succeeds = false := by
  cases x <;> rfl

/-- A submission or a status change is committed if and only if its response is a success;
    nothing else commits. -/
theorem committed_success {w₀ : World} (h₀ : w₀.db = opened t₀) (hlog : w₀.log = []) (hP : ApiRun g E w₀ P) {i : Nat}
    {c : App × Route} {a : Answer} (ht : P.threads i = some ⟨c, .ret a⟩) :
    commitsOf P.shared.db i ≠ [] ↔ c.2.writes = true ∧ a.succeeds = true := by
  obtain ⟨ss, hAt⟩ := checked_run h₀ hlog hP
  have hinv : Inv (fun _ _ => True) t₀ P.shared (firsts (admitted ss)) := hAt.inv.1.1
  obtain ⟨st, hst, hb, hpost⟩ := hAt.busy i _ ht
  cases st with
  | outside p =>
    have hnone : commitsOf P.shared.db i = [] := (hinv.idle i (firsts_none (admitted_outside hst))).commits
    rcases hpost with ⟨b, rfl, h⟩ | ⟨e, -, h⟩
    · obtain rfl : a = b := Except.ok.inj h
      obtain ⟨peer, n, -, rfl⟩ : ∃ peer n, c.2.submitter = some peer ∧ a = _ := hb
      simp [hnone, handler_refuses]
    · cases h
  | inside d ln =>
    obtain ⟨l, n⟩ := ln
    obtain ⟨hd, hcall⟩ := hb
    obtain rfl : d = (c.1, c.2.call) := hd
    obtain ⟨r, ⟨hpost, -⟩, hr⟩ := hpost
    obtain rfl : a = answer c r := Except.ok.inj hr
    have hcommits := (hinv.fits i l (firsts_some (admitted_inside hst))).session.commits
    cases r with
    | error x =>
      rw [show l.phase = .idle from hpost] at hcommits
      rw [hcommits, show answer c (.error x) = handler x from rfl, handler_refuses]
      simp [Phase.committed]
    | ok reply =>
      obtain ⟨app, r⟩ := c
      cases r with
      | createComplaint peer body =>
        obtain ⟨row, t, -, hphase, -, -, rfl⟩ := hpost
        rw [hphase] at hcommits
        simp [hcommits, Phase.committed, Route.writes, answer, Route.render, Answer.succeeds, Route.status]
      | changeStatus id s =>
        obtain ⟨row, t, hphase, -, -, rfl⟩ := hpost
        rw [hphase] at hcommits
        simp [hcommits, Phase.committed, Route.writes, answer, Route.render, Answer.succeeds, Route.status]
      | getComplaint id =>
        rw [hpost.1] at hcommits
        simp [hcommits, Phase.committed, Route.writes]
      | listComplaints q =>
        rw [hpost.1] at hcommits
        simp [hcommits, Phase.committed, Route.writes]
      | getStats =>
        rw [hpost.1] at hcommits
        simp [hcommits, Phase.committed, Route.writes]
      | invalidComplaint peer errors => exact hpost.elim
      | invalid errors => exact hpost.elim

/-- From a cache whose triage entries name their providers by texts: the database has nothing
    to cast, and who is told of a success has committed, and nobody else. -/
theorem committed_iff_success {w₀ : World} (h₀ : w₀.db = opened t₀) (hlog : w₀.log = []) (hcache : Counters.Cached w₀.redis)
    (hP : ApiRun g E w₀ P) : (∀ ev ∈ P.shared.log, Labels.Named ev.op) ∧ ∀ i c a, P.threads i = some ⟨c, .ret a⟩ →
      (commitsOf P.shared.db i ≠ [] ↔ c.2.writes = true ∧ a.succeeds = true) :=
  ⟨labelled_run hcache hlog id hP, fun _ _ _ ht => committed_success h₀ hlog hP ht⟩

end

/-! ## A desk -/

/-- Behind a proxy. -/
def someone : Peer := ⟨none, some "10.0.0.7, 10.0.0.1".toList, none⟩

/-- One submission a minute: a client submits twice while an operator tries to close a complaint. -/
def desk : Pool (@machine .ascii (.calm fun _ _ _ => .error .triageTimeout)) (App × Route) Answer :=
  Pool.schedule (@api .ascii ⟨⟨1, 60⟩, true⟩)
    (.start 0 (replica, .createComplaint someone leak) :: .start 1 (replica, .createComplaint someone leak) ::
      .start 2 (replica, .changeStatus 7 .resolved) :: (List.replicate 24 [.exec 0, .exec 1, .exec 2]).flatten)
    (.fresh (.initial potholes))

theorem responses_linearize_desk : (List.range 3).map (fun i => (desk.result i).map (·.succeeds)) = [some true, some false, some false] ∧
    @ResponsesLinearizable .ascii ⟨⟨1, 60⟩, true⟩ _ potholes (.initial potholes) desk :=
  ⟨by decide +kernel, @responses_linearize .ascii _ _ _ _ (.initial potholes) rfl rfl (fun _ _ _ _ he => by cases he)
    (Pool.schedule_steps _ _ _)⟩

theorem committed_iff_success_desk : (∀ ev ∈ desk.shared.log, Labels.Named ev.op) ∧ ∃ c a, desk.threads 0 = some ⟨c, .ret a⟩ ∧
    c.2.writes = true ∧ a.succeeds = true ∧ commitsOf desk.shared.db 0 ≠ [] := by
  obtain ⟨hnamed, hcommits⟩ := @committed_iff_success .ascii _ potholes ⟨⟨1, 60⟩, true⟩ desk (.initial potholes) rfl rfl
    (fun _ _ _ _ he => by cases he) (Pool.schedule_steps _ _ _)
  have hdone : ((desk.result 0).any (·.succeeds)) = true := by decide +kernel
  obtain ⟨a, ha, hsucceeds⟩ := (Option.any_eq_true _ _).mp hdone
  obtain ⟨c, hc⟩ := Pool.result_some ha
  have hwrites : c.2.writes = true := by
    have hcalls : ((desk.threads 0).all fun t => t.call.2.writes) = true := by decide +kernel
    rw [hc] at hcalls
    exact hcalls
  exact ⟨hnamed, c, a, hc, hwrites, hsucceeds, (hcommits 0 c a hc).mpr ⟨hwrites, hsucceeds⟩⟩

end Request

end CivicPulse
