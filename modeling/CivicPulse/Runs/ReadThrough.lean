/-
  CivicPulse.Runs.ReadThrough — the statistics and their cache while one request is served
  after the other.

  Every request runs to its end in a session of its own, with any time passing before each
  of its operations. Redis is healthy; the database may refuse any statement.
  - `create_wrote` / `changeStatus_wrote`: a write either raises and leaves the rows and the
    cached statistics as they were, or returns and leaves no statistics in the cache.
  - `stats_served`: a get answers with the cached statistics, or with what it counts.
  - `mirrors_serving`: after any requests, statistics in the cache are those of the table,
    stored by the newest get that stored any.
  - `stats_read_through`: a get counts the table as it is, and hits when the statistics were
    stored less than their lifetime ago with no write since.
-/

import CivicPulse.Runs.RequestRuns
import CivicPulse.Services.Alone

namespace CivicPulse

open Text Lang

variable [Platform] {E : Env} {i : Nat} {w : World} {α : Type}

/-! ## Writes -/

/-- The rows and the cached statistics are as they were. -/
structure Untouched (w w' : World) : Prop where
  table : w'.db.table = w.db.table
  entry : w'.redis STATS_KEY = w.redis STATS_KEY

omit [Platform] in
theorem Untouched.trans {w w' w'' : World} (h : Untouched w w') (h' : Untouched w' w'') : Untouched w w'' :=
  ⟨h'.table.trans h.table, h'.entry.trans h.entry⟩

/-- Operations that commit nothing and leave the cached statistics alone. -/
def Unwritten (o : Op) : Prop := o ≠ .commit ∧ ¬ o.Touches STATS_KEY

/-- The cached statistics are neither evicted nor lost. -/
def Env.KeepsStats (E : Env) : Prop := ∀ n, STATS_KEY ∉ E.evict n

theorem exec_unwritten (hkeep : E.KeepsStats) {o : Op} (ho : Unwritten o) : Untouched w (World.exec E i o w).2 :=
  ⟨World.exec_table ho.1, World.exec_untouched (hkeep w.ticks) ho.2⟩

theorem unwritten_alone (hkeep : E.KeepsStats) {p : Code α} (hp : p.Uses Unwritten) (w : World) :
    wp (machine E) i p (fun _ w' => Untouched w w') w :=
  wp_uses (M := machine E) (R := Untouched) (fun _ => ⟨rfl, rfl⟩) (fun _ _ _ => Untouched.trans) (fun _ _ => exec_unwritten hkeep) hp

omit [Platform] in
theorem unwritten_aside {o : Op} (h : Aside o) : Unwritten o := by
  refine ⟨fun e => by rw [e] at h; exact h, fun ht => ?_⟩
  cases o with
  | set k v ex => exact h (Eq.symm ht)
  | incr k => exact h (Eq.symm ht)
  | pushTrim k v n => exact h (Eq.symm ht)
  | incrExpire k t => exact h
  | delete ks => exact h ht
  | _ => exact ht

theorem ended_untouched (hkeep : E.KeepsStats) (r : Except Exc α) (w : World) : Untouched w (ended E i r w) := by
  have hclose : ∀ w : World, Untouched w (World.exec E i .close w).2 := fun w => exec_unwritten hkeep ⟨nofun, fun h => h⟩
  have hrollback : Untouched w (World.exec E i .rollback w).2 := exec_unwritten hkeep ⟨nofun, fun h => h⟩
  cases r with
  | ok a => exact hclose w
  | error e => exact hrollback.trans (hclose _)

/-- A write raises and has left all as it was, or returns and has dropped the statistics. -/
def Wrote (w : World) : Post (machine E) α := fun r w' => match r with
  | .ok _ => w'.redis STATS_KEY = none
  | .error _ => Untouched w w'

/-- What comes before the commit leaves all as it was. -/
theorem wrote_bind {β : Type} (hkeep : E.KeepsStats) {w₁ : World} (h : Untouched w w₁) {p : Code β} {f : β → Code α}
    (hp : p.Uses Unwritten) (hf : ∀ b w', Untouched w w' → wp (machine E) i (f b) (Wrote w) w') :
    wp (machine E) i (p >>= f) (Wrote w) w₁ := by
  rw [wp_bind]
  refine wp_mono (fun r w' h' => ?_) (unwritten_alone hkeep hp w₁)
  cases r with
  | ok b => exact hf b w' (h.trans h')
  | error e => exact h.trans h'

/-- The commit and the drop. -/
theorem wrote_committed (hE : E.Healthy) (hkeep : E.KeepsStats) {w' : World} (h : Untouched w w') (a : α) :
    wp (machine E) i (do Repository.commit; StatsService.invalidate; return a) (Wrote w) w' := by
  show wp (machine E) i (.op .commit fun r => ofExcept r >>= fun _ => StatsService.invalidate >>= fun _ => .ret a) _ w'
  have hredis : (World.exec E i .commit w').2.redis STATS_KEY = w'.redis STATS_KEY :=
    World.exec_untouched (hkeep w'.ticks) (fun ht => ht)
  rw [wp_op]
  rcases World.commit_cases (E := E) (i := i) (w := w') with ⟨hdb, e, hcom⟩ | ⟨hcom, -⟩
  · rw [hcom, ofExcept_error, Prog.raise_bind, wp_raise]
    exact h.trans ⟨by rw [show ((machine E).exec i .commit w').2.db = w'.db from hdb], hredis⟩
  · rw [hcom, ofExcept_ok, Prog.ret_bind]
    generalize ((machine E).exec i .commit w').2 = w₁
    have hdrop : (World.exec E i (.delete [STATS_KEY]) w₁).2.redis STATS_KEY = none :=
      World.delete_healthy (hE _) (List.mem_singleton_self _)
    have hans : (World.exec E i (.delete [STATS_KEY]) w₁).1 = .ok () := by
      show (Redis.faulty (E.fault w₁.ticks) (Redis.delete [STATS_KEY]) (w₁.cache E)).1 = .ok ()
      rw [hE]
      rfl
    rw [wp_bind, StatsService.invalidate, JsonCache.delete, wp_exceptRedis, wp_op, wp_ofExcept,
      show ((machine E).exec i (.delete [STATS_KEY]) w₁).1 = .ok () from hans]
    exact hdrop

theorem create_wrote (hE : E.Healthy) (hkeep : E.KeepsStats) (svc : TriageService) (data : ComplaintCreate) (w : World) :
    wp (machine E) i (ComplaintService.create svc data) (Wrote w) w := by
  refine wrote_bind hkeep ⟨rfl, rfl⟩ (p := .op .uuid4 .ret) ⟨unwritten_aside trivial, fun _ => trivial⟩ fun id w₁ h₁ => ?_
  refine wrote_bind hkeep h₁ (Prog.uses_mono (fun _ => unwritten_aside) (triage_uses _ _ _ _)) fun o w₂ h₂ => ?_
  rcases o.result with _ | r
  · exact h₂
  · refine wrote_bind hkeep h₂ ⟨⟨nofun, fun h => h⟩, fun a => uses_ofExcept a⟩ fun c w₃ h₃ => ?_
    exact wrote_committed hE hkeep h₃ c

theorem changeStatus_wrote (hE : E.Healthy) (hkeep : E.KeepsStats) (id : Uuid) (target : Status) (w : World) :
    wp (machine E) i (ComplaintService.changeStatus id target) (Wrote w) w := by
  refine wrote_bind hkeep ⟨rfl, rfl⟩ (p := Repository.get id true) ⟨⟨nofun, fun h => h⟩, fun a => uses_ofExcept a⟩
    fun row w₁ h₁ => ?_
  rcases row with _ | c
  · exact h₁
  · show wp (machine E) i (if canTransition c.status target = true then _ else _) _ w₁
    by_cases hc : canTransition c.status target = true
    · rw [if_pos hc]
      refine wrote_bind hkeep h₁ ⟨⟨nofun, fun h => h⟩, fun a => Prog.uses_bind (uses_ofExcept a) fun _ => trivial⟩
        fun c' w₂ h₂ => ?_
      exact wrote_committed hE hkeep h₂ c'
    · rw [if_neg hc]
      exact wrote_bind hkeep h₁ (p := Repository.rollback) ⟨⟨nofun, fun h => h⟩, fun _ => trivial⟩ fun _ w₂ h₂ => h₂

theorem ended_map {β : Type} (f : α → β) (r : Except Exc α) (w : World) : ended E i (r.map f) w = ended E i r w := by
  cases r <;> rfl

/-- The session's end changes nothing of it. -/
theorem repository_wrote {p : Code Complaint} (hkeep : E.KeepsStats) (h : wp (machine E) i p (Wrote w) w) :
    wp (machine E) i (repository (Reply.complaint <$> p)) (Wrote w) w := by
  rw [wp_repository, wp_map]
  refine wp_mono (fun r w' h => ?_) h
  cases r with
  | ok c => exact (ended_untouched (E := E) (i := i) hkeep (.ok (Reply.complaint c)) w').entry.trans h
  | error e => exact h.trans (ended_untouched (E := E) (i := i) (α := Reply) hkeep (.error e) w')

/-! ## A get -/

/-- Statistics of a table in the cache, put there at `t`. -/
def statsEntry (T : Table) (at_ : Int) (t : ℚ) (ttl : Int) : Entry :=
  ⟨.str (.text ((Figures.of T).stats at_).modelDump.dumps), some (t + ttl)⟩

/-- Stored, unless the lifetime is refused. -/
theorem put_alone (hE : E.Healthy) (hkeep : E.KeepsStats) (v : Json) (ttl : Int) (w : World) :
    wp (machine E) i (JsonCache.set STATS_KEY v ttl) (fun r w' => r = .ok () ∧ w'.db = w.db ∧
      (0 < ttl → w'.redis STATS_KEY = some ⟨.str (.text v.dumps), some (w'.clock + ttl)⟩) ∧
      (¬ 0 < ttl → w'.redis STATS_KEY = w.redis STATS_KEY)) w := by
  by_cases httl : 0 < ttl
  · refine wp_mono (fun r w' h => ?_) (set_alone (E := E) STATS_KEY v ttl w)
    obtain ⟨hr, hw⟩ := h
    rw [hw (hE _) httl]
    exact ⟨hr, rfl, fun _ => World.set_healthy (hE _) httl, fun h => absurd httl h⟩
  · have hans : (World.exec E i (.set STATS_KEY v.dumps ttl) w).1 = .error Redis.wrongType := by
      show (Redis.faulty (E.fault w.ticks) (Redis.set (w.now E) STATS_KEY v.dumps ttl) (w.cache E)).1 = _
      rw [hE, Redis.faulty_none, Redis.set, if_neg httl]
    rw [JsonCache.set, wp_exceptRedis, wp_op, wp_ofExcept,
      show ((machine E).exec i (.set STATS_KEY v.dumps ttl) w).1 = .error Redis.wrongType from hans]
    refine ⟨rfl, rfl, fun h => absurd h httl, fun _ => ?_⟩
    have h₁ : (World.exec E i (.set STATS_KEY v.dumps ttl) w).2.redis STATS_KEY = w.redis STATS_KEY :=
      World.set_refused (hkeep w.ticks) httl
    exact (World.exec_untouched (o := .warn _ _) (hkeep _) fun h => h).trans h₁

/-- What a miss ends in. -/
def Computed (E : Env) (ttl : Int) (w : World) : Post (machine E) (StatsOut × Bool) := fun r w' =>
  w'.db = w.db ∧
    ((∃ at_, r = .ok ((Figures.of w.db.table).stats at_, false) ∧ w.db.table.rows.length < 2 ^ 63 ∧
        (0 < ttl → w'.redis STATS_KEY = some (statsEntry w.db.table at_ w'.clock ttl)) ∧
        (¬ 0 < ttl → w'.redis STATS_KEY = w.redis STATS_KEY)) ∨
      (∃ e, r = .error e) ∧ w'.redis STATS_KEY = w.redis STATS_KEY ∧
        (E.Reached w.ticks 5 → ¬ w.db.table.rows.length < 2 ^ 63))

omit [Platform] in
theorem unwritten_select (q : Query) : Unwritten (.select q) := ⟨nofun, fun h => h⟩

theorem compute_alone (hE : E.Healthy) (hkeep : E.KeepsStats) (ttl : Int) (hidle : w.db.pending i = []) :
    wp (machine E) i (StatsService.compute ttl) (Computed E ttl w) w := by
  rw [StatsService.compute, wp_bind]
  refine wp_mono (fun r w₁ h => ?_) (wp_and (reads_aggregates hidle)
    (unwritten_alone hkeep (Repository.uses_aggregates (unwritten_select _) fun _ => unwritten_select _) w))
  obtain ⟨⟨hdb, ⟨rfl, hlen, -⟩ | ⟨⟨e, rfl⟩, hwhy⟩⟩, hsame⟩ := h
  · rw [Post.bind, wp_op, wp_bind]
    refine wp_mono (fun r w₂ h => ?_) (put_alone hE hkeep _ ttl _)
    obtain ⟨rfl, hdb', hput, hnot⟩ := h
    refine ⟨hdb'.trans hdb, .inl ⟨_, rfl, hlen, hput, fun h => (hnot h).trans ?_⟩⟩
    exact (exec_unwritten (E := E) (i := i) hkeep (unwritten_aside (o := .utcnow) trivial)).entry.trans hsame.entry
  · exact ⟨hdb, .inr ⟨⟨e, rfl⟩, hsame.entry, hwhy⟩⟩

/-- The cached statistics are those of the table, if there are any. -/
def Current (ttl : Int) (w : World) : Prop := ∀ e, w.redis STATS_KEY = some e →
  ∃ t at_, e = statsEntry w.db.table at_ t ttl ∧ w.db.table.rows.length < 2 ^ 63

/-- A get in a session of its own: the cached statistics while they live, else what it
    counts. -/
structure GetServed (E : Env) (ttl : Int) (w : World) (r : Except Exc (StatsOut × Bool)) (w' : World) : Prop where
  table : w'.db.table = w.db.table
  hit : ∀ t at_, w.redis STATS_KEY = some (statsEntry w.db.table at_ t ttl) → w.now E < t + ttl →
    (∃ at', r = .ok ((Figures.of w.db.table).stats at', true)) ∧ w'.redis STATS_KEY = w.redis STATS_KEY
  miss : (∀ t at_, w.redis STATS_KEY = some (statsEntry w.db.table at_ t ttl) → ¬ w.now E < t + ttl) →
    (∃ at_, r = .ok ((Figures.of w.db.table).stats at_, false) ∧ w.db.table.rows.length < 2 ^ 63 ∧
        (0 < ttl → w'.redis STATS_KEY = some (statsEntry w.db.table at_ (w'.clock - E.delay (w'.ticks - 1)) ttl)) ∧
        (¬ 0 < ttl → w'.redis STATS_KEY = w.redis STATS_KEY) ∧ w.clock ≤ w'.clock - E.delay (w'.ticks - 1)) ∨
      (∃ e, r = .error e) ∧ w'.redis STATS_KEY = w.redis STATS_KEY ∧
        (E.Reached (w.ticks + 1) 5 → ¬ w.db.table.rows.length < 2 ^ 63)

theorem get_served (hE : E.Healthy) (hkeep : E.KeepsStats) (ttl : Int) (hidle : w.db.pending i = [])
    (hcur : Current ttl w) :
    wp (machine E) i (StatsService.get ttl) (fun r w' => GetServed E ttl w r (ended E i r w')) w := by
  have hget : (World.exec E i (.get STATS_KEY) w).1 = (Redis.get (w.now E) STATS_KEY w.redis).1 :=
    World.get_healthy (hE _) (hkeep _)
  have hkept : Untouched w (World.exec E i (.get STATS_KEY) w).2 := exec_unwritten hkeep ⟨nofun, fun h => h⟩
  rw [StatsService.get, wp_bind]
  by_cases hlive : ∃ t at_, w.redis STATS_KEY = some (statsEntry w.db.table at_ t ttl) ∧ w.now E < t + ttl
  · obtain ⟨t, at_, he, ht⟩ := hlive
    obtain ⟨-, -, -, hlen⟩ := hcur _ he
    have hans : (World.exec E i (.get STATS_KEY) w).1 = .ok (some (.text ((Figures.of w.db.table).stats at_).modelDump.dumps)) := by
      have hl : w.redis.live (w.now E) STATS_KEY = some (statsEntry w.db.table at_ t ttl) :=
        Option.filter_eq_some_iff.mpr ⟨he, by simpa [statsEntry] using ht⟩
      rw [hget, Redis.get, hl]
      rfl
    rw [lookup_alone hans, readAnswer, loads_stats (Figures.small_of hlen)]
    show wp (machine E) i (ofExcept (StatsOut.modelValidate ((Figures.of w.db.table).stats at_).modelDump) >>= fun s => .ret (s, true))
      (fun r w' => GetServed E ttl w r (ended E i r w')) (World.exec E i (.get STATS_KEY) w).2
    rw [StatsOut.modelValidate_dump]
    have hall := hkept.trans (ended_untouched (i := i) hkeep (.ok ((Figures.of w.db.table).stats at_, true)) _)
    exact ⟨hall.table, fun _ _ _ _ => ⟨⟨at_, rfl⟩, hall.entry⟩, fun hno => absurd ht (hno t at_ he)⟩
  · have hans : (World.exec E i (.get STATS_KEY) w).1 = .ok none := by
      have hl : w.redis.live (w.now E) STATS_KEY = none := by
        refine Option.filter_eq_none_iff.mpr fun e he ht => hlive ?_
        obtain ⟨t, at_, rfl, -⟩ := hcur e he
        exact ⟨t, at_, he, by simpa [statsEntry] using ht⟩
      rw [hget, Redis.get, hl]
    rw [lookup_alone hans]
    show wp (machine E) i (StatsService.compute ttl) (fun r w' => GetServed E ttl w r (ended E i r w'))
      (World.exec E i (.get STATS_KEY) w).2
    have hdb : (World.exec E i (.get STATS_KEY) w).2.db = w.db := rfl
    have hticks : (World.exec E i (.get STATS_KEY) w).2.ticks = w.ticks + 1 := rfl
    have hle : w.clock ≤ (World.exec E i (.get STATS_KEY) w).2.clock := World.clock_le_exec _
    generalize (World.exec E i (.get STATS_KEY) w).2 = w₁ at hkept hdb hticks hle
    refine wp_mono (fun r w' h => ?_)
      (wp_and (compute_alone hE hkeep ttl (by rw [hdb]; exact hidle)) (clock_le_alone (E := E) (StatsService.compute ttl) w₁))
    obtain ⟨⟨hdb', h⟩, hle'⟩ := h
    rw [hdb, hkept.entry, hticks] at h
    have hall := ended_untouched (i := i) hkeep r w'
    refine ⟨by rw [hall.table, hdb', hdb], fun t at_ he ht => absurd ⟨t, at_, he, ht⟩ hlive, fun _ => ?_⟩
    rcases h with ⟨at_, rfl, hlen, hput, hnot⟩ | ⟨⟨e, rfl⟩, hentry, hwhy⟩
    · have hclock : (World.exec E i .close w').2.clock - E.delay ((World.exec E i .close w').2.ticks - 1) = w'.clock :=
        add_sub_cancel_right _ _
      refine .inl ⟨at_, rfl, hlen, fun h => ?_, fun h => hall.entry.trans (hnot h), (hle.trans hle').trans hclock.ge⟩
      rw [hall.entry, hput h]
      exact congrArg (fun t => some (statsEntry w.db.table at_ t ttl)) hclock.symm
    · exact .inr ⟨⟨e, rfl⟩, hall.entry.trans hentry, hwhy⟩

/-! ## One request after the other -/

/-- A request that has been served. -/
structure Served where
  tid : Nat
  call : Call
  result : Except Exc Reply
  after : World

def served (E : Env) (app : App) (i : Nat) (c : Call) (w : World) : Served :=
  ⟨i, c, ((serve (app, c)).run (machine E) i w).1, ((serve (app, c)).run (machine E) i w).2⟩

/-- These requests were served from `w₀` on, newest first, and left `w`. -/
inductive Serving (E : Env) (app : App) (w₀ : World) : List Served → World → Prop
  | start : Serving E app w₀ [] w₀
  | serve {past : List Served} {w : World} (i : Nat) (c : Call) : Serving E app w₀ past w →
      Serving E app w₀ (served E app i c w :: past) (served E app i c w).after

namespace Served

/-- A get that has computed the statistics and put them in the cache. -/
def Stores (c : Served) : Prop := c.call = .stats ∧ ∃ s, c.result = .ok (.stats s false)

/-- A submission, or a change of status, that succeeded. -/
def Writes (c : Served) : Prop :=
  ((∃ data, c.call = .create data) ∨ ∃ id target, c.call = .changeStatus id target) ∧ ∃ a, c.result = .ok a

/-- The session's end is the only operation after the `SET`. -/
def putAt (E : Env) (c : Served) : ℚ := c.after.clock - E.delay (c.after.ticks - 1)

end Served

/-- A get stored the statistics at `t`, and no write has completed since. -/
def StoredAt (E : Env) (t : ℚ) : List Served → Prop
  | [] => False
  | c :: past => (c.Stores ∧ c.putAt E = t) ∨ (¬ c.Writes ∧ StoredAt E t past)

/-- What is in the cache after these requests. -/
structure Mirrors (E : Env) (ttl : Int) (past : List Served) (w : World) : Prop where
  idle : ∀ i, w.db.pending i = []
  before : ∀ t, StoredAt E t past → t ≤ w.clock
  absent : w.redis STATS_KEY = none → 0 < ttl → ∀ t, ¬ StoredAt E t past
  present : ∀ e, w.redis STATS_KEY = some e → 0 < ttl ∧ ∃ t at_, e = statsEntry w.db.table at_ t ttl ∧
    w.db.table.rows.length < 2 ^ 63 ∧ StoredAt E t past ∧ ∀ t', StoredAt E t' past → t' ≤ t

section

variable {app : App} {past : List Served} {c : Served} {w w' : World} {ttl : Int}

theorem Mirrors.current (h : Mirrors E ttl past w) : Current ttl w := by
  intro e he
  obtain ⟨-, t, at_, rfl, hlen, -⟩ := h.present e he
  exact ⟨t, at_, rfl, hlen⟩

/-- A request that neither wrote nor stored. -/
theorem Mirrors.untouched (h : Mirrors E ttl past w) (hw : Untouched w w') (hidle : ∀ i, w'.db.pending i = [])
    (hclock : w.clock ≤ w'.clock) (hs : ¬ c.Stores) (hc : ¬ c.Writes) : Mirrors E ttl (c :: past) w' := by
  have hstored : ∀ t, StoredAt E t (c :: past) ↔ StoredAt E t past := by
    intro t
    simp only [StoredAt, hs, hc, false_and, false_or, not_false_eq_true, true_and]
  refine ⟨hidle, fun t ht => (h.before t ((hstored t).mp ht)).trans hclock, fun hn httl t ht => ?_, fun e he => ?_⟩
  · rw [hw.entry] at hn
    exact h.absent hn httl t ((hstored t).mp ht)
  · rw [hw.entry] at he
    simp only [hstored, hw.table]
    exact h.present e he

/-- A write. -/
theorem Mirrors.wrote (hn : w'.redis STATS_KEY = none) (hidle : ∀ i, w'.db.pending i = []) (hs : ¬ c.Stores) (hc : c.Writes) :
    Mirrors E ttl (c :: past) w' := by
  have hstored : ∀ t, ¬ StoredAt E t (c :: past) := by
    intro t
    simp only [StoredAt, hs, hc, false_and, not_true_eq_false, or_self, not_false_eq_true]
  exact ⟨hidle, fun t ht => absurd ht (hstored t), fun _ _ => hstored, fun e he => by rw [hn] at he; cases he⟩

/-- A get that missed. -/
theorem Mirrors.stored (h : Mirrors E ttl past w) (htable : w'.db.table = w.db.table) (hidle : ∀ i, w'.db.pending i = [])
    (hlen : w.db.table.rows.length < 2 ^ 63) (hs : c.Stores) (hlo : w.clock ≤ c.putAt E) (hhi : c.putAt E ≤ w'.clock) {at_ : Int}
    (hput : 0 < ttl → w'.redis STATS_KEY = some (statsEntry w.db.table at_ (c.putAt E) ttl))
    (hnot : ¬ 0 < ttl → w'.redis STATS_KEY = w.redis STATS_KEY) : Mirrors E ttl (c :: past) w' := by
  have hle : ∀ t, StoredAt E t (c :: past) → t ≤ c.putAt E := by
    intro t ht
    rcases ht with ⟨-, rfl⟩ | ⟨-, ht⟩
    · exact le_refl _
    · exact (h.before t ht).trans hlo
  refine ⟨hidle, fun t ht => (hle t ht).trans hhi, fun hn httl => ?_, fun e he => ?_⟩
  · rw [hput httl] at hn
    cases hn
  · by_cases httl : 0 < ttl
    · rw [hput httl] at he
      cases he
      exact ⟨httl, _, at_, by rw [htable], by rw [htable]; exact hlen, .inl ⟨hs, rfl⟩, hle⟩
    · rw [hnot httl] at he
      exact absurd (h.present e he).1 httl

/-! ## The invariant -/

/-- Every session is over after the request. -/
theorem idle_served (h : ∀ j, w.db.pending j = []) (i : Nat) (c : Call) : ∀ j, (served E app i c w).after.db.pending j = [] := by
  intro j
  by_cases hj : j = i
  · subst hj
    have hend : wp (machine E) j (serve (app, c)) (fun _ w' => w'.db.pending j = []) w := by
      rw [serve, wp_repository]
      exact ended_idle _ _
    exact hend
  · have hothers : wp (machine E) i (serve (app, c)) (fun _ w' => w'.db.pending j = w.db.pending j) w :=
      wp_always (M := machine E) (R := fun w w' => w'.db.pending j = w.db.pending j) (fun _ => rfl) (fun _ _ _ h h' => h'.trans h)
        (fun o _ => World.exec_pending hj o) _ w
    exact (show (served E app i c w).after.db.pending j = w.db.pending j from hothers).trans (h j)

/-- A request ends as its service does, and then its session does. -/
theorem served_of (app : App) (i : Nat) (c : Call) {β : Type} {p : Code β} {f : β → Reply} {Q : Lang.Post (machine E) β}
    (hc : service app c = f <$> p) (h : wp (machine E) i p Q w) : ∃ r w₁, (served E app i c w).result = r.map f ∧
      (served E app i c w).after = ended E i r w₁ ∧ Q r w₁ := by
  have hrun : wp (machine E) i (serve (app, c)) (fun reply w' => ∃ r w₁, reply = r.map f ∧ w' = ended E i r w₁ ∧ Q r w₁) w := by
    rw [serve, wp_repository, hc, wp_map]
    refine wp_mono (fun r w₁ h => ?_) h
    exact ⟨r, w₁, rfl, ended_map _ _ _, h⟩
  exact hrun

theorem clock_served (i : Nat) (c : Call) : w.clock ≤ (served E app i c w).after.clock := clock_le_alone (serve (app, c)) w

/-- A write that was served. -/
theorem mirrors_write (h : Mirrors E ttl past w) (i : Nat) {c : Call}
    (hc : (∃ data, c = .create data) ∨ ∃ id target, c = .changeStatus id target)
    (hw : wp (machine E) i (serve (app, c)) (Wrote w) w) :
    Mirrors E ttl (served E app i c w :: past) (served E app i c w).after := by
  have hs : ¬ (served E app i c w).Stores := by
    intro hs
    have hcall : c = .stats := hs.1
    subst hcall
    rcases hc with ⟨_, hc⟩ | ⟨_, _, hc⟩
    · cases hc
    · cases hc
  have hwrote : Wrote (E := E) w (served E app i c w).result (served E app i c w).after := hw
  rcases hr : (served E app i c w).result with e | a
  · rw [hr] at hwrote
    refine h.untouched hwrote (idle_served h.idle i c) (clock_served i c) hs fun hno => ?_
    obtain ⟨-, a, ha⟩ := hno
    rw [hr] at ha
    cases ha
  · rw [hr] at hwrote
    exact .wrote hwrote (idle_served h.idle i c) hs ⟨hc, a, hr⟩

/-- The statistics that were asked for. -/
theorem stats_served (hE : E.Healthy) (hkeep : E.KeepsStats) (h : Mirrors E app.statsTtl past w) (i : Nat) :
    ∃ r, (served E app i .stats w).result = r.map (fun s => Reply.stats s.1 s.2) ∧
      GetServed E app.statsTtl w r (served E app i .stats w).after := by
  obtain ⟨r, w₁, hr, hafter, hget⟩ := served_of app i .stats rfl
    (get_served (i := i) hE hkeep app.statsTtl (h.idle i) h.current)
  exact ⟨r, hr, hafter ▸ hget⟩

theorem mirrors_stats (hE : E.Healthy) (hkeep : E.KeepsStats) (h : Mirrors E app.statsTtl past w) (i : Nat) :
    Mirrors E app.statsTtl (served E app i .stats w :: past) (served E app i .stats w).after := by
  obtain ⟨r, hr, hget⟩ := stats_served hE hkeep h i
  have hidle : ∀ j, (served E app i .stats w).after.db.pending j = [] := idle_served h.idle i .stats
  have hclock : w.clock ≤ (served E app i .stats w).after.clock := clock_served i .stats
  have hc : ¬ (served E app i .stats w).Writes := by
    intro hw
    obtain ⟨⟨_, hw⟩ | ⟨_, _, hw⟩, -⟩ := hw
    · cases hw
    · cases hw
  by_cases hlive : ∃ t at_, w.redis STATS_KEY = some (statsEntry w.db.table at_ t app.statsTtl) ∧ w.now E < t + app.statsTtl
  · obtain ⟨t, at_, he, ht⟩ := hlive
    obtain ⟨⟨at', rfl⟩, hentry⟩ := hget.hit t at_ he ht
    refine h.untouched ⟨hget.table, hentry⟩ hidle hclock (fun hs => ?_) hc
    obtain ⟨-, s, hs⟩ := hs
    rw [hr] at hs
    cases hs
  · rcases hget.miss fun t at_ he ht => hlive ⟨t, at_, he, ht⟩ with ⟨at_, rfl, hlen, hput, hnot, hle⟩ | ⟨⟨e, rfl⟩, hentry, -⟩
    · exact h.stored hget.table hidle hlen ⟨rfl, _, hr⟩ hle (sub_le_self _ (E.delay_nonneg _)) hput hnot
    · refine h.untouched ⟨hget.table, hentry⟩ hidle hclock (fun hs => ?_) hc
      obtain ⟨-, s, hs⟩ := hs
      rw [hr] at hs
      cases hs

/-- Complaints that were asked for. -/
theorem mirrors_read (hkeep : E.KeepsStats) (h : Mirrors E ttl past w) (i : Nat) {c : Call}
    (huses : (service app c).Uses Unwritten) (hs : c ≠ .stats) (hc : ∀ data, c ≠ .create data)
    (hc' : ∀ id target, c ≠ .changeStatus id target) :
    Mirrors E ttl (served E app i c w :: past) (served E app i c w).after := by
  have hread : wp (machine E) i (serve (app, c)) (fun _ w' => Untouched w w') w := by
    rw [serve, wp_repository]
    refine wp_mono (fun r w' h => ?_) (unwritten_alone hkeep huses w)
    exact h.trans (ended_untouched hkeep _ w')
  refine h.untouched hread (idle_served h.idle i _) (clock_served i _) (fun hst => hs hst.1) fun hw => ?_
  obtain ⟨⟨data, hw⟩ | ⟨id, target, hw⟩, -⟩ := hw
  · exact hc data hw
  · exact hc' id target hw

theorem get_unwritten (id : Uuid) : (service app (.get id)).Uses Unwritten := by
  refine Prog.uses_bind (p := ComplaintService.get id) (Prog.uses_bind (p := Repository.get id false) ?_ fun c => ?_) fun _ => trivial
  · exact ⟨unwritten_select _, fun a => uses_ofExcept a⟩
  · cases c <;> trivial

theorem list_unwritten (f : ComplaintFilters) (page pageSize : Int) : (service app (.list f page pageSize)).Uses Unwritten := by
  refine Prog.uses_bind (p := ComplaintService.list f page pageSize) ⟨unwritten_select _, fun a => ?_⟩ fun _ => trivial
  exact Prog.uses_bind (uses_ofExcept a) fun _ => ⟨unwritten_select _, fun a => Prog.uses_bind (uses_ofExcept a) fun _ => trivial⟩

/-- Every request keeps the invariant. -/
theorem mirrors_serve (hE : E.Healthy) (hkeep : E.KeepsStats) (h : Mirrors E app.statsTtl past w) (i : Nat) (c : Call) :
    Mirrors E app.statsTtl (served E app i c w :: past) (served E app i c w).after := by
  cases c with
  | create data => exact mirrors_write h i (.inl ⟨_, rfl⟩) (repository_wrote hkeep (create_wrote hE hkeep _ _ w))
  | changeStatus id target =>
    exact mirrors_write h i (.inr ⟨_, _, rfl⟩) (repository_wrote hkeep (changeStatus_wrote hE hkeep _ _ w))
  | stats => exact mirrors_stats hE hkeep h i
  | get id => exact mirrors_read hkeep h i (get_unwritten id) nofun nofun nofun
  | list f page pageSize => exact mirrors_read hkeep h i (list_unwritten f page pageSize) nofun nofun nofun
  | invalid errors => exact mirrors_read hkeep h i trivial nofun nofun nofun

theorem mirrors_serving (hE : E.Healthy) (hkeep : E.KeepsStats) {w₀ : World} (hempty : w₀.redis STATS_KEY = none)
    (hidle : ∀ i, w₀.db.pending i = []) (h : Serving E app w₀ past w) : Mirrors E app.statsTtl past w := by
  induction h with
  | start => exact ⟨hidle, fun _ h => h.elim, fun _ _ _ h => h, fun e he => by rw [hempty] at he; cases he⟩
  | serve i c _ ih => exact mirrors_serve hE hkeep ih i c

/-- Whatever was served before, a get answers with the statistics of the table as it is, and
    it hits exactly when an earlier get stored them less than their lifetime ago and no write
    has completed since. -/
theorem stats_read_through (hE : E.Healthy) (hkeep : E.KeepsStats) {w₀ : World} (hempty : w₀.redis STATS_KEY = none)
    (hidle : ∀ i, w₀.db.pending i = []) (h : Serving E app w₀ past w) (i : Nat)
    (hreach : E.Reached (w.ticks + 1) 5) (hrows : w.db.table.rows.length < 2 ^ 63) :
    ∃ s hit, (served E app i .stats w).result = .ok (.stats s hit) ∧ Counts w.db.table s ∧
      (hit = true ↔ ∃ t, StoredAt E t past ∧ w.now E < t + app.statsTtl) := by
  have hm := mirrors_serving hE hkeep hempty hidle h
  obtain ⟨r, hr, hget⟩ := stats_served hE hkeep hm i
  by_cases hlive : ∃ t at_, w.redis STATS_KEY = some (statsEntry w.db.table at_ t app.statsTtl) ∧ w.now E < t + app.statsTtl
  · obtain ⟨t, at_, he, ht⟩ := hlive
    obtain ⟨⟨at', rfl⟩, -⟩ := hget.hit t at_ he ht
    refine ⟨_, true, hr, counts_of _ _, fun _ => ?_, fun _ => rfl⟩
    obtain ⟨-, t', at'', he', -, hstored, -⟩ := hm.present _ he
    obtain rfl : t = t' := by
      have hx : some (t + app.statsTtl) = some (t' + app.statsTtl) := congrArg Entry.expires he'
      exact add_right_cancel (Option.some.inj hx)
    exact ⟨t, hstored, ht⟩
  · rcases hget.miss fun t at_ he ht => hlive ⟨t, at_, he, ht⟩ with ⟨at_, rfl, -⟩ | ⟨-, -, hwhy⟩
    · refine ⟨_, false, hr, counts_of _ _, nofun, fun hex => absurd hex fun hex => hlive ?_⟩
      obtain ⟨t, hstored, ht⟩ := hex
      rcases he : w.redis STATS_KEY with _ | e
      · -- no statistics in the cache: the lifetime is refused, and the instant has passed
        have httl : ¬ 0 < app.statsTtl := fun httl => hm.absent he httl t hstored
        have hle := hm.before t hstored
        have hnow : w.clock ≤ w.now E := le_add_of_nonneg_right (E.delay_nonneg _)
        have hneg : (app.statsTtl : ℚ) ≤ 0 := by exact_mod_cast not_lt.mp httl
        linarith
      · obtain ⟨-, t', at', rfl, -, -, hmax⟩ := hm.present e he
        exact ⟨t', at', rfl, ht.trans_le (by linarith [hmax t hstored])⟩
    · exact absurd hrows (hwhy hreach)

end

/-! ## Gets around a submission -/

omit [Platform] in
section

open Request (replica leak potholes)

/-- Every operation takes a second. -/
def ticking : Env := { Env.calm (fun _ _ _ => .error .triageTimeout) with delay := fun _ => 1, delay_nonneg := fun _ => zero_le_one }

def gotFirst : Served := @served .ascii ticking replica 0 .stats (.initial potholes)

def submittedNext : Served := @served .ascii ticking replica 1 (.create leak) gotFirst.after

def gotSecond : Served := @served .ascii ticking replica 2 .stats submittedNext.after

def gotThird : Served := @served .ascii ticking replica 3 .stats gotSecond.after

/-- The submission has dropped the statistics of one complaint; those of two are stored, and
    hit by the next get. -/
theorem stats_read_through_submitted : ∃ s s', gotSecond.result = .ok (.stats s false) ∧ s.total = 2 ∧
    gotThird.result = .ok (.stats s' true) ∧ s'.total = 2 ∧ s'.byStatus.get .open_ = some 2 := by
  obtain ⟨hwrites, hrows, hrows'⟩ : submittedNext.result.toOption.isSome = true ∧
      submittedNext.after.db.table.rows.map (·.status) = [.open_, .open_] ∧
      gotSecond.after.db.table.rows.map (·.status) = [.open_, .open_] := by decide +kernel
  have hlength : submittedNext.after.db.table.rows.length = 2 := (List.length_map _).symm.trans (congrArg List.length hrows)
  have hlength' : gotSecond.after.db.table.rows.length = 2 := (List.length_map _).symm.trans (congrArg List.length hrows')
  have hnext : @Serving .ascii ticking replica (.initial potholes) [submittedNext, gotFirst] submittedNext.after :=
    @Serving.serve .ascii _ _ _ _ _ 1 (.create leak) (@Serving.serve .ascii _ _ _ _ _ 0 .stats (@Serving.start .ascii _ _ _))
  have hsecond : @Serving .ascii ticking replica (.initial potholes) [gotSecond, submittedNext, gotFirst] gotSecond.after :=
    @Serving.serve .ascii _ _ _ _ _ 2 .stats hnext
  obtain ⟨s, hit, hs, hcounts, hhit⟩ := @stats_read_through .ascii ticking replica _ _ (fun _ => rfl) (fun _ => List.not_mem_nil) _ rfl
    (fun _ => rfl) hnext 2 (fun _ _ => rfl) (by rw [hlength]; decide)
  have hmiss : hit = false := by
    cases hit with
    | false => rfl
    | true =>
      -- the submission has succeeded since anything was stored
      obtain ⟨t, ⟨⟨h, -⟩, -⟩ | ⟨h, -⟩, -⟩ := hhit.mp rfl
      · cases h
      · refine absurd ⟨.inl ⟨leak, rfl⟩, ?_⟩ h
        cases hr : submittedNext.result with
        | ok a => exact ⟨a, rfl⟩
        | error e =>
          rw [hr] at hwrites
          cases hwrites
  subst hmiss
  obtain ⟨s', hit', hs', hcounts', hhit'⟩ := @stats_read_through .ascii ticking replica _ _ (fun _ => rfl) (fun _ => List.not_mem_nil) _ rfl
    (fun _ => rfl) hsecond 3 (fun _ _ => rfl) (by rw [hlength']; decide)
  have hhit : hit' = true := hhit'.mpr ⟨_, .inl ⟨⟨rfl, s, hs⟩, rfl⟩, by decide +kernel⟩
  subst hhit
  refine ⟨s, s', hs, ?_, hs', ?_, ?_⟩
  · rw [hcounts.total, hlength]
    rfl
  · rw [hcounts'.total, hlength']
    rfl
  · rw [hcounts'.byStatus, hrows']
    rfl

end

end CivicPulse
