/-
  CivicPulse.Runs.Counters — what the triage counters and the list of recent outcomes say
  about the calls that were made.

  Redis is healthy and does not lose the three keys, which start out empty; the cache may
  hold anything, poisoned entries included, whose provider is a text where it can be read.
  Any number of calls interleave.
  - `triage_follows`: a call counts itself once, as the hit or the miss that it was, and
    pushes its outcome once.
  - `counters_sound`: every operation keeps the counters at the number of increments in the
    log, and the list at the newest pushes in it.
  - `calls_accounted`: when all calls have returned, the counters and the list account for
    every one of them.
-/

import CivicPulse.Lang.Tally
import CivicPulse.Runs.TriageCalls
import CivicPulse.Store.Frame

namespace CivicPulse.Counters

open Text Lang
open Function (update)

/-! ## Redis's counters and lists -/

/-- A counter at `n`; one at 0 may be absent. -/
def Counts (e : Option Entry) (n : Nat) : Prop := (e = none ∧ n = 0) ∨ e = some ⟨.int n, none⟩

/-- A list with these elements; an empty one may be absent. -/
def Lists (e : Option Entry) (l : List Str) : Prop := (e = none ∧ l = []) ∨ e = some ⟨.list l, none⟩

section Redis

variable {now : ℚ} {r : Redis} {key : Str} {n : Nat} {l : List Str}

theorem live_of_none (h : r key = none) : r.live now key = none := by
  rw [Redis.live, h]
  rfl

theorem live_of_lasting {v : RVal} (h : r key = some ⟨v, none⟩) : r.live now key = some ⟨v, none⟩ := by
  rw [Redis.live, h]
  rfl

theorem incr_counts (h : Counts (r key) n) :
    (Redis.incr now key r).1 = .ok (n + 1 : Int) ∧ Counts ((Redis.incr now key r).2 key) (n + 1) := by
  rcases h with ⟨h, rfl⟩ | h
  · rw [Redis.incr, live_of_none h]
    exact ⟨rfl, .inr (Redis.put_self _)⟩
  · rw [Redis.incr, live_of_lasting h]
    exact ⟨rfl, .inr (Redis.put_self _)⟩

theorem push_lists {v : Str} {stop : Int} (h : Lists (r key) l) : (Redis.pushTrim now key v stop r).1 = .ok () ∧
    Lists ((Redis.pushTrim now key v stop r).2 key) ((v :: l).take (stop + 1).toNat) := by
  rcases h with ⟨h, rfl⟩ | h
  · rw [Redis.pushTrim, live_of_none h]
    exact ⟨rfl, .inr (Redis.put_self _)⟩
  · rw [Redis.pushTrim, live_of_lasting h]
    exact ⟨rfl, .inr (Redis.put_self _)⟩

theorem get_counts (h : Counts (r key) n) :
    (Redis.get now key r).1 = .ok none ∧ n = 0 ∨ (Redis.get now key r).1 = .ok (some (.text (natText n))) := by
  rcases h with ⟨h, rfl⟩ | h
  · left
    rw [Redis.get, live_of_none h]
    exact ⟨rfl, rfl⟩
  · right
    rw [Redis.get, live_of_lasting h]
    rfl

theorem lrange_lists {stop : Int} (h : Lists (r key) l) :
    (Redis.lrange now key stop r).1 = .ok (l.take (stop + 1).toNat) := by
  rcases h with ⟨h, rfl⟩ | h
  · rw [Redis.lrange, live_of_none h, List.take_nil]
  · rw [Redis.lrange, live_of_lasting h]

end Redis

/-! ## What the log says -/

/-- Who counted, and whether as a hit; newest first. -/
def counted (log : List Event) : List (Nat × Bool) :=
  log.filterMap fun e => match e.op with
    | .incr k => some (e.tid, k == HITS_KEY)
    | _ => none

/-- Who pushed, and what; newest first. -/
def pushed (log : List Event) : List (Nat × Str) :=
  log.filterMap fun e => match e.op with
    | .pushTrim _ v _ => some (e.tid, v)
    | _ => none

/-- The counters and the list are not lost. -/
def Keeps (E : Env) : Prop := ∀ n, ∀ k ∈ E.evict n, k ≠ HITS_KEY ∧ k ≠ MISSES_KEY ∧ k ≠ RECENT_KEY

/-! ## The protocol -/

/-- How a call has counted itself, and what it has pushed. -/
structure Loc where
  hit : Option Bool
  push : Option Str

variable [Platform]

/-- What is read names its provider with a text, if it names one. -/
def Named (raw : Raw) : Prop :=
  ∀ j x, JsonCache.loadsRaw raw = .ok j → subscript "triaged_by".toList j = .ok x → ∃ s, x = text s

def Performs (l : Loc) : Op → Prop
  | .get k => CACHE_PREFIX <+: k
  | .set k v _ => CACHE_PREFIX <+: k ∧ ∃ (c : TriageCall) (r : TriageResult), v = c.cached r
  | .delete ks => ∀ k ∈ ks, CACHE_PREFIX <+: k
  | .incr k => l.hit = none ∧ (k = HITS_KEY ∨ k = MISSES_KEY)
  | .pushTrim k _ n => l.push = none ∧ k = RECENT_KEY ∧ n = RECENT_CAP - 1
  | .triage _ _ _ _ | .perfCounter | .utcnow | .warn _ _ => True
  | _ => False

def Moves (l : Loc) : (o : Op) → o.Ans → Loc → Prop
  | .get _, g, l' => l' = l ∧ Redis.Answers g ∧ ∀ raw, g = .ok (some raw) → Named raw
  | .set _ _ _, s, l' => l' = l ∧ Redis.Answers s
  | .delete _, d, l' => l' = l ∧ Redis.Answers d
  | .incr k, n, l' => l' = { l with hit := some (k == HITS_KEY) } ∧ Redis.Answers n
  | .pushTrim _ v _, u, l' => l' = { l with push := some v } ∧ Redis.Answers u
  | _, _, l' => l' = l

def protocol : Protocol sig Loc := ⟨Performs, Moves⟩

/-- A call that returns has counted itself and pushed its outcome. -/
def Post (c : TriageCall) (l : Loc) : Except Exc TriageOutcome → Prop
  | .ok o => l.hit = some o.cached ∧ (∃ at_, l.push = some (TriageService.recordJson c.id o at_).dumps) ∧
      ∃ s, o.triagedBy = text s
  | .error _ => True

/-! ## A call keeps to it -/

theorem fits : Fits protocol fun _ => True where
  warn _ _ _ := ⟨trivial, fun _ _ h => h⟩
  utcnow _ := ⟨trivial, fun _ _ h => h⟩
  clock _ := ⟨trivial, fun _ _ h => ⟨h, trivial⟩⟩
  get _ h := h.2.1
  set _ h := h.2
  delete _ h := h.2
  incr _ h := h.2
  push _ h := h.2

/-- Recording an outcome pushes it. -/
theorem records {c : TriageCall} {l : Loc} {o : TriageOutcome} (hl : l.push = none) (hhit : l.hit = some o.cached)
    (ht : ∃ s, o.triagedBy = text s) : Records protocol c (Post c) o l := by
  intro at_
  refine ⟨⟨hl, rfl, rfl⟩, fun u l' hs => ?_⟩
  obtain ⟨rfl, -⟩ := hs
  exact ⟨hhit, ⟨at_, rfl⟩, ht⟩

/-- A miss counts itself, and then asks. -/
theorem misses {c : TriageCall} : Misses protocol (fun _ => True) c (Post c) ⟨none, none⟩ := by
  refine ⟨⟨rfl, .inr rfl⟩, fun n l hs => ⟨trivial, fun a l' hs' => ?_⟩⟩
  obtain ⟨rfl, -⟩ := hs
  obtain rfl := hs'
  refine ⟨fun r _ => ⟨⟨⟨_, rfl⟩, c, r, rfl⟩, fun s l hs n _ => ?_⟩, fun e _ => ⟨trivial, fun b l hs => ⟨fun _ _ => trivial, fun r n _ _ => ?_⟩⟩⟩
  · obtain ⟨rfl, -⟩ := hs
    exact records rfl rfl ⟨_, rfl⟩
  · obtain rfl := hs
    exact records rfl rfl ⟨_, rfl⟩

theorem triage_follows (c : TriageCall) : Follows protocol (Post c) ⟨none, none⟩ c.code := by
  refine follows_triage fits ⟨⟨_, rfl⟩, fun g l hs => ?_⟩
  obtain ⟨rfl, -, hnamed⟩ := hs
  refine ⟨fun _ _ => trivial, fun r t h => ?_, fun _ => ⟨misses, fun _ _ => ?_⟩⟩
  · obtain ⟨raw, j, rfl, hload, ht⟩ := Lookup.judge_hit h
    refine ⟨⟨rfl, .inl rfl⟩, fun n l hs m _ => ?_⟩
    obtain ⟨rfl, -⟩ := hs
    exact records rfl rfl (hnamed raw rfl j t hload ht)
  · refine ⟨fun k hk => ⟨_, (List.mem_singleton.mp hk).symm⟩, fun d l hs => ?_⟩
    obtain ⟨rfl, -⟩ := hs
    exact misses

/-! ## The invariant -/

/-- What `GET` can read in an entry. -/
def Reads (e : Entry) (raw : Raw) : Prop := e.val = .str raw ∨ ∃ n, e.val = .int n ∧ raw = .text (intText n)

/-- Every cached value names its provider with a text, if it names one. -/
def Cached (r : Redis) : Prop := ∀ k e raw, CACHE_PREFIX <+: k → r k = some e → Reads e raw → Named raw

structure Inv (w : World) (ls : Nat → Option Loc) : Prop where
  hits : Counts (w.redis HITS_KEY) ((counted w.log).countP Prod.snd)
  misses : Counts (w.redis MISSES_KEY) ((counted w.log).countP fun e => !e.2)
  recent : Lists (w.redis RECENT_KEY) (((pushed w.log).map Prod.snd).take 20)
  cache : Cached w.redis
  marks : ∀ j, tally j (counted w.log) = (ls j).elim [] fun l => l.hit.toList
  pushes : ∀ j, tally j (pushed w.log) = (ls j).elim [] fun l => l.push.toList

variable {E : Env} {w : World} {ls : Nat → Option Loc} {i : Nat} {l : Loc}

omit [Platform] in
theorem no_prefix : ¬ CACHE_PREFIX <+: HITS_KEY ∧ ¬ CACHE_PREFIX <+: MISSES_KEY ∧ ¬ CACHE_PREFIX <+: RECENT_KEY := by decide

theorem named_entry (c : TriageCall) (r : TriageResult) : Named (.text (c.cached r)) := by
  intro j x hj hx
  rw [loads_entry] at hj
  cases hj
  cases hx
  exact ⟨_, rfl⟩

/-- What is written under a triage key is a provider's answer. -/
def Stores : Op → Prop
  | .set k v _ => CACHE_PREFIX <+: k → ∃ (c : TriageCall) (r : TriageResult), v = c.cached r
  | .incr k | .pushTrim k _ _ | .incrExpire k _ => ¬ CACHE_PREFIX <+: k
  | _ => True

/-- What is in the cache after an operation was there before, or was written for an answer. -/
theorem exec_cached (h : Cached w.redis) {o : Op} (ho : Stores o) : Cached (World.exec E i o w).2.redis := by
  intro k e raw hk he hr
  rcases World.exec_redis he with he | ⟨v, ex, rfl, hv⟩ | rfl | ⟨v, n, rfl⟩ | ⟨t, rfl⟩
  · exact h k e raw hk he hr
  · obtain ⟨c, r, rfl⟩ := ho hk
    rcases hr with hr | ⟨n, hr, -⟩
    · rw [hv] at hr
      cases hr
      exact named_entry c r
    · rw [hv] at hr
      cases hr
  · exact absurd hk ho
  · exact absurd hk ho
  · exact absurd hk ho

omit [Platform] in
theorem performs_stores {o : Op} (hp : Performs l o) : Stores o := by
  cases o with
  | set k v ex => exact fun _ => hp.2
  | incr k =>
    rcases hp.2 with rfl | rfl
    · exact no_prefix.1
    · exact no_prefix.2.1
  | pushTrim k v n =>
    intro hk
    exact no_prefix.2.2 (hp.2.1 ▸ hk)
  | incrExpire k ttl => exact hp.elim
  | _ => trivial

/-- A key of the three that an operation does not name. -/
theorem key_kept (hkeep : Keeps E) {k : Str} (hk : k = HITS_KEY ∨ k = MISSES_KEY ∨ k = RECENT_KEY) {o : Op}
    (ho : ¬ o.Touches k) : (World.exec E i o w).2.redis k = w.redis k := by
  refine World.exec_untouched (fun he => ?_) ho
  obtain ⟨h1, h2, h3⟩ := hkeep _ _ he
  rcases hk with rfl | rfl | rfl
  · exact h1 rfl
  · exact h2 rfl
  · exact h3 rfl

/-- An operation that neither counts nor pushes. -/
theorem inv_still (h : Inv w ls) (hkeep : Keeps E) (hl : ls i = some l) {o : Op} (hp : Performs l o)
    (hi : ∀ k, o ≠ .incr k) (hpush : ∀ k v n, o ≠ .pushTrim k v n) :
    Inv (World.exec E i o w).2 (update ls i (some l)) := by
  have hcounted : counted (World.exec E i o w).2.log = counted w.log := by
    refine List.filterMap_cons_none ?_
    cases o with
    | incr k => exact absurd rfl (hi k)
    | _ => rfl
  have hpushed : pushed (World.exec E i o w).2.log = pushed w.log := by
    refine List.filterMap_cons_none ?_
    cases o with
    | pushTrim k v n => exact absurd rfl (hpush k v n)
    | _ => rfl
  have htouch : ∀ k, k = HITS_KEY ∨ k = MISSES_KEY ∨ k = RECENT_KEY → ¬ o.Touches k := by
    intro k hk ho
    have hno : ¬ CACHE_PREFIX <+: k := by
      rcases hk with rfl | rfl | rfl
      · exact no_prefix.1
      · exact no_prefix.2.1
      · exact no_prefix.2.2
    cases o with
    | set key v ex => exact hno ((show k = key from ho) ▸ hp.1)
    | delete keys => exact hno (hp k ho)
    | incr key => exact hi key rfl
    | pushTrim key v n => exact hpush key v n rfl
    | incrExpire key t => exact hp
    | _ => exact ho
  rw [Function.update_eq_self_iff.mpr hl.symm]
  refine ⟨?_, ?_, ?_, exec_cached h.cache (performs_stores hp), ?_, ?_⟩
  · rw [hcounted, key_kept hkeep (.inl rfl) (htouch _ (.inl rfl))]
    exact h.hits
  · rw [hcounted, key_kept hkeep (.inr (.inl rfl)) (htouch _ (.inr (.inl rfl)))]
    exact h.misses
  · rw [hpushed, key_kept hkeep (.inr (.inr rfl)) (htouch _ (.inr (.inr rfl)))]
    exact h.recent
  · rw [hcounted]
    exact h.marks
  · rw [hpushed]
    exact h.pushes

theorem exec_counts (hE : E.Healthy) {k : Str} (he : k ∉ E.evict w.ticks) {n : Nat} (h : Counts (w.redis k) n) :
    Counts ((World.exec E i (.incr k) w).2.redis k) (n + 1) := by
  have hcache : Counts (w.cache E k) n := by rwa [show w.cache E k = w.redis k from Redis.drop_ne he]
  show Counts ((Redis.faulty (E.fault w.ticks) (Redis.incr (w.now E) k) (w.cache E)).2 k) _
  rw [hE, Redis.faulty_none]
  exact (incr_counts hcache).2

theorem exec_lists (hE : E.Healthy) {k : Str} (he : k ∉ E.evict w.ticks) {v : Str} {stop : Int} {l : List Str}
    (h : Lists (w.redis k) l) :
    Lists ((World.exec E i (.pushTrim k v stop) w).2.redis k) ((v :: l).take (stop + 1).toNat) := by
  have hcache : Lists (w.cache E k) l := by rwa [show w.cache E k = w.redis k from Redis.drop_ne he]
  show Lists ((Redis.faulty (E.fault w.ticks) (Redis.pushTrim (w.now E) k v stop) (w.cache E)).2 k) _
  rw [hE, Redis.faulty_none]
  exact (push_lists hcache).2

omit [Platform] in
/-- A thread's entry in a list that is not its own. -/
theorem tally_update {β : Type} {log : List (Nat × β)} {f : Loc → List β} {l' : Loc} {b : β} (hl : ls i = some l)
    (hf : f l = []) (hf' : f l' = [b]) (h : ∀ j, tally j log = (ls j).elim [] f) :
    ∀ j, tally j ((i, b) :: log) = (update ls i (some l') j).elim [] f := by
  intro j
  rw [tally_cons, h j]
  by_cases e : j = i
  · subst e
    rw [if_pos rfl, hl, Function.update_self]
    show b :: f l = f l'
    rw [hf, hf']
  · rw [if_neg fun h => e h.symm, Function.update_of_ne e]

omit [Platform] in
theorem elim_update {β : Type} {f : Loc → List β} (l' : Loc) (hl : ls i = some l) (hf : f l' = f l) (j : Nat) :
    (update ls i (some l') j).elim [] f = (ls j).elim [] f := by
  by_cases e : j = i
  · subst e
    rw [hl, Function.update_self]
    exact hf
  · rw [Function.update_of_ne e]

/-- A call counts itself. -/
theorem inv_incr (h : Inv w ls) (hE : E.Healthy) (hkeep : Keeps E) (hl : ls i = some l) {k : Str} (hp : Performs l (.incr k)) :
    Inv (World.exec E i (.incr k) w).2 (update ls i (some { l with hit := some (k == HITS_KEY) })) := by
  have hcounted : counted (World.exec E i (.incr k) w).2.log = (i, k == HITS_KEY) :: counted w.log :=
    List.filterMap_cons_some rfl
  have hpushed : pushed (World.exec E i (.incr k) w).2.log = pushed w.log := List.filterMap_cons_none rfl
  have hne : MISSES_KEY ≠ HITS_KEY ∧ RECENT_KEY ≠ HITS_KEY ∧ RECENT_KEY ≠ MISSES_KEY := by decide
  have hother : ∀ k', k' = HITS_KEY ∨ k' = MISSES_KEY ∨ k' = RECENT_KEY → k' ≠ k →
      (World.exec E i (.incr k) w).2.redis k' = w.redis k' :=
    fun k' hk' hk => key_kept hkeep hk' fun ht => hk ht
  have hself : Counts ((World.exec E i (.incr k) w).2.redis k) ((counted w.log).countP (fun e => e.2 == (k == HITS_KEY)) + 1) := by
    have he : k ∉ E.evict w.ticks := by
      intro he
      obtain ⟨h1, h2, -⟩ := hkeep _ _ he
      exact hp.2.elim h1 h2
    refine exec_counts hE he ?_
    rcases hp.2 with rfl | rfl
    · simpa using h.hits
    · have hb : (MISSES_KEY == HITS_KEY) = false := by decide
      simpa [hb] using h.misses
  have hhit : (HITS_KEY == HITS_KEY) = true := beq_self_eq_true _
  have hmiss : (MISSES_KEY == HITS_KEY) = false := by decide
  refine ⟨?_, ?_, ?_, exec_cached h.cache (performs_stores hp), ?_, ?_⟩
  · rw [hcounted]
    rcases hp.2 with rfl | rfl
    · rw [hhit, List.countP_cons_of_pos rfl]
      simpa using hself
    · rw [hmiss, List.countP_cons_of_neg Bool.false_ne_true, hother _ (.inl rfl) hne.1.symm]
      exact h.hits
  · rw [hcounted]
    rcases hp.2 with rfl | rfl
    · rw [hhit, List.countP_cons_of_neg Bool.false_ne_true, hother _ (.inr (.inl rfl)) hne.1]
      exact h.misses
    · rw [hmiss, List.countP_cons_of_pos rfl]
      simpa [hmiss] using hself
  · have hk : RECENT_KEY ≠ k := by
      rcases hp.2 with rfl | rfl
      · exact hne.2.1
      · exact hne.2.2
    rw [hpushed, hother _ (.inr (.inr rfl)) hk]
    exact h.recent
  · rw [hcounted]
    exact tally_update (f := fun l => l.hit.toList) hl (by rw [hp.1]; rfl) rfl h.marks
  · intro j
    rw [hpushed, h.pushes]
    exact (elim_update (f := fun l => l.push.toList) { l with hit := some (k == HITS_KEY) } hl rfl j).symm

/-- A call pushes its outcome. -/
theorem inv_push (h : Inv w ls) (hE : E.Healthy) (hkeep : Keeps E) (hl : ls i = some l) {v : Str}
    (hp : Performs l (.pushTrim RECENT_KEY v (RECENT_CAP - 1))) :
    Inv (World.exec E i (.pushTrim RECENT_KEY v (RECENT_CAP - 1)) w).2 (update ls i (some { l with push := some v })) := by
  have hcounted : counted (World.exec E i (.pushTrim RECENT_KEY v (RECENT_CAP - 1)) w).2.log = counted w.log :=
    List.filterMap_cons_none rfl
  have hpushed : pushed (World.exec E i (.pushTrim RECENT_KEY v (RECENT_CAP - 1)) w).2.log = (i, v) :: pushed w.log :=
    List.filterMap_cons_some rfl
  have hne : HITS_KEY ≠ RECENT_KEY ∧ MISSES_KEY ≠ RECENT_KEY := by decide
  have he : RECENT_KEY ∉ E.evict w.ticks := fun he => (hkeep _ _ he).2.2 rfl
  refine ⟨?_, ?_, ?_, exec_cached h.cache (performs_stores hp), ?_, ?_⟩
  · rw [hcounted, key_kept (o := .pushTrim RECENT_KEY v (RECENT_CAP - 1)) hkeep (.inl rfl) fun ht => hne.1 ht]
    exact h.hits
  · rw [hcounted, key_kept (o := .pushTrim RECENT_KEY v (RECENT_CAP - 1)) hkeep (.inr (.inl rfl)) fun ht => hne.2 ht]
    exact h.misses
  · rw [hpushed, List.map_cons]
    have htake : (v :: ((pushed w.log).map Prod.snd).take 20).take (RECENT_CAP - 1 + 1).toNat =
        (v :: (pushed w.log).map Prod.snd).take 20 := by
      show (v :: ((pushed w.log).map Prod.snd).take 20).take 20 = _
      rw [List.take_succ_cons, List.take_succ_cons, List.take_take]
      rfl
    rw [← htake]
    exact exec_lists hE he h.recent
  · intro j
    rw [hcounted, h.marks]
    exact (elim_update (f := fun l => l.hit.toList) { l with push := some v } hl rfl j).symm
  · rw [hpushed]
    exact tally_update (f := fun l => l.push.toList) hl (by rw [hp.1]; rfl) rfl h.pushes

/-! ## Runs -/

def outline (E : Env) : Outline (machine E) TriageCall TriageOutcome Loc where
  toProtocol := protocol
  post := Post
  inv := Inv

theorem counters_sound (hE : E.Healthy) (hkeep : Keeps E) : (outline E).Sound TriageCall.code where
  start := by
    intro w ls i c h hi
    have hfresh : ∀ {β : Type} (f : Loc → List β), f ⟨none, none⟩ = [] → ∀ j,
        (update ls i (some ⟨none, none⟩) j).elim [] f = (ls j).elim [] f := by
      intro β f hf j
      by_cases e : j = i
      · subst e
        rw [Function.update_self, hi]
        exact hf
      · rw [Function.update_of_ne e]
    refine ⟨⟨none, none⟩, ⟨h.hits, h.misses, h.recent, h.cache, fun j => ?_, fun j => ?_⟩, trivial, triage_follows c⟩
    · exact (h.marks j).trans (hfresh (fun l => l.hit.toList) rfl j).symm
    · exact (h.pushes j).trans (hfresh (fun l => l.push.toList) rfl j).symm
  exec := by
    intro w ls i l o h hl hp _
    have hstill : (∀ k, o ≠ .incr k) → (∀ k v n, o ≠ .pushTrim k v n) →
        Inv (World.exec E i o w).2 (update ls i (some l)) := inv_still h hkeep hl hp
    cases o with
    | get k =>
      refine ⟨l, ⟨rfl, Redis.answers_faulty (fun _ => Redis.answers_get) _ _, fun raw hraw => ?_⟩,
        hstill (by simp) (by simp), fun _ _ => trivial⟩
      obtain ⟨e, he, hv⟩ := World.exec_get hraw
      exact h.cache k e raw hp he hv
    | set k v ex =>
      exact ⟨l, ⟨rfl, Redis.answers_faulty (fun _ => Redis.answers_set) _ _⟩, hstill (by simp) (by simp), fun _ _ => trivial⟩
    | delete ks =>
      exact ⟨l, ⟨rfl, Redis.answers_faulty (fun _ => Redis.answers_ok _) _ _⟩, hstill (by simp) (by simp), fun _ _ => trivial⟩
    | incr k =>
      exact ⟨_, ⟨rfl, Redis.answers_faulty (fun _ => Redis.answers_incr) _ _⟩, inv_incr h hE hkeep hl hp, fun _ _ => trivial⟩
    | pushTrim k v n =>
      obtain ⟨-, rfl, rfl⟩ := id hp
      exact ⟨_, ⟨rfl, Redis.answers_faulty (fun _ => Redis.answers_pushTrim) _ _⟩, inv_push h hE hkeep hl hp, fun _ _ => trivial⟩
    | triage role p text location => exact ⟨l, rfl, hstill (by simp) (by simp), fun _ _ => trivial⟩
    | perfCounter => exact ⟨l, rfl, hstill (by simp) (by simp), fun _ _ => trivial⟩
    | utcnow => exact ⟨l, rfl, hstill (by simp) (by simp), fun _ _ => trivial⟩
    | warn msg extra => exact ⟨l, rfl, hstill (by simp) (by simp), fun _ _ => trivial⟩
    | _ => exact absurd hp id

/-- Where the calls start: nothing logged, and the three keys absent. -/
structure Start (w : World) : Prop where
  log : w.log = []
  hits : w.redis HITS_KEY = none
  misses : w.redis MISSES_KEY = none
  recent : w.redis RECENT_KEY = none
  cache : Cached w.redis

theorem start_inv (h : Start w) : Inv w fun _ => none := by
  have hcounted : counted w.log = [] := by rw [h.log]; rfl
  have hpushed : pushed w.log = [] := by rw [h.log]; rfl
  refine ⟨.inl ⟨h.hits, ?_⟩, .inl ⟨h.misses, ?_⟩, .inl ⟨h.recent, ?_⟩, h.cache, fun j => ?_, fun j => ?_⟩
  · rw [hcounted]; rfl
  · rw [hcounted]; rfl
  · rw [hpushed]; rfl
  · rw [hcounted]; rfl
  · rw [hpushed]; rfl

/-! ## Reading the counters and the list -/

theorem getInt_counts (hE : E.Healthy) {k : Str} (he : k ∉ E.evict w.ticks) {n : Nat} (hn : (natText n).length ≤ 4300)
    (h : Counts (w.redis k) n) :
    (JsonCache.getInt k).run (machine E) i w = (.ok (n : Int), (World.exec E i (.get k) w).2) := by
  have hans : (World.exec E i (.get k) w).1 = (Redis.get (w.now E) k w.redis).1 := World.get_healthy (hE _) he
  have hget : (Redis.get (w.now E) k w.redis).1 = .ok none ∧ n = 0 ∨
      (Redis.get (w.now E) k w.redis).1 = .ok (some (.text (natText n))) := get_counts h
  rw [← hans] at hget
  unfold JsonCache.getInt
  rw [Prog.tryCatch_op, Prog.run_op]
  rcases hget with ⟨hget, rfl⟩ | hget
  · simp only [hget]
    rfl
  · have hne : ¬ Raw.text (natText n) = .text [] := fun h => natText_ne_nil n (Raw.text.inj h)
    simp only [hget, ofExcept_ok, Prog.ret_bind, if_neg hne, JsonCache.intOfRaw, intOfText_natText hn]
    rfl

theorem loadsAll_dumps {l : List Json} (h : ∀ j ∈ l, j.plain = true ∧ j.depth ≤ recursionLimit) :
    JsonCache.loadsAll (l.map Json.dumps) = .ok l := by
  induction l with
  | nil => rfl
  | cons j l ih =>
    obtain ⟨hp, hd⟩ := h j List.mem_cons_self
    have hj : JsonCache.loadsRaw (.text j.dumps) = .ok j := JsonCache.loadsRaw_dumps hp hd
    rw [List.map_cons, JsonCache.loadsAll, hj, ih fun j' hj' => h j' (List.mem_cons_of_mem _ hj')]
    rfl

theorem recent_lists (hE : E.Healthy) (he : RECENT_KEY ∉ E.evict w.ticks) {l : List Json}
    (hl : ∀ j ∈ l, j.plain = true ∧ j.depth ≤ recursionLimit) (hlen : l.length ≤ 20)
    (h : Lists (w.redis RECENT_KEY) (l.map Json.dumps)) :
    (TriageService.recent.run (machine E) i w).1 = .ok l := by
  have hans : (World.exec E i (.lrange RECENT_KEY (RECENT_CAP - 1)) w).1 = .ok (l.map Json.dumps) := by
    have hcache : Lists (w.cache E RECENT_KEY) (l.map Json.dumps) := by
      rwa [show w.cache E RECENT_KEY = w.redis RECENT_KEY from Redis.drop_ne he]
    show (Redis.faulty (E.fault w.ticks) (Redis.lrange (w.now E) RECENT_KEY (RECENT_CAP - 1)) (w.cache E)).1 = _
    rw [hE, Redis.faulty_none, lrange_lists hcache, List.take_of_length_le]
    rw [List.length_map]
    exact hlen
  unfold TriageService.recent JsonCache.listRecent
  rw [exceptRedis_op, Prog.run_op]
  show ((exceptRedis _ _).run _ _ _).1 = _
  rw [hans]
  simp only [ofExcept_ok, Prog.ret_bind, loadsAll_dumps hl]
  rfl

/-- A record whose provider is a text and whose latency is within the digit limit. -/
theorem plain_record {id : Str} {o : TriageOutcome} {at_ : Int} (hs : ∃ s, o.triagedBy = text s)
    (hms : (natText o.latencyMs.natAbs).length ≤ 4300) :
    (TriageService.recordJson id o at_).plain = true ∧ (TriageService.recordJson id o at_).depth ≤ recursionLimit := by
  obtain ⟨s, hs⟩ := hs
  constructor
  · rcases he : o.error with _ | e
    · simp [TriageService.recordJson, Json.plain, Json.plainMembers, hs, he, text, Json.codes_scalar, hms]
    · simp [TriageService.recordJson, Json.plain, Json.plainMembers, hs, he, text, Json.codes_scalar, hms]
  · refine Nat.le_trans ?_ Platform.recursionLimit_ge
    rcases he : o.error with _ | e
    · simp [TriageService.recordJson, Json.depth, Json.depthMembers, hs, he, text]
    · simp [TriageService.recordJson, Json.depth, Json.depthMembers, hs, he, text]

omit [Platform] in
theorem digits_mono {m n k : Nat} (h : m ≤ n) (hk : 0 < k) (hn : (natText n).length ≤ k) : (natText m).length ≤ k := by
  have hlt : n < 10 ^ k := (Nat.length_toDigits_le_iff (by decide) hk).mp hn
  exact (Nat.length_toDigits_le_iff (by decide) hk).mpr (Nat.lt_of_le_of_lt h hlt)

theorem cacheCounts_counts (hE : E.Healthy) (hkeep : Keeps E) {h m : Nat} (hh : (natText h).length ≤ 4300)
    (hm : (natText m).length ≤ 4300) (hhits : Counts (w.redis HITS_KEY) h) (hmisses : Counts (w.redis MISSES_KEY) m) :
    (TriageService.cacheCounts.run (machine E) i w).1 = .ok ((h : Int), (m : Int)) := by
  have hkept : Counts ((World.exec E i (.get HITS_KEY) w).2.redis MISSES_KEY) m := by
    rw [key_kept hkeep (.inr (.inl rfl)) id]
    exact hmisses
  unfold TriageService.cacheCounts
  rw [Prog.run_bind, getInt_counts hE (fun he => (hkeep _ _ he).1 rfl) hh hhits]
  show ((JsonCache.getInt MISSES_KEY >>= _).run _ _ _).1 = _
  rw [Prog.run_bind, getInt_counts hE (fun he => (hkeep _ _ he).2.1 rfl) hm hkept]
  rfl

/-! ## Every call is accounted for -/

/-- The list's record of call `i`, whose outcome was `out i`. -/
def recordOf (call : Nat → TriageCall) (out : Nat → TriageOutcome) (at_ : Nat → Int) (i : Nat) : Json :=
  TriageService.recordJson (call i).id (out i) (at_ i)

/-- What Redis holds once the calls `is` have returned `out`, and what a reader gets. `pushed`
    lists the calls newest first. -/
structure Accounted (E : Env) (w : World) (call : Nat → TriageCall) (is : List Nat) (out : Nat → TriageOutcome)
    (at_ : Nat → Int) : Prop where
  hits : Counts (w.redis HITS_KEY) (is.countP fun i => (out i).cached)
  misses : Counts (w.redis MISSES_KEY) (is.countP fun i => !(out i).cached)
  total : (is.countP fun i => (out i).cached) + (is.countP fun i => !(out i).cached) = is.length
  once : ((pushed w.log).map Prod.fst).Perm is
  recorded : (pushed w.log).map Prod.snd = ((pushed w.log).map Prod.fst).map fun i => (recordOf call out at_ i).dumps
  recent : Lists (w.redis RECENT_KEY)
    ((((pushed w.log).map Prod.fst).take 20).map fun i => (recordOf call out at_ i).dumps)
  newest : (((pushed w.log).map Prod.fst).take 20).length = min is.length 20
  counts_read : ∀ j, (natText is.length).length ≤ 4300 →
    (TriageService.cacheCounts.run (machine E) j w).1 =
      .ok (((is.countP fun i => (out i).cached : Nat) : Int), ((is.countP fun i => !(out i).cached : Nat) : Int))
  recent_read : ∀ j, (∀ i ∈ is, (natText (out i).latencyMs.natAbs).length ≤ 4300) →
    (TriageService.recent.run (machine E) j w).1 =
      .ok ((((pushed w.log).map Prod.fst).take 20).map (recordOf call out at_))

variable {P : Pool (machine E) TriageCall TriageOutcome} {call : Nat → TriageCall} {out : Nat → TriageOutcome} {is : List Nat}

/-- One entry from each call, none from anyone else. -/
theorem marks_of (hout : ∀ i ∈ is, ∃ l, ls i = some l ∧ Post (call i) l (.ok (out i)))
    (hidle : ∀ i, i ∉ is → ls i = none) {β : Type} {f : Loc → List β} {g : Nat → β}
    (hf : ∀ i ∈ is, ∀ l, ls i = some l → Post (call i) l (.ok (out i)) → f l = [g i]) (j : Nat) :
    (ls j).elim [] f = if j ∈ is then [g j] else [] := by
  by_cases hj : j ∈ is
  · obtain ⟨l, hl, hp⟩ := hout j hj
    rw [if_pos hj, hl]
    exact hf j hj l hl hp
  · rw [if_neg hj, hidle j hj]
    rfl

theorem calls_accounted (hE : E.Healthy) (hkeep : Keeps E) (h₀ : Start w)
    (hs : Pool.Steps TriageCall.code (Pool.fresh w) P) (hn : is.Nodup)
    (hret : ∀ i ∈ is, P.threads i = some ⟨call i, .ret (out i)⟩) (hidle : ∀ i, i ∉ is → P.threads i = none) :
    ∃ at_, Accounted E P.shared call is out at_ := by
  obtain ⟨ls, hP⟩ := Outline.keeps (counters_sound hE hkeep) hs (Outline.fresh_holds (start_inv h₀))
  have hinv : Inv P.shared ls := hP.inv
  have hpost : ∀ i ∈ is, ∃ l, ls i = some l ∧ Post (call i) l (.ok (out i)) := fun i hi => hP.returned (hret i hi)
  have hnone : ∀ i, i ∉ is → ls i = none := fun i hi => hP.idle i (hidle i hi)
  -- the times at which the calls pushed
  have htime : ∀ i, ∃ a, i ∈ is → ∀ l, ls i = some l → l.push = some (TriageService.recordJson (call i).id (out i) a).dumps := by
    intro i
    by_cases hi : i ∈ is
    · obtain ⟨l, hl, -, ⟨a, ha⟩, -⟩ := hpost i hi
      refine ⟨a, fun _ l' hl' => ?_⟩
      obtain rfl : l = l' := Option.some.inj (hl.symm.trans hl')
      exact ha
    · exact ⟨0, fun h => absurd h hi⟩
  choose at_ hat using htime
  have hmarks : ∀ j, tally j (counted P.shared.log) = if j ∈ is then [(out j).cached] else [] := by
    intro j
    rw [hinv.marks]
    refine marks_of (f := fun l => l.hit.toList) (g := fun i => (out i).cached) hpost hnone (fun i _ l _ hp => ?_) j
    rw [hp.1]
    rfl
  have hpushes : ∀ j, tally j (pushed P.shared.log) = if j ∈ is then [(recordOf call out at_ j).dumps] else [] := by
    intro j
    rw [hinv.pushes]
    refine marks_of (f := fun l => l.push.toList) (g := fun i => (recordOf call out at_ i).dumps) hpost hnone
      (fun i hi l hl _ => ?_) j
    rw [hat i hi l hl]
    rfl
  have hcount : (counted P.shared.log).Perm (is.map fun j => (j, (out j).cached)) := perm_of_tallies hn hmarks
  obtain ⟨honce, hrecorded⟩ := order_of_tallies hn hpushes
  have hhits : Counts (P.shared.redis HITS_KEY) (is.countP fun i => (out i).cached) := by
    have := hinv.hits
    rwa [hcount.countP_eq, List.countP_map] at this
  have hmisses : Counts (P.shared.redis MISSES_KEY) (is.countP fun i => !(out i).cached) := by
    have := hinv.misses
    rwa [hcount.countP_eq, List.countP_map] at this
  have hrecent : Lists (P.shared.redis RECENT_KEY)
      ((((pushed P.shared.log).map Prod.fst).take 20).map fun i => (recordOf call out at_ i).dumps) := by
    have := hinv.recent
    rwa [hrecorded, ← List.map_take] at this
  have htotal : (is.countP fun i => (out i).cached) + (is.countP fun i => !(out i).cached) = is.length := by
    rw [List.length_eq_countP_add_countP fun i => (out i).cached]
    simp
  refine ⟨at_, hhits, hmisses, htotal, honce, hrecorded, hrecent, ?_, fun j hd => ?_, fun j hd => ?_⟩
  · rw [List.length_take, honce.length_eq, Nat.min_comm]
  · have hdigits : ∀ p : Nat → Bool, (natText (is.countP p)).length ≤ 4300 :=
      fun p => digits_mono List.countP_le_length (by decide) hd
    exact cacheCounts_counts hE hkeep (hdigits _) (hdigits _) hhits hmisses
  · refine recent_lists hE (fun he => (hkeep _ _ he).2.2 rfl) (fun x hx => ?_) ?_ ?_
    · obtain ⟨i, hi, rfl⟩ := List.mem_map.mp hx
      have hi : i ∈ is := honce.subset (List.mem_of_mem_take hi)
      obtain ⟨_, -, -, -, hname⟩ := hpost i hi
      exact plain_record hname (hd i hi)
    · rw [List.length_map, List.length_take]
      exact Nat.min_le_left _ _
    · rw [List.map_map]
      exact hrecent

omit [Platform] in
section

def deepPothole : TriageResult where
  category := .roads
  priority := .normal
  summary := "deep pothole".toList
  confidence := .fin ⟨8, 0⟩
  length_le := by decide
  stripped := by decide
  oneLine := by decide
  ne_nil := by decide
  ge := by decide
  le := by decide

def answering : Env := .calm fun _ _ _ => .ok (some deepPothole)

def potholeCall : TriageCall := ⟨⟨.external "groq".toList, .rules, 3600⟩, "b7".toList, "pothole outside gate 3".toList, "g-9".toList⟩

def begun : Pool (@machine .ascii answering) TriageCall TriageOutcome :=
  Pool.schedule (@TriageCall.code .ascii) [.start 0 potholeCall, .start 1 potholeCall] (.fresh (.initial .empty))

/-- The second report of the pothole comes in when the first has been answered. -/
def twice : List (Pool.Act TriageCall) := List.replicate 12 (.exec 0) ++ List.replicate 12 (.exec 1)

def answeredTwice : Pool (@machine .ascii answering) TriageCall TriageOutcome :=
  Pool.schedule (@TriageCall.code .ascii) twice begun

/-- What call `i` returned; `none` would be no outcome at all. -/
def outcomes (i : Nat) : TriageOutcome := (answeredTwice.result i).getD ⟨none, .null, 0, false, false, none⟩

/-- Both calls run from where they began. -/
theorem answeredTwice_steps : @Pool.Steps _ _ _ _ (@TriageCall.code .ascii) begun answeredTwice :=
  @Pool.schedule_steps _ (@machine .ascii answering) _ _ _ twice begun

theorem answeredTwice_returned {i : Nat} (hi : i ∈ [0, 1]) : answeredTwice.threads i = some ⟨potholeCall, .ret (outcomes i)⟩ := by
  have hdone : ∀ i ∈ [0, 1], (answeredTwice.result i).isSome := by decide +kernel
  obtain ⟨o, ho⟩ := Option.isSome_iff_exists.mp (hdone i hi)
  obtain ⟨c, hc⟩ := Pool.result_some ho
  have hbegun : begun.threads i = some ⟨potholeCall, @TriageCall.code .ascii potholeCall⟩ := by
    rcases List.mem_pair.mp hi with rfl | rfl
    · rfl
    · rfl
  obtain ⟨p, hp⟩ := Pool.steps_started answeredTwice_steps hbegun
  rw [hc] at hp
  cases hp
  rw [hc, outcomes, ho]
  rfl

theorem answeredTwice_idle {i : Nat} (hi : i ∉ [0, 1]) : answeredTwice.threads i = none := by
  have hbegins : ∀ a ∈ [Pool.Act.start 0 potholeCall, .start 1 potholeCall], a.thread ∈ [0, 1] := by simp [Pool.Act.thread]
  have htwice : ∀ a ∈ twice, a.thread ∈ [0, 1] := by simp [twice, Pool.Act.thread]
  have hlate : answeredTwice.threads i = begun.threads i :=
    Pool.schedule_other _ (fun a ha (he : a.thread = i) => hi (he ▸ htwice a ha)) begun
  exact hlate.trans (Pool.schedule_other _ (fun a ha (he : a.thread = i) => hi (he ▸ hbegins a ha)) _)

/-- A miss, then a hit; the hit is the newest entry. -/
theorem calls_accounted_twice : (outcomes 0).cached = false ∧ (outcomes 1).cached = true ∧
    ∃ at_, @Accounted .ascii answering answeredTwice.shared (fun _ => potholeCall) [0, 1] outcomes at_ := by
  have hcached : (outcomes 0).cached = false ∧ (outcomes 1).cached = true := by decide +kernel
  exact ⟨hcached.1, hcached.2,
    @calls_accounted .ascii _ _ _ _ _ _ (fun _ => rfl) (fun _ _ h => absurd h List.not_mem_nil)
      (@Start.mk .ascii (.initial .empty) rfl rfl rfl rfl fun _ _ _ _ h => by cases h)
      ((@Pool.schedule_steps _ (@machine .ascii answering) _ _ _ _ _).trans answeredTwice_steps) (by decide)
      (fun _ => answeredTwice_returned) fun _ => answeredTwice_idle⟩

end

end CivicPulse.Counters
