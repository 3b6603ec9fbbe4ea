/-
  CivicPulse.Runs.Inference — how many inferences one incident costs.

  A call looks its hash up, asks the provider and stores the answer in three steps with
  nothing held in between. Redis is healthy, the provider always answers, and all of it
  happens within the lifetime of an entry.
  - `one_inference`: when no call looks up a hash while another call with that hash is
    between its lookup and its store, the provider is asked at most once for each hash, and
    all calls with a hash return the same result.
  - `two_inferences`: two neighbours who report at the same time cost two, and may be told
    different things.

  The invariant says in which of four states a hash is, and which calls can be on it then.
-/

import CivicPulse.Runs.Provenance
import CivicPulse.Store.Frame

namespace CivicPulse.Inference

open Text Lang
open Function (update)

/-! ## Runs -/

/-- The provider is asked for a text and a location with this key. -/
def asksFor [Platform] (k : Str) (e : Event) : Bool :=
  match e.op with
  | .triage .primary _ text location => cacheKey text location == k
  | _ => false

/-- How many inferences the key has cost. -/
def asks [Platform] (k : Str) (log : List Event) : Nat := log.countP (asksFor k)

/-- Request `j` has looked the key up in vain. -/
def missedBy (j : Nat) (k : Str) (log : List Event) : Bool :=
  log.any fun e => e.tid == j && match e with
    | ⟨_, .get k', .ok none⟩ => k' == k
    | _ => false

/-- Request `j` has stored its answer. -/
def storedBy (j : Nat) (log : List Event) : Bool :=
  log.any fun e => e.tid == j && match e.op with
    | .set _ _ _ => true
    | _ => false

/-- Nobody else is between the lookup of this key and the store; asked of a lookup. -/
def alone (i : Nat) (o : Op) (w : World) : Bool :=
  match o with
  | .get k => w.log.all fun e => e.tid == i || !missedBy e.tid k w.log || storedBy e.tid w.log
  | _ => true

/-- Everything happens before this instant. -/
def before (E : Env) (deadline : ℚ) (_ : Nat) (_ : Op) (w : World) : Bool := decide (w.now E < deadline)

/-- Every call's provider answers it, whenever it is asked. -/
def Gives [Platform] (E : Env) (c : TriageCall) : Prop :=
  ∀ a, Replies E c.svc.provider c.text c.location a → ∃ r, a = .ok (some r)

/-- The triage entries are neither evicted nor lost. -/
def Keeps (E : Env) : Prop := ∀ n k, k ∈ E.evict n → ¬ CACHE_PREFIX <+: k

theorem missedBy_iff {j : Nat} {k : Str} {log : List Event} :
    missedBy j k log = true ↔ (⟨j, .get k, .ok none⟩ : Event) ∈ log := by
  simp only [missedBy, List.any_eq_true, Bool.and_eq_true, beq_iff_eq]
  constructor
  · intro h
    obtain ⟨⟨tid, o, a⟩, he, ht, h⟩ := h
    split at h
    · rename_i k' heq
      cases heq
      cases ht
      rw [beq_iff_eq.mp h] at he
      exact he
    · cases h
  · intro h
    exact ⟨_, h, rfl, beq_self_eq_true k⟩

theorem storedBy_iff {j : Nat} {log : List Event} :
    storedBy j log = true ↔ ∃ k v ex s, (⟨j, .set k v ex, s⟩ : Event) ∈ log := by
  simp only [storedBy, List.any_eq_true, Bool.and_eq_true, beq_iff_eq]
  constructor
  · intro h
    obtain ⟨⟨tid, o, a⟩, he, ht, h⟩ := h
    cases o with
    | set k v ex =>
      cases ht
      exact ⟨k, v, ex, a, he⟩
    | _ => cases h
  · intro h
    obtain ⟨k, v, ex, a, he⟩ := h
    exact ⟨_, he, rfl, rfl⟩

/-! ## The protocol -/

inductive Stage where
  | begun
  | missed
  | answered (r : TriageResult)
  | settled (r : TriageResult)

structure Loc where
  call : TriageCall
  stage : Stage

variable [Platform]

def Performs (l : Loc) : Op → Prop
  | .get k => l.stage = .begun ∧ k = l.call.key
  | .triage role p text location => role = .primary ∧ l.stage = .missed ∧ p = l.call.svc.provider ∧ text = l.call.text ∧
      location = l.call.location
  | .set k v ex => ∃ r, l.stage = .answered r ∧ k = l.call.key ∧ v = l.call.cached r ∧ ex = l.call.svc.ttl
  | .incr k => k = HITS_KEY ∨ k = MISSES_KEY
  | .pushTrim k _ _ => k = RECENT_KEY
  | .perfCounter | .utcnow | .warn _ _ => True
  | _ => False

def Moves (l : Loc) : (o : Op) → o.Ans → Loc → Prop
  | .get _, g, l' => (g = .ok none ∧ l' = ⟨l.call, .missed⟩) ∨
      ∃ (d : TriageCall) (r : TriageResult), g = .ok (some (.text (d.cached r))) ∧ l' = ⟨l.call, .settled r⟩
  | .triage _ _ _ _, a, l' => ∃ r, a = .ok (some r) ∧ l' = ⟨l.call, .answered r⟩
  | .set _ _ _, s, l' => Redis.Answers s ∧ ∃ r, l.stage = .answered r ∧ l' = ⟨l.call, .settled r⟩
  | .incr _, n, l' => Redis.Answers n ∧ l' = l
  | .pushTrim _ _ _, u, l' => Redis.Answers u ∧ l' = l
  | _, _, l' => l' = l

def protocol : Protocol sig Loc := ⟨Performs, Moves⟩

/-- A call returns what its stage says. -/
def Post (l : Loc) : Except Exc TriageOutcome → Prop
  | .ok o => ∃ r, o.result = some r ∧ l.stage = .settled r
  | .error _ => False

/-! ## A call keeps to it -/

theorem fits : Fits protocol fun _ => True where
  warn _ _ _ := ⟨trivial, fun _ _ h => h⟩
  utcnow _ := ⟨trivial, fun _ _ h => h⟩
  clock _ := ⟨trivial, fun _ _ h => ⟨h, trivial⟩⟩
  get _ h := by
    rcases h with ⟨rfl, -⟩ | ⟨d, r, rfl, -⟩
    · exact Redis.answers_ok _
    · exact Redis.answers_ok _
  set _ h := h.1
  delete h := h.elim
  incr _ h := h.1
  push _ h := h.1

theorem records {c : TriageCall} {l : Loc} {o : TriageOutcome} (h : Post l (.ok o)) : Records protocol c Post o l := by
  intro at_
  refine ⟨rfl, fun u l' hs => ?_⟩
  obtain ⟨-, rfl⟩ := hs
  exact h

/-- A call asks when it has looked up in vain, and returns what it was told or found. -/
theorem triage_follows (c : TriageCall) : Follows protocol Post ⟨c, .begun⟩ c.code := by
  refine follows_triage fits ⟨⟨rfl, rfl⟩, fun g l hs => ?_⟩
  rcases hs with ⟨rfl, rfl⟩ | ⟨d, r, rfl, rfl⟩
  · -- a miss
    refine ⟨fun _ h => (by cases h), fun _ _ h => (by cases h), fun _ => ⟨⟨.inr rfl, fun n l hs => ?_⟩, fun _ h => (by cases h)⟩⟩
    obtain ⟨-, rfl⟩ := hs
    refine ⟨⟨rfl, rfl, rfl, rfl, rfl⟩, fun a l hs => ?_⟩
    obtain ⟨r, rfl, rfl⟩ := hs
    refine ⟨fun r' h => ?_, fun e he => ?_⟩
    · cases h
      refine ⟨⟨r, rfl, rfl, rfl, rfl⟩, fun s l hs n _ => ?_⟩
      obtain ⟨-, r', hr', rfl⟩ := hs
      cases hr'
      exact records ⟨r, rfl, rfl⟩
    · rcases he with h | ⟨h, -⟩ <;> cases h
  · -- a hit
    rw [judge_entry]
    refine ⟨fun _ h => (by cases h), fun r' t h => ?_, fun h => (by cases h)⟩
    cases h
    refine ⟨.inl rfl, fun n l hs m _ => ?_⟩
    obtain ⟨-, rfl⟩ := hs
    exact records ⟨r, rfl, rfl⟩

/-! ## The invariant -/

/-- Which calls are on a key, and in which stage. -/
def On (k : Str) (ls : Nat → Option Loc) (j : Nat) (s : Stage) : Prop := ∃ c, ls j = some ⟨c, s⟩ ∧ c.key = k

/-- The four states of a key: its entry, how often a provider was asked, and who is on it. -/
inductive Keyed (deadline : ℚ) (entry : Option Entry) (asked : Nat) (on : Nat → Stage → Prop) : Prop
  | unasked : entry = none → asked = 0 → (∀ j s, on j s → s = .begun) → Keyed deadline entry asked on
  | asking (i : Nat) : entry = none → asked = 0 → on i .missed → (∀ j s, on j s → j ≠ i → s = .begun) →
      Keyed deadline entry asked on
  | storing (i : Nat) (r : TriageResult) : entry = none → asked = 1 → on i (.answered r) →
      (∀ j s, on j s → j ≠ i → s = .begun) → Keyed deadline entry asked on
  | stored (d : TriageCall) (r : TriageResult) (t : ℚ) : entry = some ⟨.str (.text (d.cached r)), some t⟩ → deadline ≤ t →
      asked = 1 → (∀ j s, on j s → s = .begun ∨ s = .settled r) → Keyed deadline entry asked on

/-- A call that may still store. -/
def Unsettled (o : Option Loc) : Prop := ∀ l r, o = some l → l.stage ≠ .settled r

structure Inv (deadline : ℚ) (w : World) (ls : Nat → Option Loc) : Prop where
  keyed : ∀ k, CACHE_PREFIX <+: k → Keyed deadline (w.redis k) (asks k w.log) (On k ls)
  missed : ∀ j c s, ls j = some ⟨c, s⟩ → s = .missed ∨ (∃ r, s = .answered r) → (⟨j, .get c.key, .ok none⟩ : Event) ∈ w.log
  unset : ∀ j, Unsettled (ls j) → ∀ k v ex s, (⟨j, .set k v ex, s⟩ : Event) ∉ w.log

variable {E : Env} {deadline : ℚ} {w : World} {ls : Nat → Option Loc} {i : Nat} {l : Loc}

theorem prefix_key (c : TriageCall) : CACHE_PREFIX <+: c.key := ⟨_, rfl⟩

/-- At most one stage for each call. -/
theorem on_unique {k : Str} {j : Nat} {s s' : Stage} (h : On k ls j s) (h' : On k ls j s') : s = s' := by
  obtain ⟨c, hc, -⟩ := h
  obtain ⟨c', hc', -⟩ := h'
  rw [hc] at hc'
  cases hc'
  rfl

theorem on_update_ne {k : Str} {j : Nat} {s : Stage} {o : Option Loc} (hj : j ≠ i) : On k (update ls i o) j s ↔ On k ls j s := by
  simp only [On, Function.update_of_ne hj]

theorem on_update {k : Str} {s : Stage} {l' : Loc} (hk : l'.call.key = k) : On k (update ls i (some l')) i s ↔ s = l'.stage := by
  simp only [On, Function.update_self, Option.some.injEq]
  constructor
  · intro h
    obtain ⟨c, rfl, -⟩ := h
    rfl
  · intro h
    subst h
    exact ⟨l'.call, rfl, hk⟩

/-- A call on another key is not on this one. -/
theorem on_update_other {k : Str} {j : Nat} {s : Stage} {l' : Loc} (hl : ∀ l, ls i = some l → l.call.key ≠ k)
    (hl' : l'.call.key ≠ k) : On k (update ls i (some l')) j s ↔ On k ls j s := by
  by_cases hj : j = i
  · subst hj
    simp only [On, Function.update_self, Option.some.injEq]
    constructor
    · intro h
      obtain ⟨c, rfl, hk⟩ := h
      exact absurd hk hl'
    · intro h
      obtain ⟨c, hc, hk⟩ := h
      exact absurd hk (hl _ hc)
  · exact on_update_ne hj

omit [Platform] in
theorem Keyed.congr {entry : Option Entry} {n : Nat} {on on' : Nat → Stage → Prop} (h : Keyed deadline entry n on)
    (hon : ∀ j s, on' j s ↔ on j s) : Keyed deadline entry n on' := by
  obtain rfl : on' = on := funext fun j => funext fun s => propext (hon j s)
  exact h

theorem key_kept (hkeep : Keeps E) {k : Str} (hk : CACHE_PREFIX <+: k) {o : Op} (ho : ¬ o.Touches k) :
    (World.exec E i o w).2.redis k = w.redis k :=
  World.exec_untouched (fun he => hkeep _ _ he hk) ho

theorem asks_cons {o : Op} (ho : ∀ p text location, o ≠ .triage .primary p text location) (k : Str) :
    asks k (World.exec E i o w).2.log = asks k w.log := by
  show (⟨i, o, (World.exec E i o w).1⟩ :: w.log : List Event).countP (asksFor k) = w.log.countP (asksFor k)
  refine List.countP_cons_of_neg ?_
  cases o with
  | triage role p text location =>
    cases role with
    | primary => exact absurd rfl (ho p text location)
    | fallback => exact Bool.false_ne_true
  | _ => exact Bool.false_ne_true

/-- An operation that is no part of the three steps. -/
theorem inv_still (h : Inv deadline w ls) (hkeep : Keeps E) (hl : ls i = some l) {o : Op}
    (htouch : ∀ k, CACHE_PREFIX <+: k → ¬ o.Touches k) (hset : ∀ k v ex, o ≠ .set k v ex)
    (hask : ∀ p text location, o ≠ .triage .primary p text location) :
    Inv deadline (World.exec E i o w).2 (update ls i (some l)) := by
  rw [Function.update_eq_self_iff.mpr hl.symm]
  refine ⟨fun k hk => ?_, fun j c s hj hs => World.mem_log_exec (h.missed j c s hj hs), fun j hj k v ex s hmem => ?_⟩
  · rw [key_kept hkeep hk (htouch k hk), asks_cons hask]
    exact h.keyed k hk
  · rcases List.mem_cons.mp hmem with hnew | hold
    · obtain ⟨-, rfl, -⟩ := Event.mk.inj hnew
      exact hset k v ex rfl
    · exact h.unset j hj k v ex s hold

/-- What is not touched under the other keys. -/
theorem keyed_other (h : Inv deadline w ls) (hkeep : Keeps E) (hl : ls i = some l) {o : Op} {s' : Stage} {k : Str}
    (hk : CACHE_PREFIX <+: k) (hne : l.call.key ≠ k) (htouch : ¬ o.Touches k)
    (hasks : asks k (World.exec E i o w).2.log = asks k w.log) :
    Keyed deadline ((World.exec E i o w).2.redis k) (asks k (World.exec E i o w).2.log)
      (On k (update ls i (some ⟨l.call, s'⟩))) := by
  rw [key_kept hkeep hk htouch, hasks]
  refine (h.keyed k hk).congr fun j s => on_update_other (fun l' hl' => ?_) hne
  rw [hl] at hl'
  cases hl'
  exact hne

/-- The others are where they were. -/
theorem begun_update {k : Str} {s' : Stage} (h : ∀ j s, On k ls j s → j ≠ i → s = .begun) :
    ∀ j s, On k (update ls i (some ⟨l.call, s'⟩)) j s → j ≠ i → s = .begun := by
  intro j s hj hne
  exact h j s ((on_update_ne hne).mp hj) hne

/-- What a call has read, asked and stored is in the log. -/
theorem missed_update (h : Inv deadline w ls) {o : Op} {s' : Stage}
    (hs : s' = .missed ∨ (∃ r, s' = .answered r) → (⟨i, .get l.call.key, .ok none⟩ : Event) ∈ (World.exec E i o w).2.log) :
    ∀ j c s, update ls i (some ⟨l.call, s'⟩) j = some ⟨c, s⟩ → s = .missed ∨ (∃ r, s = .answered r) →
      (⟨j, .get c.key, .ok none⟩ : Event) ∈ (World.exec E i o w).2.log := by
  intro j c s hj hst
  rcases update_some hj with ⟨rfl, he⟩ | ⟨-, hj⟩
  · cases he
    exact hs hst
  · exact World.mem_log_exec (h.missed j c s hj hst)

theorem unset_update (h : Inv deadline w ls) (hl : ls i = some l) {o : Op} {s' : Stage}
    (hs : (∀ r, s' ≠ .settled r) → (∀ r, l.stage ≠ .settled r) ∧ ∀ k v ex, o ≠ .set k v ex) :
    ∀ j, Unsettled (update ls i (some ⟨l.call, s'⟩) j) → ∀ k v ex s, (⟨j, .set k v ex, s⟩ : Event) ∉ (World.exec E i o w).2.log := by
  intro j hj k v ex s hmem
  by_cases e : j = i
  · subst e
    obtain ⟨hstage, hset⟩ := hs fun r => hj ⟨l.call, s'⟩ r (Function.update_self ..)
    rcases List.mem_cons.mp hmem with hnew | hold
    · obtain ⟨-, rfl, -⟩ := Event.mk.inj hnew
      exact hset k v ex rfl
    · refine h.unset j (fun l' r hl' => ?_) k v ex s hold
      rw [hl] at hl'
      cases hl'
      exact hstage r
  · rcases List.mem_cons.mp hmem with hnew | hold
    · exact e (Event.mk.inj hnew).1
    · rw [Function.update_of_ne e] at hj
      exact h.unset j hj k v ex s hold

/-! ## The three steps -/

omit [Platform] in
theorem get_absent {now : ℚ} {r : Redis} {k : Str} (h : r k = none) : (Redis.get now k r).1 = .ok none := by
  rw [Redis.get, Redis.live, h]
  rfl

omit [Platform] in
theorem get_present {now t : ℚ} {r : Redis} {k v : Str} (h : r k = some ⟨.str (.text v), some t⟩) (ht : now < t) :
    (Redis.get now k r).1 = .ok (some (.text v)) := by
  have hl : r.live now k = some ⟨.str (.text v), some t⟩ := Option.filter_eq_some_iff.mpr ⟨h, by simpa using ht⟩
  rw [Redis.get, hl]

/-- Where a call may look up, nobody is between the lookup and the store. -/
theorem not_between (h : Inv deadline w ls) {k : Str} (hg : alone i (.get k) w = true) {j : Nat} (hne : j ≠ i) {s : Stage}
    (hj : On k ls j s) (hs : s = .missed ∨ ∃ r, s = .answered r) : False := by
  obtain ⟨c, hc, rfl⟩ := hj
  have hmissed := h.missed j c s hc hs
  have hunset : storedBy j w.log = false := by
    by_contra hst
    obtain ⟨k, v, ex, a, hmem⟩ := storedBy_iff.mp (by simpa using hst)
    refine h.unset j (fun l r hl hr => ?_) k v ex a hmem
    rw [hc] at hl
    cases hl
    rcases hs with rfl | ⟨r', rfl⟩
    · cases hr
    · cases hr
  have hall := List.all_eq_true.mp hg _ hmissed
  simp [hne, missedBy_iff.mpr hmissed, hunset] at hall

theorem exec_get (h : Inv deadline w ls) (hE : E.Healthy) (hkeep : Keeps E) (hl : ls i = some l) (hs : l.stage = .begun)
    (hg : alone i (.get l.call.key) w = true) (hnow : w.now E < deadline) :
    ∃ s', Moves l (.get l.call.key) (World.exec E i (.get l.call.key) w).1 ⟨l.call, s'⟩ ∧
      Inv deadline (World.exec E i (.get l.call.key) w).2 (update ls i (some ⟨l.call, s'⟩)) := by
  have hk := prefix_key l.call
  have hans : (World.exec E i (.get l.call.key) w).1 = (Redis.get (w.now E) l.call.key w.redis).1 :=
    World.get_healthy (hE _) fun he => hkeep _ _ he hk
  have hredis : (World.exec E i (.get l.call.key) w).2.redis l.call.key = w.redis l.call.key :=
    key_kept hkeep hk fun h => h
  have hasks : ∀ k, asks k (World.exec E i (.get l.call.key) w).2.log = asks k w.log := asks_cons nofun
  have hme : On l.call.key ls i .begun := ⟨l.call, by rw [hl, ← hs], rfl⟩
  -- the invariant after the lookup, whatever it answers
  have step : ∀ s', (s' = .missed ∨ (∃ r, s' = .answered r) → (World.exec E i (.get l.call.key) w).1 = .ok none) →
      Keyed deadline (w.redis l.call.key) (asks l.call.key w.log) (On l.call.key (update ls i (some ⟨l.call, s'⟩))) →
      Inv deadline (World.exec E i (.get l.call.key) w).2 (update ls i (some ⟨l.call, s'⟩)) := by
    intro s' hmiss hkeyed
    refine ⟨fun k hk' => ?_, missed_update h fun hst => ?_, unset_update h hl fun _ => ⟨fun r hr => ?_, nofun⟩⟩
    · by_cases e : l.call.key = k
      · subst e
        rw [hredis, hasks]
        exact hkeyed
      · exact keyed_other h hkeep hl hk' e (fun h => h) (hasks k)
    · rw [← hmiss hst]
      exact List.mem_cons_self
    · rw [hs] at hr
      cases hr
  rcases h.keyed _ hk with ⟨hentry, hn, hon⟩ | ⟨j, -, -, hj, hon⟩ | ⟨j, r, -, -, hj, hon⟩ | ⟨d, r, t, hentry, ht, hn, hon⟩
  · -- nobody has asked
    have hnone : (World.exec E i (.get l.call.key) w).1 = .ok none := hans.trans (get_absent hentry)
    refine ⟨.missed, .inl ⟨hnone, rfl⟩, step _ (fun _ => hnone) (.asking i hentry hn ((on_update rfl).mpr rfl) ?_)⟩
    exact begun_update fun j s hj _ => hon j s hj
  · exact (not_between h hg (fun e => by cases on_unique (e ▸ hj) hme) hj (.inl rfl)).elim
  · exact (not_between h hg (fun e => by cases on_unique (e ▸ hj) hme) hj (.inr ⟨r, rfl⟩)).elim
  · -- the answer is there
    refine ⟨.settled r, .inr ⟨d, r, hans.trans (get_present hentry (hnow.trans_le ht)), rfl⟩,
      step _ (fun hst => ?_) (.stored d r t hentry ht hn fun j s hj => ?_)⟩
    · rcases hst with hst | ⟨_, hst⟩
      · cases hst
      · cases hst
    · by_cases e : j = i
      · subst e
        exact .inr ((on_update rfl).mp hj)
      · exact hon j s ((on_update_ne e).mp hj)

/-- Whoever is past the lookup is the one on its key. -/
theorem keyed_missed (h : Inv deadline w ls) (hl : ls i = some l) (hs : l.stage = .missed) :
    w.redis l.call.key = none ∧ asks l.call.key w.log = 0 ∧ ∀ j s, On l.call.key ls j s → j ≠ i → s = .begun := by
  have hme : On l.call.key ls i .missed := ⟨l.call, by rw [hl, ← hs], rfl⟩
  rcases h.keyed _ (prefix_key l.call) with ⟨-, -, hon⟩ | ⟨j, hentry, hn, hj, hon⟩ | ⟨j, r, -, -, hj, hon⟩ | ⟨d, r, t, -, -, -, hon⟩
  · cases hon i _ hme
  · obtain rfl : j = i := by
      by_contra hne
      cases hon i _ hme (Ne.symm hne)
    exact ⟨hentry, hn, hon⟩
  · by_cases e : j = i
    · cases on_unique (e ▸ hj) hme
    · cases hon i _ hme (Ne.symm e)
  · rcases hon i _ hme with e | e
    · cases e
    · cases e

theorem keyed_answered (h : Inv deadline w ls) (hl : ls i = some l) {r : TriageResult} (hs : l.stage = .answered r) :
    w.redis l.call.key = none ∧ asks l.call.key w.log = 1 ∧ ∀ j s, On l.call.key ls j s → j ≠ i → s = .begun := by
  have hme : On l.call.key ls i (.answered r) := ⟨l.call, by rw [hl, ← hs], rfl⟩
  rcases h.keyed _ (prefix_key l.call) with ⟨-, -, hon⟩ | ⟨j, -, -, hj, hon⟩ | ⟨j, r', hentry, hn, hj, hon⟩ | ⟨d, r', t, -, -, -, hon⟩
  · cases hon i _ hme
  · by_cases e : j = i
    · cases on_unique (e ▸ hj) hme
    · cases hon i _ hme (Ne.symm e)
  · obtain rfl : j = i := by
      by_contra hne
      cases hon i _ hme (Ne.symm hne)
    exact ⟨hentry, hn, hon⟩
  · rcases hon i _ hme with e | e
    · cases e
    · cases e

theorem keyed_settled (h : Inv deadline w ls) {c : TriageCall} {r : TriageResult} (hme : On c.key ls i (.settled r)) :
    ∀ j s, On c.key ls j s → s = .begun ∨ s = .settled r := by
  rcases h.keyed _ (prefix_key c) with ⟨-, -, hon⟩ | ⟨j, -, -, hj, hon⟩ | ⟨j, r', -, -, hj, hon⟩ | ⟨d, r', t, -, -, -, hon⟩
  · cases hon i _ hme
  · by_cases e : j = i
    · cases on_unique (e ▸ hj) hme
    · cases hon i _ hme (Ne.symm e)
  · by_cases e : j = i
    · cases on_unique (e ▸ hj) hme
    · cases hon i _ hme (Ne.symm e)
  · rcases hon i _ hme with e | e
    · cases e
    · cases e
      exact hon

theorem exec_ask (h : Inv deadline w ls) (hkeep : Keeps E) (hgives : Gives E l.call) (hl : ls i = some l) (hs : l.stage = .missed) :
    ∃ r, (World.exec E i (.triage .primary l.call.svc.provider l.call.text l.call.location) w).1 = .ok (some r) ∧
      Inv deadline (World.exec E i (.triage .primary l.call.svc.provider l.call.text l.call.location) w).2
        (update ls i (some ⟨l.call, .answered r⟩)) := by
  obtain ⟨hentry, hn, hon⟩ := keyed_missed h hl hs
  obtain ⟨r, hr⟩ := hgives _ (exec_replies (E := E) (i := i) (w := w) .primary l.call.svc.provider l.call.text l.call.location)
  refine ⟨r, hr, fun k hk => ?_, missed_update h fun _ => ?_, unset_update h hl fun _ => ⟨fun r' hr' => ?_, nofun⟩⟩
  · by_cases e : l.call.key = k
    · subst e
      rw [key_kept (o := .triage _ _ _ _) hkeep hk fun h => h]
      refine .storing i r hentry ?_ ((on_update rfl).mpr rfl) (begun_update hon)
      have hme : asksFor l.call.key ⟨i, .triage .primary l.call.svc.provider l.call.text l.call.location,
          (World.exec E i (.triage .primary l.call.svc.provider l.call.text l.call.location) w).1⟩ = true :=
        beq_self_eq_true l.call.key
      exact (List.countP_cons_of_pos hme).trans (congrArg (· + 1) hn)
    · refine keyed_other h hkeep hl hk e (fun h => h) ?_
      exact List.countP_cons_of_neg fun ha => e (beq_iff_eq.mp ha)
  · exact World.mem_log_exec (h.missed i l.call _ (by rw [hl]) (.inl hs))
  · rw [hs] at hr'
    cases hr'

theorem exec_set (h : Inv deadline w ls) (hE : E.Healthy) (hkeep : Keeps E) (hl : ls i = some l) {r : TriageResult}
    (hs : l.stage = .answered r) (hnow : w.now E < deadline) (httl : deadline ≤ w.now E + l.call.svc.ttl) :
    Inv deadline (World.exec E i (.set l.call.key (l.call.cached r) l.call.svc.ttl) w).2
      (update ls i (some ⟨l.call, .settled r⟩)) := by
  obtain ⟨hentry, hn, hon⟩ := keyed_answered h hl hs
  have hpos : 0 < l.call.svc.ttl := by
    have : (0 : ℚ) < l.call.svc.ttl := by linarith
    exact_mod_cast this
  have hasks : ∀ k, asks k (World.exec E i (.set l.call.key (l.call.cached r) l.call.svc.ttl) w).2.log = asks k w.log :=
    asks_cons nofun
  refine ⟨fun k hk => ?_, missed_update h fun hst => ?_, unset_update h hl fun hst => absurd rfl (hst r)⟩
  · by_cases e : l.call.key = k
    · subst e
      rw [hasks]
      refine .stored l.call r _ (World.set_healthy (hE _) hpos) httl hn fun j s hj => ?_
      by_cases e : j = i
      · subst e
        exact .inr ((on_update rfl).mp hj)
      · exact .inl (hon j s ((on_update_ne e).mp hj) e)
    · exact keyed_other h hkeep hl hk e (fun ht => e (Eq.symm ht)) (hasks k)
  · rcases hst with hst | ⟨_, hst⟩
    · cases hst
    · cases hst

/-! ## The outline -/

variable (E deadline)

/-- The machine within the lifetime, where nobody looks up between another's lookup and
    store. -/
abbrev quiet : Machine sig := ((machine E).restrict (before E deadline)).restrict alone

variable {ι : Type} (calls : ι → TriageCall)

def outline (start : ℚ) : Outline (quiet E deadline) ι TriageOutcome Loc where
  toProtocol := protocol
  post _ := Post
  inv w ls := Inv deadline w ls ∧ start ≤ w.clock ∧ ∀ i l, ls i = some l → ∃ x, l.call = calls x
  belongs x l := l.call = calls x

variable {E deadline calls}

/-- One more call that has not looked up yet. -/
theorem inv_start (h : Inv deadline w ls) (hn : ls i = none) (c : TriageCall) :
    Inv deadline w (update ls i (some ⟨c, .begun⟩)) := by
  refine ⟨fun k hk => ?_, fun j c' s hj hs => ?_, fun j hj => ?_⟩
  · have hfree : ∀ j s, On k ls j s → j ≠ i := by
      intro j s hj e
      obtain ⟨c', hc', -⟩ := hj
      rw [e, hn] at hc'
      cases hc'
    have hback : ∀ j s, On k (update ls i (some ⟨c, .begun⟩)) j s → s = .begun ∨ On k ls j s := by
      intro j s hj
      by_cases e : j = i
      · subst e
        obtain ⟨c', hc', -⟩ := hj
        rw [Function.update_self] at hc'
        cases hc'
        exact .inl rfl
      · exact .inr ((on_update_ne e).mp hj)
    rcases h.keyed k hk with ⟨hentry, hn, hon⟩ | ⟨j, hentry, hn, hj, hon⟩ | ⟨j, r, hentry, hn, hj, hon⟩ | ⟨d, r, t, hentry, ht, hn, hon⟩
    · exact .unasked hentry hn fun j s hj => (hback j s hj).elim id (hon j s)
    · exact .asking j hentry hn ((on_update_ne (hfree _ _ hj)).mpr hj) fun j' s hj' hne =>
        (hback j' s hj').elim id fun h => hon j' s h hne
    · exact .storing j r hentry hn ((on_update_ne (hfree _ _ hj)).mpr hj) fun j' s hj' hne =>
        (hback j' s hj').elim id fun h => hon j' s h hne
    · exact .stored d r t hentry ht hn fun j s hj => (hback j s hj).elim .inl (hon j s)
  · rcases update_some hj with ⟨rfl, he⟩ | ⟨-, hj⟩
    · cases he
      rcases hs with hs | ⟨_, hs⟩
      · cases hs
      · cases hs
    · exact h.missed j c' s hj hs
  · by_cases e : j = i
    · subst e
      exact h.unset j fun l r hl => by rw [hn] at hl; cases hl
    · rw [Function.update_of_ne e] at hj
      exact h.unset j hj

theorem inv_exec (h : Inv deadline w ls) (hE : E.Healthy) (hkeep : Keeps E) (hl : ls i = some l) (hgives : Gives E l.call)
    (httl : deadline ≤ w.now E + l.call.svc.ttl) {o : Op} (hcan : Performs l o) (hg : alone i o w = true)
    (hnow : w.now E < deadline) :
    ∃ s', Moves l o (World.exec E i o w).1 ⟨l.call, s'⟩ ∧ Inv deadline (World.exec E i o w).2 (update ls i (some ⟨l.call, s'⟩)) := by
  have hno : ¬ CACHE_PREFIX <+: HITS_KEY ∧ ¬ CACHE_PREFIX <+: MISSES_KEY ∧ ¬ CACHE_PREFIX <+: RECENT_KEY := by decide
  have still : ∀ {o : Op}, (∀ k, CACHE_PREFIX <+: k → ¬ o.Touches k) → (∀ k v ex, o ≠ .set k v ex) →
      (∀ p text location, o ≠ .triage .primary p text location) →
      Inv deadline (World.exec E i o w).2 (update ls i (some ⟨l.call, l.stage⟩)) := fun ht hs ha => inv_still h hkeep hl ht hs ha
  cases o with
  | get k =>
    obtain ⟨hs, rfl⟩ := hcan
    exact exec_get h hE hkeep hl hs hg hnow
  | triage role p text location =>
    obtain ⟨rfl, hs, rfl, rfl, rfl⟩ := hcan
    obtain ⟨r, hr, hinv⟩ := exec_ask h hkeep hgives hl hs
    exact ⟨_, ⟨r, hr, rfl⟩, hinv⟩
  | set k v ex =>
    obtain ⟨r, hs, rfl, rfl, rfl⟩ := hcan
    exact ⟨_, ⟨Redis.answers_faulty (fun _ => Redis.answers_set) _ _, r, hs, rfl⟩, exec_set h hE hkeep hl hs hnow httl⟩
  | incr k =>
    refine ⟨l.stage, ⟨Redis.answers_faulty (fun _ => Redis.answers_incr) _ _, rfl⟩, still (fun k' hk' ht => ?_) nofun nofun⟩
    obtain rfl : k' = k := ht
    rcases hcan with rfl | rfl
    · exact hno.1 hk'
    · exact hno.2.1 hk'
  | pushTrim k v n =>
    refine ⟨l.stage, ⟨Redis.answers_faulty (fun _ => Redis.answers_pushTrim) _ _, rfl⟩, still (fun k' hk' ht => ?_) nofun nofun⟩
    obtain rfl : k' = k := ht
    obtain rfl : k' = RECENT_KEY := hcan
    exact hno.2.2 hk'
  | perfCounter => exact ⟨l.stage, rfl, still (fun _ _ h => h) nofun nofun⟩
  | utcnow => exact ⟨l.stage, rfl, still (fun _ _ h => h) nofun nofun⟩
  | warn msg extra => exact ⟨l.stage, rfl, still (fun _ _ h => h) nofun nofun⟩
  | _ => cases hcan

theorem sound (hE : E.Healthy) (hkeep : Keeps E) (hgives : ∀ x, Gives E (calls x)) {start : ℚ}
    (httl : ∀ x, deadline ≤ start + (calls x).svc.ttl) : (outline E deadline calls start).Sound fun x => (calls x).code where
  start := by
    intro w ls i x hi hn
    obtain ⟨h, hle, hcalls⟩ := hi
    refine ⟨⟨calls x, .begun⟩, ⟨inv_start h hn _, hle, fun j l hj => ?_⟩, rfl, triage_follows (calls x)⟩
    rcases update_some hj with ⟨rfl, rfl⟩ | ⟨-, hj⟩
    · exact ⟨x, rfl⟩
    · exact hcalls j l hj
  exec := by
    intro w ls i l o hi hl hcan hen
    obtain ⟨h, hle, hcalls⟩ := hi
    obtain ⟨⟨-, htime⟩, hg⟩ : (World.enabled i o w = true ∧ before E deadline i o w = true) ∧ alone i o w = true := by
      simpa [quiet, Machine.restrict] using hen
    have hnow : w.clock ≤ w.now E := le_add_of_nonneg_right (E.delay_nonneg _)
    obtain ⟨x, hx⟩ := hcalls i l hl
    obtain ⟨s', hmoves, hinv⟩ := inv_exec h hE hkeep hl (hx ▸ hgives x) (by rw [hx]; linarith [httl x]) hcan hg
      (of_decide_eq_true htime)
    refine ⟨⟨l.call, s'⟩, hmoves, ⟨hinv, hle.trans hnow, fun j l' hj => ?_⟩, fun _ hb => hb⟩
    rcases update_some hj with ⟨rfl, rfl⟩ | ⟨-, hj⟩
    · exact ⟨x, hx⟩
    · exact hcalls j l' hj

/-! ## One inference -/

/-- Every hash has cost one inference at most, and every call with it was told the same. -/
structure OneInference (calls : ι → TriageCall) (P : Pool (quiet E deadline) ι TriageOutcome) : Prop where
  once : ∀ h, asks (CACHE_PREFIX ++ h) P.shared.log ≤ 1
  same : ∀ i j x y o o', P.threads i = some ⟨x, .ret o⟩ → P.threads j = some ⟨y, .ret o'⟩ →
    (calls x).hash = (calls y).hash → ∃ r, o.result = some r ∧ o'.result = some r
  no_raise : ∀ i x e, P.threads i ≠ some ⟨x, .raise e⟩

/-- In every run within the lifetime of the entries where no call looks up a hash between
    another's lookup and store of it. -/
theorem one_inference (hE : E.Healthy) (hkeep : Keeps E) (hgives : ∀ x, Gives E (calls x)) {w₀ : World} (h₀ : NoTriage w₀)
    (httl : ∀ x, deadline ≤ w₀.clock + (calls x).svc.ttl) {P : Pool (quiet E deadline) ι TriageOutcome}
    (hP : Pool.Steps (fun x => (calls x).code) (Pool.fresh w₀) P) : OneInference calls P := by
  obtain ⟨ls, hat⟩ := Outline.keeps (sound hE hkeep hgives httl) hP (Outline.fresh_holds (O := outline E deadline calls w₀.clock)
    ⟨⟨fun k hk => .unasked (h₀.cache k hk) (by rw [asks, h₀.log]; rfl) fun j s hj => (by obtain ⟨c, hc, -⟩ := hj; cases hc),
      fun j c s hj => (by cases hj), fun j _ k v ex s hmem => by rw [h₀.log] at hmem; cases hmem⟩, le_refl _, fun i l hl => by cases hl⟩)
  have hinv : Inv deadline P.shared ls := hat.inv.1
  have returned : ∀ {i : Nat} {x : ι} {o : TriageOutcome}, P.threads i = some ⟨x, .ret o⟩ →
      ∃ r, o.result = some r ∧ On (calls x).key ls i (.settled r) := by
    intro i x o ht
    obtain ⟨⟨c, s⟩, hl, hb, r, hr, hs⟩ := hat.busy i _ ht
    obtain rfl : c = calls x := hb
    obtain rfl : s = .settled r := hs
    exact ⟨r, hr, _, hl, rfl⟩
  refine ⟨fun h => ?_, fun i j x y o o' hi hj hxy => ?_, fun i x e ht => ?_⟩
  · rcases hinv.keyed _ ⟨h, rfl⟩ with ⟨-, hn, -⟩ | ⟨j, -, hn, -, -⟩ | ⟨j, r, -, hn, -, -⟩ | ⟨d, r, t, -, -, hn, -⟩ <;> omega
  · obtain ⟨r, hr, hon⟩ := returned hi
    obtain ⟨r', hr', hon'⟩ := returned hj
    have hkey : (calls y).key = (calls x).key := congrArg (CACHE_PREFIX ++ ·) hxy.symm
    rw [hkey] at hon'
    rcases keyed_settled hinv hon j _ hon' with e | e
    · cases e
    · cases e
      exact ⟨_, hr, hr'⟩
  · obtain ⟨l, -, -, hf⟩ := hat.busy i _ ht
    exact hf

/-! ## Neighbours -/

omit [Platform] in
section

def burstMain (p : Priority) : TriageResult where
  category := .water
  priority := p
  summary := "burst main".toList
  confidence := .fin ⟨9, 0⟩
  length_le := by decide
  stripped := by decide
  oneLine := by decide
  ne_nil := by decide
  ge := by decide
  le := by decide

/-- A provider that has second thoughts. -/
def wavering : Env :=
  { Env.calm fun _ _ _ => .error .triageTimeout with reply := fun n _ _ _ => .ok (some (burstMain (if n < 5 then .high else .low))) }

theorem wavering_gives : @Gives .ascii wavering burstPipe := by
  intro a ha
  obtain ⟨n, rfl⟩ := ha
  exact ⟨_, rfl⟩

/-- The second neighbour reports after the first has been answered. -/
def inTurn : Pool (@quiet .ascii wavering 86400) Unit TriageOutcome :=
  Pool.schedule (fun _ => @TriageCall.code .ascii burstPipe)
    (.start 0 () :: .start 1 () :: (List.replicate 12 (.exec 0) ++ List.replicate 12 (.exec 1))) (.fresh (.initial .empty))

theorem one_inference_inTurn : @OneInference .ascii wavering 86400 Unit (fun _ => burstPipe) inTurn ∧
    (inTurn.result 1).map (·.cached) = some true :=
  ⟨@one_inference .ascii _ _ _ _ (fun _ => rfl) (fun _ _ h => absurd h List.not_mem_nil) (fun _ => wavering_gives) _
      ⟨rfl, fun _ _ => rfl⟩ (fun _ => by norm_num [burstPipe, World.initial]) _ (Pool.schedule_steps _ _ _),
    by decide +kernel⟩

/-- The second neighbour reports before the answer to the first is stored. -/
def neighbours : Pool (@machine .ascii wavering) Unit TriageOutcome :=
  Pool.schedule (fun _ => @TriageCall.code .ascii burstPipe)
    (.start 0 () :: .start 1 () :: (List.replicate 4 (.exec 0) ++ List.replicate 12 (.exec 1) ++ List.replicate 12 (.exec 0)))
    (.fresh (.initial .empty))

/-- Two inferences for one hash, and two answers. -/
theorem two_inferences : @TriageRun .ascii wavering Unit (fun _ => burstPipe) (.initial .empty) neighbours ∧
    wavering.Healthy ∧ Keeps wavering ∧ @Gives .ascii wavering burstPipe ∧
    neighbours.shared.clock < burstPipe.svc.ttl ∧ @asks .ascii (@TriageCall.key .ascii burstPipe) neighbours.shared.log = 2 ∧
    [0, 1].map (fun i => (neighbours.result i).bind fun o => o.result.map (·.priority)) = [some .high, some .low] :=
  ⟨Pool.schedule_steps _ _ _, fun _ => rfl, fun _ _ h => absurd h List.not_mem_nil, wavering_gives, by decide +kernel,
    by decide +kernel, by decide +kernel⟩

end

end CivicPulse.Inference
