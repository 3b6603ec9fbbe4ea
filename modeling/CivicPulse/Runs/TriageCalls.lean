/-
  CivicPulse.Runs.TriageCalls — any number of triage calls, on any replicas, sharing one
  Redis, their Redis commands and provider calls interleaved in any order, with any
  faults, evictions and provider answers.

  The proof outline. A call's local state is what it has read from the cache, asked the
  providers and written, newest first. The invariant says that what is under a triage key
  was written for a provider's answer that is in the log (`Source`).
  - `triage_follows`: a call takes one of the four ways of `TriagePath`, each with its
    reads, provider calls and writes.
  - `triage_sound`: every operation of every call keeps the invariant.
-/

import CivicPulse.Services.Walk

namespace CivicPulse

open Text Lang

abbrev Done := Σ o : Op, o.Ans

/-- A call with a provider outside the program, and the rules behind it. -/
def burstPipe : TriageCall where
  svc := ⟨.external "gemini".toList, .rules, 86400⟩
  id := "00000000-0000-4000-8000-000000000000".toList
  text := "water pipe burst near school".toList
  location := "street 12".toList

/-! ## The ways through a call -/

def didGet (k : Str) (r : Except Exc (Option Raw)) : Done := ⟨.get k, r⟩
def didSet (k v : Str) (ex : Int) (r : Except Exc Unit) : Done := ⟨.set k v ex, r⟩
def didAsk (role : Role) (p : Provider) (text location : Str) (r : Except Exc (Option TriageResult)) : Done :=
  ⟨.triage role p text location, r⟩

/-- What a call reads, asks and writes (newest first), and what it ends with. -/
inductive TriagePath [Platform] (c : TriageCall) : List Done → Except Exc TriageOutcome → Prop
  | hit (d : TriageCall) (r : TriageResult) (ms : Int) :
      TriagePath c [didGet c.key (.ok (some (.text (d.cached r))))]
        (.ok ⟨some r, text d.svc.provider.name, ms, false, true, none⟩)
  | provider (g : Except Exc (Option Raw)) (r : TriageResult) (s : Except Exc Unit) (ms : Int) :
      (∀ raw, g ≠ .ok (some raw)) →
      TriagePath c
        [didSet c.key (c.cached r) c.svc.ttl s, didAsk .primary c.svc.provider c.text c.location (.ok (some r)),
          didGet c.key g]
        (.ok ⟨some r, text c.svc.provider.name, ms, false, false, none⟩)
  | fallback (g : Except Exc (Option Raw)) (a : Except Exc (Option TriageResult)) (e : Exc)
      (r : Option TriageResult) (ms : Int) : (∀ raw, g ≠ .ok (some raw)) → Failed a e →
      TriagePath c
        [didAsk .fallback c.svc.fallback c.text c.location (.ok r), didAsk .primary c.svc.provider c.text c.location a,
          didGet c.key g]
        (.ok ⟨r, text FALLBACK_NAME, ms, true, false, some e.className⟩)
  | failed (g : Except Exc (Option Raw)) (a : Except Exc (Option TriageResult)) (e e' : Exc) :
      (∀ raw, g ≠ .ok (some raw)) → Failed a e →
      TriagePath c
        [didAsk .fallback c.svc.fallback c.text c.location (.error e'),
          didAsk .primary c.svc.provider c.text c.location a, didGet c.key g]
        (.error e')

/-! ## The protocol -/

/-- The operations a call's local state records. -/
def recorded : Op → Bool
  | .get _ | .set _ _ _ | .triage _ _ _ _ => true
  | _ => false

def note (o : Op) (r : o.Ans) (l : List Done) : List Done := if recorded o then ⟨o, r⟩ :: l else l

variable [Platform] (E : Env) {ι : Type} (calls : ι → TriageCall)

/-- What a provider can answer. -/
def Replies (p : Provider) (text location : Str) (a : Except Exc (Option TriageResult)) : Prop :=
  match p with
  | .rules => a = (Rules.triage text location).map some
  | .external name => ∃ n, a = E.reply n name text location

/-- What an operation can be answered. -/
def Can : (o : Op) → o.Ans → Prop
  | .get k, r => Redis.Answers r ∧
      ∀ raw, r = .ok (some raw) → CACHE_PREFIX <+: k → ∃ (x : ι) (res : TriageResult), raw = .text ((calls x).cached res)
  | .set _ _ _, r => Redis.Answers r
  | .delete _, r => Redis.Answers r
  | .incr _, r => Redis.Answers r
  | .pushTrim _ _ _, r => Redis.Answers r
  | .triage _ p text location, r => Replies E p text location r
  | _, _ => True

/-- What a call may perform. -/
def May (l : List Done) : Op → Prop
  | .get _ | .delete _ | .perfCounter | .utcnow | .warn _ _ => True
  | .set k v _ => ∃ (x : ι) (r : TriageResult), k = (calls x).key ∧ v = (calls x).cached r ∧
      didAsk .primary (calls x).svc.provider (calls x).text (calls x).location (.ok (some r)) ∈ l
  | .incr k => k = HITS_KEY ∨ k = MISSES_KEY
  | .pushTrim k _ _ => k = RECENT_KEY
  | .triage _ _ _ _ => True
  | _ => False

def triageProtocol : Protocol sig (List Done) where
  can := May calls
  step l o r l' := l' = note o r l ∧ Can E calls o r

section Follows

variable {E calls}

theorem triage_fits : Fits (triageProtocol E calls) fun _ => True where
  warn _ _ _ := ⟨trivial, fun _ _ h => h.1⟩
  utcnow _ := ⟨trivial, fun _ _ h => h.1⟩
  clock _ := ⟨trivial, fun _ _ h => ⟨h.1, trivial⟩⟩
  get _ h := h.2.1
  set _ h := h.2
  delete _ h := h.2
  incr _ h := h.2
  push _ h := h.2

/-- A call takes one of the four ways. -/
theorem triage_follows (x : ι) : Follows (triageProtocol E calls) (TriagePath (calls x)) [] (calls x).code := by
  refine follows_triage triage_fits ⟨trivial, fun g l hs => ?_⟩
  obtain ⟨rfl, -, hread⟩ := hs
  -- the outcome is pushed, which is not recorded
  have hrecord : ∀ {o l}, TriagePath (calls x) l (.ok o) →
      Records (triageProtocol E calls) (calls x) (TriagePath (calls x)) o l := by
    intro o l h at_
    refine ⟨rfl, fun a l' hs => ?_⟩
    obtain ⟨rfl, -⟩ := hs
    exact h
  have hmiss : (∀ raw, g ≠ .ok (some raw)) →
      Misses (triageProtocol E calls) (fun _ => True) (calls x) (TriagePath (calls x)) [didGet (calls x).key g] := by
    intro hg
    refine ⟨.inr rfl, fun n l hs => ⟨trivial, fun a l' hs' => ?_⟩⟩
    obtain ⟨rfl, -⟩ := hs
    obtain ⟨rfl, -⟩ := hs'
    refine ⟨?_, ?_⟩
    · rintro r rfl
      refine ⟨⟨x, r, rfl, rfl, List.mem_cons_self⟩, fun s l hs n _ => hrecord ?_⟩
      obtain ⟨rfl, -⟩ := hs
      exact .provider g r s n hg
    · intro e he
      refine ⟨trivial, fun b l hs => ?_⟩
      obtain ⟨rfl, -⟩ := hs
      refine ⟨?_, ?_⟩
      · rintro e' rfl
        exact .failed g a e e' hg he
      · rintro r n rfl -
        exact hrecord (.fallback g a e r n hg he)
  by_cases hg : ∃ raw, g = .ok (some raw)
  · obtain ⟨raw, rfl⟩ := hg
    obtain ⟨y, r, rfl⟩ := hread raw rfl ⟨_, rfl⟩
    rw [judge_entry]
    refine ⟨fun _ h => (by cases h), fun r' t h => ?_, fun h => (by cases h)⟩
    cases h
    refine ⟨.inl rfl, fun n l hs m _ => hrecord ?_⟩
    obtain ⟨rfl, -⟩ := hs
    exact .hit (calls y) r m
  · have hg : ∀ raw, g ≠ .ok (some raw) := fun raw h => hg ⟨raw, h⟩
    rw [Lookup.judge_absent hg]
    exact ⟨fun _ h => (by cases h), fun _ _ h => (by cases h), fun _ => ⟨hmiss hg, fun raw h => absurd h (hg raw)⟩⟩

end Follows

/-! ## The cache's entries -/

omit [Platform] in
theorem text_inj [Platform] {s t : Str} (h : text s = text t) : s = t := by
  have hc : codes s = codes t := Json.str.inj h
  rw [← Platform.codes_ofNat s, ← Platform.codes_ofNat t, hc]

omit [Platform] in
/-- An entry determines the answer and the provider's name. -/
theorem cached_inj [Platform] {c d : TriageCall} {r s : TriageResult} (h : c.cached r = d.cached s) :
    r = s ∧ c.svc.provider.name = d.svc.provider.name := by
  have hjudge := judge_entry c r
  rw [h, judge_entry d s] at hjudge
  obtain ⟨rfl, hname⟩ := Prod.mk.inj (Option.some.inj (Except.ok.inj hjudge))
  exact ⟨rfl, (text_inj hname).symm⟩

/-! ## The invariant -/

/-- The text under `k` encodes what a call's provider was answered, by the log. -/
def Source (log : List Event) (k : Str) (raw : Raw) : Prop :=
  ∃ (x : ι) (r : TriageResult) (tid : Nat), k = (calls x).key ∧ raw = .text ((calls x).cached r) ∧
    (⟨tid, .triage .primary (calls x).svc.provider (calls x).text (calls x).location, .ok (some r)⟩ : Event) ∈ log

/-- What every triage entry in a Redis holds. -/
def CacheInv (w : World) : Prop :=
  ∀ k e, CACHE_PREFIX <+: k → w.redis k = some e → ∃ raw, e.val = .str raw ∧ Source calls w.log k raw

structure TriageInv (w : World) (ls : Nat → Option (List Done)) : Prop where
  cache : CacheInv calls w
  idle : ∀ i, ls i = none → w.trace i = []
  own : ∀ i l, ls i = some l → l = (w.trace i).filter fun d => recorded d.1
  read : ∀ i l k raw, ls i = some l → didGet k (.ok (some raw)) ∈ l → CACHE_PREFIX <+: k → Source calls w.log k raw
  answered : ∀ tid role p text location a, (⟨tid, .triage role p text location, a⟩ : Event) ∈ w.log → Replies E p text location a

variable {calls}

omit [Platform] in
theorem Source.mono [Platform] {log log' : List Event} {k : Str} {raw : Raw} (hlog : ∀ ev ∈ log, ev ∈ log')
    (h : Source calls log k raw) : Source calls log' k raw := by
  obtain ⟨x, r, tid, hk, hr, hev⟩ := h
  exact ⟨x, r, tid, hk, hr, hlog _ hev⟩

variable {E} {i : Nat} {w : World} {ls : Nat → Option (List Done)} {l : List Done}

/-- Whatever is read under a triage key has a source. -/
theorem read_source (hc : CacheInv calls w) {k : Str} {raw : Raw} (hk : CACHE_PREFIX <+: k)
    (h : (World.exec E i (.get k) w).1 = .ok (some raw)) : Source calls w.log k raw := by
  obtain ⟨e, he, hv⟩ := World.exec_get h
  obtain ⟨raw', hraw, hs⟩ := hc k e hk he
  rw [hraw] at hv
  rcases hv with hv | ⟨n, hv, -⟩
  · cases hv
    exact hs
  · cases hv

/-- A provider's answer is one it can give. -/
theorem exec_replies (role : Role) (p : Provider) (text location : Str) :
    Replies E p text location (World.exec E i (.triage role p text location) w).1 := by
  cases p with
  | rules => exact World.exec_rules role text location
  | external name => exact ⟨_, rfl⟩

theorem exec_can (hc : CacheInv calls w) (o : Op) : Can E calls o (World.exec E i o w).1 := by
  cases o with
  | get k =>
    refine ⟨Redis.answers_faulty (fun _ => Redis.answers_get) _ _, fun raw h hk => ?_⟩
    obtain ⟨x, r, tid, -, hr, -⟩ := read_source hc hk h
    exact ⟨x, r, hr⟩
  | set k v ex => exact Redis.answers_faulty (fun _ => Redis.answers_set) _ _
  | delete keys => exact Redis.answers_faulty (fun _ => Redis.answers_ok _) _ _
  | incr k => exact Redis.answers_faulty (fun _ => Redis.answers_incr) _ _
  | pushTrim k v n => exact Redis.answers_faulty (fun _ => Redis.answers_pushTrim) _ _
  | triage role p text location => exact exec_replies role p text location
  | _ => trivial

/-- What is under a triage key after an operation was there, or was written for the
    answer the thread got. -/
theorem exec_cache (hi : TriageInv E calls w ls) (hl : ls i = some l) {o : Op} (hm : May calls l o) :
    CacheInv calls (World.exec E i o w).2 := by
  intro k e hk he
  have hno : ¬ CACHE_PREFIX <+: HITS_KEY ∧ ¬ CACHE_PREFIX <+: MISSES_KEY ∧ ¬ CACHE_PREFIX <+: RECENT_KEY := by decide
  rcases World.exec_redis he with he | ⟨v, ex, rfl, hv⟩ | rfl | ⟨v, n, rfl⟩ | ⟨t, rfl⟩
  · obtain ⟨raw, hraw, hs⟩ := hi.cache k e hk he
    exact ⟨raw, hraw, hs.mono fun _ hev => World.mem_log_exec hev⟩
  · obtain ⟨x, r, rfl, rfl, hmem⟩ := hm
    rw [hi.own i l hl] at hmem
    exact ⟨_, hv, x, r, i, rfl, rfl, World.mem_log_exec (World.mem_trace.mp (List.mem_filter.mp hmem).1)⟩
  · rcases hm with rfl | rfl
    · exact absurd hk hno.1
    · exact absurd hk hno.2.1
  · exact absurd (show CACHE_PREFIX <+: RECENT_KEY from (show k = RECENT_KEY from hm) ▸ hk) hno.2.2
  · exact absurd hm id

theorem exec_triageInv (hi : TriageInv E calls w ls) (hl : ls i = some l) {o : Op} (hm : May calls l o) :
    TriageInv E calls (World.exec E i o w).2
      (Function.update ls i (some (note o (World.exec E i o w).1 l))) := by
  have hlog : ∀ ev ∈ w.log, ev ∈ (World.exec E i o w).2.log := fun _ hev => World.mem_log_exec hev
  refine ⟨exec_cache hi hl hm, ?_, ?_, ?_, ?_⟩
  · intro j hj
    obtain ⟨e, hj⟩ := update_none hj
    rw [World.trace_exec_ne e, hi.idle j hj]
  · intro j l' hj
    rcases update_some hj with ⟨rfl, rfl⟩ | ⟨e, hj⟩
    · rw [World.trace_exec, List.filter_cons, ← hi.own j l hl]
      rfl
    · rw [World.trace_exec_ne e, ← hi.own j l' hj]
  · intro j l' k raw hj hmem hk
    rcases update_some hj with ⟨rfl, rfl⟩ | ⟨-, hj⟩
    · rw [note] at hmem
      have hcases : didGet k (.ok (some raw)) = ⟨o, (World.exec E j o w).1⟩ ∨ didGet k (.ok (some raw)) ∈ l := by
        split at hmem
        · exact List.mem_cons.mp hmem
        · exact .inr hmem
      rcases hcases with hnew | hold
      · obtain rfl : o = .get k := (congrArg Sigma.fst hnew).symm
        have hr : (World.exec E j (.get k) w).1 = .ok (some raw) := (eq_of_heq (Sigma.mk.inj hnew).2).symm
        exact (read_source hi.cache hk hr).mono hlog
      · exact (hi.read j l k raw hl hold hk).mono hlog
    · exact (hi.read j l' k raw hj hmem hk).mono hlog
  · intro tid role p text location a hev
    rcases List.mem_cons.mp hev with hnew | hold
    · obtain ⟨rfl, rfl, hr⟩ := Event.mk.inj hnew
      rw [eq_of_heq hr]
      exact exec_can hi.cache (.triage role p text location)
    · exact hi.answered tid role p text location a hold

/-! ## The outline -/

variable (E calls)

def triageOutline : Outline (machine E) ι TriageOutcome (List Done) where
  toProtocol := triageProtocol E calls
  post x := TriagePath (calls x)
  inv := TriageInv E calls

theorem triage_sound : (triageOutline E calls).Sound fun x => (calls x).code where
  start := by
    intro w ls i x hi hn
    refine ⟨[], ⟨hi.cache, ?_, ?_, ?_, hi.answered⟩, trivial, triage_follows x⟩
    · intro j hj
      exact hi.idle j (update_none hj).2
    · intro j l hj
      rcases update_some hj with ⟨rfl, rfl⟩ | ⟨-, hj⟩
      · rw [hi.idle j hn]
        rfl
      · exact hi.own j l hj
    · intro j l k raw hj hmem
      rcases update_some hj with ⟨rfl, rfl⟩ | ⟨-, hj⟩
      · cases hmem
      · exact hi.read j l k raw hj hmem
  exec := by
    intro w ls i l o hi hl hm _
    exact ⟨_, ⟨rfl, exec_can hi.cache o⟩, exec_triageInv hi hl hm, fun _ _ => trivial⟩

/-! ## Runs -/

/-- Where a run starts: nothing logged and no triage entry. -/
structure NoTriage (w : World) : Prop where
  log : w.log = []
  cache : ∀ k, CACHE_PREFIX <+: k → w.redis k = none

abbrev TriageRun (w : World) (P : Pool (machine E) ι TriageOutcome) : Prop :=
  Pool.Steps (fun x => (calls x).code) (Pool.fresh w) P

variable {E calls}

/-- After any run, the invariant holds and every call is on its way. -/
theorem triage_run {w₀ : World} (h₀ : NoTriage w₀) {P : Pool (machine E) ι TriageOutcome} (hP : TriageRun E calls w₀ P) :
    (triageOutline E calls).Holds P := by
  refine Outline.keeps (triage_sound E calls) hP (Outline.fresh_holds ⟨?_, ?_, ?_, ?_, ?_⟩)
  · intro k e hk he
    rw [h₀.cache k hk] at he
    cases he
  · intro i _
    simp [World.trace, h₀.log]
  · intro i l hl
    cases hl
  · intro i l k raw hl
    cases hl
  · intro tid role p text location a hev
    rw [h₀.log] at hev
    cases hev

/-- A call that ended took one of the four ways, and its trace is what it took. -/
theorem triage_ended {w₀ : World} (h₀ : NoTriage w₀) {P : Pool (machine E) ι TriageOutcome} (hP : TriageRun E calls w₀ P)
    {i : Nat} {x : ι} {p : Code TriageOutcome} (ht : P.threads i = some ⟨x, p⟩) :
    (∀ o, p = .ret o → TriagePath (calls x) ((P.shared.trace i).filter fun d => recorded d.1) (.ok o)) ∧
      ∀ e, p = .raise e → TriagePath (calls x) ((P.shared.trace i).filter fun d => recorded d.1) (.error e) := by
  obtain ⟨ls, hls⟩ := triage_run h₀ hP
  obtain ⟨l, hl, -, hf⟩ := hls.busy i _ ht
  rw [hls.inv.own i l hl] at hf
  refine ⟨?_, ?_⟩
  · intro o hp
    subst hp
    exact hf
  · intro e hp
    subst hp
    exact hf

end CivicPulse
