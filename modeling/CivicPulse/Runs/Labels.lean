/-
  CivicPulse.Runs.Labels — what submissions store as `triaged_by`.

  The column holds a text; an outcome holds whatever the cached entry names its provider
  by. The service's own entries name it by a text. So where every triage entry does to begin
  with, every row that a run inserts has a text there: the database has nothing to cast, and
  what it stores is what the object holds.
  - `triage_follows`: a call's outcome names its provider by a text.
  - `labelled_sound`: so every operation keeps `Labelled`.
-/

import CivicPulse.Runs.Counters
import CivicPulse.Services.Footprint

namespace CivicPulse.Labels

open Text Lang

/-! ## The protocol -/

/-- An `INSERT` whose `triaged_by` is a text, if it is one. -/
def Named (o : Op) : Prop := ∀ d, o = .insert d → ∃ s, d.triagedBy = text s

variable [Platform]

def Performs (_ : Unit) (o : Op) : Prop := Counters.Stores o ∧ Named o

/-- A Redis command answers or raises a `RedisError`, and a triage key's string names its
    provider by a text. -/
def Moves (_ : Unit) : (o : Op) → o.Ans → Unit → Prop
  | .get k, a, _ => Redis.Answers a ∧ (CACHE_PREFIX <+: k → ∀ raw, a = .ok (some raw) → Counters.Named raw)
  | .set _ _ _, a, _ => Redis.Answers a
  | .delete _, a, _ => Redis.Answers a
  | .incr _, a, _ => Redis.Answers a
  | .pushTrim _ _ _, a, _ => Redis.Answers a
  | _, _, _ => True

def protocol : Protocol sig Unit := ⟨Performs, Moves⟩

theorem fits : Fits protocol fun _ => True where
  warn _ _ _ := ⟨⟨trivial, fun _ e => by cases e⟩, fun _ _ _ => rfl⟩
  utcnow _ := ⟨⟨trivial, fun _ e => by cases e⟩, fun _ _ _ => rfl⟩
  clock _ := ⟨⟨trivial, fun _ e => by cases e⟩, fun _ _ _ => ⟨rfl, trivial⟩⟩
  get _ h := h.1
  set _ h := h
  delete _ h := h
  incr _ h := h
  push _ h := h

/-! ## Triage calls -/

/-- A call that returns names its provider by a text. -/
def Texts (_ : Unit) : Except Exc TriageOutcome → Prop
  | .ok o => ∃ s, o.triagedBy = text s
  | .error _ => True

variable {c : TriageCall}

theorem records {o : TriageOutcome} (ht : ∃ s, o.triagedBy = text s) : Records protocol c Texts o () :=
  fun _ => ⟨⟨Counters.no_prefix.2.2, fun _ e => by cases e⟩, fun _ _ _ => ht⟩

theorem misses : Misses protocol (fun _ => True) c Texts () := by
  have hask : ∀ role p, protocol.can () (.triage role p c.text c.location) := fun _ _ => ⟨trivial, fun _ e => by cases e⟩
  refine ⟨⟨Counters.no_prefix.2.1, fun _ e => by cases e⟩, fun _ _ _ => ⟨hask _ _, fun a _ _ => ⟨fun r _ => ?_, fun e _ => ⟨hask _ _, fun b _ _ => ?_⟩⟩⟩⟩
  · exact ⟨⟨fun _ => ⟨c, r, rfl⟩, fun _ e => by cases e⟩, fun _ _ _ n _ => records ⟨_, rfl⟩⟩
  · exact ⟨fun _ _ => trivial, fun r n _ _ => records ⟨_, rfl⟩⟩

theorem triage_follows : Follows protocol Texts () c.code := by
  refine follows_triage fits ⟨⟨trivial, fun _ e => by cases e⟩, fun g _ hm => ?_⟩
  refine ⟨fun _ _ => trivial, fun r t h => ?_, fun _ => ⟨misses, fun _ _ => ⟨⟨trivial, fun _ e => by cases e⟩, fun _ _ _ => misses⟩⟩⟩
  obtain ⟨raw, j, rfl, hload, ht⟩ := Lookup.judge_hit h
  exact ⟨⟨Counters.no_prefix.1, fun _ e => by cases e⟩, fun _ _ _ n _ => records (hm.2 ⟨_, rfl⟩ raw rfl j t hload ht)⟩

/-! ## Requests -/

/-- An operation that inserts nothing and writes under no triage key. -/
def Plain : Op → Prop
  | .insert _ => False
  | .set k _ _ | .incr k | .pushTrim k _ _ | .incrExpire k _ => ¬ CACHE_PREFIX <+: k
  | _ => True

omit [Platform] in
theorem plain_performs {o : Op} (h : Plain o) : Performs () o := by
  cases o with
  | insert d => exact h.elim
  | set k v ex => exact ⟨fun hk => absurd hk h, fun _ e => by cases e⟩
  | incr k => exact ⟨h, fun _ e => by cases e⟩
  | pushTrim k v n => exact ⟨h, fun _ e => by cases e⟩
  | incrExpire k ttl => exact ⟨h, fun _ e => by cases e⟩
  | _ => exact ⟨trivial, fun _ e => by cases e⟩

theorem follows_plain {α : Type} {p : Code α} (h : p.Uses Plain) : Follows protocol (fun _ _ => True) () p :=
  Follows.of_uses (fun _ ho => plain_performs ho) (fun _ _ _ _ _ => rfl) (fun _ => trivial) h

theorem follows_create (svc : TriageService) (data : ComplaintCreate) :
    Follows protocol (fun _ _ => True) () (ComplaintService.create svc data) := by
  refine ⟨⟨trivial, fun _ e => by cases e⟩, fun id _ _ => ?_⟩
  refine Follows.bind (Follows.mono (fun _ r h => ?_) (triage_follows (c := ⟨svc, uuidText id, data.text.str, data.location.str⟩)))
  cases r with
  | error e => trivial
  | ok outcome =>
    obtain ⟨_ | result, by_, latency, rest⟩ := outcome
    · trivial
    · refine ⟨⟨trivial, fun d e => ?_⟩, fun r _ _ => follows_plain (Prog.uses_bind (uses_ofExcept r) fun row =>
        committed_uses trivial trivial (fun _ _ => trivial) row)⟩
      cases e
      exact h

theorem follows_serve (c : App × Call) : Follows protocol (fun _ _ => True) () (serve c) := by
  have hservice : Follows protocol (fun _ _ => True) () (service c.1 c.2) := by
    obtain ⟨app, call⟩ := c
    by_cases hcreate : ∃ data, call = .create data
    · obtain ⟨data, rfl⟩ := hcreate
      refine Follows.bind (Follows.mono (fun _ r _ => ?_) (follows_create app.triage data))
      cases r <;> trivial
    · refine follows_plain (service_uses app call (fun data e => hcreate ⟨data, e⟩) (fun o ho hne => ?_) trivial (fun _ _ => trivial) fun _ => ?_)
      · cases o with
        | insert d => exact absurd rfl (hne d)
        | set k v ex => exact ho.elim
        | incr k => exact ho.elim
        | pushTrim k v n => exact ho.elim
        | incrExpire k ttl => exact ho.elim
        | _ => trivial
      · have hstats : ¬ CACHE_PREFIX <+: STATS_KEY := by decide
        exact StatsService.uses_get (Repository.uses_aggregates trivial fun _ => trivial) trivial trivial (fun _ _ => hstats)
          (fun _ _ => trivial) _
  have hend : ∀ o, Plain o → protocol.can () o := fun _ => plain_performs
  refine Follows.bind (Follows.tryCatch (Follows.tryCatch (Follows.mono (fun _ r _ => ?_) hservice)))
  cases r with
  | ok a => exact ⟨hend _ trivial, fun _ _ _ => trivial⟩
  | error e => exact ⟨hend _ trivial, fun _ _ _ => ⟨hend _ trivial, fun _ _ _ => trivial⟩⟩

/-! ## Runs -/

/-- The cache names providers by texts, and so does every row that was to be inserted. -/
structure Labelled (w : World) : Prop where
  cache : Counters.Cached w.redis
  inserts : ∀ ev ∈ w.log, Named ev.op

variable {E : Env} {w : World} {i : Nat}

theorem labelled_exec (h : Labelled w) {o : Op} (hp : Performs () o) : Labelled (World.exec E i o w).2 where
  cache := Counters.exec_cached h.cache hp.1
  inserts ev hev := by
    rcases List.mem_cons.mp hev with rfl | hev
    · exact hp.2
    · exact h.inserts ev hev

theorem moves_exec (h : Labelled w) (o : Op) : Moves () o (World.exec E i o w).1 () := by
  cases o with
  | get k =>
    refine ⟨Redis.answers_faulty (fun _ => Redis.answers_get) _ _, fun hk raw hraw => ?_⟩
    obtain ⟨e, he, hv⟩ := World.exec_get hraw
    exact h.cache k e raw hk he hv
  | set k v ex => exact Redis.answers_faulty (fun _ => Redis.answers_set) _ _
  | delete ks => exact Redis.answers_faulty (fun _ => Redis.answers_ok _) _ _
  | incr k => exact Redis.answers_faulty (fun _ => Redis.answers_incr) _ _
  | pushTrim k v n => exact Redis.answers_faulty (fun _ => Redis.answers_pushTrim) _ _
  | _ => trivial

def labelled (E : Env) : Outline (machine E) (App × Call) Reply Unit where
  toProtocol := protocol
  post _ _ _ := True
  inv w _ := Labelled w

theorem labelled_sound (E : Env) : (labelled E).Sound serve where
  start c h _ := ⟨(), h, trivial, follows_serve c⟩
  exec o h _ hcan _ := ⟨(), moves_exec h o, labelled_exec h hcan, fun _ _ => trivial⟩

end CivicPulse.Labels
