/-
  CivicPulse.Services.Footprint — which operations the services' code can perform.

  `OfTriage` are the operations of one triage call, `Aside` those away from the session
  and from the statistics' cache entry.
  - `aside_enabled`: the latter never have to wait.
  - `triage_ofTriage`: triage performs its own operations and no other, so it keeps aside
    (`triage_uses`).
  - `serve_uses`: a request performs triage's operations, its session's and the statistics'.
-/

import CivicPulse.Services.Complaints

namespace CivicPulse

open Text Lang

/-- Operations on other keys than the statistics', of the providers and of the process. -/
def Aside : Op → Prop
  | .get k | .set k _ _ | .incr k | .pushTrim k _ _ => k ≠ STATS_KEY
  | .delete ks => STATS_KEY ∉ ks
  | .triage _ _ _ _ | .perfCounter | .time | .utcnow | .uuid4 | .warn _ _ => True
  | _ => False

theorem aside_enabled {o : Op} (h : Aside o) (i : Nat) (w : World) : World.enabled i o w = true := by
  cases o with
  | selectForUpdate id => cases h
  | insert d => cases h
  | updateStatus id s => cases h
  | insertRow c => cases h
  | advisoryLock key => cases h
  | _ => rfl

theorem cacheKey_ne [Platform] (t l : Str) : cacheKey t l ≠ STATS_KEY := by
  intro h
  have hpre : CACHE_PREFIX <+: STATS_KEY := h ▸ List.prefix_append _ _
  exact absurd hpre (by decide)

/-- What a triage call with this cache key performs. -/
def OfTriage (key : Str) : Op → Prop
  | .get k | .set k _ _ => k = key
  | .delete ks => ks = [key]
  | .incr k => k = HITS_KEY ∨ k = MISSES_KEY
  | .pushTrim k _ _ => k = RECENT_KEY
  | .triage _ _ _ _ | .perfCounter | .utcnow | .warn _ _ => True
  | _ => False

theorem OfTriage.aside {key : Str} (hkey : key ≠ STATS_KEY) {o : Op} (h : OfTriage key o) : Aside o := by
  cases o with
  | get k => exact fun e => hkey ((show k = key from h) ▸ e)
  | set k v ex => exact fun e => hkey ((show k = key from h) ▸ e)
  | delete ks =>
    rw [show ks = [key] from h]
    exact fun e => hkey (List.mem_singleton.mp e).symm
  | incr k =>
    rcases h with rfl | rfl
    · exact (by decide : HITS_KEY ≠ STATS_KEY)
    · exact (by decide : MISSES_KEY ≠ STATS_KEY)
  | pushTrim k v n =>
    rw [show k = RECENT_KEY from h]
    exact (by decide : RECENT_KEY ≠ STATS_KEY)
  | triage role p text location => trivial
  | perfCounter => trivial
  | utcnow => trivial
  | warn msg extra => trivial
  | _ => cases h

/-! ## Parts -/

section

variable {α : Type} {A : Op → Prop}

theorem uses_ofExcept (r : Except Exc α) : (ofExcept r).Uses A := by
  cases r <;> trivial

theorem uses_exceptRedis {p : Code α} {h : Exc → Code α} (hp : p.Uses A) (hh : ∀ e, (h e).Uses A) :
    (exceptRedis p h).Uses A := by
  refine Prog.uses_tryCatch hp fun e => ?_
  split
  · exact hh e
  · trivial

theorem uses_warn (hw : ∀ msg extra, A (.warn msg extra)) (msg : Str) (extra : List (Str × Str)) :
    (warn msg extra).Uses A := ⟨hw msg extra, fun _ => trivial⟩

namespace JsonCache

theorem uses_incr {k : Str} (h : A (.incr k)) : (incr k).Uses A :=
  uses_exceptRedis ⟨h, fun r => by cases r <;> trivial⟩ fun _ => trivial

theorem uses_delete {ks : List Str} (h : A (.delete ks)) (hw : ∀ msg extra, A (.warn msg extra)) : (delete ks).Uses A :=
  uses_exceptRedis ⟨h, fun r => uses_ofExcept r⟩ fun _ => uses_warn hw _ _

theorem uses_set {k : Str} {v : Json} {ttl : Int} (h : A (.set k v.dumps ttl)) (hw : ∀ msg extra, A (.warn msg extra)) :
    (set k v ttl).Uses A :=
  uses_exceptRedis ⟨h, fun r => uses_ofExcept r⟩ fun _ => uses_warn hw _ _

theorem uses_push {k : Str} {v : Json} {cap : Int} (h : A (.pushTrim k v.dumps (cap - 1))) : (pushCapped k v cap).Uses A :=
  uses_exceptRedis ⟨h, fun r => uses_ofExcept r⟩ fun _ => trivial

theorem uses_get [Platform] {k : Str} (h : A (.get k)) (hw : ∀ msg extra, A (.warn msg extra)) : (get k).Uses A := by
  refine Prog.uses_bind (uses_exceptRedis ⟨h, fun r => uses_ofExcept r⟩ fun e => ?_) fun raw => ?_
  · exact Prog.uses_bind (uses_warn hw _ _) fun _ => trivial
  · cases raw with
    | none => trivial
    | some raw => exact uses_ofExcept _

end JsonCache

theorem TriageService.uses_record [Platform] (hu : A .utcnow) (hp : ∀ v n, A (.pushTrim RECENT_KEY v n)) (id : Str)
    (o : TriageOutcome) : (TriageService.record id o).Uses A :=
  ⟨hu, fun _ => Prog.uses_bind (JsonCache.uses_push (hp _ _)) fun _ => trivial⟩

theorem Repository.uses_aggregates (hc : A (.select .countAvg)) (hg : ∀ col, A (.select (.groupBy col))) :
    Repository.aggregates.Uses A := by
  have grouped : ∀ col, (Repository.grouped col).Uses A := fun col =>
    ⟨hg col, fun a => Prog.uses_bind (uses_ofExcept a) fun _ => trivial⟩
  refine ⟨hc, fun a => Prog.uses_bind (uses_ofExcept a) fun _ => ?_⟩
  refine Prog.uses_bind (grouped _) fun _ => Prog.uses_bind (grouped _) fun _ => ?_
  exact Prog.uses_bind (grouped _) fun _ => Prog.uses_bind (grouped _) fun _ => trivial

/-- What statistics, a complaint and a list are read with. -/
theorem StatsService.uses_get [Platform] (hq : Repository.aggregates.Uses A) (hu : A .utcnow) (hg : A (.get STATS_KEY))
    (hs : ∀ v ex, A (.set STATS_KEY v ex)) (hw : ∀ msg extra, A (.warn msg extra)) (ttl : Int) :
    (StatsService.get ttl).Uses A := by
  have hcompute : (StatsService.compute ttl).Uses A := Prog.uses_bind hq fun _ =>
    ⟨hu, fun _ => Prog.uses_bind (JsonCache.uses_set (hs _ _) hw) fun _ => trivial⟩
  refine Prog.uses_bind (JsonCache.uses_get hg hw) fun cached => ?_
  split
  · exact hcompute
  · exact Prog.uses_bind (uses_ofExcept _) fun _ => trivial

theorem ComplaintService.uses_get (h : ∀ q, A (.select q)) (id : Uuid) : (ComplaintService.get id).Uses A := by
  refine Prog.uses_bind ⟨h _, fun r => uses_ofExcept r⟩ fun found => ?_
  cases found <;> trivial

theorem ComplaintService.uses_list (h : ∀ q, A (.select q)) (f : ComplaintFilters) (page pageSize : Int) :
    (ComplaintService.list f page pageSize).Uses A :=
  ⟨h _, fun _ => Prog.uses_bind (uses_ofExcept _) fun _ => ⟨h _, fun _ => Prog.uses_bind (uses_ofExcept _) fun _ => trivial⟩⟩

end

/-! ## Triage -/

namespace TriageService

variable {key : Str}

theorem uses_ms {A : Op → Prop} (h : A .perfCounter) (started : ℚ) : (ms started).Uses A := ⟨h, fun _ => trivial⟩

theorem uses_call (role : Role) (p : Provider) (text location : Str) : (call role p text location).Uses (OfTriage key) :=
  ⟨trivial, fun r => uses_ofExcept r⟩

theorem uses_ask (svc : TriageService) (id : Str) (started : ℚ) (text location : Str) :
    (svc.ask id key started text location).Uses (OfTriage key) := by
  refine Prog.uses_tryCatch ?_ fun e => ?_
  · exact Prog.uses_bind (uses_call _ _ _ _) fun _ => Prog.uses_bind (uses_ms trivial _) fun _ =>
      Prog.uses_bind (uses_ofExcept _) fun _ => Prog.uses_bind (JsonCache.uses_set rfl fun _ _ => trivial) fun _ => trivial
  · exact Prog.uses_bind (uses_warn (fun _ _ => trivial) _ _) fun _ => Prog.uses_bind (uses_call _ _ _ _) fun _ =>
      Prog.uses_bind (uses_ms trivial _) fun _ => trivial

variable [Platform]

/-- What an entry is read, counted and dropped with. -/
theorem uses_fromCache {A : Op → Prop} (hget : A (.get key)) (hdelete : A (.delete [key])) (hincr : A (.incr HITS_KEY))
    (hpush : ∀ v n, A (.pushTrim RECENT_KEY v n)) (hperf : A .perfCounter) (hu : A .utcnow)
    (hw : ∀ msg extra, A (.warn msg extra)) (id : Str) (started : ℚ) : (fromCache id key started).Uses A := by
  refine Prog.uses_bind (JsonCache.uses_get hget hw) fun cached => ?_
  split
  · trivial
  · refine Prog.uses_tryCatch (Prog.uses_bind (Prog.uses_bind (uses_ofExcept _) fun _ => Prog.uses_bind (uses_ofExcept _)
      fun _ => Prog.uses_bind (uses_ms hperf started) fun _ => trivial) fun _ => Prog.uses_bind (JsonCache.uses_incr hincr)
        fun _ => Prog.uses_bind (uses_record hu hpush id _) fun _ => trivial) fun e => ?_
    split
    · exact Prog.uses_bind (JsonCache.uses_delete hdelete hw) fun _ => trivial
    · trivial

end TriageService

variable [Platform] (svc : TriageService) (id text location : Str)

theorem triage_ofTriage : (svc.triage id text location).Uses (OfTriage (cacheKey text location)) := by
  have hlookup : ∀ started, (TriageService.fromCache id (cacheKey text location) started).Uses (OfTriage (cacheKey text location)) :=
    fun _ => TriageService.uses_fromCache (A := OfTriage _) rfl rfl (.inl rfl) (fun _ _ => rfl) trivial trivial
      (fun _ _ => trivial) _ _
  refine ⟨trivial, fun started => Prog.uses_bind (hlookup started) fun answered => ?_⟩
  cases answered with
  | some o => trivial
  | none =>
    exact Prog.uses_bind (JsonCache.uses_incr (.inr rfl)) fun _ =>
      Prog.uses_bind (TriageService.uses_ask _ _ _ _ _) fun o => TriageService.uses_record trivial (fun _ _ => rfl) _ o

theorem triage_uses : (svc.triage id text location).Uses Aside :=
  Prog.uses_mono (fun _ => OfTriage.aside (cacheKey_ne text location)) (triage_ofTriage svc id text location)

/-! ## Requests -/

/-- What is done with complaints in a session. -/
def OfSession : Op → Prop
  | .select q => match q with
    | .byId _ | .count _ | .page _ _ _ => True
    | _ => False
  | .selectForUpdate _ | .insert _ | .updateStatus _ _ | .commit | .rollback | .close => True
  | _ => False

section

variable {α : Type} {A : Op → Prop}

omit [Platform] in
theorem uses_repository {body : Code α} (hrollback : A .rollback) (hclose : A .close) (h : body.Uses A) : (repository body).Uses A := by
  refine Prog.uses_bind (Prog.uses_tryCatch (Prog.uses_tryCatch h fun e => ⟨hrollback, fun _ => trivial⟩) fun e => ?_) fun a => ?_
  · exact ⟨hclose, fun _ => trivial⟩
  · exact ⟨hclose, fun _ => trivial⟩

omit [Platform] in
theorem committed_uses (hcommit : A .commit) (hdelete : A (.delete [STATS_KEY])) (hwarn : ∀ msg extra, A (.warn msg extra)) (row : Complaint) :
    (do Repository.commit; StatsService.invalidate; return row : Code Complaint).Uses A :=
  ⟨hcommit, fun r => Prog.uses_bind (uses_ofExcept r) fun _ => Prog.uses_bind (JsonCache.uses_delete hdelete hwarn) fun _ => trivial⟩

/-- A request that submits nothing. -/
theorem service_uses (app : App) (call : Call) (hcall : ∀ data, call ≠ .create data)
    (hsession : ∀ o, OfSession o → (∀ d, o ≠ .insert d) → A o) (hdelete : A (.delete [STATS_KEY])) (hwarn : ∀ msg extra, A (.warn msg extra))
    (hstats : call = .stats → (StatsService.get app.statsTtl).Uses A) : (service app call).Uses A := by
  cases call with
  | create data => exact absurd rfl (hcall data)
  | changeStatus id target =>
    refine Prog.uses_bind ⟨hsession _ trivial (fun _ e => by cases e), fun r => Prog.uses_bind (uses_ofExcept r) fun found => ?_⟩
      fun _ => trivial
    cases found with
    | none => trivial
    | some row =>
      show Prog.Uses (S := sig) A (if _ then _ else _)
      split
      · refine ⟨hsession _ trivial (fun _ e => by cases e), fun r => Prog.uses_bind (Prog.uses_bind (uses_ofExcept r) fun _ => trivial) fun row => ?_⟩
        exact committed_uses (hsession _ trivial fun _ e => by cases e) hdelete hwarn row
      · exact ⟨hsession _ trivial (fun _ e => by cases e), fun _ => trivial⟩
  | stats => exact Prog.uses_bind (hstats rfl) fun _ => trivial
  | get id =>
    refine Prog.uses_bind (Prog.uses_bind ⟨hsession _ trivial (fun _ e => by cases e), fun r => uses_ofExcept r⟩ fun found => ?_)
      fun _ => trivial
    cases found <;> trivial
  | list f page pageSize =>
    refine Prog.uses_bind ⟨hsession _ trivial (fun _ e => by cases e), fun r => Prog.uses_bind (uses_ofExcept r) fun _ => ?_⟩
      fun _ => trivial
    exact ⟨hsession _ trivial (fun _ e => by cases e), fun r => Prog.uses_bind (uses_ofExcept r) fun _ => trivial⟩
  | invalid errors => trivial

theorem serve_uses (c : App × Call) (htriage : ∀ text location o, OfTriage (cacheKey text location) o → A o) (hsession : ∀ o, OfSession o → A o)
    (hdelete : A (.delete [STATS_KEY])) (hwarn : ∀ msg extra, A (.warn msg extra)) (hid : A .uuid4)
    (hstats : c.2 = .stats → (StatsService.get c.1.statsTtl).Uses A) : (serve c).Uses A := by
  refine uses_repository (hsession _ trivial) (hsession _ trivial) ?_
  obtain ⟨app, call⟩ := c
  by_cases hcreate : ∃ data, call = .create data
  · obtain ⟨data, rfl⟩ := hcreate
    refine Prog.uses_bind ⟨hid, fun id => ?_⟩ fun _ => trivial
    refine Prog.uses_bind (Prog.uses_mono (htriage _ _) (triage_ofTriage _ _ _ _)) fun outcome => ?_
    split
    · trivial
    · exact ⟨hsession _ trivial, fun r => Prog.uses_bind (uses_ofExcept r) fun row =>
        committed_uses (hsession _ trivial) hdelete hwarn row⟩
  · exact service_uses app call (fun data e => hcreate ⟨data, e⟩) (fun o ho _ => hsession o ho) hdelete hwarn hstats

end

end CivicPulse
