/-
  CivicPulse.Http.Providers — the page about the triage's providers (`app/routes/meta.py`)
  and what it shows while submissions come in.

  The page reads two counters and the list of recent outcomes, and validates every line of
  the list. It has no handler for what it reads: a line that does not validate would fail it.
  - `Shown`: what the list holds, what the counters are, and what is cached, in any state.
  - `providers_answers`: the page never fails, and what it shows was recorded by submissions.
-/

import CivicPulse.Http.Responses
import CivicPulse.Runs.Counters

namespace CivicPulse

open Text Lang

open Function (update)

open Request (Passes front_passes front_uses replica leak potholes someone)

/-! ## The page -/

/-- What Pydantic reads as a `bool`, and that it reads Python's text form of a time. -/
class Reading [Platform] where
  boolOf : Json → Option Bool
  boolOf_bool : ∀ b, boolOf (.bool b) = some b
  datetimeOf_isoformat : ∀ t, Platform.datetimeOf (text (isoformat t)) = some t

/-- Only JSON's own booleans. -/
def ownBool : Json → Option Bool
  | .bool b => some b
  | _ => none

theorem ascii_isoformat (t : Int) : Platform.ascii.datetimeOf (text (Platform.ascii.isoformat t)) = some t := by
  show some (Platform.readZulu ((codes (if t = 0 then Platform.epoch ++ "+00:00".toList else '@' :: intText t)).map Char.ofNat)) = some t
  rw [Platform.codes_ofNat]
  split
  · subst t
    decide
  · exact congrArg some (Platform.readInt_intText t)

@[reducible] def Reading.ascii : @Reading .ascii := @Reading.mk .ascii ownBool (fun _ => rfl) ascii_isoformat

/-- `schemas.TriageOutcome`, a line of the page. -/
structure RecentOutcome where
  complaintId : Str
  provider : Str
  latencyMs : Int
  fallback : Bool
  cached : Bool
  error : Option Str
  at_ : Int
  deriving DecidableEq

/-- A field of type `str | None` that may be missing. -/
def optStrOf : Option Json → Option (Option Str)
  | none | some .null => some none
  | some j => (strOf j).map some

/-- `round(x, 3)`. -/
def round3 (x : ℚ) : ℚ :=
  let f := ⌊x * 1000⌋
  let d := x * 1000 - f
  (if d < 1 / 2 then f else if 1 / 2 < d then f + 1 else if f % 2 = 0 then f else f + 1 : Int) / 1000

structure ProvidersOut where
  active : Str
  fallback : Str
  available : List Str
  cacheHits : Int
  cacheMisses : Int
  cacheHitRate : Option ℚ
  recent : List RecentOutcome
  deriving DecidableEq

/-- `AVAILABLE` of the factory. -/
def AVAILABLE : List Str := ["llm".toList, "ollama".toList, "rules".toList, "simulated".toList]

section

variable [Platform] [Reading]

/-- `TriageOutcome.model_validate`; other keys are ignored. -/
def RecentOutcome.modelValidate (j : Json) : Except Exc RecentOutcome :=
  match j with
  | .obj l =>
    match (Json.lookup "complaint_id".toList l).bind strOf, (Json.lookup "provider".toList l).bind strOf,
      (Json.lookup "latency_ms".toList l).bind Platform.intOf, (Json.lookup "fallback".toList l).bind Reading.boolOf,
      (Json.lookup "cached".toList l).bind Reading.boolOf, optStrOf (Json.lookup "error".toList l),
      (Json.lookup "at".toList l).bind Platform.datetimeOf with
    | some complaintId, some provider, some latencyMs, some fallback, some cached, some error, some at_ =>
      .ok ⟨complaintId, provider, latencyMs, fallback, cached, error, at_⟩
    | _, _, _, _, _, _, _ => .error .validationError
  | _ => .error .validationError

/-- `[TriageOutcome.model_validate(r) for r in …]`. -/
def validateAll : List Json → Except Exc (List RecentOutcome)
  | [] => .ok []
  | j :: l => do return (← RecentOutcome.modelValidate j) :: (← validateAll l)

/-- `GET /api/meta/providers`. -/
def providers (svc : TriageService) : Code ProvidersOut := do
  let (hits, misses) ← TriageService.cacheCounts
  let lookups := hits + misses
  let rate := if lookups = 0 then none else some (round3 ((hits : ℚ) / lookups))
  let recent ← ofExcept (validateAll (← TriageService.recent))
  return ⟨svc.provider.name, FALLBACK_NAME, AVAILABLE, hits, misses, rate, recent⟩

end

/-! ## A line that is written can be read -/

namespace RecentOutcome

variable [Platform]

/-- The outcome that a line is about. -/
def outcome (r : RecentOutcome) : TriageOutcome := ⟨none, text r.provider, r.latencyMs, r.fallback, r.cached, r.error⟩

/-- How a triage call writes the line. -/
def json (r : RecentOutcome) : Json := TriageService.recordJson r.complaintId r.outcome r.at_

/-- A latency whose text can be read. -/
def Short (r : RecentOutcome) : Prop := (natText r.latencyMs.natAbs).length ≤ 4300

theorem recordJson_eq {id s : Str} {o : TriageOutcome} (h : o.triagedBy = text s) (at_ : Int) :
    TriageService.recordJson id o at_ = (⟨id, s, o.latencyMs, o.fallback, o.cached, o.error, at_⟩ : RecentOutcome).json := by
  simp only [TriageService.recordJson, json, outcome, h]

def errorJson : Option Str → Json
  | none => .null
  | some e => text e

def items (r : RecentOutcome) : List (List CodePoint × Json) :=
  [(codes "complaint_id".toList, text r.complaintId), (codes "provider".toList, text r.provider),
    (codes "latency_ms".toList, .int r.latencyMs), (codes "fallback".toList, .bool r.fallback), (codes "cached".toList, .bool r.cached),
    (codes "error".toList, errorJson r.error), (codes "at".toList, text (isoformat r.at_))]

theorem json_eq (r : RecentOutcome) : r.json = .obj r.items := by
  obtain ⟨id, provider, latency, fallback, cached, error, at_⟩ := r
  cases error <;> rfl

theorem modelValidate_json [Reading] (r : RecentOutcome) : modelValidate r.json = .ok r := by
  have hid : Json.lookup "complaint_id".toList r.items = some (text r.complaintId) := rfl
  have hprovider : Json.lookup "provider".toList r.items = some (text r.provider) := rfl
  have hlatency : Json.lookup "latency_ms".toList r.items = some (.int r.latencyMs) := rfl
  have hfallback : Json.lookup "fallback".toList r.items = some (.bool r.fallback) := rfl
  have hcached : Json.lookup "cached".toList r.items = some (.bool r.cached) := rfl
  have herror : Json.lookup "error".toList r.items = some (errorJson r.error) := rfl
  have hat : Json.lookup "at".toList r.items = some (text (isoformat r.at_)) := rfl
  have htext : ∀ s, strOf (text s) = some s := strOf_codes
  have hopt : optStrOf (some (errorJson r.error)) = some r.error := by
    cases r.error with
    | none => rfl
    | some e => exact congrArg (Option.map some) (htext e)
  rw [json_eq]
  simp only [modelValidate, hid, hprovider, hlatency, hfallback, hcached, herror, hat, Option.bind_some, htext, hopt,
    Platform.intOf_int, Reading.boolOf_bool, Reading.datetimeOf_isoformat]

theorem validateAll_json [Reading] (rs : List RecentOutcome) : validateAll (rs.map json) = .ok rs := by
  induction rs with
  | nil => rfl
  | cons r rs ih =>
    rw [List.map_cons, validateAll, modelValidate_json, ih]
    rfl

end RecentOutcome

namespace Providers

/-! ## The protocol -/

/-- Whether a thread is a submission, and the lines it has read. -/
structure Place where
  submits : Bool
  read : List RecentOutcome

/-- The keys of the counters and of the list. -/
def Shared (k : Str) : Prop := k = HITS_KEY ∨ k = MISSES_KEY ∨ k = RECENT_KEY

/-- An operation that leaves the counters, the list and what is cached for texts alone. -/
def Quiet : Op → Prop
  | .set k _ _ | .incrExpire k _ => ¬ Shared k ∧ ¬ CACHE_PREFIX <+: k
  | .incr _ | .pushTrim _ _ _ | .lrange _ _ => False
  | _ => True

section

variable [Platform]

def Performs (p : Place) : Op → Prop
  | .set k v _ => ¬ Shared k ∧ (CACHE_PREFIX <+: k → ∃ (c : TriageCall) (r : TriageResult), v = c.cached r)
  | .incr k => k = HITS_KEY ∨ k = MISSES_KEY
  | .pushTrim k v n => p.submits = true ∧ k = RECENT_KEY ∧ n = RECENT_CAP - 1 ∧ ∃ r : RecentOutcome, v = r.json.dumps ∧ r.Short
  | .incrExpire k _ => ¬ Shared k ∧ ¬ CACHE_PREFIX <+: k
  | .lrange k n => k = RECENT_KEY ∧ n = RECENT_CAP - 1
  | _ => True

/-- The lines, as they are stored. -/
def stored (rs : List RecentOutcome) : List Str := rs.map fun r => r.json.dumps

/-- What is answered when the process's clock stays between 0 and `B`. -/
def Moves (B : ℚ) (p : Place) : (o : Op) → o.Ans → Place → Prop
  | .get k, a, p' => p' = p ∧ Redis.Answers a ∧ (CACHE_PREFIX <+: k → ∀ raw, a = .ok (some raw) → Counters.Named raw) ∧
      (k = HITS_KEY ∨ k = MISSES_KEY → ∀ raw, a = .ok (some raw) → ∃ n : Nat, raw = .text (natText n))
  | .lrange _ _, a, p' => (∃ cls, a = .error (.redisError cls)) ∧ p' = p ∨
      ∃ rs, a = .ok (stored rs) ∧ rs.length ≤ 20 ∧ (∀ r ∈ rs, r.Short) ∧ p' = { p with read := rs }
  | .set _ _ _, a, p' => p' = p ∧ Redis.Answers a
  | .delete _, a, p' => p' = p ∧ Redis.Answers a
  | .incr _, a, p' => p' = p ∧ Redis.Answers a
  | .pushTrim _ _ _, a, p' => p' = p ∧ Redis.Answers a
  | .incrExpire _ _, a, p' => p' = p ∧ Redis.Answers a
  | .perfCounter, t, p' => p' = p ∧ 0 ≤ t ∧ t ≤ B
  | _, _, p' => p' = p

def protocol (B : ℚ) : Protocol sig Place := ⟨Performs, Moves B⟩

theorem quiet_performs {o : Op} (h : Quiet o) (p : Place) : Performs p o := by
  cases o with
  | set k v ex => exact ⟨h.1, fun hk => absurd hk h.2⟩
  | incrExpire k ttl => exact h
  | incr k => exact h.elim
  | pushTrim k v n => exact h.elim
  | lrange k n => exact h.elim
  | _ => trivial

variable {B : ℚ}

theorem quiet_moves {o : Op} (h : Quiet o) {p p' : Place} {a : o.Ans} (hm : Moves B p o a p') : p' = p := by
  cases o with
  | incr k => exact h.elim
  | pushTrim k v n => exact h.elim
  | lrange k n => exact h.elim
  | get k => exact hm.1
  | perfCounter => exact hm.1
  | set k v ex => exact hm.1
  | delete ks => exact hm.1
  | incrExpire k ttl => exact hm.1
  | _ => exact hm

/-! ## Submissions keep to it -/

section

variable {α : Type} {p : Place}

theorem follows_quiet {Q : Place → Except Exc α → Prop} (hQ : ∀ r, Q p r) {q : Code α} (h : q.Uses Quiet) : Follows (protocol B) Q p q :=
  Follows.of_uses (fun _ ho => quiet_performs ho p) (fun _ ho _ _ hs => quiet_moves ho hs) hQ h

/-- Latencies of which the text can be read. -/
def Brief (ms : Int) : Prop := (natText ms.natAbs).length ≤ 4300

omit [Platform] in
theorem brief_truncate {x : ℚ} {k : Nat} (hk : k < 4300) (h : |x| ≤ 10 ^ k) : Brief (truncate x) := by
  have habs : |(truncate x : ℚ)| ≤ |x| := by
    unfold truncate
    split
    · rename_i hx
      rw [abs_of_nonneg hx, abs_of_nonneg (by exact_mod_cast Int.floor_nonneg.mpr hx)]
      exact Int.floor_le x
    · rename_i hx
      have hneg : x ≤ 0 := by linarith
      rw [abs_of_nonpos hneg, abs_of_nonpos (by exact_mod_cast Int.ceil_le.mpr (by simpa using hneg))]
      linarith [Int.le_ceil x]
  have hle : (truncate x).natAbs ≤ 10 ^ k := by
    have hcast : (((truncate x).natAbs : ℕ) : ℚ) ≤ ((10 ^ k : ℕ) : ℚ) := by
      rw [Nat.cast_natAbs, Int.cast_abs, Nat.cast_pow]
      exact habs.trans h
    exact_mod_cast hcast
  have hdigits : ∀ n, 0 < n → k < n → (natText (truncate x).natAbs).length ≤ n := fun n hn hkn =>
    (Nat.length_toDigits_le_iff (by decide) hn).mpr (lt_of_le_of_lt hle (Nat.pow_lt_pow_right (by decide) hkn))
  exact hdigits _ (by decide) hk

omit [Platform] in
theorem brief_ms (hB : B * 1000 ≤ 10 ^ 4000) {s t : ℚ} (hs : 0 ≤ s ∧ s ≤ B) (ht : 0 ≤ t ∧ t ≤ B) :
    Brief (truncate ((t - s) * 1000)) := by
  refine brief_truncate (k := 4000) (by decide) (le_trans (abs_le.mpr ⟨?_, ?_⟩) hB)
  · linarith [hs.2, ht.1]
  · linarith [hs.1, ht.2]

/-- What the process's clock shows. -/
def Shows (B t : ℚ) : Prop := 0 ≤ t ∧ t ≤ B

theorem fits : Fits (protocol B) (Shows B) where
  warn _ _ _ := ⟨trivial, fun _ _ h => h⟩
  utcnow _ := ⟨trivial, fun _ _ h => h⟩
  clock _ := ⟨trivial, fun _ _ h => h⟩
  get _ h := h.2.1
  set _ h := h.2
  delete _ h := h.2
  incr _ h := h.2
  push _ h := h.2

omit [Platform] in
theorem brief_took (hB : B * 1000 ≤ 10 ^ 4000) {n : Int} (h : Took (Shows B) n) : Brief n := by
  obtain ⟨s, t, hs, ht, rfl⟩ := h
  exact brief_ms hB hs ht

omit [Platform] in
theorem no_shared {k : Str} (h : CACHE_PREFIX <+: k) : ¬ Shared k := by
  rintro (rfl | rfl | rfl)
  · exact Counters.no_prefix.1 h
  · exact Counters.no_prefix.2.1 h
  · exact Counters.no_prefix.2.2 h

variable {Q : Place → Except Exc TriageOutcome → Prop} (hp : p.submits = true) (hQ : ∀ r, Q p r) {c : TriageCall}
include hp hQ

/-- Recording a brief outcome that names its provider by a text. -/
theorem records {o : TriageOutcome} (ht : ∃ s, o.triagedBy = text s) (hn : Brief o.latencyMs) :
    Records (protocol B) c Q o p := by
  intro at_
  obtain ⟨s, hs⟩ := ht
  refine ⟨⟨hp, rfl, rfl, _, congrArg Json.dumps (RecentOutcome.recordJson_eq hs at_), hn⟩, fun u p' hm => ?_⟩
  obtain ⟨rfl, -⟩ := hm
  exact hQ _

theorem misses (hB : B * 1000 ≤ 10 ^ 4000) : Misses (protocol B) (Shows B) c Q p := by
  refine ⟨.inr rfl, fun n p' hm => ⟨trivial, fun a p'' hm' => ?_⟩⟩
  obtain ⟨rfl, -⟩ := hm
  obtain rfl : p'' = p' := hm'
  refine ⟨fun r _ => ⟨⟨no_shared ⟨_, rfl⟩, fun _ => ⟨c, r, rfl⟩⟩, fun s p' hm n hn => ?_⟩,
    fun e _ => ⟨trivial, fun b p' hm => ⟨fun _ _ => ?_, fun r n _ hn => ?_⟩⟩⟩
  · obtain ⟨rfl, -⟩ := hm
    exact records hp hQ ⟨_, rfl⟩ (brief_took hB hn)
  · obtain rfl : p' = p'' := hm
    exact hQ _
  · obtain rfl : p' = p'' := hm
    exact records hp hQ ⟨_, rfl⟩ (brief_took hB hn)

theorem triage_follows (hB : B * 1000 ≤ 10 ^ 4000) : Follows (protocol B) Q p c.code := by
  refine follows_triage fits ⟨trivial, fun g p' hm => ?_⟩
  obtain ⟨rfl, -, hnamed, -⟩ := hm
  refine ⟨fun _ _ => hQ _, fun r t h => ⟨.inl rfl, fun n p'' hm m hms => ?_⟩, fun _ => ⟨misses hp hQ hB, fun _ _ => ⟨trivial, fun d p'' hm => ?_⟩⟩⟩
  · obtain ⟨raw, j, rfl, hload, ht⟩ := Lookup.judge_hit h
    obtain ⟨rfl, -⟩ := hm
    exact records hp hQ (hnamed ⟨_, rfl⟩ raw rfl j t hload ht) (brief_took hB hms)
  · obtain ⟨rfl, -⟩ := hm
    exact misses hp hQ hB

omit hp hQ

/-! ## The API keeps to it -/

omit [Platform] in
theorem front_quiet (g : Gate) (c : App × Route) : (front g c).Uses Quiet := by
  have hkey : ∀ identity start, ¬ Shared (RateLimiter.key identity start) ∧ ¬ CACHE_PREFIX <+: RateLimiter.key identity start := by
    intro identity start
    refine ⟨?_, fun hpre => ?_⟩
    · rintro (h | h | h)
      all_goals
        have hhead := congrArg List.head? h
        cases hhead
    · obtain ⟨rest, h⟩ := hpre
      have hhead := congrArg List.head? h
      cases hhead
  refine Prog.uses_mono (fun o ho => ?_) (front_uses g c)
  cases o with
  | time => trivial
  | warn msg extra => trivial
  | incrExpire k ttl =>
    obtain ⟨identity, start, rfl⟩ := ho
    exact hkey identity start
  | _ => exact ho.elim

theorem follows_create {Q : Place → Except Exc Complaint → Prop} (hB : B * 1000 ≤ 10 ^ 4000) {p : Place} (hp : p.submits = true)
    (svc : TriageService) (data : ComplaintCreate) (hQ : ∀ r, Q p r) : Follows (protocol B) Q p (ComplaintService.create svc data) := by
  refine ⟨trivial, fun id p' hm => ?_⟩
  obtain rfl : p' = p := hm
  refine Follows.bind (triage_follows (c := ⟨svc, uuidText id, data.text.str, data.location.str⟩) hp (fun r => ?_) hB)
  cases r with
  | error e => exact hQ _
  | ok outcome =>
    refine follows_quiet hQ ?_
    split
    · trivial
    · exact ⟨trivial, fun r => Prog.uses_bind (uses_ofExcept r) fun row => committed_uses trivial trivial (fun _ _ => trivial) row⟩

/-- A request that submits nothing. -/
theorem service_quiet (app : App) (call : Call) (hcall : ∀ data, call ≠ .create data) : (service app call).Uses Quiet := by
  have hstats : ¬ Shared STATS_KEY ∧ ¬ CACHE_PREFIX <+: STATS_KEY := by
    unfold Shared
    decide
  refine service_uses app call hcall (fun o ho _ => ?_) trivial (fun _ _ => trivial) fun _ => ?_
  · cases o with
    | set k v ex => exact ho.elim
    | incrExpire k ttl => exact ho.elim
    | incr k => exact ho.elim
    | pushTrim k v n => exact ho.elim
    | lrange k n => exact ho.elim
    | _ => trivial
  · exact StatsService.uses_get (Repository.uses_aggregates trivial fun _ => trivial) trivial trivial (fun _ _ => hstats) (fun _ _ => trivial) _

theorem follows_serve (hB : B * 1000 ≤ 10 ^ 4000) {p : Place} (c : App × Call) (hp : ∀ data, c.2 = .create data → p.submits = true) :
    Follows (protocol B) (fun p' _ => p' = p) p (serve c) := by
  have hservice : Follows (protocol B) (fun p' _ => p' = p) p (service c.1 c.2) := by
    obtain ⟨app, call⟩ := c
    by_cases hcreate : ∃ data, call = .create data
    · obtain ⟨data, rfl⟩ := hcreate
      refine Follows.bind (follows_create hB (hp data rfl) app.triage data fun r => ?_)
      cases r <;> rfl
    · exact follows_quiet (fun _ => rfl) (service_quiet app call fun data e => hcreate ⟨data, e⟩)
  refine Follows.bind (Follows.tryCatch (Follows.tryCatch (Follows.mono (fun p' r h => ?_) hservice)))
  cases r with
  | ok a => exact ⟨trivial, fun _ _ hm => Eq.trans hm h⟩
  | error e => exact ⟨trivial, fun _ _ hm => ⟨trivial, fun _ _ hm' => Eq.trans hm' (Eq.trans hm h)⟩⟩

theorem follows_api (g : Gate) (hB : B * 1000 ≤ 10 ^ 4000) (c : App × Route) {p : Place}
    (hp : ∀ data, c.2.call = .create data → p.submits = true) : Follows (protocol B) (fun p' _ => p' = p) p (api g c) := by
  rw [api_eq]
  have hfront : Follows (protocol B) (fun p' r => p' = p ∧ Passes c r) p (front g c) := by
    refine Lets.follows (fun _ ho => quiet_performs ho p) (fun o ho r p' hm => ⟨?_, quiet_moves ho hm⟩) (front_quiet g c) (front_passes g c)
    cases o with
    | incrExpire k ttl => exact hm.2
    | _ => trivial
  refine Follows.bind (Follows.mono (fun p' r h => ?_) hfront)
  obtain ⟨rfl, hpass⟩ := h
  cases r with
  | error e => exact rfl
  | ok x =>
    cases x with
    | inl a => exact rfl
    | inr d =>
      obtain rfl : d = (c.1, c.2.call) := hpass
      refine Follows.mono (fun p'' r h => ?_) (follows_exits (answer c) (follows_serve hB (c.1, c.2.call) hp))
      obtain ⟨x, hx, -⟩ := h
      exact hx

/-! ## The page keeps to it -/

omit [Platform] in
/-- A counter's text is no negative number, if it can be read at all. -/
theorem intOfText_nonneg {n : Nat} {m : Int} (h : intOfText (natText n) = some m) : 0 ≤ m := by
  unfold intOfText at h
  split at h
  · rename_i ds hs
    have hmem : '-' ∈ natText n := (stripBy_isInfix (natText n)).mem (hs ▸ List.mem_cons_self)
    exact absurd (digits_natText _ hmem) (by decide)
  · obtain ⟨k, -, rfl⟩ := Option.map_eq_some_iff.mp h
    exact Int.natCast_nonneg k
  · obtain ⟨k, -, rfl⟩ := Option.map_eq_some_iff.mp h
    exact Int.natCast_nonneg k

theorem follows_getInt {Q : Place → Except Exc Int → Prop} {p : Place} {k : Str} (hk : k = HITS_KEY ∨ k = MISSES_KEY)
    (hQ : ∀ n, 0 ≤ n → Q p (.ok n)) : Follows (protocol B) Q p (JsonCache.getInt k) := by
  unfold JsonCache.getInt
  rw [Prog.tryCatch_op]
  refine ⟨trivial, fun a p' hm => ?_⟩
  obtain ⟨rfl, hredis, -, hcounter⟩ := hm
  match a, hredis, hcounter with
  | .ok none, _, _ => exact hQ 0 (le_refl 0)
  | .error e, hredis, _ =>
    have he : e.isRedisError = true := hredis e rfl
    show Follows (protocol B) Q p' (if (e.isRedisError || e.isValueError) = true then pure 0 else throw e)
    rw [if_pos (by rw [he]; rfl)]
    exact hQ 0 (le_refl 0)
  | .ok (some raw), _, hcounter =>
    obtain ⟨n, rfl⟩ := hcounter hk raw rfl
    have hne : ¬ Raw.text (natText n) = .text [] := fun h => natText_ne_nil n (Raw.text.inj h)
    simp only [ofExcept_ok, Prog.ret_bind, if_neg hne, JsonCache.intOfRaw]
    cases hread : intOfText (natText n) with
    | some m => exact hQ m (intOfText_nonneg hread)
    | none => exact hQ 0 (le_refl 0)

/-- The list is read as the lines that are in it. -/
theorem follows_recent {Q : Place → Except Exc (List Json) → Prop} {p : Place} (hnone : Q p (.ok []))
    (hQ : ∀ rs : List RecentOutcome, rs.length ≤ 20 → Q { p with read := rs } (.ok (rs.map RecentOutcome.json))) :
    Follows (protocol B) Q p TriageService.recent := by
  unfold TriageService.recent JsonCache.listRecent
  rw [exceptRedis_op]
  refine ⟨⟨rfl, rfl⟩, fun a p' hm => ?_⟩
  rcases hm with ⟨⟨cls, rfl⟩, rfl⟩ | ⟨rs, rfl, hlen, hshort, rfl⟩
  · exact hnone
  · have hloads : JsonCache.loadsAll (stored rs) = .ok (rs.map RecentOutcome.json) := by
      have hplain : ∀ j ∈ rs.map RecentOutcome.json, j.plain = true ∧ j.depth ≤ recursionLimit := by
        intro j hj
        obtain ⟨r, hr, rfl⟩ := List.mem_map.mp hj
        exact Counters.plain_record ⟨_, rfl⟩ (hshort r hr)
      have := Counters.loadsAll_dumps hplain
      rwa [List.map_map] at this
    show Follows (protocol B) Q _ (exceptRedis (ofExcept (JsonCache.loadsAll (stored rs))) fun _ => return [])
    rw [hloads]
    exact hQ rs hlen

variable [Reading]

omit [Platform] [Reading] in
theorem round3_range {x : ℚ} (h0 : 0 ≤ x) (h1 : x ≤ 1) : 0 ≤ round3 x ∧ round3 x ≤ 1 := by
  have hfloor : 0 ≤ ⌊x * 1000⌋ := Int.floor_nonneg.mpr (by linarith)
  have hle : (⌊x * 1000⌋ : ℚ) ≤ x * 1000 := Int.floor_le _
  -- what is rounded up lies strictly between two thousandths, so below the last one
  have hup : 0 < x * 1000 - ⌊x * 1000⌋ → ⌊x * 1000⌋ + 1 ≤ 1000 := by
    intro hd
    have : (⌊x * 1000⌋ : ℚ) < 1000 := by linarith
    have : ⌊x * 1000⌋ < 1000 := by exact_mod_cast this
    omega
  have hdown : ⌊x * 1000⌋ ≤ 1000 := by
    have : (⌊x * 1000⌋ : ℚ) ≤ 1000 := by linarith
    exact_mod_cast this
  have hdiv : ∀ n : Int, 0 ≤ n → n ≤ 1000 → 0 ≤ (n : ℚ) / 1000 ∧ (n : ℚ) / 1000 ≤ 1 := by
    intro n hn hn'
    have hn : (0 : ℚ) ≤ n := by exact_mod_cast hn
    have hn' : (n : ℚ) ≤ 1000 := by exact_mod_cast hn'
    exact ⟨by positivity, by rw [div_le_one (by norm_num)]; exact hn'⟩
  unfold round3
  simp only
  split
  · exact hdiv _ hfloor hdown
  · rename_i hd
    have hd : 0 < x * 1000 - ⌊x * 1000⌋ := by linarith
    split
    · exact hdiv _ (by omega) (hup hd)
    · split
      · exact hdiv _ hfloor hdown
      · exact hdiv _ (by omega) (hup hd)

/-- What is shown about the past. -/
structure Sensible (page : ProvidersOut) : Prop where
  recent : page.recent.length ≤ 20
  hits : 0 ≤ page.cacheHits
  misses : 0 ≤ page.cacheMisses
  rate : ∀ rate, page.cacheHitRate = some rate → 0 ≤ rate ∧ rate ≤ 1

theorem follows_providers (svc : TriageService) (submits : Bool) :
    Follows (protocol B) (fun p r => ∃ page, r = .ok page ∧ page.recent = p.read ∧ Sensible page) ⟨submits, []⟩ (providers svc) := by
  unfold providers TriageService.cacheCounts
  refine Follows.bind (Follows.bind (follows_getInt (.inl rfl) fun hits hhits => Follows.bind (follows_getInt (.inr rfl) fun misses hmisses => ?_)))
  have hrate : ∀ rate, (if hits + misses = 0 then none else some (round3 ((hits : ℚ) / (hits + misses : Int)))) = some rate →
      0 ≤ rate ∧ rate ≤ 1 := by
    intro rate h
    split at h
    · cases h
    · rename_i hne
      cases h
      have hpos : (0 : ℚ) < (hits + misses : Int) := by
        have : 0 < hits + misses := by omega
        exact_mod_cast this
      have hle : (hits : ℚ) ≤ (hits + misses : Int) := by
        have : hits ≤ hits + misses := by omega
        exact_mod_cast this
      have hhits : (0 : ℚ) ≤ hits := by exact_mod_cast hhits
      exact round3_range (div_nonneg hhits hpos.le) ((div_le_one hpos).mpr hle)
  refine Follows.bind (follows_recent ?_ fun rs hlen => ?_)
  · exact ⟨_, rfl, rfl, by simp, hhits, hmisses, hrate⟩
  · show Follows (protocol B) _ _ (ofExcept (validateAll (rs.map RecentOutcome.json)) >>= _)
    rw [RecentOutcome.validateAll_json]
    exact ⟨_, rfl, rfl, hlen, hhits, hmisses, hrate⟩

end

/-! ## What the keys hold -/

section

variable {E : Env} {B : ℚ} {w : World} {ps : Nat → Option Place} {i : Nat} {p p' : Place} {o : Op}

/-- A submission has pushed the line. -/
def Pushed (w : World) (ps : Nat → Option Place) (r : RecentOutcome) : Prop :=
  ∃ i p a, ps i = some p ∧ p.submits = true ∧
    (⟨.pushTrim RECENT_KEY r.json.dumps (RECENT_CAP - 1), a⟩ : Σ o : Op, o.Ans) ∈ w.trace i

/-- A counter is no negative number. -/
def Counts (e : Entry) : Prop := ∃ n : Nat, e.val = .int n

/-- The list's elements are lines that submissions have pushed. -/
def Lines (w : World) (ps : Nat → Option Place) (e : Entry) : Prop :=
  ∃ rs, e.val = .list (stored rs) ∧ rs.length ≤ 20 ∧ ∀ r ∈ rs, r.Short ∧ Pushed w ps r

structure Shown (w : World) (ps : Nat → Option Place) : Prop where
  cache : Counters.Cached w.redis
  counters : ∀ k, k = HITS_KEY ∨ k = MISSES_KEY → ∀ e, w.redis k = some e → Counts e
  recent : ∀ e, w.redis RECENT_KEY = some e → Lines w ps e
  read : ∀ i p, ps i = some p → ∀ r ∈ p.read, Pushed w ps r
  clock : 0 ≤ w.clock

theorem Pushed.exec {r : RecentOutcome} (h : Pushed w ps r) (hi : ps i = some p) (hsubmits : p'.submits = p.submits) :
    Pushed (World.exec E i o w).2 (update ps i (some p')) r := by
  obtain ⟨j, q, a, hj, hq, hmem⟩ := h
  by_cases e : j = i
  · subst e
    rw [hi] at hj
    cases hj
    exact ⟨j, p', a, Function.update_self .., hsubmits.trans hq, World.mem_trace_exec hmem⟩
  · exact ⟨j, q, a, (Function.update_of_ne e _ _).trans hj, hq, World.mem_trace_exec hmem⟩

theorem Lines.exec {e : Entry} (h : Lines w ps e) (hi : ps i = some p) (hsubmits : p'.submits = p.submits) :
    Lines (World.exec E i o w).2 (update ps i (some p')) e := by
  obtain ⟨rs, he, hlen, hrs⟩ := h
  exact ⟨rs, he, hlen, fun r hr => ⟨(hrs r hr).1, (hrs r hr).2.exec hi hsubmits⟩⟩

theorem performs_stores (hcan : Performs p o) : Counters.Stores o := by
  cases o with
  | set k v ex => exact hcan.2
  | incr k => exact fun hk => no_shared hk (hcan.imp_right Or.inl)
  | pushTrim k v n => exact fun hk => no_shared hk (.inr (.inr hcan.2.1))
  | incrExpire k ttl => exact hcan.2
  | _ => trivial

omit [Platform] in
theorem incr_counts {now : ℚ} {key k : Str} {r : Redis} (h : ∀ e, r k = some e → Counts e) :
    ∀ e, (Redis.incr now key r).2 k = some e → Counts e := by
  intro e he
  by_cases hk : k = key
  · subst hk
    unfold Redis.incr at he
    split at he
    · obtain rfl := Option.some.inj ((Redis.put_self _).symm.trans he)
      exact ⟨1, rfl⟩
    · rename_i n t hl
      obtain ⟨m, hm⟩ := h _ (Redis.live_some hl)
      obtain rfl := Option.some.inj ((Redis.put_self _).symm.trans he)
      cases hm
      exact ⟨m + 1, rfl⟩
    · exact h e he
  · rw [Redis.incr_ne hk] at he
    exact h e he

theorem exec_counters (h : Shown w ps) (hcan : Performs p o) {k : Str} (hk : k = HITS_KEY ∨ k = MISSES_KEY) {e : Entry}
    (he : (World.exec E i o w).2.redis k = some e) : Counts e := by
  have hold : w.redis k = some e → Counts e := h.counters k hk e
  rcases World.exec_redis he with hw | ⟨v, ex, rfl, -⟩ | rfl | ⟨v, n, rfl⟩ | ⟨t, rfl⟩
  · exact hold hw
  · exact absurd (hk.imp_right Or.inl) hcan.1
  · exact World.redisOp_keeps (fun _ => incr_counts) (h.counters k hk) e he
  · have hrecent : k = RECENT_KEY := hcan.2.1
    rcases hk with rfl | rfl
    · exact absurd hrecent (by decide)
    · exact absurd hrecent (by decide)
  · exact absurd (hk.imp_right Or.inl) hcan.1

/-- A line is pushed and the oldest beyond the cap are dropped. -/
theorem push_lines {now : ℚ} {k : Str} {r : Redis} {V : RecentOutcome → Prop} {x : RecentOutcome} (hx : V x)
    (h : ∀ e, r k = some e → ∃ rs, e.val = .list (stored rs) ∧ rs.length ≤ 20 ∧ ∀ r ∈ rs, V r) :
    ∀ e, (Redis.pushTrim now k x.json.dumps (RECENT_CAP - 1) r).2 k = some e →
      ∃ rs, e.val = .list (stored rs) ∧ rs.length ≤ 20 ∧ ∀ r ∈ rs, V r := by
  intro e he
  have hcap : (RECENT_CAP - 1 + 1).toNat = 20 := by decide
  unfold Redis.pushTrim at he
  rw [hcap] at he
  split at he
  · obtain rfl := Option.some.inj ((Redis.put_self _).symm.trans he)
    exact ⟨[x], rfl, by simp, fun r hr => by rw [List.mem_singleton.mp hr]; exact hx⟩
  · rename_i l t hl
    obtain ⟨rs, hval, -, hrs⟩ := h _ (Redis.live_some hl)
    cases hval
    obtain rfl := Option.some.inj ((Redis.put_self _).symm.trans he)
    refine ⟨(x :: rs).take 20, ?_, List.length_take_le _ _, fun r hr => ?_⟩
    · have htake : stored ((x :: rs).take 20) = (stored (x :: rs)).take 20 := List.map_take
      rw [htake]
      rfl
    · rcases List.mem_cons.mp (List.mem_of_mem_take hr) with rfl | hr
      · exact hx
      · exact hrs r hr
  · exact h e he

theorem exec_recent (h : Shown w ps) (hi : ps i = some p) (hcan : Performs p o) (hsubmits : p'.submits = p.submits) {e : Entry}
    (he : (World.exec E i o w).2.redis RECENT_KEY = some e) : Lines (World.exec E i o w).2 (update ps i (some p')) e := by
  have hno : ¬ (RECENT_KEY = HITS_KEY ∨ RECENT_KEY = MISSES_KEY) := by decide
  rcases World.exec_redis he with hw | ⟨v, ex, rfl, -⟩ | rfl | ⟨v, n, rfl⟩ | ⟨t, rfl⟩
  · exact (h.recent e hw).exec hi hsubmits
  · exact absurd (.inr (.inr rfl)) hcan.1
  · exact absurd hcan hno
  · obtain ⟨hp, -, rfl, x, rfl, hshort⟩ := hcan
    have hx : x.Short ∧ Pushed (World.exec E i (.pushTrim RECENT_KEY x.json.dumps (RECENT_CAP - 1)) w).2 (update ps i (some p')) x := by
      refine ⟨hshort, i, p', (World.exec E i (.pushTrim RECENT_KEY x.json.dumps (RECENT_CAP - 1)) w).1, Function.update_self .., hsubmits.trans hp, ?_⟩
      rw [World.trace_exec]
      exact List.mem_cons_self
    exact World.redisOp_keeps (fun _ => push_lines hx) (fun e hw => (h.recent e hw).exec hi hsubmits) e he
  · exact absurd (.inr (.inr rfl)) hcan.1

/-- After an operation that leaves the thread at `p'`. -/
theorem Shown.exec (h : Shown w ps) (hi : ps i = some p) (hcan : Performs p o) (hsubmits : p'.submits = p.submits)
    (hread : ∀ r ∈ p'.read, Pushed w ps r) : Shown (World.exec E i o w).2 (update ps i (some p')) where
  cache := Counters.exec_cached h.cache (performs_stores hcan)
  counters k hk e he := exec_counters h hcan hk he
  recent e he := exec_recent h hi hcan hsubmits he
  read j q hj r hr := by
    rcases update_some hj with ⟨rfl, rfl⟩ | ⟨-, hj⟩
    · exact (hread r hr).exec hi hsubmits
    · exact (h.read j q hj r hr).exec hi hsubmits
  clock := h.clock.trans (World.clock_le_exec o)

/-- Each operation is answered as the protocol has it, before `B`. -/
theorem shown_exec (hB : w.now E ≤ B) (h : Shown w ps) (hi : ps i = some p) (hcan : Performs p o) :
    ∃ p', Moves B p o (World.exec E i o w).1 p' ∧ Shown (World.exec E i o w).2 (update ps i (some p')) ∧ p'.submits = p.submits := by
  have hstay : Shown (World.exec E i o w).2 (update ps i (some p)) := h.exec hi hcan rfl (h.read i p hi)
  cases o with
  | get k =>
    refine ⟨p, ⟨rfl, Redis.answers_faulty (fun _ => Redis.answers_get) _ _, fun hk raw hraw => ?_, fun hk raw hraw => ?_⟩, hstay, rfl⟩
    · obtain ⟨e, he, hval⟩ := World.exec_get hraw
      exact h.cache k e raw hk he hval
    · obtain ⟨e, he, hval⟩ := World.exec_get hraw
      obtain ⟨n, hn⟩ := h.counters k hk e he
      rcases hval with hval | ⟨m, hm, rfl⟩
      · rw [hn] at hval
        cases hval
      · rw [hn] at hm
        cases hm
        exact ⟨n, rfl⟩
  | lrange k stop =>
    obtain ⟨rfl, rfl⟩ := hcan
    cases ha : (World.exec E i (.lrange RECENT_KEY (RECENT_CAP - 1)) w).1 with
    | error x =>
      have hredis : Redis.Answers (World.exec E i (.lrange RECENT_KEY (RECENT_CAP - 1)) w).1 := by
        refine Redis.answers_faulty (fun r => ?_) _ _
        unfold Redis.lrange
        split
        · exact Redis.answers_ok _
        · exact Redis.answers_ok _
        · exact Redis.answers_error _
      have hx : x.isRedisError = true := hredis x ha
      cases x with
      | redisError cls => exact ⟨p, .inl ⟨⟨cls, rfl⟩, rfl⟩, hstay, rfl⟩
      | _ => cases hx
    | ok l =>
      have hlines : ∃ rs, l = stored rs ∧ rs.length ≤ 20 ∧ ∀ r ∈ rs, r.Short ∧ Pushed w ps r := by
        rcases World.exec_lrange ha with rfl | ⟨e, l', he, hval, rfl⟩
        · exact ⟨[], rfl, by simp, fun r hr => by cases hr⟩
        · obtain ⟨rs, hrs, hlen, hpushed⟩ := h.recent e he
          rw [hrs] at hval
          cases hval
          refine ⟨rs, List.take_of_length_le ?_, hlen, hpushed⟩
          rw [stored, List.length_map]
          exact hlen
      obtain ⟨rs, rfl, hlen, hrs⟩ := hlines
      exact ⟨{ p with read := rs }, .inr ⟨rs, rfl, hlen, fun r hr => (hrs r hr).1, rfl⟩,
        h.exec hi ⟨rfl, rfl⟩ rfl fun r hr => (hrs r hr).2, rfl⟩
  | set k v ex => exact ⟨p, ⟨rfl, Redis.answers_faulty (fun _ => Redis.answers_set) _ _⟩, hstay, rfl⟩
  | delete ks => exact ⟨p, ⟨rfl, Redis.answers_faulty (fun _ => Redis.answers_ok _) _ _⟩, hstay, rfl⟩
  | incr k => exact ⟨p, ⟨rfl, Redis.answers_faulty (fun _ => Redis.answers_incr) _ _⟩, hstay, rfl⟩
  | pushTrim k v n => exact ⟨p, ⟨rfl, Redis.answers_faulty (fun _ => Redis.answers_pushTrim) _ _⟩, hstay, rfl⟩
  | incrExpire k ttl => exact ⟨p, ⟨rfl, Redis.answers_faulty (fun _ => Redis.answers_incrExpire) _ _⟩, hstay, rfl⟩
  | perfCounter => exact ⟨p, ⟨rfl, add_nonneg h.clock (E.delay_nonneg _), hB⟩, hstay, rfl⟩
  | _ => exact ⟨p, rfl, hstay, rfl⟩

end

/-! ## Runs -/

variable [Reading]

/-- The API, and the page of the replica's triage service. -/
def site (g : Gate) : (App × Route) ⊕ TriageService → Code (Answer ⊕ ProvidersOut)
  | .inl c => Sum.inl <$> api g c
  | .inr svc => Sum.inr <$> providers svc

/-- Runs while the clock is at most at `B`. -/
abbrev until_ (E : Env) (B : ℚ) : Machine sig := (machine E).restrict fun _ _ w => decide (w.now E ≤ B)

def Submits (c : (App × Route) ⊕ TriageService) : Prop := ∃ app peer body, c = .inl (app, .createComplaint peer body)

/-- How a thread ends. -/
def Ends : (App × Route) ⊕ TriageService → Place → Except Exc (Answer ⊕ ProvidersOut) → Prop
  | .inl _, _, _ => True
  | .inr _, p, r => ∃ page, r = .ok (.inr page) ∧ page.recent = p.read ∧ Sensible page

def showing (E : Env) (B : ℚ) : Outline (until_ E B) ((App × Route) ⊕ TriageService) (Answer ⊕ ProvidersOut) Place where
  toProtocol := protocol B
  post := Ends
  inv := Shown
  belongs c p := p.submits = true → Submits c

variable {E : Env} {B : ℚ}

omit [Reading] in
theorem shown_start {w : World} {ps : Nat → Option Place} {i : Nat} (h : Shown w ps) (hi : ps i = none) (submits : Bool) :
    Shown w (update ps i (some ⟨submits, []⟩)) := by
  have hpushed : ∀ {r}, Pushed w ps r → Pushed w (update ps i (some ⟨submits, []⟩)) r := by
    rintro r ⟨j, p, a, hj, hp, hmem⟩
    refine ⟨j, p, a, (Function.update_of_ne (fun e => ?_) _ _).trans hj, hp, hmem⟩
    rw [e, hi] at hj
    cases hj
  refine ⟨h.cache, h.counters, fun e he => ?_, fun j q hj r hr => ?_, h.clock⟩
  · obtain ⟨rs, hval, hlen, hrs⟩ := h.recent e he
    exact ⟨rs, hval, hlen, fun r hr => ⟨(hrs r hr).1, hpushed (hrs r hr).2⟩⟩
  · rcases update_some hj with ⟨-, rfl⟩ | ⟨-, hj⟩
    · cases hr
    · exact hpushed (h.read j q hj r hr)

theorem showing_sound (g : Gate) (hB : B * 1000 ≤ 10 ^ 4000) : (showing E B).Sound (site g) where
  start := by
    intro w ps i c h hi
    cases c with
    | inl c =>
      obtain ⟨app, r⟩ := c
      have hfollows : ∀ submits, (∀ data, r.call = .create data → submits = true) →
          Follows (protocol B) (Ends (.inl (app, r))) ⟨submits, []⟩ (site g (.inl (app, r))) := by
        intro submits hsubmits
        refine Follows.bind (Follows.mono (fun p x _ => ?_) (follows_api g hB (app, r) (p := ⟨submits, []⟩) hsubmits))
        cases x <;> trivial
      cases r with
      | createComplaint peer body =>
        exact ⟨⟨true, []⟩, shown_start h hi true, fun _ => ⟨app, peer, body, rfl⟩, hfollows true fun _ _ => rfl⟩
      | _ => exact ⟨⟨false, []⟩, shown_start h hi false, fun e => (by cases e), hfollows false fun _ e => by cases e⟩
    | inr svc =>
      refine ⟨⟨false, []⟩, shown_start h hi false, fun e => (by cases e), Follows.bind (Follows.mono (fun p x hx => ?_) (follows_providers svc false))⟩
      obtain ⟨page, rfl, hpage⟩ := hx
      exact ⟨page, rfl, hpage⟩
  exec := by
    intro w ps i p o h hi hcan hen
    have hnow : w.now E ≤ B := of_decide_eq_true (Bool.and_eq_true_iff.mp hen).2
    obtain ⟨p', hm, h', hsubmits⟩ := shown_exec (i := i) hnow h hi hcan
    exact ⟨p', hm, h', fun c hc hp => hc (hsubmits ▸ hp)⟩

/-- A submission of the run has recorded the line. -/
def Recorded (P : Pool (until_ E B) ((App × Route) ⊕ TriageService) (Answer ⊕ ProvidersOut)) (r : RecentOutcome) : Prop :=
  ∃ i t a, P.threads i = some t ∧ Submits t.call ∧
    (⟨.pushTrim RECENT_KEY r.json.dumps (RECENT_CAP - 1), a⟩ : Σ o : Op, o.Ans) ∈ P.shared.trace i

/-- Whatever Redis, the database and the providers do: the page never fails, and every line it
    shows is one that a submission of the run has recorded. -/
theorem providers_answers {g : Gate} (hB : B * 1000 ≤ 10 ^ 4000) {w₀ : World} (hclock : 0 ≤ w₀.clock)
    (hempty : ∀ k, Shared k ∨ CACHE_PREFIX <+: k → w₀.redis k = none)
    {P : Pool (until_ E B) ((App × Route) ⊕ TriageService) (Answer ⊕ ProvidersOut)} (hP : Pool.Steps (site g) (.fresh w₀) P) {i : Nat}
    {svc : TriageService} {p : Code (Answer ⊕ ProvidersOut)} (ht : P.threads i = some ⟨.inr svc, p⟩) :
    (∀ e, p ≠ .raise e) ∧ ∀ x, p = .ret x → ∃ page, x = .inr page ∧ Sensible page ∧ ∀ r ∈ page.recent, Recorded P r := by
  have hinit : Shown w₀ fun _ => none := by
    refine ⟨fun k e raw hk he => ?_, fun k hk e he => ?_, fun e he => ?_, fun _ _ h => (by cases h), hclock⟩
    · rw [hempty k (.inr hk)] at he
      cases he
    · rw [hempty k (.inl (hk.imp_right .inl))] at he
      cases he
    · rw [hempty _ (.inl (.inr (.inr rfl)))] at he
      cases he
  obtain ⟨ps, hAt⟩ := Outline.keeps (showing_sound g hB) hP (Outline.fresh_holds hinit)
  refine ⟨?_, ?_⟩
  · rintro e rfl
    obtain ⟨q, -, page, he, -⟩ := hAt.raised ht
    cases he
  · rintro x rfl
    obtain ⟨q, hq, page, hx, hread, hpage⟩ := hAt.returned ht
    refine ⟨page, Except.ok.inj hx, hpage, fun r hr => ?_⟩
    obtain ⟨j, q', a, hj, hsubmits, hmem⟩ := hAt.inv.read i q hq r (hread ▸ hr)
    cases htj : P.threads j with
    | none =>
      rw [hAt.idle j htj] at hj
      cases hj
    | some t =>
      obtain ⟨q'', hq'', hbelongs, -⟩ := hAt.busy j t htj
      rw [hj] at hq''
      cases hq''
      exact ⟨j, t, a, htj, hbelongs hsubmits, hmem⟩

end

/-! ## A look at the page -/

/-- A submission, and then a look at the page. -/
def consulted : Pool (@until_ .ascii (.calm fun _ _ _ => .error .triageTimeout) 1000) ((App × Route) ⊕ TriageService)
    (Answer ⊕ ProvidersOut) :=
  Pool.schedule (@site .ascii .ascii ⟨⟨10, 60⟩, true⟩)
    (.start 0 (.inl (replica, .createComplaint someone leak)) :: List.replicate 18 (.exec 0) ++
      .start 1 (.inr replica.triage) :: List.replicate 4 (.exec 1))
    (.fresh (.initial potholes))

theorem providers_answers_consulted : ∃ page : ProvidersOut, page.recent.length = 1 ∧ Sensible page ∧
    ∀ r ∈ page.recent, @Recorded .ascii (.calm fun _ _ _ => .error .triageTimeout) 1000 consulted r := by
  have hshown : (consulted.result 1).any (Sum.elim (fun _ => false) fun page => page.recent.length == 1) = true := by decide +kernel
  have hspan : (1000 : ℚ) * 1000 ≤ 10 ^ 4000 :=
    le_trans (by norm_num : (1000 : ℚ) * 1000 ≤ 10 ^ 6) (pow_le_pow_right₀ (by norm_num) (by decide))
  have hcall : ((consulted.threads 1).any fun t => t.call.isRight) = true := by decide +kernel
  obtain ⟨x, hx, hone⟩ := (Option.any_eq_true _ _).mp hshown
  obtain ⟨c, hc⟩ := Pool.result_some hx
  rw [hc] at hcall
  cases c with
  | inl c => cases hcall
  | inr svc =>
    obtain ⟨-, hpage⟩ := @providers_answers .ascii .ascii (.calm fun _ _ _ => .error .triageTimeout) 1000 ⟨⟨10, 60⟩, true⟩ hspan
      (.initial potholes) (le_refl 0) (fun _ _ => rfl) consulted (Pool.schedule_steps _ _ _) 1 svc (.ret x) hc
    obtain ⟨page, rfl, hsensible, hrecorded⟩ := hpage x rfl
    exact ⟨page, by simpa using hone, hsensible, hrecorded⟩

end Providers

end CivicPulse
