/-
  CivicPulse.Services.Triage — triage orchestration: content-hash cache, then the
  provider, then the rules fallback (`app/services/triage_service.py`).

  `triage` is the method in its three parts: `fromCache` (the lookup and the first `try`),
  `ask` (the second `try`), `record`. `recent` and `cacheCounts` read what the calls leave
  behind. Metrics are left out; nothing reads them.
-/

import CivicPulse.Services.Cache

namespace CivicPulse

open Text Lang

def CACHE_PREFIX : Str := "triage:v1:".toList
def HITS_KEY : Str := "triage:cache:hits".toList
def MISSES_KEY : Str := "triage:cache:misses".toList
def RECENT_KEY : Str := "triage:recent".toList
def RECENT_CAP : Int := 20
def FALLBACK_NAME : Str := "rules:fallback".toList

/-- `triaged_by` is a text, unless a cache entry holds something else; the fallback's
    answer is not looked at. -/
structure TriageOutcome where
  result : Option TriageResult
  triagedBy : Json
  latencyMs : Int
  fallback : Bool
  cached : Bool
  error : Option Str

def text (s : Str) : Json := .str (codes s)

section

variable [Platform]

/-- The text that is hashed: both fields lower-cased, white space collapsed. -/
def normalForm (text location : Str) : Str := collapse (lower text) ++ '|' :: collapse (lower location)

def contentHash (text location : Str) : Str := sha256 (normalForm text location)

def cacheKey (text location : Str) : Str := CACHE_PREFIX ++ contentHash text location

end

/-- `cached[key]`. -/
def subscript (key : Str) : Json → Except Exc Json
  | .obj l => match Json.lookup key l with
    | some j => .ok j
    | none => .error .keyError
  | _ => .error .typeError

structure TriageService where
  provider : Provider
  fallback : Provider
  ttl : Int
  deriving DecidableEq

namespace TriageService

variable [Platform] (svc : TriageService)

/-- `_ms`. -/
def ms (started : ℚ) : Code Int := .op .perfCounter fun (t : ℚ) => .ret (truncate ((t - started) * 1000))

omit [Platform] in
/-- What the cache holds for a provider's answer. -/
def entry (r : TriageResult) (name : Str) : Json :=
  .obj [(codes "result".toList, r.modelDump), (codes "triaged_by".toList, text name)]

/-- What is pushed to the recent outcomes. -/
def recordJson (complaintId : Str) (o : TriageOutcome) (at_ : Int) : Json :=
  .obj [(codes "complaint_id".toList, text complaintId), (codes "provider".toList, o.triagedBy),
    (codes "latency_ms".toList, .int o.latencyMs), (codes "fallback".toList, .bool o.fallback),
    (codes "cached".toList, .bool o.cached),
    (codes "error".toList, match o.error with | none => .null | some e => text e),
    (codes "at".toList, text (isoformat at_))]

def record (complaintId : Str) (o : TriageOutcome) : Code TriageOutcome :=
  .op .utcnow fun (at_ : Int) => do
    JsonCache.pushCapped RECENT_KEY (recordJson complaintId o at_) RECENT_CAP
    return o

/-- A cache entry's outcome. -/
def outcomeOf (started : ℚ) (cached : Json) : Code TriageOutcome := do
  let result ← ofExcept ((subscript "result".toList cached).bind TriageResult.modelValidate)
  let triagedBy ← ofExcept (subscript "triaged_by".toList cached)
  let latency ← ms started
  return ⟨some result, triagedBy, latency, false, true, none⟩

/-- The answer from the cache, or `none` on a miss and on a poisoned entry, which is
    dropped. -/
def fromCache (complaintId key : Str) (started : ℚ) : Code (Option TriageOutcome) := do
  let cached ← JsonCache.get key
  match cached with
  | .null => return none
  | cached =>
    tryCatch
      (do
        let outcome ← outcomeOf started cached
        JsonCache.incr HITS_KEY
        return some (← record complaintId outcome))
      fun e => do
        if e.isKeyOrValueError then
          JsonCache.delete [key]
          return none
        else throw e

/-- `provider.triage`: an answer, an object that is none, or an exception. -/
def call (role : Role) (p : Provider) (text location : Str) : Code (Option TriageResult) :=
  .op (.triage role p text location) ofExcept

/-- The provider's answer, cached. -/
def askProvider (key : Str) (started : ℚ) (text location : Str) : Code TriageOutcome := do
  let result ← call .primary svc.provider text location
  let latency ← ms started
  let dumped ← ofExcept (match result with
    | none => .error .attributeError
    | some r => .ok (entry r svc.provider.name))
  JsonCache.set key dumped svc.ttl
  return ⟨result, CivicPulse.text svc.provider.name, latency, false, false, none⟩

/-- Any failure of the provider ends in the fallback's answer, which is not cached. -/
def askFallback (complaintId : Str) (started : ℚ) (text location : Str) (exc : Exc) : Code TriageOutcome := do
  warn "triage fallback".toList
    [("complaint_id".toList, complaintId), ("provider".toList, svc.provider.name), ("error_class".toList, exc.className)]
  let result ← call .fallback svc.fallback text location
  let latency ← ms started
  return ⟨result, CivicPulse.text FALLBACK_NAME, latency, true, false, some exc.className⟩

def ask (complaintId key : Str) (started : ℚ) (text location : Str) : Code TriageOutcome :=
  tryCatch (svc.askProvider key started text location) (svc.askFallback complaintId started text location)

def triage (complaintId text location : Str) : Code TriageOutcome :=
  .op .perfCounter fun (started : ℚ) => do
    let key := cacheKey text location
    match ← fromCache complaintId key started with
    | some outcome => return outcome
    | none =>
      JsonCache.incr MISSES_KEY
      let outcome ← svc.ask complaintId key started text location
      record complaintId outcome

/-! ## Observability -/

def recent : Code (List Json) := JsonCache.listRecent RECENT_KEY RECENT_CAP

omit [Platform] in
/-- Hits and misses. -/
def cacheCounts : Code (Int × Int) := do return (← JsonCache.getInt HITS_KEY, ← JsonCache.getInt MISSES_KEY)

end TriageService

end CivicPulse
