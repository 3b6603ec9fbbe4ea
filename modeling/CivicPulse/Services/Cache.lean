/-
  CivicPulse.Services.Cache — Redis's two jobs (`app/providers/cache.py`): the JSON cache
  and the rate limiter. Both fail open.

  Each Redis command is one operation; `exceptRedis` is the wrappers' `except
  redis.RedisError`.
-/

import CivicPulse.Store.World
import CivicPulse.Text.CodePoints

namespace CivicPulse

open Text Lang

/-! ## Calls -/

def ofExcept {α : Type} : Except Exc α → Code α
  | .ok a => .ret a
  | .error e => .raise e

@[simp] theorem ofExcept_ok {α : Type} (a : α) : ofExcept (.ok a) = .ret a := rfl
@[simp] theorem ofExcept_error {α : Type} (e : Exc) : ofExcept (.error e : Except Exc α) = .raise e := rfl

/-- `except redis.RedisError`. -/
def exceptRedis {α : Type} (p : Code α) (h : Exc → Code α) : Code α :=
  tryCatch p fun e => if e.isRedisError then h e else throw e

@[simp] theorem exceptRedis_ret {α : Type} (a : α) (h : Exc → Code α) : exceptRedis (.ret a) h = .ret a := rfl

theorem exceptRedis_raise {α : Type} {e : Exc} (he : e.isRedisError = true) (h : Exc → Code α) :
    exceptRedis (.raise e) h = h e := by
  show (if e.isRedisError = true then h e else throw e) = h e
  rw [if_pos he]

@[simp] theorem exceptRedis_op {α : Type} (o : Op) (k : o.Ans → Code α) (h : Exc → Code α) :
    exceptRedis (.op o k) h = .op o fun r => exceptRedis (k r) h := rfl

def warn (msg : Str) (extra : List (Str × Str)) : Code Unit := .op (.warn msg extra) fun _ => .ret ()

/-! ## `json.loads` -/

section

variable [Platform]

/-- `json.loads(f(s))`. -/
def jsonLoads (f : Str → Str) (s : List CodePoint) : Except Exc Json :=
  match Json.loadsText recursionLimit f s with
  | .ok j => .ok j
  | .error .decode => .error .jsonDecodeError
  | .error .digits => .error .valueError
  | .error .recursion => .error .recursionError

/-- `json.loads` of bytes. -/
def jsonLoadsBytes (b : List UInt8) : Except Exc Json :=
  match decode b with
  | none => .error .unicodeDecodeError
  | some s => jsonLoads id s

theorem jsonLoads_error {f : Str → Str} {s : List CodePoint} {e : Exc} (h : jsonLoads f s = .error e) :
    e = .jsonDecodeError ∨ e = .valueError ∨ e = .recursionError := by
  unfold jsonLoads at h
  split at h <;> cases h
  · exact .inl rfl
  · exact .inr (.inl rfl)
  · exact .inr (.inr rfl)

theorem jsonLoadsBytes_error {b : List UInt8} {e : Exc} (h : jsonLoadsBytes b = .error e) :
    e = .unicodeDecodeError ∨ e = .jsonDecodeError ∨ e = .valueError ∨ e = .recursionError := by
  unfold jsonLoadsBytes at h
  split at h
  · cases h
    exact .inl rfl
  · exact .inr (jsonLoads_error h)

theorem jsonLoads_codes (f : Str → Str) {s : Str} {j : Json} (h : Json.loads recursionLimit (f s) = .ok j) :
    jsonLoads f (codes s) = .ok j := by
  rw [jsonLoads, Json.loadsText_codes, h]

/-- What was dumped is read back. -/
theorem jsonLoadsBytes_dumps {j : Json} (hplain : j.plain = true) (hdepth : j.depth ≤ recursionLimit) :
    jsonLoadsBytes (utf8Bytes j.dumps) = .ok j := by
  rw [jsonLoadsBytes, decode_printable (Json.dumps_printable j)]
  exact jsonLoads_codes id (Json.loads_dumps hplain hdepth)

end

/-! ## `JsonCache` -/

namespace JsonCache

variable [Platform]

/-- `json.loads` of a stored string. -/
def loadsRaw (raw : Raw) : Except Exc Json := jsonLoadsBytes raw.bytes

theorem loadsRaw_dumps {j : Json} (hplain : j.plain = true) (hdepth : j.depth ≤ recursionLimit) :
    loadsRaw (.text j.dumps) = .ok j := jsonLoadsBytes_dumps hplain hdepth

/-- `None`, for a missing key or a Redis that fails, is the JSON `null` a caller cannot
    tell from it. -/
def get (key : Str) : Code Json := do
  let raw ← exceptRedis (.op (.get key) ofExcept) fun e => do
    warn "cache get failed".toList [("key".toList, key), ("error".toList, e.className)]
    return none
  match raw with
  | none => return .null
  | some raw => ofExcept (loadsRaw raw)

omit [Platform] in
section

def set (key : Str) (value : Json) (ttlSeconds : Int) : Code Unit :=
  exceptRedis (.op (.set key value.dumps ttlSeconds) ofExcept) fun e =>
    warn "cache set failed".toList [("key".toList, key), ("error".toList, e.className)]

def delete (keys : List Str) : Code Unit :=
  exceptRedis (.op (.delete keys) ofExcept) fun e =>
    warn "cache delete failed".toList [("keys".toList, join ", ".toList keys), ("error".toList, e.className)]

def incr (key : Str) : Code Unit := exceptRedis (.op (.incr key) fun r => (fun _ => ()) <$> ofExcept r) fun _ => return ()

/-- `int(raw)`; bytes beyond ASCII are no digits. -/
def intOfRaw (raw : Raw) : Except Exc Int :=
  let digits := match raw with
    | .text s => intOfText s
    | .binary b => if b.all (· < 128) then intOfText (b.map fun x => Char.ofNat x.toNat) else none
  match digits with
  | some n => .ok n
  | none => .error .valueError

/-- A missing or an empty value is 0, and so is one that cannot be read. -/
def getInt (key : Str) : Code Int :=
  tryCatch
    (.op (.get key) fun r => do
      match ← ofExcept r with
      | none => return 0
      | some raw => if raw = .text [] then return 0 else ofExcept (intOfRaw raw))
    fun e => if e.isRedisError || e.isValueError then return 0 else throw e

def pushCapped (key : Str) (value : Json) (cap : Int) : Code Unit :=
  exceptRedis (.op (.pushTrim key value.dumps (cap - 1)) ofExcept) fun _ => return ()

end

/-- `[json.loads(x) for x in …]`. -/
def loadsAll : List Str → Except Exc (List Json)
  | [] => .ok []
  | s :: l => do return (← loadsRaw (.text s)) :: (← loadsAll l)

def listRecent (key : Str) (cap : Int) : Code (List Json) :=
  exceptRedis (.op (.lrange key (cap - 1)) fun r => do ofExcept (loadsAll (← ofExcept r))) fun _ => return []

end JsonCache

/-- What `JsonCache.get` makes of what `GET` answers. -/
def readAnswer [Platform] (a : Except Exc (Option Raw)) : Except Exc Json :=
  match a with
  | .ok (some raw) => JsonCache.loadsRaw raw
  | _ => .ok .null

/-! ## `RateLimiter` -/

structure RateDecision where
  allowed : Bool
  remaining : Int
  retryAfter : Int
  deriving DecidableEq, Repr

structure RateLimiter where
  limit : Int
  window : Int

/-- `int(x)`: towards zero. -/
def truncate (x : ℚ) : Int := if 0 ≤ x then ⌊x⌋ else ⌈x⌉

theorem truncate_nonneg {x : ℚ} (h : 0 ≤ x) : 0 ≤ truncate x := by
  rw [truncate, if_pos h]
  exact Int.floor_nonneg.mpr h

theorem truncate_le {x : ℚ} (h : 0 ≤ x) : (truncate x : ℚ) ≤ x := by
  rw [truncate, if_pos h]
  exact Int.floor_le x

namespace RateLimiter

/-- `int(now // window) * window`. -/
def windowStart (l : RateLimiter) (now : ℚ) : Int := ⌊now / l.window⌋ * l.window

/-- `f"ratelimit:{identity}:{window_start}"`. -/
def key (identity : Str) (start : Int) : Str := "ratelimit:".toList ++ identity ++ ':' :: intText start

def retryAfter (l : RateLimiter) (now : ℚ) : Int := max 1 (truncate (l.windowStart now + l.window - now + 999 / 1000))

/-- What a count means. -/
def decide (l : RateLimiter) (now : ℚ) (count : Int) : RateDecision :=
  if l.limit < count then ⟨false, 0, l.retryAfter now⟩ else ⟨true, l.limit - count, l.retryAfter now⟩

def hit (l : RateLimiter) (identity : Str) (now : Option ℚ) : Code RateDecision := do
  let now ← match now with
    | none => .op .time .ret
    | some now => .ret now
  let key := key identity (l.windowStart now)
  exceptRedis (.op (.incrExpire key (l.window + 1)) fun r => do return l.decide now (← ofExcept r)) fun e => do
    warn "rate limiter unavailable, failing open".toList [("error".toList, e.className)]
    return ⟨true, l.limit, 0⟩

end RateLimiter

end CivicPulse
