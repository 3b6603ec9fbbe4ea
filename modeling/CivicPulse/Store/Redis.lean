/-
  CivicPulse.Store.Redis — the Redis commands `app/providers/cache.py` issues.

  A database is its keys' values with the instants they expire at. A command answers or
  raises, and may be a `MULTI` block of two. `faulty` is a command that does not reach
  the server, or whose answer does not come back.
  - `faulty_cases`: a faulty command took effect in full or not at all.
  - `set_some` … `pushTrim_some`: what is under a key after a command was there before,
    or is what the command put.
  - `incrExpire_counter`: what `INCR` and `EXPIRE` do to a counter.
  - `answers_get` …: a command raises nothing but a `RedisError`.
-/

import Mathlib.Algebra.Order.Field.Rat
import Mathlib.Data.Rat.Floor
import CivicPulse.Domain
import CivicPulse.Text.Encoding

namespace CivicPulse

open Text

/-- A string as stored: the bytes of a text, or any others. -/
inductive Raw where
  | text (s : Str)
  | binary (b : List UInt8)
  deriving DecidableEq, Repr

def Raw.bytes : Raw → List UInt8
  | text s => utf8Bytes s
  | binary b => b

inductive RVal where
  | str (s : Raw)
  | int (n : Int)
  | list (l : List Str)
  deriving DecidableEq, Repr

structure Entry where
  val : RVal
  expires : Option ℚ
  deriving DecidableEq

abbrev Redis := Str → Option Entry

namespace Redis

def wrongType : Exc := .redisError "ResponseError".toList

/-- The entry under a key at an instant, unless it has expired. -/
def live (now : ℚ) (r : Redis) (key : Str) : Option Entry :=
  (r key).filter fun e => e.expires.all fun t => decide (now < t)

def put (r : Redis) (key : Str) (e : Entry) : Redis := fun k => if k = key then some e else r k

/-- `DEL`, and what an eviction or an early expiry does. -/
def drop (r : Redis) (keys : List Str) : Redis := fun k => if k ∈ keys then none else r k

/-! ## Commands -/

def get (now : ℚ) (key : Str) (r : Redis) : Except Exc (Option Raw) × Redis :=
  match r.live now key with
  | none => (.ok none, r)
  | some ⟨.str s, _⟩ => (.ok (some s), r)
  | some ⟨.int n, _⟩ => (.ok (some (.text (intText n))), r)
  | some ⟨.list _, _⟩ => (.error wrongType, r)

/-- `SET key val EX ex`. -/
def set (now : ℚ) (key val : Str) (ex : Int) (r : Redis) : Except Exc Unit × Redis :=
  if 0 < ex then (.ok (), r.put key ⟨.str (.text val), some (now + ex)⟩) else (.error wrongType, r)

def delete (keys : List Str) (r : Redis) : Except Exc Unit × Redis := (.ok (), r.drop keys)

/-- `INCR`: a key that is absent counts from zero; one that exists keeps its expiry. -/
def incr (now : ℚ) (key : Str) (r : Redis) : Except Exc Int × Redis :=
  match r.live now key with
  | none => (.ok 1, r.put key ⟨.int 1, none⟩)
  | some ⟨.int n, t⟩ => (.ok (n + 1), r.put key ⟨.int (n + 1), t⟩)
  | some _ => (.error wrongType, r)

/-- `EXPIRE`: a lifetime that is not positive deletes the key. -/
def expire (now : ℚ) (key : Str) (ttl : Int) (r : Redis) : Redis :=
  match r.live now key with
  | none => r
  | some e => if 0 < ttl then r.put key { e with expires := some (now + ttl) } else r.drop [key]

/-- `INCR` and `EXPIRE` of one pipeline. -/
def incrExpire (now : ℚ) (key : Str) (ttl : Int) (r : Redis) : Except Exc Int × Redis :=
  ((incr now key r).1, expire now key ttl (incr now key r).2)

/-- `LPUSH` and `LTRIM 0 stop` of one pipeline. -/
def pushTrim (now : ℚ) (key val : Str) (stop : Int) (r : Redis) : Except Exc Unit × Redis :=
  match r.live now key with
  | none => (.ok (), r.put key ⟨.list ([val].take (stop + 1).toNat), none⟩)
  | some ⟨.list l, t⟩ => (.ok (), r.put key ⟨.list ((val :: l).take (stop + 1).toNat), t⟩)
  | some _ => (.error wrongType, r)

/-- `LRANGE 0 stop`. -/
def lrange (now : ℚ) (key : Str) (stop : Int) (r : Redis) : Except Exc (List Str) × Redis :=
  match r.live now key with
  | none => (.ok [], r)
  | some ⟨.list l, _⟩ => (.ok (l.take (stop + 1).toNat), r)
  | some _ => (.error wrongType, r)

/-! ## Faults -/

/-- The command was lost, or its answer was: either way the client raises. -/
inductive Fault where
  | lost (cls : Str)
  | late (cls : Str)

def faulty {α : Type} (f : Option Fault) (cmd : Redis → Except Exc α × Redis) (r : Redis) : Except Exc α × Redis :=
  match f with
  | none => cmd r
  | some (.lost cls) => (.error (.redisError cls), r)
  | some (.late cls) => (.error (.redisError cls), (cmd r).2)

@[simp] theorem faulty_none {α : Type} (cmd : Redis → Except Exc α × Redis) (r : Redis) : faulty none cmd r = cmd r := rfl

theorem faulty_cases {α : Type} (f : Option Fault) (cmd : Redis → Except Exc α × Redis) (r : Redis) :
    faulty f cmd r = cmd r ∨
      ∃ cls, (faulty f cmd r).1 = .error (.redisError cls) ∧ ((faulty f cmd r).2 = r ∨ (faulty f cmd r).2 = (cmd r).2) := by
  match f with
  | none => exact .inl rfl
  | some (.lost cls) => exact .inr ⟨cls, rfl, .inl rfl⟩
  | some (.late cls) => exact .inr ⟨cls, rfl, .inr rfl⟩

/-! ## What is under a key afterwards -/

variable {now : ℚ} {r : Redis} {key k : Str}

theorem live_some {e : Entry} (h : r.live now k = some e) : r k = some e := (Option.filter_eq_some_iff.mp h).1

theorem drop_some {keys : List Str} {e : Entry} (h : r.drop keys k = some e) : r k = some e := by
  unfold drop at h
  split at h
  · cases h
  · exact h

@[simp] theorem put_self (e : Entry) : r.put key e key = some e := if_pos rfl

@[simp] theorem put_ne (e : Entry) (h : k ≠ key) : r.put key e k = r k := if_neg h

theorem put_some {e e' : Entry} (h : r.put key e' k = some e) : r k = some e ∨ k = key ∧ e = e' := by
  unfold put at h
  split at h
  · exact .inr ⟨by assumption, (Option.some.inj h).symm⟩
  · exact .inl h

/-- Reading leaves every key as it is. -/
theorem get_snd : (get now key r).2 = r := by
  unfold get
  split <;> rfl

theorem lrange_snd {stop : Int} : (lrange now key stop r).2 = r := by
  unfold lrange
  split <;> rfl

theorem set_some {val : Str} {ex : Int} {e : Entry} (h : (set now key val ex r).2 k = some e) :
    r k = some e ∨ k = key ∧ e = ⟨.str (.text val), some (now + ex)⟩ := by
  unfold set at h
  split at h
  · exact put_some h
  · exact .inl h

theorem incr_some {e : Entry} (h : (incr now key r).2 k = some e) : r k = some e ∨ k = key := by
  unfold incr at h
  split at h
  · exact (put_some h).imp_right And.left
  · exact (put_some h).imp_right And.left
  · exact .inl h

theorem expire_some {ttl : Int} {e : Entry} (h : expire now key ttl r k = some e) : r k = some e ∨ k = key := by
  rcases hl : r.live now key with _ | e'
  · simp only [expire, hl] at h
    exact .inl h
  · simp only [expire, hl] at h
    split at h
    · exact (put_some h).imp_right And.left
    · exact .inl (drop_some h)

theorem incrExpire_some {ttl : Int} {e : Entry} (h : (incrExpire now key ttl r).2 k = some e) :
    r k = some e ∨ k = key := by
  rcases expire_some h with h | h
  · exact incr_some h
  · exact .inr h

theorem pushTrim_some {val : Str} {stop : Int} {e : Entry} (h : (pushTrim now key val stop r).2 k = some e) :
    r k = some e ∨ k = key := by
  unfold pushTrim at h
  split at h
  · exact (put_some h).imp_right And.left
  · exact (put_some h).imp_right And.left
  · exact .inl h

/-! ## Counters -/

/-- A counter at `n` that has not expired; one at 0 is absent. -/
def Counter (r : Redis) (now : ℚ) (key : Str) (n : Int) : Prop :=
  (r key = none ∧ n = 0) ∨ ∃ t, r key = some ⟨.int n, some t⟩ ∧ now < t

/-- `INCR` and `EXPIRE` of a counter count one more, and let it live for `ttl`. -/
theorem incrExpire_counter {ttl n : Int} (httl : 0 < ttl) (h : Counter r now key n) :
    (incrExpire now key ttl r).1 = .ok (n + 1) ∧
      (incrExpire now key ttl r).2 key = some ⟨.int (n + 1), some (now + ttl)⟩ ∧
      ∀ k, k ≠ key → (incrExpire now key ttl r).2 k = r k := by
  -- after `INCR` the counter is at `n + 1` and alive
  have hincr : ∃ t : Option ℚ, incr now key r = (.ok (n + 1), r.put key ⟨.int (n + 1), t⟩) ∧ t.all (fun t => decide (now < t)) = true := by
    rcases h with ⟨h, rfl⟩ | ⟨t, h, ht⟩
    · refine ⟨none, ?_, rfl⟩
      rw [incr, show r.live now key = none by rw [live, h]; rfl]
      rfl
    · refine ⟨some t, ?_, by simpa using ht⟩
      rw [incr, show r.live now key = some ⟨.int n, some t⟩ by rw [live, h]; simp [ht]]
  obtain ⟨t, hincr, ht⟩ := hincr
  have hlive : (r.put key ⟨.int (n + 1), t⟩).live now key = some ⟨.int (n + 1), t⟩ := by
    rw [live, put_self, Option.filter_some, if_pos ht]
  simp only [incrExpire, expire, hincr, hlive, if_pos httl, put_self, true_and]
  intro k hk
  rw [put_ne _ hk, put_ne _ hk]

/-! ## What is answered -/

/-- Every error is a `RedisError`. -/
def Answers {α : Type} (a : Except Exc α) : Prop := ∀ e, a = .error e → e.isRedisError = true

theorem answers_ok {α : Type} (a : α) : Answers (.ok a : Except Exc α) := by
  intro e h
  cases h

theorem answers_error {α : Type} (cls : Str) : Answers (.error (.redisError cls) : Except Exc α) := by
  intro e h
  cases h
  rfl

theorem answers_faulty {α : Type} {cmd : Redis → Except Exc α × Redis} (h : ∀ r, Answers (cmd r).1) (f : Option Fault)
    (r : Redis) : Answers (faulty f cmd r).1 := by
  rcases faulty_cases f cmd r with e | ⟨cls, e, -⟩
  · rw [e]; exact h r
  · rw [e]; exact answers_error cls

theorem answers_get : Answers (get now key r).1 := by
  unfold get
  split
  · exact answers_ok _
  · exact answers_ok _
  · exact answers_ok _
  · exact answers_error _

theorem answers_set {val : Str} {ex : Int} : Answers (set now key val ex r).1 := by
  unfold set
  split
  · exact answers_ok _
  · exact answers_error _

theorem answers_incr : Answers (incr now key r).1 := by
  unfold incr
  split
  · exact answers_ok _
  · exact answers_ok _
  · exact answers_error _

theorem answers_incrExpire {ttl : Int} : Answers (incrExpire now key ttl r).1 := answers_incr

theorem answers_pushTrim {val : Str} {stop : Int} : Answers (pushTrim now key val stop r).1 := by
  unfold pushTrim
  split
  · exact answers_ok _
  · exact answers_ok _
  · exact answers_error _

/-- A string that is read is the one that was stored, or a counter's numeral. -/
theorem get_ok {raw : Raw} (h : (get now key r).1 = .ok (some raw)) :
    ∃ e, r.live now key = some e ∧ (e.val = .str raw ∨ ∃ n, e.val = .int n ∧ raw = .text (intText n)) := by
  unfold get at h
  split at h
  · cases h
  · rename_i s t hl
    cases h
    exact ⟨_, hl, .inl rfl⟩
  · rename_i n t hl
    cases h
    exact ⟨_, hl, .inr ⟨n, rfl, rfl⟩⟩
  · cases h

end Redis

end CivicPulse
