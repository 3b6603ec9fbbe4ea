/-
  CivicPulse.Services.Walk — the way of a triage call, under any protocol.

  What `GET` answers is judged (`judge`): it is a hit, it is no entry, or it raises. The
  rest of a call is a sequence of wrapped commands and provider calls. A protocol for
  triage calls says nothing of warnings and times (`Fits`); `Looks` says what it has to
  allow at the other operations, in the order a call comes to them.
  - `judge_entry`: what a call stores is a hit.
  - `follows_triage`: a call keeps to such a protocol.
-/

import CivicPulse.Services.Triage

namespace CivicPulse

open Text Lang

/-! ## The verdict on an entry -/

namespace Lookup

variable [Platform]

/-- The two subscripts and the validator. -/
def decode (cached : Json) : Except Exc (TriageResult × Json) := do
  let result ← (subscript "result".toList cached).bind TriageResult.modelValidate
  let triagedBy ← subscript "triaged_by".toList cached
  return (result, triagedBy)

/-- `except (KeyError, ValueError)`. -/
def salvage {α : Type} (x : Except Exc α) : Except Exc (Option α) :=
  match x with
  | .ok a => .ok (some a)
  | .error e => if e.isKeyOrValueError then .ok none else .error e

/-- A result to return, none, or an exception that nobody handles. -/
def judge (a : Except Exc (Option Raw)) : Except Exc (Option (TriageResult × Json)) :=
  match readAnswer a with
  | .error e => .error e
  | .ok .null => .ok none
  | .ok cached => salvage (decode cached)

theorem decode_eq (j : Json) : decode j = ((subscript "result".toList j).bind TriageResult.modelValidate).bind fun r =>
    (subscript "triaged_by".toList j).bind fun t => .ok (r, t) := rfl

/-- Only a string is loaded as anything but `null`. -/
theorem readAnswer_some {a : Except Exc (Option Raw)} {j : Json} (h : readAnswer a = .ok j) (hj : j ≠ .null) :
    ∃ raw, a = .ok (some raw) ∧ JsonCache.loadsRaw raw = .ok j := by
  rcases a with e | _ | raw
  · exact absurd (Except.ok.inj h).symm hj
  · exact absurd (Except.ok.inj h).symm hj
  · exact ⟨raw, rfl, h⟩

/-- Where there is no string, or no answer, there is no entry. -/
theorem judge_absent {a : Except Exc (Option Raw)} (h : ∀ raw, a ≠ .ok (some raw)) : judge a = .ok none := by
  rcases a with e | _ | raw
  · rfl
  · rfl
  · exact absurd rfl (h raw)

theorem judge_loaded {raw : Raw} {j : Json} (h : JsonCache.loadsRaw raw = .ok j) (hj : j ≠ .null) :
    judge (.ok (some raw)) = salvage (decode j) := by
  rw [judge, readAnswer, h]
  split
  · rename_i he
    cases he
  · rename_i he
    exact absurd (Except.ok.inj he) hj
  · rename_i he
    rw [Except.ok.inj he]

theorem decode_ok {j : Json} {r : TriageResult} {t : Json} (h : decode j = .ok (r, t)) :
    subscript "triaged_by".toList j = .ok t := by
  rw [decode_eq] at h
  rcases hr : (subscript "result".toList j).bind TriageResult.modelValidate with e | r'
  · rw [hr] at h
    cases h
  · rw [hr] at h
    rcases ht : subscript "triaged_by".toList j with e | t'
    · rw [ht] at h
      cases h
    · rw [ht] at h
      cases h
      rfl

/-- A hit was loaded, with what it names. -/
theorem judge_hit {a : Except Exc (Option Raw)} {r : TriageResult} {t : Json} (h : judge a = .ok (some (r, t))) :
    ∃ raw j, a = .ok (some raw) ∧ JsonCache.loadsRaw raw = .ok j ∧ subscript "triaged_by".toList j = .ok t := by
  unfold judge at h
  split at h
  · cases h
  · cases h
  · rename_i j hj hread
    obtain ⟨raw, rfl, hload⟩ := readAnswer_some hread hj
    refine ⟨raw, j, rfl, hload, decode_ok (r := r) ?_⟩
    unfold salvage at h
    split at h
    · rename_i p hp
      cases h
      exact hp
    · split at h <;> cases h

theorem outcomeOf_decode (started : ℚ) (cached : Json) :
    TriageService.outcomeOf started cached = ofExcept (decode cached) >>= fun p =>
      TriageService.ms started >>= fun latency => .ret ⟨some p.1, p.2, latency, false, true, none⟩ := by
  rw [TriageService.outcomeOf, decode_eq]
  rcases (subscript "result".toList cached).bind TriageResult.modelValidate with e | r
  · rfl
  · rcases subscript "triaged_by".toList cached with e | t <;> rfl

end Lookup

/-! ## Calls -/

structure TriageCall where
  svc : TriageService
  id : Str
  text : Str
  location : Str

namespace TriageCall

variable [Platform]

def code (c : TriageCall) : Code TriageOutcome := c.svc.triage c.id c.text c.location

def key (c : TriageCall) : Str := cacheKey c.text c.location

/-- The provider's answer for the call, as it is cached. -/
def cached (c : TriageCall) (r : TriageResult) : Str := (TriageService.entry r c.svc.provider.name).dumps

end TriageCall

theorem loads_entry [Platform] (c : TriageCall) (r : TriageResult) :
    JsonCache.loadsRaw (.text (c.cached r)) = .ok (TriageService.entry r c.svc.provider.name) := by
  have hplain : (TriageService.entry r c.svc.provider.name).plain = true := by
    simp [TriageService.entry, r.plain_dump, Json.plain, Json.plainMembers, text, Json.codes_scalar]
  have hdepth : (TriageService.entry r c.svc.provider.name).depth ≤ recursionLimit :=
    Nat.le_trans (by simp [TriageService.entry, r.depth_dump, Json.depth, Json.depthMembers, text]) Platform.recursionLimit_ge
  exact JsonCache.loadsRaw_dumps hplain hdepth

/-- An entry reads back as the answer and the provider's name. -/
theorem judge_entry [Platform] (c : TriageCall) (r : TriageResult) :
    Lookup.judge (.ok (some (.text (c.cached r)))) = .ok (some (r, text c.svc.provider.name)) := by
  have hr : (subscript "result".toList (TriageService.entry r c.svc.provider.name)).bind TriageResult.modelValidate = .ok r :=
    r.modelValidate_dump
  have ht : subscript "triaged_by".toList (TriageService.entry r c.svc.provider.name) = .ok (text c.svc.provider.name) := rfl
  rw [Lookup.judge_loaded (loads_entry c r) (fun h => by cases h), Lookup.decode_eq, hr, ht]
  rfl

/-- The provider's attempt failed, with this exception. -/
def Failed (a : Except Exc (Option TriageResult)) (e : Exc) : Prop := a = .error e ∨ (a = .ok none ∧ e = .attributeError)

/-! ## Protocols for triage calls -/

variable {Loc : Type}

/-- Warnings and times are always allowed and no news, the process's clock shows what it
    can, and a Redis command raises nothing but a `RedisError`. -/
structure Fits (T : Protocol sig Loc) (Shows : ℚ → Prop) : Prop where
  warn : ∀ l msg extra, T.Allows l (.warn msg extra) fun _ l' => l' = l
  utcnow : ∀ l, T.Allows l .utcnow fun _ l' => l' = l
  clock : ∀ l, T.Allows l .perfCounter fun (t : ℚ) l' => l' = l ∧ Shows t
  get : ∀ {l k a l'}, T.can l (.get k) → T.step l (.get k) a l' → Redis.Answers a
  set : ∀ {l k v ex a l'}, T.can l (.set k v ex) → T.step l (.set k v ex) a l' → Redis.Answers a
  delete : ∀ {l ks a l'}, T.can l (.delete ks) → T.step l (.delete ks) a l' → Redis.Answers a
  incr : ∀ {l k a l'}, T.can l (.incr k) → T.step l (.incr k) a l' → Redis.Answers a
  push : ∀ {l k v n a l'}, T.can l (.pushTrim k v n) → T.step l (.pushTrim k v n) a l' → Redis.Answers a

/-- A time that was measured. -/
def Took (Shows : ℚ → Prop) (n : Int) : Prop := ∃ s t, Shows s ∧ Shows t ∧ n = truncate ((t - s) * 1000)

section

variable [Platform] (T : Protocol sig Loc) (Shows : ℚ → Prop) (c : TriageCall) (Q : Loc → Except Exc TriageOutcome → Prop)

/-- The outcome may be pushed, and is returned then. -/
def Records (o : TriageOutcome) (l : Loc) : Prop :=
  ∀ at_, T.Allows l (.pushTrim RECENT_KEY (TriageService.recordJson c.id o at_).dumps (RECENT_CAP - 1)) fun _ l' => Q l' (.ok o)

/-- The provider may be asked; its answer may be stored, and after a failure the fallback
    may be asked. -/
def Asks (l : Loc) : Prop :=
  T.Allows l (.triage .primary c.svc.provider c.text c.location) fun a l' =>
    (∀ r, a = .ok (some r) → T.Allows l' (.set c.key (c.cached r) c.svc.ttl) fun _ l'' =>
      ∀ n, Took Shows n → Records T c Q ⟨some r, text c.svc.provider.name, n, false, false, none⟩ l'') ∧
    ∀ e, Failed a e → T.Allows l' (.triage .fallback c.svc.fallback c.text c.location) fun b l'' =>
      (∀ e', b = .error e' → Q l'' (.error e')) ∧
        ∀ r n, b = .ok r → Took Shows n → Records T c Q ⟨r, text FALLBACK_NAME, n, true, false, some e.className⟩ l''

def Misses (l : Loc) : Prop := T.Allows l (.incr MISSES_KEY) fun _ l' => Asks T Shows c Q l'

/-- The key may be looked up. A hit may be counted; an entry that is none may be dropped. -/
def Looks (l : Loc) : Prop :=
  T.Allows l (.get c.key) fun a l' =>
    (∀ e, Lookup.judge a = .error e → Q l' (.error e)) ∧
    (∀ r t, Lookup.judge a = .ok (some (r, t)) → T.Allows l' (.incr HITS_KEY) fun _ l'' =>
      ∀ n, Took Shows n → Records T c Q ⟨some r, t, n, false, true, none⟩ l'') ∧
    (Lookup.judge a = .ok none → Misses T Shows c Q l' ∧
      ∀ raw, a = .ok (some raw) → T.Allows l' (.delete [c.key]) fun _ l'' => Misses T Shows c Q l'')

/-- How the lookup ends: with an outcome that is recorded, with none, or with an exception. -/
def Found : Loc → Except Exc (Option TriageOutcome) → Prop
  | l, .ok none => Misses T Shows c Q l
  | l, .ok (some o) => Q l (.ok o)
  | l, .error e => Q l (.error e)

end

/-! ## The commands -/

section Follows

variable {T : Protocol sig Loc} {Shows : ℚ → Prop} (hT : Fits T Shows) {l : Loc}
include hT

theorem follows_warn {Q : Loc → Except Exc Unit → Prop} (msg : Str) (extra : List (Str × Str)) (hQ : Q l (.ok ())) :
    Follows T Q l (warn msg extra) := by
  refine ⟨(hT.warn l msg extra).1, fun r l' hs => ?_⟩
  obtain rfl := (hT.warn l msg extra).2 r l' hs
  exact hQ

theorem follows_clock {α : Type} {Q : Loc → Except Exc α → Prop} {k : ℚ → Code α} (h : ∀ t, Shows t → Follows T Q l (k t)) :
    Follows T Q l (.op .perfCounter k) := by
  refine ⟨(hT.clock l).1, fun (t : ℚ) l' hs => ?_⟩
  obtain ⟨rfl, ht⟩ := (hT.clock l).2 t l' hs
  exact h t ht

theorem follows_ms {Q : Loc → Except Exc Int → Prop} {started : ℚ} (hs : Shows started)
    (hQ : ∀ n, Took Shows n → Q l (.ok n)) : Follows T Q l (TriageService.ms started) :=
  follows_clock hT fun t ht => hQ _ ⟨started, t, hs, ht, rfl⟩

/-- A wrapped command: whatever Redis answers, `Q` is what comes of it. -/
theorem follows_incr {Q : Loc → Except Exc Unit → Prop} {k : Str} (h : T.Allows l (.incr k) fun _ l' => Q l' (.ok ())) :
    Follows T Q l (JsonCache.incr k) := by
  rw [JsonCache.incr, exceptRedis_op]
  refine ⟨h.1, fun n l' hs => ?_⟩
  cases n with
  | ok n => exact h.2 _ _ hs
  | error e =>
    simp only [ofExcept_error, Prog.map_raise]
    rw [exceptRedis_raise (hT.incr h.1 hs e rfl)]
    exact h.2 _ _ hs

theorem follows_set {Q : Loc → Except Exc Unit → Prop} {k : Str} {v : Json} {ttl : Int}
    (h : T.Allows l (.set k v.dumps ttl) fun _ l' => Q l' (.ok ())) : Follows T Q l (JsonCache.set k v ttl) := by
  rw [JsonCache.set, exceptRedis_op]
  refine ⟨h.1, fun s l' hs => ?_⟩
  cases s with
  | ok _ => exact h.2 _ _ hs
  | error e =>
    simp only [ofExcept_error]
    rw [exceptRedis_raise (hT.set h.1 hs e rfl)]
    exact follows_warn hT _ _ (h.2 _ _ hs)

theorem follows_delete {Q : Loc → Except Exc Unit → Prop} {ks : List Str} (h : T.Allows l (.delete ks) fun _ l' => Q l' (.ok ())) :
    Follows T Q l (JsonCache.delete ks) := by
  rw [JsonCache.delete, exceptRedis_op]
  refine ⟨h.1, fun d l' hs => ?_⟩
  cases d with
  | ok _ => exact h.2 _ _ hs
  | error e =>
    simp only [ofExcept_error]
    rw [exceptRedis_raise (hT.delete h.1 hs e rfl)]
    exact follows_warn hT _ _ (h.2 _ _ hs)

/-- The lookup ends as its answer reads. -/
theorem follows_get [Platform] {Q : Loc → Except Exc Json → Prop} {k : Str}
    (h : T.Allows l (.get k) fun a l' => Q l' (readAnswer a)) : Follows T Q l (JsonCache.get k) := by
  unfold JsonCache.get
  rw [exceptRedis_op, Prog.op_bind]
  refine ⟨h.1, fun a l' hs => ?_⟩
  have hQ : Q l' (readAnswer a) := h.2 a l' hs
  match a, hs, hQ with
  | .ok none, _, hQ => exact hQ
  | .ok (some raw), _, hQ =>
    have hread : readAnswer (.ok (some raw)) = JsonCache.loadsRaw raw := rfl
    rw [hread] at hQ
    show Follows T Q l' (ofExcept (JsonCache.loadsRaw raw))
    rcases hj : JsonCache.loadsRaw raw with e | j
    · rwa [hj] at hQ
    · rwa [hj] at hQ
  | .error e, hs, hQ =>
    simp only [ofExcept_error]
    rw [exceptRedis_raise (hT.get h.1 hs e rfl)]
    exact Follows.bind (Follows.bind (follows_warn hT _ _ hQ))

variable [Platform] {c : TriageCall} {Q : Loc → Except Exc TriageOutcome → Prop}

theorem follows_record {o : TriageOutcome} (h : Records T c Q o l) : Follows T Q l (TriageService.record c.id o) := by
  refine ⟨(hT.utcnow l).1, fun at_ l' hs => ?_⟩
  obtain rfl := (hT.utcnow l).2 at_ l' hs
  refine Follows.bind ?_
  rw [JsonCache.pushCapped, exceptRedis_op]
  refine ⟨(h at_).1, fun u l'' hs => ?_⟩
  cases u with
  | ok _ => exact (h at_).2 _ _ hs
  | error e =>
    simp only [ofExcept_error]
    rw [exceptRedis_raise (hT.push (h at_).1 hs e rfl)]
    exact (h at_).2 _ _ hs

/-! ## The call -/

omit [Platform] in
theorem follows_askFallback {P : Loc → Except Exc TriageOutcome → Prop} {started : ℚ} (hs : Shows started) {e : Exc}
    (h : T.Allows l (.triage .fallback c.svc.fallback c.text c.location) fun b l' =>
      (∀ e', b = .error e' → P l' (.error e')) ∧
        ∀ r n, b = .ok r → Took Shows n → P l' (.ok ⟨r, text FALLBACK_NAME, n, true, false, some e.className⟩)) :
    Follows T P l (c.svc.askFallback c.id started c.text c.location e) := by
  unfold TriageService.askFallback TriageService.call
  refine Follows.bind (follows_warn hT _ _ (Follows.bind ⟨h.1, fun b l' hb => ?_⟩))
  obtain ⟨hfail, hok⟩ := h.2 b l' hb
  cases b with
  | error e' => exact hfail e' rfl
  | ok r => exact Follows.bind (follows_ms hT hs fun n hn => hok r n rfl hn)

/-- The provider is asked, and the fallback when it fails. -/
theorem follows_ask {P : Loc → Except Exc TriageOutcome → Prop} {started : ℚ} (hs : Shows started)
    (h : T.Allows l (.triage .primary c.svc.provider c.text c.location) fun a l' =>
      (∀ r, a = .ok (some r) → T.Allows l' (.set c.key (c.cached r) c.svc.ttl) fun _ l'' =>
        ∀ n, Took Shows n → P l'' (.ok ⟨some r, text c.svc.provider.name, n, false, false, none⟩)) ∧
      ∀ e, Failed a e → Follows T P l' (c.svc.askFallback c.id started c.text c.location e)) :
    Follows T P l (c.svc.ask c.id c.key started c.text c.location) := by
  unfold TriageService.ask TriageService.askProvider TriageService.call
  refine Follows.tryCatch ?_
  rw [Prog.op_bind]
  refine ⟨h.1, fun a l' ha => ?_⟩
  obtain ⟨hok, hfail⟩ := h.2 a l' ha
  match a, hok, hfail with
  | .error e, _, hfail => exact hfail e (.inl rfl)
  | .ok none, _, hfail =>
    simp only [ofExcept_ok, ofExcept_error, Prog.ret_bind, Prog.raise_bind]
    exact Follows.bind (follows_ms hT hs fun _ _ => hfail _ (.inr ⟨rfl, rfl⟩))
  | .ok (some r), hok, _ =>
    simp only [ofExcept_ok, Prog.ret_bind]
    obtain ⟨hcan, hstep⟩ := hok r rfl
    exact Follows.bind (follows_ms hT hs fun n hn => Follows.bind (follows_set hT ⟨hcan, fun s l'' hs => hstep s l'' hs n hn⟩))

/-- What follows a lookup in vain. -/
theorem follows_miss {started : ℚ} (hs : Shows started) (h : Misses T Shows c Q l) : Follows T Q l (do
    JsonCache.incr MISSES_KEY
    let outcome ← c.svc.ask c.id c.key started c.text c.location
    TriageService.record c.id outcome) := by
  refine Follows.bind (follows_incr hT ⟨h.1, fun b l₁ hb => ?_⟩)
  obtain ⟨hcan, hasks⟩ := h.2 b l₁ hb
  refine Follows.bind (follows_ask hT hs ⟨hcan, fun a l₂ ha => ⟨fun r hr => ?_, fun e he => ?_⟩⟩)
  · obtain ⟨hset, hstep⟩ := (hasks a l₂ ha).1 r hr
    exact ⟨hset, fun s l₃ hs n hn => follows_record hT (hstep s l₃ hs n hn)⟩
  · obtain ⟨hfallback, hstep⟩ := (hasks a l₂ ha).2 e he
    refine follows_askFallback hT hs ⟨hfallback, fun d l₃ hd => ⟨(hstep d l₃ hd).1, fun r n hr hn => ?_⟩⟩
    exact follows_record hT ((hstep d l₃ hd).2 r n hr hn)

/-- The handled block, on an entry that was loaded. -/
theorem follows_salvage {started : ℚ} (hs : Shows started) {j : Json}
    (hfatal : ∀ e, Lookup.salvage (Lookup.decode j) = .error e → Q l (.error e))
    (hhit : ∀ r t, Lookup.salvage (Lookup.decode j) = .ok (some (r, t)) → T.Allows l (.incr HITS_KEY) fun _ l' =>
      ∀ n, Took Shows n → Records T c Q ⟨some r, t, n, false, true, none⟩ l')
    (hmiss : Lookup.salvage (Lookup.decode j) = .ok none → T.Allows l (.delete [c.key]) fun _ l' => Misses T Shows c Q l') :
    Follows T (Found T Shows c Q) l
      (tryCatch
        (do
          let outcome ← TriageService.outcomeOf started j
          JsonCache.incr HITS_KEY
          return some (← TriageService.record c.id outcome))
        fun e => do
          if e.isKeyOrValueError then
            JsonCache.delete [c.key]
            return none
          else throw e) := by
  rw [Lookup.outcomeOf_decode]
  refine Follows.tryCatch (Follows.bind ?_)
  rcases hd : Lookup.decode j with e | p
  · rw [hd] at hfatal hmiss
    show Follows T (Found T Shows c Q) l (if e.isKeyOrValueError = true then _ else throw e)
    split
    · rename_i he
      obtain ⟨hcan, hstep⟩ := hmiss (if_pos he)
      exact Follows.bind (follows_delete hT ⟨hcan, hstep⟩)
    · rename_i he
      exact hfatal e (if_neg he)
  · rw [hd] at hhit
    obtain ⟨hcan, hstep⟩ := hhit p.1 p.2 rfl
    rw [ofExcept_ok, Prog.ret_bind]
    refine Follows.bind (follows_ms hT hs fun n hn => ?_)
    refine Follows.bind (follows_incr hT ⟨hcan, fun b l' hb => ?_⟩)
    exact Follows.bind (follows_record hT (hstep b l' hb n hn))

theorem follows_fromCache {started : ℚ} (hs : Shows started) (h : Looks T Shows c Q l) :
    Follows T (Found T Shows c Q) l (TriageService.fromCache c.id c.key started) := by
  unfold TriageService.fromCache
  refine Follows.bind (follows_get hT ⟨h.1, fun a l' ha => ?_⟩)
  obtain ⟨hfatal, hhit, hmiss⟩ := h.2 a l' ha
  rcases hread : readAnswer a with e | j
  · exact hfatal e (by rw [Lookup.judge, hread])
  by_cases hj : j = .null
  · subst hj
    exact (hmiss (by rw [Lookup.judge, hread])).1
  obtain ⟨raw, rfl, hload⟩ := Lookup.readAnswer_some hread hj
  rw [Lookup.judge_loaded hload hj] at hfatal hhit hmiss
  have hsalvage := follows_salvage hT (l := l') (Q := Q) hs hfatal hhit fun hv => (hmiss hv).2 raw rfl
  cases j with
  | null => exact absurd rfl hj
  | _ => exact hsalvage

/-- A call keeps to a protocol that allows what it comes to. -/
theorem follows_triage (h : Looks T Shows c Q l) : Follows T Q l c.code := by
  unfold TriageCall.code TriageService.triage
  refine follows_clock hT fun started hs => Follows.bind (Follows.mono (fun l' r hr => ?_) (follows_fromCache hT hs h))
  rcases r with e | _ | o
  · exact hr
  · exact follows_miss hT hs hr
  · exact hr

end Follows

end CivicPulse
