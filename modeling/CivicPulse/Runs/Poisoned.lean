/-
  CivicPulse.Runs.Poisoned — one triage call that finds anything at all under its cache key.

  What `GET` answers is read in two steps: `json.loads`, outside any handler, then the
  subscripts and the validator, inside one that takes a `KeyError` or a `ValueError` for a
  poisoned entry. `judge` is the verdict; a call follows it (`fromCache_alone`), and without
  an entry it can use asks the provider and caches the answer (`miss_alone`).
  - `judge_cases`: which content raises, which is taken for none, and which is a hit.
  - `poisoned_iff`: the call survives the content, and replaces it unless it is valid,
    exactly when the content is `null` or an object, where it is JSON at all.
  - `poisoned_raises`: a list under the key is an HTTP 500.
-/

import CivicPulse.Runs.TriageCalls
import CivicPulse.Services.Alone

namespace CivicPulse.Lookup

open Text Lang

section

variable [Platform]

/-! ## The verdict on an entry -/

/-- The content is no JSON, or JSON that is neither `null` nor an object. -/
def Unreadable (a : Except Exc (Option Raw)) : Prop :=
  ∃ raw, a = .ok (some raw) ∧ ∀ j, JsonCache.loadsRaw raw = .ok j → j ≠ .null ∧ ∀ l, j ≠ .obj l

/-- The content is an object with a valid `result` and a `triaged_by`. -/
def Valid (a : Except Exc (Option Raw)) (r : TriageResult) (triagedBy : Json) : Prop :=
  ∃ raw l j, a = .ok (some raw) ∧ JsonCache.loadsRaw raw = .ok (.obj l) ∧ Json.lookup "result".toList l = some j ∧
    TriageResult.modelValidate j = .ok r ∧ Json.lookup "triaged_by".toList l = some triagedBy

theorem decode_valid {l : List (List CodePoint × Json)} {j t : Json} {r : TriageResult}
    (hr : Json.lookup "result".toList l = some j) (hv : TriageResult.modelValidate j = .ok r)
    (ht : Json.lookup "triaged_by".toList l = some t) : decode (.obj l) = .ok (r, t) := by
  simp only [decode_eq, subscript, hr, ht, Except.bind, hv]

/-- Reading an object's items gives a result, or an exception that is handled. -/
theorem decode_obj (l : List (List CodePoint × Json)) :
    (∃ r t j, decode (.obj l) = .ok (r, t) ∧ Json.lookup "result".toList l = some j ∧
      TriageResult.modelValidate j = .ok r ∧ Json.lookup "triaged_by".toList l = some t) ∨
      ∃ e, decode (.obj l) = .error e ∧ e.isKeyOrValueError = true := by
  rcases hr : Json.lookup "result".toList l with _ | j
  · exact .inr ⟨.keyError, by simp only [decode_eq, subscript, hr, Except.bind], rfl⟩
  rcases hv : TriageResult.modelValidate j with e | r
  · exact .inr ⟨e, by simp only [decode_eq, subscript, hr, Except.bind, hv], by rw [TriageResult.modelValidate_error hv]; rfl⟩
  rcases ht : Json.lookup "triaged_by".toList l with _ | t
  · exact .inr ⟨.keyError, by simp only [decode_eq, subscript, hr, Except.bind, hv, ht], rfl⟩
  · exact .inl ⟨r, t, j, decode_valid hr hv ht, rfl, hv, rfl⟩

omit [Platform] in
theorem subscript_error (key : Str) {j : Json} (h : ∀ l, j ≠ .obj l) : subscript key j = .error .typeError := by
  unfold subscript
  split
  · exact absurd rfl (h _)
  · rfl

/-- Subscripting anything else raises a `TypeError`. -/
theorem decode_other {j : Json} (h : ∀ l, j ≠ .obj l) : decode j = .error .typeError := by
  rw [decode_eq, subscript_error _ h]
  rfl

/-- The verdict, by what the content is. -/
theorem judge_cases (a : Except Exc (Option Raw)) :
    (Unreadable a ∧ ∃ e, judge a = .error e) ∨ (¬ Unreadable a ∧ (∀ r t, ¬ Valid a r t) ∧ judge a = .ok none) ∨
      ¬ Unreadable a ∧ ∃ r t, Valid a r t ∧ judge a = .ok (some (r, t)) := by
  rcases a with e | _ | raw
  · refine .inr (.inl ⟨fun h => ?_, fun r t h => ?_, rfl⟩)
    · obtain ⟨raw, ha, -⟩ := h
      cases ha
    · obtain ⟨raw, l, j, ha, -⟩ := h
      cases ha
  · refine .inr (.inl ⟨fun h => ?_, fun r t h => ?_, rfl⟩)
    · obtain ⟨raw, ha, -⟩ := h
      cases ha
    · obtain ⟨raw, l, j, ha, -⟩ := h
      cases ha
  rcases hload : JsonCache.loadsRaw raw with e | j
  · -- no JSON
    refine .inl ⟨⟨raw, rfl, fun j hj => by rw [hload] at hj; cases hj⟩, e, ?_⟩
    rw [judge, readAnswer, hload]
  have hread : (j = .null ∨ ∃ l, j = .obj l) → ¬ Unreadable (.ok (some raw)) := by
    intro hj h
    obtain ⟨raw', ha, hno⟩ := h
    obtain rfl : raw = raw' := by simpa using ha
    obtain ⟨h1, h2⟩ := hno j hload
    rcases hj with hj | ⟨l, hj⟩
    · exact h1 hj
    · exact h2 l hj
  have hvalid : ∀ {r t}, Valid (.ok (some raw)) r t → ∃ l jr, j = .obj l ∧ Json.lookup "result".toList l = some jr ∧
      TriageResult.modelValidate jr = .ok r ∧ Json.lookup "triaged_by".toList l = some t := by
    intro r t h
    obtain ⟨raw', l, jr, ha, hl, h⟩ := h
    obtain rfl : raw = raw' := by simpa using ha
    rw [hload] at hl
    exact ⟨l, jr, Except.ok.inj hl, h⟩
  by_cases hnull : j = .null
  · refine .inr (.inl ⟨hread (.inl hnull), fun r t h => ?_, ?_⟩)
    · obtain ⟨l, jr, hj, -⟩ := hvalid h
      rw [hnull] at hj
      cases hj
    · subst hnull
      rw [judge, readAnswer, hload]
  by_cases hobj : ∃ l, j = .obj l
  · obtain ⟨l, rfl⟩ := hobj
    rcases decode_obj l with ⟨r, t, jr, hd, hr, hv, ht⟩ | ⟨e, hd, he⟩
    · refine .inr (.inr ⟨hread (.inr ⟨l, rfl⟩), r, t, ⟨raw, l, jr, rfl, hload, hr, hv, ht⟩, ?_⟩)
      rw [judge_loaded hload hnull, hd, salvage]
    · refine .inr (.inl ⟨hread (.inr ⟨l, rfl⟩), fun r t h => ?_, ?_⟩)
      · obtain ⟨l', jr, hl, hr, hv, ht⟩ := hvalid h
        obtain rfl := Json.obj.inj hl
        rw [decode_valid hr hv ht] at hd
        cases hd
      · rw [judge_loaded hload hnull, hd, salvage, if_pos he]
  · have hother : ∀ l, j ≠ .obj l := fun l hl => hobj ⟨l, hl⟩
    refine .inl ⟨⟨raw, rfl, fun j' hj' => ?_⟩, .typeError, ?_⟩
    · rw [hload] at hj'
      obtain rfl := Except.ok.inj hj'
      exact ⟨hnull, hother⟩
    · rw [judge_loaded hload hnull, decode_other hother, salvage]
      rfl

/-! ## The lookup -/

/-- How the lookup ends on a verdict. -/
def Looked (v : Except Exc (Option (TriageResult × Json))) (r : Except Exc (Option TriageOutcome)) : Prop :=
  match v with
  | .error e => r = .error e
  | .ok none => r = .ok none
  | .ok (some p) => ∃ latency, r = .ok (some ⟨some p.1, p.2, latency, false, true, none⟩)

variable {E : Env} {i : Nat} {w : World}

/-- The handled block, on an entry that was loaded. -/
theorem salvage_alone (id key : Str) (started : ℚ) (cached : Json) (w : World) :
    wp (machine E) i
      (tryCatch
        (do
          let outcome ← TriageService.outcomeOf started cached
          JsonCache.incr HITS_KEY
          return some (← TriageService.record id outcome))
        fun e => do
          if e.isKeyOrValueError then
            JsonCache.delete [key]
            return none
          else throw e) (fun r _ => Looked (salvage (decode cached)) r) w := by
  rw [wp_tryCatch, outcomeOf_decode, wp_bind]
  rcases decode cached with e | p
  · rw [ofExcept_error, Prog.raise_bind, wp_raise, Post.bind, Post.handle, salvage]
    split
    · rw [wp_bind]
      refine wp_mono (fun r w' h => ?_) (delete_alone [key] w)
      rw [h.1]
      exact rfl
    · exact rfl
  · rw [ofExcept_ok, Prog.ret_bind, TriageService.ms, Prog.op_bind, wp_op, Prog.ret_bind, wp_ret, Post.bind, wp_bind]
    refine wp_mono (fun r w' h => ?_) (incr_alone HITS_KEY _)
    rw [h, Post.bind, wp_bind]
    refine wp_mono (fun r w' h => ?_) (record_alone id _ _)
    rw [h]
    exact ⟨_, rfl⟩

theorem fromCache_alone (id key : Str) (started : ℚ) (w : World) :
    wp (machine E) i (TriageService.fromCache id key started)
      (fun r _ => Looked (judge (World.exec E i (.get key) w).1) r) w := by
  rw [TriageService.fromCache, wp_bind]
  refine wp_mono (fun r w' h => ?_) (get_alone key w)
  generalize (World.exec E i (.get key) w).1 = a at h ⊢
  subst h
  rw [judge]
  rcases readAnswer a with e | j
  · exact rfl
  · cases j with
    | null => exact rfl
    | bool b => exact salvage_alone (E := E) (i := i) id key started (.bool b) w'
    | int n => exact salvage_alone (E := E) (i := i) id key started (.int n) w'
    | float x => exact salvage_alone (E := E) (i := i) id key started (.float x) w'
    | str s => exact salvage_alone (E := E) (i := i) id key started (.str s) w'
    | arr l => exact salvage_alone (E := E) (i := i) id key started (.arr l) w'
    | obj l => exact salvage_alone (E := E) (i := i) id key started (.obj l) w'

/-! ## The miss -/

/-- The provider's answer, not from the cache. -/
def Fresh (svc : TriageService) (result : TriageResult) (o : TriageOutcome) : Prop :=
  ∃ latency, o = ⟨some result, text svc.provider.name, latency, false, false, none⟩

/-- The key holds the provider's answer, put there no earlier than `since`. -/
def Refilled (svc : TriageService) (result : TriageResult) (key : Str) (since : ℚ) (w : World) : Prop :=
  ∃ at_, since ≤ at_ ∧ at_ ≤ w.clock ∧
    w.redis key = some ⟨.str (.text (TriageService.entry result svc.provider.name).dumps), some (at_ + svc.ttl)⟩

/-- The provider's answer is cached and returned. -/
theorem askProvider_alone {svc : TriageService} {key t l : Str} {result : TriageResult} (started : ℚ)
    (hp : ∀ a, Replies E svc.provider t l a → a = .ok (some result)) (hf : E.Healthy) (w : World) :
    wp (machine E) i (svc.askProvider key started t l) (fun r w' => ∃ o, r = .ok o ∧ Fresh svc result o ∧
      (0 < svc.ttl → Refilled svc result key w.clock w')) w := by
  have hans : (World.exec E i (.triage .primary svc.provider t l) w).1 = .ok (some result) := by
    refine hp _ ?_
    rcases svc.provider with _ | name
    · exact World.exec_rules .primary t l
    · exact ⟨w.ticks, rfl⟩
  rw [TriageService.askProvider, TriageService.call, Prog.op_bind, wp_op, hans, ofExcept_ok, Prog.ret_bind, TriageService.ms,
    Prog.op_bind, wp_op, Prog.ret_bind, ofExcept_ok, Prog.ret_bind, wp_bind]
  refine wp_mono (fun r w' h => ?_) (set_alone key _ svc.ttl _)
  obtain ⟨rfl, h⟩ := h
  refine ⟨_, rfl, ⟨_, rfl⟩, fun httl => ?_⟩
  have hw := h (hf _) httl
  have hclock : w.clock ≤ w'.clock := by
    rw [hw]
    exact ((World.clock_le_exec _).trans (World.clock_le_exec _)).trans (World.clock_le_exec _)
  refine ⟨w'.clock, hclock, le_refl _, ?_⟩
  rw [hw]
  exact World.set_healthy (hf _) httl

theorem key_ne (t l : Str) : cacheKey t l ≠ RECENT_KEY := by
  intro h
  have hpre : CACHE_PREFIX <+: RECENT_KEY := h ▸ List.prefix_append _ _
  exact absurd hpre (by decide)

/-- A call without an entry it can use. -/
theorem miss_alone {svc : TriageService} {t l : Str} {result : TriageResult} (id : Str) (started : ℚ)
    (hp : ∀ a, Replies E svc.provider t l a → a = .ok (some result)) (hf : E.Healthy)
    (hkeep : ∀ n, cacheKey t l ∉ E.evict n) (w : World) :
    wp (machine E) i (do
      JsonCache.incr MISSES_KEY
      let outcome ← svc.ask id (cacheKey t l) started t l
      TriageService.record id outcome) (fun r w' => ∃ o, r = .ok o ∧ Fresh svc result o ∧
        (0 < svc.ttl → Refilled svc result (cacheKey t l) w.clock w')) w := by
  rw [wp_bind]
  refine wp_mono (fun r w₁ h => ?_) (wp_and (incr_alone MISSES_KEY w) (clock_le_alone _ w))
  obtain ⟨rfl, h₁⟩ := h
  rw [Post.bind, wp_bind, TriageService.ask, wp_tryCatch]
  refine wp_mono (fun r w₂ h => ?_) (askProvider_alone started hp hf w₁)
  obtain ⟨o, rfl, ho, h₂⟩ := h
  rw [Post.handle, Post.bind]
  have hrecord : (TriageService.record id o).Uses fun op => ¬ Op.Touches (cacheKey t l) op :=
    TriageService.uses_record (fun h => h) (fun _ _ => key_ne t l) id o
  refine wp_mono (fun r w₃ h => ?_)
    (wp_and (record_alone id o w₂) (wp_and (clock_le_alone _ w₂) (untouched_alone hkeep hrecord w₂)))
  obtain ⟨rfl, h₃, hkey⟩ := h
  refine ⟨o, rfl, ho, fun httl => ?_⟩
  obtain ⟨at_, hlo, hhi, he⟩ := h₂ httl
  exact ⟨at_, h₁.trans hlo, hhi.trans h₃, by rw [hkey, he]⟩

/-! ## The call -/

/-- What `GET` answers a call that begins in `w`. -/
def content (E : Env) (w : World) (key : Str) : Except Exc (Option Raw) :=
  (Redis.get (w.clock + E.delay w.ticks + E.delay (w.ticks + 1)) key w.redis).1

/-- How a call ends on a verdict. -/
def Answered (svc : TriageService) (result : TriageResult) (key : Str) (w : World)
    (v : Except Exc (Option (TriageResult × Json))) (r : Except Exc TriageOutcome) (w' : World) : Prop :=
  match v with
  | .error e => r = .error e
  | .ok none => ∃ o, r = .ok o ∧ Fresh svc result o ∧ (0 < svc.ttl → Refilled svc result key w.clock w')
  | .ok (some p) => ∃ latency, r = .ok ⟨some p.1, p.2, latency, false, true, none⟩

theorem triage_alone {svc : TriageService} {t l : Str} {result : TriageResult} (id : Str)
    (hp : ∀ a, Replies E svc.provider t l a → a = .ok (some result)) (hf : E.Healthy)
    (hkeep : ∀ n, cacheKey t l ∉ E.evict n) (w : World) :
    wp (machine E) i (svc.triage id t l)
      (Answered svc result (cacheKey t l) w (judge (content E w (cacheKey t l)))) w := by
  have hget : (World.exec E i (.get (cacheKey t l)) (World.exec E i .perfCounter w).2).1 = content E w (cacheKey t l) := by
    rw [World.get_healthy (hf _) (hkeep _)]
    exact Redis.get_congr (World.exec_untouched (hkeep _) (fun h => h))
  rw [TriageService.triage, wp_op, wp_bind]
  refine wp_mono (fun r w₁ h => ?_) (wp_and (fromCache_alone (E := E) (i := i) id (cacheKey t l) _ (World.exec E i .perfCounter w).2)
    (clock_le_alone _ _))
  obtain ⟨hlook, hclock⟩ := h
  rw [hget] at hlook
  have hclock : w.clock ≤ w₁.clock := (World.clock_le_exec _).trans hclock
  rcases hv : judge (content E w (cacheKey t l)) with e | _ | p
  · rw [hv] at hlook
    obtain rfl : r = .error e := hlook
    exact rfl
  · rw [hv] at hlook
    obtain rfl : r = .ok none := hlook
    show wp (machine E) i (JsonCache.incr MISSES_KEY >>= fun _ =>
      svc.ask id (cacheKey t l) (World.exec E i .perfCounter w).1 t l >>= TriageService.record id)
      (Answered svc result (cacheKey t l) w (.ok none)) w₁
    refine wp_mono (fun r w' h => ?_) (miss_alone id _ hp hf hkeep w₁)
    obtain ⟨o, ho, hfresh, hfill⟩ := h
    refine ⟨o, ho, hfresh, fun httl => ?_⟩
    obtain ⟨at_, hlo, h⟩ := hfill httl
    exact ⟨at_, hclock.trans hlo, h⟩
  · rw [hv] at hlook
    obtain ⟨latency, rfl⟩ := hlook
    exact ⟨latency, rfl⟩

/-- The call returns; unless the entry is valid it returns what it would without the entry
    (at its own speed), and the key then holds the provider's answer. -/
def Survives (E : Env) (i : Nat) (svc : TriageService) (id t l : Str) (result : TriageResult) (w : World) : Prop :=
  ∃ o w', (svc.triage id t l).run (machine E) i w = (.ok o, w') ∧
    ((∀ r by_, ¬ Valid (content E w (cacheKey t l)) r by_) →
      Fresh svc result o ∧ (0 < svc.ttl → Refilled svc result (cacheKey t l) w.clock w') ∧
      ∃ o₀ w₀, (svc.triage id t l).run (machine E) i { w with redis := w.redis.drop [cacheKey t l] } = (.ok o₀, w₀) ∧
        { o₀ with latencyMs := o.latencyMs } = o)

omit [Platform] in
theorem content_empty (key : Str) : content E { w with redis := w.redis.drop [key] } key = .ok none := by
  have hnone : (w.redis.drop [key]) key = none := if_pos (List.mem_singleton_self key)
  show (Redis.get _ key (w.redis.drop [key])).1 = _
  rw [Redis.get, Redis.live, hnone]
  rfl

/-- Whatever is under a call's key, a call with a provider that answers survives it exactly
    when it is JSON `null` or an object, where it is a string at all. -/
theorem poisoned_iff {svc : TriageService} {t l : Str} {result : TriageResult} (i : Nat) (id : Str)
    (hp : ∀ a, Replies E svc.provider t l a → a = .ok (some result)) (hf : E.Healthy)
    (hkeep : ∀ n, cacheKey t l ∉ E.evict n) (w : World) :
    Survives E i svc id t l result w ↔ ¬ Unreadable (content E w (cacheKey t l)) := by
  have hrun := triage_alone (i := i) id hp hf hkeep w
  rcases judge_cases (content E w (cacheKey t l)) with ⟨hun, e, hv⟩ | ⟨hread, -, hv⟩ | ⟨hread, r, by_, hvalid, hv⟩
  · rw [hv] at hrun
    refine iff_of_false (fun h => ?_) (fun h => h hun)
    obtain ⟨o, w', hok, -⟩ := h
    rw [wp, hok] at hrun
    cases hrun
  · rw [hv] at hrun
    obtain ⟨o, ho, ⟨latency, rfl⟩, hfill⟩ := hrun
    have hempty := triage_alone (i := i) id hp hf hkeep { w with redis := w.redis.drop [cacheKey t l] }
    rw [content_empty] at hempty
    obtain ⟨o₀, ho₀, ⟨latency₀, rfl⟩, -⟩ := hempty
    exact iff_of_true ⟨_, _, Prod.ext ho rfl, fun _ => ⟨⟨latency, rfl⟩, hfill, _, _, Prod.ext ho₀ rfl, rfl⟩⟩ hread
  · rw [hv] at hrun
    obtain ⟨latency, ho⟩ := hrun
    exact iff_of_true ⟨_, _, Prod.ext ho rfl, fun h => absurd hvalid (h r by_)⟩ hread

end

/-! ## Two entries -/

/-- A Redis that holds this value under the key of a complaint, and nothing else. -/
def holding (j : Json) : World :=
  { World.initial .empty with
    redis := Redis.put (fun _ => none) (@cacheKey .ascii "broken street lamp".toList "sector g-11".toList)
      ⟨.str (.text j.dumps), none⟩ }

theorem get_put (now : ℚ) (r : Redis) (key : Str) (s : Raw) :
    (Redis.get now key (r.put key ⟨.str s, none⟩)).1 = .ok (some s) := by
  rw [Redis.get, Redis.live, Redis.put_self]
  rfl

theorem content_holding (j : Json) : content (.calm fun _ _ _ => .error .triageTimeout) (holding j)
    (@cacheKey .ascii "broken street lamp".toList "sector g-11".toList) = .ok (some (.text j.dumps)) := get_put _ _ _ _

theorem loads_holding [Platform] {j : Json} (hplain : j.plain = true) (hdepth : j.depth ≤ 100) :
    JsonCache.loadsRaw (.text j.dumps) = .ok j :=
  JsonCache.loadsRaw_dumps hplain (hdepth.trans Platform.recursionLimit_ge)

/-- The rules answer the complaint. -/
theorem rules_reply : ∃ result, ∀ a, @Replies .ascii (.calm fun _ _ _ => .error .triageTimeout) .rules
    "broken street lamp".toList "sector g-11".toList a → a = .ok (some result) := by
  have hsome : (@Rules.triage .ascii "broken street lamp".toList "sector g-11".toList).toOption.isSome = true := by
    decide +kernel
  rcases hr : @Rules.triage .ascii "broken street lamp".toList "sector g-11".toList with e | result
  · rw [hr] at hsome
    cases hsome
  · refine ⟨result, fun a ha => ?_⟩
    rw [show a = (@Rules.triage .ascii "broken street lamp".toList "sector g-11".toList).map some from ha, hr]
    rfl

/-- An object without a `triaged_by` is dropped and replaced. -/
theorem poisoned_iff_partial : ∃ result, @Survives .ascii (.calm fun _ _ _ => .error .triageTimeout) 0
    ⟨.rules, .rules, 86400⟩ [] "broken street lamp".toList "sector g-11".toList result
    (holding (.obj [(codes "result".toList, .int 1)])) := by
  obtain ⟨result, hp⟩ := rules_reply
  refine ⟨result, (@poisoned_iff .ascii (.calm fun _ _ _ => .error .triageTimeout) ⟨.rules, .rules, 86400⟩ _ _ result 0 [] hp
    (fun _ => rfl) (fun _ h => by cases h) _).mpr fun h => ?_⟩
  obtain ⟨raw, hraw, hno⟩ := h
  rw [content_holding] at hraw
  obtain rfl : _ = raw := Option.some.inj (Except.ok.inj hraw)
  exact (hno _ (@loads_holding .ascii _ (by decide) (by decide))).2 _ rfl

/-- A list is fatal. -/
theorem poisoned_raises : ∃ w', (@TriageService.triage .ascii ⟨.rules, .rules, 86400⟩ [] "broken street lamp".toList
    "sector g-11".toList).run (@machine .ascii (.calm fun _ _ _ => .error .triageTimeout)) 0 (holding (.arr [.int 1])) =
    (.error .typeError, w') := by
  obtain ⟨result, hp⟩ := rules_reply
  have hrun := @triage_alone .ascii (.calm fun _ _ _ => .error .triageTimeout) 0 ⟨.rules, .rules, 86400⟩ _ _ result [] hp
    (fun _ => rfl) (fun _ h => by cases h) (holding (.arr [.int 1]))
  have hjudge : @judge .ascii (.ok (some (.text (Json.arr [.int 1]).dumps))) = .error .typeError := by
    rw [@judge_loaded .ascii _ _ (@loads_holding .ascii _ (by decide) (by decide)) (fun h => by cases h),
      @decode_other .ascii _ fun l h => by cases h]
    rfl
  rw [content_holding, hjudge] at hrun
  exact ⟨_, Prod.ext hrun rfl⟩

end CivicPulse.Lookup
