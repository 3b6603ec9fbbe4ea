/-
  CivicPulse.Runs.Answers — what triage and a get of the statistics answer when Redis
  commands fail, with or without having taken effect.

  The provider is a function of the text and the location. Under the keys of the program is
  what the program has put there, for as long as it has not expired or been lost.
  - `triage_sourced`: triage ends in the provider's answer for some text of the same hash that
    was submitted before, or for its own; so are the answers in the cache (`Sourced`).
  - `stats_kept`: a get ends in what it counts, or in what an earlier one counted (`Stored`).
-/

import CivicPulse.Runs.Poisoned
import CivicPulse.Runs.ReadThrough

namespace CivicPulse.Outages

open Text Lang

variable [Platform] {E : Env} {i : Nat} {w : World} {α : Type}

/-! ## What is under the keys -/

/-- The statistics' key, and the answers' keys. -/
def Ours (k : Str) : Prop := k = STATS_KEY ∨ CACHE_PREFIX <+: k

omit [Platform] in
theorem not_ours : ¬ Ours HITS_KEY ∧ ¬ Ours MISSES_KEY ∧ ¬ Ours RECENT_KEY := by
  unfold Ours
  decide

/-- What is under our keys was there before, or satisfies `V`. -/
def Adds (V : Str → RVal → Prop) (w w' : World) : Prop :=
  ∀ k e, Ours k → w'.redis k = some e → w.redis k = some e ∨ V k e.val

def Puts (V : Str → RVal → Prop) : Op → Prop
  | .set k v _ => Ours k → V k (.str (.text v))
  | .incr k | .pushTrim k _ _ | .incrExpire k _ => ¬ Ours k
  | _ => True

variable {V : Str → RVal → Prop}

omit [Platform] in
theorem Adds.trans {w w' w'' : World} (h : Adds V w w') (h' : Adds V w' w'') : Adds V w w'' := by
  intro k e hk he
  rcases h' k e hk he with he | hv
  · exact h k e hk he
  · exact .inr hv

omit [Platform] in
theorem Adds.mono {V' : Str → RVal → Prop} (hV : ∀ k v, V k v → V' k v) {w w' : World} (h : Adds V w w') : Adds V' w w' :=
  fun k e hk he => (h k e hk he).imp_right (hV k _)

theorem exec_adds {o : Op} (h : Puts V o) (w : World) : Adds V w (World.exec E i o w).2 := by
  intro k e hk he
  rcases World.exec_redis he with he | ⟨v, ex, rfl, hv⟩ | rfl | ⟨v, n, rfl⟩ | ⟨t, rfl⟩
  · exact .inl he
  · exact .inr (hv ▸ h hk)
  · exact absurd hk h
  · exact absurd hk h
  · exact absurd hk h

theorem adds_alone {p : Code α} (hp : p.Uses (Puts V)) (w : World) : wp (machine E) i p (fun _ w' => Adds V w w') w :=
  wp_uses (M := machine E) (R := Adds V) (fun _ _ _ _ he => .inl he) (fun _ _ _ => Adds.trans) (fun _ w ho => exec_adds ho w) hp

/-! ## Triage -/

/-- The provider is a function of the text and the location. -/
def Gives (E : Env) (svc : TriageService) (prov : Str → Str → TriageResult) : Prop :=
  ∀ t l a, Replies E svc.provider t l a → a = .ok (some (prov t l))

variable {svc : TriageService} {prov : Str → Str → TriageResult}

/-- The stored answer of the provider. -/
def answerOf (svc : TriageService) (prov : Str → Str → TriageResult) (t l : Str) : RVal :=
  .str (.text (TriageService.entry (prov t l) svc.provider.name).dumps)

/-- The provider's answer for one of these texts of this hash. -/
def Source (asked : List (Str × Str)) (key t l : Str) : Prop := (t, l) ∈ asked ∧ cacheKey t l = key

/-- Under an answer's key is the provider's answer for a text that was asked about. -/
def Sourced (svc : TriageService) (prov : Str → Str → TriageResult) (asked : List (Str × Str)) (w : World) : Prop :=
  ∀ k e, CACHE_PREFIX <+: k → w.redis k = some e → ∃ t l, Source asked k t l ∧ e.val = answerOf svc prov t l

theorem Sourced.adds {asked : List (Str × Str)} {w w' : World} (h : Sourced svc prov asked w)
    (ha : Adds (fun k v => CACHE_PREFIX <+: k → ∃ t l, Source asked k t l ∧ v = answerOf svc prov t l) w w') :
    Sourced svc prov asked w' := by
  intro k e hk he
  rcases ha k e (.inr hk) he with he | hv
  · exact h k e hk he
  · exact hv hk

/-- The verdict on a key with such an entry. -/
theorem judge_sourced {asked : List (Str × Str)} (h : Sourced svc prov asked w) {k : Str} (hk : CACHE_PREFIX <+: k) :
    Lookup.judge (World.exec E i (.get k) w).1 = .ok none ∨ ∃ t l, Source asked k t l ∧
      Lookup.judge (World.exec E i (.get k) w).1 = .ok (some (prov t l, text svc.provider.name)) := by
  rcases ha : (World.exec E i (.get k) w).1 with e | _ | raw
  · exact .inl rfl
  · exact .inl rfl
  · obtain ⟨e, he, hraw⟩ := World.exec_get ha
    obtain ⟨t, l, hsource, hval⟩ := h k e hk he
    rw [hval] at hraw
    obtain hraw | ⟨n, hraw, -⟩ := hraw
    · cases hraw
      refine .inr ⟨t, l, hsource, ?_⟩
      exact judge_entry ⟨svc, [], t, l⟩ (prov t l)
    · cases hraw

/-- A latency that was taken between two instants. -/
def Within (since : ℚ) (n : Int) (now : ℚ) : Prop := 0 ≤ n ∧ (n : ℚ) ≤ (now - since) * 1000

omit [Platform] in
theorem Within.mono {since now now' : ℚ} {n : Int} (h : Within since n now) (hle : now ≤ now') : Within since n now' :=
  ⟨h.1, h.2.trans (by linarith)⟩

omit [Platform] in
theorem within_truncate {since now : ℚ} (h : since ≤ now) : Within since (truncate ((now - since) * 1000)) now := by
  have hx : 0 ≤ (now - since) * 1000 := by linarith
  exact ⟨truncate_nonneg hx, truncate_le hx⟩

/-- Code of which it only matters that it takes time. -/
theorem wp_any {β : Type} {p : Code α} {f : α → Code β} {Q : Lang.Post (machine E) β}
    (hf : ∀ a w', w.clock ≤ w'.clock → wp (machine E) i (f a) Q w') (he : ∀ e w', w.clock ≤ w'.clock → Q (.error e) w') :
    wp (machine E) i (p >>= f) Q w := by
  rw [wp_bind]
  refine wp_mono (fun r w' h => ?_) (clock_le_alone p w)
  cases r with
  | ok a => exact hf a w' h
  | error e => exact he e w' h

/-- The lookup's outcome, if it has one, was timed while it ran. -/
theorem fromCache_within (id key : Str) (started : ℚ) (hw : started ≤ w.clock) :
    wp (machine E) i (TriageService.fromCache id key started)
      (fun r w' => ∀ o, r = .ok (some o) → Within started o.latencyMs w'.clock) w := by
  have hhandler : ∀ e (w : World), wp (machine E) i (do
      if e.isKeyOrValueError then
        JsonCache.delete [key]
        return none
      else throw e) (fun r w' => ∀ o : TriageOutcome, r = .ok (some o) → Within started o.latencyMs w'.clock) w := by
    intro e w
    split
    · exact wp_any (fun _ _ _ o ho => by cases ho) fun _ _ _ o ho => by cases ho
    · exact fun o ho => by cases ho
  refine wp_any (fun cached w₁ h₁ => ?_) fun _ _ _ o ho => by cases ho
  split
  · exact fun o ho => by cases ho
  · rw [wp_tryCatch, Lookup.outcomeOf_decode]
    rcases Lookup.decode cached with e | p
    · exact hhandler e w₁
    · rw [ofExcept_ok, Prog.ret_bind, TriageService.ms, Prog.op_bind, wp_bind, wp_op, Prog.ret_bind, wp_ret, Post.bind]
      have hread : started ≤ (World.exec E i .perfCounter w₁).1 := (hw.trans h₁).trans (World.clock_le_exec (i := i) .perfCounter)
      refine wp_any (fun _ w₂ h₂ => ?_) fun e w' _ => hhandler e w'
      rw [wp_bind]
      refine wp_mono (fun r w₃ h₃ => ?_) (wp_and (record_alone id _ w₂) (clock_le_alone _ w₂))
      obtain ⟨rfl, h₃⟩ := h₃
      intro o ho
      cases ho
      exact (within_truncate hread).mono (h₂.trans h₃)

/-- The provider answers, and its answer may be kept. -/
theorem ask_sourced (hp : Gives E svc prov) (id t l : Str) (started : ℚ) (hw : started ≤ w.clock) :
    wp (machine E) i (svc.ask id (cacheKey t l) started t l) (fun r w' =>
      (∃ latency, Within started latency w'.clock ∧
        r = .ok ⟨some (prov t l), text svc.provider.name, latency, false, false, none⟩) ∧
        Adds (fun k v => k = cacheKey t l ∧ v = answerOf svc prov t l) w w') w := by
  have hans : (World.exec E i (.triage .primary svc.provider t l) w).1 = .ok (some (prov t l)) := by
    refine hp t l _ ?_
    rcases svc.provider with _ | name
    · exact World.exec_rules .primary t l
    · exact ⟨w.ticks, rfl⟩
  rw [TriageService.ask, wp_tryCatch, TriageService.askProvider, TriageService.call, Prog.op_bind, wp_op, hans, ofExcept_ok,
    Prog.ret_bind, TriageService.ms, Prog.op_bind, wp_op, Prog.ret_bind, ofExcept_ok, Prog.ret_bind, wp_bind]
  refine wp_mono (fun r w' h => ?_) (wp_and (set_alone (cacheKey t l) _ svc.ttl _) (wp_and (clock_le_alone _ _)
    (adds_alone (V := fun k v => k = cacheKey t l ∧ v = answerOf svc prov t l)
      (JsonCache.uses_set (fun _ => ⟨rfl, rfl⟩) fun _ _ => trivial) _)))
  obtain ⟨⟨rfl, -⟩, hclock, hadds⟩ := h
  have hread : started ≤ (World.exec E i .perfCounter (World.exec E i (.triage .primary svc.provider t l) w).2).1 :=
    (hw.trans (World.clock_le_exec (i := i) (.triage .primary svc.provider t l))).trans (World.clock_le_exec (i := i) .perfCounter)
  have hbefore := (exec_adds (E := E) (i := i) (V := fun k v => k = cacheKey t l ∧ v = answerOf svc prov t l)
    (o := .triage .primary svc.provider t l) trivial w).trans (exec_adds (E := E) (i := i) (o := .perfCounter) trivial _)
  exact ⟨⟨_, (within_truncate hread).mono hclock, rfl⟩, hbefore.trans hadds⟩

/-- A call ends in the provider's answer for a text of its hash. -/
def Answered (svc : TriageService) (prov : Str → Str → TriageResult) (asked : List (Str × Str)) (t l : Str) (w : World)
    (r : Except Exc TriageOutcome) (w' : World) : Prop :=
  ∃ t' l' latency cached, Source ((t, l) :: asked) (cacheKey t l) t' l' ∧ Within w.clock latency w'.clock ∧
    r = .ok ⟨some (prov t' l'), text svc.provider.name, latency, false, cached, none⟩

theorem Sourced.more {asked : List (Str × Str)} (h : Sourced svc prov asked w) (x : Str × Str) : Sourced svc prov (x :: asked) w := by
  intro k e hk he
  obtain ⟨t, l, ⟨hmem, hkey⟩, hval⟩ := h k e hk he
  exact ⟨t, l, ⟨List.mem_cons_of_mem _ hmem, hkey⟩, hval⟩

/-- Code that writes no answer. -/
theorem Sourced.kept {asked : List (Str × Str)} {w w' : World} (h : Sourced svc prov asked w) (ha : Adds (fun _ _ => False) w w') :
    Sourced svc prov asked w' :=
  h.adds (ha.mono fun _ _ hv => hv.elim)

theorem triage_sourced (hp : Gives E svc prov) {asked : List (Str × Str)} (h : Sourced svc prov asked w) (id t l : Str) :
    wp (machine E) i (svc.triage id t l) (fun r w' => Answered svc prov asked t l w r w' ∧
      Sourced svc prov ((t, l) :: asked) w') w := by
  have h₀ : Sourced svc prov asked (World.exec E i .perfCounter w).2 := h.kept (exec_adds (o := .perfCounter) trivial w)
  have hlookup : (TriageService.fromCache id (cacheKey t l) (World.exec E i .perfCounter w).1).Uses (Puts fun _ _ => False) :=
    TriageService.uses_fromCache (A := Puts _) trivial trivial not_ours.1 (fun _ _ => not_ours.2.2) trivial trivial
      (fun _ _ => trivial) _ _
  -- the latency counts from the first reading
  have hsince : ∀ {n : Int} {now : ℚ}, Within (World.exec E i .perfCounter w).1 n now → Within w.clock n now := by
    intro n now hn
    have hle : w.clock ≤ (World.exec E i .perfCounter w).1 := World.clock_le_exec (i := i) .perfCounter
    exact ⟨hn.1, hn.2.trans (by linarith)⟩
  rw [TriageService.triage, wp_op, wp_bind]
  refine wp_mono (fun r w₁ h₁ => ?_) (wp_and (Lookup.fromCache_alone (E := E) (i := i) id (cacheKey t l)
    (World.exec E i .perfCounter w).1 (World.exec E i .perfCounter w).2) (wp_and (fromCache_within id (cacheKey t l) _ (le_refl _))
    (wp_and (clock_le_alone _ _) (adds_alone hlookup _))))
  obtain ⟨hlook, hwithin, hclock, hadds⟩ := h₁
  have h₁ : Sourced svc prov asked w₁ := h₀.kept hadds
  rcases judge_sourced (E := E) (i := i) h₀ (k := cacheKey t l) ⟨_, rfl⟩ with hv | ⟨t', l', ⟨hmem, hkey⟩, hv⟩
  · -- a miss: the provider is asked
    rw [hv] at hlook
    obtain rfl : r = .ok none := hlook
    show wp (machine E) i (JsonCache.incr MISSES_KEY >>= fun _ =>
      svc.ask id (cacheKey t l) (World.exec E i .perfCounter w).1 t l >>= TriageService.record id)
      (fun r w' => Answered svc prov asked t l w r w' ∧ Sourced svc prov ((t, l) :: asked) w') w₁
    rw [wp_bind]
    refine wp_mono (fun r w₂ h₂ => ?_) (wp_and (incr_alone MISSES_KEY w₁) (wp_and (clock_le_alone _ _)
      (adds_alone (V := fun _ _ => False) (JsonCache.uses_incr not_ours.2.1) w₁)))
    obtain ⟨rfl, hclock₂, hadds⟩ := h₂
    have h₂ : Sourced svc prov asked w₂ := h₁.kept hadds
    rw [Post.bind, wp_bind]
    refine wp_mono (fun r w₃ h₃ => ?_) (ask_sourced hp id t l _ (hclock.trans hclock₂))
    obtain ⟨⟨latency, hlatency, rfl⟩, hadds⟩ := h₃
    have hown : Source ((t, l) :: asked) (cacheKey t l) t l := ⟨List.mem_cons_self, rfl⟩
    have h₃ : Sourced svc prov ((t, l) :: asked) w₃ := by
      refine (h₂.more (t, l)).adds (hadds.mono fun k v hv _ => ?_)
      obtain ⟨rfl, rfl⟩ := hv
      exact ⟨t, l, hown, rfl⟩
    rw [Post.bind]
    refine wp_mono (fun r w₄ h₄ => ?_) (wp_and (record_alone id _ w₃) (wp_and (clock_le_alone _ _)
      (adds_alone (V := fun _ _ => False) (TriageService.uses_record (A := Puts _) trivial (fun _ _ => not_ours.2.2) id _) w₃)))
    obtain ⟨rfl, hclock₄, hadds⟩ := h₄
    exact ⟨⟨t, l, latency, false, hown, hsince (hlatency.mono hclock₄), rfl⟩, h₃.kept hadds⟩
  · -- a hit
    rw [hv] at hlook
    obtain ⟨latency, rfl⟩ := hlook
    exact ⟨⟨t', l', latency, true, ⟨List.mem_cons_of_mem _ hmem, hkey⟩, hsince (hwithin _ rfl), rfl⟩, h₁.more _⟩

/-! ## Statistics -/

/-- Code that leaves the database alone. -/
theorem still_alone {p : Code α} (hp : p.Uses fun o => ∀ w, (World.exec E i o w).2.db = w.db) (w : World) :
    wp (machine E) i p (fun _ w' => w'.db = w.db) w :=
  wp_uses (M := machine E) (R := fun w w' => w'.db = w.db) (fun _ => rfl) (fun _ _ _ h h' => h'.trans h) (fun _ w ho => ho w) hp

/-- The statistics of a table, as they are stored. -/
def statsOf (t : Table) (at_ : Int) : RVal := .str (.text ((Figures.of t).stats at_).modelDump.dumps)

/-- Under the statistics' key is what a get has computed. -/
def Stored (past : StatsOut → Prop) (w : World) : Prop :=
  ∀ e, w.redis STATS_KEY = some e → ∃ t at_, t.rows.length < 2 ^ 63 ∧ past ((Figures.of t).stats at_) ∧ e.val = statsOf t at_

theorem Stored.kept {past : StatsOut → Prop} {w w' : World} (h : Stored past w) (ha : Adds (fun k _ => k ≠ STATS_KEY) w w') :
    Stored past w' :=
  fun e he => h e ((ha STATS_KEY e (.inl rfl) he).resolve_right fun hne => hne rfl)

/-- What a miss ends in, if the table is read from the `n`-th operation on. -/
def Computes (E : Env) (n : Nat) (w : World) (r : Except Exc (StatsOut × Bool)) (w' : World) : Prop :=
  (∃ at_, r = .ok ((Figures.of w.db.table).stats at_, false) ∧ w.db.table.rows.length < 2 ^ 63 ∧
      Adds (fun k v => k = STATS_KEY ∧ v = statsOf w.db.table at_) w w') ∨
    (∃ e, r = .error e) ∧ (E.Reached n 5 → ¬ w.db.table.rows.length < 2 ^ 63) ∧ Adds (fun _ _ => False) w w'

theorem compute_kept (ttl : Int) (hidle : w.db.pending i = []) :
    wp (machine E) i (StatsService.compute ttl) (fun r w' => w'.db = w.db ∧ Computes E w.ticks w r w') w := by
  rw [StatsService.compute, wp_bind]
  refine wp_mono (fun r w₁ h => ?_) (wp_and (reads_aggregates hidle)
    (adds_alone (V := fun _ _ => False) (Repository.uses_aggregates trivial fun _ => trivial) w))
  obtain ⟨⟨hdb, ⟨rfl, hlen, -⟩ | ⟨⟨e, rfl⟩, hwhy⟩⟩, hadds⟩ := h
  · rw [Post.bind, wp_op, wp_bind]
    have hset : ∀ at_, (JsonCache.set STATS_KEY (StatsService.statsOf (Figures.of w.db.table).aggregates at_).modelDump ttl).Uses
        (Puts fun k v => k = STATS_KEY ∧ v = statsOf w.db.table at_) :=
      fun at_ => JsonCache.uses_set (fun _ => ⟨rfl, rfl⟩) fun _ _ => trivial
    have hstill : ∀ at_, (JsonCache.set STATS_KEY (StatsService.statsOf (Figures.of w.db.table).aggregates at_).modelDump ttl).Uses
        fun o => ∀ w, (World.exec E i o w).2.db = w.db :=
      fun at_ => JsonCache.uses_set (fun _ => rfl) fun _ _ _ => rfl
    refine wp_mono (fun r w₂ h => ?_) (wp_and (set_alone STATS_KEY _ ttl _) (wp_and (adds_alone (hset _) _) (still_alone (hstill _) _)))
    obtain ⟨⟨rfl, -⟩, hadds', hdb'⟩ := h
    refine ⟨hdb'.trans hdb, .inl ⟨_, rfl, hlen, ?_⟩⟩
    exact ((hadds.mono fun _ _ h => h.elim).trans (exec_adds (o := .utcnow) trivial w₁)).trans hadds'
  · exact ⟨hdb, .inr ⟨⟨e, rfl⟩, hwhy, hadds⟩⟩

/-- When a get reads the table, if it does. -/
def countsAt (E : Env) (i : Nat) (w : World) : Nat := ((JsonCache.get STATS_KEY).run (machine E) i w).2.ticks

/-- What a get ends in. -/
def Gets (E : Env) (n : Nat) (past : StatsOut → Prop) (w : World) (r : Except Exc (StatsOut × Bool)) (w' : World) : Prop :=
  Computes E n w r w' ∨ (∃ s, past s ∧ r = .ok (s, true)) ∧ Adds (fun _ _ => False) w w'

theorem stats_kept {past : StatsOut → Prop} (h : Stored past w) (ttl : Int) (hidle : w.db.pending i = []) :
    wp (machine E) i (StatsService.get ttl) (fun r w' => w'.db = w.db ∧ Gets E (countsAt E i w) past w r w') w := by
  have hread : readAnswer (World.exec E i (.get STATS_KEY) w).1 = .ok .null ∨
      ∃ s, past s ∧ readAnswer (World.exec E i (.get STATS_KEY) w).1 = .ok s.modelDump := by
    rcases ha : (World.exec E i (.get STATS_KEY) w).1 with e | _ | raw
    · exact .inl rfl
    · exact .inl rfl
    · obtain ⟨e, he, hraw⟩ := World.exec_get ha
      obtain ⟨t, at_, hlen, hpast, hval⟩ := h e he
      rw [hval] at hraw
      obtain hraw | ⟨n, hraw, -⟩ := hraw
      · cases hraw
        exact .inr ⟨_, hpast, loads_stats (Figures.small_of hlen) at_⟩
      · cases hraw
  rw [StatsService.get, wp_bind]
  have hcounts : wp (machine E) i (JsonCache.get STATS_KEY) (fun _ w' => w'.ticks = countsAt E i w) w := rfl
  refine wp_mono (fun r w₁ h₁ => ?_) (wp_and (get_alone STATS_KEY w) (wp_and hcounts (wp_and
    (adds_alone (V := fun _ _ => False) (JsonCache.uses_get trivial fun _ _ => trivial) w)
    (still_alone (JsonCache.uses_get (fun _ => rfl) fun _ _ _ => rfl) w))))
  obtain ⟨hr, hticks, hadds, hdb⟩ := h₁
  rcases hread with hnull | ⟨s, hs, hload⟩
  · rw [hnull] at hr
    subst hr
    show wp (machine E) i (StatsService.compute ttl) (fun r w' => w'.db = w.db ∧ Gets E (countsAt E i w) past w r w') w₁
    refine wp_mono (fun r w₂ h₂ => ?_) (compute_kept ttl (by rw [hdb]; exact hidle))
    obtain ⟨hdb', hcomp⟩ := h₂
    refine ⟨hdb'.trans hdb, .inl ?_⟩
    rw [Computes, hdb, hticks] at hcomp
    rcases hcomp with ⟨at_, hr, hlen, hadds'⟩ | ⟨hr, hlen, hadds'⟩
    · exact .inl ⟨at_, hr, hlen, (hadds.mono fun _ _ h => h.elim).trans hadds'⟩
    · exact .inr ⟨hr, hlen, hadds.trans hadds'⟩
  · rw [hload] at hr
    subst hr
    show wp (machine E) i (ofExcept (StatsOut.modelValidate s.modelDump) >>= fun s => .ret (s, true))
      (fun r w' => w'.db = w.db ∧ Gets E (countsAt E i w) past w r w') w₁
    rw [StatsOut.modelValidate_dump]
    exact ⟨hdb, .inr ⟨⟨s, hs, rfl⟩, hadds⟩⟩

end CivicPulse.Outages
