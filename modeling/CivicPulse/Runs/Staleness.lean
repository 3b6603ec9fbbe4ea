/-
  CivicPulse.Runs.Staleness — how old statistics can be when nothing else helps.

  Statistics are dropped when something is written, but a drop can fail, and a reader can
  put back what it has read before. What is left is the entry's lifetime: an entry is put
  at most `δ` after its reader's first `SELECT` (`recent`) and lives for at most `ttl`.
  - `Aged`: every figure that is read, cached or returned is the committed table's at a
    moment not longer ago than that.
  - `stats_staleness`: no figure of an answer is older than `ttl + δ` when the call begins,
    whatever Redis and the database do.
-/

import Mathlib.Tactic.Linarith
import CivicPulse.Lang.Memory
import CivicPulse.Lang.Product
import CivicPulse.Runs.RequestRuns
import CivicPulse.Store.Frame

namespace CivicPulse.Request

open Text Lang

open Function (update)

/-! ## Runs that are remembered -/

/-- The figure is the committed table's at that moment. -/
def InTable (w : World) (fig : Figure) : Prop := fig.2 = fig.1.eval w.db.table

/-- The figure was the committed table's at a moment not before `t`. -/
def Dated (past : List World) (t : ℚ) (fig : Figure) : Prop := ∃ u ∈ past, InTable u fig ∧ t ≤ u.clock

/-- The last that request `i` has done is its first `SELECT`. -/
def counting (i : Nat) (w : World) : Bool :=
  match w.trace i with
  | ⟨.select .countAvg, _⟩ :: _ => true
  | _ => false

/-- Statistics are put in the cache for at most `ttl`, and at most `δ` after their first `SELECT`. -/
def recent [Platform] (E : Env) (ttl : Int) (δ : ℚ) (i : Nat) (o : Op) (s : World × List World) : Bool :=
  match o with
  | .set k _ ex => k != STATS_KEY || ex ≤ ttl && s.2.all fun w => !counting i w || s.1.now E ≤ w.clock + δ
  | _ => true

abbrev watched [Platform] (E : Env) (ttl : Int) (δ : ℚ) : Machine sig := (machine E).remember.restrict (recent E ttl δ)

/-- When a request has asked the cache, and when it has begun to read the table. -/
structure Age where
  asked : Option ℚ
  since : Option ℚ

def Age.next (n : Age) (t : ℚ) : Op → Age
  | .get k => if k = STATS_KEY then { n with asked := some t } else n
  | .select .countAvg => { n with since := some t }
  | _ => n

def ages : Protocol sig Age where
  can n
    | .get k => k = STATS_KEY → n.asked = none
    | .select .countAvg => n.asked ≠ none
    | _ => True
  step n o _ n' := ∃ t, n' = n.next t o

/-! ## Requests and their ages -/

section

variable {α : Type} {n : Age}

/-- Operations that no age depends on. -/
def Ageless : Op → Prop
  | .get k => k ≠ STATS_KEY
  | .select .countAvg => False
  | _ => True

theorem ageless_next {o : Op} (h : Ageless o) (n : Age) (t : ℚ) : n.next t o = n := by
  cases o with
  | get k => exact if_neg h
  | select q =>
    cases q with
    | countAvg => exact h.elim
    | _ => rfl
  | _ => rfl

theorem ageless_can {o : Op} (h : Ageless o) (n : Age) : ages.can n o := by
  cases o with
  | get k => exact fun e => absurd e h
  | select q =>
    cases q with
    | countAvg => exact h.elim
    | _ => trivial
  | _ => trivial

theorem ages_ageless {p : Code α} (hp : p.Uses Ageless) : Follows ages (fun _ _ => True) n p := by
  refine Follows.of_uses (fun o h => ageless_can h n) (fun o h r n' hs => ?_) (fun _ => trivial) hp
  obtain ⟨t, rfl⟩ := hs
  exact ageless_next h n t

/-- Operations of a request that has asked the cache. -/
def Onward : Op → Prop
  | .get k => k ≠ STATS_KEY
  | _ => True

theorem ages_onward (hn : n.asked ≠ none) {p : Code α} (hp : p.Uses Onward) : Follows ages (fun n _ => n.asked ≠ none) n p := by
  have hcan : ∀ (m : Age) (o : Op), m.asked ≠ none → Onward o → ages.can m o ∧ ∀ t, (m.next t o).asked ≠ none := by
    intro m o hm ho
    cases o with
    | get k => exact ⟨fun e => absurd e ho, fun t => by rw [Age.next, if_neg ho]; exact hm⟩
    | select q =>
      cases q with
      | countAvg => exact ⟨hm, fun _ => hm⟩
      | _ => exact ⟨trivial, fun _ => hm⟩
    | _ => exact ⟨trivial, fun _ => hm⟩
  refine Follows.within (fun m o hm ho => (hcan m o hm ho).1) (fun m o hm ho r m' hs => ?_) (fun _ _ h => h) hp hn
  obtain ⟨t, rfl⟩ := hs
  exact (hcan m o hm ho).2 t

variable [Platform]

/-- The cache is asked first, and once. -/
theorem ages_stats (ttl : Int) : Follows ages (fun n _ => n.asked ≠ none) ⟨none, none⟩ (StatsService.get ttl) := by
  have hcached : Follows ages (fun n _ => n.asked ≠ none) ⟨none, none⟩ (JsonCache.get STATS_KEY) := by
    unfold JsonCache.get
    rw [exceptRedis_op, Prog.op_bind]
    refine ⟨fun _ => rfl, fun r n' hs => ?_⟩
    obtain ⟨t, rfl⟩ := hs
    refine ages_onward (by simp [Age.next]) (Prog.uses_bind ?_ fun raw => ?_)
    · exact uses_exceptRedis (uses_ofExcept r) fun e => Prog.uses_bind (uses_warn (fun _ _ => trivial) _ _) fun _ => trivial
    · cases raw with
      | none => trivial
      | some raw => exact uses_ofExcept _
  refine Follows.bind (Follows.mono ?_ hcached)
  intro n r hn
  cases r with
  | error e => exact hn
  | ok j =>
    refine ages_onward hn ?_
    cases j with
    | null =>
      exact Prog.uses_bind (Repository.uses_aggregates trivial fun _ => trivial) fun _ =>
        ⟨trivial, fun _ => Prog.uses_bind (JsonCache.uses_set trivial fun _ _ => trivial) fun _ => trivial⟩
    | _ => exact Prog.uses_bind (uses_ofExcept _) fun _ => trivial

omit [Platform] in
theorem ages_repository {body : Code α} {Q : Age → Except Exc α → Prop} (h : Follows ages Q n body) :
    Follows ages (fun _ _ => True) n (repository body) := by
  refine Follows.bind (Follows.tryCatch (Follows.tryCatch (Follows.mono (fun n r _ => ?_) h)))
  cases r with
  | ok a => exact ⟨trivial, fun _ _ _ => trivial⟩
  | error e => exact ⟨trivial, fun _ _ _ => ⟨trivial, fun _ _ _ => trivial⟩⟩

theorem ages_serve (c : App × Call) : Follows ages (fun _ _ => True) ⟨none, none⟩ (serve c) := by
  by_cases hc : c.2 = .stats
  · obtain ⟨app, call⟩ := c
    obtain rfl : call = .stats := hc
    refine ages_repository (Q := fun _ _ => True) (Follows.bind (Follows.mono (fun n r _ => ?_) (ages_stats app.statsTtl)))
    cases r <;> trivial
  · refine ages_ageless (serve_uses c (fun text location o ho => ?_) (fun o ho => ?_) trivial (fun _ _ => trivial) trivial fun h => absurd h hc)
    · cases o with
      | get k => exact (show k = _ from ho) ▸ cacheKey_ne text location
      | select q => exact ho.elim
      | _ => trivial
    · cases o with
      | get k => exact ho.elim
      | select q =>
        cases q with
        | countAvg => exact ho
        | _ => trivial
      | _ => trivial

end

/-! ## What is as old as that -/

theorem Dated.mono {past : List World} {t t' : ℚ} {fig : Figure} (h : Dated past t fig) (ht : t' ≤ t) : Dated past t' fig := by
  obtain ⟨u, hu, hfig, hle⟩ := h
  exact ⟨u, hu, hfig, ht.trans hle⟩

theorem Dated.later {past : List World} {t : ℚ} {fig : Figure} (h : Dated past t fig) (w : World) : Dated (w :: past) t fig := by
  obtain ⟨u, hu, hfig, hle⟩ := h
  exact ⟨u, List.mem_cons_of_mem _ hu, hfig, hle⟩

section

variable [Platform]

/-- Statistics as they are cached, of figures that were the table's not before `t`. -/
def Preserved (past : List World) (t : ℚ) (raw : Raw) : Prop :=
  ∃ (f : Figures) (at_ : Int), f.Small ∧ raw = .text (f.stats at_).modelDump.dumps ∧ ∀ fig ∈ f.reads, Dated past t fig

theorem Preserved.later {past : List World} {t : ℚ} {raw : Raw} (h : Preserved past t raw) (w : World) : Preserved (w :: past) t raw := by
  obtain ⟨f, at_, hf, hraw, hdated⟩ := h
  exact ⟨f, at_, hf, hraw, fun fig hfig => (hdated fig hfig).later w⟩

theorem Preserved.mono {past : List World} {t t' : ℚ} {raw : Raw} (h : Preserved past t raw) (ht : t' ≤ t) : Preserved past t' raw := by
  obtain ⟨f, at_, hf, hraw, hdated⟩ := h
  exact ⟨f, at_, hf, hraw, fun fig hfig => (hdated fig hfig).mono ht⟩

/-- What holds of request `i`, which has read `l.reads` and found `l.seen`. -/
structure Aging (ttl : Int) (δ : ℚ) (w : World) (past : List World) (i : Nat) (l : Loc) (n : Age) : Prop where
  asked : ∀ t, n.asked = some t → w.trace i ≠ [] ∧ t ≤ w.clock ∧ ∀ u ∈ past, u.trace i = [] → u.clock ≤ t
  since : ∀ t, n.since = some t → ∃ u ∈ past, counting i u = true ∧ u.clock = t
  seen : ∀ raw, l.seen = some raw → ∃ t, n.asked = some t ∧ Preserved past (t - ttl - δ) raw
  reads : ∀ fig ∈ l.reads, ∃ t t', n.asked = some t ∧ n.since = some t' ∧ t ≤ t' ∧ Dated past t' fig

structure Aged (ttl : Int) (δ : ℚ) (w : World) (past : List World) (ls : Nat → Option (Loc × Age)) : Prop where
  present : w ∈ past
  clocks : ∀ u ∈ past, u.clock ≤ w.clock
  cache : ∀ e, w.redis STATS_KEY = some e → ∃ raw t, e = ⟨.str raw, some t⟩ ∧ Preserved past (t - ttl - δ) raw
  requests : ∀ i l n, ls i = some (l, n) → Aging ttl δ w past i l n

variable {E : Env} {ttl : Int} {δ : ℚ} {w w' : World} {past : List World} {ls : Nat → Option (Loc × Age)} {i j : Nat} {l l' : Loc} {n : Age}
  {o : Op}

/-- A request that neither asks the cache nor reads the table. -/
theorem Aging.later (h : Aging ttl δ w past i l n) (hclock : w.clock ≤ w'.clock) (htrace : w.trace i ≠ [] → w'.trace i ≠ [])
    (hseen : l'.seen = l.seen) (hreads : l'.reads = l.reads) : Aging ttl δ w' (w' :: past) i l' n where
  asked t ht := by
    obtain ⟨hne, hle, hidle⟩ := h.asked t ht
    refine ⟨htrace hne, hle.trans hclock, fun u hu hempty => ?_⟩
    rcases List.mem_cons.mp hu with rfl | hu
    · exact absurd hempty (htrace hne)
    · exact hidle u hu hempty
  since t ht := by
    obtain ⟨u, hu, hcount⟩ := h.since t ht
    exact ⟨u, List.mem_cons_of_mem _ hu, hcount⟩
  seen raw hraw := by
    obtain ⟨t, ht, hp⟩ := h.seen raw (hseen ▸ hraw)
    exact ⟨t, ht, hp.later w'⟩
  reads fig hfig := by
    obtain ⟨t, t', ht, ht', hle, hd⟩ := h.reads fig (hreads ▸ hfig)
    exact ⟨t, t', ht, ht', hle, hd.later w'⟩

/-! ## One operation -/

theorem Aged.later (h : Aged ttl δ w past ls) (hi : ls i = some (l, n)) (hseen : l'.seen = l.seen) (hreads : l'.reads = l.reads) :
    Aging ttl δ (World.exec E i o w).2 ((World.exec E i o w).2 :: past) i l' n := by
  refine (h.requests i l n hi).later (World.clock_le_exec o) (fun _ => ?_) hseen hreads
  rw [World.trace_exec]
  exact List.cons_ne_nil _ _

/-- Asking the cache for statistics. -/
theorem aging_get (h : Aged ttl δ w past ls) (hi : ls i = some (l, n)) (hreads : l.reads = []) (hasked : n.asked = none)
    (hm : Moves l (.get STATS_KEY) (World.exec E i (.get STATS_KEY) w).1 l') :
    Aging ttl δ (World.exec E i (.get STATS_KEY) w).2 ((World.exec E i (.get STATS_KEY) w).2 :: past) i l'
      (n.next (w.now E) (.get STATS_KEY)) := by
  have hclock : w.clock ≤ w.now E := World.clock_le_exec (E := E) (i := i) (w := w) (.get STATS_KEY)
  have htrace : (World.exec E i (.get STATS_KEY) w).2.trace i ≠ [] := by
    rw [World.trace_exec]
    exact List.cons_ne_nil _ _
  have hnext : n.next (w.now E) (.get STATS_KEY) = { n with asked := some (w.now E) } := by
    rw [Age.next, if_pos rfl]
  have hl' : l'.reads = [] ∧ ∀ raw, l'.seen = some raw → (World.exec E i (.get STATS_KEY) w).1 = .ok (some raw) := by
    obtain ⟨hr, hs⟩ := moves_get hm
    refine ⟨hr.trans hreads, fun raw hraw => ?_⟩
    rcases hs with hs | ⟨-, raw', hans, hs⟩
    · obtain ⟨t, ht, -⟩ := (h.requests i l n hi).seen raw (hs ▸ hraw)
      rw [hasked] at ht
      cases ht
    · rw [hs] at hraw
      cases hraw
      exact hans
  rw [hnext]
  refine ⟨fun t ht => ?_, fun t ht => ?_, fun raw hraw => ?_, fun fig hfig => ?_⟩
  · cases ht
    refine ⟨htrace, le_refl _, fun u hu hempty => ?_⟩
    rcases List.mem_cons.mp hu with rfl | hu
    · exact absurd hempty htrace
    · exact (h.clocks u hu).trans hclock
  · obtain ⟨u, hu, hcount⟩ := (h.requests i l n hi).since t ht
    exact ⟨u, List.mem_cons_of_mem _ hu, hcount⟩
  · obtain ⟨e, he, hlive, hv⟩ := World.exec_get_live (hl'.2 raw hraw)
    obtain ⟨raw', t, rfl, hp⟩ := h.cache e he
    have hraw' : raw' = raw := by
      rcases hv with hv | ⟨m, hv, -⟩
      · cases hv
        rfl
      · cases hv
    subst hraw'
    have ht : w.now E < t := hlive t rfl
    exact ⟨_, rfl, (hp.mono (by linarith)).later _⟩
  · rw [hl'.1] at hfig
    cases hfig

/-- Reading one more figure. -/
theorem aging_select {q : Query} (h : Aged ttl δ w past ls) (hi : ls i = some (l, n)) (hview : w.db.view i = w.db.table)
    (hcan : Performs l (.select q)) (hage : ages.can n (.select q))
    (hm : Moves l (.select q) (World.exec E i (.select q) w).1 l') :
    Aging ttl δ (World.exec E i (.select q) w).2 ((World.exec E i (.select q) w).2 :: past) i l' (n.next (w.now E) (.select q)) := by
  have hlater := h.requests i l n hi
  have hclock : w.clock ≤ w.now E := World.clock_le_exec (E := E) (i := i) (w := w) (.select q)
  have hmem : (World.exec E i (.select q) w).2 ∈ (World.exec E i (.select q) w).2 :: past := List.mem_cons_self
  have hdb := (World.select_cases (E := E) (i := i) (w := w) q).1
  -- a figure that is read is the table's now
  have hfresh : ∀ a, (World.exec E i (.select q) w).1 = .ok a → InTable (World.exec E i (.select q) w).2 ⟨q, a⟩ := by
    intro a ha
    show a = q.eval (World.exec E i (.select q) w).2.db.table
    rcases (World.select_cases (E := E) (i := i) (w := w) q).2 with ⟨e, he⟩ | ⟨-, he⟩
    · rw [he] at ha
      cases ha
    · rw [he, hview] at ha
      rw [hdb]
      exact (Except.ok.inj ha).symm
  by_cases hq : q.isFigure = true
  · have hl' := moves_select hm
    have hseen : ∀ raw, l'.seen = some raw → l.seen = some raw := by
      intro raw hraw
      rcases hl' with ⟨-, hs, -⟩ | ⟨-, a, -, -, hs⟩
      · rwa [← hs]
      · rw [hs] at hraw
        cases hraw
    have hread : ∀ fig ∈ l'.reads, fig ∈ l.reads ∨ InTable (World.exec E i (.select q) w).2 fig := by
      intro fig hfig
      rcases hl' with ⟨hr, -⟩ | ⟨-, a, ha, hr, -⟩
      · exact .inl (hr ▸ hfig)
      · rw [hr] at hfig
        rcases List.mem_cons.mp hfig with rfl | hfig
        · exact .inr (hfresh a ha)
        · exact .inl hfig
    cases q with
    | countAvg =>
      have hnext : n.next (w.now E) (.select .countAvg) = { n with since := some (w.now E) } := rfl
      have hnone : l.reads = [] := hcan.2
      have hkept : Aging ttl δ _ _ i l n := h.later (E := E) (o := .select .countAvg) hi rfl rfl
      rw [hnext]
      refine ⟨hkept.asked, fun t ht => ?_, fun raw hraw => hkept.seen raw (hseen raw hraw), fun fig hfig => ?_⟩
      · cases ht
        refine ⟨_, hmem, ?_, rfl⟩
        rw [counting, World.trace_exec]
      · obtain ⟨t, ht⟩ := Option.ne_none_iff_exists'.mp hage
        have hle := (hkept.asked t ht).2.1
        refine ⟨t, w.now E, ht, rfl, hle, _, hmem, ?_, le_refl _⟩
        exact (hread fig hfig).resolve_left (by rw [hnone]; exact List.not_mem_nil)
    | groupBy col =>
      have hkept : Aging ttl δ _ _ i l n := h.later (E := E) (o := .select (.groupBy col)) hi rfl rfl
      obtain ⟨fig₀, hfig₀⟩ := List.exists_mem_of_ne_nil _ (show l.reads ≠ [] from hcan.2)
      obtain ⟨t, t', ht, ht', hle, -⟩ := hkept.reads fig₀ hfig₀
      obtain ⟨u, hu, -, hut⟩ := hlater.since t' ht'
      refine ⟨hkept.asked, hkept.since, fun raw hraw => hkept.seen raw (hseen raw hraw), fun fig hfig => ?_⟩
      rcases hread fig hfig with hold | hnew
      · exact hkept.reads fig hold
      · refine ⟨t, t', ht, ht', hle, _, hmem, hnew, ?_⟩
        rw [← hut]
        exact (h.clocks u hu).trans hclock
    | _ => cases hq
  · have hnext : n.next (w.now E) (.select q) = n := by
      cases q with
      | countAvg => exact absurd rfl hq
      | _ => rfl
    obtain ⟨hreads, hseen, -⟩ := (moves_select hm).resolve_right fun h => hq h.1
    rw [hnext]
    exact h.later hi hseen hreads

/-- Each operation of a request. -/
theorem aging_exec (h : Aged ttl δ w past ls) (hi : ls i = some (l, n)) (hview : l.phase = .idle → w.db.view i = w.db.table)
    (hcan : Performs l o) (hage : ages.can n o) (hm : Moves l o (World.exec E i o w).1 l') :
    Aging ttl δ (World.exec E i o w).2 ((World.exec E i o w).2 :: past) i l' (n.next (w.now E) o) := by
  have haside : (∀ k, o ≠ .get k) → (∀ q, o ≠ .select q) → n.next (w.now E) o = n →
      Aging ttl δ (World.exec E i o w).2 ((World.exec E i o w).2 :: past) i l' (n.next (w.now E) o) := by
    intro hget hselect hnext
    obtain ⟨hseen, hreads⟩ := moves_aside hm hget hselect
    rw [hnext]
    exact h.later hi hseen hreads
  cases o with
  | get k =>
    by_cases hk : k = STATS_KEY
    · subst hk
      exact aging_get h hi (hcan rfl) (hage rfl) hm
    · obtain ⟨hreads, hseen⟩ := moves_get hm
      rw [Age.next, if_neg hk]
      exact h.later hi (hseen.resolve_right fun e => hk e.1) hreads
  | select q =>
    have hphase : l.phase = .idle := by
      cases q with
      | countAvg => exact hcan.1
      | groupBy col => exact hcan.1
      | _ => exact hcan
    exact aging_select h hi (hview hphase) hcan hage hm
  | _ => exact haside (fun _ e => by cases e) (fun _ e => by cases e) rfl

theorem aged_exec (h : Aged ttl δ w past ls) (hi : ls i = some (l, n)) (hview : l.phase = .idle → w.db.view i = w.db.table)
    (hcan : Performs l o) (hage : ages.can n o) (hrecent : recent E ttl δ i o (w, past) = true)
    (hm : Moves l o (World.exec E i o w).1 l') :
    Aged ttl δ (World.exec E i o w).2 ((World.exec E i o w).2 :: past) (update ls i (some (l', n.next (w.now E) o))) where
  present := List.mem_cons_self
  clocks u hu := by
    rcases List.mem_cons.mp hu with rfl | hu
    · exact le_refl _
    · exact (h.clocks u hu).trans (World.clock_le_exec o)
  cache e he := by
    rcases World.exec_redis he with hold | ⟨v, ex, rfl, -⟩ | rfl | ⟨v, m, rfl⟩ | ⟨t, rfl⟩
    · obtain ⟨raw, t, rfl, hp⟩ := h.cache e hold
      exact ⟨raw, t, rfl, hp.later _⟩
    · rcases World.exec_set_some he with hold | ⟨-, rfl⟩
      · obtain ⟨raw, t, rfl, hp⟩ := h.cache e hold
        exact ⟨raw, t, rfl, hp.later _⟩
      · obtain ⟨f, at_, hreads, hf, rfl⟩ := hcan rfl
        refine ⟨_, _, rfl, f, at_, hf, rfl, fun fig hfig => ?_⟩
        have hrequest := h.requests i l n hi
        obtain ⟨t, t', -, ht', -, hd⟩ := hrequest.reads fig (hreads ▸ hfig)
        obtain ⟨u, hu, hcount, hut⟩ := hrequest.since t' ht'
        -- the entry lives for `ttl`, and was put at most `δ` after the first `SELECT`
        have hguard : ex ≤ ttl ∧ w.now E ≤ u.clock + δ := by
          simp only [recent, bne_self_eq_false, Bool.false_or, Bool.and_eq_true, decide_eq_true_eq, List.all_eq_true] at hrecent
          refine ⟨hrecent.1, ?_⟩
          simpa [hcount] using hrecent.2 u hu
        have hex : (ex : ℚ) ≤ ttl := by exact_mod_cast hguard.1
        have hnow := hguard.2
        exact (hd.mono (by linarith)).later _
    · exact absurd rfl hcan
    · exact absurd rfl hcan
    · exact hcan.elim
  requests j l₁ n₁ hj := by
    rcases update_some hj with ⟨rfl, e⟩ | ⟨hne, hj⟩
    · cases e
      exact aging_exec h hi hview hcan hage hm
    · refine (h.requests j l₁ n₁ hj).later (World.clock_le_exec o) (fun ht => ?_) rfl rfl
      rwa [World.trace_exec_ne hne]

/-! ## Runs -/

/-- The requests with their ages. -/
def aging (E : Env) (ttl : Int) (δ : ℚ) (t₀ : Table) : Outline (watched E ttl δ) (App × Call) Reply (Loc × Age) :=
  ((outline E (fun _ => True) t₀).lift ((Over.restrict _ _).trans (.remember _))).beside ages (fun _ _ _ => True)
    fun s ls => Aged ttl δ s.1 s.2 ls

theorem aging_sound (E : Env) (ttl : Int) (δ : ℚ) (t₀ : Table) : (aging E ttl δ t₀).Sound serve := by
  refine Outline.beside_sound (Outline.lift_sound _ (outline_sound E (fun _ => trivial) t₀)) (fun _ => ⟨none, none⟩) ages_serve ?_ ?_
  · intro s ls i c hinv h hi
    refine ⟨.begun c 0, ⟨start_inv hinv.1 (firsts_none hi) c 0, fun _ _ _ _ => trivial⟩, rfl, serve_follows c 0, h.present, h.clocks,
      h.cache, fun j l n hj => ?_⟩
    rcases update_some hj with ⟨-, e⟩ | ⟨-, hj⟩
    · cases e
      exact ⟨fun _ e => (by cases e), fun _ e => (by cases e), fun _ e => (by cases e), fun _ hfig => absurd hfig List.not_mem_nil⟩
    · exact h.requests j l n hj
  · intro s ls i l n o l' hinv h hi hcan hage hen hm hinv'
    obtain ⟨w, past⟩ := s
    have hrecent : recent E ttl δ i o (w, past) = true := (Bool.and_eq_true_iff.mp hen).2
    have hview : l.phase = .idle → w.db.view i = w.db.table := by
      intro hphase
      exact view_idle (hinv.1.fits i l (firsts_some hi)).session (by rw [hphase]; rfl)
    exact ⟨_, ⟨w.now E, rfl⟩, aged_exec h hi hview hcan hage hrecent hm⟩

/-- Statistics that are returned are made of figures each of which was the table's at a moment
    no longer ago than an entry can live, counted from before the request did anything; and
    not before that, if they were not cached. -/
theorem stats_staleness {E : Env} {ttl : Int} {δ : ℚ} {t₀ : Table} {w₀ : World} (h₀ : w₀.db = opened t₀)
    (hcache : w₀.redis STATS_KEY = none) {P : Pool (watched E ttl δ) (App × Call) Reply}
    (hP : Pool.Steps serve (.fresh (w₀, [w₀])) P) {i : Nat} {c : App × Call} {s : StatsOut} {hit : Bool}
    (ht : P.threads i = some ⟨c, .ret (.stats s hit)⟩) :
    ∃ (f : Figures) (at_ : Int), s = f.stats at_ ∧ ∀ fig ∈ f.reads, ∃ u ∈ P.shared.2, InTable u fig ∧
      ∀ v ∈ P.shared.2, v.trace i = [] → v.clock ≤ u.clock + if hit then ttl + δ else 0 := by
  have hinit : (aging E ttl δ t₀).inv (w₀, [w₀]) fun _ => none := by
    refine ⟨⟨inv_initial h₀ (fun h => absurd hcache h), fun _ _ h => by cases h⟩, List.mem_singleton_self _, fun u hu => ?_, fun e he => ?_,
      fun _ _ _ h => by cases h⟩
    · rw [List.mem_singleton.mp hu]
    · rw [hcache] at he
      cases he
  obtain ⟨ls, hAt⟩ := Outline.keeps (aging_sound E ttl δ t₀) hP (Outline.fresh_holds hinit)
  obtain ⟨⟨l, n⟩, hl, hpost, -⟩ := hAt.returned ht
  have hrequest := hAt.inv.2.requests i l n hl
  rcases post_stats hpost with ⟨rfl, raw, hseen, hs⟩ | ⟨rfl, f, at_, hreads, rfl⟩
  · obtain ⟨t, hasked, f, at_, hf, rfl, hdated⟩ := hrequest.seen raw hseen
    have hstats : s = f.stats at_ := by
      rw [statsIn, loads_stats hf] at hs
      have hv : StatsOut.modelValidate (f.stats at_).modelDump = .ok s := hs
      rw [StatsOut.modelValidate_dump] at hv
      exact (Except.ok.inj hv).symm
    refine ⟨f, at_, hstats, fun fig hfig => ?_⟩
    obtain ⟨u, hu, hfig, hle⟩ := hdated fig hfig
    refine ⟨u, hu, hfig, fun v hv hempty => ?_⟩
    have hbegun := (hrequest.asked t hasked).2.2 v hv hempty
    rw [if_pos rfl]
    linarith
  · refine ⟨f, at_, rfl, fun fig hfig => ?_⟩
    obtain ⟨t, t', hasked, -, hle, u, hu, hfig, hut⟩ := hrequest.reads fig (hreads ▸ hfig)
    refine ⟨u, hu, hfig, fun v hv hempty => ?_⟩
    have hbegun := (hrequest.asked t hasked).2.2 v hv hempty
    rw [if_neg (by decide)]
    linarith

end

/-! ## An invalidation that is missed -/

theorem second_nonneg : (0 : ℚ) ≤ 1 := by decide

/-- Every operation takes a second, and the command that drops the statistics is lost. -/
def ageing : Env :=
  { Env.calm (fun _ _ _ => .error .triageTimeout) with
    delay := fun _ => 1
    delay_nonneg := fun _ => second_nonneg
    fault := fun n => if n = 12 then some (.lost "TimeoutError".toList) else none }

/-- A reader, a status change, and a reader after it. -/
def missed : Pool (@watched .ascii ageing 30 10) (App × Call) Reply :=
  Pool.schedule (@serve .ascii)
    (.start 0 (replica, .stats) :: List.replicate 12 (.exec 0) ++ .start 1 (replica, .changeStatus 7 .inProgress) ::
      List.replicate 8 (.exec 1) ++ .start 2 (replica, .stats) :: List.replicate 12 (.exec 2))
    (.fresh (.initial potholes, [.initial potholes]))

/-- How many complaints are open in a hit. -/
def openInHit : Reply → Option Int
  | .stats s true => s.byStatus.get .open_
  | _ => none

theorem openInHit_some {r : Reply} {n : Int} (h : openInHit r = some n) : ∃ s, r = .stats s true ∧ s.byStatus.get .open_ = some n := by
  unfold openInHit at h
  split at h
  · exact ⟨_, rfl, h⟩
  · cases h

/-- No complaint is open, and the second reader is told of one: that was so less than forty
    seconds before it began. -/
theorem stats_staleness_missed : missed.shared.1.db.table.rows.map (·.status) = [.inProgress] ∧ ∃ (s : StatsOut) (f : Figures) (at_ : Int),
    missed.result 2 = some (.stats s true) ∧ s.byStatus.get .open_ = some 1 ∧ s = f.stats at_ ∧
      ∀ fig ∈ f.reads, ∃ u ∈ missed.shared.2, InTable u fig ∧ ∀ v ∈ missed.shared.2, v.trace 2 = [] → v.clock ≤ u.clock + (30 + 10) := by
  obtain ⟨hrow, hstale⟩ : missed.shared.1.db.table.rows.map (·.status) = [.inProgress] ∧ (missed.result 2).bind openInHit = some 1 := by
    decide +kernel
  refine ⟨hrow, ?_⟩
  obtain ⟨r, hr, hopen⟩ := Option.bind_eq_some_iff.mp hstale
  obtain ⟨s, rfl, hopen⟩ := openInHit_some hopen
  obtain ⟨c, ht⟩ := Pool.result_some hr
  obtain ⟨f, at_, hs, hf⟩ := @stats_staleness .ascii ageing 30 10 potholes (.initial potholes) rfl rfl missed (Pool.schedule_steps _ _ _) 2 c s
    true ht
  exact ⟨s, f, at_, hr, hopen, hs, hf⟩

end CivicPulse.Request
