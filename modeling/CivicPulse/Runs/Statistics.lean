/-
  CivicPulse.Runs.Statistics — what the statistics say under concurrent writes. The five
  `SELECT`s of `aggregates` run in one transaction under READ COMMITTED, so each has a
  snapshot of its own.

  - `selected`: what a run's log tells of a session's `SELECT`s, each with the number of
    commits before it.
  - `statistics_in_order`: every figure is complete for the version that its `SELECT` found,
    so the sums are in order; they agree when nothing is submitted in between.
  - `statistics_torn`: a complaint that is submitted after the first `SELECT`.
-/

import CivicPulse.Runs.RequestRuns

namespace CivicPulse.Request

open Text Lang

open Function (update)

/-- The versions that the five `SELECT`s find, of `n` committed ones. -/
structure Selects (n : Nat) where
  counted : Nat
  category : Nat
  priority : Nat
  status : Nat
  triagedBy : Nat
  counted_le : counted ≤ category
  category_le : category ≤ priority
  priority_le : priority ≤ status
  status_le : status ≤ triagedBy
  triagedBy_le : triagedBy ≤ n

namespace Selects

variable {n : Nat}

def figures (v : Selects n) (tab : Nat → Table) : Figures where
  counted := Query.countAvg.eval (tab v.counted)
  category := (tab v.category).groupBy .category
  priority := (tab v.priority).groupBy .priority
  status := (tab v.status).groupBy .status
  triagedBy := (tab v.triagedBy).groupBy .triagedBy

/-- The sums of the statistics are the versions' numbers of rows. -/
theorem sums (v : Selects n) (tab : Nat → Table) (at_ : Int) :
    ((v.figures tab).stats at_).total = (tab v.counted).rows.length ∧
      ((v.figures tab).stats at_).byCategory.sum = (tab v.category).rows.length ∧
      ((v.figures tab).stats at_).byPriority.sum = (tab v.priority).rows.length ∧
      ((v.figures tab).stats at_).byStatus.sum = (tab v.status).rows.length ∧
      ((v.figures tab).stats at_).byTriagedBy.sum = (tab v.triagedBy).rows.length :=
  ⟨rfl, sum_counts _ fun _ => rfl, sum_counts _ fun _ => rfl, sum_counts _ fun _ => rfl, sum_groups _ _⟩

end Selects

/-- Figures that were read in order. -/
theorem selects_of_known {t₀ : Table} {db : Db} {b : Nat} {f : Figures} (h : Known t₀ db b f.reads) :
    ∃ v : Selects db.commits.length, b ≤ v.counted ∧ f = v.figures (version t₀ db.commits) := by
  obtain ⟨hi, hle, hr⟩ := h
  obtain ⟨counted, category, priority, status, triagedBy⟩ := f
  cases hr with
  | @read _ v4 v5 _ hr h5 =>
    cases hr with
    | @read _ v3 v4 _ hr h4 =>
      cases hr with
      | @read _ v2 v3 _ hr h3 =>
        cases hr with
        | @read _ v1 v2 _ hr h2 =>
          cases hr with
          | @read _ v0 v1 _ hr h1 => exact ⟨⟨v1, v2, v3, v4, hi, h2, h3, h4, h5, hle⟩, hr.le.trans h1, rfl⟩

/-- The sums are in order; when no complaint is submitted while they are read, they agree. -/
structure AddUp (ks : List Commit) (v : Selects ks.length) (s : StatsOut) : Prop where
  category : s.total ≤ s.byCategory.sum
  priority : s.byCategory.sum ≤ s.byPriority.sum
  status : s.byPriority.sum ≤ s.byStatus.sum
  triagedBy : s.byStatus.sum ≤ s.byTriagedBy.sum
  quiet : NoCreate ks v.counted v.triagedBy → s.byCategory.sum = s.total ∧ s.byPriority.sum = s.total ∧
    s.byStatus.sum = s.total ∧ s.byTriagedBy.sum = s.total

theorem addUp {t₀ t : Table} {ks : List Commit} (h : History t₀ ks t) (v : Selects ks.length) (at_ : Int) :
    AddUp ks v ((v.figures (version t₀ ks)).stats at_) := by
  obtain ⟨h1, h2, h3, h4, h5⟩ := v.sums (version t₀ ks) at_
  have hs := v.status_le.trans v.triagedBy_le
  have hp := v.priority_le.trans hs
  have hc := v.category_le.trans hp
  refine ⟨?_, ?_, ?_, ?_, fun hno => ?_⟩
  · rw [h1, h2]
    exact_mod_cast history_length h v.counted_le hc
  · rw [h2, h3]
    exact_mod_cast history_length h v.category_le hp
  · rw [h3, h4]
    exact_mod_cast history_length h v.priority_le hs
  · rw [h4, h5]
    exact_mod_cast history_length h v.status_le v.triagedBy_le
  · have same : ∀ u, v.counted ≤ u → u ≤ v.triagedBy →
        ((version t₀ ks u).rows.length : Int) = (version t₀ ks v.counted).rows.length := by
      intro u h1 h2
      refine congrArg Nat.cast (history_length_eq h h1 (h2.trans v.triagedBy_le) ?_)
      intro newer k older c he hlo hhi
      exact hno newer k older c he hlo (hhi.trans_le h2)
    have hcp := v.counted_le.trans v.category_le
    have hcs := hcp.trans v.priority_le
    rw [h1, h2, h3, h4, h5]
    exact ⟨same _ v.counted_le (v.category_le.trans (v.priority_le.trans v.status_le)),
      same _ hcp (v.priority_le.trans v.status_le), same _ hcs v.status_le, same _ (hcs.trans v.status_le) (le_refl _)⟩

/-! ## The log's `SELECT`s -/

def isCommit : Event → Bool
  | ⟨_, .commit, .ok _⟩ => true
  | _ => false

/-- The figure that was selected. -/
def figureOf : Event → Option Query
  | ⟨_, .select q, .ok _⟩ => if q.isFigure then some q else none
  | _ => none

/-- How many commits there are in a log. -/
def committed (log : List Event) : Nat := log.countP isCommit

/-- The figures that session `j` has selected, newest first, each with how many commits came
    before it. -/
def selected (j : Nat) : List Event → List (Query × Nat)
  | [] => []
  | ev :: log => ((if ev.tid = j then figureOf ev else none).map fun q => (q, committed log)).toList ++ selected j log

theorem selected_other {j : Nat} {ev : Event} (h : ev.tid ≠ j ∨ figureOf ev = none) (log : List Event) :
    selected j (ev :: log) = selected j log := by
  rw [selected]
  by_cases ht : ev.tid = j
  · rw [if_pos ht, h.resolve_left fun hne => hne ht]
    rfl
  · rw [if_neg ht]
    rfl

theorem selected_own {ev : Event} {q : Query} (h : figureOf ev = some q) (log : List Event) :
    selected ev.tid (ev :: log) = (q, committed log) :: selected ev.tid log := by
  rw [selected, if_pos rfl, h]
  rfl

theorem committed_cons_le (ev : Event) (log : List Event) : committed log ≤ committed (ev :: log) :=
  (List.sublist_cons_self ev log).countP_le

/-- Nothing was selected after more commits than there had been. -/
theorem selected_cons_le {j : Nat} {ev : Event} {log : List Event} {e : Query × Nat} (h : e ∈ selected j (ev :: log)) :
    e.2 ≤ committed log := by
  induction log generalizing ev with
  | nil =>
    rw [selected, selected, List.append_nil] at h
    obtain ⟨q, -, rfl⟩ := Option.map_eq_some_iff.mp (Option.mem_toList.mp h)
    exact le_refl _
  | cons ev' log ih =>
    rw [selected, List.mem_append] at h
    rcases h with h | h
    · obtain ⟨q, -, rfl⟩ := Option.map_eq_some_iff.mp (Option.mem_toList.mp h)
      exact le_refl _
    · exact (ih h).trans (committed_cons_le ev' log)

theorem selected_le {j : Nat} {log : List Event} {e : Query × Nat} (h : e ∈ selected j log) : e.2 ≤ committed log := by
  cases log with
  | nil => cases h
  | cons ev log => exact (selected_cons_le h).trans (committed_cons_le ev log)

/-- What is selected later is selected after at least as many commits. -/
theorem selected_ordered (j : Nat) (log : List Event) : (selected j log).Pairwise fun e e' => e'.2 ≤ e.2 := by
  induction log with
  | nil => exact .nil
  | cons ev log ih =>
    rw [selected, List.pairwise_append]
    refine ⟨?_, ih, fun e he e' he' => ?_⟩
    · generalize (if ev.tid = j then figureOf ev else none) = o
      cases o with
      | none => exact .nil
      | some q => exact List.pairwise_singleton _ _
    · obtain ⟨q, -, rfl⟩ := Option.map_eq_some_iff.mp (Option.mem_toList.mp he)
      exact selected_le he'

/-- The first that session `j` selects in a log are these, after so many commits each. -/
def Selects.Ran {n : Nat} (v : Selects n) (j : Nat) (log : List Event) : Prop :=
  [(.groupBy .triagedBy, v.triagedBy), (.groupBy .status, v.status), (.groupBy .priority, v.priority),
    (.groupBy .category, v.category), (.countAvg, v.counted)] <:+ selected j log

/-- The figure that a `SELECT` after so many commits finds. -/
def found (t₀ : Table) (ks : List Commit) (e : Query × Nat) : Figure := ⟨e.1, e.1.eval (version t₀ ks e.2)⟩

/-- Figures that were found by the first `SELECT`s of a session. -/
theorem selects_of_found {t₀ : Table} {ks : List Commit} {j : Nat} {log : List Event} {es : List (Query × Nat)} {f : Figures}
    (hcommits : committed log = ks.length) (hes : es <:+ selected j log) (hf : f.reads = es.map (found t₀ ks)) :
    ∃ v : Selects ks.length, v.Ran j log ∧ f = v.figures (version t₀ ks) := by
  obtain ⟨counted, category, priority, status, triagedBy⟩ := f
  rcases es with _ | ⟨⟨q5, v5⟩, _ | ⟨⟨q4, v4⟩, _ | ⟨⟨q3, v3⟩, _ | ⟨⟨q2, v2⟩, _ | ⟨⟨q1, v1⟩, _ | ⟨e, es⟩⟩⟩⟩⟩⟩
  · cases hf
  · cases hf
  · cases hf
  · cases hf
  · cases hf
  · have hordered := (selected_ordered j log).sublist hes.sublist
    have hlast : v5 ≤ ks.length := hcommits ▸ selected_le (hes.subset List.mem_cons_self)
    simp only [List.pairwise_cons, List.mem_cons, List.not_mem_nil, forall_eq_or_imp] at hordered
    obtain ⟨⟨h45, -⟩, ⟨h34, -⟩, ⟨h23, -⟩, ⟨h12, -⟩, -⟩ := hordered
    simp only [Figures.reads, found, List.map_cons, List.map_nil, List.cons.injEq, Sigma.mk.injEq] at hf
    obtain ⟨⟨rfl, h5⟩, ⟨rfl, h4⟩, ⟨rfl, h3⟩, ⟨rfl, h2⟩, ⟨rfl, h1⟩, -⟩ := hf
    cases h5; cases h4; cases h3; cases h2; cases h1
    exact ⟨⟨v1, v2, v3, v4, v5, h12, h23, h34, h45, hlast⟩, hes, rfl⟩
  · cases hf

/-! ## Runs and their logs -/

section

variable [Platform] {t₀ : Table} {ks ks' : List Commit} {log : List Event}

/-- Statistics as they are cached, of figures that some session has found first. -/
def Put (t₀ : Table) (ks : List Commit) (log : List Event) (raw : Raw) : Prop :=
  ∃ (j : Nat) (es : List (Query × Nat)) (f : Figures) (at_ : Int), es <:+ selected j log ∧ f.reads = es.map (found t₀ ks) ∧
    f.Small ∧ raw = .text (f.stats at_).modelDump.dumps

omit [Platform] in
/-- What was found is the same in a longer history. -/
theorem found_grows {es : List (Query × Nat)} (hle : ∀ e ∈ es, e.2 ≤ ks.length) (hg : ks' = ks ∨ ∃ k, ks' = k :: ks) :
    es.map (found t₀ ks') = es.map (found t₀ ks) := by
  refine List.map_congr_left fun e he => ?_
  rcases hg with rfl | ⟨k, rfl⟩
  · rfl
  · rw [found, found, version_cons (hle e he)]

theorem Put.grows {raw : Raw} (h : Put t₀ ks log raw) (hcommits : committed log = ks.length) (hg : ks' = ks ∨ ∃ k, ks' = k :: ks)
    (ev : Event) : Put t₀ ks' (ev :: log) raw := by
  obtain ⟨j, es, f, at_, hes, hf, hsmall, hraw⟩ := h
  refine ⟨j, es, f, at_, hes.trans (List.suffix_append _ _), ?_, hsmall, hraw⟩
  rw [hf, found_grows (fun e he => hcommits ▸ selected_le (hes.subset he)) hg]

/-- What the run's log, since `log₀`, tells of the requests and, if it began empty, of the
    statistics' entry. -/
structure Logged (t₀ : Table) (log₀ : List Event) (empty : Prop) (log : List Event) (w : World) (ls : Nat → Option Loc) : Prop where
  since : w.log = log ++ log₀
  commits : committed log = w.db.commits.length
  idle : ∀ i, ls i = none → selected i log = []
  reads : ∀ i l, ls i = some l → l.reads = (selected i log).map (found t₀ w.db.commits)
  cache : empty → ∀ e, w.redis STATS_KEY = some e → ∃ raw, e.val = .str raw ∧ Put t₀ w.db.commits log raw
  seen : empty → ∀ i l raw, ls i = some l → l.seen = some raw → Put t₀ w.db.commits log raw

variable {E : Env} {log₀ : List Event} {empty : Prop} {w : World} {ls : Nat → Option Loc} {i : Nat} {l l' : Loc} {o : Op}

/-- A commit is in the log when the table has a new version. -/
theorem committed_exec (h : committed log = w.db.commits.length) (hpending : o = .commit → w.db.pending i ≠ []) :
    committed (⟨i, o, (World.exec E i o w).1⟩ :: log) = (World.exec E i o w).2.db.commits.length := by
  by_cases ho : o = .commit
  · subst ho
    rcases World.commit_cases (E := E) (i := i) (w := w) with ⟨hdb, e, he⟩ | ⟨he, hdb⟩
    · rw [he, hdb, ← h]
      exact List.countP_cons_of_neg (by exact Bool.false_ne_true)
    · have hne : (w.db.pending i).isEmpty = false := by simpa using hpending rfl
      rw [he, hdb, Db.commit, if_neg (by rw [hne]; decide), List.length_cons, ← h]
      exact List.countP_cons_of_pos rfl
  · have hsame : (World.exec E i o w).2.db.commits = w.db.commits := by
      rcases World.exec_committed (E := E) (i := i) (w := w) o with h | h
      · exact h.2
      · exact absurd h.1 ho
    rw [hsame, ← h]
    refine List.countP_cons_of_neg ?_
    cases o with
    | commit => exact absurd rfl ho
    | _ => exact Bool.false_ne_true

/-- What an operation of request `i` adds to its own reads is what the log tells of it. -/
theorem reads_exec (h : Logged t₀ log₀ empty log w ls) (hi : ls i = some l) (hhist : History t₀ w.db.commits w.db.table)
    (hview : l.phase = .idle → w.db.view i = w.db.table) (hcan : Performs l o) (hm : Moves l o (World.exec E i o w).1 l') :
    l'.reads = (selected i (⟨i, o, (World.exec E i o w).1⟩ :: log)).map (found t₀ w.db.commits) := by
  have hskip : l'.reads = l.reads → figureOf ⟨i, o, (World.exec E i o w).1⟩ = none →
      l'.reads = (selected i (⟨i, o, (World.exec E i o w).1⟩ :: log)).map (found t₀ w.db.commits) := by
    intro hreads hnone
    rw [selected_other (.inr hnone), hreads]
    exact h.reads i l hi
  cases o with
  | get k => exact hskip (moves_get hm).1 rfl
  | select q =>
    have hphase : l.phase = .idle := by cases q <;> first | exact hcan.1 | exact hcan
    rcases moves_select hm with ⟨hreads, -, hfig⟩ | ⟨hq, a, ha, hreads, -⟩
    · refine hskip hreads ?_
      generalize (World.exec E i (.select q) w).1 = r at hfig ⊢
      cases r with
      | error e => rfl
      | ok a => exact if_neg (by simp [hfig a rfl])
    · have hval : a = q.eval w.db.table := by
        rcases (World.select_cases (E := E) (i := i) (w := w) q).2 with ⟨e, he⟩ | ⟨-, he⟩
        · cases he.symm.trans ha
        · rw [hview hphase] at he
          exact (Except.ok.inj (he.symm.trans ha)).symm
      have hfig : figureOf ⟨i, .select q, .ok a⟩ = some q := if_pos hq
      rw [ha, selected_own hfig, List.map_cons, hreads, hval, h.reads i l hi, found, h.commits, version_length hhist]
  | _ => exact hskip (moves_aside hm (fun _ e => by cases e) fun _ e => by cases e).2 rfl

omit [Platform] in
/-- What a request has seen is what it had, or what it just read. -/
theorem seen_exec {r : o.Ans} (hm : Moves l o r l') : l'.seen = none ∨ l'.seen = l.seen ∨
    ∃ raw, (⟨o, r⟩ : Σ o : Op, o.Ans) = ⟨.get STATS_KEY, .ok (some raw)⟩ ∧ l'.seen = some raw := by
  cases o with
  | get k =>
    rcases (moves_get hm).2 with h | ⟨rfl, raw, rfl, h⟩
    · exact .inr (.inl h)
    · exact .inr (.inr ⟨raw, rfl, h⟩)
  | select q =>
    rcases moves_select hm with ⟨-, h, -⟩ | ⟨-, a, -, -, h⟩
    · exact .inr (.inl h)
    · exact .inl h
  | _ => exact .inr (.inl (moves_aside hm (fun _ e => by cases e) fun _ e => by cases e).1)

theorem logged_exec (h : Logged t₀ log₀ empty log w ls) (hinv : Inv (fun _ _ => True) t₀ w ls) (hi : ls i = some l) (hcan : Performs l o)
    (hm : Moves l o (World.exec E i o w).1 l') :
    Logged t₀ log₀ empty (⟨i, o, (World.exec E i o w).1⟩ :: log) (World.exec E i o w).2 (update ls i (some l')) := by
  have hgrows := World.exec_commits (E := E) (i := i) (w := w) o
  have hput : ∀ {raw : Raw}, Put t₀ w.db.commits log raw →
      Put t₀ (World.exec E i o w).2.db.commits (⟨i, o, (World.exec E i o w).1⟩ :: log) raw := fun hp => hp.grows h.commits hgrows _
  have hpending : o = .commit → w.db.pending i ≠ [] := by
    rintro rfl
    rw [(hinv.fits i l hi).session.pending]
    exact hcan
  have hview : l.phase = .idle → w.db.view i = w.db.table := by
    intro hphase
    exact view_idle (hinv.fits i l hi).session (by rw [hphase]; rfl)
  have hother : ∀ j, j ≠ i → selected j (⟨i, o, (World.exec E i o w).1⟩ :: log) = selected j log :=
    fun j hj => selected_other (.inl hj.symm) log
  refine ⟨?_, committed_exec h.commits hpending, fun j hj => ?_, fun j m hj => ?_, fun hempty e he => ?_, fun hempty j m raw hj hraw => ?_⟩
  · show _ :: w.log = _
    rw [h.since]
    rfl
  · obtain ⟨hne, hj⟩ := update_none hj
    rw [hother j hne]
    exact h.idle j hj
  · rcases update_some hj with ⟨rfl, rfl⟩ | ⟨hne, hj⟩
    · rw [reads_exec h hi hinv.history hview hcan hm]
      exact (found_grows (fun e he => h.commits ▸ selected_cons_le he) hgrows).symm
    · rw [hother j hne, h.reads j m hj]
      exact (found_grows (fun e he => h.commits ▸ selected_le he) hgrows).symm
  · rcases World.exec_redis he with hold | ⟨v, ex, rfl, hv⟩ | rfl | ⟨v, n, rfl⟩ | ⟨t, rfl⟩
    · obtain ⟨raw, hval, hp⟩ := h.cache hempty e hold
      exact ⟨raw, hval, hput hp⟩
    · obtain ⟨f, at_, hreads, hf, rfl⟩ := hcan rfl
      exact ⟨_, hv, hput ⟨i, _, f, at_, List.suffix_refl _, hreads ▸ h.reads i l hi, hf, rfl⟩⟩
    · exact absurd rfl hcan
    · exact absurd rfl hcan
    · exact hcan.elim
  · rcases update_some hj with ⟨rfl, rfl⟩ | ⟨hne, hj⟩
    · rcases seen_exec hm with hnone | hseen | ⟨raw', hget, hseen⟩
      · rw [hnone] at hraw
        cases hraw
      · exact hput (h.seen hempty j l raw hi (hseen ▸ hraw))
      · rw [hseen] at hraw
        cases hraw
        obtain ⟨rfl, hans⟩ := Sigma.mk.inj hget
        obtain ⟨e, he, hv⟩ := World.exec_get (eq_of_heq hans)
        obtain ⟨raw'', hval, hp⟩ := h.cache hempty e he
        rcases hv with hv | ⟨n, hv, -⟩
        · cases hval.symm.trans hv
          exact hput hp
        · cases hval.symm.trans hv
    · exact hput (h.seen hempty j m raw hj hraw)

/-- The requests, and what the log tells of them. -/
def logging (E : Env) (t₀ : Table) (log₀ : List Event) (empty : Prop) : Outline (machine E) (App × Call) Reply Loc :=
  { outline E (fun _ => True) t₀ with
    inv := fun w ls => (outline E (fun _ => True) t₀).inv w ls ∧ ∃ log, Logged t₀ log₀ empty log w ls }

theorem logging_sound (E : Env) (t₀ : Table) (log₀ : List Event) (empty : Prop) : (logging E t₀ log₀ empty).Sound serve where
  start := by
    rintro w ls i c ⟨hinv, log, h⟩ hi
    refine ⟨.begun c 0, ⟨⟨start_inv hinv.1 hi c 0, fun _ _ _ _ => trivial⟩, log, h.since, h.commits, fun j hj => ?_, fun j m hj => ?_, h.cache,
      fun hempty j m raw hj hraw => ?_⟩, rfl, serve_follows c 0⟩
    · exact h.idle j (update_none hj).2
    · rcases update_some hj with ⟨rfl, rfl⟩ | ⟨-, hj⟩
      · rw [h.idle j hi]
        rfl
      · exact h.reads j m hj
    · rcases update_some hj with ⟨rfl, rfl⟩ | ⟨-, hj⟩
      · cases hraw
      · exact h.seen hempty j m raw hj hraw
  exec := by
    rintro w ls i l o ⟨hinv, log, h⟩ hi hcan hen
    obtain ⟨l', hm, hinv', hb⟩ := (outline_sound E (fun _ => trivial) t₀).exec o hinv hi hcan hen
    exact ⟨l', hm, ⟨hinv', _, logged_exec h hinv.1 hi hcan hm⟩, hb⟩

end

/-! ## Answers -/

variable [Platform] {E : Env} {t₀ : Table} {P : Pool (machine E) (App × Call) Reply}

/-- Whatever runs beside it, statistics that are returned hold figures of committed versions
    in the order of the `SELECT`s that the run's log has: the request's own or, from a cache
    that began empty, another one's. -/
theorem statistics_in_order {w₀ : World} (h₀ : w₀.db = opened t₀) (hP : RequestRun E w₀ P) (i : Nat) (c : App × Call)
    (s : StatsOut) (hit : Bool) (ht : P.threads i = some ⟨c, .ret (.stats s hit)⟩)
    (hcache : hit = true → w₀.redis STATS_KEY = none) :
    ∃ (log : List Event) (j : Nat) (v : Selects P.shared.db.commits.length) (at_ : Int),
      P.shared.log = log ++ w₀.log ∧ committed log = P.shared.db.commits.length ∧ (hit = false → j = i) ∧ v.Ran j log ∧
      s = (v.figures (version t₀ P.shared.db.commits)).stats at_ ∧ AddUp P.shared.db.commits v s := by
  have hinit : (logging E t₀ w₀.log (w₀.redis STATS_KEY = none)).inv w₀ fun _ => none := by
    refine ⟨⟨inv_initial h₀ fun _ => trivial, fun _ _ h => by cases h⟩, [], rfl, ?_, fun _ _ => rfl, fun _ _ h => (by cases h), fun hempty e he => ?_,
      fun _ _ _ _ h => by cases h⟩
    · rw [h₀]
      rfl
    · rw [hempty] at he
      cases he
  obtain ⟨ls, h⟩ := Outline.keeps (logging_sound E t₀ w₀.log _) hP (Outline.fresh_holds hinit)
  obtain ⟨hinv, log, hlog⟩ := h.inv
  obtain ⟨l, hl, hpost⟩ := h.returned ht
  obtain ⟨j, es, f, at_, hj, hes, hf, rfl⟩ : ∃ (j : Nat) (es : List (Query × Nat)) (f : Figures) (at_ : Int), (hit = false → j = i) ∧
      es <:+ selected j log ∧ f.reads = es.map (found t₀ P.shared.db.commits) ∧ s = f.stats at_ := by
    rcases post_stats hpost with ⟨rfl, raw, hseen, hstats⟩ | ⟨rfl, f, at_, hreads, rfl⟩
    · obtain ⟨j, es, f, at_, hes, hf, hsmall, rfl⟩ := hlog.seen (hcache rfl) i l raw hl hseen
      refine ⟨j, es, f, at_, fun e => (by cases e), hes, hf, ?_⟩
      rw [statsIn, loads_stats hsmall] at hstats
      have hv : StatsOut.modelValidate (f.stats at_).modelDump = .ok s := hstats
      rw [StatsOut.modelValidate_dump] at hv
      exact (Except.ok.inj hv).symm
    · exact ⟨i, _, f, at_, fun _ => rfl, List.suffix_refl _, hreads ▸ hlog.reads i l hl, rfl⟩
  obtain ⟨v, hran, rfl⟩ := selects_of_found hlog.commits hes hf
  exact ⟨log, j, v, at_, hlog.since, hlog.commits, hj, hran, rfl, addUp hinv.1.history v at_⟩

/-! ## A submission in between -/

omit [Platform] in
section

/-- The totals of a reply: all rows, then the sum of each column's groups. -/
def sums : Reply → List Int
  | .stats s _ => [s.total, s.byCategory.sum, s.byPriority.sum, s.byStatus.sum, s.byTriagedBy.sum]
  | _ => []

/-- A reader performs `n` operations, a submission runs, and the reader goes on. -/
def interrupted (n : Nat) : Pool (@machine .ascii (.calm fun _ _ _ => .error .triageTimeout)) (App × Call) Reply :=
  Pool.schedule (@serve .ascii)
    (.start 0 (replica, .stats) :: .start 1 (replica, .create leak) ::
      (List.replicate n (.exec 0) ++ List.replicate 24 (.exec 1) ++ List.replicate 12 (.exec 0)))
    (.fresh (.initial .empty))

theorem interrupted_run (n : Nat) : @RequestRun .ascii _ (.initial .empty) (interrupted n) := Pool.schedule_steps _ _ _

/-- After the first `SELECT`: no complaint in all, and one in each column. -/
theorem statistics_torn : @RequestRun .ascii _ (.initial .empty) (interrupted 2) ∧
    ((interrupted 2).result 0).map sums = some [0, 1, 1, 1, 1] :=
  ⟨interrupted_run 2, by decide +kernel⟩

/-- The statistics in a reply that were not cached. -/
def computed : Reply → Option StatsOut
  | .stats s false => some s
  | _ => none

/-- Before it: one complaint throughout, and every `SELECT` comes after the one commit. -/
theorem statistics_in_order_leak : ∃ (s : StatsOut) (log : List Event) (v : Selects (interrupted 1).shared.db.commits.length) (at_ : Int),
    ((interrupted 1).result 0).bind computed = some s ∧ sums (.stats s false) = [1, 1, 1, 1, 1] ∧
      (interrupted 1).shared.log = log ++ [] ∧ v.Ran 0 log ∧ [v.counted, v.category, v.priority, v.status, v.triagedBy] = [1, 1, 1, 1, 1] ∧
      s = (v.figures (version .empty (interrupted 1).shared.db.commits)).stats at_ ∧ AddUp (interrupted 1).shared.db.commits v s := by
  obtain ⟨hsums, hselected⟩ : (((interrupted 1).result 0).bind computed).map (fun s => sums (.stats s false)) = some [1, 1, 1, 1, 1] ∧
      (selected 0 (interrupted 1).shared.log).map Prod.snd = [1, 1, 1, 1, 1] := by decide +kernel
  obtain ⟨s, hs, hsum⟩ := Option.map_eq_some_iff.mp hsums
  obtain ⟨reply, hreply, hcomputed⟩ := Option.bind_eq_some_iff.mp hs
  obtain ⟨c, ht⟩ := Pool.result_some hreply
  obtain rfl : reply = .stats s false := by
    unfold computed at hcomputed
    split at hcomputed
    · cases hcomputed
      rfl
    · cases hcomputed
  obtain ⟨log, j, v, at_, hlog, -, hj, hran, hv, hadd⟩ :=
    @statistics_in_order .ascii _ _ _ _ rfl (interrupted_run 1) 0 c s false ht fun h => nomatch h
  obtain rfl := hj rfl
  rw [hlog, show (World.initial .empty).log = [] from rfl, List.append_nil] at hselected
  have hversions := List.IsSuffix.eq_of_length (hran.map Prod.snd) (by rw [hselected]; rfl)
  rw [hselected] at hversions
  exact ⟨s, log, v, at_, hs, hsum, hlog, hran, congrArg List.reverse hversions, hv, hadd⟩

end

end CivicPulse.Request
