/-
  CivicPulse.Runs.Atomic — a complaint is created whole or not at all.

  A `create` request crosses triage, the session and the statistics' entry; any of its
  operations may fail, any number of them. What is left afterwards is the table from before,
  and an exception; or one more row, the complaint that is returned.
  - `insert_row`: the row that an `INSERT` leaves is the draft with its times.
  - `store_alone`: from the draft on, the request ends in one of the two ways.
  - `create_atomic`: so does the whole request.
-/

import CivicPulse.Services.Alone

namespace CivicPulse

open Text Lang

variable [Platform] {E : Env} {i : Nat} {w w' : World}

/-! ## The statements -/

theorem World.insert_row {d : Draft} {c : Complaint} (h : (World.exec E i (.insert d) w).1 = .ok c) :
    d.row (E.utc w.ticks 0) (E.utc w.ticks 1) = some c := by
  have hstmt : (w.dbOp E (insertStmt i (E.utc w.ticks 0) (E.utc w.ticks 1) d)).1 = .ok c := h
  rcases dbOp_cases (E := E) (w := w) (insertStmt i (E.utc w.ticks 0) (E.utc w.ticks 1) d) with ⟨e, he⟩ | he
  · rw [he] at hstmt
    cases hstmt
  · rw [he, insertStmt] at hstmt
    split at hstmt
    · cases hstmt
    · rename_i row hrow
      split at hstmt
      · split at hstmt
        · cases hstmt
        · cases hstmt
          exact hrow
      · cases hstmt

/-! ## Ends -/

omit [Platform]

/-- A delete of the statistics' entry, and a commit that went through. -/
def Event.Deletes (ev : Event) : Prop := ∃ ks, ev.op = .delete ks ∧ STATS_KEY ∈ ks

def Event.Commits (ev : Event) : Prop := ∃ j, ev = ⟨j, .commit, .ok ()⟩

theorem not_deletes_of_aside {ev : Event} (h : Aside ev.op) : ¬ ev.Deletes := by
  intro hd
  obtain ⟨ks, he, hk⟩ := hd
  rw [he] at h
  exact h hk

theorem not_deletes {ev : Event} (h : ∀ ks, ev.op ≠ .delete ks) : ¬ ev.Deletes := by
  intro hd
  obtain ⟨ks, he, -⟩ := hd
  exact h ks he

/-- Every delete of the statistics' entry has a commit before it (newest first). -/
def CommitFirst (evs : List Event) : Prop :=
  ∀ newer ev older, evs = newer ++ ev :: older → ev.Deletes → ∃ k ∈ older, k.Commits

theorem commitFirst_of_none {evs : List Event} (h : ∀ ev ∈ evs, ¬ ev.Deletes) : CommitFirst evs := by
  intro newer ev older he hd
  exact absurd hd (h ev (by simp [he]))

theorem commitFirst_cons {ev : Event} {evs : List Event} (h : CommitFirst evs) (hev : ev.Deletes → ∃ k ∈ evs, k.Commits) :
    CommitFirst (ev :: evs) := by
  intro newer x older he hd
  rcases newer with _ | ⟨y, newer⟩
  · obtain ⟨rfl, rfl⟩ := List.cons.inj he
    exact hev hd
  · exact h newer x older (List.cons.inj he).2 hd

theorem commitFirst_append {evs evs' : List Event} (h : CommitFirst evs) (h' : ∀ ev ∈ evs', ¬ ev.Deletes) :
    CommitFirst (evs' ++ evs) := by
  induction evs' with
  | nil => exact h
  | cons ev evs' ih =>
    exact commitFirst_cons (ih fun x hx => h' x (List.mem_cons_of_mem _ hx)) fun hd => absurd hd (h' ev List.mem_cons_self)

theorem commitFirst_older {evs older : List Event} (h : CommitFirst evs) (h' : ∀ ev ∈ older, ¬ ev.Deletes) :
    CommitFirst (evs ++ older) := by
  intro newer ev rest he hd
  rcases List.append_eq_append_iff.mp he with ⟨d, -, hd'⟩ | ⟨d, hd', hrest⟩
  · exact absurd hd (h' ev (by simp [hd']))
  · rcases d with _ | ⟨x, d⟩
    · exact absurd hd (h' ev (by simp [show older = ev :: rest by simpa using hrest.symm]))
    · obtain ⟨rfl, rfl⟩ := List.cons.inj hrest
      obtain ⟨k, hk, hc⟩ := h newer ev d hd' hd
      exact ⟨k, List.mem_append_left _ hk, hc⟩

/-- How a request ends that performed `evs` (newest first) and stores at most a row, one
    that satisfies `Row`. -/
structure AllOrNothing (t : Table) (Row : Complaint → Prop) (r : Except Exc Complaint) (t' : Table) (evs : List Event) :
    Prop where
  cases : (∃ c, r = .ok c ∧ Row c ∧ c.id ∉ t.ids ∧ t'.rows = t.rows ++ [c]) ∨
    (∃ e, r = .error e) ∧ t' = t ∧ ∀ ev ∈ evs, ¬ ev.Deletes
  commitFirst : CommitFirst evs

variable {t t' : Table} {Row : Complaint → Prop} {r : Except Exc Complaint} {evs : List Event}

/-- More operations at both ends, none of which deletes the entry. -/
theorem AllOrNothing.within (h : AllOrNothing t Row r t' evs) {newer older : List Event} (hn : ∀ ev ∈ newer, ¬ ev.Deletes)
    (ho : ∀ ev ∈ older, ¬ ev.Deletes) : AllOrNothing t Row r t' (newer ++ (evs ++ older)) := by
  refine ⟨h.cases.imp_right fun hc => ⟨hc.1, hc.2.1, fun ev hev => ?_⟩,
    commitFirst_append (commitFirst_older h.commitFirst ho) hn⟩
  rcases List.mem_append.mp hev with h | h
  · exact hn ev h
  · exact (List.mem_append.mp h).elim (hc.2.2 ev) (ho ev)

theorem AllOrNothing.mono {Row' : Complaint → Prop} (hrow : ∀ c, Row c → Row' c) (h : AllOrNothing t Row r t' evs) :
    AllOrNothing t Row' r t' evs :=
  ⟨h.cases.imp_left fun ⟨c, hc, hr, h⟩ => ⟨c, hc, hrow c hr, h⟩, h.commitFirst⟩

/-- Nothing was stored, and nothing deleted. -/
theorem AllOrNothing.nothing {e : Exc} (h : ∀ ev ∈ evs, ¬ ev.Deletes) : AllOrNothing t Row (.error e) t evs :=
  ⟨.inr ⟨⟨e, rfl⟩, rfl, h⟩, commitFirst_of_none h⟩

/-! ## The request -/

section

variable [Platform]

/-- From the draft on: one statement, the commit, the delete. -/
theorem store_alone {d : Draft} {w : World} (hidle : w.db.pending i = []) :
    wp (machine E) i (do
      let complaint ← Repository.add d
      Repository.commit
      StatsService.invalidate
      return complaint) (fun r w' => ∃ evs, w'.log = evs ++ w.log ∧
        AllOrNothing w.db.table (fun c => ∃ t₁ t₂, d.row t₁ t₂ = some c) r w'.db.table evs) w := by
  show wp (machine E) i (.op (.insert d) fun r => ofExcept r >>= fun complaint => .op .commit fun r' =>
    ofExcept r' >>= fun _ => StatsService.invalidate >>= fun _ => .ret complaint) _ w
  rw [wp_op]
  rcases World.insert_cases (E := E) (i := i) (w := w) d with ⟨hdb, e, hins⟩ | ⟨c, -, -, hnew, hins, hdb⟩
  · -- the statement fails
    rw [hins, ofExcept_error, Prog.raise_bind, wp_raise]
    refine ⟨[_], rfl, ?_⟩
    rw [show ((machine E).exec i (.insert d) w).2.db = w.db from hdb]
    exact .nothing fun ev hev => not_deletes fun ks he => by
      rw [List.mem_singleton.mp hev] at he
      cases he
  have hrow := World.insert_row hins
  have hlog : (World.exec E i (.insert d) w).2.log = [⟨i, .insert d, (World.exec E i (.insert d) w).1⟩] ++ w.log := rfl
  rw [hins, ofExcept_ok, Prog.ret_bind, wp_op]
  rw [Db.view_idle hidle] at hnew
  generalize (World.exec E i (.insert d) w).2 = w₁ at hdb hlog ⊢
  rcases World.commit_cases (E := E) (i := i) (w := w₁) with ⟨hdb', e, hcom⟩ | ⟨hcom, hdb'⟩
  · -- the commit fails, and has not committed
    rw [hcom, ofExcept_error, Prog.raise_bind, wp_raise]
    refine ⟨_ :: _, congrArg (List.cons _) hlog, ?_⟩
    rw [show ((machine E).exec i .commit w₁).2.db = w₁.db from hdb', hdb]
    refine .nothing fun ev hev => not_deletes fun ks he => ?_
    rcases List.mem_cons.mp hev with h | h
    · rw [h] at he
      cases he
    · rw [List.mem_singleton.mp h] at he
      cases he
  · rw [hcom, ofExcept_ok, Prog.ret_bind, wp_bind]
    refine wp_mono (fun r w' h => ?_) (delete_alone [STATS_KEY] _)
    obtain ⟨rfl, hdb'', ans, evs, hlog', ha⟩ := h
    have hevs : w'.log = (evs ++ [⟨i, .delete [STATS_KEY], ans⟩, ⟨i, .commit, (World.exec E i .commit w₁).1⟩,
        ⟨i, .insert d, (World.exec E i (.insert d) w).1⟩]) ++ w.log := by
      rw [hlog', show ((machine E).exec i .commit w₁).2.log = ⟨i, .commit, (World.exec E i .commit w₁).1⟩ :: w₁.log from rfl,
        hlog, List.append_assoc]
      rfl
    have hcommitted : Event.Commits ⟨i, .commit, (World.exec E i .commit w₁).1⟩ := ⟨i, by rw [hcom]⟩
    refine ⟨_, hevs, .inl ⟨c, rfl, ⟨_, _, hrow⟩, hnew, ?_⟩, ?_⟩
    · show w'.db.table.rows = _
      rw [hdb'', show ((machine E).exec i .commit w₁).2.db = w₁.db.commit i from hdb', hdb, Db.commit_write hidle,
        Write.apply, Table.rows_insert hnew]
    · refine commitFirst_append (commitFirst_cons (commitFirst_of_none fun ev hev => not_deletes fun ks he => ?_)
        fun _ => ⟨_, List.mem_cons_self, hcommitted⟩) fun ev hev => not_deletes_of_aside (ha ev hev)
      rcases List.mem_cons.mp hev with h | h
      · rw [h] at he
        cases he
      · rw [List.mem_singleton.mp h] at he
        cases he

/-- The row that `create` is to leave: the accepted body with the outcome of its triage,
    open. -/
structure CreatedFrom (E : Env) (i : Nat) (svc : TriageService) (data : ComplaintCreate) (w : World) (c : Complaint) :
    Prop where
  id : c.id = E.uuid w.ticks
  text : c.text = data.text.str
  location : c.location = data.location.str
  reporterContact : c.reporterContact = data.reporterContact.map (·.str)
  status : c.status = .open_
  outcome : ∃ o r, ((svc.triage (uuidText c.id) data.text.str data.location.str).run (machine E) i
      (World.exec E i .uuid4 w).2).1 = .ok o ∧ o.result = some r ∧ c.category = r.category ∧ c.priority = r.priority ∧
    c.aiSummary = some r.summary ∧ strOf o.triagedBy = some c.triagedBy ∧ c.triageLatencyMs = o.latencyMs

theorem createdFrom_row {svc : TriageService} {data : ComplaintCreate} {w : World} {o : TriageOutcome} {r : TriageResult}
    {c : Complaint} {t₁ t₂ : Int} (hr : o.result = some r)
    (ho : ((svc.triage (uuidText (E.uuid w.ticks)) data.text.str data.location.str).run (machine E) i
      (World.exec E i .uuid4 w).2).1 = .ok o)
    (hc : (ComplaintService.draft (E.uuid w.ticks) data r o).row t₁ t₂ = some c) : CreatedFrom E i svc data w c := by
  obtain ⟨by_, hby, rfl⟩ := Option.map_eq_some_iff.mp hc
  exact ⟨rfl, rfl, rfl, rfl, rfl, o, r, ho, hr, rfl, rfl, rfl, hby, rfl⟩

/-- In a session of its own, `create` stores its complaint and returns it, or raises and
    leaves the table as it was, whichever of its operations fail. -/
theorem create_atomic (E : Env) (i : Nat) (svc : TriageService) (data : ComplaintCreate) (w : World)
    (hidle : w.db.pending i = []) : wp (machine E) i (repository (ComplaintService.create svc data))
      (fun r w' => ∃ evs, w'.log = evs ++ w.log ∧
        AllOrNothing w.db.table (CreatedFrom E i svc data w) r w'.db.table evs) w := by
  rw [wp_repository, ComplaintService.create, wp_op, wp_bind]
  refine wp_mono (fun res w₁ h => ?_) (wp_and (triage_quiet svc _ _ _ _) (wp_run _ _))
  obtain ⟨hquiet, hrun⟩ := h
  obtain ⟨evs, hlog, haside⟩ := hquiet.log
  have hlog : w₁.log = (evs ++ [⟨i, .uuid4, E.uuid w.ticks⟩]) ++ w.log := by
    rw [hlog, List.append_assoc]
    rfl
  have hdb : w₁.db = w.db := hquiet.db
  have hnone : ∀ ev ∈ evs ++ [⟨i, .uuid4, E.uuid w.ticks⟩], ¬ ev.Deletes := by
    intro ev hev
    refine not_deletes_of_aside ?_
    rcases List.mem_append.mp hev with h | h
    · exact haside ev h
    · rw [List.mem_singleton.mp h]
      trivial
  -- the session's end adds no delete and no commit to what the body does from `w₁` on
  have finish : ∀ (r : Except Exc Complaint) (w₂ : World),
      (∃ evs', w₂.log = evs' ++ w₁.log ∧ AllOrNothing w.db.table (CreatedFrom E i svc data w) r w₂.db.table evs') →
      ∃ evs', (ended E i r w₂).log = evs' ++ w.log ∧
        AllOrNothing w.db.table (CreatedFrom E i svc data w) r (ended E i r w₂).db.table evs' := by
    intro r w₂ h
    obtain ⟨evs', hlog', hall⟩ := h
    obtain ⟨evs'', hlog'', hend⟩ := ended_log (E := E) (i := i) r w₂
    rw [ended_table]
    refine ⟨_, by rw [hlog'', hlog', hlog, ← List.append_assoc evs', ← List.append_assoc evs''], hall.within ?_ hnone⟩
    intro ev hev
    refine not_deletes fun ks he => ?_
    rcases hend ev hev with h | h
    · rw [h] at he
      cases he
    · rw [h] at he
      cases he
  rcases res with e | o
  · exact finish _ _ ⟨[], rfl, hdb ▸ .nothing fun ev hev => by cases hev⟩
  · rw [Post.bind]
    split
    · exact finish _ _ ⟨[], rfl, hdb ▸ .nothing fun ev hev => by cases hev⟩
    · rename_i result hr
      have hidle₁ : w₁.db.pending i = [] := by rw [hdb]; exact hidle
      refine wp_mono (fun r w₂ h => finish r w₂ ?_) (store_alone hidle₁)
      obtain ⟨evs', hlog', hall⟩ := h
      rw [hdb] at hall
      refine ⟨evs', hlog', hall.mono fun c hc => ?_⟩
      obtain ⟨t₁, t₂, hc⟩ := hc
      exact createdFrom_row hr (congrArg Prod.fst hrun) hc

end

/-- A submission to the rules. -/
def lampBody : ComplaintCreate where
  text := ⟨"the street lamp is broken".toList, by decide, by decide, by decide⟩
  location := ⟨"canal road, ward 9".toList, by decide, by decide, by decide⟩
  reporterContact := none

theorem create_atomic_lamp : ∃ c,
    ((@repository Complaint (@ComplaintService.create .ascii ⟨.rules, .rules, 86400⟩ lampBody)).run
      (@machine .ascii (.calm fun _ _ _ => .error .triageTimeout)) 0 (.initial .empty)).1 = .ok c ∧
    ((@repository Complaint (@ComplaintService.create .ascii ⟨.rules, .rules, 86400⟩ lampBody)).run
      (@machine .ascii (.calm fun _ _ _ => .error .triageTimeout)) 0 (.initial .empty)).2.db.table.rows = [c] := by
  obtain ⟨evs, -, hall⟩ := @create_atomic .ascii (.calm fun _ _ _ => .error .triageTimeout) 0 ⟨.rules, .rules, 86400⟩ lampBody
    (.initial .empty) rfl
  rcases hall.cases with ⟨c, hc, -, -, hrows⟩ | ⟨he, -⟩
  · exact ⟨c, hc, hrows⟩
  · obtain ⟨e, he⟩ := he
    have hok : ((@repository Complaint (@ComplaintService.create .ascii ⟨.rules, .rules, 86400⟩ lampBody)).run
      (@machine .ascii (.calm fun _ _ _ => .error .triageTimeout)) 0 (.initial .empty)).1.toOption.isSome = true := by
      decide +kernel
    rw [he] at hok
    cases hok

end CivicPulse
