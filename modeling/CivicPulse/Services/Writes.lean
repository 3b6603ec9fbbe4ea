/-
  CivicPulse.Services.Writes — what a submission and a change of status do to the table when
  they run alone, whatever becomes of their Redis commands.

  A statement, or the commit, may meet with a failure of the connection.
  - `store_created`: the row is inserted and committed, or the table is as it was.
  - `changeStatus_moved`: so is the status.
-/

import CivicPulse.Services.Alone

namespace CivicPulse.Outages

open Text Lang

/-! ## Outcomes -/

/-- What the failure of a connection makes of a statement, or of a commit. -/
def met {α : Type} (f : Option Str) (t : Table) (x : Except Exc α × Table) : Except Exc α × Table :=
  match f with
  | some cls => (.error (.databaseError cls), t)
  | none => x

/-- What storing this row ends in, with what the `INSERT` and the commit meet. -/
def created (f g : Option Str) (t : Table) (c : Complaint) : Except Exc Complaint × Table :=
  met f t (if c.Constraints ∧ int4 c.triageLatencyMs = true then
    if c.id ∈ t.ids then (.error World.refused, t) else met g t (.ok c, t.insert c)
  else (.error World.refused, t))

/-- What a change of status ends in, with what the `SELECT`, the `UPDATE` and the commit meet. -/
def moved (f g h : Option Str) (t : Table) (id : Uuid) (target : Status) (at_ : Int) : Except Exc Complaint × Table :=
  met f t (match t.find id with
    | none => (.error (.notFoundError "complaint".toList), t)
    | some c =>
      if canTransition c.status target then
        met g t (met h t (.ok { c with status := target, updatedAt := at_ }, t.setStatus id target at_))
      else (.error (.invalidTransitionError c.status target), t))

section

variable [Platform] {E : Env} {i : Nat} {w : World} {α : Type}

/-! ## Statements -/

omit [Platform] in
/-- A statement, and what it meets. -/
theorem exec_stmt {β : Type} (stmt : Db → Except Exc β × Db) :
    (w.dbOp E stmt).1 = (match E.dbFault w.ticks with | some cls => .error (.databaseError cls) | none => (stmt w.db).1) ∧
      (w.dbOp E stmt).2.2 = match E.dbFault w.ticks with | some _ => w.db | none => (stmt w.db).2 := by
  unfold World.dbOp
  cases E.dbFault w.ticks <;> exact ⟨rfl, rfl⟩

/-- The commit of a statement, and the drop of the statistics, whatever becomes of that. -/
theorem commit_alone {db : Db} {wr : Write} {id : Uuid} (hidle : db.pending i = []) (hw : w.db = db.write i wr id) (a : α) :
    wp (machine E) i (do Repository.commit; StatsService.invalidate; return a)
      (fun r w' => (r, w'.db.table) = met (E.dbFault w.ticks) db.table (.ok a, wr.apply db.table)) w := by
  show wp (machine E) i (.op .commit fun r => ofExcept r >>= fun _ => StatsService.invalidate >>= fun _ => .ret a) _ w
  obtain ⟨hcom, hdb⟩ := exec_stmt (E := E) (w := w) fun db => (.ok (), db.commit i)
  have hcom : ((machine E).exec i .commit w).1 = _ := hcom
  have hdb : ((machine E).exec i .commit w).2.db = _ := hdb
  rw [wp_op]
  rcases hf : E.dbFault w.ticks with _ | cls
  · rw [hf] at hcom hdb
    rw [hcom, ofExcept_ok, Prog.ret_bind, wp_bind]
    refine wp_mono (fun r w' h => ?_) (delete_alone [STATS_KEY] _)
    obtain ⟨rfl, hdb', -⟩ := h
    refine Prod.ext rfl ?_
    show w'.db.table = _
    rw [hdb', hdb, hw, Db.commit_write hidle]
    rfl
  · rw [hf] at hcom hdb
    rw [hcom, ofExcept_error, Prog.raise_bind, wp_raise, hdb, hw]
    rfl

theorem store_created (hidle : w.db.pending i = []) {d : Draft} {c : Complaint}
    (hrow : d.row (E.utc w.ticks 0) (E.utc w.ticks 1) = some c) :
    wp (machine E) i (do
      let complaint ← Repository.add d
      Repository.commit
      StatsService.invalidate
      return complaint)
      (fun r w' => (r, w'.db.table) = created (E.dbFault w.ticks) (E.dbFault (w.ticks + 1)) w.db.table c) w := by
  show wp (machine E) i (.op (.insert d) fun r => ofExcept r >>= fun complaint => do
    Repository.commit; StatsService.invalidate; return complaint) _ w
  have hview : (w.db.view i).ids = w.db.table.ids := by rw [Db.view_idle hidle]
  obtain ⟨hins, hdb⟩ := exec_stmt (E := E) (w := w) (World.insertStmt i (E.utc w.ticks 0) (E.utc w.ticks 1) d)
  have hins : (World.exec E i (.insert d) w).1 = _ := hins
  have hdb : (World.exec E i (.insert d) w).2.db = _ := hdb
  rw [wp_op, created]
  rcases hf : E.dbFault w.ticks with _ | cls
  · rw [hf] at hins hdb
    simp only [World.insertStmt, hrow, hview] at hins hdb
    split at hins
    · rename_i hfit
      rw [if_pos hfit] at hdb ⊢
      split at hins
      · rename_i hold
        rw [if_pos hold] at hdb ⊢
        rw [hins, ofExcept_error, Prog.raise_bind, wp_raise]
        exact congrArg (fun db => (Except.error World.refused, db.table)) hdb
      · rename_i hnew
        rw [if_neg hnew] at hdb ⊢
        rw [hins, ofExcept_ok, Prog.ret_bind]
        exact commit_alone hidle hdb c
    · rename_i hfit
      rw [if_neg hfit] at hdb ⊢
      rw [hins, ofExcept_error, Prog.raise_bind, wp_raise]
      exact congrArg (fun db => (Except.error World.refused, db.table)) hdb
  · rw [hf] at hins hdb
    rw [hins, ofExcept_error, Prog.raise_bind, wp_raise]
    exact congrArg (fun db => (Except.error (Exc.databaseError cls), db.table)) hdb

theorem changeStatus_moved (hutc : ∀ m, E.utc m = E.utc 0) (hidle : w.db.pending i = []) (id : Uuid) (target : Status) :
    wp (machine E) i (ComplaintService.changeStatus id target) (fun r w' => (r, w'.db.table) =
      moved (E.dbFault w.ticks) (E.dbFault (w.ticks + 1)) (E.dbFault (w.ticks + 2)) w.db.table id target (E.utc 0 0)) w := by
  obtain ⟨hsel, hdb⟩ := exec_stmt (E := E) (w := w) (World.selectForUpdateStmt i id)
  have hsel : (World.exec E i (.selectForUpdate id) w).1 = _ := hsel
  have hdb : (World.exec E i (.selectForUpdate id) w).2.db = _ := hdb
  show wp (machine E) i (.op (.selectForUpdate id) fun r => ofExcept r >>= _) _ w
  rw [wp_op, moved]
  rcases hf : E.dbFault w.ticks with _ | cls
  · rw [hf] at hsel hdb
    simp only [World.selectForUpdateStmt, Db.view_idle hidle] at hsel hdb
    rcases hfind : w.db.table.find id with _ | c
    · rw [hfind] at hsel hdb
      rw [hsel, ofExcept_ok, Prog.ret_bind]
      exact congrArg (fun db => (Except.error (Exc.notFoundError "complaint".toList), db.table)) hdb
    · rw [hfind] at hsel hdb
      simp only at hsel hdb
      obtain rfl : c.id = id := (Table.find_some hfind).2
      rw [hsel, ofExcept_ok, Prog.ret_bind]
      -- the lock is taken, the rows are as they were
      have htable : ((machine E).exec i (.selectForUpdate c.id) w).2.db.table = w.db.table := by
        rw [show ((machine E).exec i (.selectForUpdate c.id) w).2.db = _ from hdb]
      have hidle' : ((machine E).exec i (.selectForUpdate c.id) w).2.db.pending i = [] := by
        rw [show ((machine E).exec i (.selectForUpdate c.id) w).2.db = _ from hdb]
        exact hidle
      have hticks : ((machine E).exec i (.selectForUpdate c.id) w).2.ticks = w.ticks + 1 := rfl
      rw [show w.ticks + 2 = (w.ticks + 1) + 1 from rfl, ← hticks, ← htable]
      generalize ((machine E).exec i (.selectForUpdate c.id) w).2 = w₁ at hidle'
      show wp (machine E) i (if canTransition c.status target = true then _ else _)
        (fun r w' => (r, w'.db.table) = if canTransition c.status target = true then _ else _) w₁
      by_cases hcan : canTransition c.status target = true
      · simp only [if_pos hcan]
        obtain ⟨hup, hdb'⟩ := exec_stmt (E := E) (w := w₁) fun db =>
          (.ok (E.utc w₁.ticks 0), db.write i (.setStatus c.id target (E.utc w₁.ticks 0)) c.id)
        have hup : (World.exec E i (.updateStatus c.id target) w₁).1 = _ := hup
        have hdb' : (World.exec E i (.updateStatus c.id target) w₁).2.db = _ := hdb'
        show wp (machine E) i (.op (.updateStatus c.id target) fun r => (ofExcept r >>= fun at_ =>
          .ret { c with status := target, updatedAt := at_ }) >>= _) _ w₁
        rw [wp_op]
        rcases hg : E.dbFault w₁.ticks with _ | cls
        · rw [hg, hutc w₁.ticks] at hup hdb'
          rw [show ((machine E).exec i (.updateStatus c.id target) w₁).1 = .ok (E.utc 0 0) from hup, ofExcept_ok,
            Prog.ret_bind, Prog.ret_bind]
          exact commit_alone hidle' hdb' _
        · rw [hg] at hup hdb'
          rw [show ((machine E).exec i (.updateStatus c.id target) w₁).1 = _ from hup, ofExcept_error, Prog.raise_bind,
            Prog.raise_bind, wp_raise]
          exact congrArg (fun db => (Except.error (Exc.databaseError cls), db.table)) hdb'
      · simp only [if_neg hcan]
        exact congrArg (Prod.mk _) rfl
  · rw [hf] at hsel hdb
    rw [hsel, ofExcept_error, Prog.raise_bind, wp_raise]
    exact congrArg (fun db => (Except.error (Exc.databaseError cls), db.table)) hdb

end

end CivicPulse.Outages
